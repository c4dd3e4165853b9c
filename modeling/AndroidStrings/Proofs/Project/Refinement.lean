import AndroidStrings.Proofs.Project.Session

/-!
# Edits of files refine edits in memory

A command edits every file at most once, and writes it only when something was applied.  So the
files behind it are those of before with the edited documents stored, and a row of commands on
the files does what it does in memory.

## Main statements

- `performs` : what a command answers and leaves, by its edit in memory.
- `perform_refines` : a command edits the files that it reports as edited and no others, and what
  it stores is read back; a row of commands does on the files what it does in memory.
-/

namespace AndroidStrings

open ResourceDirectory

/-!
# Targets
-/

namespace FileTree.SameNames

variable {left right : FileTree}

theorem languages
    (h : SameNames left right)
    (directory : ResourceDirectory) :
    ResourceDirectory.languages left directory = ResourceDirectory.languages right directory := by
  have htranslation : translationIn? left = translationIn? right := by
    funext root folder
    unfold translationIn?
    split
    · rfl
    · rw [h.isFile]
  unfold ResourceDirectory.languages
  rw [h.resolve, htranslation]
  cases right.resolve directory.root with
  | error fault => rfl
  | ok root => simp only [h.isDirectory, h.children]

theorem targets
    (h : SameNames left right)
    (directory : ResourceDirectory) (scope : Scope) :
    ResourceDirectory.targets left directory scope =
      ResourceDirectory.targets right directory scope := by
  cases scope with
  | sourceOnly => rfl
  | everywhere =>
      unfold ResourceDirectory.targets
      rw [h.languages]

theorem sortTargets
    (h : SameNames left right)
    (directory : ResourceDirectory) (language : Option Text) :
    ResourceDirectory.sortTargets left directory language =
      ResourceDirectory.sortTargets right directory language := by
  cases language with
  | none => exact h.languages directory
  | some language =>
      unfold ResourceDirectory.sortTargets
      simp only [h.isFileAt]

end FileTree.SameNames

/-!
# One command
-/

namespace Session

variable {session : Session} {directory : ResourceDirectory}

/-- What a command on the files answers and leaves is what it does in memory: the tree is the
session behind it, a command that fails has edited nothing, and the files that are reported as
edited are those that were. -/
structure Performs (session : Session) (directory : ResourceDirectory) (command : ProjectCommand)
    (done : Edited BatchReport) : Prop where
  saved : done.2 = (session.perform directory command).save
  failed : forall fault : Error,
    done.1 = .error fault -> session.perform directory command = session
  outcome : forall (report : BatchReport) (outcome : TargetOutcome),
    done.1 = .ok report -> outcome ∈ command.fileOutcomes report ->
      outcome.target ∈ session.targets directory command ∧
        outcome.status.isApplied =
          (session.change? directory (session.edit directory command) outcome.target).isSome
  reported : forall (report : BatchReport) (language : Text) (kept : Path × Document),
    done.1 = .ok report -> language ∈ session.targets directory command ->
      session.change? directory (session.edit directory command) language = some kept ->
        ⟨language, .applied⟩ ∈ command.fileOutcomes report

theorem isApplied_statusOf (skipReason : Text) (edit : DocumentEdit) (language : Text) :
    (statusOf skipReason (session.result directory edit language)).isApplied =
      (session.change? directory edit language).isSome := by
  rw [change?]
  cases session.result directory edit language with
  | error fault => rfl
  | ok edited => cases edited <;> rfl

theorem statusOf_eq_applied
    {edit : DocumentEdit} {language : Text} {kept : Path × Document}
    (h : session.change? directory edit language = some kept)
    (skipReason : Text) :
    statusOf skipReason (session.result directory edit language) = .applied := by
  rw [change?] at h
  split at h
  · rename_i new hresult
    rw [hresult]
    rfl
  · simp at h

theorem change?_of_error
    {edit : DocumentEdit} {language : Text} {fault : Error}
    (h : session.result directory edit language = .error fault) :
    session.change? directory edit language = none := by
  rw [change?, h]

theorem perform_of_unchanged
    {command : ProjectCommand}
    (h : forall language, language ∈ session.targets directory command ->
      session.change? directory (session.edit directory command) language = none) :
    session.perform directory command = session := by
  rw [perform, List.filterMap_eq_nil_iff.mpr h]
  rfl

theorem performs_of_error
    {command : ProjectCommand} {fault : Error}
    (h : forall language, language ∈ session.targets directory command ->
      session.change? directory (session.edit directory command) language = none) :
    session.Performs directory command (.error fault, session.save) := by
  have hsame := perform_of_unchanged h
  constructor
  · rw [hsame]
  · exact fun _ _ => hsame
  · intro report outcome hreport
    simp at hreport
  · intro report language kept hreport
    simp at hreport

theorem performs_of_nothing
    {command : ProjectCommand} {report : BatchReport}
    (h : forall language, language ∈ session.targets directory command ->
      session.change? directory (session.edit directory command) language = none)
    (houtcomes : command.fileOutcomes report = []) :
    session.Performs directory command (.ok report, session.save) := by
  constructor
  · rw [perform_of_unchanged h]
  · intro fault hfault
    simp at hfault
  · intro report' outcome hreport hmem
    rw [Except.ok.injEq] at hreport
    rw [← hreport, houtcomes] at hmem
    exact absurd hmem List.not_mem_nil
  · intro report' language kept hreport hlanguage hchange
    rw [h language hlanguage] at hchange
    simp at hchange

/-- A command goes to each file once. -/
theorem nodup_targets (session : Session) (directory : ResourceDirectory)
    (command : ProjectCommand) :
    ((session.targets directory command).map directory.place).Nodup := by
  have hfound : forall targets : Except Error (List Text),
      (forall languages : List Text,
        targets = .ok languages -> (languages.map directory.place).Nodup) ->
          ((targets.toOption.getD []).map directory.place).Nodup := by
    intro targets hnodup
    cases targets with
    | error fault => exact List.nodup_nil
    | ok languages => exact hnodup languages rfl
  cases command with
  | addString id value mode scope => exact hfound _ fun _ => nodup_places_of_targets
  | addPlural id forms mode scope => exact hfound _ fun _ => nodup_places_of_targets
  | remove id => exact hfound _ fun _ => nodup_places_of_targets
  | sort language => exact hfound _ fun _ => nodup_places_of_sortTargets
  | setBatch language pairs mode create => exact List.nodup_singleton _
  | setPlurals language id forms mode => exact List.nodup_singleton _

theorem performs_of_batch
    {command : ProjectCommand} {targets : Except Error (List Text)}
    (hfiles : session.HoldsFiles)
    (hload : forall language : Text,
      ResourceDirectory.load session.save directory language = session.load directory language)
    (htargets : session.targets directory command = targets.toOption.getD [])
    (houtcomes : forall report : BatchReport, command.fileOutcomes report = report.outcomes)
    (skipReason : Text) :
    session.Performs directory command
      (batch directory skipReason (session.edit directory command) session.save targets) := by
  cases targets with
  | error fault =>
      apply performs_of_error
      intro language hlanguage
      rw [htargets] at hlanguage
      exact absurd hlanguage List.not_mem_nil
  | ok languages =>
      change session.targets directory command = languages at htargets
      have hnodup := nodup_targets session directory command
      rw [htargets] at hnodup
      have hbatch : applyToAll directory skipReason (session.edit directory command) session.save
          languages = _ :=
        applyToAll_save hfiles hnodup (fun language _ => hload language) skipReason
      constructor
      · simp only [batch, hbatch, perform, htargets]
      · intro fault hfault
        simp [batch] at hfault
      · intro report outcome hreport hmem
        simp only [batch, hbatch, Except.ok.injEq] at hreport
        rw [houtcomes, ← hreport] at hmem
        rcases List.mem_map.mp hmem with ⟨language, hlanguage, rfl⟩
        rw [htargets]
        exact ⟨hlanguage, isApplied_statusOf skipReason _ language⟩
      · intro report language kept hreport hlanguage hchange
        simp only [batch, hbatch, Except.ok.injEq] at hreport
        rw [htargets] at hlanguage
        rw [houtcomes, ← hreport]
        refine List.mem_map.mpr ⟨language, hlanguage, ?_⟩
        rw [statusOf_eq_applied hchange]

theorem performs_sort
    (hfiles : session.HoldsFiles)
    (hload : forall language : Text,
      ResourceDirectory.load session.save directory language = session.load directory language)
    (language : Option Text) :
    session.Performs directory (.sort language)
      (sort session.save directory language) := by
  have hnames := hfiles.sameNames_save
  have horder : sourceOrder session.save directory =
      (session.load directory Qualifier.sourceLanguage).map Document.order := by
    rw [sourceOrder, loadSource, hload]
  cases hsource : session.load directory Qualifier.sourceLanguage with
  | error fault =>
      have hdone : sort session.save directory language = (.error fault, session.save) := by
        rw [ResourceDirectory.sort, horder, hsource]
        rfl
      rw [hdone]
      apply performs_of_error
      intro other _
      rw [change?, result]
      cases session.load directory other with
      | error fault' => rfl
      | ok document =>
          simp only [Except.bind, edit, hsource]
  | ok source =>
      have hedit : session.edit directory (.sort language) = fun document =>
          (document.sort source.order).map some := by
        funext document
        simp only [edit, hsource, Except.bind]
      have hdone : sort session.save directory language =
          batch directory [] (session.edit directory (.sort language)) session.save
            (sortTargets session.tree directory language) := by
        rw [ResourceDirectory.sort, horder, hsource, hnames.sortTargets, hedit]
        rfl
      rw [hdone]
      exact performs_of_batch hfiles hload rfl (fun report => rfl) []

/-- A command for one file that is written when there is something to write. -/
theorem performs_one
    {command : ProjectCommand} {language : Text} {report : BatchReport} {new : Document}
    {document : Document}
    (hfiles : session.HoldsFiles)
    (hload : session.load directory language = .ok document)
    (htargets : session.targets directory command = [language])
    (hedit : session.edit directory command document = .ok (some new))
    (houtcomes : command.fileOutcomes report = [⟨language, .applied⟩]) :
    session.Performs directory command
      (.ok report, store session.save directory language new) := by
  have hchange : session.change? directory (session.edit directory command) language =
      some (directory.place language, new) := by
    rw [change?, result, hload]
    simp only [Except.bind, hedit]
  constructor
  · rw [perform, htargets, List.filterMap_cons, hchange]
    exact store_save hfiles hload
  · intro fault hfault
    simp at hfault
  · intro report' outcome hreport hmem
    rw [Except.ok.injEq] at hreport
    rw [← hreport, houtcomes, List.mem_singleton] at hmem
    rw [hmem, htargets, hchange]
    exact ⟨List.mem_singleton_self language, rfl⟩
  · intro report' other kept hreport hother _
    rw [Except.ok.injEq] at hreport
    rw [htargets, List.mem_singleton] at hother
    rw [← hreport, houtcomes, hother]
    exact List.mem_singleton_self _

theorem performs_setBatch
    (hfiles : session.HoldsFiles)
    (hload : forall language : Text,
      ResourceDirectory.load session.save directory language = session.load directory language)
    (language : Text) (pairs : List (Text × Text)) (mode : EscapeMode) (create : Bool) :
    session.Performs directory (.setBatch language pairs mode create)
      (setBatch session.save directory language pairs mode create) := by
  have hreference : ResourceDirectory.reference session.save directory language =
      session.reference directory language := by
    unfold ResourceDirectory.reference Session.reference
    split
    · rfl
    · rw [loadSourceResource, loadResource, hload]
      cases session.load directory Qualifier.sourceLanguage <;> rfl
  rw [setBatch, hload, hreference]
  cases hdocument : session.load directory language with
  | error fault =>
      apply performs_of_error
      intro other hother
      rw [List.mem_singleton.mp hother]
      apply change?_of_error
      rw [result, hdocument]
      rfl
  | ok document =>
      cases hsource : session.reference directory language with
      | error fault =>
          apply performs_of_error
          intro other hother
          rw [List.mem_singleton.mp hother]
          apply change?_of_error
          rw [result, hdocument]
          show session.edit directory (.setBatch language pairs mode create) document = .error fault
          simp only [edit, hsource, Except.map]
      | ok source =>
          let command : ProjectCommand := .setBatch language pairs mode create
          rcases hset : setStrings directory (directory.languagePath language) source mode create
            document pairs with ⟨new, outcomes⟩
          have hedit : session.edit directory command document =
              .ok (if 0 < (⟨outcomes⟩ : BatchReport).applied then some new else none) := by
            simp only [command, edit, hsource, Except.map, hset]
          simp only [hset]
          show session.Performs directory command (.ok ⟨outcomes⟩,
            if 0 < (⟨outcomes⟩ : BatchReport).applied then
              store session.save directory language new else session.save)
          by_cases happlied : 0 < (⟨outcomes⟩ : BatchReport).applied
          · rw [if_pos happlied] at hedit ⊢
            exact performs_one hfiles hdocument rfl hedit (if_pos happlied)
          · rw [if_neg happlied] at hedit ⊢
            refine performs_of_nothing ?_ (if_neg happlied)
            intro other hother
            rw [List.mem_singleton.mp hother, change?, result, hdocument]
            simp only [Except.bind, hedit]

theorem performs_setPlurals
    (hfiles : session.HoldsFiles)
    (hload : forall language : Text,
      ResourceDirectory.load session.save directory language = session.load directory language)
    (language id : Text) (forms : List (Quantity × Text)) (mode : EscapeMode) :
    session.Performs directory (.setPlurals language id forms mode)
      (directory.perform session.save (.setPlurals language id forms mode)) := by
  rw [ResourceDirectory.perform, setPlurals, hload]
  cases hdocument : session.load directory language with
  | error fault =>
      apply performs_of_error
      intro other hother
      rw [List.mem_singleton.mp hother]
      apply change?_of_error
      rw [result, hdocument]
      rfl
  | ok document =>
      let command : ProjectCommand := .setPlurals language id forms mode
      have hedit : session.edit directory command document =
          (document.setPlurals id forms mode).result.map fun _ =>
            some (document.setPlurals id forms mode).document :=
        rfl
      cases hstored : (document.setPlurals id forms mode).result with
      | error fault =>
          rw [hstored] at hedit
          simp only [hstored]
          apply performs_of_error
          intro other hother
          rw [List.mem_singleton.mp hother]
          apply change?_of_error
          rw [result, hdocument]
          exact hedit
      | ok outcome =>
          rw [hstored] at hedit
          simp only [hstored]
          have htargets : session.targets directory command = [language] := rfl
          exact performs_one hfiles hdocument htargets hedit rfl

/-- What a command on the files answers and leaves is what it does in memory. -/
theorem performs
    (hfiles : session.HoldsFiles)
    (hload : forall language : Text,
      ResourceDirectory.load session.save directory language = session.load directory language)
    (command : ProjectCommand) :
    session.Performs directory command (directory.perform session.save command) := by
  have htargets : forall scope : Scope,
      ResourceDirectory.targets session.save directory scope =
        ResourceDirectory.targets session.tree directory scope :=
    fun scope => hfiles.sameNames_save.targets directory scope
  cases command with
  | addString id value mode scope =>
      rw [ResourceDirectory.perform, addString, htargets]
      let command : ProjectCommand := .addString id value mode scope
      have htargets : session.targets directory command = _ := rfl
      exact performs_of_batch hfiles hload htargets (fun report => rfl) _
  | addPlural id forms mode scope =>
      rw [ResourceDirectory.perform, addPlural, htargets]
      let command : ProjectCommand := .addPlural id forms mode scope
      have htargets : session.targets directory command = _ := rfl
      exact performs_of_batch hfiles hload htargets (fun report => rfl) _
  | remove id =>
      rw [ResourceDirectory.perform, ResourceDirectory.remove, htargets]
      let command : ProjectCommand := .remove id
      have htargets : session.targets directory command = _ := rfl
      exact performs_of_batch hfiles hload htargets (fun report => rfl) _
  | sort language => exact performs_sort hfiles hload language
  | setBatch language pairs mode create =>
      exact performs_setBatch hfiles hload language pairs mode create
  | setPlurals language id forms mode => exact performs_setPlurals hfiles hload language id forms mode

/-!
# Edited documents
-/

theorem isRead_of_setOne
    {mode : EscapeMode} {create : Bool} {document new : Document} {id value : Text}
    (h : document.IsRead)
    (hset : setOne mode create document id value = .ok new) :
    new.IsRead := by
  unfold setOne at hset
  split at hset
  · have hread := h.perform (.setOrCreate id value mode)
    rw [Document.perform, hset] at hread
    exact hread
  · have hread := h.perform (.set id value mode)
    rw [Document.perform, hset] at hread
    exact hread

theorem isRead_setStrings
    {document : Document}
    (h : document.IsRead)
    (path : Text) (source : Option ResourceFile) (mode : EscapeMode) (create : Bool)
    (pairs : List (Text × Text)) :
    (setStrings directory path source mode create document pairs).1.IsRead := by
  induction pairs generalizing document with
  | nil => exact h
  | cons pair pairs ih =>
      rcases pair with ⟨id, value⟩
      rw [setStrings]
      simp only
      split
      · exact ih h
      · rename_i new hnew
        apply ih
        split at hnew
        · cases hset : setOne mode create document id value with
          | error fault =>
              rw [hset] at hnew
              simp [Except.mapError] at hnew
          | ok edited =>
              rw [hset] at hnew
              rw [← Except.ok.inj hnew]
              exact isRead_of_setOne h hset
        · simp at hnew

/-- An edited document is what its text is read as. -/
theorem isRead_of_edit
    {command : ProjectCommand} {document new : Document}
    (h : document.IsRead)
    (hedit : session.edit directory command document = .ok (some new)) :
    new.IsRead := by
  cases command with
  | addString id value mode scope =>
      have hread := h.perform (.add id value mode)
      change document.add? id value mode = .ok (some new) at hedit
      rw [Document.perform, hedit] at hread
      exact hread
  | addPlural id forms mode scope =>
      have hread := h.perform (.addPlural id forms mode)
      change document.addPlural? id forms mode = .ok (some new) at hedit
      rw [Document.perform, hedit] at hread
      exact hread
  | remove id =>
      have hread := h.perform (.remove id)
      change allSteps (document.remove id) = .ok (some new) at hedit
      unfold allSteps at hedit
      split at hedit
      · simp at hedit
      · rw [Except.ok.injEq, Option.some.injEq] at hedit
        rw [← hedit]
        exact hread
      · simp at hedit
  | sort language =>
      rcases Success.bind_eq_ok_iff.mp hedit with ⟨source, _, hsort⟩
      rcases Success.map_eq_ok_iff.mp hsort with ⟨sorted, hsorted, heq⟩
      have hread := h.perform (.sort source.order)
      rw [Document.perform, hsorted, Option.some.inj heq] at hread
      exact hread
  | setBatch language pairs mode create =>
      rcases Success.map_eq_ok_iff.mp hedit with ⟨source, _, hset⟩
      simp only at hset
      split at hset
      · rw [Option.some.injEq] at hset
        rw [← hset]
        exact isRead_setStrings h _ _ _ _ _
      · simp at hset
  | setPlurals language id forms mode =>
      rcases Success.map_eq_ok_iff.mp hedit with ⟨outcome, _, heq⟩
      rw [← Option.some.inj heq]
      exact h.perform (.setPlurals id forms mode)

/-!
# Rows of commands
-/

theorem exists_of_mem_changes
    {command : ProjectCommand} {kept : Path × Document}
    (h : kept ∈ (session.targets directory command).filterMap
      (session.change? directory (session.edit directory command))) :
    exists language : Text, language ∈ session.targets directory command ∧
      session.change? directory (session.edit directory command) language = some kept :=
  List.mem_filterMap.mp h

theorem HoldsFiles.perform
    (h : session.HoldsFiles)
    (command : ProjectCommand) :
    (session.perform directory command).HoldsFiles := by
  apply h.hold
  intro kept hkept
  rcases exists_of_mem_changes hkept with ⟨language, _, hchange⟩
  rcases mem_change? (Option.mem_toList.mpr hchange) with ⟨hplace, document, hdocument, _⟩
  rw [hplace]
  exact (isFile_of_load h hdocument).2

theorem HoldsRead.perform
    (h : session.HoldsRead)
    (command : ProjectCommand) :
    (session.perform directory command).HoldsRead := by
  intro kept hkept
  rcases List.mem_append.mp hkept with hnew | hold
  · rcases exists_of_mem_changes (List.mem_reverse.mp hnew) with ⟨language, _, hchange⟩
    rcases mem_change? (Option.mem_toList.mpr hchange) with ⟨_, document, hdocument, hedit⟩
    exact isRead_of_edit (isRead_of_load h hdocument) hedit
  · exact h kept hold

theorem Plain.of_perform
    {command : ProjectCommand}
    (h : (session.perform directory command).Plain) :
    session.Plain :=
  fun kept hkept => h kept (List.mem_append_right _ hkept)

theorem Plain.of_performAll
    {commands : List ProjectCommand}
    (h : (session.performAll directory commands).Plain) :
    session.Plain := by
  induction commands generalizing session with
  | nil => exact h
  | cons command commands ih => exact (ih h).of_perform

theorem Plain.load_save
    (hplain : session.Plain)
    (hfiles : session.HoldsFiles)
    (hread : session.HoldsRead)
    (language : Text) :
    ResourceDirectory.load session.save directory language = session.load directory language := by
  apply Session.load_save hfiles
  intro document hdocument
  have hkept := mem_edited_of_document? hdocument
  rw [Encoding.decode_encode (hplain _ hkept)]
  exact hread _ hkept

/-- A row of commands does on the files what it does in memory. -/
theorem performAll_save
    {commands : List ProjectCommand}
    (hfiles : session.HoldsFiles)
    (hread : session.HoldsRead)
    (hplain : (session.performAll directory commands).Plain) :
    directory.performAll session.save commands = (session.performAll directory commands).save ∧
      forall language : Text,
        ResourceDirectory.load (directory.performAll session.save commands) directory language =
          (session.performAll directory commands).load directory language := by
  induction commands generalizing session with
  | nil => exact ⟨rfl, hplain.load_save hfiles hread⟩
  | cons command commands ih =>
      have hload : forall language : Text, ResourceDirectory.load session.save directory language =
          session.load directory language :=
        hplain.of_performAll.load_save hfiles hread
      have hdone := (performs hfiles hload command).saved
      have hfilesNext : (session.perform directory command).HoldsFiles := hfiles.perform command
      have hrest := ih hfilesNext (hread.perform command) hplain
      rw [← hdone] at hrest
      exact hrest

end Session

/-!
# What a command does to the files
-/

open Session in
/-- A command edits the files that it reports as edited, each as a whole, and no others. -/
structure ResourceDirectory.EditsWhole (directory : ResourceDirectory) (tree : FileTree)
    (command : ProjectCommand) (answer : Except Error BatchReport) (left : FileTree) : Prop where
  /-- No file comes or goes. -/
  names : FileTree.SameNames left tree
  failed : forall fault : Error, answer = .error fault -> left = tree
  /-- A file that is not reported as edited keeps its bytes, whether a target or not. -/
  untouched : forall (report : BatchReport) (place : Path),
    answer = .ok report ->
      (forall outcome, outcome ∈ command.fileOutcomes report ->
        outcome.status = .applied -> directory.place outcome.target ≠ place) ->
          left.read? place = tree.read? place
  skipped : forall (report : BatchReport) (outcome : TargetOutcome),
    answer = .ok report -> outcome ∈ command.fileOutcomes report ->
      outcome.status ≠ .applied ->
        left.readAt? (directory.languagePath outcome.target) =
          tree.readAt? (directory.languagePath outcome.target)
  /-- An edited file holds the text of the edited document, and is read back as the document
  unless the text begins with a mark. -/
  edited : forall (report : BatchReport) (outcome : TargetOutcome),
    answer = .ok report -> outcome ∈ command.fileOutcomes report ->
      outcome.status = .applied ->
        exists document new : Document,
          load tree directory outcome.target = .ok document ∧
            (ofTree tree).edit directory command document = .ok (some new) ∧
            left.readAt? (directory.languagePath outcome.target) =
              some (Encoding.encode new.text) ∧
            (Document.PlainStart new.text -> load left directory outcome.target = .ok new)

namespace Session

variable {directory : ResourceDirectory} {tree : FileTree}

theorem load_ofTree (language : Text) :
    (ofTree tree).load directory language = ResourceDirectory.load tree directory language := by
  unfold load
  split
  · rename_i document hdocument
    rcases Option.bind_eq_some_iff.mp hdocument with ⟨place, _, hnone⟩
    simp [ofTree, document?] at hnone
  · rfl

theorem holdsFiles_ofTree (tree : FileTree) : (ofTree tree).HoldsFiles :=
  fun _ hkept => absurd hkept List.not_mem_nil

theorem holdsRead_ofTree (tree : FileTree) : (ofTree tree).HoldsRead :=
  fun _ hkept => absurd hkept List.not_mem_nil

/-- What a command has made of a file is what it makes of the file's own document. -/
theorem mem_changes_of_document?
    {command : ProjectCommand} {place : Path} {document : Document}
    (h : ((ofTree tree).perform directory command).document? place = some document) :
    exists language : Text, language ∈ (ofTree tree).targets directory command ∧
      (ofTree tree).change? directory ((ofTree tree).edit directory command) language =
        some (place, document) := by
  have hkept := mem_edited_of_document? h
  rcases List.mem_append.mp hkept with hnew | hold
  · exact exists_of_mem_changes (List.mem_reverse.mp hnew)
  · exact absurd hold List.not_mem_nil

theorem document?_of_change?
    {command : ProjectCommand} {language : Text} {kept : Path × Document}
    (hlanguage : language ∈ (ofTree tree).targets directory command)
    (hchange : (ofTree tree).change? directory ((ofTree tree).edit directory command) language =
      some kept) :
    ((ofTree tree).perform directory command).document? (directory.place language) =
      some kept.2 := by
  have hplace := (mem_change? (Option.mem_toList.mpr hchange)).1
  have hkept : kept ∈ ((ofTree tree).perform directory command).edited :=
    List.mem_append_left _ (List.mem_reverse.mpr (List.mem_filterMap.mpr ⟨language, hlanguage, hchange⟩))
  rcases exists_document? hkept with ⟨document, hdocument⟩
  rw [hplace] at hdocument
  -- No other target has this file, so the newest document of it is the one of this target.
  rcases mem_changes_of_document? hdocument with ⟨other, hother, hsame⟩
  have hplaces := (mem_change? (Option.mem_toList.mpr hsame)).1
  have heq : other = language :=
    List.inj_on_of_nodup_map (nodup_targets (ofTree tree) directory command) hother hlanguage
      hplaces.symm
  rw [heq, hchange] at hsame
  rw [hdocument, Option.some.inj hsame]

end Session

theorem Session.performs_ofTree (directory : ResourceDirectory) (tree : FileTree)
    (command : ProjectCommand) :
    (ofTree tree).Performs directory command (directory.perform tree command) :=
  performs (holdsFiles_ofTree tree) (fun language => (load_ofTree language).symm) command

theorem TargetStatus.isApplied_iff {status : TargetStatus} :
    status.isApplied = true ↔ status = .applied := by
  cases status <;> simp [isApplied]

namespace ResourceDirectory

open Session

theorem editsWhole_perform (directory : ResourceDirectory) (tree : FileTree)
    (command : ProjectCommand) :
    directory.EditsWhole tree command (directory.perform tree command).1
      (directory.perform tree command).2 := by
  have hperforms := performs_ofTree directory tree command
  have hnames : FileTree.SameNames (directory.perform tree command).2 tree := by
    rw [hperforms.saved]
    exact ((holdsFiles_ofTree tree).perform command).sameNames_save
  have hread := read?_save ((ofTree tree).perform directory command)
  rw [← hperforms.saved] at hread
  constructor
  · exact hnames
  · intro fault hfault
    rw [hperforms.saved, hperforms.failed fault hfault]
    rfl
  · intro report place hreport hplace
    rw [hread]
    cases hdocument : ((ofTree tree).perform directory command).document? place with
    | none => rfl
    | some document =>
        rcases mem_changes_of_document? hdocument with ⟨language, hlanguage, hchange⟩
        exact absurd (mem_change? (Option.mem_toList.mpr hchange)).1.symm
          (hplace _ (hperforms.reported report language _ hreport hlanguage hchange) rfl)
  · intro report outcome hreport hmem hstatus
    rcases hperforms.outcome report outcome hreport hmem with ⟨htarget, happlied⟩
    refine hnames.readAt? ?_
    rw [hread]
    cases hdocument : ((ofTree tree).perform directory command).document?
        (directory.place outcome.target) with
    | none =>
        rw [place] at hdocument
        rw [hdocument]
        rfl
    | some document =>
        rcases mem_changes_of_document? hdocument with ⟨language, hlanguage, hchange⟩
        have hplace := (mem_change? (Option.mem_toList.mpr hchange)).1
        have heq : language = outcome.target :=
          List.inj_on_of_nodup_map (nodup_targets (ofTree tree) directory command) hlanguage
            htarget hplace.symm
        rw [← heq, hchange] at happlied
        exact absurd (TargetStatus.isApplied_iff.mp happlied) hstatus
  · intro report outcome hreport hmem hstatus
    rcases hperforms.outcome report outcome hreport hmem with ⟨htarget, happlied⟩
    rw [hstatus] at happlied
    rcases Option.isSome_iff_exists.mp happlied.symm with ⟨kept, hchange⟩
    rcases mem_change? (Option.mem_toList.mpr hchange) with ⟨_, document, hdocument, hedit⟩
    have hresolve : (directory.perform tree command).2.resolve
        (directory.languagePath outcome.target) = .ok (directory.place outcome.target) := by
      rw [hnames.resolve]
      exact (isFile_of_load (holdsFiles_ofTree tree) hdocument).1
    have hbytes : (directory.perform tree command).2.read? (directory.place outcome.target) =
        some (Encoding.encode kept.2.text) := by
      rw [hread, document?_of_change? htarget hchange]
    refine ⟨document, kept.2, ?_, hedit, ?_, ?_⟩
    · rw [← load_ofTree]
      exact hdocument
    · exact (FileTree.readAt?_eq_some_iff _ _ _).mpr ⟨hresolve, hbytes⟩
    · intro hplain
      rw [load_eq_of_resolve hresolve, hbytes]
      simp only [Encoding.decode_encode hplain]
      exact isRead_of_edit (isRead_of_load (holdsRead_ofTree tree) hdocument) hedit

/-- A source file with one string, and a translation of it that is stored as UTF-16. -/
def sourceAndFrench : FileTree :=
  ⟨[(["res".toList, "values".toList, fileName],
      Encoding.encode "<resources><string name=\"a\">x</string></resources>".toList),
    (["res".toList, "values-fr".toList, fileName],
      0xFF :: 0xFE :: (Encoding.encode
        "<resources><string name=\"a\">y</string></resources>".toList).flatMap fun b => [b, 0])],
    []⟩

/-- Sets a string of the translation, and removes it everywhere. -/
def setAndRemove : List ProjectCommand :=
  [.setBatch "fr".toList [("a".toList, "z".toList)] .raw false, .remove "a".toList]

end ResourceDirectory
end AndroidStrings
