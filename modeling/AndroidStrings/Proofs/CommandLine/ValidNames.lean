import AndroidStrings.Proofs.CommandLine.Edit

/-!
# Names that command lines create

A command that makes an element checks its name first, but for the one that sets plurals.  So the
names of a project stay valid exactly as long as the plurals that are set have valid names, and
sorting writes no tag so that another name is read from it.

## Main statements

- `hasValidNames_perform_iff` : which documents decide about the names behind an edit.
- `RemovesNames.hasValidNames` : the names behind a removal.
- `run_hasValidNames_iff` : the names behind a run of the command line.
-/

namespace AndroidStrings

open Markup Document ResourceDirectory Session CommandLine

namespace FileTree

/-- What every file of strings has that can be read. -/
def ForStrings (tree : FileTree) (p : Document -> Prop) : Prop :=
  forall (place : Path) (document : Document),
    place.getLast? = some fileName -> tree.document? place = some document -> p document

instance (tree : FileTree) (p : Document -> Prop) [DecidablePred p] :
    Decidable (tree.ForStrings p) :=
  decidable_of_iff (forall file, file ∈ tree.files -> file.1.getLast? = some fileName ->
      forall document, document ∈ (tree.document? file.1).toList -> p document) <| by
    constructor
    · intro h place document hplace hdocument
      rcases Option.bind_eq_some_iff.mp hdocument with ⟨bytes, hread, _⟩
      rcases List.mem_map.mp ((isFile_iff_mem tree place).mp (isFile_of_read? hread)) with
        ⟨file, hfile, rfl⟩
      exact h file hfile hplace document (Option.mem_toList.mpr hdocument)
    · intro h file _ hplace document hdocument
      exact h file.1 document hplace (Option.mem_toList.mp hdocument)

/-- The files of strings have valid names only. -/
def HasValidNames (tree : FileTree) : Prop :=
  tree.ForStrings fun document => forall key, key ∈ document.order -> isValidId key.2 = true

/-- No file of strings begins with a mark. -/
def HasPlainStrings (tree : FileTree) : Prop :=
  tree.ForStrings fun document => PlainStart document.text

instance (tree : FileTree) : Decidable tree.HasValidNames :=
  inferInstanceAs (Decidable (tree.ForStrings fun document =>
    forall key, key ∈ document.order -> isValidId key.2 = true))

instance (tree : FileTree) : Decidable tree.HasPlainStrings :=
  inferInstanceAs (Decidable (tree.ForStrings fun document => PlainStart document.text))

end FileTree

namespace ResourceDirectory

variable {directory : ResourceDirectory} {tree left : FileTree} {command : ProjectCommand}

/-- The file of a language is a file of strings. -/
theorem getLast?_place (directory : ResourceDirectory) (language : Text) :
    (directory.place language).getLast? = some fileName := by
  have hpath : forall folder : Text,
      (FileTree.placeOf (directory.pathIn folder)).getLast? = some fileName := by
    intro folder
    rw [pathIn, FileTree.placeOf_joinPath _ (by decide), FileTree.step_eq_append (by decide)]
    exact List.getLast?_concat
  unfold place languagePath
  split
  · exact hpath sourceFolder
  · exact hpath (qualifiedPrefix ++ language)

theorem plainStart_of_load
    {language : Text} {document : Document}
    (hplain : tree.HasPlainStrings)
    (hload : load tree directory language = .ok document) :
    PlainStart document.text :=
  hplain _ document (directory.getLast?_place language) (load_eq_ok_iff.mp hload).2

theorem isValidId_of_load
    {language : Text} {document : Document}
    (hvalid : tree.HasValidNames)
    (hload : load tree directory language = .ok document) :
    forall key, key ∈ document.order -> isValidId key.2 = true :=
  hvalid _ document (directory.getLast?_place language) (load_eq_ok_iff.mp hload).2

/-- The names behind an edit are valid exactly if they are in the documents that it makes. -/
theorem hasValidNames_perform_iff
    (hvalid : tree.HasValidNames)
    (hplain : tree.HasPlainStrings)
    (horderly : command.Orderly directory tree)
    (hnames : forall key, key ∈ command.created -> IsVerbatim key.2) :
    (directory.perform tree command).2.HasValidNames ↔
      forall (language : Text) (document new : Document),
        language ∈ (ofTree tree).targets directory command ->
          load tree directory language = .ok document ->
            (ofTree tree).edit directory command document = .ok (some new) ->
              forall key, key ∈ new.order -> isValidId key.2 = true := by
  have hplainNew : forall (language : Text) (document new : Document),
      language ∈ (ofTree tree).targets directory command ->
        load tree directory language = .ok document ->
          (ofTree tree).edit directory command document = .ok (some new) ->
            PlainStart new.text :=
    fun language document new htarget hload hedit =>
      (rekeys_of_edit horderly hnames htarget hload (plainStart_of_load hplain hload) hedit).1
  constructor
  · intro h language document new htarget hload hedit
    have hnew := load_perform_of_edit htarget hload hedit
      (hplainNew language document new htarget hload hedit)
    exact h _ new (directory.getLast?_place language) (load_eq_ok_iff.mp hnew).2
  · intro h place found hplace hfound
    rcases document?_perform hfound (fun language document new htarget _ =>
      hplainNew language document new htarget) with
        hsame | ⟨language, document, htarget, _, hload, hedit⟩
    · exact hvalid place found hplace hsame
    · exact h language document found htarget hload hedit

/-- Removing names leaves valid names. -/
theorem RemovesNames.hasValidNames
    {ids : List Text}
    (h : directory.RemovesNames ids tree left)
    (hvalid : tree.HasValidNames)
    (hplain : tree.HasPlainStrings) :
    left.HasValidNames := by
  intro place found hplace hfound
  have hsame : left.read? place = tree.read? place ->
      forall key, key ∈ found.order -> isValidId key.2 = true := by
    intro hread
    rw [FileTree.document?, hread] at hfound
    exact hvalid place found hplace hfound
  by_cases htarget : exists language, language ∈ directory.everyLanguage tree ∧
      directory.place language = place
  · rcases htarget with ⟨language, hlanguage, rfl⟩
    cases hload : load tree directory language with
    | error fault => exact hsame (h.unreadable language fault hlanguage hload)
    | ok document =>
        rcases h.removed language document hlanguage hload (plainStart_of_load hplain hload) with
          ⟨new, hnew, _, hwithout⟩
        rw [(load_eq_ok_iff.mp hnew).2, Option.some.injEq] at hfound
        intro key hkey
        rw [← hfound, hwithout.mem_order_iff] at hkey
        exact isValidId_of_load hvalid hload key hkey.1
  · apply hsame
    apply h.untouched
    intro language hlanguage heq
    exact htarget ⟨language, hlanguage, heq⟩

/-!
# Edits by their kind
-/

section Kinds

variable (hvalid : tree.HasValidNames) (hplain : tree.HasPlainStrings)

include hvalid hplain

/-- Plurals that are set are in the file, whatever their name. -/
theorem hasValidNames_setPlurals_iff
    {language id : Text} {forms : List (Quantity × Text)} {mode : EscapeMode}
    (horderly : (ProjectCommand.setPlurals language id forms mode).Orderly directory tree) :
    (directory.perform tree (.setPlurals language id forms mode)).2.HasValidNames ↔
      ((exists (document : Document) (outcome : EditOutcome),
        load tree directory language = .ok document ∧
          (document.setPlurals id forms mode).result = .ok outcome) ->
            isValidId id = true) := by
  have hid : IsVerbatim id := horderly.verbatim language id forms mode rfl
  have hstored : forall (document : Document) (outcome : EditOutcome),
      load tree directory language = .ok document ->
        (document.setPlurals id forms mode).result = .ok outcome ->
          Grows [(.plurals, id)] document (document.setPlurals id forms mode).document ∧
            (.plurals, id) ∈ (document.setPlurals id forms mode).document.order :=
    fun document outcome hload hresult =>
      grows_setPlurals (plainStart_of_load hplain hload) (isRead_of_load hload) hid
        horderly.balanced hresult
  rw [hasValidNames_perform_iff hvalid hplain horderly (List.forall_mem_singleton.mpr hid)]
  constructor
  · rintro h ⟨document, outcome, hload, hresult⟩
    have hedit : (ofTree tree).edit directory (.setPlurals language id forms mode) document =
        .ok (some (document.setPlurals id forms mode).document) := by
      simp only [Session.edit, hresult, Except.map]
    exact h language document _ (List.mem_singleton_self language) hload hedit _
      (hstored document outcome hload hresult).2
  · intro h target document new htarget hload hedit key hkey
    rw [List.mem_singleton.mp htarget] at hload
    rcases Success.map_eq_ok_iff.mp hedit with ⟨outcome, hresult, heq⟩
    rw [← Option.some.inj heq] at hkey
    rcases (hstored document outcome hload hresult).1.new key hkey with hold | hnew
    · exact isValidId_of_load hvalid hload key hold
    · rw [List.mem_singleton.mp hnew]
      exact h ⟨document, outcome, hload, hresult⟩

/-- A sorted file has the names of its blocks as they are written. -/
theorem hasValidNames_sort_iff
    {language : Option Text}
    (horderly : (ProjectCommand.sort language).Orderly directory tree) :
    (directory.perform tree (.sort language)).2.HasValidNames ↔
      forall (target : Text) (source document sorted : Document),
        target ∈ (ofTree tree).targets directory (.sort language) ->
          load tree directory Qualifier.sourceLanguage = .ok source ->
            load tree directory target = .ok document ->
              document.sort source.order = .ok sorted ->
                forall key, key ∈ document.writtenKeys -> isValidId key.2 = true := by
  have hnames : forall key, key ∈ (ProjectCommand.sort language).created -> IsVerbatim key.2 :=
    fun _ hkey => absurd hkey List.not_mem_nil
  rw [hasValidNames_perform_iff hvalid hplain horderly hnames]
  constructor
  · intro h target source document sorted htarget hsource hload hsort key hkey
    have hedit : (ofTree tree).edit directory (.sort language) document = .ok (some sorted) := by
      simp only [Session.edit, load_ofTree, hsource, Except.bind, hsort, Except.map]
    have hkeys := (rekeys_of_edit horderly hnames htarget hload (plainStart_of_load hplain hload)
      hedit).2
    exact h target document sorted htarget hload hedit key ((hkeys key).mpr hkey)
  · intro h target document new htarget hload hedit key hkey
    have hkeys := (rekeys_of_edit horderly hnames htarget hload (plainStart_of_load hplain hload)
      hedit).2
    rcases Success.bind_eq_ok_iff.mp hedit with ⟨source, hsource, hsort⟩
    rcases Success.map_eq_ok_iff.mp hsort with ⟨sorted, hsorted, _⟩
    exact h target source document sorted htarget ((load_ofTree _).symm.trans hsource) hload
      hsorted key ((hkeys key).mp hkey)

/-- An edit that creates valid names only leaves valid names. -/
theorem hasValidNames_perform_of_created
    (horderly : command.Orderly directory tree)
    (hcreated : forall key, key ∈ command.created -> isValidId key.2 = true)
    (hsort : forall language, command ≠ .sort language) :
    (directory.perform tree command).2.HasValidNames := by
  have hnames : forall key, key ∈ command.created -> IsVerbatim key.2 :=
    fun key hkey => isVerbatim_of_isValidId (hcreated key hkey)
  rw [hasValidNames_perform_iff hvalid hplain horderly hnames]
  intro language document new htarget hload hedit key hkey
  have hkeys := (rekeys_of_edit horderly hnames htarget hload (plainStart_of_load hplain hload)
    hedit).2
  have hgrown : Grows command.created document new -> isValidId key.2 = true := by
    intro hgrows
    rcases hgrows.new key hkey with hold | hnew
    · exact isValidId_of_load hvalid hload key hold
    · exact hcreated key hnew
  cases command with
  | remove id => exact isValidId_of_load hvalid hload key ((hkeys key).mp hkey).1
  | sort language => exact absurd rfl (hsort language)
  | _ => exact hgrown hkeys

end Kinds

end ResourceDirectory

/-!
# Main statement
-/

namespace CommandLine

/-- The names behind an edit that a command asks for. -/
theorem Command.Asks.hasValidNames_iff
    {directory : ResourceDirectory} {tree : FileTree} {command : Command}
    {edit : ProjectCommand}
    (h : command.Asks edit)
    (hvalid : tree.HasValidNames)
    (hplain : tree.HasPlainStrings)
    (horderly : edit.Orderly directory tree)
    (config : Config) :
    (Run.command config tree directory command).tree.HasValidNames ↔
      (forall (language id : Text) (forms : List (Quantity × Text)) (mode : EscapeMode),
        command.Asks (.setPlurals language id forms mode) ->
          (Run.command config tree directory command).succeeded = true ->
            isValidId id = true) ∧
      forall language : Option Text, command.Asks (.sort language) ->
        forall (target : Text) (source document sorted : Document),
          target ∈ (ofTree tree).targets directory (.sort language) ->
            load tree directory Qualifier.sourceLanguage = .ok source ->
              load tree directory target = .ok document ->
                document.sort source.order = .ok sorted ->
                  forall key, key ∈ document.writtenKeys -> isValidId key.2 = true := by
  rw [h.tree_command]
  apply h.iff_of_kinds
  · rintro language id forms mode rfl
    rw [hasValidNames_setPlurals_iff hvalid hplain horderly, ← h.succeeded_iff]
  · rintro language rfl
    exact hasValidNames_sort_iff hvalid hplain horderly
  · intro hplurals hsorts
    exact hasValidNames_perform_of_created hvalid hplain horderly (h.isValidId_of_created hplurals)
      hsorts

/-- The names behind a run of the command line are valid exactly if plurals that are set have valid
names, and the blocks of files that are sorted have valid names as they are written. -/
theorem run_hasValidNames_iff
    {tree : FileTree} {invocation : Invocation}
    (hvalid : tree.HasValidNames)
    (hplain : tree.HasPlainStrings)
    (horderly : forall (directory : ResourceDirectory) (edit : ProjectCommand),
      invocation.Asks tree directory edit -> edit.Orderly directory tree) :
    (invocation.run tree).tree.HasValidNames ↔
      (forall (directory : ResourceDirectory) (language id : Text)
          (forms : List (Quantity × Text)) (mode : EscapeMode),
        invocation.Asks tree directory (.setPlurals language id forms mode) ->
          (invocation.run tree).succeeded = true -> isValidId id = true) ∧
      forall (directory : ResourceDirectory) (language : Option Text),
        invocation.Asks tree directory (.sort language) ->
          forall (target : Text) (source document sorted : Document),
            target ∈ (ofTree tree).targets directory (.sort language) ->
              load tree directory Qualifier.sourceLanguage = .ok source ->
                load tree directory target = .ok document ->
                  document.sort source.order = .ok sorted ->
                    forall key, key ∈ document.writtenKeys -> isValidId key.2 = true := by
  by_cases hasks : exists (directory : ResourceDirectory) (edit : ProjectCommand),
      invocation.Asks tree directory edit
  · rcases hasks with ⟨directory, edit, command, hproject, hasks⟩
    rcases Invocation.exists_run hproject with ⟨config, hrun⟩
    rw [hrun, hasks.hasValidNames_iff hvalid hplain
      (horderly directory edit ⟨command, hproject, hasks⟩) config]
    constructor
    · rintro ⟨hplurals, hsorts⟩
      constructor
      · intro other language id forms mode hother
        exact hplurals language id forms mode (hother.of_project? hproject).2
      · intro other language hother
        rcases hother.of_project? hproject with ⟨rfl, hsort⟩
        exact hsorts language hsort
    · rintro ⟨hplurals, hsorts⟩
      constructor
      · exact fun language id forms mode hother =>
          hplurals directory language id forms mode ⟨command, hproject, hother⟩
      · exact fun language hother => hsorts directory language ⟨command, hproject, hother⟩
  · have hleft : (invocation.run tree).tree.HasValidNames := by
      cases hproject : invocation.project? tree with
      | none =>
          rw [Invocation.tree_run_of_none hproject]
          exact hvalid
      | some found =>
          rcases found with ⟨directory, command⟩
          rcases Invocation.exists_run hproject with ⟨config, hrun⟩
          rw [hrun]
          rcases command.cases_command config tree directory with ⟨edit, hedit⟩ | ⟨ids, rfl⟩ | hsame
          · exact absurd ⟨directory, edit, command, hproject, hedit⟩ hasks
          · exact (directory.removesNames_removeAll 0 tree ids).hasValidNames hvalid hplain
          · rw [hsame]
            exact hvalid
    constructor
    · intro _
      constructor
      · exact fun directory _ _ _ _ hother => absurd ⟨directory, _, hother⟩ hasks
      · exact fun directory _ hother => absurd ⟨directory, _, hother⟩ hasks
    · exact fun _ => hleft

/-- A project with an empty source file. -/
def emptySource : FileTree :=
  ⟨[(["app".toList, "src".toList, "main".toList, "res".toList, "values".toList, fileName],
      Encoding.encode "<resources></resources>".toList)],
    []⟩

/-- Sets plurals of the source file. -/
def setInSource (id : Text) : Invocation :=
  .request ⟨none, none, .setOther Qualifier.sourceLanguage id⟩

theorem run_hasValidNames_iff_items :
    emptySource.HasValidNames ∧
      ((setInSource "items".toList).run emptySource).tree ≠ emptySource ∧
      ((setInSource "items".toList).run emptySource).tree.HasValidNames := by
  have hvalid : emptySource.HasValidNames := by
    decide +kernel
  have hchanged : ((setInSource "items".toList).run emptySource).tree ≠ emptySource := by
    decide +kernel
  have hplain : emptySource.HasPlainStrings := by
    decide +kernel
  have hproject : (setInSource "items".toList).project? emptySource =
      some (⟨"app/src/main/res".toList⟩, .setOther Qualifier.sourceLanguage "items".toList) := by
    decide +kernel
  have honly : forall (directory : ResourceDirectory) (edit : ProjectCommand),
      (setInSource "items".toList).Asks emptySource directory edit ->
        edit = .setPlurals Qualifier.sourceLanguage "items".toList [(.other, "x".toList)]
          .escaped :=
    fun directory edit hasks =>
      (Command.asks_setOther (by decide +kernel) _).unique (hasks.of_project? hproject).2
  have horderly : forall (directory : ResourceDirectory) (edit : ProjectCommand),
      (setInSource "items".toList).Asks emptySource directory edit ->
        edit.Orderly directory emptySource := by
    intro directory edit hasks
    rw [honly directory edit hasks]
    exact orderly_setOther ⟨by decide, by decide⟩ directory emptySource _
  refine ⟨hvalid, hchanged, (run_hasValidNames_iff hvalid hplain horderly).mpr ⟨?_, ?_⟩⟩
  · intro directory language id forms mode hasks _
    have heq := honly directory _ hasks
    rw [ProjectCommand.setPlurals.injEq] at heq
    rw [heq.2.1]
    decide
  · intro directory language hasks
    cases honly directory _ hasks

/-- Plurals are set under a name that is not checked. -/
theorem run_setPlurals_invalidName :
    emptySource.HasValidNames ∧
      read? ["set-plurals".toList, "source".toList, "1 bad".toList, "other".toList,
          "x".toList] = some (setInSource "1 bad".toList) ∧
      ((setInSource "1 bad".toList).run emptySource).succeeded = true ∧
      ¬ ((setInSource "1 bad".toList).run emptySource).tree.HasValidNames := by
  decide +kernel

end CommandLine
end AndroidStrings
