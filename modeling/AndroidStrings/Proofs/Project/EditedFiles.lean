import AndroidStrings.Proofs.Project.Refinement

/-!
# Files behind a command

A command leaves every file as it was, but for the targets that its edit makes something of.  What
it makes of one is read back from the file.

## Main statements

- `read?_perform` : the bytes of a target.
- `load_perform_of_edit`, `load_perform_of_unedited`, `load_perform_of_answer` : what a target is
  read as.
- `document?_perform`, `exists_load_perform` : what stands anywhere in the tree.
- `exists_outcomes_of_batch`, `exists_answer_of_batch` : what a batch, and one without failures, has
  done.
-/

namespace AndroidStrings

/-- The document of the file at a place, if there is one that can be read. -/
def FileTree.document? (tree : FileTree) (place : Path) : Option Document :=
  (tree.read? place).bind fun bytes => (Document.parse (Encoding.decode bytes)).toOption

namespace ResourceDirectory

open Session

variable {directory : ResourceDirectory} {tree left : FileTree} {language : Text}
  {command : ProjectCommand}

/-!
# Every language
-/

/-- The languages of the source file and of all translations. -/
def everyLanguage (directory : ResourceDirectory) (tree : FileTree) : List Text :=
  (targets tree directory .everywhere).toOption.getD []

theorem everyLanguage_eq
    {found : List Text}
    (h : targets tree directory .everywhere = .ok found) :
    directory.everyLanguage tree = found := by
  rw [everyLanguage, h]
  rfl

/-- No text of the source file or a translation begins with a mark. -/
def PlainTargets (directory : ResourceDirectory) (tree : FileTree) : Prop :=
  forall (language : Text) (document : Document),
    language ∈ directory.everyLanguage tree ->
      load tree directory language = .ok document -> Document.PlainStart document.text

instance (directory : ResourceDirectory) (tree : FileTree) :
    Decidable (directory.PlainTargets tree) :=
  decidable_of_iff (forall language, language ∈ directory.everyLanguage tree ->
      forall document, document ∈ (load tree directory language).toOption.toList ->
        Document.PlainStart document.text) <| by
    simp only [Success.mem_toList_toOption]
    exact ⟨fun h language document hlanguage => h language hlanguage document,
      fun h language hlanguage document => h language document hlanguage⟩

theorem sourceLanguage_mem_everyLanguage
    (h : language ∈ directory.everyLanguage tree) :
    Qualifier.sourceLanguage ∈ directory.everyLanguage tree := by
  unfold everyLanguage targets at h ⊢
  cases hfound : languages tree directory with
  | error fault =>
      rw [hfound] at h
      exact absurd h List.not_mem_nil
  | ok found => exact List.mem_cons_self

/-- Different languages of a directory have different files. -/
theorem eq_of_place_eq
    {other : Text}
    (hlanguage : language ∈ directory.everyLanguage tree)
    (hother : other ∈ directory.everyLanguage tree)
    (h : directory.place language = directory.place other) :
    language = other := by
  unfold everyLanguage at hlanguage hother
  cases hfound : targets tree directory .everywhere with
  | error fault =>
      rw [hfound] at hlanguage
      exact absurd hlanguage List.not_mem_nil
  | ok found =>
      rw [hfound] at hlanguage hother
      exact List.inj_on_of_nodup_map (nodup_places_of_targets hfound) hlanguage hother h

/-!
# Files that can be read
-/

theorem load_eq_of_read?
    (hnames : FileTree.SameNames left tree)
    (hread : left.read? (directory.place language) = tree.read? (directory.place language)) :
    load left directory language = load tree directory language := by
  unfold load
  simp only [hnames.readAt? hread]

/-- A document that can be loaded is the one that stands at the place of its file. -/
theorem load_eq_ok_iff {document : Document} :
    load tree directory language = .ok document ↔
      tree.resolve (directory.languagePath language) = .ok (directory.place language) ∧
        tree.document? (directory.place language) = some document := by
  cases hresolve : tree.resolve (directory.languagePath language) with
  | error fault => simp [load_eq_of_not_resolve hresolve]
  | ok found =>
      have hplace : found = directory.place language := FileTree.eq_placeOf_of_resolve hresolve
      rw [hplace] at hresolve
      rw [load_eq_of_resolve hresolve, FileTree.document?, hplace]
      cases tree.read? (directory.place language) with
      | none => simp
      | some bytes =>
          cases hparse : Document.parse (Encoding.decode bytes) <;>
            simp [hparse, Except.toOption]

/-- Where nothing is renamed, a file that could be read is read as the document at its place. -/
theorem load_of_document?
    {document new : Document}
    (hnames : FileTree.SameNames left tree)
    (hload : load tree directory language = .ok document)
    (hnew : left.document? (directory.place language) = some new) :
    load left directory language = .ok new := by
  refine load_eq_ok_iff.mpr ⟨?_, hnew⟩
  rw [hnames.resolve]
  exact (load_eq_ok_iff.mp hload).1

/-- Languages with one file have one document. -/
theorem eq_of_load_of_place_eq
    {other : Text} {document found : Document}
    (hplace : directory.place other = directory.place language)
    (hload : load tree directory language = .ok document)
    (hother : load tree directory other = .ok found) :
    found = document := by
  have hsame := (load_eq_ok_iff.mp hother).2
  rw [hplace, (load_eq_ok_iff.mp hload).2, Option.some.injEq] at hsame
  exact hsame.symm

theorem isRead_of_load
    {document : Document}
    (h : load tree directory language = .ok document) :
    document.IsRead :=
  Session.isRead_of_load (holdsRead_ofTree tree) ((load_ofTree language).trans h)

/-!
# Targets
-/

/-- A command leaves a file as it was, or as what it makes of the file's document. -/
theorem read?_perform
    (hlanguage : language ∈ (ofTree tree).targets directory command) :
    (directory.perform tree command).2.read? (directory.place language) =
      (((ofTree tree).change? directory ((ofTree tree).edit directory command) language).map
        fun kept => Encoding.encode kept.2.text).or (tree.read? (directory.place language)) := by
  rw [(performs_ofTree directory tree command).saved, read?_save]
  cases hchange : (ofTree tree).change? directory ((ofTree tree).edit directory command)
      language with
  | some kept =>
      rw [document?_of_change? hlanguage hchange]
      rfl
  | none =>
      cases hdocument : ((ofTree tree).perform directory command).document?
          (directory.place language) with
      | none => rfl
      | some document =>
          rcases mem_changes_of_document? hdocument with ⟨other, hother, hsame⟩
          have hplaces := (mem_change? (Option.mem_toList.mpr hsame)).1
          have heq : other = language :=
            List.inj_on_of_nodup_map (nodup_targets (ofTree tree) directory command) hother
              hlanguage hplaces.symm
          rw [heq, hchange] at hsame
          simp at hsame

theorem sameNames_perform (directory : ResourceDirectory) (tree : FileTree)
    (command : ProjectCommand) :
    FileTree.SameNames (directory.perform tree command).2 tree :=
  (directory.editsWhole_perform tree command).names

theorem result_ofTree (edit : DocumentEdit) :
    (ofTree tree).result directory edit language =
      (load tree directory language).bind edit := by
  rw [result, load_ofTree]

/-- What one batch leaves, and its outcomes, by what the edit answers for each target. -/
theorem applyToAll_ofTree
    {edit : DocumentEdit} {languages : List Text}
    (hnodup : (languages.map directory.place).Nodup)
    (skipReason : Text) :
    applyToAll directory skipReason edit tree languages =
      (((ofTree tree).hold (languages.filterMap ((ofTree tree).change? directory edit))).save,
        languages.map fun language =>
          ⟨language, statusOf skipReason ((load tree directory language).bind edit)⟩) := by
  have hresults : forall language : Text,
      (load tree directory language).bind edit = (ofTree tree).result directory edit language :=
    fun _ => (result_ofTree edit).symm
  simp only [hresults]
  exact applyToAll_save (holdsFiles_ofTree tree) hnodup
    (fun language _ => (load_ofTree language).symm) skipReason

/-- What a command makes of a target is read back from the file. -/
theorem load_perform_of_edit
    {document new : Document}
    (hlanguage : language ∈ (ofTree tree).targets directory command)
    (hload : load tree directory language = .ok document)
    (hedit : (ofTree tree).edit directory command document = .ok (some new))
    (hplain : Document.PlainStart new.text) :
    load (directory.perform tree command).2 directory language = .ok new := by
  have hresult : (ofTree tree).result directory ((ofTree tree).edit directory command) language =
      .ok (some new) := by
    rw [result_ofTree, hload]
    exact hedit
  have hread := read?_perform hlanguage
  simp only [Session.change?, hresult, Option.map_some, Option.some_or] at hread
  have hresolve : (directory.perform tree command).2.resolve (directory.languagePath language) =
      .ok (directory.place language) := by
    rw [(directory.sameNames_perform tree command).resolve]
    exact (load_eq_ok_iff.mp hload).1
  rw [load_eq_of_resolve hresolve, hread]
  exact (congrArg Document.parse (Encoding.decode_encode hplain)).trans
    (isRead_of_edit (isRead_of_load hload) hedit)

theorem read?_perform_of_unedited
    (hlanguage : language ∈ (ofTree tree).targets directory command)
    (h : forall new : Document,
      (load tree directory language).bind ((ofTree tree).edit directory command) ≠
        .ok (some new)) :
    (directory.perform tree command).2.read? (directory.place language) =
      tree.read? (directory.place language) := by
  have hchange : (ofTree tree).change? directory ((ofTree tree).edit directory command)
      language = none := by
    rw [Session.change?, result_ofTree]
    split
    · rename_i new hnew
      exact absurd hnew (h new)
    · rfl
  rw [read?_perform hlanguage, hchange]
  rfl

/-- A target that a command makes nothing of is read as before. -/
theorem load_perform_of_unedited
    (hlanguage : language ∈ (ofTree tree).targets directory command)
    (h : forall new : Document,
      (load tree directory language).bind ((ofTree tree).edit directory command) ≠
        .ok (some new)) :
    load (directory.perform tree command).2 directory language = load tree directory language :=
  load_eq_of_read? (directory.sameNames_perform tree command)
    (read?_perform_of_unedited hlanguage h)

/-- Where an edit answers, a target is read as what it made, or as before if it made nothing. -/
theorem load_perform_of_answer
    {document : Document} {answer : Option Document}
    (hlanguage : language ∈ (ofTree tree).targets directory command)
    (hload : load tree directory language = .ok document)
    (hedit : (ofTree tree).edit directory command document = .ok answer)
    (hplain : Document.PlainStart (answer.getD document).text) :
    load (directory.perform tree command).2 directory language = .ok (answer.getD document) := by
  cases answer with
  | some new => exact load_perform_of_edit hlanguage hload hedit hplain
  | none =>
      refine (load_perform_of_unedited hlanguage ?_).trans hload
      intro new hnew
      rw [hload, Except.bind, hedit] at hnew
      cases hnew

/-!
# Every place
-/

theorem everyLanguage_perform (directory : ResourceDirectory) (tree : FileTree)
    (command : ProjectCommand) :
    directory.everyLanguage (directory.perform tree command).2 = directory.everyLanguage tree := by
  unfold everyLanguage
  rw [(directory.sameNames_perform tree command).targets]

/-- Where a command does not go, everything stays. -/
theorem read?_perform_of_ne
    {place : Path}
    (h : forall language, language ∈ (ofTree tree).targets directory command ->
      directory.place language ≠ place) :
    (directory.perform tree command).2.read? place = tree.read? place := by
  rw [(performs_ofTree directory tree command).saved, read?_save]
  cases hdocument : ((ofTree tree).perform directory command).document? place with
  | none => rfl
  | some document =>
      rcases mem_changes_of_document? hdocument with ⟨language, hlanguage, hchange⟩
      exact absurd (mem_change? (Option.mem_toList.mpr hchange)).1.symm (h language hlanguage)

/-- A place keeps its bytes, or a command makes something of the document of a target there. -/
theorem read?_perform_cases (directory : ResourceDirectory) (tree : FileTree)
    (command : ProjectCommand) (place : Path) :
    (directory.perform tree command).2.read? place = tree.read? place ∨
      exists (target : Text) (document new : Document),
        target ∈ (ofTree tree).targets directory command ∧ directory.place target = place ∧
          load tree directory target = .ok document ∧
          (ofTree tree).edit directory command document = .ok (some new) := by
  by_cases htarget : exists target, target ∈ (ofTree tree).targets directory command ∧
      directory.place target = place
  · rcases htarget with ⟨target, htarget, rfl⟩
    by_cases hedited : exists new : Document,
        (load tree directory target).bind ((ofTree tree).edit directory command) = .ok (some new)
    · rcases hedited with ⟨new, hnew⟩
      rcases Success.bind_eq_ok_iff.mp hnew with ⟨document, hload, hedit⟩
      exact .inr ⟨target, document, new, htarget, rfl, hload, hedit⟩
    · exact .inl (read?_perform_of_unedited htarget fun new hnew => hedited ⟨new, hnew⟩)
  · exact .inl (read?_perform_of_ne fun target hmem hplace => htarget ⟨target, hmem, hplace⟩)

/-- A document that stands behind a command was there before, or is what the command made of the
document that stood there. -/
theorem document?_perform
    {place : Path} {found : Document}
    (h : (directory.perform tree command).2.document? place = some found)
    (hplain : forall (target : Text) (document new : Document),
      target ∈ (ofTree tree).targets directory command -> directory.place target = place ->
        load tree directory target = .ok document ->
          (ofTree tree).edit directory command document = .ok (some new) ->
            Document.PlainStart new.text) :
    tree.document? place = some found ∨
      exists (target : Text) (document : Document),
        target ∈ (ofTree tree).targets directory command ∧ directory.place target = place ∧
          load tree directory target = .ok document ∧
          (ofTree tree).edit directory command document = .ok (some found) := by
  rcases directory.read?_perform_cases tree command place with
    hread | ⟨target, document, new, htarget, rfl, hload, hedit⟩
  · rw [FileTree.document?, hread] at h
    exact .inl h
  · have hnew := load_perform_of_edit htarget hload hedit
      (hplain target document new htarget rfl hload hedit)
    rw [(load_eq_ok_iff.mp hnew).2, Option.some.injEq] at h
    exact .inr ⟨target, document, htarget, rfl, hload, h ▸ hedit⟩

/-- A file that can be read behind a command could be read before. -/
theorem exists_load_of_load_perform
    {new : Document}
    (h : load (directory.perform tree command).2 directory language = .ok new) :
    exists document : Document, load tree directory language = .ok document := by
  rcases directory.read?_perform_cases tree command (directory.place language) with
    hread | ⟨target, document, _, _, hplace, hload, _⟩
  · exact ⟨new, (load_eq_of_read? (directory.sameNames_perform tree command) hread).symm.trans h⟩
  · exact ⟨document, load_of_document? (directory.sameNames_perform tree command).symm h
      (hplace ▸ (load_eq_ok_iff.mp hload).2)⟩

/-- A file that can be read can be read behind a command, as it was or as the command made it. -/
theorem exists_load_perform
    {document : Document}
    (h : load tree directory language = .ok document)
    (hplain : forall (target : Text) (new : Document),
      target ∈ (ofTree tree).targets directory command ->
        load tree directory target = .ok document ->
          (ofTree tree).edit directory command document = .ok (some new) ->
            Document.PlainStart new.text) :
    exists new : Document,
      load (directory.perform tree command).2 directory language = .ok new ∧
        (new = document ∨ exists target : Text,
          target ∈ (ofTree tree).targets directory command ∧
            directory.place target = directory.place language ∧
            load tree directory target = .ok document ∧
            (ofTree tree).edit directory command document = .ok (some new)) := by
  have hnames := directory.sameNames_perform tree command
  rcases directory.read?_perform_cases tree command (directory.place language) with
    hread | ⟨target, found, new, htarget, hplace, hload, hedit⟩
  · exact ⟨document, (load_eq_of_read? hnames hread).trans h, .inl rfl⟩
  · have hfound : found = document := eq_of_load_of_place_eq hplace h hload
    rw [hfound] at hload hedit
    have hnew := load_perform_of_edit htarget hload hedit (hplain target new htarget hload hedit)
    exact ⟨new, load_of_document? hnames h (hplace ▸ (load_eq_ok_iff.mp hnew).2),
      .inr ⟨target, htarget, hplace, hload, hedit⟩⟩

/-!
# Batches that succeed
-/

section Batch

variable {edit : DocumentEdit} {skipReason : Text} {targets : Except Error (List Text)}
  {report : BatchReport}
  (hnodup : forall languages : List Text,
    targets = .ok languages -> (languages.map directory.place).Nodup)
  (h : (batch directory skipReason edit tree targets).1 = .ok report)

include hnodup h

/-- The outcomes of a batch are what its edit answers for the targets. -/
theorem exists_outcomes_of_batch :
    exists languages : List Text, targets = .ok languages ∧
      report.outcomes = languages.map fun language =>
        ⟨language, statusOf skipReason ((load tree directory language).bind edit)⟩ := by
  cases targets with
  | error fault => cases h
  | ok languages =>
      refine ⟨languages, rfl, ?_⟩
      simp only [batch, applyToAll_ofTree (hnodup languages rfl), Except.ok.injEq] at h
      rw [← h]

/-- If a batch reports no failure, its edit answers for every target. -/
theorem exists_answer_of_batch
    (hfailed : report.failed = 0) :
    exists languages : List Text, targets = .ok languages ∧
      forall language, language ∈ languages ->
        exists answer : Option Document, (load tree directory language).bind edit = .ok answer := by
  rcases exists_outcomes_of_batch hnodup h with ⟨languages, htargets, houtcomes⟩
  refine ⟨languages, htargets, fun language hlanguage => ?_⟩
  cases hresult : (load tree directory language).bind edit with
  | ok answer => exact ⟨answer, rfl⟩
  | error fault =>
      rw [BatchReport.failed, BatchReport.count, List.length_eq_zero_iff,
        List.filter_eq_nil_iff, houtcomes] at hfailed
      refine absurd ?_ (hfailed _ (List.mem_map_of_mem hlanguage))
      rw [hresult]
      rfl

end Batch

end ResourceDirectory
end AndroidStrings
