import AndroidStrings.Proofs.Document.OpenedEntry
import AndroidStrings.Proofs.Project.EditedFiles

/-!
# Additions that are repeated

An addition leaves an element that already has the name.  What it adds is found again under its
name, so an addition to every file that is made twice changes nothing the second time: it skips
the files that it has edited, and fails for the same files with the same errors.

## Main statements

- `settles_add?`, `settles_addPlural?` : an addition has nothing to do for a document that it made.
- `perform_again` : a batch of such edits that is performed again.
- `add_everywhere_again` : an addition to every file that is made again.
-/

namespace AndroidStrings

/-- What becomes of a target when an edit is repeated that has nothing to do any more. -/
def TargetStatus.again (skipReason : Text) : TargetStatus -> TargetStatus
  | .applied => .skipped skipReason
  | status => status

/-- The report on a batch that is repeated. -/
def BatchReport.again (skipReason : Text) (report : BatchReport) : BatchReport :=
  ⟨report.outcomes.map fun outcome => ⟨outcome.target, outcome.status.again skipReason⟩⟩

namespace ResourceDirectory

open Markup Session

/-!
# Edits that settle
-/

/-- An edit that has nothing to do for a document that it made. -/
def Settles (edit : DocumentEdit) : Prop :=
  forall document new : Document,
    Document.PlainStart document.text -> document.IsRead ->
      edit document = .ok (some new) -> Document.PlainStart new.text ∧ edit new = .ok none

/-- What such an edit answers when it is repeated. -/
def settled : Except Error (Option Document) -> Except Error (Option Document)
  | .ok (some _) => .ok none
  | answer => answer

theorem settled_ne_edited (answer : Except Error (Option Document)) (new : Document) :
    settled answer ≠ .ok (some new) := by
  cases answer with
  | error fault => exact nofun
  | ok made => cases made <;> exact nofun

theorem statusOf_settled (skipReason : Text) (answer : Except Error (Option Document)) :
    statusOf skipReason (settled answer) = (statusOf skipReason answer).again skipReason := by
  cases answer with
  | error fault => rfl
  | ok made => cases made <;> rfl

section Settles

variable {id : Text}

theorem settles_add?
    (hid : IsVerbatim id)
    (value : Text) (mode : EscapeMode) :
    Settles fun document => document.add? id value mode := by
  intro document new hplain hread hedit
  rcases Document.contains_of_add? hplain hread hid hedit with ⟨hcontains, hplainNew⟩
  refine ⟨hplainNew, ?_⟩
  unfold Document.add? at hedit ⊢
  split at hedit
  · cases hedit
  · exact if_pos hcontains

theorem settles_addPlural?
    (hid : IsVerbatim id)
    (forms : List (Quantity × Text)) (mode : EscapeMode) :
    Settles fun document => document.addPlural? id forms mode := by
  intro document new hplain hread hedit
  rcases Document.contains_of_addPlural? hplain hread hid hedit with ⟨hcontains, hplainNew⟩
  refine ⟨hplainNew, ?_⟩
  unfold Document.addPlural? at hedit ⊢
  split at hedit
  · cases hedit
  · exact if_pos hcontains

end Settles

/-!
# Batches of edits that settle
-/

section Batch

variable {directory : ResourceDirectory} {tree : FileTree} {command : ProjectCommand}
  {edit : DocumentEdit} {skipReason : Text}

/-- What an edit answers for a target when it is repeated on the files that the command left. -/
theorem result_again
    {language : Text}
    (hedit : (ofTree tree).edit directory command = edit)
    (htargets : (ofTree tree).targets directory command = directory.everyLanguage tree)
    (hsettles : Settles edit)
    (hplain : directory.PlainTargets tree)
    (hlanguage : language ∈ directory.everyLanguage tree) :
    (load (directory.perform tree command).2 directory language).bind edit =
      settled ((load tree directory language).bind edit) := by
  have htarget : language ∈ (ofTree tree).targets directory command := htargets ▸ hlanguage
  by_cases hmade : exists new : Document,
      (load tree directory language).bind edit = .ok (some new)
  · rcases hmade with ⟨new, hnew⟩
    rcases Success.bind_eq_ok_iff.mp hnew with ⟨document, hload, hdocument⟩
    rcases hsettles document new (hplain language document hlanguage hload) (isRead_of_load hload)
      hdocument with ⟨hplainNew, hsettled⟩
    have hloadNew : load (directory.perform tree command).2 directory language = .ok new :=
      load_perform_of_edit htarget hload (hedit ▸ hdocument) hplainNew
    rw [hnew, hloadNew]
    exact hsettled
  · have hunmade : forall new : Document,
        (load tree directory language).bind edit ≠ .ok (some new) :=
      fun new hnew => hmade ⟨new, hnew⟩
    rw [load_perform_of_unedited htarget (hedit ▸ hunmade)]
    unfold settled
    split
    · rename_i new hnew
      exact absurd hnew (hunmade new)
    · rfl

/-- A batch of edits that settle changes nothing when it is performed again. -/
theorem perform_again
    (hperform : forall tree : FileTree, directory.perform tree command =
      batch directory skipReason edit tree (targets tree directory .everywhere))
    (hedit : (ofTree tree).edit directory command = edit)
    (htargets : (ofTree tree).targets directory command = directory.everyLanguage tree)
    (hsettles : Settles edit)
    (hplain : directory.PlainTargets tree) :
    directory.perform (directory.perform tree command).2 command =
      ((directory.perform tree command).1.map (BatchReport.again skipReason),
        (directory.perform tree command).2) := by
  have hresult := fun (language : Text) (hlanguage : language ∈ directory.everyLanguage tree) =>
    result_again hedit htargets hsettles hplain hlanguage
  generalize hleft : (directory.perform tree command).2 = left at hresult ⊢
  have hnames : FileTree.SameNames left tree := hleft ▸ directory.sameNames_perform tree command
  rw [hperform] at hleft
  rw [hperform, hperform, hnames.targets]
  cases hfound : targets tree directory .everywhere with
  | error fault =>
      rw [hfound] at hleft
      rw [show left = tree from hleft.symm]
      rfl
  | ok languages =>
      have heach : directory.everyLanguage tree = languages := by
        rw [everyLanguage, hfound]
        rfl
      rw [heach] at hresult
      have hnodup := nodup_places_of_targets hfound
      have hnothing : languages.filterMap ((ofTree left).change? directory edit) = [] := by
        rw [List.filterMap_eq_nil_iff]
        intro language hlanguage
        rw [Session.change?, result_ofTree, hresult language hlanguage]
        split
        · rename_i new hnew
          exact absurd hnew (settled_ne_edited _ new)
        · rfl
      have hstatuses : (languages.map fun language => (⟨language, statusOf skipReason
            ((load left directory language).bind edit)⟩ : TargetOutcome)) =
          (languages.map fun language => (⟨language, statusOf skipReason
            ((load tree directory language).bind edit)⟩ : TargetOutcome)).map
              fun outcome => ⟨outcome.target, outcome.status.again skipReason⟩ := by
        rw [List.map_map]
        apply List.map_congr_left
        intro language hlanguage
        rw [Function.comp_apply, hresult language hlanguage, statusOf_settled]
      -- Both times the outcomes are those of the edit on the files as they were before the batch.
      simp only [batch, applyToAll_ofTree hnodup, hnothing, hstatuses]
      rfl

end Batch

/-!
# Main statement
-/

/-- An addition to every file that is made again changes no file: it skips each file that it
edited or skipped before, and fails for each other file with the same error. -/
theorem add_everywhere_again
    {directory : ResourceDirectory} {tree : FileTree} {id : Text}
    (hid : CommandLine.isValidId id = true)
    (hplain : directory.PlainTargets tree) :
    (forall (value : Text) (mode : EscapeMode) (answer : Except Error BatchReport)
        (left : FileTree),
      addString tree directory id value mode .everywhere = (answer, left) ->
        addString left directory id value mode .everywhere =
          (answer.map (BatchReport.again "string already exists".toList), left)) ∧
      forall (forms : List (Quantity × Text)) (mode : EscapeMode)
          (answer : Except Error BatchReport) (left : FileTree),
        addPlural tree directory id forms mode .everywhere = (answer, left) ->
          addPlural left directory id forms mode .everywhere =
            (answer.map (BatchReport.again "plurals already exists".toList), left) := by
  have hverbatim := isVerbatim_of_isValidId hid
  constructor
  · intro value mode answer left hfirst
    let command : ProjectCommand := .addString id value mode .everywhere
    have hagain : directory.perform (directory.perform tree command).2 command =
        ((directory.perform tree command).1.map (BatchReport.again "string already exists".toList),
          (directory.perform tree command).2) :=
      perform_again (fun _ => rfl) rfl rfl (settles_add? hverbatim value mode) hplain
    rw [show directory.perform tree command = (answer, left) from hfirst] at hagain
    exact hagain
  · intro forms mode answer left hfirst
    let command : ProjectCommand := .addPlural id forms mode .everywhere
    have hagain : directory.perform (directory.perform tree command).2 command =
        ((directory.perform tree command).1.map (BatchReport.again "plurals already exists".toList),
          (directory.perform tree command).2) :=
      perform_again (fun _ => rfl) rfl rfl (settles_addPlural? hverbatim forms mode) hplain
    rw [show directory.perform tree command = (answer, left) from hfirst] at hagain
    exact hagain

/-- A source file without strings, a translation whose root element has no end tag, and one that
has a string. -/
def emptyOpenAndFull : FileTree :=
  ⟨[(["res".toList, "values".toList, fileName],
      Encoding.encode "<resources></resources>".toList),
    (["res".toList, "values-de".toList, fileName], Encoding.encode "<resources/>".toList),
    (["res".toList, "values-fr".toList, fileName],
      Encoding.encode "<resources><string name=\"a\">y</string></resources>".toList)],
    []⟩

theorem add_everywhere_again_mixed :
    CommandLine.isValidId "a".toList = true ∧
      PlainTargets ⟨"res".toList⟩ emptyOpenAndFull ∧
      exists (report : BatchReport) (left : FileTree),
        addString emptyOpenAndFull ⟨"res".toList⟩ "a".toList "x".toList .raw .everywhere =
            (.ok report, left) ∧
          (report.applied, report.skipped, report.failed) = (1, 1, 1) ∧
          addString left ⟨"res".toList⟩ "a".toList "x".toList .raw .everywhere =
            (.ok (report.again "string already exists".toList), left) ∧
          ((report.again "string already exists".toList).skipped,
            (report.again "string already exists".toList).failed) = (2, 1) := by
  let done := addString emptyOpenAndFull ⟨"res".toList⟩ "a".toList "x".toList .raw .everywhere
  have hid : CommandLine.isValidId "a".toList = true := by
    decide
  have hplain : PlainTargets ⟨"res".toList⟩ emptyOpenAndFull := by
    decide +kernel
  have hrun : done.1.map (fun report => ((report.applied, report.skipped, report.failed),
      ((report.again "string already exists".toList).skipped,
        (report.again "string already exists".toList).failed))) =
      .ok ((1, 1, 1), (2, 1)) := by
    decide +kernel
  rcases Success.map_eq_ok_iff.mp hrun with ⟨report, hreport, hcounts⟩
  rw [Prod.mk.injEq] at hcounts
  have hdone : done = (.ok report, done.2) := Prod.ext hreport rfl
  refine ⟨hid, hplain, report, done.2, hdone, hcounts.1, ?_, hcounts.2⟩
  exact (add_everywhere_again hid hplain).1 _ _ _ _ hdone

end ResourceDirectory
end AndroidStrings
