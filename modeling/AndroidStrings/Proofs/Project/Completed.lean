import AndroidStrings.Proofs.Document.OpenedEntry
import AndroidStrings.Proofs.Project.Unused

/-!
# Batches that fail nowhere

A batch whose report counts no failure has read every target.  An addition has left each of them
with the entry, whether it was there before or not, and a removal has left each of them without the
entries of the name.

## Main statements

- `hasInScope_addString`, `hasInScope_addPlural` : the files behind an addition.
- `exists_load_of_remove` : the files that a removal has read.
- `RemovesNames.everywhere` : the files behind a removal.
-/

namespace AndroidStrings
namespace ResourceDirectory

open Markup Document Session

variable {directory : ResourceDirectory} {tree left : FileTree} {command : ProjectCommand}

/-!
# Targets
-/

theorem mem_everyLanguage_of_languages
    {found : List Text} {language : Text}
    (h : languages tree directory = .ok found)
    (hlanguage : language ∈ found) :
    language ∈ directory.everyLanguage tree := by
  rw [everyLanguage, targets, h]
  exact List.mem_cons_of_mem _ hlanguage

/-- The source file is a target of every scope. -/
theorem sourceLanguage_mem_of_targets
    {scope : Scope} {found : List Text}
    (h : targets tree directory scope = .ok found) :
    Qualifier.sourceLanguage ∈ found := by
  cases scope with
  | sourceOnly =>
      rw [← Except.ok.inj h]
      exact List.mem_singleton_self _
  | everywhere =>
      rcases Success.map_eq_ok_iff.mp h with ⟨_, _, rfl⟩
      exact List.mem_cons_self

theorem mem_everyLanguage_of_targets
    {scope : Scope} {found : List Text} {language : Text}
    (h : targets tree directory scope = .ok found)
    (hsource : Qualifier.sourceLanguage ∈ directory.everyLanguage tree)
    (hlanguage : language ∈ found) :
    language ∈ directory.everyLanguage tree := by
  cases scope with
  | sourceOnly =>
      rw [← Except.ok.inj h] at hlanguage
      rw [List.mem_singleton.mp hlanguage]
      exact hsource
  | everywhere =>
      rw [everyLanguage_eq h]
      exact hlanguage

/-!
# Additions
-/

/-- Every file in a scope can be read, and has an entry with a key. -/
def HasInScope (directory : ResourceDirectory) (tree : FileTree) (scope : Scope)
    (key : EntryKind.Key) : Prop :=
  exists found : List Text,
    targets tree directory scope = .ok found ∧
      forall language, language ∈ found ->
        exists document : Document,
          load tree directory language = .ok document ∧ key ∈ document.order

/-- An addition that fails nowhere leaves its entry in every target. -/
theorem hasInScope_of_batch
    {edit : DocumentEdit} {skipReason : Text} {scope : Scope} {report : BatchReport}
    {key : EntryKind.Key}
    (hperform : directory.perform tree command =
      batch directory skipReason edit tree (targets tree directory scope))
    (hedit : (ofTree tree).edit directory command = edit)
    (htargets : (ofTree tree).targets directory command =
      (targets tree directory scope).toOption.getD [])
    (hplain : directory.PlainTargets tree)
    (hsource : Qualifier.sourceLanguage ∈ directory.everyLanguage tree)
    (hcontains : forall (document : Document) (answer : Option Document),
      PlainStart document.text -> document.IsRead -> edit document = .ok answer ->
        (answer.getD document).contains key.1 key.2 = true ∧
          PlainStart (answer.getD document).text)
    (hreport : (directory.perform tree command).1 = .ok report)
    (hfailed : report.failed = 0) :
    directory.HasInScope (directory.perform tree command).2 scope key := by
  rw [hperform] at hreport
  rcases exists_answer_of_batch (fun _ => nodup_places_of_targets) hreport hfailed with
    ⟨found, hfound, hanswers⟩
  refine ⟨found, ((directory.sameNames_perform tree command).targets _ _).trans hfound, ?_⟩
  intro language hlanguage
  rcases hanswers language hlanguage with ⟨answer, hanswer⟩
  rcases Success.bind_eq_ok_iff.mp hanswer with ⟨document, hload, hanswered⟩
  have hevery := mem_everyLanguage_of_targets hfound hsource hlanguage
  rcases hcontains document answer (hplain language document hevery hload) (isRead_of_load hload)
    hanswered with ⟨hkey, hstart⟩
  have htarget : language ∈ (ofTree tree).targets directory command := by
    rw [htargets, hfound]
    exact hlanguage
  exact ⟨_, load_perform_of_answer htarget hload (hedit ▸ hanswered) hstart,
    mem_order_iff.mpr hkey⟩

section Additions

variable {id : Text} {mode : EscapeMode} {scope : Scope} {report : BatchReport}
  (hid : IsVerbatim id)
  (hplain : directory.PlainTargets tree)
  (hsource : Qualifier.sourceLanguage ∈ directory.everyLanguage tree)

include hid hplain hsource

theorem hasInScope_addString
    {value : Text}
    (hreport : (directory.perform tree (.addString id value mode scope)).1 = .ok report)
    (hfailed : report.failed = 0) :
    directory.HasInScope (directory.perform tree (.addString id value mode scope)).2 scope
      (.string, id) := by
  refine hasInScope_of_batch rfl rfl rfl hplain hsource ?_ hreport hfailed
  intro document answer hstart hread hedit
  exact contains_of_add? hstart hread hid hedit

theorem hasInScope_addPlural
    {forms : List (Quantity × Text)}
    (hreport : (directory.perform tree (.addPlural id forms mode scope)).1 = .ok report)
    (hfailed : report.failed = 0) :
    directory.HasInScope (directory.perform tree (.addPlural id forms mode scope)).2 scope
      (.plurals, id) := by
  refine hasInScope_of_batch rfl rfl rfl hplain hsource ?_ hreport hfailed
  intro document answer hstart hread hedit
  exact contains_of_addPlural? hstart hread hid hedit

end Additions

/-!
# Removals
-/

/-- A removal that fails nowhere has read every file. -/
theorem exists_load_of_remove
    {id : Text} {report : BatchReport}
    (hreport : (directory.remove tree id).1 = .ok report)
    (hfailed : report.failed = 0) :
    exists found : List Text,
      targets tree directory .everywhere = .ok found ∧
        forall language, language ∈ found ->
          exists document : Document, load tree directory language = .ok document := by
  rcases exists_answer_of_batch (fun _ => nodup_places_of_targets) hreport hfailed with
    ⟨found, hfound, hanswers⟩
  refine ⟨found, hfound, fun language hlanguage => ?_⟩
  rcases hanswers language hlanguage with ⟨answer, hanswer⟩
  rcases Success.bind_eq_ok_iff.mp hanswer with ⟨document, hload, _⟩
  exact ⟨document, hload⟩

/-- Every file could be read and can be read, and only the entries of some names are gone. -/
def RemovedEverywhere (directory : ResourceDirectory) (ids : List Text)
    (tree left : FileTree) : Prop :=
  exists found : List Text,
    targets left directory .everywhere = .ok found ∧
      forall language, language ∈ found ->
        exists document new : Document,
          load tree directory language = .ok document ∧
            load left directory language = .ok new ∧ document.LeftWithout ids new

theorem RemovesNames.everywhere
    {ids found : List Text}
    (h : directory.RemovesNames ids tree left)
    (hplain : directory.PlainTargets tree)
    (hfound : targets tree directory .everywhere = .ok found)
    (hloads : forall language, language ∈ found ->
      exists document : Document, load tree directory language = .ok document) :
    directory.RemovedEverywhere ids tree left := by
  refine ⟨found, (h.names.targets _ _).trans hfound, fun language hlanguage => ?_⟩
  rcases hloads language hlanguage with ⟨document, hload⟩
  have hevery : language ∈ directory.everyLanguage tree := everyLanguage_eq hfound ▸ hlanguage
  rcases h.removed language document hevery hload (hplain language document hevery hload) with
    ⟨new, hnew, _, hwithout⟩
  exact ⟨document, new, hload, hnew, hwithout⟩

end ResourceDirectory
end AndroidStrings
