import AndroidStrings.Proofs.Document.CreatedKeys
import AndroidStrings.Proofs.Document.DistinctKeys
import AndroidStrings.Proofs.Project.AppliedPairs
import AndroidStrings.Proofs.Project.Unused

/-!
# Keys of edited files

A command that stores something keeps the keys of a file, and creates those that it names at most;
removing takes away the keys with a name, and a sorted file has the keys of its blocks as they are
written.

## Main statements

- `grows_setStrings` : what a batch of strings does to the keys of a document.
- `rekeys_of_edit` : what any command does to the keys of a document.
-/

namespace AndroidStrings

open Markup Document ResourceDirectory Session

namespace ResourceDirectory

/-!
# Batches of strings
-/

section Strings

variable {directory : ResourceDirectory} {path : Text} {source : Option ResourceFile}
  {mode : EscapeMode} {create : Bool} {document new : Document}

/-- The keys of the strings that a batch may create. -/
def knownKeys (source : Option ResourceFile) (pairs : List (Text × Text)) :
    List EntryKind.Key :=
  (pairs.filter fun pair => isKnown source pair.1).map fun pair => (.string, pair.1)

theorem grows_setPair
    {id value : Text}
    (hplain : PlainStart document.text)
    (hread : document.IsRead)
    (hid : IsVerbatim id)
    (hvalue : mode.StoresBalanced value)
    (h : setPair directory path source mode create document (id, value) = .ok new) :
    isKnown source id = true ∧ Grows [(.string, id)] document new := by
  unfold setPair at h
  split at h
  · rename_i hknown
    refine ⟨hknown, ?_⟩
    cases hset : setOne mode create document id value with
    | error fault =>
        rw [hset] at h
        cases h
    | ok edited =>
        rw [hset] at h
        rw [← Except.ok.inj h]
        unfold setOne at hset
        split at hset
        · exact grows_setOrCreate hplain hread hid hvalue hset
        · exact grows_set hplain hread hvalue hset
  · cases h

/-- A batch of strings creates no others than those that the source has. -/
theorem grows_setStrings
    {pairs : List (Text × Text)}
    (hplain : PlainStart document.text)
    (hread : document.IsRead)
    (hpairs : forall pair, pair ∈ pairs -> IsVerbatim pair.1 ∧ mode.StoresBalanced pair.2) :
    Grows (knownKeys source pairs) document
      (setStrings directory path source mode create document pairs).1 := by
  induction pairs generalizing document with
  | nil => exact .refl hplain hread
  | cons pair pairs ih =>
      rcases pair with ⟨id, value⟩
      rw [List.forall_mem_cons] at hpairs
      have hrest : forall key, key ∈ knownKeys source pairs ->
          key ∈ knownKeys source ((id, value) :: pairs) := by
        intro key hkey
        rcases List.mem_map.mp hkey with ⟨other, hother, rfl⟩
        rw [List.mem_filter] at hother
        exact List.mem_map_of_mem (List.mem_filter.mpr
          ⟨List.mem_cons_of_mem _ hother.1, hother.2⟩)
      cases hpair : setPair directory path source mode create document (id, value) with
      | error fault =>
          rw [setStrings_cons_of_error hpair]
          exact (ih hplain hread hpairs.2).mono hrest
      | ok next =>
          rw [setStrings_cons_of_ok hpair]
          rcases grows_setPair hplain hread hpairs.1.1 hpairs.1.2 hpair with ⟨hknown, hgrows⟩
          refine (hgrows.mono ?_).trans ((ih hgrows.plain hgrows.read hpairs.2).mono hrest)
          intro key hkey
          rw [List.mem_singleton.mp hkey]
          exact List.mem_map_of_mem
            (List.mem_filter.mpr ⟨List.mem_cons_self, hknown⟩)

end Strings

end ResourceDirectory

/-!
# Commands
-/

namespace ProjectCommand

/-- The keys of the elements that a command may create. -/
def created : ProjectCommand -> List EntryKind.Key
  | .addString id _ _ _ => [(.string, id)]
  | .addPlural id _ _ _ | .setPlurals _ id _ _ => [(.plurals, id)]
  | .setBatch _ pairs _ _ => pairs.map fun pair => (.string, pair.1)
  | .remove _ | .sort _ => []

/-- Every value of a command that is accepted is balanced in its stored form. -/
def StoresBalanced : ProjectCommand -> Prop
  | .addString _ value mode _ => mode.StoresBalanced value
  | .addPlural _ forms mode _ | .setPlurals _ _ forms mode =>
      forall form, form ∈ forms -> mode.StoresBalanced form.2
  | .setBatch _ pairs mode _ => forall pair, pair ∈ pairs -> mode.StoresBalanced pair.2
  | .remove _ | .sort _ => True

/-- What a command needs so that it writes no more into a file than it says: the name of plurals
can be written as it is, values are balanced, and files that are sorted have one root element. -/
structure Orderly (directory : ResourceDirectory) (tree : FileTree)
    (command : ProjectCommand) : Prop where
  verbatim : forall (language id : Text) (forms : List (Quantity × Text)) (mode : EscapeMode),
    command = .setPlurals language id forms mode -> IsVerbatim id
  balanced : command.StoresBalanced
  singleRoot : forall (language : Option Text) (target : Text) (document : Document),
    command = .sort language -> target ∈ (ofTree tree).targets directory command ->
      load tree directory target = .ok document ->
        SingleRoot document.text ∨ document.layout.rootClose = none

/-- What a command does to the keys of a document that it edits. -/
def Rekeys (command : ProjectCommand) (document new : Document) : Prop :=
  match command with
  | .remove id => forall key, key ∈ new.order ↔ key ∈ document.order ∧ key.2 ≠ id
  | .sort _ => forall key, key ∈ new.order ↔ key ∈ document.writtenKeys
  | _ => Grows command.created document new

end ProjectCommand

namespace ResourceDirectory

variable {directory : ResourceDirectory} {tree : FileTree} {language : Text}
  {command : ProjectCommand} {document new : Document}

theorem reference_ofTree (language : Text) :
    (ofTree tree).reference directory language = reference tree directory language := by
  unfold Session.reference ResourceDirectory.reference
  split
  · rfl
  · rw [load_ofTree, loadSourceResource, loadResource]
    cases load tree directory Qualifier.sourceLanguage <;> rfl

/-- A batch of strings that edits a file creates strings of the source only. -/
theorem grows_of_setBatch
    {pairs : List (Text × Text)} {mode : EscapeMode} {create : Bool}
    (hplain : PlainStart document.text)
    (hread : document.IsRead)
    (hpairs : forall pair, pair ∈ pairs -> IsVerbatim pair.1 ∧ mode.StoresBalanced pair.2)
    (hedit : (ofTree tree).edit directory (.setBatch language pairs mode create) document =
      .ok (some new)) :
    exists source : Option ResourceFile,
      reference tree directory language = .ok source ∧
        Grows (knownKeys source pairs) document new := by
  rcases Success.map_eq_ok_iff.mp hedit with ⟨source, hsource, hset⟩
  refine ⟨source, (reference_ofTree language).symm.trans hsource, ?_⟩
  simp only at hset
  split at hset
  · rw [← Option.some.inj hset]
    exact grows_setStrings hplain hread hpairs
  · cases hset

/-- What a command does to the keys of a document that it edits. -/
theorem rekeys_of_edit
    (horderly : command.Orderly directory tree)
    (hnames : forall key, key ∈ command.created -> IsVerbatim key.2)
    (htarget : language ∈ (ofTree tree).targets directory command)
    (hload : load tree directory language = .ok document)
    (hplain : PlainStart document.text)
    (hedit : (ofTree tree).edit directory command document = .ok (some new)) :
    PlainStart new.text ∧ command.Rekeys document new := by
  have hread : document.IsRead := isRead_of_load hload
  have hgrows : forall {created : List EntryKind.Key}, Grows created document new ->
      PlainStart new.text ∧ Grows created document new :=
    fun h => ⟨h.plain, h⟩
  cases command with
  | addString id value mode scope =>
      exact hgrows (grows_add? hplain hread (hnames _ (List.mem_singleton_self _))
        horderly.balanced hedit)
  | addPlural id forms mode scope =>
      exact hgrows (grows_addPlural? hplain hread
        (hnames _ (List.mem_singleton_self _)) horderly.balanced hedit)
  | setPlurals target id forms mode =>
      rcases Success.map_eq_ok_iff.mp hedit with ⟨outcome, hresult, heq⟩
      rw [← Option.some.inj heq]
      have hstored := (grows_setPlurals hplain hread
        (hnames _ (List.mem_singleton_self _)) horderly.balanced hresult).1
      exact ⟨hstored.plain, hstored⟩
  | setBatch target pairs mode create =>
      have hpairs : forall pair, pair ∈ pairs -> IsVerbatim pair.1 ∧ mode.StoresBalanced pair.2 :=
        fun pair hpair =>
          ⟨hnames (.string, pair.1) (List.mem_map_of_mem hpair),
            horderly.balanced pair hpair⟩
      rcases grows_of_setBatch hplain hread hpairs hedit with ⟨source, _, hstored⟩
      refine hgrows (hstored.mono fun key hkey => ?_)
      rcases List.mem_map.mp hkey with ⟨pair, hpair, rfl⟩
      exact List.mem_map_of_mem (List.mem_filter.mp hpair).1
  | remove id =>
      rcases Document.exists_removeNext hplain hread id .skipped with
        ⟨left, hleft, hplainLeft, _, hentries, hforeign⟩
      change allSteps (document.remove id) = .ok (some new) at hedit
      rw [allSteps, Document.remove, hleft] at hedit
      split at hedit
      · cases hedit
      · rw [Except.ok.injEq, Option.some.injEq] at hedit
        rw [← hedit]
        refine ⟨hplainLeft, fun key => ?_⟩
        rw [(LeftWithout.of_isNamed hentries hforeign).mem_order_iff, List.mem_singleton]
      · cases hedit
  | sort target =>
      rcases Success.bind_eq_ok_iff.mp hedit with ⟨source, _, hsort⟩
      rcases Success.map_eq_ok_iff.mp hsort with ⟨sorted, hsorted, heq⟩
      rw [← Option.some.inj heq]
      rcases exists_rooted hplain hread
        (horderly.singleRoot target language document rfl htarget hload) with ⟨row, hrow⟩
      rcases hrow.exists_sorted hsorted with ⟨row', hrow', hperm⟩
      exact ⟨hrow'.plain, fun key => hperm.mem_iff⟩

end ResourceDirectory
end AndroidStrings
