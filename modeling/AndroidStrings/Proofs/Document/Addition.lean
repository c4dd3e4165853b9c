import AndroidStrings.Proofs.Document.DistinctKeys

/-!
# Additions

An addition inserts one element.  The element is read as the entry that the command says, and
nothing else of the document matters for the entry, so an addition that is made in many documents
makes the same entry in all of them.

## Main statements

- `exists_element_of_added` : what an addition inserts.
- `exists_entries_of_added` : the entries behind an addition.
-/

namespace AndroidStrings

/-- A block inside the root element that is read as one entry. -/
structure Segment.Makes (segment : Segment) (entry : Entry) : Prop where
  isBlock : segment.isBlock = true
  fits : segment.Fits true
  entries : segment.entries = [entry]

namespace Segment.Makes

variable {segment : Segment} {entry : Entry}

theorem readable (h : segment.Makes entry) : segment.Readable :=
  readable_of_entries (by rw [h.entries]; exact List.cons_ne_nil _ _)

end Segment.Makes

namespace EditCommand

/-- The entry that an addition makes. -/
def added? : EditCommand -> Option Entry
  | add id value mode => some ⟨id, .singular (mode.apply value), true⟩
  | addPlural id forms mode =>
      some ⟨id, .plural (.ofList (forms.map fun form => (form.1, mode.apply form.2))), true⟩
  | _ => none

end EditCommand

namespace Document

open Markup

/-- A new string is an element that is read as what is stored in it. -/
theorem exists_newString
    {id stored : Text}
    (hid : CommandLine.isValidId id = true)
    (hstored : Fragment stored) :
    exists segment : Segment,
      segment.raw = stringElement id stored ∧ segment.Makes ⟨id, .singular stored, true⟩ := by
  have hverbatim := isVerbatim_of_isValidId hid
  rcases balanced_of_fragment hstored with ⟨inside, hinside, rfl⟩
  exact ⟨.newString id inside, Segment.raw_newString id inside, rfl,
    Segment.fits_newString hverbatim.noQuote hinside, Segment.entries_newString inside hverbatim⟩

/-- So is a new plurals element, in which of several forms of one quantity the last counts. -/
theorem exists_newPlurals
    {id : Text} {forms : List (Quantity × Text)}
    (hid : CommandLine.isValidId id = true)
    (hforms : forall form, form ∈ forms -> Fragment form.2)
    (ending : LineEnding) :
    exists segment : Segment,
      segment.raw = pluralsElement id forms ending ∧
        segment.Makes ⟨id, .plural (.ofList forms), true⟩ := by
  have hverbatim := isVerbatim_of_isValidId hid
  rcases exists_forests fun form hform => balanced_of_fragment (hforms form hform) with
    ⟨items, rfl, hitems⟩
  exact ⟨.newPlurals id ending items, Segment.raw_newPlurals id ending items, rfl,
    Segment.fits_newPlurals hverbatim.noQuote hitems,
    Segment.entries_newPlurals ending items hverbatim⟩

theorem eq_of_storedForms
    {id : Text} {mode : EscapeMode} {forms items : List (Quantity × Text)}
    (h : storedForms id mode forms = .ok items) :
    items = forms.map fun form => (form.1, mode.apply form.2) := by
  induction forms generalizing items with
  | nil =>
      rw [storedForms, Except.ok.injEq] at h
      exact h.symm
  | cons form forms ih =>
      simp only [storedForms] at h
      split at h
      · cases h
      · rename_i stored hstored
        rcases Success.map_eq_ok_iff.mp h with ⟨others, hothers, rfl⟩
        rw [ih hothers, eq_of_storedValue hstored, List.map_cons]

theorem eq_of_wholeOrSkipped
    {document : Document} {edited : Except Error (Option Document)}
    (h : (document.wholeOrSkipped edited).result = .ok .applied) :
    edited = .ok (some (document.wholeOrSkipped edited).document) := by
  cases edited with
  | error fault => cases h
  | ok made =>
      cases made with
      | none => cases h
      | some new => rfl

section Added

variable {document : Document} {command : EditCommand} {entry : Entry}

/-- An addition inserts an element that is read as its entry, where there was none of its key. -/
theorem exists_element_of_added
    (hadded : command.added? = some entry)
    (haccepted : command.Accepted)
    (happlied : (document.perform command).result = .ok .applied) :
    exists segment : Segment,
      segment.Makes entry ∧ entry.key ∉ document.order ∧
        document.insertEntry segment.raw = .ok (document.perform command).document := by
  cases command with
  | add id value mode =>
      rw [← Option.some.inj hadded]
      rcases add?_eq_some_iff.mp (eq_of_wholeOrSkipped happlied) with ⟨_, hnew, hinsert⟩
      rcases exists_newString haccepted.1 haccepted.2 with ⟨segment, hraw, hmakes⟩
      exact ⟨segment, hmakes, not_mem_order hnew, hraw ▸ hinsert⟩
  | addPlural id forms mode =>
      rw [← Option.some.inj hadded]
      rcases addPlural?_eq_some_iff.mp (eq_of_wholeOrSkipped happlied) with
        ⟨items, hitems, hnew, hinsert⟩
      rcases exists_newPlurals haccepted.1 (forall_storedForms haccepted.2 hitems)
        document.lineEnding with ⟨segment, hraw, hmakes⟩
      refine ⟨segment, ?_, not_mem_order hnew, hraw ▸ hinsert⟩
      rw [← eq_of_storedForms hitems]
      exact hmakes
  | _ => cases hadded

/-- An addition puts its entry among those that were there. -/
theorem exists_entries_of_added
    (hplain : PlainStart document.text)
    (hread : document.IsRead)
    (hadded : command.added? = some entry)
    (haccepted : command.Accepted)
    (happlied : (document.perform command).result = .ok .applied) :
    PlainStart (document.perform command).document.text ∧ entry.key ∉ document.order ∧
      exists front back : List Entry,
        document.entries = front ++ back ∧
          (document.perform command).document.entries = front ++ entry :: back := by
  rcases exists_laidOut hplain hread with ⟨row, hlaid⟩
  rcases exists_element_of_added hadded haccepted happlied with
    ⟨segment, hmakes, hfresh, hinsert⟩
  rcases hlaid.exists_insertedEntry hmakes.isBlock hmakes.fits hmakes.entries hinsert with
    ⟨_, front, back, hedited, _, hbefore, hafter⟩
  exact ⟨hedited.plain, hfresh, front, back, hbefore, hafter⟩

end Added

end Document
end AndroidStrings
