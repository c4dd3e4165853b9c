import AndroidStrings.Proofs.Document.Addition
import AndroidStrings.Proofs.Document.FormList
import AndroidStrings.Proofs.Document.RootCount

/-!
# Created entries

A command that stores something under a key that is not there makes one element before the last end
tag of the root element.  What the writer puts there the reader finds again, wherever the end tag
stands on its line, and whatever stands around it; all other entries are what they were.

## Main statements

- `LaidOut.exists_created` : a document with one element more, and what is read of it.
- `perform_creates` : a command that makes an entry.
-/

namespace AndroidStrings

namespace EditCommand

/-- The key of the entry that a command makes where there is none. -/
def creates? : EditCommand -> Option EntryKind.Key
  | setOrCreate id _ _ => some (.string, id)
  | add id _ _ => some (.string, id)
  | addPlural id _ _ => some (.plurals, id)
  | setPlurals id _ _ => some (.plurals, id)
  | _ => none

/-- The values that a command is to store. -/
def values : EditCommand -> List Text
  | set _ value _ => [value]
  | setOrCreate _ value _ => [value]
  | add _ value _ => [value]
  | addPlural _ forms _ => forms.map Prod.snd
  | setPlurals _ forms _ => forms.map Prod.snd
  | remove _ => []
  | sort _ => []

/-- A value that is what a command stores: a text in its stored form, or a plural that has of each
quantity the last form in its stored form. -/
def Stores : EditCommand -> EntryValue -> Prop
  | setOrCreate _ value mode, found => found = .singular (mode.apply value)
  | add _ value mode, found => found = .singular (mode.apply value)
  | addPlural _ forms mode, found | setPlurals _ forms mode, found =>
      exists plural : Plural,
        found = .plural plural ∧
          forall quantity : Quantity,
            plural.get? quantity = (lastForm? quantity forms).map mode.apply
  | _, _ => False

end EditCommand

namespace Document

open Markup

/-!
# What is stored
-/

theorem storedValue_of_valid
    {value : Text}
    (h : Value.validate value = .ok ())
    (target : Text) (mode : EscapeMode) :
    storedValue target value mode = .ok (mode.apply value) := by
  rw [storedValue, h]

theorem storedForms_of_valid
    {forms : List (Quantity × Text)}
    (h : forall value, value ∈ forms.map Prod.snd -> Value.validate value = .ok ())
    (id : Text) (mode : EscapeMode) :
    storedForms id mode forms = .ok (forms.map fun form => (form.1, mode.apply form.2)) := by
  induction forms with
  | nil => rfl
  | cons form forms ih =>
      rw [List.map_cons, List.forall_mem_cons] at h
      simp only [storedForms, storedValue_of_valid h.1, ih h.2]
      rfl

theorem balanced_storedForms
    {id : Text} {forms items : List (Quantity × Text)} {mode : EscapeMode}
    (hfragments : forall form, form ∈ forms -> Fragment (mode.apply form.2))
    (h : storedForms id mode forms = .ok items) :
    forall item, item ∈ items -> Balanced item.2 :=
  forall_storedForms (fun form hform => balanced_of_fragment (hfragments form hform)) h

theorem lastForm?_map (mode : EscapeMode) (quantity : Quantity) (forms : List (Quantity × Text)) :
    lastForm? quantity (forms.map fun form => (form.1, mode.apply form.2)) =
      (lastForm? quantity forms).map mode.apply := by
  rw [lastForm?, List.filter_map, List.getLast?_map, Option.map_map, lastForm?, Option.map_map]
  rfl

/-- Of several forms of one quantity the last one is read. -/
theorem get?_ofList_stored
    (mode : EscapeMode) (forms : List (Quantity × Text)) (quantity : Quantity) :
    (Plural.ofList (forms.map fun form => (form.1, mode.apply form.2))).get? quantity =
      (lastForm? quantity forms).map mode.apply := by
  rw [Plural.get?_ofList, lastForm?_map]

/-!
# New elements
-/

/-- A command that finds no entry of its key inserts an element that is read as what it stores. -/
theorem exists_element_of_creates
    {document : Document} {command : EditCommand} {key : EntryKind.Key}
    (hcreates : command.creates? = some key)
    (haccepted : command.Accepted)
    (hvalid : forall value, value ∈ command.values -> Value.validate value = .ok ())
    (hnew : document.contains key.1 key.2 = false) :
    exists (segment : Segment) (entry : Entry),
      segment.Makes entry ∧ entry.key = key ∧ entry.translatable = true ∧
        command.Stores entry.value ∧
        forall edited : Document,
          document.insertEntry segment.raw = .ok edited ->
            document.perform command = ⟨edited, .ok .applied⟩ := by
  cases command with
  | setOrCreate id value mode =>
      cases hcreates
      rcases exists_newString haccepted.1 haccepted.2 with ⟨segment, hraw, hmakes⟩
      refine ⟨segment, _, hmakes, rfl, rfl, rfl, ?_⟩
      intro edited hinsert
      rw [hraw] at hinsert
      simp only [perform, setOrCreate, storedValue_of_valid (hvalid value List.mem_cons_self), hnew,
        Bool.false_eq_true, if_false, hinsert]
      rfl
  | add id value mode =>
      cases hcreates
      rcases exists_newString haccepted.1 haccepted.2 with ⟨segment, hraw, hmakes⟩
      refine ⟨segment, _, hmakes, rfl, rfl, rfl, ?_⟩
      intro edited hinsert
      have hadded := add?_eq_some_iff.mpr
        ⟨hvalid value List.mem_cons_self, hnew, hraw ▸ hinsert⟩
      rw [perform, hadded]
      rfl
  | addPlural id forms mode =>
      cases hcreates
      have hitems := storedForms_of_valid hvalid id mode
      rcases exists_newPlurals haccepted.1 (forall_storedForms haccepted.2 hitems)
        document.lineEnding with ⟨segment, hraw, hmakes⟩
      refine ⟨segment, _, hmakes, rfl, rfl, ⟨_, rfl, get?_ofList_stored mode forms⟩, ?_⟩
      intro edited hinsert
      have hadded := addPlural?_eq_some_iff.mpr
        ⟨_, hitems, hnew, hraw ▸ hinsert⟩
      rw [perform, hadded]
      rfl
  | setPlurals id forms mode =>
      cases hcreates
      have hitems := storedForms_of_valid hvalid id mode
      rcases exists_newPlurals haccepted.1 (forall_storedForms haccepted.2 hitems)
        document.lineEnding with ⟨segment, hraw, hmakes⟩
      refine ⟨segment, _, hmakes, rfl, rfl, ⟨_, rfl, get?_ofList_stored mode forms⟩, ?_⟩
      intro edited hinsert
      rw [hraw] at hinsert
      have hnone : document.find? .plurals id = none := Option.not_isSome_iff_eq_none.mp (by
        rw [← contains, hnew]
        exact Bool.false_ne_true)
      simp only [perform, setPlurals, hitems, hnone, hinsert]
      rfl
  | _ => cases hcreates

section Row

variable {document : Document} {row : List Segment}

/-- A document with one element more, before the last end tag of the root element. -/
theorem LaidOut.exists_created
    {segment : Segment} {entry : Entry} {close : Nat}
    (h : document.LaidOut row)
    (hclose : document.rootCloseStart = .ok close)
    (hmakes : segment.Makes entry) :
    exists (edited : Document) (front back : List Entry),
      document.insertEntry segment.raw = .ok edited ∧ PlainStart edited.text ∧ edited.IsRead ∧
        document.entries = front ++ back ∧ edited.entries = front ++ entry :: back ∧
        (rootCount document.text = 1 -> back = []) := by
  rcases h.exists_insertionSite hclose with ⟨site⟩
  rcases site.exists_laidOut h hmakes.isBlock hmakes.fits hmakes.readable with
    ⟨edited, hedited, hlaid⟩
  have hsolid := Segments.flatMap_solid (f := Segment.entries) fun _ => Segment.entries_of_isText
  refine ⟨edited, site.front.flatMap Segment.entries, site.back.flatMap Segment.entries, hedited,
    hlaid.plain, hlaid.read, ?_, ?_, site.entries_back h⟩
  · rw [h.entries_eq, ← hsolid row, site.solid_row, List.flatMap_append, hsolid, hsolid]
    rfl
  · rw [hlaid.entries_eq, List.flatMap_append, List.flatMap_cons, List.flatMap_cons,
      hmakes.entries]
    rfl

end Row

/-!
# Main statement
-/

/-- A command that finds no entry of its key succeeds, where there is an end tag of the root
element: it makes one entry to be translated, with what it is to store, and leaves all the others.
In a text with one root element the new entry is the last one. -/
theorem perform_creates
    {text : Text} {document : Document} {command : EditCommand} {key : EntryKind.Key} {close : Nat}
    (hplain : PlainStart text)
    (hparse : parse text = .ok document)
    (hclose : document.rootCloseStart = .ok close)
    (hcreates : command.creates? = some key)
    (haccepted : command.Accepted)
    (hvalid : forall value, value ∈ command.values -> Value.validate value = .ok ())
    (hnew : document.contains key.1 key.2 = false) :
    exists (edited : Document) (entry : Entry) (front back : List Entry),
      document.perform command = ⟨edited, .ok .applied⟩ ∧
        PlainStart edited.text ∧ edited.IsRead ∧
        entry.key = key ∧ entry.translatable = true ∧ command.Stores entry.value ∧
        document.entries = front ++ back ∧ edited.entries = front ++ entry :: back ∧
        (rootCount text = 1 -> back = []) := by
  have htext := text_of_parse hparse
  rcases exists_laidOut (htext ▸ hplain) (isRead_of_parse hparse) with ⟨row, hlaid⟩
  rcases exists_element_of_creates hcreates haccepted hvalid hnew with
    ⟨segment, entry, hmakes, hkey, htranslatable, hstores, hperform⟩
  rcases hlaid.exists_created hclose hmakes with
    ⟨edited, front, back, hinsert, hplain', hread, hbefore, hafter, hlast⟩
  exact ⟨edited, entry, front, back, hperform edited hinsert, hplain', hread, hkey, htranslatable,
    hstores, hbefore, hafter, htext ▸ hlast⟩

/-- Forms with a repeated quantity and with markup. -/
def repeatedForms : EditCommand :=
  .setPlurals "a".toList
    [(.one, "u".toList), (.other, "<b>v</b>".toList), (.one, "w".toList)] .raw

/-- The id is that of a string, and the end tag of the root element shares its line. -/
theorem perform_creates_repeatedForms :
    exists (document edited : Document) (entry : Entry),
      parse "<resources>\r\n  <string name=\"a\">x</string></resources>\r\n".toList =
          .ok document ∧
        document.perform repeatedForms = ⟨edited, .ok .applied⟩ ∧
        entry.key = (.plurals, "a".toList) ∧ repeatedForms.Stores entry.value ∧
        edited.entries = document.entries ++ [entry] := by
  let text := "<resources>\r\n  <string name=\"a\">x</string></resources>\r\n".toList
  have hread : (parse text).map (fun document =>
      (document.rootCloseStart, document.contains .plurals "a".toList)) =
        .ok (.ok 42, false) := by
    decide +kernel
  rcases Success.map_eq_ok_iff.mp hread with ⟨document, hparse, hfacts⟩
  rw [Prod.mk.injEq] at hfacts
  have hbold : Fragment "<b>v</b>".toList :=
    @Fragment.of_element "b".toList "v".toList ⟨by decide, by decide⟩ (.of_text (by decide))
  have haccepted : repeatedForms.Accepted := by
    refine ⟨by decide, ?_⟩
    intro form hform
    simp only [List.mem_cons, List.not_mem_nil, or_false] at hform
    rcases hform with rfl | rfl | rfl
    · exact Fragment.of_text (by decide)
    · exact hbold
    · exact Fragment.of_text (by decide)
  rcases perform_creates (by decide) hparse hfacts.1 (rfl : repeatedForms.creates? = some _)
    haccepted (by decide +kernel) hfacts.2 with
    ⟨edited, entry, front, back, hperform, _, _, hkey, _, hstores, hbefore, hafter, hlast⟩
  rw [hlast (by decide +kernel)] at hbefore hafter
  rw [List.append_nil] at hbefore
  exact ⟨document, edited, entry, hparse, hperform, hkey, hstores, hbefore ▸ hafter⟩

end Document
end AndroidStrings
