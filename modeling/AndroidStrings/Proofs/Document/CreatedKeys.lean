import AndroidStrings.Proofs.Document.KeptKeys
import AndroidStrings.Proofs.Document.OpenedEntry

/-!
# Keys that an edit creates

An edit that stores something keeps the keys that are there, and adds no other keys than those of
the elements that it writes, as long as the values that it stores are balanced.

## Main statements

- `grows_add?`, `grows_addPlural?` : what an addition does to the keys.
- `grows_setPlurals` : what storing forms does to the keys.
-/

namespace AndroidStrings

open Markup

/-- A value that is accepted is balanced in its stored form. -/
def EscapeMode.StoresBalanced (mode : EscapeMode) (value : Text) : Prop :=
  Value.validate value = .ok () -> Balanced (mode.apply value)

namespace Document

open Segments

/-- An edit that keeps the keys of a document, and creates some at most. -/
structure Grows (created : List EntryKind.Key) (document edited : Document) : Prop where
  plain : PlainStart edited.text
  read : edited.IsRead
  kept : forall key, key ∈ document.order -> key ∈ edited.order
  new : forall key, key ∈ edited.order -> key ∈ document.order ∨ key ∈ created

namespace Grows

variable {created : List EntryKind.Key} {document middle edited : Document}

theorem refl
    (hplain : PlainStart document.text)
    (hread : document.IsRead) :
    Grows created document document :=
  ⟨hplain, hread, fun _ h => h, fun _ h => .inl h⟩

theorem trans
    (hfirst : Grows created document middle)
    (hsecond : Grows created middle edited) :
    Grows created document edited where
  plain := hsecond.plain
  read := hsecond.read
  kept := fun key h => hsecond.kept key (hfirst.kept key h)
  new := by
    intro key h
    rcases hsecond.new key h with hmiddle | hcreated
    · exact hfirst.new key hmiddle
    · exact .inr hcreated

theorem mono
    {more : List EntryKind.Key}
    (h : Grows created document edited)
    (hmore : forall key, key ∈ created -> key ∈ more) :
    Grows more document edited where
  plain := h.plain
  read := h.read
  kept := h.kept
  new := fun key hkey => (h.new key hkey).imp_right (hmore key)

end Grows

section Edits

variable {document edited : Document} {row row' : List Segment} {id stored : Text}
  {mode : EscapeMode}

theorem LaidOut.grows_of_alike
    {created : List EntryKind.Key}
    (h : document.LaidOut row)
    (hedited : edited.LaidOut row')
    (halike : Alike row row') :
    Grows created document edited := by
  have horder : edited.order = document.order := by
    rw [hedited.order_eq, halike.keys, h.order_eq]
  constructor
  · exact hedited.plain
  · exact hedited.read
  · exact fun key hkey => horder ▸ hkey
  · exact fun key hkey => .inl (horder ▸ hkey)

theorem grows_replaceString
    {created : List EntryKind.Key}
    (hplain : PlainStart document.text)
    (hread : document.IsRead)
    (hstored : Balanced stored)
    (hedit : document.replaceString id stored = .ok edited) :
    Grows created document edited := by
  rcases exists_laidOut hplain hread with ⟨row, hlaid⟩
  rcases hlaid.exists_replaceString (contains_of_replaceString hedit) hstored with
    ⟨edited', row', hedited, hlaid', halike⟩
  rw [hedit, Except.ok.injEq] at hedited
  exact hlaid.grows_of_alike (hedited ▸ hlaid') halike

/-- A new element adds the key that it is read with. -/
theorem grows_insertEntry
    {segment : Segment} {entry : Entry}
    (hplain : PlainStart document.text)
    (hread : document.IsRead)
    (hblock : segment.isBlock = true)
    (hfits : segment.Fits true)
    (hentries : segment.entries = [entry])
    (hedit : document.insertEntry segment.raw = .ok edited) :
    Grows [entry.key] document edited := by
  rcases exists_laidOut hplain hread with ⟨row, hlaid⟩
  rcases hlaid.exists_inserted hblock hfits hentries hedit with
    ⟨row', front, back, hlaid', _, hbefore, hafter⟩
  constructor
  · exact hlaid'.plain
  · exact hlaid'.read
  · intro key hkey
    rw [hbefore, List.mem_append] at hkey
    rw [hafter, List.mem_append, List.mem_cons]
    exact hkey.imp_right .inr
  · intro key hkey
    rw [hafter, List.mem_append, List.mem_cons] at hkey
    rw [hbefore, List.mem_append, List.mem_singleton]
    rcases hkey with hfront | heq | hback
    · exact .inl (.inl hfront)
    · exact .inr heq
    · exact .inl (.inr hback)

theorem grows_insertString
    (hplain : PlainStart document.text)
    (hread : document.IsRead)
    (hid : IsVerbatim id)
    (hstored : Balanced stored)
    (hedit : document.insertEntry (stringElement id stored) = .ok edited) :
    Grows [(.string, id)] document edited := by
  rcases hstored with ⟨inside, hinside, rfl⟩
  rw [← Segment.raw_newString] at hedit
  exact grows_insertEntry hplain hread rfl (Segment.fits_newString hid.noQuote hinside)
    (Segment.entries_newString inside hid) hedit

theorem grows_insertPlurals
    {items : List (Quantity × Text)} {ending : LineEnding}
    (hplain : PlainStart document.text)
    (hread : document.IsRead)
    (hid : IsVerbatim id)
    (hitems : forall item, item ∈ items -> Balanced item.2)
    (hedit : document.insertEntry (pluralsElement id items ending) = .ok edited) :
    Grows [(.plurals, id)] document edited := by
  rcases exists_forests hitems with ⟨forests, rfl, hforests⟩
  rw [← Segment.raw_newPlurals] at hedit
  exact grows_insertEntry hplain hread rfl (Segment.fits_newPlurals hid.noQuote hforests)
    (Segment.entries_newPlurals _ forests hid) hedit

/-!
# Edits of strings
-/

theorem grows_set
    {created : List EntryKind.Key} {value : Text}
    (hplain : PlainStart document.text)
    (hread : document.IsRead)
    (hstored : mode.StoresBalanced value)
    (hedit : document.set id value mode = .ok edited) :
    Grows created document edited := by
  rcases set_eq_ok_iff.mp hedit with ⟨hvalid, hreplace⟩
  exact grows_replaceString hplain hread (hstored hvalid) hreplace

theorem grows_setOrCreate
    {value : Text}
    (hplain : PlainStart document.text)
    (hread : document.IsRead)
    (hid : IsVerbatim id)
    (hstored : mode.StoresBalanced value)
    (hedit : document.setOrCreate id value mode = .ok edited) :
    Grows [(.string, id)] document edited := by
  unfold setOrCreate at hedit
  split at hedit
  · cases hedit
  · rename_i stored hvalue
    have hbalanced := hstored (validate_of_storedValue hvalue)
    rw [eq_of_storedValue hvalue] at hedit
    split at hedit
    · exact grows_replaceString hplain hread hbalanced hedit
    · exact grows_insertString hplain hread hid hbalanced hedit

theorem grows_add?
    {value : Text}
    (hplain : PlainStart document.text)
    (hread : document.IsRead)
    (hid : IsVerbatim id)
    (hstored : mode.StoresBalanced value)
    (hedit : document.add? id value mode = .ok (some edited)) :
    Grows [(.string, id)] document edited := by
  rcases add?_eq_some_iff.mp hedit with ⟨hvalid, _, hinsert⟩
  exact grows_insertString hplain hread hid (hstored hvalid) hinsert

/-!
# Edits of plurals
-/

section Plurals

variable {forms : List (Quantity × Text)}

theorem grows_addPlural?
    (hplain : PlainStart document.text)
    (hread : document.IsRead)
    (hid : IsVerbatim id)
    (hforms : forall form, form ∈ forms -> mode.StoresBalanced form.2)
    (hedit : document.addPlural? id forms mode = .ok (some edited)) :
    Grows [(.plurals, id)] document edited := by
  rcases addPlural?_eq_some_iff.mp hedit with ⟨items, hitems, _, hinsert⟩
  exact grows_insertPlurals hplain hread hid (forall_acceptedForms hforms hitems) hinsert

/-- Storing forms leaves the plurals element there, whether it was or not. -/
theorem grows_setPlurals
    {outcome : EditOutcome}
    (hplain : PlainStart document.text)
    (hread : document.IsRead)
    (hid : IsVerbatim id)
    (hforms : forall form, form ∈ forms -> mode.StoresBalanced form.2)
    (h : (document.setPlurals id forms mode).result = .ok outcome) :
    Grows [(.plurals, id)] document (document.setPlurals id forms mode).document ∧
      (.plurals, id) ∈ (document.setPlurals id forms mode).document.order := by
  unfold setPlurals at h ⊢
  cases hitems : storedForms id mode forms with
  | error fault =>
      rw [hitems] at h
      cases h
  | ok items =>
      have hbalanced := forall_acceptedForms hforms hitems
      rw [hitems] at h
      cases hfind : document.find? .plurals id with
      | none =>
          simp only [hfind] at h ⊢
          cases hinsert : document.insertEntry
              (pluralsElement id items document.lineEnding) with
          | error fault =>
              rw [hinsert] at h
              cases h
          | ok new =>
              refine ⟨grows_insertPlurals hplain hread hid hbalanced hinsert, ?_⟩
              rcases exists_pluralsElement_eq id items document.lineEnding with ⟨tail, helement⟩
              rw [helement] at hinsert
              exact mem_order_iff.mpr (contains_of_insertEntry hplain hread hid hinsert).1
      | some node =>
          rcases exists_laidOut hplain hread with ⟨row, hlaid⟩
          rcases hlaid.exists_storeForms hfind hid hbalanced with
            ⟨new, row', hnew, hlaid', halike⟩
          have hgrows : Grows [(.plurals, id)] document new := hlaid.grows_of_alike hlaid' halike
          simp only [hnew]
          refine ⟨hgrows, hgrows.kept _ (mem_order_iff.mpr ?_)⟩
          rw [contains, hfind]
          rfl

end Plurals

end Edits

end Document
end AndroidStrings
