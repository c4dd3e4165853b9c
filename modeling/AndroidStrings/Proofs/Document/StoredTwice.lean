import AndroidStrings.Proofs.Document.KeptKeys

/-!
# Values stored one after another

A document is what its row spells, and a value that is stored in a string is a forest put in one
segment of the row.  Values of two strings go to different segments, so their order does not
matter, and of the values of one string the row holds the last one only.  An element that closes
itself has its tags after the first value, and the next one goes between them.

## Main statements

- `Segments.store_comm`, `Segments.store_store` : the same of rows.
- `set_twice` : values of two strings are stored in either order, and the last value of a string
  counts.
-/

namespace AndroidStrings

open Markup

namespace Segments

theorem store_cons_of_eq
    {id : Text} {segment : Segment}
    (h : segment.key? = some (.string, id))
    (inside : Forest) (row : List Segment) :
    store id inside (segment :: row) = segment.withInside inside :: row := by
  rw [store, if_pos h]

theorem store_cons_of_ne
    {id : Text} {segment : Segment}
    (h : segment.key? ≠ some (.string, id))
    (inside : Forest) (row : List Segment) :
    store id inside (segment :: row) = segment :: store id inside row := by
  rw [store, if_neg h]

/-- Values of two strings are stored in either order. -/
theorem store_comm
    {id id' : Text}
    (hne : id ≠ id')
    (inside inside' : Forest) (row : List Segment) :
    store id' inside' (store id inside row) = store id inside (store id' inside' row) := by
  induction row with
  | nil => rfl
  | cons segment row ih =>
      by_cases hkey : segment.key? = some (.string, id)
      · have hother : segment.key? ≠ some (.string, id') := by
          rw [hkey]
          simpa using hne
        have hother' : (segment.withInside inside).key? ≠ some (.string, id') := by
          rw [Segment.key?_withInside hkey, ← hkey]
          exact hother
        rw [store_cons_of_eq hkey, store_cons_of_ne hother, store_cons_of_ne hother',
          store_cons_of_eq hkey]
      · rw [store_cons_of_ne hkey]
        by_cases hkey' : segment.key? = some (.string, id')
        · have hother : (segment.withInside inside').key? ≠ some (.string, id) := by
            rw [Segment.key?_withInside hkey', ← hkey']
            exact hkey
          rw [store_cons_of_eq hkey', store_cons_of_eq hkey', store_cons_of_ne hother]
        · rw [store_cons_of_ne hkey', store_cons_of_ne hkey', store_cons_of_ne hkey, ih]

/-- The last value of a string counts. -/
theorem store_store (id : Text) (first last : Forest) (row : List Segment) :
    store id last (store id first row) = store id last row := by
  induction row with
  | nil => rfl
  | cons segment row ih =>
      by_cases hkey : segment.key? = some (.string, id)
      · rw [store_cons_of_eq hkey, store_cons_of_eq hkey,
          store_cons_of_eq (Segment.key?_withInside hkey first), Segment.withInside_withInside]
      · rw [store_cons_of_ne hkey, store_cons_of_ne hkey, store_cons_of_ne hkey, ih]

end Segments

namespace Document

open Segments

/-- A row spells one document only. -/
theorem LaidOut.unique
    {document document' : Document} {row : List Segment}
    (h : document.LaidOut row)
    (h' : document'.LaidOut row) :
    document = document' := by
  have htext : document.text = document'.text := h.raw.symm.trans h'.raw
  have hread := h.read
  rw [htext, h'.read] at hread
  exact (Except.ok.inj hread).symm

section Storing

variable {document : Document} {row : List Segment} {id value : Text} {mode : EscapeMode}

/-- A value with a balanced stored form is stored in its place in the row, and every string stays
where it is. -/
theorem LaidOut.exists_set
    {inside : Forest}
    (h : document.LaidOut row)
    (hcontains : document.contains .string id = true)
    (hvalid : Value.validate value = .ok ())
    (hwell : inside.WellFormed)
    (hstored : mode.apply value = inside.raw) :
    exists edited : Document,
      document.set id value mode = .ok edited ∧ edited.LaidOut (store id inside row) ∧
        edited.order = document.order := by
  rcases h.exists_store hcontains hwell with ⟨edited, hedited, hlaid, halike⟩
  refine ⟨edited, set_eq_ok_iff.mpr ⟨hvalid, by rw [hstored, hedited]⟩, hlaid, ?_⟩
  rw [hlaid.order_eq, h.order_eq, halike.keys]

theorem contains_of_order
    {edited : Document}
    (h : edited.order = document.order)
    (hcontains : document.contains .string id = true) :
    edited.contains .string id = true := by
  rw [← mem_order_iff, h]
  exact mem_order_iff.mpr hcontains

/-- Two values that are stored one after another make up the row with both of them. -/
theorem LaidOut.exists_set_set
    {inside inside' : Forest} {id' value' : Text} {mode' : EscapeMode}
    (h : document.LaidOut row)
    (hcontains : document.contains .string id = true)
    (hcontains' : document.contains .string id' = true)
    (hvalid : Value.validate value = .ok ())
    (hvalid' : Value.validate value' = .ok ())
    (hwell : inside.WellFormed)
    (hwell' : inside'.WellFormed)
    (hstored : mode.apply value = inside.raw)
    (hstored' : mode'.apply value' = inside'.raw) :
    exists edited : Document,
      (document.set id value mode >>= fun between => between.set id' value' mode') = .ok edited ∧
        edited.LaidOut (store id' inside' (store id inside row)) := by
  rcases h.exists_set hcontains hvalid hwell hstored with ⟨between, hfirst, hbetween, horder⟩
  rcases hbetween.exists_set (contains_of_order horder hcontains') hvalid' hwell' hstored' with
    ⟨edited, hlast, hedited, _⟩
  exact ⟨edited, Success.bind_eq_ok_iff.mpr ⟨between, hfirst, hlast⟩, hedited⟩

end Storing

/-- Another value that is stored before or behind a value of another string makes the same document,
and a value that is stored behind one of the same string makes the document that it makes alone. -/
theorem set_twice
    {text id value : Text} {mode : EscapeMode} {document : Document}
    (hplain : PlainStart text)
    (hparse : parse text = .ok document)
    (hcontains : document.contains .string id = true)
    (hvalid : Value.validate value = .ok ())
    (hfragment : Fragment (mode.apply value)) :
    (forall (id' value' : Text) (mode' : EscapeMode),
      id' ≠ id ->
      document.contains .string id' = true ->
      Value.validate value' = .ok () ->
      Fragment (mode'.apply value') ->
      exists edited : Document,
        (document.set id value mode >>= fun between => between.set id' value' mode') =
            .ok edited ∧
          (document.set id' value' mode' >>= fun between => between.set id value mode) =
            .ok edited) ∧
      forall (last : Text) (lastMode : EscapeMode),
        Value.validate last = .ok () ->
        Fragment (lastMode.apply last) ->
        exists edited : Document,
          (document.set id value mode >>= fun between => between.set id last lastMode) =
              .ok edited ∧
            document.set id last lastMode = .ok edited := by
  have htext := text_of_parse hparse
  rcases exists_laidOut (htext ▸ hplain) (htext ▸ hparse) with ⟨row, hrow⟩
  rcases balanced_of_fragment hfragment with ⟨inside, hwell, hstored⟩
  constructor
  · intro id' value' mode' hne hcontains' hvalid' hfragment'
    rcases balanced_of_fragment hfragment' with ⟨inside', hwell', hstored'⟩
    rcases hrow.exists_set_set hcontains hcontains' hvalid hvalid' hwell hwell' hstored.symm
      hstored'.symm with ⟨edited, hedited, hlaid⟩
    rcases hrow.exists_set_set hcontains' hcontains hvalid' hvalid hwell' hwell hstored'.symm
      hstored.symm with ⟨edited', hedited', hlaid'⟩
    rw [store_comm hne] at hlaid'
    rw [hlaid'.unique hlaid] at hedited'
    exact ⟨edited, hedited, hedited'⟩
  · intro last lastMode hvalidLast hfragmentLast
    rcases balanced_of_fragment hfragmentLast with ⟨insideLast, hwellLast, hstoredLast⟩
    rcases hrow.exists_set_set hcontains hcontains hvalid hvalidLast hwell hwellLast hstored.symm
      hstoredLast.symm with ⟨edited, hedited, hlaid⟩
    rcases hrow.exists_set hcontains hvalidLast hwellLast hstoredLast.symm with
      ⟨edited', hedited', hlaid', _⟩
    rw [store_store] at hlaid
    rw [hlaid'.unique hlaid] at hedited'
    exact ⟨edited, hedited, hedited'⟩

/-- A string that closes itself, and one whose name stands twice in the file. -/
theorem set_twice_selfClosing :
    exists document both last : Document,
      parse ("<resources><string name=\"a\" /><string name=\"b\">y</string>".toList ++
          "<string name=\"b\">z</string></resources>".toList) = .ok document ∧
        (document.set "a".toList "<b>x</b>".toList .raw >>= fun between =>
          between.set "b".toList "q".toList .escaped) = .ok both ∧
        (document.set "b".toList "q".toList .escaped >>= fun between =>
          between.set "a".toList "<b>x</b>".toList .raw) = .ok both ∧
        (document.set "a".toList "<b>x</b>".toList .raw >>= fun between =>
          between.set "a".toList "q".toList .escaped) = .ok last ∧
        document.set "a".toList "q".toList .escaped = .ok last := by
  have hread : (parse ("<resources><string name=\"a\" /><string name=\"b\">y</string>".toList ++
      "<string name=\"b\">z</string></resources>".toList)).map (fun document =>
        (document.contains .string "a".toList, document.contains .string "b".toList)) =
          .ok (true, true) := by
    decide +kernel
  rcases Success.map_eq_ok_iff.mp hread with ⟨document, hparse, hcontains⟩
  rw [Prod.mk.injEq] at hcontains
  have hinside : Fragment "x".toList := @Fragment.text "x".toList [] (by decide) .empty
  have hbold : Fragment (EscapeMode.raw.apply "<b>x</b>".toList) :=
    @Fragment.element "b".toList [] "x".toList [] [] ⟨by decide, by decide⟩ ⟨by simp, rfl⟩
      (by simp) hinside rfl .empty
  have hvalid : Value.validate "q".toList = .ok () := by decide +kernel
  have hletter : Fragment (EscapeMode.escaped.apply "q".toList) := by
    rw [show EscapeMode.escaped.apply "q".toList = "q".toList by decide +kernel]
    exact @Fragment.text "q".toList [] (by decide) .empty
  rcases set_twice (by decide) hparse hcontains.1 (by decide +kernel) hbold with ⟨hother, hsame⟩
  rcases hother "b".toList "q".toList .escaped (by decide) hcontains.2 hvalid hletter with
    ⟨both, hboth, hboth'⟩
  rcases hsame "q".toList .escaped hvalid hletter with ⟨last, hlast, hlast'⟩
  exact ⟨document, both, last, hparse, hboth, hboth', hlast, hlast'⟩

end Document
end AndroidStrings
