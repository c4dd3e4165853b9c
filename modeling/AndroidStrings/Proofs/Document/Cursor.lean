import AndroidStrings.Document.Parse
import AndroidStrings.Proofs.Markup.Spelling
import AndroidStrings.Proofs.Success

/-!
# Reading from a place in a text

A cursor is what the reader knows at a place between two events: how many bytes it has read, the
names of the open elements, and what it has collected.  What it makes of the rest of a text
depends on nothing else, so a text can be read piece by piece.

## Main statement

`parse_eq_of_spell` : a document is read by moving a cursor over any events that spell its text.
-/

namespace AndroidStrings

open Markup

structure Cursor where
  position : Nat
  opened : List Text
  reader : Reader

namespace Cursor

def start : Cursor :=
  ⟨0, [], {}⟩

/-- Takes in one event. -/
def advance (text : Text) (cursor : Cursor) (event : Event) : Except Error Cursor :=
  match openNames cursor.opened event with
  | .error fault => .error (.malformed fault)
  | .ok names =>
      let stop := cursor.position + event.raw.size
      (cursor.reader.step text ⟨event, ⟨cursor.position, stop⟩⟩).map fun reader =>
        ⟨stop, names, reader⟩

/-- Reads the rest of a text. -/
def readRest (text : Text) (cursor : Cursor) (rest : Text) : Except Error Reader :=
  let scan := scanFrom cursor.position cursor.opened rest
  match scan.events.foldlM (Reader.step text) cursor.reader with
  | .error e => .error e
  | .ok reader =>
      match scan.failure with
      | some fault => .error (.malformed fault)
      | none => .ok reader

theorem readRest_nil (text : Text) (cursor : Cursor) :
    cursor.readRest text [] = .ok cursor.reader := by
  unfold readRest
  rw [scanFrom]
  simp [pure, Except.pure]

theorem readRest_of_next
    {t rest : Text} {event : Event}
    (text : Text) (cursor : Cursor)
    (ht : t ≠ [])
    (h : next t = .ok (event, rest)) :
    cursor.readRest text t = cursor.advance text event >>= fun c => c.readRest text rest := by
  unfold readRest advance
  rw [scanFrom, dif_neg ht]
  split
  · rename_i hnext
    rw [h] at hnext
    simp at hnext
  · rename_i event' rest' hnext
    rw [h] at hnext
    simp only [Except.ok.injEq, Prod.mk.injEq] at hnext
    rw [← hnext.1, ← hnext.2]
    cases openNames cursor.opened event with
    | error fault => simp [bind, Except.bind, pure, Except.pure]
    | ok names =>
        simp only [Scan.prepend, List.foldlM_cons]
        cases cursor.reader.step text
            ⟨event, ⟨cursor.position, cursor.position + event.raw.size⟩⟩ with
        | error e => rfl
        | ok reader => rfl

theorem readRest_of_next_error
    {t : Text} {fault : Markup.Error}
    (text : Text) (cursor : Cursor)
    (h : next t = .error fault) :
    cursor.readRest text t = .error (.malformed fault) := by
  have ht : t ≠ [] := by
    intro hnil
    rw [hnil] at h
    simp [next] at h
  unfold readRest
  rw [scanFrom, dif_neg ht]
  split
  · rename_i other hnext
    rw [h, Except.error.injEq] at hnext
    rw [hnext]
    rfl
  · rename_i hnext
    rw [h] at hnext
    simp at hnext

theorem openNames_of_advance
    {text : Text} {cursor moved : Cursor} {event : Event}
    (h : cursor.advance text event = .ok moved) :
    openNames cursor.opened event = .ok moved.opened := by
  unfold advance at h
  split at h
  · simp at h
  · rename_i names hnames
    rcases Success.map_eq_ok_iff.mp h with ⟨reader, _, heq⟩
    rw [hnames, ← heq]

theorem openNames_of_foldlM_advance
    {text : Text} {cursor moved : Cursor} {events : List Event}
    (h : events.foldlM (advance text) cursor = .ok moved) :
    events.foldlM openNames cursor.opened = .ok moved.opened := by
  induction events generalizing cursor with
  | nil =>
      simp only [List.foldlM_nil, pure, Except.pure, Except.ok.injEq] at h ⊢
      rw [h]
  | cons event events ih =>
      rw [List.foldlM_cons] at h ⊢
      rcases Success.bind_eq_ok_iff.mp h with ⟨next, hadvance, hrest⟩
      rw [openNames_of_advance hadvance]
      exact ih hrest

/-!
# Text between the markup

A text is passed over, so it does not matter where one text ends and the next begins.
-/

theorem step_text (text content : Text) (reader : Reader) (span : Span) :
    reader.step text ⟨.text content, span⟩ = .ok reader := by
  unfold Reader.step
  cases hplace : reader.place <;>
    simp [Reader.stepOutside, Reader.stepRoot, Reader.stepItems, Reader.bodyDepth?,
      Reader.moveTo, ← hplace]

theorem advance_text (text content : Text) (cursor : Cursor) :
    cursor.advance text (.text content) =
      .ok { cursor with position := cursor.position + content.size } := by
  simp [advance, openNames, step_text, Event.raw, Except.map]

theorem readRest_text
    {content : Text}
    (text : Text) (cursor : Cursor)
    (hcontent : '<' ∉ content)
    (rest : Text) :
    cursor.readRest text (content ++ rest) =
      { cursor with position := cursor.position + content.size }.readRest text rest := by
  have hall : forall c, c ∈ content -> (c != '<') = true := by
    intro c hc
    simp only [bne_iff_ne, ne_eq]
    intro heq
    exact hcontent (heq ▸ hc)
  by_cases hnil : content = []
  · rw [hnil]
    rfl
  have hne : content ++ rest ≠ [] := by
    simp [hnil]
  have hfront : (content ++ rest).head? ≠ some '<' := by
    cases content with
    | nil => exact absurd rfl hnil
    | cons c content =>
        intro hhead
        simp only [List.cons_append, List.head?_cons, Option.some.injEq] at hhead
        exact hcontent (by rw [hhead]; simp)
  rw [readRest_of_next text cursor hne (next_of_text hfront), advance_text,
    List.takeWhile_append_of_pos hall, List.dropWhile_append_of_pos hall]
  show readRest text _ _ = _
  -- What follows up to the next `<` is one more text, read at once with the first one or alone.
  by_cases hrest : rest.head? = some '<' ∨ rest = []
  · rcases hrest with hrest | hrest
    · cases rest with
      | nil => simp at hrest
      | cons c rest =>
          simp only [List.head?_cons, Option.some.injEq] at hrest
          simp [hrest]
    · simp [hrest]
  · rw [not_or] at hrest
    rw [readRest_of_next text _ hrest.2 (next_of_text hrest.1), advance_text]
    simp only [Text.size_append, ← Nat.add_assoc]
    rfl

/-!
# Moving over spelled events
-/

theorem readRest_raw
    {event : Event}
    (text : Text) (cursor : Cursor)
    (h : event.Spelled)
    (rest : Text) :
    cursor.readRest text (event.raw ++ rest) =
      cursor.advance text event >>= fun c => c.readRest text rest := by
  cases event with
  | text content =>
      rw [advance_text]
      exact readRest_text text cursor h rest
  | _ => exact readRest_of_next text cursor (by simp [Event.raw]) (h rest)

theorem readRest_spell
    {events : List Event}
    (text : Text) (cursor : Cursor)
    (h : forall event, event ∈ events -> event.Spelled)
    (rest : Text) :
    cursor.readRest text (spell events ++ rest) =
      events.foldlM (advance text) cursor >>= fun c => c.readRest text rest := by
  induction events generalizing cursor with
  | nil => rfl
  | cons event events ih =>
      rw [spell_cons, List.append_assoc, readRest_raw text cursor (h event (by simp)),
        List.foldlM_cons]
      cases cursor.advance text event with
      | error e => rfl
      | ok moved => exact ih moved (List.forall_mem_cons.mp h).2

theorem failure_of_readRest
    {text rest : Text} {cursor : Cursor} {reader : Reader}
    (h : cursor.readRest text rest = .ok reader) :
    (scanFrom cursor.position cursor.opened rest).failure = none := by
  unfold readRest at h
  cases hfailure : (scanFrom cursor.position cursor.opened rest).failure with
  | none => rfl
  | some fault =>
      cases hfold : (scanFrom cursor.position cursor.opened rest).events.foldlM
          (Reader.step text) cursor.reader with
      | error e => simp [hfold] at h
      | ok read => simp [hfold, hfailure] at h

/-- What can be read to its end is spelled by events. -/
theorem exists_spelled_of_readRest
    {text rest : Text} {cursor : Cursor} {reader : Reader}
    (h : cursor.readRest text rest = .ok reader) :
    exists (events : List Event) (moved : Cursor),
      (forall event, event ∈ events -> event.Spelled) ∧ spell events = rest ∧
        events.foldlM (advance text) cursor = .ok moved ∧ moved.reader = reader := by
  rcases spelled_of_scanFrom (failure_of_readRest h) with ⟨hspelled, hspell⟩
  have hread := readRest_spell text cursor hspelled []
  rw [List.append_nil, hspell, h] at hread
  rcases Success.bind_eq_ok_iff.mp hread.symm with ⟨moved, hfold, hmoved⟩
  rw [readRest_nil, Except.ok.injEq] at hmoved
  exact ⟨_, moved, hspelled, hspell, hfold, hmoved⟩

/-!
# What has been read stays
-/

theorem nodes_prefix_of_step
    {text : Text} {reader moved : Reader} {located : Located}
    (h : reader.step text located = .ok moved) :
    reader.layout.nodes <+: moved.layout.nodes := by
  unfold Reader.step at h
  cases hplace : reader.place <;> simp only [hplace] at h
  case outside =>
      unfold Reader.stepOutside at h
      repeat' split at h
      all_goals simp only [Except.ok.injEq, reduceCtorEq] at h
      all_goals subst h
      all_goals exact List.prefix_refl _
  case root =>
      unfold Reader.stepRoot at h
      repeat' split at h
      all_goals simp only [Except.ok.injEq, reduceCtorEq] at h
      all_goals subst h
      all_goals first | exact List.prefix_refl _ | exact List.prefix_append _ _
  case items entry found =>
      unfold Reader.stepItems at h
      repeat' split at h
      all_goals simp only [Except.ok.injEq, reduceCtorEq] at h
      all_goals subst h
      all_goals first | exact List.prefix_refl _ | exact List.prefix_append _ _
  all_goals
    split at h
    all_goals simp only [Except.ok.injEq] at h
    all_goals subst h
    all_goals first | exact List.prefix_refl _ | exact List.prefix_append _ _

theorem nodes_prefix_of_foldlM
    {text : Text} {cursor moved : Cursor} {events : List Event}
    (h : events.foldlM (advance text) cursor = .ok moved) :
    cursor.reader.layout.nodes <+: moved.reader.layout.nodes := by
  induction events generalizing cursor with
  | nil =>
      simp only [List.foldlM_nil, pure, Except.pure, Except.ok.injEq] at h
      subst h
      exact List.prefix_refl _
  | cons event events ih =>
      rw [List.foldlM_cons] at h
      rcases Success.bind_eq_ok_iff.mp h with ⟨next, hadvance, hrest⟩
      have hnext : cursor.reader.layout.nodes <+: next.reader.layout.nodes := by
        unfold advance at hadvance
        split at hadvance
        · simp at hadvance
        · rcases Success.map_eq_ok_iff.mp hadvance with ⟨reader, hstep, heq⟩
          rw [← heq]
          exact nodes_prefix_of_step hstep
      exact hnext.trans (ih hrest)

end Cursor

namespace Document

/-- A text that does not begin with the byte order mark. -/
def PlainStart (text : Text) : Prop :=
  text.head? ≠ some byteOrderMark

instance (text : Text) : Decidable (PlainStart text) :=
  inferInstanceAs (Decidable (text.head? ≠ some byteOrderMark))

theorem withoutByteOrderMark_of_plainStart
    {text : Text}
    (h : PlainStart text) :
    withoutByteOrderMark text = text := by
  cases text with
  | nil => rfl
  | cons c t =>
      have hc : c ≠ byteOrderMark := by
        intro heq
        exact h (by simp [heq])
      simp [withoutByteOrderMark, hc]

theorem parse_eq_readRest
    {text : Text}
    (h : PlainStart text) :
    parse text =
      (Cursor.start.readRest text text >>= Reader.finish).map fun layout => ⟨text, layout⟩ := by
  unfold parse layoutOf scan Cursor.readRest
  rw [withoutByteOrderMark_of_plainStart h]
  show Except.map _ (match (scanFrom 0 [] text).events.foldlM (Reader.step text) {} with
    | .error e => .error e
    | .ok reader => _) = _
  cases hfold : (scanFrom 0 [] text).events.foldlM (Reader.step text) {} with
  | error e => simp [Cursor.start, hfold, bind, Except.bind]
  | ok reader =>
      cases hfailure : (scanFrom 0 [] text).failure with
      | none => simp [Cursor.start, hfold, hfailure, bind, Except.bind]
      | some fault => simp [Cursor.start, hfold, hfailure, bind, Except.bind]

theorem parse_eq_of_spell
    {text : Text} {events : List Event}
    (hplain : PlainStart text)
    (hspelled : forall event, event ∈ events -> event.Spelled)
    (hspell : spell events = text) :
    parse text =
      (events.foldlM (Cursor.advance text) Cursor.start >>= fun cursor =>
        cursor.reader.finish).map fun layout => ⟨text, layout⟩ := by
  have hread := Cursor.readRest_spell text Cursor.start hspelled []
  rw [List.append_nil, hspell] at hread
  rw [parse_eq_readRest hplain, hread]
  cases events.foldlM (Cursor.advance text) Cursor.start with
  | error e => rfl
  | ok cursor =>
      show Except.map _ (Cursor.readRest text cursor [] >>= Reader.finish) = _
      rw [Cursor.readRest_nil]
      rfl

/-- Every document is spelled by the events of its scan. -/
theorem spelled_of_parse
    {text : Text} {document : Document}
    (hplain : PlainStart text)
    (h : parse text = .ok document) :
    (forall event, event ∈ (scan text).events.map Located.event -> event.Spelled) ∧
      spell ((scan text).events.map Located.event) = text := by
  rw [parse_eq_readRest hplain] at h
  rcases Success.map_eq_ok_iff.mp h with ⟨layout, hread, _⟩
  rcases Success.bind_eq_ok_iff.mp hread with ⟨reader, hreader, _⟩
  rw [scan, withoutByteOrderMark_of_plainStart hplain]
  exact spelled_of_scanFrom (Cursor.failure_of_readRest hreader)

end Document
end AndroidStrings
