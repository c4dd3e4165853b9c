import AndroidStrings.Proofs.Document.Cursor
import AndroidStrings.Proofs.Text.Range

/-!
# Reading takes ranges only

The reader takes values out of the text when an element ends, between places that it has noted
down before.  In a text without a mark for the byte order these places lie between two characters,
and none behind the place where the reader is, so no value is cut out of range, whether the text
is a document or not.

## Main statements

- `Reader.step_anchored` : what one event takes, and what it leaves to be taken.
- `checkedParse_eq` : reading takes ranges of the text only.
-/

namespace AndroidStrings

open Markup

namespace Reader

/-- The spans that the reader takes out of the text at an event. -/
def cuts (reader : Reader) (located : Located) : List Span :=
  match reader.place with
  | .string entry depth =>
      match bodyDepth? depth located.event with
      | some _ => []
      | none => [⟨entry.innerStart, located.span.start⟩]
  | .items _ found =>
      match located.event with
      | .endTag _ => found.map ItemNode.inner
      | _ => []
  | _ => []

/-- One event; nothing when the reader would take a span that is no range. -/
def checkedStep (text : Text) (reader : Reader) (located : Located) :
    Option (Except Error Reader) :=
  if forall span, span ∈ reader.cuts located -> text.HasRange span then
    some (reader.step text located)
  else none

def checkedSteps (text : Text) (reader : Reader) : List Located → Option (Except Error Reader)
  | [] => some (.ok reader)
  | located :: rest =>
      match reader.checkedStep text located with
      | none => none
      | some (.error e) => some (.error e)
      | some (.ok moved) => moved.checkedSteps text rest

/-- The items found so far have ranges between their tags, and an open element or item begins no
later than where the reader is. -/
def Anchored (text : Text) (position : Nat) (reader : Reader) : Prop :=
  let found (items : List ItemNode) : Prop :=
    forall item, item ∈ items -> text.HasRange item.inner
  match reader.place with
  | .string entry _ => text.HasRange ⟨entry.innerStart, position⟩
  | .items _ items => found items
  | .item _ items current _ => found items ∧ text.HasRange ⟨current.innerStart, position⟩
  | .foreign _ items _ _ => found items
  | _ => True

section

variable {text : Text} {reader moved : Reader} {located : Located}

theorem hasRange_of_cuts
    (h : reader.Anchored text located.span.start) :
    forall span, span ∈ reader.cuts located -> text.HasRange span := by
  unfold cuts
  cases hplace : reader.place <;> simp only [Anchored, hplace] at h ⊢
  case string entry depth =>
      split
      · simp
      · exact List.forall_mem_singleton.mpr h
  case items entry found =>
      split
      · exact List.forall_mem_map.mpr h
      · simp
  all_goals simp

/-- Outside an entry nothing waits to be taken. -/
theorem anchored_addNode (text : Text) (position : Nat) (reader : Reader) (node : Node) :
    (reader.addNode node).Anchored text position :=
  trivial

theorem anchored_of_stepItems
    {entry : OpenEntry} {found : List ItemNode} {event : Event} {span : Span}
    (hfound : forall item, item ∈ found -> text.HasRange item.inner)
    (hspan : text.HasRange span)
    (h : stepItems text reader entry found event span = .ok moved)
    (hplace : reader.place = .items entry found) :
    moved.Anchored text span.stop := by
  have hstop : text.HasRange ⟨span.stop, span.stop⟩ := Text.hasRange_nil hspan.stop
  unfold stepItems at h
  cases event with
  | startTag content =>
      simp only at h
      split at h
      · split at h
        · simp at h
        · rw [← Except.ok.inj h]
          exact ⟨hfound, hstop⟩
      · rw [← Except.ok.inj h]
        exact hfound
  | emptyTag content =>
      simp only at h
      split at h
      · split at h
        · simp at h
        · rw [← Except.ok.inj h]
          exact List.forall_mem_append.mpr ⟨hfound, List.forall_mem_singleton.mpr hstop⟩
      · rw [← Except.ok.inj h]
        simpa only [Anchored, hplace] using hfound
  | endTag content =>
      rw [← Except.ok.inj h]
      exact anchored_addNode ..
  | _ =>
      rw [← Except.ok.inj h]
      simpa only [Anchored, hplace] using hfound

theorem anchored_of_stepRoot
    {event : Event} {span : Span}
    (hspan : text.HasRange span)
    (h : stepRoot reader event span = .ok moved)
    (hplace : reader.place = .root) :
    moved.Anchored text span.stop := by
  have hstop : text.HasRange ⟨span.stop, span.stop⟩ := Text.hasRange_nil hspan.stop
  unfold stepRoot at h
  repeat' split at h
  all_goals first
    | (simp at h; done)
    | skip
  all_goals rw [← Except.ok.inj h]
  all_goals first
    | trivial
    | exact hstop
    | exact (List.forall_mem_nil _)
    | simp [Anchored, hplace, addComment]

theorem anchored_of_stepOutside
    {event : Event} {span : Span}
    (h : stepOutside reader event span = .ok moved)
    (hplace : reader.place = .outside) :
    moved.Anchored text span.stop := by
  unfold stepOutside at h
  repeat' split at h
  all_goals first
    | (simp at h; done)
    | skip
  all_goals rw [← Except.ok.inj h]
  all_goals simp [Anchored, hplace]

/-- One event takes ranges only, and what is noted down with it will be a range when it is
taken. -/
theorem step_anchored
    (h : reader.Anchored text located.span.start)
    (hspan : text.HasRange located.span)
    (hstep : reader.step text located = .ok moved) :
    moved.Anchored text located.span.stop := by
  unfold step at hstep
  simp only at hstep
  cases hplace : reader.place <;> simp only [hplace] at hstep <;>
    simp only [Anchored, hplace] at h
  case outside => exact anchored_of_stepOutside hstep hplace
  case root => exact anchored_of_stepRoot hspan hstep hplace
  case items entry found => exact anchored_of_stepItems h hspan hstep hplace
  case string entry depth =>
      split at hstep
      · rw [← Except.ok.inj hstep]
        exact h.trans hspan
      · rw [← Except.ok.inj hstep]
        exact anchored_addNode ..
  case item entry found current depth =>
      split at hstep
      · rw [← Except.ok.inj hstep]
        exact ⟨h.1, h.2.trans hspan⟩
      · rw [← Except.ok.inj hstep]
        exact List.forall_mem_append.mpr ⟨h.1, List.forall_mem_singleton.mpr h.2⟩
  case foreign entry found name depth =>
      split at hstep
      · rw [← Except.ok.inj hstep]
        exact h
      · rw [← Except.ok.inj hstep]
        exact h
  case other name start depth =>
      split at hstep
      · rw [← Except.ok.inj hstep]
        trivial
      · rw [← Except.ok.inj hstep]
        trivial

end

/-- The events of a scan take ranges only, up to the end of the text or the first fault. -/
theorem checkedSteps_scanFrom
    {text front rest : Text} {position : Nat} {opened : List Text} {reader : Reader}
    (htext : text = front ++ rest)
    (hposition : position = front.size)
    (h : reader.Anchored text position) :
    reader.checkedSteps text (scanFrom position opened rest).events =
      some ((scanFrom position opened rest).events.foldlM (step text) reader) := by
  fun_induction scanFrom position opened rest generalizing front reader with
  | case1 => rfl
  | case2 => rfl
  | case3 => rfl
  | case4 position opened t ht event rest hnext names hnames stop =>
      rename_i ih
      have hraw := eq_raw_append_of_next hnext
      have hfront : text = front ++ event.raw ++ rest := by
        rw [htext, hraw, List.append_assoc]
      have hspan : text.HasRange ⟨position, stop⟩ :=
        Text.HasAt.hasRange
          ⟨front, rest, hfront, hposition, congrArg (· + event.raw.size) hposition⟩
      have hcuts : forall span, span ∈ reader.cuts ⟨event, ⟨position, stop⟩⟩ ->
          text.HasRange span :=
        hasRange_of_cuts h
      rw [Scan.prepend, checkedSteps, checkedStep, if_pos hcuts, List.foldlM_cons]
      cases hstep : reader.step text ⟨event, ⟨position, stop⟩⟩ with
      | error e => rfl
      | ok moved =>
          have hstop : stop = (front ++ event.raw).size := by
            rw [Text.size_append, ← hposition]
          exact ih hfront hstop (step_anchored h hspan hstep)

end Reader

namespace Document

/-- Reads the events of a scan; nothing when the reader would take a span that is no range. -/
def checkedLayoutOf (text : Text) (scan : Scan) : Option (Except Error Layout) :=
  match Reader.checkedSteps text {} scan.events with
  | none => none
  | some (.error e) => some (.error e)
  | some (.ok reader) =>
      match scan.failure with
      | some fault => some (.error (.malformed fault))
      | none => some reader.finish

def checkedParse (text : Text) : Option (Except Error Document) :=
  (checkedLayoutOf text (Markup.scan text)).map (Except.map fun layout => ⟨text, layout⟩)

/-- Reading takes ranges of the text only. -/
theorem checkedParse_eq
    {text : Text}
    (h : PlainStart text) :
    checkedParse text = some (parse text) := by
  have hsteps : Reader.checkedSteps text {} (scanFrom 0 [] text).events =
      some ((scanFrom 0 [] text).events.foldlM (Reader.step text) {}) :=
    Reader.checkedSteps_scanFrom (List.nil_append text).symm rfl trivial
  have hlayout : checkedLayoutOf text (scanFrom 0 [] text) =
      some (layoutOf text (scanFrom 0 [] text)) := by
    unfold checkedLayoutOf layoutOf
    rw [hsteps]
    cases (scanFrom 0 [] text).events.foldlM (Reader.step text) {} with
    | error e => rfl
    | ok reader =>
        cases (scanFrom 0 [] text).failure with
        | some fault => rfl
        | none => rfl
  rw [checkedParse, parse, Markup.scan, withoutByteOrderMark_of_plainStart h, hlayout,
    Option.map_some]

end Document
end AndroidStrings
