import Mathlib.Data.List.Basic
import AndroidStrings.Text.Basic

/-!
# Pieces of a text

A span belongs to a piece of a text when it begins and ends between two characters and the piece
is what stands there.  Spans of pieces that follow one another do not overlap.

## Main statements

- `Text.HasAt.slice` : cutting at the span of a piece gives the piece.
- `Span.Increasing.append` : rows of spans in two neighbouring ranges are one row.
-/

namespace AndroidStrings

namespace Span

def Before (left right : Span) : Prop :=
  left.stop ≤ right.start

/-- Neither of two spans reaches into the other. -/
def Apart (left right : Span) : Prop :=
  left.Before right ∨ right.Before left

def Inside (span range : Span) : Prop :=
  range.start ≤ span.start ∧ span.stop ≤ range.stop

/-- Spans of at least one byte, each behind the one before it. -/
def Increasing (spans : List Span) : Prop :=
  (forall span, span ∈ spans -> span.start < span.stop) ∧ spans.Pairwise Before

/-- The spans stand in a range one behind the other. -/
def IncreasingIn (range : Span) (spans : List Span) : Prop :=
  Increasing spans ∧ forall span, span ∈ spans -> span.Inside range

theorem Apart.symm
    {left right : Span}
    (h : left.Apart right) :
    right.Apart left := by
  rcases h with hleft | hright
  · exact .inr hleft
  · exact .inl hright

theorem increasingIn_nil (range : Span) : IncreasingIn range [] :=
  ⟨⟨by simp, List.Pairwise.nil⟩, by simp⟩

theorem increasingIn_singleton
    {span : Span}
    (h : span.start < span.stop) :
    IncreasingIn span [span] := by
  have hinside : span.Inside span := ⟨Nat.le_refl _, Nat.le_refl _⟩
  exact ⟨⟨by simpa using h, List.pairwise_singleton _ _⟩, by simpa using hinside⟩

theorem Inside.mono
    {span : Span} {start stop start' stop' : Nat}
    (h : span.Inside ⟨start, stop⟩)
    (hstart : start' ≤ start)
    (hstop : stop ≤ stop') :
    span.Inside ⟨start', stop'⟩ :=
  ⟨Nat.le_trans hstart h.1, Nat.le_trans h.2 hstop⟩

theorem before_of_inside
    {left right : Span} {start middle stop : Nat}
    (hleft : left.Inside ⟨start, middle⟩)
    (hright : right.Inside ⟨middle, stop⟩) :
    left.Before right :=
  Nat.le_trans hleft.2 hright.1

theorem IncreasingIn.mono
    {spans : List Span} {start stop start' stop' : Nat}
    (h : IncreasingIn ⟨start, stop⟩ spans)
    (hstart : start' ≤ start)
    (hstop : stop ≤ stop') :
    IncreasingIn ⟨start', stop'⟩ spans :=
  ⟨h.1, fun span hspan => (h.2 span hspan).mono hstart hstop⟩

theorem IncreasingIn.sublist
    {range : Span} {spans spans' : List Span}
    (h : IncreasingIn range spans)
    (hsub : spans'.Sublist spans) :
    IncreasingIn range spans' :=
  ⟨⟨fun span hspan => h.1.1 span (hsub.subset hspan), h.1.2.sublist hsub⟩,
    fun span hspan => h.2 span (hsub.subset hspan)⟩

/-- Rows of spans in two neighbouring ranges are one row. -/
theorem IncreasingIn.append
    {front back : List Span} {start middle stop : Nat}
    (hfront : IncreasingIn ⟨start, middle⟩ front)
    (hback : IncreasingIn ⟨middle, stop⟩ back)
    (hstart : start ≤ middle)
    (hstop : middle ≤ stop) :
    IncreasingIn ⟨start, stop⟩ (front ++ back) := by
  refine ⟨⟨?_, ?_⟩, ?_⟩
  · intro span hspan
    rcases List.mem_append.mp hspan with hspan | hspan
    · exact hfront.1.1 span hspan
    · exact hback.1.1 span hspan
  · rw [List.pairwise_append]
    refine ⟨hfront.1.2, hback.1.2, ?_⟩
    intro left hleft right hright
    exact before_of_inside (hfront.2 left hleft) (hback.2 right hright)
  · intro span hspan
    rcases List.mem_append.mp hspan with hspan | hspan
    · exact (hfront.2 span hspan).mono (Nat.le_refl _) hstop
    · exact (hback.2 span hspan).mono hstart (Nat.le_refl _)

end Span

namespace Text

/-- The piece stands at the span: as many bytes stand before it as the span says, and it takes up
the bytes of the span. -/
def HasAt (t : Text) (span : Span) (piece : Text) : Prop :=
  exists front back : Text,
    t = front ++ piece ++ back ∧ span.start = front.size ∧ span.stop = front.size + piece.size

section

variable {t piece first second : Text} {span : Span}

/-- Cutting at the span of a piece gives the piece. -/
theorem HasAt.slice (h : t.HasAt span piece) : t.slice span = piece := by
  rcases h with ⟨front, back, htext, hstart, hstop⟩
  have hspan : span = ⟨front.size, front.size + piece.size⟩ := by
    cases span
    simp_all
  rw [htext, hspan, slice_append]

theorem HasAt.stop_eq (h : t.HasAt span piece) : span.stop = span.start + piece.size := by
  rcases h with ⟨front, back, _, hstart, hstop⟩
  rw [hstart, hstop]

/-- What a span of a text cuts out stands at the span. -/
theorem HasAt.self (h : t.HasAt span piece) : t.HasAt span (t.slice span) := by
  rw [h.slice]
  exact h

theorem HasAt.left (h : t.HasAt span (first ++ second)) :
    t.HasAt ⟨span.start, span.start + first.size⟩ first := by
  rcases h with ⟨front, back, htext, hstart, _⟩
  refine ⟨front, second ++ back, ?_, hstart, ?_⟩
  · rw [htext]
    simp
  · rw [hstart]

theorem HasAt.right (h : t.HasAt span (first ++ second)) :
    t.HasAt ⟨span.start + first.size, span.stop⟩ second := by
  rcases h with ⟨front, back, htext, hstart, hstop⟩
  refine ⟨front ++ first, back, ?_, ?_, ?_⟩
  · rw [htext]
    simp
  · rw [hstart, size_append]
  · rw [hstop, size_append, size_append, Nat.add_assoc]

/-- Nothing stands at the end of a piece. -/
theorem HasAt.nil (h : t.HasAt span piece) : t.HasAt ⟨span.stop, span.stop⟩ [] := by
  rcases h with ⟨front, back, htext, _, hstop⟩
  refine ⟨front ++ piece, back, ?_, ?_, ?_⟩
  · rw [htext]
    simp
  · rw [hstop, size_append]
  · rw [hstop, size_append, size_nil, Nat.add_zero]

end

/-!
# Parts of a text
-/

theorem takeBytes_isPrefix (n : Nat) (t : Text) : takeBytes n t <+: t :=
  ⟨dropBytes n t, takeBytes_append_dropBytes n t⟩

theorem dropBytes_isSuffix (n : Nat) (t : Text) : dropBytes n t <:+ t :=
  ⟨takeBytes n t, takeBytes_append_dropBytes n t⟩

theorem slice_isInfix (t : Text) (span : Span) : t.slice span <:+: t :=
  (takeBytes_isPrefix _ _).isInfix.trans (dropBytes_isSuffix _ _).isInfix

theorem hasAt_self (t : Text) : t.HasAt ⟨0, t.size⟩ t :=
  ⟨[], [], by simp, rfl, by simp⟩

end Text
end AndroidStrings
