import AndroidStrings.Proofs.Text.LineExtent
import AndroidStrings.Proofs.Text.Piece

/-!
# Ranges of a text

A span is a range of a text when it does not end before it begins and both of its ends lie between
two characters of the text.  A program that cuts a text anywhere else is stopped, and the checked
functions of this module answer nothing there.

## Main statements

- `hasRange_iff` : a range is a span that some piece of the text stands at.
- `startsLine?_eq`, `lineExtent?_eq` : the search for the line around a range takes ranges only.
- `hasRange_lineExtent` : a range together with its line is a range.
-/

namespace AndroidStrings
namespace Text

/-- A place between two characters of a text, or at one of its ends. -/
def IsCut (t : Text) (position : Nat) : Prop :=
  (takeBytes position t).size = position

instance (t : Text) (position : Nat) : Decidable (t.IsCut position) :=
  inferInstanceAs (Decidable ((takeBytes position t).size = position))

structure HasRange (t : Text) (span : Span) : Prop where
  ordered : span.start ≤ span.stop
  start : t.IsCut span.start
  stop : t.IsCut span.stop

theorem hasRange_def (t : Text) (span : Span) :
    t.HasRange span ↔ span.start ≤ span.stop ∧ t.IsCut span.start ∧ t.IsCut span.stop :=
  ⟨fun h => ⟨h.ordered, h.start, h.stop⟩, fun h => ⟨h.1, h.2.1, h.2.2⟩⟩

instance (t : Text) (span : Span) : Decidable (t.HasRange span) :=
  decidable_of_iff' _ (hasRange_def t span)

section

variable {t piece : Text} {span : Span} {start middle stop position : Nat}

theorem isCut_size (front back : Text) : (front ++ back).IsCut front.size := by
  rw [IsCut, takeBytes_size]

theorem isCut_zero (t : Text) : t.IsCut 0 :=
  isCut_size [] t

theorem IsCut.le (h : t.IsCut position) : position ≤ t.size := by
  have hsize := congrArg size (takeBytes_append_dropBytes position t)
  rw [size_append, h] at hsize
  omega

theorem hasRange_nil (h : t.IsCut position) : t.HasRange ⟨position, position⟩ :=
  ⟨Nat.le_refl _, h, h⟩

theorem HasRange.trans (h : t.HasRange ⟨start, middle⟩) (h' : t.HasRange ⟨middle, stop⟩) :
    t.HasRange ⟨start, stop⟩ :=
  ⟨Nat.le_trans h.ordered h'.ordered, h.start, h'.stop⟩

theorem HasAt.hasRange (h : t.HasAt span piece) : t.HasRange span := by
  rcases h with ⟨front, back, rfl, hstart, hstop⟩
  refine ⟨?_, ?_, ?_⟩
  · rw [hstart, hstop]
    exact Nat.le_add_right _ _
  · rw [hstart, List.append_assoc]
    exact isCut_size front (piece ++ back)
  · rw [hstop, ← size_append]
    exact isCut_size (front ++ piece) back

/-- Something stands at every range of a text. -/
theorem hasRange_iff : t.HasRange span ↔ exists piece : Text, t.HasAt span piece := by
  constructor
  · intro h
    have hstart := takeBytes_append_dropBytes span.start t
    have hstop := takeBytes_append_dropBytes span.stop t
    rcases List.append_eq_append_iff.mp (hstart.trans hstop.symm) with
      ⟨piece, hpiece, hrest⟩ | ⟨more, hmore, _⟩
    · have hsize := congrArg size hpiece
      rw [size_append, h.start, h.stop] at hsize
      refine ⟨piece, takeBytes span.start t, dropBytes span.stop t, ?_, h.start.symm, ?_⟩
      · rw [← hpiece, hstop]
      · rw [h.start, hsize]
    · -- The part up to the stop cannot be the shorter one, so both ends are one.
      have hsize := congrArg size hmore
      rw [size_append, h.start, h.stop] at hsize
      have hsame : span.stop = span.start := by
        have hordered := h.ordered
        omega
      refine ⟨[], takeBytes span.start t, dropBytes span.start t, ?_, h.start.symm, ?_⟩
      · rw [List.append_nil, hstart]
      · rw [h.start, hsame, size_nil, Nat.add_zero]
  · rintro ⟨piece, h⟩
    exact h.hasRange

/-!
# Checked cuts
-/

def slice? (t : Text) (span : Span) : Option Text :=
  if t.HasRange span then some (t.slice span) else none

def splice? (t : Text) (span : Span) (replacement : Text) : Option Text :=
  if t.HasRange span then some (t.splice span replacement) else none

def lineStart? (t : Text) (position : Nat) : Option Nat :=
  (t.slice? ⟨0, position⟩).map fun front => front.size - front.lastLine.size

def startsLine? (t : Text) (position : Nat) : Option Bool := do
  let start ← t.lineStart? position
  let before ← t.slice? ⟨start, position⟩
  some before.isBlank

def lineExtent? (t : Text) (span : Span) : Option Span := do
  let start ← t.lineStart? span.start
  let before ← t.slice? ⟨start, span.start⟩
  if before.isBlank then
    let rest ← t.slice? ⟨span.stop, t.size⟩
    match blankLineRest? rest with
    | some length => some ⟨start, span.stop + length⟩
    | none => some span
  else some span

theorem slice?_eq (h : t.HasRange span) : t.slice? span = some (t.slice span) :=
  if_pos h

theorem splice?_eq (h : t.HasRange span) (replacement : Text) :
    t.splice? span replacement = some (t.splice span replacement) :=
  if_pos h

theorem slice_zero (t : Text) (position : Nat) : t.slice ⟨0, position⟩ = takeBytes position t := by
  rw [slice, dropBytes_zero, Nat.sub_zero]

theorem lineStart?_eq (h : t.IsCut position) :
    t.lineStart? position = some (t.lineStart position) := by
  rw [lineStart?, slice?_eq ⟨Nat.zero_le _, isCut_zero t, h⟩, slice_zero]
  rfl

/-- The last line before a place stands between the start of the line and the place. -/
theorem hasAt_lastLine (h : t.IsCut position) :
    t.HasAt ⟨t.lineStart position, position⟩ (takeBytes position t).lastLine := by
  rcases exists_append_lastLine (takeBytes position t) with ⟨kept, hkept, _⟩
  have hsize := congrArg size hkept
  rw [size_append] at hsize
  refine ⟨kept, dropBytes position t, ?_, ?_, ?_⟩
  · rw [← hkept, takeBytes_append_dropBytes]
  · show t.lineStart position = kept.size
    rw [lineStart]
    omega
  · show position = _
    rw [IsCut] at h
    omega

theorem startsLine?_eq (h : t.IsCut position) :
    t.startsLine? position = some (t.startsLine position) := by
  have hline := hasAt_lastLine h
  simp [startsLine?, lineStart?_eq h, slice?_eq hline.hasRange, hline.slice, startsLine]

theorem dropBytes_eq_slice (h : t.HasRange ⟨position, t.size⟩) :
    dropBytes position t = t.slice ⟨position, t.size⟩ := by
  have htake := takeBytes_append_dropBytes position t
  have hfront : (takeBytes position t).size = position := h.start
  have hsize := congrArg size htake
  rw [size_append, hfront] at hsize
  show _ = takeBytes (t.size - position) (dropBytes position t)
  have hrest : t.size - position = (dropBytes position t).size := by
    omega
  have hall := takeBytes_size (dropBytes position t) []
  rw [List.append_nil] at hall
  rw [hrest, hall]

theorem isCut_stop (t : Text) : t.IsCut t.size := by
  have h := isCut_size t []
  rwa [List.append_nil] at h

theorem lineExtent?_eq (h : t.HasRange span) : t.lineExtent? span = some (t.lineExtent span) := by
  have hline := hasAt_lastLine h.start
  have hrest : t.HasRange ⟨span.stop, t.size⟩ := ⟨h.stop.le, h.stop, isCut_stop t⟩
  unfold lineExtent? lineExtent startsLine
  rw [lineStart?_eq h.start]
  simp only [Option.bind_eq_bind, Option.bind_some, slice?_eq hline.hasRange, hline.slice,
    slice?_eq hrest, dropBytes_eq_slice hrest]
  split
  · split <;> simp_all
  · rfl

theorem hasRange_lineExtent (h : t.HasRange span) : t.HasRange (t.lineExtent span) := by
  rcases hasRange_iff.mp h with ⟨piece, front, back, htext, hstart, hstop⟩
  have hspan : span = ⟨front.size, front.size + piece.size⟩ := by
    cases span
    simp_all
  rcases exists_lineExtent front piece back with
    ⟨kept, before, behind, rest, hfront, hback, _, hextent⟩
  rw [hspan, htext, hextent]
  have hsplit : front ++ piece ++ back = kept ++ (before ++ piece ++ behind) ++ rest := by
    rw [hfront, hback]
    simp
  exact HasAt.hasRange ⟨kept, rest, hsplit, rfl, rfl⟩

end

end Text
end AndroidStrings
