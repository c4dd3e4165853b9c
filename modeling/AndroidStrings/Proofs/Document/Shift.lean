import AndroidStrings.Proofs.Document.Segment
import AndroidStrings.Proofs.Success

/-!
# Segments at another place

What a segment says does not depend on where it stands: moved by a number of bytes, all its
places move by as many, and its entries stay.

## Main statement

`layoutFrom_shift` : the layout of a row of segments moves with the row.
-/

namespace AndroidStrings

open Markup

theorem itemsFrom_shift (heading : Heading) (offset start : Nat) (forest : Forest) :
    itemsFrom heading (start + offset) forest =
      (itemsFrom heading start forest).map (List.map (ReadItem.shift offset)) := by
  induction forest generalizing start with
  | nil => rfl
  | leaf event rest ih =>
      have hrest := ih (start + event.raw.size)
      rw [Nat.add_right_comm] at hrest
      cases event with
      | emptyTag content =>
          simp only [itemsFrom]
          split
          · cases itemQuantity heading content with
            | error e => rfl
            | ok quantity =>
                simp only [hrest]
                cases itemsFrom heading (start + (Event.emptyTag content).raw.size) rest with
                | error e => rfl
                | ok items =>
                    simp [Except.map, ReadItem.shift, ItemNode.shift, Span.shift,
                      Nat.add_right_comm]
          · exact hrest
      | _ => exact hrest
  | element opening inside closing rest _ ih =>
      have hrest := ih (start + (Event.startTag opening).raw.size + inside.raw.size +
        (Event.endTag closing).raw.size)
      have hstop : start + offset + (Event.startTag opening).raw.size + inside.raw.size +
          (Event.endTag closing).raw.size = start + (Event.startTag opening).raw.size +
            inside.raw.size + (Event.endTag closing).raw.size + offset := by
        omega
      simp only [itemsFrom]
      rw [hstop, hrest]
      split
      · cases itemQuantity heading opening with
        | error e => rfl
        | ok quantity =>
            cases itemsFrom heading (start + (Event.startTag opening).raw.size +
                inside.raw.size + (Event.endTag closing).raw.size) rest with
            | error e => rfl
            | ok items =>
                simp [Except.map, ReadItem.shift, ItemNode.shift, Span.shift, Nat.add_right_comm]
      · rfl

theorem itemsEntryValue_shift (kind : EntryKind) (offset : Nat) (items : List ReadItem) :
    itemsEntryValue kind (items.map (ReadItem.shift offset)) = itemsEntryValue kind items := by
  cases kind with
  | plurals =>
      simp only [itemsEntryValue, List.filterMap_map]
      rfl
  | _ =>
      simp only [itemsEntryValue, List.map_map]
      rfl

theorem elementNode_shift (kind : EntryKind) (offset start : Nat) (opening : Text)
    (inside : Forest) (closing : Text) :
    elementNode kind (start + offset) opening inside closing =
      (elementNode kind start opening inside closing).map (Node.shift offset) := by
  unfold elementNode
  cases Heading.ofTag kind opening with
  | error e => rfl
  | ok heading =>
      cases kind with
      | string => simp [Except.map, Node.shift, Span.shift, Nat.add_right_comm]
      | _ =>
          simp only [Nat.add_right_comm start offset, itemsFrom_shift heading offset]
          cases itemsFrom heading (start + (Event.startTag opening).raw.size) inside with
          | error e => rfl
          | ok items =>
              simp [Except.map, Node.shift, Span.shift, itemsEntryValue_shift,
                Nat.add_right_comm, ReadItem.shift]

namespace Segment

theorem layoutAt_shift (offset start : Nat) (segment : Segment) :
    segment.layoutAt (start + offset) =
      (segment.layoutAt start).map (Layout.shift offset) := by
  cases segment with
  | outer event =>
      cases event with
      | emptyTag content =>
          by_cases hname : tagName content = Reader.rootName <;>
            simp [layoutAt, hname, Except.map, Layout.shift, Span.shift, Nat.add_right_comm]
      | _ => simp [layoutAt, Except.map, Layout.shift, Span.shift, Nat.add_right_comm]
  | inner event =>
      cases event with
      | emptyTag content =>
          cases hkind : EntryKind.ofTag? (tagName content) with
          | none =>
              simp [layoutAt, hkind, Except.map, Layout.shift, Span.shift, Nat.add_right_comm]
          | some kind =>
              cases hheading : Heading.ofTag kind content with
              | error e => simp [layoutAt, hkind, hheading, Except.map]
              | ok heading =>
                  simp [layoutAt, hkind, hheading, Except.map, Layout.shift, Node.shift,
                    Span.shift, Reader.Node.ofEmptyTag, Nat.add_right_comm]
      | _ => simp [layoutAt, Except.map, Layout.shift, Span.shift, Nat.add_right_comm]
  | element opening inside closing =>
      cases hkind : EntryKind.ofTag? (tagName opening) with
      | none =>
          simp [layoutAt, hkind, Except.map, Layout.shift, Span.shift, Nat.add_right_comm]
      | some kind =>
          simp only [layoutAt, hkind, elementNode_shift kind offset]
          cases elementNode kind start opening inside closing with
          | error e => rfl
          | ok node => simp [Except.map, Layout.shift]
  | _ => simp [layoutAt, Except.map, Layout.shift, Span.shift, Nat.add_right_comm]

end Segment

namespace Segments

theorem layoutFrom_shift (offset start : Nat) (segments : List Segment) :
    layoutFrom (start + offset) segments =
      (layoutFrom start segments).map (Layout.shift offset) := by
  induction segments generalizing start with
  | nil => rfl
  | cons segment segments ih =>
      simp only [layoutFrom, Segment.layoutAt_shift offset, Nat.add_right_comm start offset,
        ih (start + segment.raw.size)]
      cases segment.layoutAt start with
      | error e => rfl
      | ok found =>
          cases layoutFrom (start + segment.raw.size) segments with
          | error e => rfl
          | ok others => simp [Except.map, Layout.shift_append]

/-- A row of segments that can be read at one place can be read at every other, and has the
same entries there. -/
theorem exists_layoutFrom
    {start : Nat} {segments : List Segment} {layout : Layout}
    (h : layoutFrom start segments = .ok layout)
    (start' : Nat) :
    exists layout' : Layout,
      layoutFrom start' segments = .ok layout' ∧
        layout'.nodes.map Node.entry = layout.nodes.map Node.entry := by
  have shiftEntries : forall (offset : Nat) (found : Layout),
      (found.shift offset).nodes.map Node.entry = found.nodes.map Node.entry := by
    intro offset found
    simp [Layout.shift, Function.comp_def]
  -- Both places are reached from the start of the text.
  have hshift := layoutFrom_shift start 0 segments
  rw [Nat.zero_add, h] at hshift
  rcases Success.map_eq_ok_iff.mp hshift.symm with ⟨base, hbase, heq⟩
  have hshift' := layoutFrom_shift start' 0 segments
  rw [Nat.zero_add, hbase] at hshift'
  exists base.shift start'
  constructor
  · exact hshift'
  · rw [shiftEntries, ← heq, shiftEntries]

end Segments
end AndroidStrings
