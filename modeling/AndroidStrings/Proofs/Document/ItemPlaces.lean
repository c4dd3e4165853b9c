import AndroidStrings.Proofs.Document.Segment
import AndroidStrings.Proofs.Markup.Fragment
import AndroidStrings.Proofs.Text.Piece

/-!
# Places of items

The items of an element are read with their places.  They stand in the element one behind the
other, and what is read as the value of an item is what stands between its tags.

## Main statement

`itemsIn_of_itemsFrom` : the items that are read from a forest stand where its text does.
-/

namespace AndroidStrings

open Markup

/-- Items that stand in a range of a text, with their values. -/
structure ItemsIn (text : Text) (range : Span) (items : List ReadItem) : Prop where
  outer : Span.IncreasingIn range (items.map fun item => item.node.outer)
  inside : forall item, item ∈ items -> item.node.inner.Inside item.node.outer
  outer_at : forall item, item ∈ items ->
    text.HasAt item.node.outer (text.slice item.node.outer)
  inner_at : forall item, item ∈ items -> text.HasAt item.node.inner item.value

section Items

variable {text : Text} {items : List ReadItem} {start middle stop : Nat}

theorem itemsIn_nil (text : Text) (range : Span) : ItemsIn text range [] :=
  ⟨Span.increasingIn_nil range, by simp, by simp, by simp⟩

theorem ItemsIn.mono
    (h : ItemsIn text ⟨middle, stop⟩ items)
    (hstart : start ≤ middle) :
    ItemsIn text ⟨start, stop⟩ items :=
  ⟨h.outer.mono hstart (Nat.le_refl _), h.inside, h.outer_at, h.inner_at⟩

theorem ItemsIn.cons
    {first : ReadItem} {piece : Text}
    (h : ItemsIn text ⟨middle, stop⟩ items)
    (houter : first.node.outer = ⟨start, middle⟩)
    (hpos : start < middle)
    (hstop : middle ≤ stop)
    (hinside : first.node.inner.Inside first.node.outer)
    (houterAt : text.HasAt first.node.outer piece)
    (hinnerAt : text.HasAt first.node.inner first.value) :
    ItemsIn text ⟨start, stop⟩ (first :: items) := by
  refine ⟨?_, ?_, ?_, ?_⟩
  · have hfirst : Span.IncreasingIn ⟨start, middle⟩ [⟨start, middle⟩] :=
      Span.increasingIn_singleton hpos
    have hall := hfirst.append h.outer (Nat.le_of_lt hpos) hstop
    rw [List.map_cons, houter]
    exact hall
  · exact List.forall_mem_cons.mpr ⟨hinside, h.inside⟩
  · exact List.forall_mem_cons.mpr ⟨houterAt.self, h.outer_at⟩
  · exact List.forall_mem_cons.mpr ⟨hinnerAt, h.inner_at⟩

end Items

theorem size_raw_pos_of_markup (t : Text) : 0 < Text.size ('<' :: t) := by
  have hpos := Char.utf8Size_pos '<'
  rw [Text.size_cons]
  omega

/-- The items of an element stand in it one behind the other. -/
theorem itemsIn_of_itemsFrom
    {heading : Heading} {forest : Forest} {items : List ReadItem} {text : Text}
    {start stop : Nat}
    (h : itemsFrom heading start forest = .ok items)
    (hat : text.HasAt ⟨start, stop⟩ forest.raw) :
    ItemsIn text ⟨start, stop⟩ items := by
  induction forest generalizing start items with
  | nil =>
      simp only [itemsFrom, Except.ok.injEq] at h
      rw [← h]
      exact itemsIn_nil text _
  | leaf event rest ih =>
      rw [Forest.raw_leaf] at hat
      have hle : start ≤ start + event.raw.size := Nat.le_add_right _ _
      cases event with
      | emptyTag content =>
          have hpos : 0 < (Event.emptyTag content).raw.size := size_raw_pos_of_markup _
          have hstop := hat.stop_eq
          rw [Text.size_append] at hstop
          simp only [itemsFrom] at h
          split at h
          · split at h
            · simp at h
            · rcases Success.map_eq_ok_iff.mp h with ⟨others, hothers, heq⟩
              rw [← heq]
              apply (ih hothers hat.right).cons rfl
              · omega
              · simp only at hstop
                omega
              · exact ⟨hle, Nat.le_refl _⟩
              · exact hat.left
              · exact hat.left.nil
          · exact (ih h hat.right).mono hle
      | _ => exact (ih h hat.right).mono hle
  | element opening inside closing rest _ ih =>
      rw [Forest.raw_element] at hat
      have hpos : 0 < (Event.startTag opening).raw.size := size_raw_pos_of_markup _
      have hsize : ((Event.startTag opening).raw ++ inside.raw ++ (Event.endTag closing).raw).size =
          (Event.startTag opening).raw.size + inside.raw.size +
            (Event.endTag closing).raw.size := by
        simp only [Text.size_append]
      have hstop := hat.stop_eq
      rw [Text.size_append, hsize] at hstop
      have hrest := hat.right
      have helement := hat.left
      have hinside := hat.left.left.right
      simp only [hsize, ← Nat.add_assoc] at hrest helement
      simp only [Text.size_append, ← Nat.add_assoc] at hinside
      simp only at hstop
      simp only [itemsFrom] at h
      split at h
      · split at h
        · simp at h
        · rcases Success.map_eq_ok_iff.mp h with ⟨others, hothers, heq⟩
          rw [← heq]
          apply (ih hothers hrest).cons rfl
          · omega
          · omega
          · constructor <;> simp only <;> omega
          · exact helement
          · exact hinside
      · apply (ih h hrest).mono
        omega

end AndroidStrings
