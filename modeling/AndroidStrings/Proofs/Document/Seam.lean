import AndroidStrings.Proofs.Document.Places
import AndroidStrings.Proofs.Document.Removal
import AndroidStrings.Proofs.Text.Rewrite

/-!
# Seams of a document

Edits cut a text where the reader has noted down a place.  Every such cut is next to markup: a
tag ends before it or begins behind it.

## Main statements

- `Layout.Seamed` : all places of a layout begin and end at seams.
- `seamed_of_parse` : the layout of a document that has been read is seamed.
-/

namespace AndroidStrings

open Markup

namespace Text

/-- A cut right behind or right before markup. -/
def Seam (t : Text) (position : Nat) : Prop :=
  exists front back : Text,
    t = front ++ back ∧ position = front.size ∧
      (front.getLast? = some '>' ∨ back.head? = some '<')

/-- A span that begins and ends at seams. -/
def SeamedAt (t : Text) (span : Span) : Prop :=
  t.Seam span.start ∧ t.Seam span.stop

section

variable {t piece : Text} {span : Span}

theorem HasAt.seam_start (h : t.HasAt span piece) (hhead : piece.head? = some '<') :
    t.Seam span.start := by
  rcases h with ⟨front, back, htext, hstart, _⟩
  refine ⟨front, piece ++ back, by rw [htext, List.append_assoc], hstart, .inr ?_⟩
  rw [List.head?_append, hhead]
  rfl

theorem HasAt.seam_stop (h : t.HasAt span piece) (hlast : piece.getLast? = some '>') :
    t.Seam span.stop := by
  rcases h with ⟨front, back, htext, _, hstop⟩
  refine ⟨front ++ piece, back, htext, by rw [hstop, size_append], .inl ?_⟩
  rw [List.getLast?_append, hlast]
  rfl

theorem HasAt.seamed (h : t.HasAt span piece) (hmarkup : IsMarkup piece) : t.SeamedAt span :=
  ⟨h.seam_start hmarkup.1, h.seam_stop hmarkup.2⟩

end

end Text

theorem isMarkup_raw_startTag (content : Text) : Text.IsMarkup (Event.startTag content).raw := by
  constructor <;> simp [Event.raw, List.getLast?_cons]

theorem isMarkup_raw_endTag (content : Text) : Text.IsMarkup (Event.endTag content).raw := by
  constructor <;> simp [Event.raw, List.getLast?_cons]

theorem isMarkup_raw_emptyTag (content : Text) : Text.IsMarkup (Event.emptyTag content).raw := by
  constructor <;> simp [Event.raw, List.getLast?_cons, List.getLast?_append]

/-- What stands between two tags begins behind the one and ends before the other. -/
theorem seamed_between
    {text opening closing : Text} {inside : Text} {start stop : Nat}
    (h : text.HasAt ⟨start, stop⟩
      ((Event.startTag opening).raw ++ inside ++ (Event.endTag closing).raw)) :
    text.SeamedAt ⟨start, stop⟩ ∧
      text.SeamedAt ⟨start + (Event.startTag opening).raw.size,
        start + (Event.startTag opening).raw.size + inside.size⟩ := by
  have hstart := h.left.left.seam_stop (isMarkup_raw_startTag opening).2
  have hstop := h.right.seam_start (isMarkup_raw_endTag closing).1
  simp only [Text.size_append, ← Nat.add_assoc] at hstart hstop
  exact ⟨⟨h.left.left.seam_start (isMarkup_raw_startTag opening).1,
    h.right.seam_stop (isMarkup_raw_endTag closing).2⟩, hstart, hstop⟩

/-!
# Entries
-/

theorem seamed_of_itemsFrom
    {heading : Heading} {forest : Forest} {items : List ReadItem} {text : Text}
    {start stop : Nat}
    (h : itemsFrom heading start forest = .ok items)
    (hat : text.HasAt ⟨start, stop⟩ forest.raw) :
    forall item, item ∈ items ->
      text.SeamedAt item.node.outer ∧ text.SeamedAt item.node.inner := by
  induction forest generalizing start items with
  | nil =>
      simp only [itemsFrom, Except.ok.injEq] at h
      simp [← h]
  | leaf event rest ih =>
      rw [Forest.raw_leaf] at hat
      cases event with
      | emptyTag content =>
          simp only [itemsFrom] at h
          split at h
          · split at h
            · simp at h
            · rcases Success.map_eq_ok_iff.mp h with ⟨others, hothers, heq⟩
              have hseamed := hat.left.seamed (isMarkup_raw_emptyTag content)
              rw [← heq]
              exact List.forall_mem_cons.mpr
                ⟨⟨hseamed, hseamed.2, hseamed.2⟩, ih hothers hat.right⟩
          · exact ih h hat.right
      | _ => exact ih h hat.right
  | element opening inside closing rest _ ih =>
      rw [Forest.raw_element] at hat
      have hparts := seamed_between hat.left
      have hrest := hat.right
      simp only [Text.size_append, ← Nat.add_assoc] at hrest hparts
      simp only [itemsFrom] at h
      split at h
      · split at h
        · simp at h
        · rcases Success.map_eq_ok_iff.mp h with ⟨others, hothers, heq⟩
          rw [← heq]
          exact List.forall_mem_cons.mpr ⟨hparts, ih hothers hrest⟩
      · exact ih h hrest

theorem seamed_of_elementNode
    {kind : EntryKind} {opening closing text : Text} {inside : Forest} {start stop : Nat}
    {node : Node}
    (hat : text.HasAt ⟨start, stop⟩ (Segment.element opening inside closing).raw)
    (h : elementNode kind start opening inside closing = .ok node) :
    forall place, place ∈ node.places -> text.SeamedAt place := by
  rcases Segment.entry_of_elementNode h with ⟨houter, _⟩
  rcases items_of_elementNode h with ⟨hinner, _, hvalue⟩
  have hstop := hat.stop_eq
  rw [Segment.raw_element] at hat
  have hparts := seamed_between hat
  have hinside := hat.left.right
  intro place hplace
  rcases List.mem_cons.mp hplace with hplace | hplace
  · rw [hplace, houter, ← hstop]
    exact hparts.1
  rcases List.mem_cons.mp hplace with hplace | hplace
  · rw [hplace, hinner]
    exact hparts.2
  rcases hvalue with ⟨_, hnone⟩ | ⟨heading, items, hitems, _, hnodes, _⟩
  · rw [hnone] at hplace
    cases hplace
  · rw [hnodes] at hplace
    rcases List.mem_flatMap.mp hplace with ⟨item, hitem, hends⟩
    rcases List.mem_map.mp hitem with ⟨read, hread, rfl⟩
    rcases seamed_of_itemsFrom hitems hinside read hread with ⟨hitemOuter, hitemInner⟩
    rcases List.mem_cons.mp hends with hends | hends
    · rw [hends]
      exact hitemOuter
    · rw [List.mem_singleton.mp hends]
      exact hitemInner

/-!
# Layouts
-/

namespace Layout

/-- The places of single tags, comments and elements. -/
def markupPlaces (layout : Layout) : List Span :=
  layout.declaration.toList ++ layout.rootOpen.toList ++ layout.rootClose.toList ++
    layout.rootPlaces

/-- All places of a layout begin and end at seams of the text, and those of whole tags, comments
and elements hold markup. -/
structure Seamed (text : Text) (layout : Layout) : Prop where
  seams : forall place, place ∈ layout.places -> text.SeamedAt place
  markup : forall place, place ∈ layout.markupPlaces -> Text.IsMarkup (text.slice place)

theorem seamed_empty (text : Text) : Seamed text {} :=
  ⟨by simp [places], by simp [markupPlaces, rootPlaces]⟩

theorem mem_markupPlaces_append
    {front back : Layout} {place : Span}
    (h : place ∈ (front ++ back).markupPlaces) :
    place ∈ front.markupPlaces ∨ place ∈ back.markupPlaces := by
  rcases List.mem_append.mp h with h | h
  · simp only [append_def, markupPlaces, List.mem_append] at h ⊢
    rcases h with (h | h) | h
    · rcases mem_toList_or h with h | h <;> simp [h]
    · rcases mem_toList_or h with h | h <;> simp [h]
    · rcases mem_toList_or h with h | h <;> simp [h]
  · rw [(rootPlaces_append_perm front back).mem_iff, List.mem_append] at h
    rcases h with h | h
    · exact .inl (List.mem_append_right _ h)
    · exact .inr (List.mem_append_right _ h)

theorem Seamed.append
    {front back : Layout} {text : Text}
    (hfront : front.Seamed text)
    (hback : back.Seamed text) :
    (front ++ back).Seamed text := by
  constructor
  · intro place hplace
    rcases mem_places_append hplace with hplace | hplace
    · exact hfront.seams place hplace
    · exact hback.seams place hplace
  · intro place hplace
    rcases mem_markupPlaces_append hplace with hplace | hplace
    · exact hfront.markup place hplace
    · exact hback.markup place hplace

end Layout

namespace Segment

/-- The places of whole tags, comments and elements are those of segments. -/
theorem eq_of_mem_markupPlaces
    {start : Nat} {segment : Segment} {found : Layout} {place : Span}
    (h : segment.layoutAt start = .ok found)
    (hplace : place ∈ found.markupPlaces) :
    place = ⟨start, start + segment.raw.size⟩ := by
  rcases List.mem_append.mp hplace with hplace | hplace
  · unfold layoutAt at h
    simp only at h
    generalize (⟨start, start + segment.raw.size⟩ : Span) = span at h ⊢
    repeat' split at h
    all_goals first
      | (rcases Success.map_eq_ok_iff.mp h with ⟨made, _, rfl⟩
         cases hplace)
      | (rw [Except.ok.injEq] at h
         rw [← h] at hplace
         first
           | exact List.mem_singleton.mp hplace
           | cases hplace)
  · rcases rootPlaces_of_layoutAt h with hnil | ⟨hone, _⟩
    · rw [hnil] at hplace
      cases hplace
    · rw [hone] at hplace
      exact List.mem_singleton.mp hplace

theorem seamed_of_nodes
    {start stop : Nat} {segment : Segment} {found : Layout} {node : Node} {text : Text}
    (hat : text.HasAt ⟨start, stop⟩ segment.raw)
    (h : segment.layoutAt start = .ok found)
    (hnodes : found.nodes = [node]) :
    forall place, place ∈ node.places -> text.SeamedAt place := by
  rcases form_of_layoutAt h hnodes with ⟨_, _, _, rfl, _, hmade⟩ |
    ⟨content, heading, rfl, _, _, hnode⟩
  · exact seamed_of_elementNode hat hmade
  · have hstop := hat.stop_eq
    rw [raw_inner] at hat hstop
    have hseamed := hat.seamed (isMarkup_raw_emptyTag content)
    intro place hplace
    simp only [hnode, Node.places, Reader.Node.ofEmptyTag, List.flatMap_nil, List.mem_cons,
      List.not_mem_nil, or_false] at hplace
    simp only at hstop
    rw [← hstop] at hplace
    rcases hplace with hplace | hplace
    · rw [hplace]
      exact hseamed
    · rw [hplace]
      exact ⟨hseamed.2, hseamed.2⟩

theorem seamed_of_layoutAt
    {inRoot : Bool} {start stop : Nat} {segment : Segment} {found : Layout} {text : Text}
    (hfits : segment.Fits inRoot)
    (hat : text.HasAt ⟨start, stop⟩ segment.raw)
    (h : segment.layoutAt start = .ok found) :
    found.Seamed text := by
  have hstop : stop = start + segment.raw.size := hat.stop_eq
  rcases isMarkup_or_text hfits with hmarkup | ⟨content, _, rfl⟩
  · constructor
    · intro place hplace
      rcases mem_places_of_layoutAt h hplace with heq | ⟨node, hnode, hmem⟩
      · rw [heq, ← hstop]
        exact hat.seamed hmarkup
      · rcases nodes_of_layoutAt h with hnil | ⟨one, hone⟩
        · rw [hnil] at hnode
          cases hnode
        · rw [hone, List.mem_singleton] at hnode
          exact seamed_of_nodes hat h hone place (hnode ▸ hmem)
    · intro place hplace
      rw [eq_of_mem_markupPlaces h hplace, ← hstop, hat.slice]
      exact hmarkup
  · rw [layoutAt_ofText, Except.ok.injEq] at h
    rw [← h]
    exact Layout.seamed_empty text

end Segment

namespace Segments

theorem seamed_of_layoutFrom
    {inRoot : Bool} {start stop : Nat} {segments : List Segment} {layout : Layout} {text : Text}
    (hfit : Fit inRoot segments)
    (hat : text.HasAt ⟨start, stop⟩ (raw segments))
    (h : layoutFrom start segments = .ok layout) :
    layout.Seamed text := by
  induction segments generalizing inRoot start layout with
  | nil =>
      simp only [layoutFrom, Except.ok.injEq] at h
      rw [← h]
      exact Layout.seamed_empty text
  | cons segment segments ih =>
      rw [raw_cons] at hat
      rcases exists_layouts_of_cons h with ⟨found, others, hfound, hothers, heq⟩
      rw [← heq]
      exact (Segment.seamed_of_layoutAt hfit.1 hat.left hfound).append
        (ih hfit.2 hat.right hothers)

end Segments

namespace Document

/-- The layout of a document that has been read is seamed. -/
theorem seamed_of_parse
    {text : Text} {document : Document}
    (hplain : PlainStart text)
    (hparse : parse text = .ok document) :
    document.layout.Seamed text := by
  rcases exists_segments_of_parse hplain hparse with ⟨segments, hfit, hraw⟩
  have hread := parse_raw (by rwa [hraw]) hfit
  rw [hraw, hparse] at hread
  rcases Success.map_eq_ok_iff.mp hread.symm with ⟨layout, hlayout, hdocument⟩
  have hat := Text.hasAt_self text
  rw [← hraw] at hat
  rw [← hdocument, ← hraw]
  exact Segments.seamed_of_layoutFrom hfit hat hlayout

end Document
end AndroidStrings
