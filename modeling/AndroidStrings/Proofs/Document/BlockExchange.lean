import AndroidStrings.Proofs.Document.Sorting
import AndroidStrings.Proofs.Document.StoredTwice
import AndroidStrings.Proofs.Text.Uniform

/-!
# One block in the place of another

Two documents differ in one block, which has the same key in both and stands on one line.  Sorting
looks at keys, and writes a block on one line as it is, so the sorted documents differ in this
block only, and in the same place.

## Main statements

- `RootedRow.exists_stored` : a value is stored in one block of a document.
- `LineExchange.nonempty_sortsBoth` : what the sorted documents have in common.
- `Outline.store_row` : a value is stored in one block of a sorted document.
- `Outline.raw_withGroups_two_iff` : exchanges in two places of a sorted document.
-/

namespace AndroidStrings

open Markup

/-!
# A value in a row
-/

namespace Segment

/-- A value on one line leaves an element on one line. -/
theorem not_mem_raw_withInside
    {segment : Segment} {inside : Forest}
    (h : '\n' ∉ segment.raw)
    (hinside : '\n' ∉ inside.raw) :
    '\n' ∉ (segment.withInside inside).raw := by
  cases segment with
  | element opening old closing =>
      simp only [raw_element, List.mem_append, not_or] at h
      simp only [withInside, raw_element, List.mem_append, not_or]
      exact ⟨⟨h.1.1, hinside⟩, h.2⟩
  | inner event =>
      cases event with
      | emptyTag content =>
          rcases Text.exists_trimEnd_append isSpace content with ⟨blank, hcontent, _⟩
          have hname : '\n' ∉ (Event.endTag EntryKind.string.tag).raw := by decide
          rw [raw_inner, Event.raw, hcontent] at h
          simp only [withInside, raw_element, List.mem_append, not_or]
          refine ⟨⟨?_, hinside⟩, hname⟩
          simp only [Event.raw, List.mem_cons, List.mem_append, not_or] at h ⊢
          exact ⟨⟨h.1.1, h.1.2.1⟩, by decide⟩
      | _ => exact h
  | _ => exact h

end Segment

namespace RootedRow

section Inside

variable {row : RootedRow} {front back : List Segment} {segment : Segment}

theorem segments_of_inside
    (h : row.inside = front ++ segment :: back) :
    row.segments = (row.front.map .outer ++ .rootOpen row.opening :: front) ++
      segment :: (back ++ .rootClose row.closing :: row.back.map .outer) := by
  simp [segments, h]

/-- The keys of a row stand directly inside the root element. -/
theorem mem_inside_of_key?
    {key : EntryKind.Key}
    (hkey : segment.key? = some key)
    (h : segment ∈ row.segments) :
    segment ∈ row.inside := by
  have hblock := Segment.isBlock_of_key? hkey
  simp only [segments, List.mem_append, List.mem_cons, List.mem_map] at h
  rcases h with ⟨event, _, rfl⟩ | rfl | hinside | rfl | ⟨event, _, rfl⟩
  · simp [Segment.isBlock] at hblock
  · simp [Segment.isBlock] at hblock
  · exact hinside
  · simp [Segment.isBlock] at hblock
  · simp [Segment.isBlock] at hblock

theorem key?_ne_of_front
    {key : EntryKind.Key}
    (h : forall other, other ∈ front -> other.key? ≠ some key) :
    forall other, other ∈ row.front.map .outer ++ .rootOpen row.opening :: front ->
      other.key? ≠ some key := by
  intro other hother hkey
  have hblock := Segment.isBlock_of_key? hkey
  simp only [List.mem_append, List.mem_cons, List.mem_map] at hother
  rcases hother with ⟨event, _, rfl⟩ | rfl | hmem
  · simp [Segment.isBlock] at hblock
  · simp [Segment.isBlock] at hblock
  · exact h other hmem hkey

end Inside

/-- A value is stored in the first string of an id, in its place inside the root element. -/
theorem exists_stored
    {row : RootedRow} {document : Document} {id : Text} {node : Node} {inside : Forest}
    (hrow : row.WellFormed)
    (h : document.LaidOut row.segments)
    (hfind : document.find? .string id = some node)
    (hwell : inside.WellFormed) :
    exists (edited : Document) (front back : List Segment) (segment : Segment),
      row.inside = front ++ segment :: back ∧ segment.key? = some (.string, id) ∧
        (forall other, other ∈ front -> other.key? ≠ some (.string, id)) ∧
        segment.raw = document.slice node.outer ∧
        document.replaceString id inside.raw = .ok edited ∧
        { row with inside := front ++ segment.withInside inside :: back }.WellFormed ∧
        edited.LaidOut
          { row with inside := front ++ segment.withInside inside :: back }.segments := by
  have hcontains := Document.contains_of_find? hfind
  rcases h.exists_store hcontains hwell with ⟨edited, hedit, hlaid, _⟩
  rcases StringSite.exists_of_laidOut h hcontains with ⟨site, first, _, hsegments, _, hfirst, _⟩
  have hmem : first ∈ row.inside := mem_inside_of_key? hfirst (by simp [hsegments])
  let wants : Segment -> Bool := fun segment => segment.key? == some (.string, id)
  have hsome : (row.inside.find? wants).isSome :=
    List.find?_isSome.mpr ⟨first, hmem, by simp [wants, hfirst]⟩
  rcases Option.isSome_iff_exists.mp hsome with ⟨segment, hsegment⟩
  rcases List.find?_eq_some_iff_append.mp hsegment with ⟨hwanted, front, back, hinside, hnot⟩
  have hkey : segment.key? = some (.string, id) := beq_iff_eq.mp hwanted
  have hfront : forall other, other ∈ front -> other.key? ≠ some (.string, id) := by
    intro other hother
    simpa [wants] using hnot other hother
  let row' : RootedRow := { row with inside := front ++ segment.withInside inside :: back }
  have hsegments' : row'.segments = _ := segments_of_inside rfl
  rw [segments_of_inside hinside] at h hlaid
  rw [Segments.store_append (key?_ne_of_front hfront) hkey, ← hsegments'] at hlaid
  refine ⟨edited, front, back, segment, hinside, hkey, hfront, ?_, hedit, ?_, hlaid⟩
  · exact (h.slice_outer hfind hkey (key?_ne_of_front hfront)).symm
  · have hblock := Segment.isBlock_of_key? (Segment.key?_withInside hkey inside)
    have hmem' : segment.withInside inside ∈ row'.segments := by
      simp [hsegments']
    have hfits := hlaid.fits_of_isBlock hmem' hblock
    have hold := hrow.inside
    rw [hinside] at hold
    rcases List.forall_mem_append.mp hold with ⟨hbefore, hbehind⟩
    exact { hrow with
      inside := List.forall_mem_append.mpr ⟨hbefore, List.forall_mem_cons.mpr
        ⟨Segment.isContent_of_isBlock hblock hfits, (List.forall_mem_cons.mp hbehind).2⟩⟩ }

end RootedRow

/-!
# Groups in rows that are alike
-/

theorem exists_append_of_forall₂
    {α β : Type} {R : α -> β -> Prop} {before after : List α} {item : α} {items : List β}
    (h : List.Forall₂ R (before ++ item :: after) items) :
    exists (before' : List β) (item' : β) (after' : List β),
      items = before' ++ item' :: after' ∧ List.Forall₂ R before before' ∧ R item item' ∧
        List.Forall₂ R after after' := by
  induction before generalizing items with
  | nil =>
      rcases List.forall₂_cons_left_iff.mp h with ⟨item', after', hitem, hafter, rfl⟩
      exact ⟨[], item', after', rfl, .nil, hitem, hafter⟩
  | cons first before ih =>
      rcases List.forall₂_cons_left_iff.mp h with ⟨first', items', hfirst, hrest, rfl⟩
      rcases ih hrest with ⟨before', item', after', rfl, hbefore, hitem, hafter⟩
      exact ⟨first' :: before', item', after', rfl, .cons hfirst hbefore, hitem, hafter⟩

/-- A block that is written as it is may stand for the block that is written. -/
theorem Group.WellFormed.rewritten_of_kept
    {ending : LineEnding} {group : Group} {above : List Text}
    (h : group.WellFormed)
    (hkept : Document.elementText group.block.hasItems ending group.block.raw = group.block.raw)
    (habove : RewrittenComments ending group.above above)
    (hspelled : forall content, content ∈ above -> (Event.comment content).Spelled) :
    group.Rewritten ending ⟨above, group.block⟩ where
  wellFormed := ⟨hspelled, h.isBlock, h.fits, h.readable⟩
  above := habove
  raw := hkept.symm
  tag := rfl

namespace Outline

/-- An outline with other groups. -/
def withGroups (groups : List Group) (outline : Outline) : Outline :=
  { outline with groups }

theorem WellFormed.exchange
    {outline : Outline} {front back : List Group} {group group' : Group}
    (h : outline.WellFormed)
    (hgroups : outline.groups = front ++ group :: back)
    (hgroup : group'.WellFormed) :
    (outline.withGroups (front ++ group' :: back)).WellFormed := by
  have hall := h.groups
  rw [hgroups] at hall
  rcases List.forall_mem_append.mp hall with ⟨hbefore, hbehind⟩
  exact ⟨h.header, List.forall_mem_append.mpr ⟨hbefore,
    List.forall_mem_cons.mpr ⟨hgroup, (List.forall_mem_cons.mp hbehind).2⟩⟩, h.below⟩

/-- A block is held by its spelling only. -/
theorem raw_withGroups_iff
    (outline : Outline) (front back : List Group) (above : List Text)
    (segment segment' : Segment) (ending : LineEnding) :
    Segments.raw ((outline.withGroups (front ++ ⟨above, segment'⟩ :: back)).row ending).segments =
      Segments.raw
        ((outline.withGroups (front ++ ⟨above, segment⟩ :: back)).row ending).segments ↔
      segment'.raw = segment.raw := by
  simp [raw_row, withGroups, Group.row, Segments.raw_line]

/-- Blocks exchanged in two places come to the same document only if nothing changes. -/
theorem raw_withGroups_two_iff
    {outline : Outline} {front middle back : List Group} {above above' : List Text}
    {first first' last last' : Segment}
    (hfirst : (outline.withGroups
      (front ++ ⟨above, first'⟩ :: (middle ++ ⟨above', last⟩ :: back))).WellFormed)
    (hlast : (outline.withGroups
      (front ++ ⟨above, first⟩ :: (middle ++ ⟨above', last'⟩ :: back))).WellFormed)
    (ending : LineEnding) :
    Segments.raw ((outline.withGroups
        (front ++ ⟨above, first'⟩ :: (middle ++ ⟨above', last⟩ :: back))).row ending).segments =
      Segments.raw ((outline.withGroups
        (front ++ ⟨above, first⟩ :: (middle ++ ⟨above', last'⟩ :: back))).row ending).segments ↔
      first'.raw = first.raw ∧ last'.raw = last.raw := by
  constructor
  · intro h
    have hcommented := map_commented_eq_of_raw_eq hlast hfirst h
    simp only [withGroups, List.map_append, List.map_cons, List.append_cancel_left_eq,
      List.cons.injEq, Group.commented, Document.CommentedBlock.mk.injEq] at hcommented
    exact ⟨hcommented.1.2.2.2, hcommented.2.1.2.2.2.symm⟩
  · rintro ⟨hsame, hsame'⟩
    have hrest := (raw_withGroups_iff outline (front ++ ⟨above, first⟩ :: middle) back above' last
      last' ending).mpr hsame'
    simp only [List.append_assoc, List.cons_append] at hrest
    exact ((raw_withGroups_iff outline front _ above first first' ending).mpr hsame).trans
      hrest.symm

end Outline

/-!
# One block exchanged
-/

/-- Two documents that differ in one block only, which has the same key and is on one line in
both of them. -/
structure LineExchange (row row' : RootedRow) (document document' : Document)
    (segment segment' : Segment) : Prop where
  wellFormed : row.WellFormed
  wellFormed' : row'.WellFormed
  reads : row.Reads document
  reads' : row'.Reads document'
  outside : row' = { row with inside := row'.inside }
  inside : exists front back : List Segment,
    row.inside = front ++ segment :: back ∧ row'.inside = front ++ segment' :: back ∧
      forall other, other ∈ front -> other.key? ≠ segment.key?
  isBlock : segment.isBlock = true
  isBlock' : segment'.isBlock = true
  key_eq : segment'.key? = segment.key?
  line : '\n' ∉ segment.raw
  line' : '\n' ∉ segment'.raw

namespace LineExchange

variable {row row' : RootedRow} {document document' : Document} {segment segment' : Segment}

theorem symm (h : LineExchange row row' document document' segment segment') :
    LineExchange row' row document' document segment' segment where
  wellFormed := h.wellFormed'
  wellFormed' := h.wellFormed
  reads := h.reads'
  reads' := h.reads
  outside := by rw [h.outside]
  inside := by
    rcases h.inside with ⟨front, back, hold, hnew, hfirst⟩
    rw [← h.key_eq] at hfirst
    exact ⟨front, back, hnew, hold, hfirst⟩
  isBlock := h.isBlock'
  isBlock' := h.isBlock
  key_eq := h.key_eq.symm
  line := h.line'
  line' := h.line

theorem exists_text (h : LineExchange row row' document document' segment segment') :
    exists front back : Text,
      document.text = front ++ segment.raw ++ back ∧
        document'.text = front ++ segment'.raw ++ back := by
  rcases h.inside with ⟨front, back, hold, hnew, _⟩
  refine ⟨spell row.front ++ (Event.startTag row.opening).raw ++ Segments.raw front,
    Segments.raw back ++ ((Event.endTag row.closing).raw ++ spell row.back), ?_, ?_⟩
  · rw [h.reads.text, RootedRow.raw_segments, hold]
    simp
  · rw [h.reads'.text, h.outside, RootedRow.raw_segments, hnew]
    simp

theorem text_eq_iff (h : LineExchange row row' document document' segment segment') :
    document'.text = document.text ↔ segment'.raw = segment.raw := by
  rcases h.exists_text with ⟨front, back, hold, hnew⟩
  rw [hold, hnew, List.append_assoc, List.append_assoc, List.append_cancel_left_eq,
    List.append_cancel_right_eq]

theorem lineEnding_eq (h : LineExchange row row' document document' segment segment') :
    document'.lineEnding = document.lineEnding := by
  rcases h.exists_text with ⟨front, back, hold, hnew⟩
  rw [Document.lineEnding, Document.lineEnding, hold, hnew]
  exact Text.detect_exchange front back (Segment.isMarkup_raw h.isBlock)
    (Segment.isMarkup_raw h.isBlock') h.line h.line'

theorem heads
    {header : Header}
    (h : LineExchange row row' document document' segment segment')
    (hheads : header.Heads document) :
    header.Heads document' :=
  RootedRow.Reads.heads_of_same_front h.wellFormed h.wellFormed' h.reads h.reads'
    (by rw [h.outside]) (by rw [h.outside]) hheads

theorem below_eq (h : LineExchange row row' document document' segment segment') :
    Segments.below [] row'.inside = Segments.below [] row.inside := by
  rcases h.inside with ⟨front, back, hold, hnew, _⟩
  rw [hold, hnew, (Segments.groups_append_block h.isBlock [] front back).2,
    (Segments.groups_append_block h.isBlock' [] front back).2]

/-- Both blocks have the same place among the groups in their order. -/
theorem exists_arranged
    (h : LineExchange row row' document document' segment segment')
    (order : List EntryKind.Key) :
    exists (before after : List Group) (above : List Text),
      row.arranged order = before ++ ⟨above, segment⟩ :: after ∧
        row'.arranged order = before ++ ⟨above, segment'⟩ :: after ∧
        forall other, other ∈ before -> other.block.key? ≠ segment.key? := by
  rcases h.inside with ⟨front, back, hold, hnew, hfirst⟩
  let key : Group -> Option EntryKind.Key := fun group => group.block.key?
  let old : Group := ⟨Segments.below [] front, segment⟩
  let new : Group := ⟨Segments.below [] front, segment'⟩
  have hgroups : forall group, group ∈ Segments.groups [] front -> key group ≠ key old :=
    fun group hgroup => hfirst group.block (Segments.block_mem_of_groups hgroup)
  have hkey : key new = key old := h.key_eq
  rcases exists_arrange_exchange hgroups hkey order (Segments.groups [] back) with
    ⟨before, after, hbefore, hafter, hkeys⟩
  refine ⟨before, after, Segments.below [] front, ?_, ?_, hkeys⟩
  · rw [RootedRow.arranged, hold, (Segments.groups_append_block h.isBlock [] front back).1, hbefore]
  · rw [RootedRow.arranged, hnew, (Segments.groups_append_block h.isBlock' [] front back).1, hafter]

/-- Sorted, both documents have the groups of one outline, but for the block: `before` and `after`
are the groups around it, `front` and `back` what they are rewritten to. -/
structure SortsBoth (row : RootedRow) (document document' : Document) (segment segment' : Segment)
    (order : List EntryKind.Key) (sorted : Document) where
  before : List Group
  above : List Text
  after : List Group
  front : List Group
  comments : List Text
  back : List Group
  outline : Outline
  sorted' : Document
  arranged : row.arranged order = before ++ ⟨above, segment⟩ :: after
  first : forall other, other ∈ before -> other.block.key? ≠ segment.key?
  rewritten : List.Forall₂ (Group.Rewritten document.lineEnding) before front
  kept : Group.Rewritten document.lineEnding ⟨above, segment⟩ ⟨comments, segment⟩
  groups : outline.groups = front ++ ⟨comments, segment⟩ :: back
  sorts : RootedRow.SortsTo document order outline sorted
  wellFormed' : (outline.withGroups (front ++ ⟨comments, segment'⟩ :: back)).WellFormed
  sort' : document'.sort order = .ok sorted'
  text' : sorted'.text = Segments.raw ((outline.withGroups
    (front ++ ⟨comments, segment'⟩ :: back)).row document.lineEnding).segments

/-- If the one document can be sorted, so can the other one. -/
theorem nonempty_sortsBoth
    {order : List EntryKind.Key} {sorted : Document}
    (h : LineExchange row row' document document' segment segment')
    (hsort : document.sort order = .ok sorted) :
    Nonempty (SortsBoth row document document' segment segment' order sorted) := by
  rcases h.exists_arranged order with ⟨before, after, above, hold, hnew, hfirst⟩
  rcases RootedRow.exists_rewritten_of_sort h.wellFormed h.reads hsort with ⟨groups, hgroups⟩
  have hwell := h.reads.forall_arranged h.wellFormed order
  have hwell' := h.reads'.forall_arranged h.wellFormed' order
  rw [hold] at hgroups hwell
  rw [hnew] at hwell'
  rcases exists_append_of_forall₂ hgroups with ⟨front, group, back, rfl, hfront, hgroup, hback⟩
  -- What was written for the block may be another spelling of it, but on one line it is the block.
  have hkept := (hwell ⟨above, segment⟩ (by simp)).1.rewritten_of_kept
    (Document.elementText_of_line _ _ (Segment.isMarkup_raw h.isBlock) h.line) hgroup.above
    hgroup.wellFormed.above
  have hkept' := (hwell' ⟨above, segment'⟩ (by simp)).1.rewritten_of_kept
    (Document.elementText_of_line _ _ (Segment.isMarkup_raw h.isBlock') h.line') hgroup.above
    hgroup.wellFormed.above
  have hrewritten : List.Forall₂ (Group.Rewritten document.lineEnding) (row.arranged order)
      (front ++ ⟨group.above, segment⟩ :: back) := by
    rw [hold]
    exact List.rel_append hfront (.cons hkept hback)
  have hrewritten' : List.Forall₂ (Group.Rewritten document'.lineEnding) (row'.arranged order)
      (front ++ ⟨group.above, segment'⟩ :: back) := by
    rw [hnew, h.lineEnding_eq]
    exact List.rel_append hfront (.cons hkept' hback)
  rcases RootedRow.exists_outline_of_rewritten h.wellFormed h.reads hrewritten with
    ⟨outline, again, hsame, hheads, hbelow, hsorted⟩
  have hagain := hsorted.sort
  rw [hsort, Except.ok.injEq] at hagain
  rw [← hagain] at hsorted
  let outline' := outline.withGroups (front ++ ⟨group.above, segment'⟩ :: back)
  have hwellFormed : outline'.WellFormed :=
    hsorted.wellFormed.exchange hsame hkept'.wellFormed
  rcases Outline.exists_document_of_outline hwellFormed document.lineEnding with
    ⟨sorted', hparse⟩
  rw [← h.below_eq, ← h.lineEnding_eq] at hbelow
  have htext : document'.sortedText order =
      Segments.raw (outline'.row document'.lineEnding).segments :=
    h.reads'.sortedText_eq_raw (h.heads hheads) hrewritten' hbelow
  have hsort' : document'.sort order = .ok sorted' := by
    rw [h.reads'.sort_eq, htext, h.lineEnding_eq]
    exact hparse
  exact ⟨{
    before, above, after, front, back, outline, sorted'
    comments := group.above
    arranged := hold
    first := hfirst
    rewritten := hfront
    kept := hkept
    groups := hsame
    sorts := hsorted
    wellFormed' := hwellFormed
    sort' := hsort'
    text' := Document.text_of_parse hparse }⟩

end LineExchange

namespace Document

/-- A value is stored in a string on one line. -/
theorem exists_lineExchange
    {text id : Text} {document : Document} {node : Node} {inside : Forest}
    (hplain : PlainStart text)
    (hparse : parse text = .ok document)
    (hsingle : SingleRoot text)
    (hfind : document.find? .string id = some node)
    (hline : '\n' ∉ document.slice node.outer)
    (hinside : inside.WellFormed)
    (hfeed : '\n' ∉ inside.raw) :
    exists (edited : Document) (row row' : RootedRow) (segment : Segment),
      document.replaceString id inside.raw = .ok edited ∧
        segment.key? = some (.string, id) ∧
        LineExchange row row' document edited segment (segment.withInside inside) := by
  rcases exists_rootedRow hplain hparse hsingle with ⟨row, hrow, rfl⟩
  have htext := text_of_parse hparse
  have hlaid : document.LaidOut row.segments :=
    ⟨htext ▸ hplain, htext ▸ hparse, hrow.fit, htext.symm⟩
  rcases RootedRow.exists_stored hrow hlaid hfind hinside with
    ⟨edited, front, back, segment, hfront, hkey, hfirst, hraw, hedit, hrow', hlaid'⟩
  have hkey' := Segment.key?_withInside hkey inside
  have hparse' := hlaid'.read
  have hplain' := hlaid'.plain
  rw [← hlaid'.raw] at hparse' hplain'
  rw [← hraw] at hline
  refine ⟨edited, row, _, segment, hedit, hkey, hrow, hrow',
    RootedRow.reads_of_parse hrow hplain hparse, RootedRow.reads_of_parse hrow' hplain' hparse',
    rfl, ⟨front, back, hfront, rfl, ?_⟩, Segment.isBlock_of_key? hkey,
    Segment.isBlock_of_key? hkey', hkey'.trans hkey.symm, hline,
    Segment.not_mem_raw_withInside hline hfeed⟩
  rw [hkey]
  exact hfirst

end Document

/-!
# A value in a sorted document
-/

namespace Segments

theorem isBlock_of_mem_commentLines
    {ending : LineEnding} {contents : List Text} {segment : Segment}
    (h : segment ∈ commentLines ending contents) :
    segment.isBlock = false := by
  simp only [commentLines, line, List.mem_flatMap, List.mem_cons, List.not_mem_nil, or_false] at h
  rcases h with ⟨content, _, rfl | rfl | rfl⟩ <;> rfl

/-- In the lines of a group there is one block. -/
theorem eq_block_of_mem_row
    {ending : LineEnding} {group : Group} {segment : Segment}
    (h : segment ∈ group.row ending)
    (hblock : segment.isBlock = true) :
    segment = group.block := by
  simp only [Group.row, line, List.mem_append, List.mem_cons, List.not_mem_nil, or_false] at h
  rcases h with hcomment | rfl | rfl | rfl
  · rw [isBlock_of_mem_commentLines hcomment] at hblock
    simp at hblock
  · simp [Segment.isBlock] at hblock
  · rfl
  · simp [Segment.isBlock] at hblock

end Segments

namespace Outline

/-- A value is stored in the first group with the key. -/
theorem store_row
    {outline : Outline} {front back : List Group} {group : Group} {id : Text}
    (hgroups : outline.groups = front ++ group :: back)
    (hfront : forall other, other ∈ front -> other.block.key? ≠ some (.string, id))
    (hkey : group.block.key? = some (.string, id))
    (ending : LineEnding) (inside : Forest) :
    Segments.store id inside (outline.row ending).segments =
      ((outline.withGroups
        (front ++ ⟨group.above, group.block.withInside inside⟩ :: back)).row ending).segments := by
  let lead : List Segment := .inner (.text ending.text) :: (front.flatMap (Group.row ending) ++
    (Segments.commentLines ending group.above ++ [.inner (.text Document.entryIndent)]))
  let rest : List Segment := .inner (.text ending.text) :: (back.flatMap (Group.row ending) ++
    Segments.commentLines ending outline.below)
  have hlead : forall other, other ∈ lead -> other.key? ≠ some (.string, id) := by
    intro other hother hsame
    have hblock := Segment.isBlock_of_key? hsame
    simp only [lead, List.mem_cons, List.mem_append, List.mem_flatMap, List.not_mem_nil,
      or_false] at hother
    rcases hother with rfl | ⟨group', hgroup', hrow⟩ | hcomment | rfl
    · simp [Segment.isBlock] at hblock
    · rw [Segments.eq_block_of_mem_row hrow hblock] at hsame
      exact hfront group' hgroup' hsame
    · rw [Segments.isBlock_of_mem_commentLines hcomment] at hblock
      simp at hblock
    · simp [Segment.isBlock] at hblock
  have hold : (outline.row ending).inside = lead ++ group.block :: rest := by
    simp [row, hgroups, lead, rest, Group.row, Segments.line]
  have hnew : ((outline.withGroups (front ++
      ⟨group.above, group.block.withInside inside⟩ :: back)).row ending).inside =
      lead ++ group.block.withInside inside :: rest := by
    simp [row, withGroups, lead, rest, Group.row, Segments.line]
  rw [RootedRow.segments_of_inside hold, RootedRow.segments_of_inside hnew,
    Segments.store_append (RootedRow.key?_ne_of_front hlead) hkey]
  rfl

theorem laidOut
    {outline : Outline} {ending : LineEnding} {document : Document}
    (h : outline.WellFormed)
    (hparse : Document.parse (Segments.raw (outline.row ending).segments) = .ok document) :
    document.LaidOut (outline.row ending).segments := by
  have htext := Document.text_of_parse hparse
  rw [← htext] at hparse
  exact ⟨htext ▸ plainStart_row ending outline, hparse, (h.row ending).fit, htext.symm⟩

end Outline
end AndroidStrings
