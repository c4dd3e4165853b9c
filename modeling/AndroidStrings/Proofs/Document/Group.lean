import AndroidStrings.Proofs.Document.Block
import AndroidStrings.Proofs.Document.Decomposition

/-!
# Blocks with their comments

Sorting moves a block together with the comments right above it.  Over a row of segments these
groups can be told off one by one, without the byte places that sorting works with.

## Main statements

- `blocks_eq_blocksFrom` : sorting finds the blocks in the order of the row.
- `commentedBlocksFrom_eq` : with their comments they are the groups of the row.
- `belowComments_eq` : the comments that sorting writes last stand below all groups.
-/

namespace AndroidStrings

open Markup

/-!
# The blocks of a document
-/

namespace Document

/-- The text of a block, with the texts of the comments between the block before it and itself. -/
structure CommentedBlock where
  key : Option EntryKind.Key
  hasItems : Bool
  comments : List Text
  element : Text
  deriving DecidableEq, Repr

/-- A block with its comments as sorting writes it. -/
def CommentedBlock.write (ending : LineEnding) (commented : CommentedBlock) : WrittenBlock :=
  ⟨commented.key,
    commented.comments.flatMap (writeComment ending.text) ++
      writeElement commented.hasItems ending.text commented.element⟩

def commentedBlock (document : Document) (previousStop : Nat) (block : Block) :
    CommentedBlock where
  key := block.key
  hasItems := block.hasItems
  comments := (document.layout.comments.filter fun comment =>
    previousStop ≤ comment.start && comment.stop ≤ block.span.start).map document.slice
  element := document.slice block.span

def commentedBlocksFrom (document : Document) (previousStop : Nat) :
    List Block -> List CommentedBlock
  | [] => []
  | block :: rest =>
      document.commentedBlock previousStop block ::
        document.commentedBlocksFrom block.span.stop rest

/-- The blocks of a document with their comments, in file order. -/
def commentedBlocks (document : Document) : List CommentedBlock :=
  document.commentedBlocksFrom 0 document.blocks

/-- The texts of the comments behind the last block. -/
def lastComments (document : Document) : List Text :=
  (document.layout.comments.filter fun comment =>
    lastStop document.blocks ≤ comment.start).map document.slice

theorem writeBlocks_eq_map_write (document : Document) (ending : LineEnding)
    (previousStop : Nat) (blocks : List Block) :
    document.writeBlocks ending.text previousStop blocks =
      (document.commentedBlocksFrom previousStop blocks).map (CommentedBlock.write ending) := by
  induction blocks generalizing previousStop with
  | nil => rfl
  | cons block blocks ih =>
      rw [writeBlocks, ih, commentedBlocksFrom, List.map_cons]
      congr 1
      rw [writeBlock, CommentedBlock.write, commentedBlock, List.flatMap_map]

end Document

namespace Segment

/-- The content of a comment directly inside the root element. -/
def comment? : Segment -> Option Text
  | inner (.comment content) => some content
  | _ => none

theorem size_raw_pos
    {segment : Segment}
    (h : segment.isBlock = true ∨ segment.comment?.isSome = true) :
    0 < segment.raw.size := by
  have hbracket : forall t : Text, 0 < Text.size ('<' :: t) := by
    intro t
    have hpos := Char.utf8Size_pos '<'
    rw [Text.size_cons]
    omega
  cases segment with
  | element opening inside closing => exact hbracket _
  | inner event =>
      cases event with
      | emptyTag content => exact hbracket _
      | comment content => exact hbracket _
      | _ => simp [isBlock, comment?] at h
  | _ => simp [isBlock, comment?] at h

theorem raw_of_comment?
    {segment : Segment} {content : Text}
    (h : segment.comment? = some content) :
    segment.raw = (Event.comment content).raw := by
  cases segment with
  | inner event =>
      cases event with
      | comment other =>
          simp only [comment?, Option.some.injEq] at h
          simp [h]
      | _ => simp [comment?] at h
  | _ => simp [comment?] at h

theorem comments_of_layoutAt
    {start : Nat} {segment : Segment} {found : Layout}
    (hblock : segment.isBlock = false)
    (h : segment.layoutAt start = .ok found) :
    found.comments =
      segment.comment?.toList.map fun _ => ⟨start, start + segment.raw.size⟩ := by
  cases segment with
  | element opening inside closing => simp [isBlock] at hblock
  | inner event =>
      cases event with
      | emptyTag content => simp [isBlock] at hblock
      | _ =>
          simp only [layoutAt, Except.ok.injEq] at h
          rw [← h]
          rfl
  | outer event =>
      cases event with
      | emptyTag content =>
          simp only [layoutAt] at h
          split at h <;>
            · simp only [Except.ok.injEq] at h
              rw [← h]
              rfl
      | _ =>
          simp only [layoutAt, Except.ok.injEq] at h
          rw [← h]
          rfl
  | _ =>
      simp only [layoutAt, Except.ok.injEq] at h
      rw [← h]
      rfl

end Segment

/-!
# The blocks and comments of a row
-/

namespace Segments

def blocksFrom (start : Nat) : List Segment -> List Document.Block
  | [] => []
  | segment :: rest =>
      if segment.isBlock then
        segment.blockAt start :: blocksFrom (start + segment.raw.size) rest
      else blocksFrom (start + segment.raw.size) rest

def commentsFrom (start : Nat) : List Segment -> List Span
  | [] => []
  | segment :: rest =>
      segment.comment?.toList.map (fun _ => ⟨start, start + segment.raw.size⟩) ++
        commentsFrom (start + segment.raw.size) rest

theorem comment?_of_isBlock
    {segment : Segment}
    (h : segment.isBlock = true) :
    segment.comment? = none := by
  rcases Segment.form_of_isBlock h with ⟨_, _, _, rfl⟩ | ⟨_, rfl⟩ <;> rfl

theorem blocks_perm_of_layoutFrom
    {start : Nat} {row : List Segment} {layout : Layout}
    (h : layoutFrom start row = .ok layout) :
    layout.blocks.Perm (blocksFrom start row) ∧ layout.comments = commentsFrom start row := by
  induction row generalizing start layout with
  | nil =>
      simp only [layoutFrom, Except.ok.injEq] at h
      rw [← h]
      exact ⟨List.Perm.refl _, rfl⟩
  | cons segment row ih =>
      rcases exists_layouts_of_cons h with ⟨found, others, hfound, hothers, heq⟩
      have hrest := ih hothers
      have hblocks : layout.blocks.Perm (found.blocks ++ others.blocks) := by
        rw [← heq]
        simp only [Layout.blocks, Layout.nodes_append, Layout.others_append, List.map_append,
          List.append_assoc]
        apply List.Perm.append_left
        rw [← List.append_assoc, ← List.append_assoc]
        exact List.Perm.append_right _ List.perm_append_comm
      have hcomments : layout.comments = found.comments ++ others.comments := by
        rw [← heq]
        rfl
      rw [hcomments, hrest.2, commentsFrom, blocksFrom]
      cases hblock : segment.isBlock with
      | true =>
          have hfirst := Segment.layoutAt_of_isBlock hblock hfound
          rw [hfirst.2.1, comment?_of_isBlock hblock]
          rw [hfirst.1] at hblocks
          exact ⟨hblocks.trans (List.Perm.cons _ hrest.1), rfl⟩
      | false =>
          have hfirst := Segment.layoutAt_of_not_isBlock hblock hfound
          have hnone : found.blocks = [] := by
            simp [Layout.blocks, hfirst.1, hfirst.2]
          rw [Segment.comments_of_layoutAt hblock hfound]
          rw [hnone] at hblocks
          exact ⟨hblocks.trans hrest.1, rfl⟩

theorem start_le_of_mem_blocksFrom
    {start : Nat} {row : List Segment} {block : Document.Block}
    (h : block ∈ blocksFrom start row) :
    start ≤ block.span.start := by
  induction row generalizing start with
  | nil => simp [blocksFrom] at h
  | cons segment row ih =>
      rw [blocksFrom] at h
      split at h
      · rcases List.mem_cons.mp h with heq | hrest
        · rw [heq]
          exact Nat.le_refl _
        · exact Nat.le_trans (Nat.le_add_right _ _) (ih hrest)
      · exact Nat.le_trans (Nat.le_add_right _ _) (ih h)

theorem le_of_mem_commentsFrom
    {start : Nat} {row : List Segment} {comment : Span}
    (h : comment ∈ commentsFrom start row) :
    start ≤ comment.start ∧ start < comment.stop := by
  induction row generalizing start with
  | nil => simp [commentsFrom] at h
  | cons segment row ih =>
      rw [commentsFrom] at h
      rcases List.mem_append.mp h with hfirst | hrest
      · rcases List.mem_map.mp hfirst with ⟨content, hcontent, heq⟩
        have hpos : 0 < segment.raw.size := by
          apply Segment.size_raw_pos
          rw [Option.mem_toList.mp hcontent]
          exact .inr rfl
        rw [← heq]
        exact ⟨Nat.le_refl _, Nat.lt_add_of_pos_right hpos⟩
      · have hlater := ih hrest
        exact ⟨Nat.le_trans (Nat.le_add_right _ _) hlater.1,
          Nat.lt_of_le_of_lt (Nat.le_add_right _ _) hlater.2⟩

/-- Of two blocks of a row the earlier one starts before the later one. -/
theorem pairwise_blocksFrom (start : Nat) (row : List Segment) :
    (blocksFrom start row).Pairwise fun left right => left.span.start < right.span.start := by
  induction row generalizing start with
  | nil => exact List.Pairwise.nil
  | cons segment row ih =>
      rw [blocksFrom]
      split
      · rename_i hblock
        apply List.Pairwise.cons
        · intro later hlater
          have hle := start_le_of_mem_blocksFrom hlater
          have hpos := Segment.size_raw_pos (.inl hblock)
          show start < later.span.start
          omega
        · exact ih _
      · exact ih _

theorem eq_of_mem_blocksFrom
    {start : Nat} {row : List Segment} {left right : Document.Block}
    (hleft : left ∈ blocksFrom start row)
    (hright : right ∈ blocksFrom start row)
    (h : left.span.start = right.span.start) :
    left = right := by
  induction row generalizing start with
  | nil => simp [blocksFrom] at hleft
  | cons segment row ih =>
      have hordered := pairwise_blocksFrom start (segment :: row)
      rw [blocksFrom] at hleft hright hordered
      split at hordered
      · rename_i hblock
        rw [if_pos hblock] at hleft hright
        have hlater := (List.pairwise_cons.mp hordered).1
        rcases List.mem_cons.mp hleft with heq | hleft
        · rcases List.mem_cons.mp hright with heq' | hright
          · rw [heq, heq']
          · have hlt := hlater right hright
            rw [← heq, h] at hlt
            exact absurd hlt (Nat.lt_irrefl _)
        · rcases List.mem_cons.mp hright with heq' | hright
          · have hlt := hlater left hleft
            rw [← heq', h] at hlt
            exact absurd hlt (Nat.lt_irrefl _)
          · exact ih hleft hright
      · rename_i hblock
        rw [if_neg hblock] at hleft hright
        exact ih hleft hright

end Segments

namespace Document

open Segments

/-- Sorting finds the blocks of a document in the order of its row. -/
theorem blocks_eq_blocksFrom
    {document : Document} {start : Nat} {row : List Segment}
    (h : document.layout.blocks.Perm (blocksFrom start row)) :
    document.blocks = blocksFrom start row := by
  have hsorted : (document.layout.blocks.mergeSort fun left right =>
      decide (left.span.start ≤ right.span.start)).Pairwise fun left right =>
        decide (left.span.start ≤ right.span.start) = true := by
    apply List.pairwise_mergeSort
    · intro first second third hfirst hsecond
      simp only [decide_eq_true_eq] at hfirst hsecond ⊢
      exact Nat.le_trans hfirst hsecond
    · intro left right
      simp only [Bool.or_eq_true, decide_eq_true_eq]
      exact Nat.le_total _ _
  have hperm := (List.mergeSort_perm document.layout.blocks
    (fun left right => decide (left.span.start ≤ right.span.start))).trans h
  show document.layout.blocks.mergeSort _ = _
  apply List.Perm.eq_of_pairwise _ hsorted _ hperm
  · intro left right hleft hright hle hge
    simp only [decide_eq_true_eq] at hle hge
    exact eq_of_mem_blocksFrom (hperm.mem_iff.mp hleft) hright (Nat.le_antisymm hle hge)
  · exact (pairwise_blocksFrom start row).imp fun hlt => decide_eq_true (Nat.le_of_lt hlt)

end Document

/-!
# Groups
-/

/-- A block with the contents of the comments right above it. -/
structure Group where
  above : List Text
  block : Segment
  deriving DecidableEq, Repr

/-- A group as sorting writes it. -/
def Group.write (ending : LineEnding) (group : Group) : Document.WrittenBlock :=
  ⟨group.block.key?,
    group.above.flatMap (fun content =>
      Document.writeComment ending.text (Event.comment content).raw) ++
        Document.writeElement group.block.hasItems ending.text group.block.raw⟩

/-- A group as its texts. -/
def Group.commented (group : Group) : Document.CommentedBlock where
  key := group.block.key?
  hasItems := group.block.hasItems
  comments := group.above.map fun content => (Event.comment content).raw
  element := group.block.raw

theorem write_commented (ending : LineEnding) (group : Group) :
    group.commented.write ending = group.write ending := by
  rw [Document.CommentedBlock.write, Group.commented, Group.write, List.flatMap_map]

namespace Segments

/-- The groups of a row, when the given comments stand before it. -/
def groups (above : List Text) : List Segment -> List Group
  | [] => []
  | segment :: rest =>
      if segment.isBlock then ⟨above, segment⟩ :: groups [] rest
      else groups (above ++ segment.comment?.toList) rest

/-- The contents of the comments below all groups. -/
def below (above : List Text) : List Segment -> List Text
  | [] => above
  | segment :: rest =>
      if segment.isBlock then below [] rest
      else below (above ++ segment.comment?.toList) rest

theorem groups_append_block
    {segment : Segment}
    (hblock : segment.isBlock = true)
    (above : List Text) (front back : List Segment) :
    groups above (front ++ segment :: back) =
        groups above front ++ ⟨below above front, segment⟩ :: groups [] back ∧
      below above (front ++ segment :: back) = below [] back := by
  induction front generalizing above with
  | nil => simp [groups, below, hblock]
  | cons first front ih =>
      rw [List.cons_append, groups, groups, below, below]
      split
      · exact ⟨congrArg _ (ih []).1, (ih []).2⟩
      · exact ih _

end Segments

namespace Document

open Segments

/-- The comments of a document at a place of its row: those above earlier blocks, those behind
the last block, whose contents are given, and those still to come. -/
def CommentsAt (document : Document) (previousStop start : Nat) (above : List Text)
    (row : List Segment) : Prop :=
  exists earlier current : List Span,
    document.layout.comments = earlier ++ current ++ commentsFrom start row ∧
      (forall comment, comment ∈ earlier -> comment.start < previousStop) ∧
      (forall comment, comment ∈ current ->
        previousStop ≤ comment.start ∧ comment.start ≤ start ∧ comment.stop ≤ start) ∧
      current.map document.slice = above.map fun content => (Event.comment content).raw

section Row

variable {document : Document} {previousStop start : Nat} {above : List Text}
  {segment : Segment} {rest : List Segment}

theorem CommentsAt.behind_block
    (hblock : segment.isBlock = true)
    (h : document.CommentsAt previousStop start above (segment :: rest))
    (hle : previousStop ≤ start) :
    document.CommentsAt (start + segment.raw.size) (start + segment.raw.size) [] rest := by
  rcases h with ⟨earlier, current, hcomments, hearlier, hcurrent, _⟩
  have hpos := Segment.size_raw_pos (.inl hblock)
  refine ⟨earlier ++ current, [], ?_, ?_, ?_, rfl⟩
  · rw [hcomments, commentsFrom, comment?_of_isBlock hblock]
    simp
  · intro comment hcomment
    rcases List.mem_append.mp hcomment with hold | hnew
    · have hlt := hearlier comment hold
      omega
    · have hle' := (hcurrent comment hnew).2.1
      omega
  · simp

theorem CommentsAt.behind_other
    {front back : Text}
    (h : document.CommentsAt previousStop start above (segment :: rest))
    (htext : document.text = front ++ segment.raw ++ back)
    (hstart : start = front.size)
    (hle : previousStop ≤ start) :
    document.CommentsAt previousStop (start + segment.raw.size)
      (above ++ segment.comment?.toList) rest := by
  rcases h with ⟨earlier, current, hcomments, hearlier, hcurrent, habove⟩
  refine ⟨earlier,
    current ++ segment.comment?.toList.map (fun _ => ⟨start, start + segment.raw.size⟩), ?_,
    hearlier, ?_, ?_⟩
  · rw [hcomments, commentsFrom]
    simp
  · intro comment hcomment
    rcases List.mem_append.mp hcomment with hold | hnew
    · have hbounds := hcurrent comment hold
      omega
    · rcases List.mem_map.mp hnew with ⟨content, _, heq⟩
      rw [← heq]
      simp only
      omega
  · rw [List.map_append, habove, List.map_append, List.map_map]
    congr 1
    apply List.map_congr_left
    intro content hcontent
    have hraw := Segment.raw_of_comment? (Option.mem_toList.mp hcontent)
    rw [← hraw]
    exact slice_eq_of_append htext hstart rfl

/-- Above a block stand the comments behind the block before it. -/
theorem CommentsAt.filter_above
    (hblock : segment.isBlock = true)
    (h : document.CommentsAt previousStop start above (segment :: rest)) :
    (document.layout.comments.filter fun comment =>
      previousStop ≤ comment.start && comment.stop ≤ start).map document.slice =
        above.map fun content => (Event.comment content).raw := by
  rcases h with ⟨earlier, current, hcomments, hearlier, hcurrent, habove⟩
  have hpos := Segment.size_raw_pos (.inl hblock)
  rw [← habove, hcomments, commentsFrom, comment?_of_isBlock hblock]
  have hnone : earlier.filter (fun comment =>
      previousStop ≤ comment.start && comment.stop ≤ start) = [] := by
    rw [List.filter_eq_nil_iff]
    intro comment hcomment
    have hlt := hearlier comment hcomment
    simp only [Bool.and_eq_true, decide_eq_true_eq]
    omega
  have hall : current.filter (fun comment =>
      previousStop ≤ comment.start && comment.stop ≤ start) = current := by
    rw [List.filter_eq_self]
    intro comment hcomment
    have hbounds := hcurrent comment hcomment
    simp only [Bool.and_eq_true, decide_eq_true_eq]
    omega
  have hlater : (commentsFrom (start + segment.raw.size) rest).filter (fun comment =>
      previousStop ≤ comment.start && comment.stop ≤ start) = [] := by
    rw [List.filter_eq_nil_iff]
    intro comment hcomment
    have hbounds := le_of_mem_commentsFrom hcomment
    simp only [Bool.and_eq_true, decide_eq_true_eq]
    omega
  simp only [List.filter_append, hnone, hall, List.map_nil, Option.toList_none, List.nil_append,
    hlater, List.append_nil]

theorem CommentsAt.filter_below
    (h : document.CommentsAt previousStop start above []) :
    (document.layout.comments.filter fun comment => previousStop ≤ comment.start).map
      document.slice = above.map fun content => (Event.comment content).raw := by
  rcases h with ⟨earlier, current, hcomments, hearlier, hcurrent, habove⟩
  rw [← habove, hcomments]
  have hnone : earlier.filter (fun comment => previousStop ≤ comment.start) = [] := by
    rw [List.filter_eq_nil_iff]
    intro comment hcomment
    have hlt := hearlier comment hcomment
    simp only [decide_eq_true_eq]
    omega
  have hall : current.filter (fun comment => previousStop ≤ comment.start) = current := by
    rw [List.filter_eq_self]
    intro comment hcomment
    simpa using (hcurrent comment hcomment).1
  simp only [List.filter_append, hnone, hall, commentsFrom, List.nil_append, List.append_nil]

end Row

theorem commentedBlock_eq
    {document : Document} {previousStop start : Nat} {above : List Text} {segment : Segment}
    {rest : List Segment} {front back : Text}
    (hblock : segment.isBlock = true)
    (h : document.CommentsAt previousStop start above (segment :: rest))
    (htext : document.text = front ++ segment.raw ++ back)
    (hstart : start = front.size) :
    document.commentedBlock previousStop (segment.blockAt start) =
      Group.commented ⟨above, segment⟩ := by
  have hslice : document.slice (segment.blockAt start).span = segment.raw :=
    slice_eq_of_append htext hstart rfl
  have habove := h.filter_above hblock
  rw [commentedBlock, hslice]
  rw [show (segment.blockAt start).span.start = start from rfl, habove]
  rfl

/-- The text of a row, cut before and behind its first segment. -/
theorem cuts_of_raw_cons
    {text front back : Text} {segment : Segment} {row : List Segment}
    (h : text = front ++ raw (segment :: row) ++ back) :
    text = front ++ segment.raw ++ (raw row ++ back) ∧
      text = (front ++ segment.raw) ++ raw row ++ back := by
  constructor <;> simp [h]

/-- The blocks of a document with their comments are the groups of its row. -/
theorem commentedBlocksFrom_eq
    {document : Document} {previousStop start : Nat} {above : List Text} {row : List Segment}
    {front back : Text}
    (h : document.CommentsAt previousStop start above row)
    (htext : document.text = front ++ raw row ++ back)
    (hstart : start = front.size)
    (hle : previousStop ≤ start) :
    document.commentedBlocksFrom previousStop (blocksFrom start row) =
      (groups above row).map Group.commented := by
  induction row generalizing previousStop start above front with
  | nil => rfl
  | cons segment row ih =>
      rcases cuts_of_raw_cons htext with ⟨hfirst, hrest⟩
      have hstop : start + segment.raw.size = (front ++ segment.raw).size := by
        rw [hstart, Text.size_append]
      rw [blocksFrom, groups]
      cases hblock : segment.isBlock with
      | true =>
          simp only [if_true, commentedBlocksFrom, List.map_cons]
          rw [commentedBlock_eq hblock h hfirst hstart]
          congr 1
          exact ih (h.behind_block hblock hle) hrest hstop (Nat.le_refl _)
      | false =>
          exact ih (h.behind_other hfirst hstart hle) hrest hstop
            (Nat.le_trans hle (Nat.le_add_right _ _))

/-- The comments that sorting writes last stand below all groups. -/
theorem belowComments_eq
    {document : Document} {previousStop start : Nat} {above : List Text} {row : List Segment}
    {front back : Text}
    (h : document.CommentsAt previousStop start above row)
    (htext : document.text = front ++ raw row ++ back)
    (hstart : start = front.size)
    (hle : previousStop ≤ start) :
    (document.layout.comments.filter fun comment =>
      ((blocksFrom start row).getLast?.map fun block => block.span.stop).getD previousStop ≤
        comment.start).map document.slice =
      (below above row).map fun content => (Event.comment content).raw := by
  induction row generalizing previousStop start above front with
  | nil => exact h.filter_below
  | cons segment row ih =>
      rcases cuts_of_raw_cons htext with ⟨hfirst, hrest⟩
      have hstop : start + segment.raw.size = (front ++ segment.raw).size := by
        rw [hstart, Text.size_append]
      rw [blocksFrom, below]
      cases hblock : segment.isBlock with
      | true =>
          have hbehind := ih (h.behind_block hblock hle) hrest hstop (Nat.le_refl _)
          simp only [if_true, List.getLast?_cons, Option.map_some, Option.getD_some]
          rw [← hbehind]
          congr 2
          cases (blocksFrom (start + segment.raw.size) row).getLast? <;> rfl
      | false =>
          exact ih (h.behind_other hfirst hstart hle) hrest hstop
            (Nat.le_trans hle (Nat.le_add_right _ _))

end Document
end AndroidStrings
