import AndroidStrings.Proofs.Document.Outline

/-!
# Written blocks on their own

Each block, as sorting writes it, can be read alone in a root element, and a sorted document says
what its blocks say one by one.

## Main statements

- `Segments.map_nodes_of_layoutFrom` : what is read of a row is read of its segments one by one.
- `Group.Rewritten.exists_alone` : a rewritten group is what its text says on its own.
- `exists_rewritten_of_alone` : what can be read on its own is a group rewritten.
-/

namespace AndroidStrings

open Markup

/-!
# The elements of a row
-/

namespace Segment

/-- The elements of a segment, as if it stood alone. -/
def nodes (segment : Segment) : List Node :=
  match segment.layoutAt 0 with
  | .ok found => found.nodes
  | .error _ => []

/-- The entries of a segment, wherever it stands. -/
def entries (segment : Segment) : List Entry :=
  match segment.layoutAt 0 with
  | .ok found => found.nodes.map Node.entry
  | .error _ => []

theorem entries_eq_map_nodes (segment : Segment) :
    segment.entries = segment.nodes.map Node.entry := by
  unfold entries nodes
  split <;> rfl

/-- Elements are the same wherever they stand, but for their spans. -/
theorem map_nodes_of_layoutAt
    {α : Type} {f : Node -> α} {segment : Segment} {start : Nat} {found : Layout}
    (hf : forall (offset : Nat) (node : Node), f (node.shift offset) = f node)
    (h : segment.layoutAt start = .ok found) :
    found.nodes.map f = segment.nodes.map f := by
  have hshift := layoutAt_shift start 0 segment
  rw [Nat.zero_add, h] at hshift
  rcases Success.map_eq_ok_iff.mp hshift.symm with ⟨base, hbase, heq⟩
  rw [nodes, hbase, ← heq]
  show (base.nodes.map (Node.shift start)).map f = base.nodes.map f
  rw [List.map_map]
  exact List.map_congr_left fun node _ => hf start node

theorem entries_of_layoutAt
    {segment : Segment} {start : Nat} {found : Layout}
    (h : segment.layoutAt start = .ok found) :
    found.nodes.map Node.entry = segment.entries := by
  rw [entries_eq_map_nodes]
  exact map_nodes_of_layoutAt (fun _ _ => rfl) h

end Segment

namespace Segments

theorem flatMap_entries (row : List Segment) :
    row.flatMap Segment.entries = (row.flatMap Segment.nodes).map Node.entry := by
  rw [List.map_flatMap, ← funext Segment.entries_eq_map_nodes]

theorem map_nodes_of_layoutFrom
    {α : Type} {f : Node -> α} {row : List Segment} {start : Nat} {found : Layout}
    (hf : forall (offset : Nat) (node : Node), f (node.shift offset) = f node)
    (h : layoutFrom start row = .ok found) :
    found.nodes.map f = (row.flatMap Segment.nodes).map f := by
  induction row generalizing start found with
  | nil =>
      simp only [layoutFrom, Except.ok.injEq] at h
      rw [← h]
      rfl
  | cons segment row ih =>
      rcases exists_layouts_of_cons h with ⟨first, others, hfirst, hothers, heq⟩
      rw [← heq, Layout.nodes_append, List.map_append, ih hothers,
        Segment.map_nodes_of_layoutAt hf hfirst, List.flatMap_cons, List.map_append]

theorem entries_of_layoutFrom
    {row : List Segment} {start : Nat} {found : Layout}
    (h : layoutFrom start row = .ok found) :
    found.nodes.map Node.entry = row.flatMap Segment.entries := by
  rw [flatMap_entries]
  exact map_nodes_of_layoutFrom (fun _ _ => rfl) h

theorem nodes_line (ending : LineEnding) (segment : Segment) :
    (line ending segment).flatMap Segment.nodes = segment.nodes := by
  have htext : forall content : Text, (Segment.inner (.text content)).nodes = [] :=
    fun _ => rfl
  simp [line, htext]

theorem nodes_commentLines (ending : LineEnding) (contents : List Text) :
    (commentLines ending contents).flatMap Segment.nodes = [] := by
  rw [commentLines, List.flatMap_assoc, List.flatMap_eq_nil_iff]
  intro content _
  rw [nodes_line]
  rfl

end Segments

theorem nodes_row (ending : LineEnding) (group : Group) :
    (group.row ending).flatMap Segment.nodes = group.block.nodes := by
  rw [Group.row, List.flatMap_append, Segments.nodes_commentLines, Segments.nodes_line,
    List.nil_append]

theorem nodes_outline (ending : LineEnding) (outline : Outline) :
    (outline.row ending).inside.flatMap Segment.nodes =
      outline.groups.flatMap fun group => group.block.nodes := by
  have hgroups : (outline.groups.flatMap (Group.row ending)).flatMap Segment.nodes =
      outline.groups.flatMap fun group => group.block.nodes := by
    rw [List.flatMap_assoc]
    simp only [nodes_row]
  show [] ++ List.flatMap Segment.nodes (_ ++ _) = _
  rw [List.nil_append, List.flatMap_append, hgroups, Segments.nodes_commentLines,
    List.append_nil]

/-- What is read of the elements of a document is read of its row. -/
theorem RootedRow.Reads.map_nodes_eq
    {α : Type} {f : Node -> α} {row : RootedRow} {document : Document}
    (hf : forall (offset : Nat) (node : Node), f (node.shift offset) = f node)
    (h : row.Reads document) :
    document.nodes.map f = (row.inside.flatMap Segment.nodes).map f := by
  rcases h.inside with ⟨found, hfound, hnodes, _, _⟩
  rw [← Segments.map_nodes_of_layoutFrom hf hfound, ← hnodes]
  rfl

theorem RootedRow.Reads.entries_eq
    {row : RootedRow} {document : Document}
    (h : row.Reads document) :
    document.entries = row.inside.flatMap Segment.entries := by
  rw [Segments.flatMap_entries]
  exact h.map_nodes_eq fun _ _ => rfl

/-!
# Blocks on their own
-/

namespace Document.WrittenBlock

/-- A block, as it is written, alone in a root element. -/
def alone (written : WrittenBlock) : Except Error Document :=
  parse ("<resources>".toList ++ written.text ++ "</resources>".toList)

/-- The elements of a written block that is read on its own. -/
def nodes (written : WrittenBlock) : List Node :=
  match written.alone with
  | .ok document => document.nodes
  | .error _ => []

/-- What a written block says on its own. -/
def entries (written : WrittenBlock) : List Entry :=
  match written.alone with
  | .ok document => document.entries
  | .error _ => []

theorem entries_eq_map_nodes (written : WrittenBlock) :
    written.entries = written.nodes.map Node.entry := by
  unfold entries nodes
  split <;> rfl

/-- A written block with the key that it has when it is read on its own. -/
def reread (written : WrittenBlock) : WrittenBlock :=
  match written.alone with
  | .ok document => ⟨document.blocks.head?.bind Block.key, written.text⟩
  | .error _ => ⟨none, written.text⟩

end Document.WrittenBlock

/-- A group alone in a root element. -/
def Group.alone (ending : LineEnding) (group : Group) : RootedRow :=
  ⟨[], Reader.rootName, group.row ending, Reader.rootName, []⟩

section Alone

variable {ending : LineEnding} {group group' : Group}

theorem raw_alone (ending : LineEnding) (group : Group) :
    Segments.raw (group.alone ending).segments =
      "<resources>".toList ++ Segments.raw (group.row ending) ++ "</resources>".toList := by
  rw [RootedRow.raw_segments]
  show [] ++ (Event.startTag Reader.rootName).raw ++ Segments.raw (group.row ending) ++
    ((Event.endTag Reader.rootName).raw ++ []) = _
  rw [List.nil_append, List.append_nil]
  rfl

theorem Group.WellFormed.alone
    (h : group.WellFormed)
    (ending : LineEnding) :
    (group.alone ending).WellFormed where
  front := by simp [Group.alone]
  opening := Outline.spelled_rootOpen
  inside := h.row ending
  closing := Outline.spelled_rootClose
  back := by simp [Group.alone]

theorem plainStart_alone (t : Text) :
    Document.PlainStart ("<resources>".toList ++ t ++ "</resources>".toList) := by
  have hhead : ("<resources>".toList ++ t ++ "</resources>".toList).head? = some '<' := rfl
  rw [Document.PlainStart, hhead]
  decide

theorem key_of_writeBlocks (document : Document) (ending : Text) (previousStop : Nat)
    (blocks : List Document.Block) :
    (document.writeBlocks ending previousStop blocks).map Document.WrittenBlock.key =
      blocks.map Document.Block.key := by
  induction blocks generalizing previousStop with
  | nil => rfl
  | cons block blocks ih =>
      rw [Document.writeBlocks, List.map_cons, ih, List.map_cons]
      rfl

/-- The text of a rewritten group is read as a row of its own. -/
theorem Group.Rewritten.exists_reads
    (h : group.Rewritten ending group') :
    exists document : Document,
      (group.write ending).alone = .ok document ∧ (group'.alone ending).Reads document := by
  have hrow := h.wellFormed.alone ending
  have hraw : Segments.raw (group'.alone ending).segments =
      "<resources>".toList ++ (group.write ending).text ++ "</resources>".toList := by
    rw [raw_alone, text_write h]
  have hplain : Document.PlainStart (Segments.raw (group'.alone ending).segments) := by
    rw [hraw]
    exact plainStart_alone _
  rcases Segments.exists_layoutFrom_of_readable (h.wellFormed.readable_row ending)
    (group'.alone ending).insideStart with ⟨found, hfound⟩
  rcases RootedRow.exists_document_of_inside hrow hplain hfound with ⟨document, hparse⟩
  refine ⟨document, ?_, RootedRow.reads_of_parse hrow hplain hparse⟩
  rw [Document.WrittenBlock.alone, ← hraw]
  exact hparse

/-- A rewritten group is what its text says on its own. -/
theorem Group.Rewritten.exists_alone
    (h : group.Rewritten ending group') :
    exists document : Document,
      (group.write ending).alone = .ok document ∧
        document.blocks.head?.bind Document.Block.key = group'.block.key? ∧
        document.entries = group'.block.entries := by
  rcases h.exists_reads with ⟨document, halone, hreads⟩
  refine ⟨document, halone, ?_, ?_⟩
  · have hgroups := (Segments.groups_row ending h.wellFormed.isBlock []).1
    rw [List.append_nil] at hgroups
    have hkeys := key_of_writeBlocks document ending.text 0 document.blocks
    rw [hreads.writeBlocks_eq] at hkeys
    rw [show (group'.alone ending).inside = group'.row ending from rfl, hgroups] at hkeys
    cases hblocks : document.blocks with
    | nil => simp [hblocks, Segments.groups] at hkeys
    | cons block blocks =>
        rw [hblocks, List.map_cons, List.map_cons, List.map_cons, List.cons.injEq] at hkeys
        exact hkeys.1.symm
  · rw [hreads.entries_eq, Segments.flatMap_entries, Segment.entries_eq_map_nodes]
    exact congrArg (List.map Node.entry) (nodes_row ending group')

/-- A written block is read with the key of the rewritten group. -/
theorem Group.Rewritten.key_reread
    (h : group.Rewritten ending group') :
    (group.write ending).reread.key = group'.block.key? := by
  rcases h.exists_alone with ⟨document, halone, hkey, _⟩
  rw [Document.WrittenBlock.reread, halone]
  exact hkey

/-- A group that can be read on its own is a group rewritten. -/
theorem exists_rewritten_of_alone
    {document : Document}
    (hgroup : group.WellFormed)
    (h : (group.write ending).alone = .ok document) :
    exists group' : Group, group.Rewritten ending group' := by
  have hraw : Segments.raw [Segment.rootOpen Reader.rootName] = "<resources>".toList := rfl
  have hfit : Segments.Fit false [Segment.rootOpen Reader.rootName] :=
    ⟨⟨rfl, Outline.spelled_rootOpen⟩, trivial⟩
  have hplain := plainStart_alone (group.write ending).text
  rw [Document.WrittenBlock.alone] at h
  rw [List.append_assoc, ← hraw] at hplain h
  rcases Cursor.exists_readRest_of_parse hplain hfit rfl h with ⟨layout, reader, hread⟩
  rcases Cursor.exists_rewrittenGroup_of_readRest hgroup (List.append_assoc _ _ _).symm rfl hread
    with ⟨group', _, h', _⟩
  exact ⟨group', h'⟩

end Alone
end AndroidStrings
