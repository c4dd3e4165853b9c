import AndroidStrings.Proofs.Document.Sorting

/-!
# The order of the blocks

Sorting puts the blocks, each with the comments above it, in the order that the keys ask for.  It
finds them by the keys they have before they are written anew, so what counts is whether a block
keeps its key when it is written.

## Main statement

`commentedBlocks_sort_iff` : when the blocks of a sorted document are those of the document before
in their order.
-/

namespace AndroidStrings

open Markup

namespace Document

/-- A block with its comments, laid out anew. -/
def CommentedBlock.rewritten (ending : LineEnding) (commented : CommentedBlock) :
    CommentedBlock :=
  { commented with
    comments := commented.comments.map (commentText ending)
    element := elementText commented.hasItems ending commented.element }

theorem key_commentedBlocksFrom (document : Document) (previousStop : Nat)
    (blocks : List Block) :
    (document.commentedBlocksFrom previousStop blocks).map CommentedBlock.key =
      blocks.map Block.key := by
  induction blocks generalizing previousStop with
  | nil => rfl
  | cons block blocks ih =>
      rw [commentedBlocksFrom, List.map_cons, ih, List.map_cons]
      rfl

end Document

/-!
# Groups that keep their keys
-/

section Rewritten

variable {ending : LineEnding} {group group' : Group} {groups groups' : List Group}

theorem Group.Rewritten.commented_eq_iff
    (h : group.Rewritten ending group')
    (hwell : group.WellFormed) :
    group'.commented = group.commented.rewritten ending ↔
      group'.block.key? = group.block.key? := by
  have habove : group'.commented.comments =
      group.commented.comments.map (Document.commentText ending) :=
    h.above.trans (List.map_map).symm
  have helement : group'.commented.element = Document.elementText group.commented.hasItems ending
      group.commented.element := h.raw
  have hitems : group'.commented.hasItems = group.commented.hasItems := h.hasItems_eq hwell
  constructor
  · intro hsame
    exact congrArg Document.CommentedBlock.key hsame
  · intro hkey
    have hkey' : group'.commented.key = group.commented.key := hkey
    rw [Document.CommentedBlock.rewritten, ← habove, ← helement, ← hitems, ← hkey']

theorem Group.Rewritten.reread_eq_iff
    (h : group.Rewritten ending group') :
    (group.write ending).reread = group.write ending ↔
      group'.block.key? = group.block.key? := by
  rcases h.exists_alone with ⟨document, halone, hkey, _⟩
  have hreread : (group.write ending).reread =
      ⟨group'.block.key?, (group.write ending).text⟩ := by
    rw [Document.WrittenBlock.reread, halone, ← hkey]
  rw [hreread]
  constructor
  · intro hsame
    exact congrArg Document.WrittenBlock.key hsame
  · intro hkeys
    rw [hkeys]
    rfl

/-- The rewritten groups are the groups laid out anew exactly when the keys are the same. -/
theorem map_commented_eq_iff
    (hgroups : forall group, group ∈ groups -> group.WellFormed)
    (h : List.Forall₂ (Group.Rewritten ending) groups groups') :
    groups'.map Group.commented =
        (groups.map Group.commented).map (Document.CommentedBlock.rewritten ending) ↔
      forall written, written ∈ groups.map (Group.write ending) -> written.reread = written := by
  induction h with
  | nil => simp
  | cons hfirst _ ih =>
      have hwell := List.forall_mem_cons.mp hgroups
      rw [List.map_cons, List.map_cons, List.map_cons, List.map_cons, List.cons.injEq,
        List.forall_mem_cons, hfirst.commented_eq_iff hwell.1, hfirst.reread_eq_iff, ih hwell.2]

end Rewritten

/-!
# The blocks of a sorted document
-/

namespace RootedRow

section Parsed

variable {row : RootedRow} {document sorted : Document} {order : List EntryKind.Key}
  {outline : Outline}

theorem Reads.arrange_commentedBlocks
    (h : row.Reads document)
    (order : List EntryKind.Key) :
    arrange Document.CommentedBlock.key order document.commentedBlocks =
      (row.arranged order).map Group.commented := by
  rw [h.commentedBlocks_eq, arrange_map]
  rfl

theorem SortsTo.commentedBlocks_eq
    (h : SortsTo document order outline sorted) :
    sorted.commentedBlocks = outline.groups.map Group.commented := by
  rw [h.reads.commentedBlocks_eq, (h.wellFormed.groups_row document.lineEnding).1]

theorem SortsTo.lastComments_eq
    (h : SortsTo document order outline sorted)
    (hreads : row.Reads document)
    (hbelow : RewrittenComments document.lineEnding (Segments.below [] row.inside)
      outline.below) :
    sorted.lastComments =
      document.lastComments.map (Document.commentText document.lineEnding) := by
  rw [h.reads.lastComments_eq, (h.wellFormed.groups_row document.lineEnding).2,
    hreads.lastComments_eq, List.map_map]
  exact hbelow

end Parsed

end RootedRow

/-!
# Main statement
-/

namespace Document

/-- The blocks of a sorted document are those of the document before, each with its comments, in
the order that the keys ask for, exactly when every block, as it is written, can be read on its
own and has its key then. -/
theorem commentedBlocks_sort_iff
    {text : Text} {document : Document}
    (hplain : PlainStart text)
    (hparse : parse text = .ok document)
    (hsingle : SingleRoot text)
    (order : List EntryKind.Key) :
    (exists (sorted : Document) (arranged : List CommentedBlock),
      document.sort order = .ok sorted ∧
        Arranged CommentedBlock.key order document.commentedBlocks arranged ∧
        sorted.commentedBlocks = arranged.map (CommentedBlock.rewritten document.lineEnding) ∧
        sorted.lastComments = document.lastComments.map (commentText document.lineEnding)) ↔
      forall written,
        written ∈ document.writeBlocks document.lineEnding.text 0 document.blocks ->
          (exists alone : Document, written.alone = .ok alone) ∧ written.reread = written := by
  rcases exists_rootedRow hplain hparse hsingle with ⟨row, hrow, rfl⟩
  have hreads := RootedRow.reads_of_parse hrow hplain hparse
  have hwell : forall group, group ∈ row.arranged order -> group.WellFormed := by
    intro group hgroup
    exact (hreads.forall_arranged hrow order group hgroup).1
  have hwritten : forall written,
      written ∈ (row.arranged order).map (Group.write document.lineEnding) ↔
        written ∈ document.writeBlocks document.lineEnding.text 0 document.blocks := by
    intro written
    rw [hreads.writeBlocks_eq]
    exact ((arrange_perm _ order _).map _).mem_iff
  simp only [← hwritten, arranged_iff, hreads.arrange_commentedBlocks]
  constructor
  · rintro ⟨sorted, _, hsort, rfl, hblocks, _⟩ written hmem
    rcases RootedRow.exists_outline_of_sort hrow hreads hsort with
      ⟨outline, hrewritten, _, _, hsorted⟩
    rw [hsorted.commentedBlocks_eq] at hblocks
    exact ⟨exists_alone_of_rewritten hrewritten written hmem,
      (map_commented_eq_iff hwell hrewritten).mp hblocks written hmem⟩
  · intro h
    rcases exists_rewritten_of_forall_alone hwell fun written hmem => (h written hmem).1 with
      ⟨groups, hrewritten⟩
    rcases RootedRow.exists_outline_of_rewritten hrow hreads hrewritten with
      ⟨outline, sorted, rfl, _, hbelow, hsorted⟩
    refine ⟨sorted, _, hsorted.sort, rfl, ?_, hsorted.lastComments_eq hreads hbelow⟩
    rw [hsorted.commentedBlocks_eq]
    exact (map_commented_eq_iff hwell hrewritten).mpr fun written hmem => (h written hmem).2

theorem commentedBlocks_sort_iff_comments :
    exists (document sorted : Document) (arranged : List CommentedBlock),
      parse "<resources><!-- c --><string name=\"a\">1</string><!-- d --></resources>".toList =
          .ok document ∧
        document.sort [(.string, "a".toList)] = .ok sorted ∧
        Arranged CommentedBlock.key [(.string, "a".toList)] document.commentedBlocks arranged ∧
        sorted.commentedBlocks = arranged.map (CommentedBlock.rewritten document.lineEnding) ∧
        sorted.lastComments = document.lastComments.map (commentText document.lineEnding) := by
  let text := "<resources><!-- c --><string name=\"a\">1</string><!-- d --></resources>".toList
  have hread : (parse text).map (fun document =>
      (document.writeBlocks document.lineEnding.text 0 document.blocks).all fun written =>
        written.alone.isOk && decide (written.reread = written)) = .ok true := by
    decide +kernel
  rcases Success.map_eq_ok_iff.mp hread with ⟨document, hparse, hkeeps⟩
  rw [List.all_eq_true] at hkeeps
  have hsingle : SingleRoot text :=
    ⟨[], [.comment "-- c --".toList, .startTag "string name=\"a\"".toList, .text "1".toList,
      .endTag "string".toList, .comment "-- d --".toList], [], "resources".toList,
      "resources".toList, by decide +kernel, by decide, by decide +kernel, by decide⟩
  have halone : forall written,
      written ∈ document.writeBlocks document.lineEnding.text 0 document.blocks ->
        (exists alone : Document, written.alone = .ok alone) ∧ written.reread = written := by
    intro written hwritten
    have hkept := hkeeps written hwritten
    rw [Bool.and_eq_true, decide_eq_true_eq, Success.isOk_iff] at hkept
    exact hkept
  rcases (commentedBlocks_sort_iff (by decide) hparse hsingle _).mpr halone with
    ⟨sorted, arranged, hsort, harranged, hblocks, hcomments⟩
  exact ⟨document, sorted, arranged, hparse, hsort, harranged, hblocks, hcomments⟩

/-- White space that ends a line of a tag is taken off, also where the markup does not take it for
white space: an attribute with another key becomes the name, and the element is another one. -/
theorem commentedBlocks_sort_noBreakSpace :
    exists document sorted : Document,
      parse ("<resources>\n<string name=\"b\">B</string>\n".toList ++
          "<plurals x=\"\n</\" name=\"c\" name\u00a0\n=\"d\"/>\n</resources>\n".toList) =
            .ok document ∧
        SingleRoot ("<resources>\n<string name=\"b\">B</string>\n".toList ++
          "<plurals x=\"\n</\" name=\"c\" name\u00a0\n=\"d\"/>\n</resources>\n".toList) ∧
        (forall entry, entry ∈ document.entries -> '\n' ∉ entry.id ∧ '\r' ∉ entry.id) ∧
        document.sort [(.plurals, "c".toList)] = .ok sorted ∧
        forall arranged : List CommentedBlock,
          Arranged CommentedBlock.key [(.plurals, "c".toList)] document.commentedBlocks arranged ->
            sorted.commentedBlocks.map CommentedBlock.key ≠ arranged.map CommentedBlock.key := by
  let document : Document :=
    { text := "<resources>\n<string name=\"b\">B</string>\n".toList ++
        "<plurals x=\"\n</\" name=\"c\" name\u00a0\n=\"d\"/>\n</resources>\n".toList
      layout :=
        { rootOpen := some ⟨0, 11⟩
          rootClose := some ⟨80, 92⟩
          nodes := [⟨⟨"b".toList, .singular "B".toList, true⟩, ⟨12, 39⟩, ⟨29, 30⟩, false, []⟩,
            Reader.Node.ofEmptyTag ⟨.plurals, "c".toList, true⟩ ⟨40, 79⟩] } }
  let sorted : Document :=
    { text := "<?xml version=\"1.0\" encoding=\"utf-8\"?>\n<resources>\n".toList ++
        "    <plurals x=\"\n    </\" name=\"c\" name\n=\"d\"/>\n".toList ++
        "    <string name=\"b\">B</string>\n</resources>\n".toList
      layout :=
        { declaration := some ⟨0, 38⟩
          rootOpen := some ⟨39, 50⟩
          rootClose := some ⟨129, 141⟩
          nodes := [Reader.Node.ofEmptyTag ⟨.plurals, "d".toList, true⟩ ⟨55, 96⟩,
            ⟨⟨"b".toList, .singular "B".toList, true⟩, ⟨101, 128⟩, ⟨118, 119⟩, false, []⟩] } }
  have hbefore : document.blocks = [⟨some (.string, "b".toList), ⟨12, 39⟩⟩,
      ⟨some (.plurals, "c".toList), ⟨40, 79⟩⟩] :=
    blocks_of_ordered rfl (by decide)
  have hafter : sorted.blocks = [⟨some (.plurals, "d".toList), ⟨55, 96⟩⟩,
      ⟨some (.string, "b".toList), ⟨101, 128⟩⟩] :=
    blocks_of_ordered rfl (by decide)
  have hsort : document.sort [(.plurals, "c".toList)] = parse sorted.text := by
    apply sort_of_ordered rfl (by decide) rfl (by decide)
    intro hblocks
    unfold sortedText
    rw [hblocks]
    decide +kernel
  refine ⟨document, sorted, by decide +kernel, ?_, by decide, ?_, ?_⟩
  · exact ⟨[], [.text "\n".toList, .startTag "string name=\"b\"".toList, .text "B".toList,
      .endTag "string".toList, .text "\n".toList,
      .emptyTag "plurals x=\"\n</\" name=\"c\" name\u00a0\n=\"d\"".toList,
      .text "\n".toList], [.text "\n".toList], "resources".toList, "resources".toList,
      by decide +kernel, by decide, by decide +kernel, by decide⟩
  · rw [hsort]
    decide +kernel
  · intro arranged harranged
    have hkeys := arrange_map id CommentedBlock.key [(.plurals, "c".toList)]
      document.commentedBlocks
    rw [← arranged_iff.mp harranged]
    refine ne_of_ne_of_eq ?_ hkeys
    rw [commentedBlocks, commentedBlocks, key_commentedBlocksFrom, key_commentedBlocksFrom,
      hbefore, hafter]
    decide

end Document
end AndroidStrings
