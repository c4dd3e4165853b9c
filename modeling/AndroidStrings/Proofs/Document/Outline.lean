import AndroidStrings.Proofs.Document.Arrange
import AndroidStrings.Proofs.Document.Header
import AndroidStrings.Proofs.Document.Rewritten

/-!
# Sorted documents

A sorted document is a row with one root element again: the header, the groups in their order,
and the comments below them.

## Main statements

- `sortedText_eq_raw` : sorting writes the row of an outline.
- `exists_document_of_outline` : the row of an outline is a document.
- `lineEnding_of_outline` : it has the line endings it was written with.
-/

namespace AndroidStrings

open Markup

/-- What a sorted document is made of. -/
structure Outline where
  header : Header
  groups : List Group
  below : List Text

namespace Outline

structure WellFormed (outline : Outline) : Prop where
  header : outline.header.WellFormed
  groups : forall group, group ∈ outline.groups -> group.WellFormed
  below : forall content, content ∈ outline.below -> (Event.comment content).Spelled

def row (ending : LineEnding) (outline : Outline) : RootedRow where
  front := outline.header.front ending
  opening := outline.header.opening
  inside := .inner (.text ending.text) ::
    (outline.groups.flatMap (Group.row ending) ++ Segments.commentLines ending outline.below)
  closing := Reader.rootName
  back := [.text ending.text]

/-- The outline of the document that is sorted once more. -/
def arranged (order : List EntryKind.Key) (outline : Outline) : Outline :=
  { outline with groups := arrange (fun group => group.block.key?) order outline.groups }

theorem mem_groups_arranged
    {order : List EntryKind.Key} {outline : Outline} {group : Group}
    (h : group ∈ (outline.arranged order).groups) :
    group ∈ outline.groups :=
  (arrange_perm _ order _).mem_iff.mp h

theorem WellFormed.arranged
    {outline : Outline}
    (h : outline.WellFormed)
    (order : List EntryKind.Key) :
    (outline.arranged order).WellFormed := by
  constructor
  · exact h.header
  · intro group hgroup
    exact h.groups group (mem_groups_arranged hgroup)
  · exact h.below

theorem map_write_arranged (ending : LineEnding) (order : List EntryKind.Key)
    (outline : Outline) :
    (outline.arranged order).groups.map (Group.write ending) =
      arrange Document.WrittenBlock.key order (outline.groups.map (Group.write ending)) := by
  rw [arrange_map]
  rfl

theorem spelled_rootClose :
    (Event.endTag Reader.rootName).Spelled ∧ endTagName Reader.rootName = Reader.rootName := by
  have htag : tagEvent ('/' :: Reader.rootName) = .endTag Reader.rootName := rfl
  constructor
  · rw [← htag]
    exact spelled_tagEvent (by decide) (by decide) (by decide)
  · decide

theorem spelled_rootOpen :
    (Event.startTag Reader.rootName).Spelled ∧ tagName Reader.rootName = Reader.rootName := by
  have htag : tagEvent Reader.rootName = .startTag Reader.rootName := by
    decide
  constructor
  · rw [← htag]
    exact spelled_tagEvent (by decide) (by decide) (by decide)
  · decide

section Row

variable {outline : Outline}

theorem WellFormed.isContent
    (h : outline.WellFormed)
    (ending : LineEnding) :
    forall segment, segment ∈ (outline.row ending).inside -> segment.IsContent := by
  intro segment hsegment
  rcases List.mem_cons.mp hsegment with heq | hsegment
  · rw [heq]
    exact Segments.isContent_text (Header.not_mem_ending ending)
  · rcases List.mem_append.mp hsegment with hgroup | hbelow
    · rcases List.mem_flatMap.mp hgroup with ⟨group, hmem, hrow⟩
      exact (h.groups group hmem).row ending segment hrow
    · exact Segments.isContent_commentLines ending h.below segment hbelow

theorem WellFormed.row
    (h : outline.WellFormed)
    (ending : LineEnding) :
    (outline.row ending).WellFormed where
  front := h.header.front ending
  opening := h.header.opening
  inside := h.isContent ending
  closing := spelled_rootClose
  back := by
    intro event hevent
    rw [List.mem_singleton.mp hevent]
    exact isProlog_text (Header.not_mem_ending ending)

end Row

end Outline

/-!
# The groups of a sorted document
-/

namespace Segments

theorem groups_text (above : List Text) (content : Text) (rest : List Segment) :
    groups above (.inner (.text content) :: rest) = groups above rest ∧
      below above (.inner (.text content) :: rest) = below above rest := by
  simp [groups, below, Segment.isBlock, Segment.comment?]

theorem groups_line_comment (ending : LineEnding) (above : List Text) (content : Text)
    (rest : List Segment) :
    groups above (line ending (.inner (.comment content)) ++ rest) =
        groups (above ++ [content]) rest ∧
      below above (line ending (.inner (.comment content)) ++ rest) =
        below (above ++ [content]) rest := by
  simp [line, groups, below, Segment.isBlock, Segment.comment?]

theorem groups_line_block
    {block : Segment}
    (ending : LineEnding)
    (hblock : block.isBlock = true)
    (above : List Text) (rest : List Segment) :
    groups above (line ending block ++ rest) = ⟨above, block⟩ :: groups [] rest ∧
      below above (line ending block ++ rest) = below [] rest := by
  have hindent := groups_text above Document.entryIndent
    (block :: .inner (.text ending.text) :: rest)
  have hending := groups_text [] ending.text rest
  constructor
  · refine hindent.1.trans ?_
    rw [groups, if_pos hblock, hending.1]
  · refine hindent.2.trans ?_
    rw [below, if_pos hblock, hending.2]

theorem groups_commentLines (ending : LineEnding) (above contents : List Text)
    (rest : List Segment) :
    groups above (commentLines ending contents ++ rest) = groups (above ++ contents) rest ∧
      below above (commentLines ending contents ++ rest) = below (above ++ contents) rest := by
  induction contents generalizing above with
  | nil => simp [commentLines]
  | cons content contents ih =>
      rw [commentLines, List.flatMap_cons, List.append_assoc]
      have hfirst := groups_line_comment ending above content (commentLines ending contents ++ rest)
      have hrest := ih (above ++ [content])
      rw [List.append_assoc, List.singleton_append] at hrest
      exact ⟨hfirst.1.trans hrest.1, hfirst.2.trans hrest.2⟩

theorem groups_row
    {group : Group}
    (ending : LineEnding)
    (hblock : group.block.isBlock = true)
    (rest : List Segment) :
    groups [] (group.row ending ++ rest) = group :: groups [] rest ∧
      below [] (group.row ending ++ rest) = below [] rest := by
  have hcomments := groups_commentLines ending [] group.above (line ending group.block ++ rest)
  rw [List.nil_append] at hcomments
  rw [Group.row, List.append_assoc, hcomments.1, hcomments.2]
  exact groups_line_block ending hblock group.above rest

theorem groups_rows
    {list : List Group}
    (ending : LineEnding)
    (h : forall group, group ∈ list -> group.block.isBlock = true)
    (rest : List Segment) :
    groups [] (list.flatMap (Group.row ending) ++ rest) = list ++ groups [] rest ∧
      below [] (list.flatMap (Group.row ending) ++ rest) = below [] rest := by
  induction list with
  | nil => exact ⟨rfl, rfl⟩
  | cons group list ih =>
      have hfirst := groups_row ending (h group (by simp)) (list.flatMap (Group.row ending) ++ rest)
      have hrest := ih (List.forall_mem_cons.mp h).2
      rw [List.flatMap_cons, List.append_assoc, hfirst.1, hfirst.2, hrest.1, hrest.2]
      exact ⟨rfl, rfl⟩

end Segments

namespace Outline

section Row

variable {outline : Outline}

/-- The groups of a sorted document are the ones it was written with. -/
theorem WellFormed.groups_row
    (h : outline.WellFormed)
    (ending : LineEnding) :
    Segments.groups [] (outline.row ending).inside = outline.groups ∧
      Segments.below [] (outline.row ending).inside = outline.below := by
  have hgroups := Segments.groups_rows ending
    (fun group hgroup => (h.groups group hgroup).isBlock)
    (Segments.commentLines ending outline.below ++ [])
  have hbelow := Segments.groups_commentLines ending [] outline.below []
  rw [hbelow.1, hbelow.2] at hgroups
  simp only [List.append_nil, List.nil_append, Segments.groups, Segments.below] at hgroups
  exact hgroups

theorem raw_row (ending : LineEnding) (outline : Outline) :
    Segments.raw (outline.row ending).segments =
      spell (outline.header.front ending) ++ (Event.startTag outline.header.opening).raw ++
        ending.text ++ Segments.raw (outline.groups.flatMap (Group.row ending)) ++
        Segments.raw (Segments.commentLines ending outline.below) ++
        (Event.endTag Reader.rootName).raw ++ ending.text := by
  rw [RootedRow.raw_segments]
  simp [row, Event.raw]

theorem plainStart_row (ending : LineEnding) (outline : Outline) :
    Document.PlainStart (Segments.raw (outline.row ending).segments) := by
  have hhead : (Segments.raw (outline.row ending).segments).head? = some '<' := rfl
  rw [Document.PlainStart, hhead]
  decide

theorem readable_row
    (h : outline.WellFormed)
    (ending : LineEnding) :
    forall segment, segment ∈ (outline.row ending).inside -> segment.Readable := by
  intro segment hsegment
  rcases List.mem_cons.mp hsegment with heq | hsegment
  · rw [heq]
    exact Segments.readable_text _
  · rcases List.mem_append.mp hsegment with hgroup | hbelow
    · rcases List.mem_flatMap.mp hgroup with ⟨group, hmem, hrow⟩
      exact (h.groups group hmem).readable_row ending segment hrow
    · exact Segments.readable_commentLines ending outline.below segment hbelow

/-- The row of an outline is a document. -/
theorem exists_document_of_outline
    (h : outline.WellFormed)
    (ending : LineEnding) :
    exists document : Document,
      Document.parse (Segments.raw (outline.row ending).segments) = .ok document := by
  rcases Segments.exists_layoutFrom_of_readable (readable_row h ending)
    (outline.row ending).insideStart with ⟨found, hfound⟩
  exact RootedRow.exists_document_of_inside (h.row ending) (plainStart_row ending outline) hfound

/-- Outlines that spell the same document have the same blocks and comments. -/
theorem map_commented_eq_of_raw_eq
    {outline' : Outline} {ending : LineEnding}
    (h : outline.WellFormed)
    (h' : outline'.WellFormed)
    (hraw : Segments.raw (outline'.row ending).segments =
      Segments.raw (outline.row ending).segments) :
    outline'.groups.map Group.commented = outline.groups.map Group.commented := by
  rcases exists_document_of_outline h ending with ⟨document, hparse⟩
  have hreads := RootedRow.reads_of_parse (h.row ending) (plainStart_row ending outline) hparse
  rw [← hraw] at hparse
  have hreads' := RootedRow.reads_of_parse (h'.row ending) (plainStart_row ending outline') hparse
  have hblocks := hreads'.commentedBlocks_eq
  rw [hreads.commentedBlocks_eq, (h.groups_row ending).1, (h'.groups_row ending).1] at hblocks
  exact hblocks.symm

end Row

/-!
# Line endings
-/

/-- The parts of an outline have no line breaks but those of an ending. -/
structure Clean (ending : LineEnding) (outline : Outline) : Prop where
  declaration : Text.Clean ending (Event.declaration outline.header.declaration).raw
  prolog : Text.Clean ending (spell outline.header.prolog)
  opening : Text.Clean ending (Event.startTag outline.header.opening).raw
  groups : forall group, group ∈ outline.groups ->
    Text.Clean ending group.block.raw ∧
      forall content, content ∈ group.above -> Text.Clean ending (Event.comment content).raw
  below : forall content, content ∈ outline.below ->
    Text.Clean ending (Event.comment content).raw

section Clean

variable {ending : LineEnding} {outline : Outline}

theorem clean_line
    {segment : Segment}
    (h : Text.Clean ending segment.raw) :
    Text.Clean ending (Segments.raw (Segments.line ending segment)) := by
  have hindent : Text.Clean ending Document.entryIndent :=
    Text.clean_of_not_mem (by decide) (fun _ => by decide)
  rw [Segments.raw_line]
  exact (hindent.append h).append (Text.clean_ending ending)

theorem clean_raw
    {α : Type} {items : List α} {write : α -> List Segment}
    (h : forall item, item ∈ items -> Text.Clean ending (Segments.raw (write item))) :
    Text.Clean ending (Segments.raw (items.flatMap write)) := by
  rw [Segments.raw, List.flatMap_assoc]
  exact Text.Clean.flatMap h

theorem clean_commentLines
    {contents : List Text}
    (h : forall content, content ∈ contents -> Text.Clean ending (Event.comment content).raw) :
    Text.Clean ending (Segments.raw (Segments.commentLines ending contents)) := by
  apply clean_raw
  intro content hcontent
  apply clean_line
  have hraw : (Segment.inner (.comment content)).raw = (Event.comment content).raw :=
    Segment.raw_of_comment? rfl
  rw [hraw]
  exact h content hcontent

theorem Clean.front
    (h : outline.Clean ending) :
    Text.Clean ending (spell (outline.header.front ending)) := by
  have hending := Text.clean_ending ending
  rw [Header.front, spell_cons, Header.behind, spell_cons, Event.raw]
  apply h.declaration.append (hending.append _)
  split
  · exact Text.clean_nil ending
  · rw [spell_append, spell_cons, spell_nil, List.append_nil]
    exact h.prolog.append hending

theorem Clean.row
    (h : outline.Clean ending) :
    Text.Clean ending (Segments.raw (outline.row ending).segments) := by
  have hending := Text.clean_ending ending
  have hgroups : Text.Clean ending
      (Segments.raw (outline.groups.flatMap (Group.row ending))) := by
    apply clean_raw
    intro group hgroup
    rw [Group.row, Segments.raw_append]
    exact (clean_commentLines (h.groups group hgroup).2).append
      (clean_line (h.groups group hgroup).1)
  have hclosing : Text.Clean ending (Event.endTag Reader.rootName).raw :=
    Text.clean_of_not_mem (by decide) (fun _ => by decide)
  rw [raw_row]
  exact (((((h.front.append h.opening).append hending).append hgroups).append
    (clean_commentLines h.below)).append hclosing).append hending

/-- A sorted document has the line endings it was written with. -/
theorem lineEnding_of_outline
    {document : Document}
    (h : outline.Clean ending)
    (htext : document.text = Segments.raw (outline.row ending).segments) :
    document.lineEnding = ending := by
  rw [Document.lineEnding, LineEnding.detect, htext]
  cases ending with
  | lf =>
      rw [if_neg]
      intro hcontains
      exact h.row.1 rfl (Text.contains_iff_isInfix.mp hcontains)
  | crlf =>
      rw [if_pos]
      apply Text.contains_iff_isInfix.mpr
      rw [raw_row]
      exact List.suffix_append _ _ |>.isInfix

end Clean

end Outline

/-!
# The text that sorting writes
-/

namespace Document

/-- The blocks of a document as sorting writes them, in their new order. -/
def written (document : Document) (order : List EntryKind.Key) : List WrittenBlock :=
  arrange WrittenBlock.key order
    (document.writeBlocks document.lineEnding.text 0 document.blocks)

end Document

namespace RootedRow

section Parsed

variable {row : RootedRow} {document : Document}

/-- The groups of a row in the order of their keys. -/
def arranged (row : RootedRow) (order : List EntryKind.Key) : List Group :=
  arrange (fun group => group.block.key?) order (Segments.groups [] row.inside)

theorem Reads.written_eq
    (h : row.Reads document)
    (order : List EntryKind.Key) :
    document.written order = (row.arranged order).map (Group.write document.lineEnding) := by
  rw [Document.written, h.writeBlocks_eq, arrange_map]
  rfl

/-- Sorting writes a header, the groups in their order, and the comments below them. -/
theorem Reads.sortedText_eq
    {header : Header} {below : List Text}
    (h : row.Reads document)
    (hheader : header.Heads document)
    (hbelow : RewrittenComments document.lineEnding (Segments.below [] row.inside) below)
    (order : List EntryKind.Key) :
    document.sortedText order =
      spell (header.front document.lineEnding) ++ (Event.startTag header.opening).raw ++
        document.lineEnding.text ++
        ((row.arranged order).map (Group.write document.lineEnding)).flatMap
          Document.WrittenBlock.text ++
        Segments.raw (Segments.commentLines document.lineEnding below) ++
        (Event.endTag Reader.rootName).raw ++ document.lineEnding.text := by
  have hwritten := h.written_eq order
  rw [Document.written] at hwritten
  have hcomments := congrArg (List.flatMap (Document.writeComment document.lineEnding.text))
    h.lastComments_eq
  rw [Document.lastComments, List.flatMap_map, List.flatMap_map,
    text_writeComments hbelow] at hcomments
  rw [← hwritten, ← hcomments]
  unfold Document.sortedText
  simp only [hheader.declaration, hheader.prolog, hheader.opening]
  rw [Header.front, Header.behind, spell_cons, spell_cons]
  have hprolog : spell (if (spell header.prolog).isEmpty then []
      else header.prolog ++ [.text document.lineEnding.text]) =
        if (spell header.prolog).isEmpty then []
        else spell header.prolog ++ document.lineEnding.text := by
    split
    · rfl
    · rw [spell_append, spell_cons, spell_nil, List.append_nil, Event.raw]
  rw [hprolog]
  simp only [List.append_assoc]
  rfl

/-- Sorting writes the row of an outline. -/
theorem Reads.sortedText_eq_raw
    {outline : Outline} {order : List EntryKind.Key}
    (h : row.Reads document)
    (hheader : outline.header.Heads document)
    (hgroups : List.Forall₂ (Group.Rewritten document.lineEnding) (row.arranged order)
      outline.groups)
    (hbelow : RewrittenComments document.lineEnding (Segments.below [] row.inside)
      outline.below) :
    document.sortedText order =
      Segments.raw (outline.row document.lineEnding).segments := by
  rw [h.sortedText_eq hheader hbelow, text_writes hgroups, Outline.raw_row]

end Parsed

end RootedRow
end AndroidStrings
