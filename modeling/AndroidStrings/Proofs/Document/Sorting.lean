import AndroidStrings.Proofs.Document.Alone
import AndroidStrings.Proofs.Text.Piece

/-!
# Sorting twice, and what sorting says

Sorting is settled block by block.  Whether a second sort changes anything, and whether sorting
keeps what the entries say, depends only on what the written blocks say on their own.

## Main statements

- `exists_sorted_of_rewritten` : if its groups can be rewritten, a document can be sorted, and
  the sorted document consists of the rewritten groups.
- `sort_sort_iff` : when sorting twice is sorting once.
- `entries_sort_iff` : when sorting keeps what the entries say.
-/

namespace AndroidStrings

open Markup

/-!
# The parts of a document are clean
-/

section Clean

variable {row : RootedRow} {document : Document} {header : Header}

theorem Header.Heads.clean
    (hrow : row.WellFormed)
    (h : row.Reads document)
    (hheads : header.Heads document) :
    Text.Clean document.lineEnding (Event.declaration header.declaration).raw ∧
      Text.Clean document.lineEnding (spell header.prolog) ∧
      Text.Clean document.lineEnding (Event.startTag header.opening).raw := by
  have hsuits : Text.Suits document.lineEnding document.text := Text.suits_detect document.text
  have hmarkup : forall {event : Event}, (forall content : Text, event ≠ .text content) ->
      event.raw <:+: document.text -> Text.Clean document.lineEnding event.raw := by
    intro event hevent hpart
    refine Text.clean_of_isInfix hsuits hpart ?_
    rw [getLast?_raw_of_markup hevent]
    decide
  refine ⟨?_, ?_, ?_⟩
  · cases hdeclaration : document.layout.declaration with
    | none =>
        have hdefault := hheads.declaration
        rw [Document.declaration?, hdeclaration, Option.map_none, Option.getD_none] at hdefault
        rw [← hdefault]
        exact Text.clean_of_not_mem (by decide) (fun _ => by decide)
    | some span =>
        apply hmarkup (by simp)
        rw [← hheads.declaration, Document.declaration?, hdeclaration]
        exact Text.slice_isInfix _ _
  · rw [← hheads.prolog, Document.prolog]
    refine Text.clean_of_isInfix hsuits ((Text.trim_isInfix _ _).trans (Text.slice_isInfix _ _)) ?_
    intro hlast
    exact absurd (Text.getLast?_trimEnd hlast) (by decide)
  · apply hmarkup (by simp)
    rw [← hheads.opening, h.sortedRootTag_eq hrow, h.text, RootedRow.raw_segments]
    exact ⟨spell row.front, Segments.raw row.inside ++
      ((Event.endTag row.closing).raw ++ spell row.back), by simp⟩

theorem clean_of_rewrittenComments
    {ending : LineEnding} {contents contents' : List Text}
    (hsuits : forall content, content ∈ contents ->
      Text.Suits ending (Event.comment content).raw)
    (h : RewrittenComments ending contents contents') :
    forall content, content ∈ contents' -> Text.Clean ending (Event.comment content).raw := by
  intro content hcontent
  have hmem : (Event.comment content).raw ∈
      contents'.map fun content => (Event.comment content).raw :=
    List.mem_map_of_mem hcontent
  rw [h] at hmem
  rcases List.mem_map.mp hmem with ⟨old, hold, heq⟩
  rw [← heq]
  exact Document.clean_commentText (isMarkup_comment old) (hsuits old hold)

theorem Group.Rewritten.clean
    {ending : LineEnding} {group group' : Group}
    (hgroup : group.WellFormed)
    (hsuits : group.Suits ending)
    (h : group.Rewritten ending group') :
    Text.Clean ending group'.block.raw ∧
      forall content, content ∈ group'.above ->
        Text.Clean ending (Event.comment content).raw := by
  constructor
  · rw [h.raw]
    exact Document.clean_elementText _ (Segment.isMarkup_raw hgroup.isBlock) hsuits.block
  · exact clean_of_rewrittenComments hsuits.above h.above

end Clean

/-!
# Sorted documents
-/

namespace RootedRow

section Parsed

variable {row : RootedRow} {document : Document} {order : List EntryKind.Key}

theorem Reads.suits_inside
    (h : row.Reads document) :
    Text.Suits document.lineEnding (Segments.raw row.inside) := by
  have hsuits : Text.Suits document.lineEnding document.text := Text.suits_detect document.text
  apply hsuits.of_isInfix
  rw [h.text, raw_segments]
  exact ⟨spell row.front ++ (Event.startTag row.opening).raw,
    (Event.endTag row.closing).raw ++ spell row.back, by simp⟩

/-- The groups of a document can be rewritten, and their line breaks suit it. -/
theorem Reads.forall_arranged
    (hrow : row.WellFormed)
    (h : row.Reads document)
    (order : List EntryKind.Key) :
    forall group, group ∈ row.arranged order ->
      group.WellFormed ∧ group.Suits document.lineEnding := by
  intro group hgroup
  rcases h.inside with ⟨found, hfound, _⟩
  have hmem := (arrange_perm _ order _).mem_iff.mp hgroup
  exact ⟨(Segments.wellFormed_of_groups hrow.inside hfound).1 group hmem,
    (Segments.suits_of_groups h.suits_inside).1 group hmem⟩

theorem Reads.sort_eq
    (h : row.Reads document)
    (order : List EntryKind.Key) :
    document.sort order = Document.parse (document.sortedText order) := by
  rcases h.rootClose with ⟨closing, hclosing⟩
  exact Document.sort_eq_parse order hclosing h.prologSpan_le

/-- What sorting a document into given groups comes to. -/
structure SortsTo (document : Document) (order : List EntryKind.Key) (outline : Outline)
    (sorted : Document) : Prop where
  wellFormed : outline.WellFormed
  sort : document.sort order = .ok sorted
  parse : Document.parse (Segments.raw (outline.row document.lineEnding).segments) = .ok sorted
  reads : (outline.row document.lineEnding).Reads sorted
  heads : outline.header.Heads sorted
  lineEnding : sorted.lineEnding = document.lineEnding
  below : RewrittenComments document.lineEnding outline.below outline.below

/-- If its groups can be rewritten, a document can be sorted, and the sorted document consists of
its old header, the rewritten groups and the rewritten comments below them. -/
theorem exists_outline_of_rewritten
    {groups : List Group}
    (hrow : row.WellFormed)
    (h : row.Reads document)
    (hgroups : List.Forall₂ (Group.Rewritten document.lineEnding) (row.arranged order) groups) :
    exists (outline : Outline) (sorted : Document),
      outline.groups = groups ∧ outline.header.Heads document ∧
        RewrittenComments document.lineEnding (Segments.below [] row.inside) outline.below ∧
        SortsTo document order outline sorted := by
  rcases h.inside with ⟨found, hfound, _⟩
  have hbelow := (Segments.wellFormed_of_groups hrow.inside hfound).2
  have hbelowSuits := (Segments.suits_of_groups h.suits_inside).2
  have harranged := h.forall_arranged hrow order
  rcases exists_header hrow h with ⟨header, hheader, hheads⟩
  rcases exists_rewrittenComments document.lineEnding hbelow with ⟨below, hcomments, hspelled⟩
  let outline : Outline := ⟨header, groups, below⟩
  have hparts : forall group', group' ∈ groups -> group'.WellFormed ∧
      Text.Clean document.lineEnding group'.block.raw ∧
        forall content, content ∈ group'.above ->
          Text.Clean document.lineEnding (Event.comment content).raw := by
    intro group' hgroup'
    rcases exists_mem_of_rewritten hgroups hgroup' with ⟨group, hgroup, hrewritten⟩
    have hold := harranged group hgroup
    exact ⟨hrewritten.wellFormed, hrewritten.clean hold.1 hold.2⟩
  have hwell : outline.WellFormed := by
    constructor
    · exact hheader
    · intro group hgroup
      exact (hparts group hgroup).1
    · exact hspelled
  have hheadClean := hheads.clean hrow h
  have hclean : outline.Clean document.lineEnding := by
    refine ⟨hheadClean.1, hheadClean.2.1, hheadClean.2.2, ?_, ?_⟩
    · intro group hgroup
      exact (hparts group hgroup).2
    · exact clean_of_rewrittenComments hbelowSuits hcomments
  have htext : document.sortedText order = Segments.raw (outline.row _).segments :=
    h.sortedText_eq_raw hheads hgroups hcomments
  rcases Outline.exists_document_of_outline hwell document.lineEnding with ⟨sorted, hparse⟩
  have hreads := reads_of_parse (hwell.row _) (Outline.plainStart_row _ _) hparse
  refine ⟨outline, sorted, rfl, hheads, hcomments, hwell, ?_, hparse, hreads, ?_, ?_, ?_⟩
  · rw [h.sort_eq, htext, hparse]
  · exact heads_of_front hheader (hwell.row _) hreads rfl rfl
  · exact Outline.lineEnding_of_outline hclean hreads.text
  · exact hcomments.self hbelowSuits

theorem exists_sorted_of_rewritten
    {groups : List Group}
    (hrow : row.WellFormed)
    (h : row.Reads document)
    (hgroups : List.Forall₂ (Group.Rewritten document.lineEnding) (row.arranged order) groups) :
    exists (outline : Outline) (sorted : Document),
      outline.groups = groups ∧ SortsTo document order outline sorted := by
  rcases exists_outline_of_rewritten hrow h hgroups with
    ⟨outline, sorted, hsame, _, _, hsorted⟩
  exact ⟨outline, sorted, hsame, hsorted⟩

/-- What can be sorted consists of groups that can be rewritten. -/
theorem exists_rewritten_of_sort
    {sorted : Document}
    (hrow : row.WellFormed)
    (h : row.Reads document)
    (hsort : document.sort order = .ok sorted) :
    exists groups : List Group,
      List.Forall₂ (Group.Rewritten document.lineEnding) (row.arranged order) groups := by
  rcases h.inside with ⟨found, hfound, _⟩
  have hbelow := (Segments.wellFormed_of_groups hrow.inside hfound).2
  rcases exists_header hrow h with ⟨header, hheader, hheads⟩
  rcases exists_rewrittenComments document.lineEnding hbelow with ⟨below, hcomments, _⟩
  let head : List Segment := (header.front document.lineEnding).map .outer ++
    [.rootOpen header.opening, .inner (.text document.lineEnding.text)]
  have houter := Segments.fit_outer (hheader.front document.lineEnding)
  have hfit : Segments.Fit false head := by
    rw [Segments.fit_append, houter.2]
    exact ⟨houter.1, ⟨rfl, hheader.opening⟩,
      (Segments.isContent_text (Header.not_mem_ending _)).fits, trivial⟩
  have hleads : Segments.leads false head = true := by
    have hfront := houter.2
    simp only [Segments.leads, head, List.foldl_append] at hfront ⊢
    rw [hfront]
    rfl
  have hraw : Segments.raw head = spell (header.front document.lineEnding) ++
      (Event.startTag header.opening).raw ++ document.lineEnding.text := by
    rw [Segments.raw_append, raw_outer]
    simp [Event.raw]
  have htext := h.sortedText_eq hheads hcomments order
  rw [← hraw, List.append_assoc, List.append_assoc, List.append_assoc] at htext
  have hplain : Document.PlainStart (document.sortedText order) := by
    have hhead : (document.sortedText order).head? = some '<' := by
      rw [htext, hraw]
      rfl
    rw [Document.PlainStart, hhead]
    decide
  rw [h.sort_eq] at hsort
  rw [htext] at hplain hsort
  rcases Cursor.exists_readRest_of_parse hplain hfit hleads hsort with ⟨layout, reader, hread⟩
  have hwell : forall group, group ∈ row.arranged order -> group.WellFormed := by
    intro group hgroup
    exact (h.forall_arranged hrow order group hgroup).1
  exact Cursor.exists_rewritten_of_readRest hwell (List.append_assoc _ _ _).symm rfl hread

/-- A sorted document consists of its old header, the rewritten groups in their order and the
rewritten comments below them. -/
theorem exists_outline_of_sort
    {sorted : Document}
    (hrow : row.WellFormed)
    (h : row.Reads document)
    (hsort : document.sort order = .ok sorted) :
    exists outline : Outline,
      List.Forall₂ (Group.Rewritten document.lineEnding) (row.arranged order) outline.groups ∧
        outline.header.Heads document ∧
        RewrittenComments document.lineEnding (Segments.below [] row.inside) outline.below ∧
        SortsTo document order outline sorted := by
  rcases exists_rewritten_of_sort hrow h hsort with ⟨groups, hrewritten⟩
  rcases exists_outline_of_rewritten hrow h hrewritten with
    ⟨outline, sorted', rfl, hheads, hbelow, hsorted⟩
  have hsame := hsorted.sort
  rw [hsort, Except.ok.injEq] at hsame
  exact ⟨outline, hrewritten, hheads, hbelow, hsame ▸ hsorted⟩

section Again

variable {outline : Outline} {sorted : Document}

theorem SortsTo.sortedText_eq_arranged
    (h : SortsTo document order outline sorted)
    (hself : forall group, group ∈ outline.groups ->
      group.Rewritten document.lineEnding group) :
    sorted.sortedText order =
      Segments.raw ((outline.arranged order).row document.lineEnding).segments := by
  have hgroups := h.wellFormed.groups_row document.lineEnding
  have hrewritten : List.Forall₂ (Group.Rewritten sorted.lineEnding)
      ((outline.row document.lineEnding).arranged order) (outline.arranged order).groups := by
    rw [RootedRow.arranged, hgroups.1, h.lineEnding]
    apply List.forall₂_same.mpr
    intro group hgroup
    exact hself group (Outline.mem_groups_arranged hgroup)
  have hbelow : RewrittenComments sorted.lineEnding
      (Segments.below [] (outline.row document.lineEnding).inside)
      (outline.arranged order).below := by
    rw [hgroups.2, h.lineEnding]
    exact h.below
  have hwritten : sorted.sortedText order =
      Segments.raw ((outline.arranged order).row _).segments :=
    h.reads.sortedText_eq_raw h.heads hrewritten hbelow
  rw [hwritten, h.lineEnding]

/-- A document has one row of written blocks, so outlines that spell the same document write the
same blocks. -/
theorem SortsTo.map_write_eq_of_raw_eq
    {outline' : Outline}
    (h : SortsTo document order outline sorted)
    (hwell : outline'.WellFormed)
    (hraw : Segments.raw (outline'.row document.lineEnding).segments =
      Segments.raw (outline.row document.lineEnding).segments) :
    outline'.groups.map (Group.write document.lineEnding) =
      outline.groups.map (Group.write document.lineEnding) := by
  have hwrite : Document.CommentedBlock.write document.lineEnding ∘ Group.commented =
      Group.write document.lineEnding :=
    funext (write_commented document.lineEnding)
  rw [← hwrite, ← List.map_map, ← List.map_map,
    Outline.map_commented_eq_of_raw_eq h.wellFormed hwell hraw]

/-- Sorted once more, a document keeps its text exactly when the keys of its groups leave them in
their order. -/
theorem SortsTo.sort_again_iff
    (h : SortsTo document order outline sorted)
    (hself : forall group, group ∈ outline.groups ->
      group.Rewritten document.lineEnding group) :
    (exists again : Document, sorted.sort order = .ok again ∧ again.text = sorted.text) ↔
      arrange Document.WrittenBlock.key order
          (outline.groups.map (Group.write document.lineEnding)) =
        outline.groups.map (Group.write document.lineEnding) := by
  rw [h.reads.sort_eq, h.sortedText_eq_arranged hself, ← Outline.map_write_arranged]
  constructor
  · rintro ⟨again, hagain, hkeeps⟩
    apply h.map_write_eq_of_raw_eq (h.wellFormed.arranged order)
    rw [← Document.text_of_parse hagain, hkeeps, h.reads.text]
  · intro hkeys
    have hall : List.Forall₂ (Group.Rewritten document.lineEnding) outline.groups
        outline.groups := List.forall₂_same.mpr hself
    have hsame : List.Forall₂ (Group.Rewritten document.lineEnding)
        (outline.arranged order).groups (outline.arranged order).groups := by
      apply List.forall₂_same.mpr
      intro group hgroup
      exact hself group (Outline.mem_groups_arranged hgroup)
    have hrows := text_writes hsame
    rw [hkeys, text_writes hall] at hrows
    have hraw : Segments.raw ((outline.arranged order).row document.lineEnding).segments =
        Segments.raw (outline.row document.lineEnding).segments := by
      rw [Outline.raw_row, Outline.raw_row, ← hrows]
      rfl
    rw [hraw]
    exact ⟨sorted, h.parse, rfl⟩

end Again

end Parsed

end RootedRow

/-!
# Written blocks and rewritten groups
-/

section Rewritten

variable {ending : LineEnding} {groups groups' : List Group}

theorem exists_rewritten_of_forall_alone
    (hgroups : forall group, group ∈ groups -> group.WellFormed)
    (h : forall written, written ∈ groups.map (Group.write ending) ->
      exists document : Document, written.alone = .ok document) :
    exists groups' : List Group, List.Forall₂ (Group.Rewritten ending) groups groups' := by
  induction groups with
  | nil => exact ⟨[], .nil⟩
  | cons group groups ih =>
      rcases h (group.write ending) (by simp) with ⟨document, halone⟩
      rcases exists_rewritten_of_alone (hgroups group (by simp)) halone with ⟨group', hgroup'⟩
      rcases ih (List.forall_mem_cons.mp hgroups).2 (List.forall_mem_cons.mp h).2 with
        ⟨groups', hgroups'⟩
      exact ⟨group' :: groups', .cons hgroup' hgroups'⟩

theorem exists_alone_of_rewritten
    (h : List.Forall₂ (Group.Rewritten ending) groups groups') :
    forall written, written ∈ groups.map (Group.write ending) ->
      exists document : Document, written.alone = .ok document := by
  induction h with
  | nil => simp
  | cons hfirst _ ih =>
      intro written hwritten
      rcases List.mem_cons.mp hwritten with heq | hmem
      · rcases hfirst.exists_alone with ⟨document, halone, _⟩
        rw [heq]
        exact ⟨document, halone⟩
      · exact ih written hmem

/-- Read on their own, the written blocks have the elements of the rewritten groups. -/
theorem nodes_of_rewritten
    {α : Type} {f : Node -> α}
    (hf : forall (offset : Nat) (node : Node), f (node.shift offset) = f node)
    (h : List.Forall₂ (Group.Rewritten ending) groups groups') :
    (groups'.flatMap fun group => group.block.nodes).map f =
      ((groups.map (Group.write ending)).flatMap Document.WrittenBlock.nodes).map f := by
  induction h with
  | nil => rfl
  | cons hfirst _ ih =>
      rename_i group' _ _ _
      rcases hfirst.exists_reads with ⟨document, halone, hreads⟩
      have hnodes := hreads.map_nodes_eq hf
      rw [show (group'.alone ending).inside = group'.row ending from rfl, nodes_row] at hnodes
      rw [List.flatMap_cons, List.map_append, ih, ← hnodes, List.map_cons, List.flatMap_cons,
        List.map_append, Document.WrittenBlock.nodes, halone]

theorem self_of_rewritten
    (hgroups : forall group, group ∈ groups -> group.WellFormed ∧ group.Suits ending)
    (h : List.Forall₂ (Group.Rewritten ending) groups groups') :
    forall group', group' ∈ groups' -> group'.Rewritten ending group' := by
  intro group' hgroup'
  rcases exists_mem_of_rewritten h hgroup' with ⟨group, hgroup, hrewritten⟩
  exact hrewritten.self (hgroups group hgroup).1 (hgroups group hgroup).2

/-- Read on their own, the written blocks have the keys of the rewritten groups. -/
theorem reread_of_rewritten
    (h : List.Forall₂ (Group.Rewritten ending) groups groups')
    (hself : forall group', group' ∈ groups' -> group'.Rewritten ending group') :
    (groups.map (Group.write ending)).map Document.WrittenBlock.reread =
      groups'.map (Group.write ending) := by
  induction h with
  | nil => rfl
  | cons hfirst _ ih =>
      rename_i group group' _ _ _
      rcases hfirst.exists_alone with ⟨document, halone, hkey, _⟩
      have htext : (group.write ending).text = (group'.write ending).text := by
        rw [text_write hfirst, text_write (hself group' List.mem_cons_self)]
      rw [List.map_cons, List.map_cons, List.map_cons,
        ih (List.forall_mem_cons.mp hself).2]
      congr 1
      rw [Document.WrittenBlock.reread, halone]
      show (⟨document.blocks.head?.bind Document.Block.key, _⟩ : Document.WrittenBlock) = _
      rw [hkey, htext]
      rfl

end Rewritten

section Sorted

variable {row : RootedRow} {document sorted : Document} {order : List EntryKind.Key}
  {outline : Outline}

/-- A sorted document has the elements of the written blocks, each of them read on its own. -/
theorem RootedRow.SortsTo.perm_nodes
    {α : Type} {f : Node -> α}
    (hf : forall (offset : Nat) (node : Node), f (node.shift offset) = f node)
    (h : SortsTo document order outline sorted)
    (hreads : row.Reads document)
    (hrewritten : List.Forall₂ (Group.Rewritten document.lineEnding) (row.arranged order)
      outline.groups) :
    (sorted.nodes.map f).Perm
      (((document.writeBlocks document.lineEnding.text 0 document.blocks).flatMap
        Document.WrittenBlock.nodes).map f) := by
  rw [h.reads.map_nodes_eq hf, nodes_outline, nodes_of_rewritten hf hrewritten,
    hreads.writeBlocks_eq]
  exact (((arrange_perm _ order _).map _).flatMap_right _).map f

/-- A sorted document says what the written blocks say, each of them on its own. -/
theorem RootedRow.SortsTo.perm_entries
    (h : SortsTo document order outline sorted)
    (hreads : row.Reads document)
    (hrewritten : List.Forall₂ (Group.Rewritten document.lineEnding) (row.arranged order)
      outline.groups) :
    sorted.entries.Perm
      ((document.writeBlocks document.lineEnding.text 0 document.blocks).flatMap
        Document.WrittenBlock.entries) := by
  have hperm := h.perm_nodes (f := Node.entry) (fun _ _ => rfl) hreads hrewritten
  rwa [List.map_flatMap, ← funext Document.WrittenBlock.entries_eq_map_nodes] at hperm

end Sorted

/-!
# Main statements
-/

namespace Document

/-- Sorting twice is sorting once exactly when every block, as it is written, can be read on its
own, and the keys that the blocks have then leave them in their order. -/
theorem sort_sort_iff
    {text : Text} {document : Document}
    (hplain : PlainStart text)
    (hparse : parse text = .ok document)
    (hsingle : SingleRoot text)
    (order : List EntryKind.Key) :
    (exists sorted again : Document,
      document.sort order = .ok sorted ∧ sorted.sort order = .ok again ∧
        again.text = sorted.text) ↔
      (forall written, written ∈ document.written order ->
        exists alone : Document, written.alone = .ok alone) ∧
      arrange WrittenBlock.key order ((document.written order).map WrittenBlock.reread) =
        (document.written order).map WrittenBlock.reread := by
  rcases exists_rootedRow hplain hparse hsingle with ⟨row, hrow, rfl⟩
  have hreads := RootedRow.reads_of_parse hrow hplain hparse
  have harranged := hreads.forall_arranged hrow order
  rw [hreads.written_eq]
  -- Both sides say that the groups can be rewritten.
  suffices hgroups : forall groups : List Group,
      List.Forall₂ (Group.Rewritten document.lineEnding) (row.arranged order) groups ->
        ((exists sorted again : Document,
          document.sort order = .ok sorted ∧ sorted.sort order = .ok again ∧
            again.text = sorted.text) ↔
          arrange WrittenBlock.key order (groups.map (Group.write document.lineEnding)) =
            groups.map (Group.write document.lineEnding)) by
    constructor
    · intro h
      rcases h with ⟨sorted, again, hsort, hagain⟩
      rcases RootedRow.exists_rewritten_of_sort hrow hreads hsort with ⟨groups, hrewritten⟩
      rw [reread_of_rewritten hrewritten (self_of_rewritten harranged hrewritten)]
      exact ⟨exists_alone_of_rewritten hrewritten,
        (hgroups groups hrewritten).mp ⟨sorted, again, hsort, hagain⟩⟩
    · intro h
      have hwell : forall group, group ∈ row.arranged order -> group.WellFormed := by
        intro group hgroup
        exact (harranged group hgroup).1
      rcases exists_rewritten_of_forall_alone hwell h.1 with ⟨groups, hrewritten⟩
      apply (hgroups groups hrewritten).mpr
      rw [← reread_of_rewritten hrewritten (self_of_rewritten harranged hrewritten)]
      exact h.2
  intro groups hrewritten
  rcases RootedRow.exists_sorted_of_rewritten hrow hreads hrewritten with
    ⟨outline, sorted, rfl, hsorted⟩
  rw [← hsorted.sort_again_iff (self_of_rewritten harranged hrewritten)]
  constructor
  · rintro ⟨sorted', again, hsort, hagain⟩
    rw [hsorted.sort, Except.ok.injEq] at hsort
    rw [hsort]
    exact ⟨again, hagain⟩
  · rintro ⟨again, hagain⟩
    exact ⟨sorted, again, hsorted.sort, hagain⟩

theorem sort_sort_iff_comment :
    exists document sorted again : Document,
      parse "<resources><!-- c --><string name=\"a\">1</string></resources>".toList =
          .ok document ∧
        document.sort [(.string, "a".toList)] = .ok sorted ∧
        sorted.sort [(.string, "a".toList)] = .ok again ∧ again.text = sorted.text := by
  have hread : (parse "<resources><!-- c --><string name=\"a\">1</string></resources>".toList).map
      (fun document =>
        ((document.written [(.string, "a".toList)]).all fun written => written.alone.isOk,
          decide (arrange WrittenBlock.key [(.string, "a".toList)]
              ((document.written [(.string, "a".toList)]).map WrittenBlock.reread) =
            (document.written [(.string, "a".toList)]).map WrittenBlock.reread))) =
        .ok (true, true) := by
    decide +kernel
  rcases Success.map_eq_ok_iff.mp hread with ⟨document, hparse, hcondition⟩
  rw [Prod.mk.injEq, List.all_eq_true, decide_eq_true_eq] at hcondition
  have hsingle : SingleRoot
      "<resources><!-- c --><string name=\"a\">1</string></resources>".toList :=
    ⟨[], [.comment "-- c --".toList, .startTag "string name=\"a\"".toList, .text "1".toList,
      .endTag "string".toList], [], "resources".toList, "resources".toList, by decide +kernel,
      by decide, by decide +kernel, by decide⟩
  have halone : forall written, written ∈ document.written [(.string, "a".toList)] ->
      exists alone : Document, written.alone = .ok alone := by
    intro written hwritten
    have hok := hcondition.1 written hwritten
    cases halone : written.alone with
    | error e => simp [halone, Except.isOk, Except.toBool] at hok
    | ok alone => exact ⟨alone, rfl⟩
  rcases (sort_sort_iff (by decide) hparse hsingle _).mpr ⟨halone, hcondition.2⟩ with
    ⟨sorted, again, hsort, hagain, htext⟩
  exact ⟨document, sorted, again, hparse, hsort, hagain, htext⟩

theorem blocks_of_ordered
    {document : Document} {blocks : List Block}
    (hblocks : document.layout.blocks = blocks)
    (hordered : blocks.Pairwise fun left right =>
      decide (left.span.start ≤ right.span.start) = true) :
    document.blocks = blocks := by
  rw [← hblocks] at hordered ⊢
  exact List.mergeSort_of_pairwise hordered

theorem sort_of_ordered
    {document : Document} {order : List EntryKind.Key} {blocks : List Block} {text : Text}
    (hclose : document.layout.rootClose.isSome = true)
    (hprolog : document.prologSpan.start ≤ document.prologSpan.stop)
    (hblocks : document.layout.blocks = blocks)
    (hordered : blocks.Pairwise fun left right =>
      decide (left.span.start ≤ right.span.start) = true)
    (htext : document.blocks = blocks -> document.sortedText order = text) :
    document.sort order = parse text := by
  rcases Option.isSome_iff_exists.mp hclose with ⟨close, hclosing⟩
  rw [sort_eq_parse order hclosing hprolog, htext (blocks_of_ordered hblocks hordered)]

/-- A name with a line feed in a file with other line breaks is not found any more once it was
written, and its element goes to another place. -/
theorem sort_sort_lineFeed :
    exists document sorted again : Document,
      parse "<resources>\r\n<string name=\"b\"/><string name=\"a\nc\"/></resources>".toList =
          .ok document ∧
        SingleRoot
          "<resources>\r\n<string name=\"b\"/><string name=\"a\nc\"/></resources>".toList ∧
        document.sort [(.string, "a\nc".toList), (.string, "b".toList)] = .ok sorted ∧
        sorted.sort [(.string, "a\nc".toList), (.string, "b".toList)] = .ok again ∧
        again.text ≠ sorted.text := by
  let document : Document :=
    { text := "<resources>\r\n<string name=\"b\"/><string name=\"a\nc\"/></resources>".toList
      layout :=
        { rootOpen := some ⟨0, 11⟩
          rootClose := some ⟨51, 63⟩
          nodes := [Reader.Node.ofEmptyTag ⟨.string, "b".toList, true⟩ ⟨13, 31⟩,
            Reader.Node.ofEmptyTag ⟨.string, "a\nc".toList, true⟩ ⟨31, 51⟩] } }
  let sorted : Document :=
    { text := "<?xml version=\"1.0\" encoding=\"utf-8\"?>\r\n<resources>\r\n".toList ++
        "    <string name=\"a\r\nc\"/>\r\n    <string name=\"b\"/>\r\n</resources>\r\n".toList
      layout :=
        { declaration := some ⟨0, 38⟩
          rootOpen := some ⟨40, 51⟩
          rootClose := some ⟨104, 116⟩
          nodes := [Reader.Node.ofEmptyTag ⟨.string, "a\r\nc".toList, true⟩ ⟨57, 78⟩,
            Reader.Node.ofEmptyTag ⟨.string, "b".toList, true⟩ ⟨84, 102⟩] } }
  have hsort : document.sort [(.string, "a\nc".toList), (.string, "b".toList)] =
      parse sorted.text := by
    apply sort_of_ordered rfl (by decide) rfl (by decide)
    intro hblocks
    unfold sortedText
    rw [hblocks]
    decide +kernel
  have hagain : sorted.sort [(.string, "a\nc".toList), (.string, "b".toList)] =
      parse ("<?xml version=\"1.0\" encoding=\"utf-8\"?>\r\n<resources>\r\n".toList ++
        "    <string name=\"b\"/>\r\n    <string name=\"a\r\nc\"/>\r\n</resources>\r\n".toList) := by
    apply sort_of_ordered rfl (by decide) rfl (by decide)
    intro hblocks
    unfold sortedText
    rw [hblocks]
    decide +kernel
  have hread : (parse ("<?xml version=\"1.0\" encoding=\"utf-8\"?>\r\n<resources>\r\n".toList ++
      "    <string name=\"b\"/>\r\n    <string name=\"a\r\nc\"/>\r\n</resources>\r\n".toList)).map
        (fun again => decide (again.text = sorted.text)) = .ok false := by
    decide +kernel
  rcases Success.map_eq_ok_iff.mp hread with ⟨again, hparse, hdiffers⟩
  refine ⟨document, sorted, again, by decide +kernel, ?_, ?_, hagain.trans hparse,
    of_decide_eq_false hdiffers⟩
  · exact ⟨[], [.text "\r\n".toList, .emptyTag "string name=\"b\"".toList,
      .emptyTag "string name=\"a\nc\"".toList], [], "resources".toList, "resources".toList,
      by decide +kernel, by decide, by decide +kernel, by decide⟩
  · rw [hsort]
    decide +kernel

/-- Sorting keeps what the entries say exactly when the blocks say it, as they are written, each
of them on its own. -/
theorem entries_sort_iff
    {text : Text} {document sorted : Document} {order : List EntryKind.Key}
    (hplain : PlainStart text)
    (hparse : parse text = .ok document)
    (hsingle : SingleRoot text)
    (hsort : document.sort order = .ok sorted) :
    sorted.entries.Perm document.entries ↔
      ((document.writeBlocks document.lineEnding.text 0 document.blocks).flatMap
        WrittenBlock.entries).Perm document.entries := by
  rcases exists_rootedRow hplain hparse hsingle with ⟨row, hrow, rfl⟩
  have hreads := RootedRow.reads_of_parse hrow hplain hparse
  rcases RootedRow.exists_outline_of_sort hrow hreads hsort with
    ⟨outline, hrewritten, _, _, hsorted⟩
  have hperm := hsorted.perm_entries hreads hrewritten
  constructor
  · intro h
    exact hperm.symm.trans h
  · intro h
    exact hperm.trans h

theorem entries_sort_iff_array :
    exists document sorted : Document,
      parse "<resources><string-array name=\"a\"><item>x</item></string-array></resources>".toList =
          .ok document ∧
        document.sort [] = .ok sorted ∧ sorted.entries.Perm document.entries := by
  have hrun : (parse
      "<resources><string-array name=\"a\"><item>x</item></string-array></resources>".toList >>=
        fun document => (document.sort []).map fun _ =>
          ((document.writeBlocks document.lineEnding.text 0 document.blocks).flatMap
            WrittenBlock.entries, document.entries)) =
        .ok ([⟨"a".toList, .array ["x".toList], true⟩],
          [⟨"a".toList, .array ["x".toList], true⟩]) := by
    decide +kernel
  rcases Success.bind_eq_ok_iff.mp hrun with ⟨document, hparse, hread⟩
  rcases Success.map_eq_ok_iff.mp hread with ⟨sorted, hsort, hentries⟩
  rw [Prod.mk.injEq] at hentries
  have hsingle : SingleRoot
      "<resources><string-array name=\"a\"><item>x</item></string-array></resources>".toList :=
    ⟨[], [.startTag "string-array name=\"a\"".toList, .startTag "item".toList, .text "x".toList,
      .endTag "item".toList, .endTag "string-array".toList], [], "resources".toList,
      "resources".toList, by decide +kernel, by decide, by decide +kernel, by decide⟩
  refine ⟨document, sorted, hparse, hsort, ?_⟩
  apply (entries_sort_iff (by decide) hparse hsingle hsort).mpr
  rw [hentries.1, hentries.2]

/-- A line of a value that begins with an end tag is indented anew, as if it ended the element. -/
theorem entries_sort_endTag :
    exists document sorted : Document,
      parse ("<resources>\n<plurals name=\"a\">\n".toList ++
          "<item quantity=\"other\">x <b>y\n  </b></item>\n</plurals>\n</resources>\n".toList) =
            .ok document ∧
        SingleRoot ("<resources>\n<plurals name=\"a\">\n".toList ++
          "<item quantity=\"other\">x <b>y\n  </b></item>\n</plurals>\n</resources>\n".toList) ∧
        document.sort [] = .ok sorted ∧ ¬ sorted.entries.Perm document.entries := by
  have hrun : (parse ("<resources>\n<plurals name=\"a\">\n".toList ++
      "<item quantity=\"other\">x <b>y\n  </b></item>\n</plurals>\n</resources>\n".toList) >>=
        fun document => (document.sort []).map fun sorted => (document.entries, sorted.entries)) =
        .ok ([⟨"a".toList, .plural (.ofList [(.other, "x <b>y\n  </b>".toList)]), true⟩],
          [⟨"a".toList, .plural (.ofList [(.other, "x <b>y\n    </b>".toList)]), true⟩]) := by
    decide +kernel
  rcases Success.bind_eq_ok_iff.mp hrun with ⟨document, hparse, hread⟩
  rcases Success.map_eq_ok_iff.mp hread with ⟨sorted, hsort, hentries⟩
  rw [Prod.mk.injEq] at hentries
  refine ⟨document, sorted, hparse, ?_, hsort, ?_⟩
  · exact ⟨[], [.text "\n".toList, .startTag "plurals name=\"a\"".toList, .text "\n".toList,
      .startTag "item quantity=\"other\"".toList, .text "x ".toList, .startTag "b".toList,
      .text "y\n  ".toList, .endTag "b".toList, .endTag "item".toList, .text "\n".toList,
      .endTag "plurals".toList, .text "\n".toList], [.text "\n".toList], "resources".toList,
      "resources".toList, by decide +kernel, by decide, by decide +kernel, by decide⟩
  · rw [hentries.1, hentries.2]
    decide +kernel

end Document
end AndroidStrings
