import AndroidStrings.Proofs.Document.LaidOut

/-!
# A document around one entry

The first entry of some sort is one block of the row of a document, with a row inside the root
element before it and a row behind it.  An edit leaves the two rows, so they are kept apart here.

## Main statements

- `Segment.form_of_layoutAt`, `NodeSplit.form` : what makes up an entry.
- `LaidOut.exists_nodeSplit` : every entry that is looked for and found splits its document.
- `LaidOut.exists_exchange` : another block in the place of a block.
-/

namespace AndroidStrings

open Markup

/-!
# The segment of an entry
-/

namespace Segment

/-- A segment adds at most one entry. -/
theorem nodes_of_layoutAt
    {start : Nat} {segment : Segment} {found : Layout}
    (h : segment.layoutAt start = .ok found) :
    found.nodes = [] ∨ exists node : Node, found.nodes = [node] := by
  cases hblock : segment.isBlock with
  | false => exact .inl (layoutAt_of_not_isBlock hblock h).1
  | true =>
      have hblocks := (layoutAt_of_isBlock hblock h).1
      cases hnodes : found.nodes with
      | nil => exact .inl rfl
      | cons node nodes =>
          rw [Layout.blocks, hnodes, List.map_cons, List.cons_append, List.cons.injEq] at hblocks
          have hnone := (List.append_eq_nil_iff.mp hblocks.2).1
          rw [List.map_eq_nil_iff] at hnone
          exact .inr ⟨node, by rw [hnone]⟩

/-- The entry of an element is what the element makes up. -/
theorem elementNode_of_layoutAt
    {start : Nat} {opening closing : Text} {inside : Forest} {found : Layout} {node : Node}
    (h : (element opening inside closing).layoutAt start = .ok found)
    (hnodes : found.nodes = [node]) :
    tagName opening = node.kind.tag ∧
      elementNode node.kind start opening inside closing = .ok node := by
  simp only [layoutAt] at h
  split at h
  · simp only [Except.ok.injEq] at h
    rw [← h] at hnodes
    simp at hnodes
  · rename_i kind hof
    rcases Success.map_eq_ok_iff.mp h with ⟨made, hmade, heq⟩
    rw [← heq, List.cons.injEq] at hnodes
    rw [hnodes.1] at hmade
    rcases entry_of_elementNode hmade with ⟨_, _, _, hkey⟩
    have hkind : node.kind = kind := congrArg Prod.fst hkey
    rw [hkind]
    exact ⟨EntryKind.ofTag?_eq_some_iff.mp hof, hmade⟩

theorem ofEmptyTag_of_layoutAt
    {start : Nat} {content : Text} {found : Layout} {node : Node}
    (h : (inner (.emptyTag content)).layoutAt start = .ok found)
    (hnodes : found.nodes = [node]) :
    exists heading : Heading,
      tagName content = node.kind.tag ∧ Heading.ofTag node.kind content = .ok heading ∧
        node = Reader.Node.ofEmptyTag heading
          ⟨start, start + (Event.emptyTag content).raw.size⟩ := by
  simp only [layoutAt, raw_inner] at h
  split at h
  · simp only [Except.ok.injEq] at h
    rw [← h] at hnodes
    simp at hnodes
  · rename_i kind hof
    rcases Success.map_eq_ok_iff.mp h with ⟨heading, hheading, heq⟩
    rw [← heq, List.cons.injEq] at hnodes
    have hkind : node.kind = kind := by
      rw [← kind_of_heading hheading, ← hnodes.1]
      exact congrArg Prod.fst (key_ofEmptyTag heading _)
    rw [hkind]
    exact ⟨heading, EntryKind.ofTag?_eq_some_iff.mp hof, hheading, hnodes.1.symm⟩

theorem leads_of_isBlock
    {segment : Segment}
    (h : segment.isBlock = true)
    (inRoot : Bool) :
    segment.leads inRoot = inRoot := by
  rcases form_of_isBlock h with ⟨_, _, _, rfl⟩ | ⟨_, rfl⟩ <;> rfl

theorem inRoot_of_isBlock
    {inRoot : Bool} {segment : Segment}
    (hblock : segment.isBlock = true)
    (h : segment.Fits inRoot) :
    inRoot = true := by
  rcases form_of_isBlock hblock with ⟨_, _, _, rfl⟩ | ⟨_, rfl⟩ <;> exact h.1

/-- An entry takes up its segment, which is a block. -/
theorem outer_of_layoutAt
    {start : Nat} {segment : Segment} {found : Layout} {node : Node}
    (h : segment.layoutAt start = .ok found)
    (hnodes : found.nodes = [node]) :
    segment.isBlock = true ∧ node.outer = ⟨start, start + segment.raw.size⟩ := by
  cases hblock : segment.isBlock with
  | false =>
      have hnone := (layoutAt_of_not_isBlock hblock h).1
      rw [hnodes] at hnone
      cases hnone
  | true =>
      have hblocks := (layoutAt_of_isBlock hblock h).1
      rw [Layout.blocks, hnodes, List.map_singleton, List.singleton_append, List.cons.injEq]
        at hblocks
      exact ⟨rfl, congrArg Document.Block.span hblocks.1⟩

/-- Only an element and an element that closes itself, both directly in the root element, have an
entry, and their tag says which. -/
theorem form_of_layoutAt
    {start : Nat} {segment : Segment} {found : Layout} {node : Node}
    (h : segment.layoutAt start = .ok found)
    (hnodes : found.nodes = [node]) :
    (exists (opening : Text) (inside : Forest) (closing : Text),
      segment = element opening inside closing ∧ tagName opening = node.kind.tag ∧
        elementNode node.kind start opening inside closing = .ok node) ∨
      exists (content : Text) (heading : Heading),
        segment = inner (.emptyTag content) ∧ tagName content = node.kind.tag ∧
          Heading.ofTag node.kind content = .ok heading ∧
          node = Reader.Node.ofEmptyTag heading
            ⟨start, start + (Event.emptyTag content).raw.size⟩ := by
  rcases form_of_isBlock (outer_of_layoutAt h hnodes).1 with
    ⟨opening, inside, closing, rfl⟩ | ⟨content, rfl⟩
  · exact .inl ⟨opening, inside, closing, rfl, elementNode_of_layoutAt h hnodes⟩
  · rcases ofEmptyTag_of_layoutAt h hnodes with ⟨heading, hsaid⟩
    exact .inr ⟨content, heading, rfl, hsaid⟩

end Segment

namespace Segments

/-- The segment of the first entry of some sort. -/
theorem exists_segment_of_find?
    {start : Nat} {segments : List Segment} {layout : Layout} {wanted : Node -> Bool}
    {node : Node}
    (h : layoutFrom start segments = .ok layout)
    (hfind : layout.nodes.find? wanted = some node) :
    exists (front : List Segment) (segment : Segment) (back : List Segment)
        (before found after : Layout),
      segments = front ++ segment :: back ∧
        layoutFrom start front = .ok before ∧ before.nodes.find? wanted = none ∧
        segment.layoutAt (start + (raw front).size) = .ok found ∧ found.nodes = [node] ∧
        layoutFrom (start + (raw front).size + segment.raw.size) back = .ok after ∧
        layout.nodes = before.nodes ++ node :: after.nodes := by
  induction segments generalizing start layout with
  | nil =>
      simp only [layoutFrom, Except.ok.injEq] at h
      rw [← h] at hfind
      simp at hfind
  | cons segment segments ih =>
      rcases exists_layouts_of_cons h with ⟨first, others, hfirst, hothers, heq⟩
      have hcases := Segment.nodes_of_layoutAt hfirst
      have hnodes : layout.nodes = first.nodes ++ others.nodes := by
        rw [← heq]
        rfl
      rw [hnodes, List.find?_append] at hfind
      cases hhere : first.nodes.find? wanted with
      | some other =>
          -- The segment has one entry, and it is the one looked for.
          rw [hhere, Option.some_or, Option.some.injEq] at hfind
          rcases hcases with hnil | ⟨one, hone⟩
          · rw [hnil] at hhere
            simp at hhere
          · rw [hone] at hhere
            have hmem := List.mem_of_find?_eq_some hhere
            rw [List.mem_singleton, hfind] at hmem
            rw [← hmem] at hone
            refine ⟨[], segment, segments, {}, first, others, rfl, rfl, rfl, hfirst, hone, ?_, ?_⟩
            · exact hothers
            · rw [hnodes, hone]
              rfl
      | none =>
          rw [hhere, Option.none_or] at hfind
          rcases ih hothers hfind with ⟨front, found, back, before, foundLayout, after, hsplit,
            hbefore, hfirst', hfound, hone, hafter, hlayout⟩
          refine ⟨segment :: front, found, back, first ++ before, foundLayout, after, ?_, ?_, ?_,
            ?_, hone, ?_, ?_⟩
          · rw [hsplit]
            rfl
          · simp [layoutFrom, hfirst, hbefore, Except.map]
          · rw [Layout.nodes_append, List.find?_append, hhere, hfirst']
            rfl
          · simpa [Nat.add_assoc] using hfound
          · simpa [Nat.add_assoc] using hafter
          · rw [hnodes, hlayout, Layout.nodes_append, List.append_assoc]

end Segments

/-!
# Rows around an entry
-/

namespace Document

theorem matches_of_find?
    {document : Document} {kind : EntryKind} {id : Text} {node : Node}
    (h : document.find? kind id = some node) :
    node.kind = kind ∧ node.id = id := by
  have hmatch := List.find?_some h
  rwa [Bool.and_eq_true, beq_iff_eq, beq_iff_eq] at hmatch

theorem contains_of_find?
    {document : Document} {kind : EntryKind} {id : Text} {node : Node}
    (h : document.find? kind id = some node) :
    document.contains kind id = true := by
  rw [contains, h]
  rfl

/-- Where no entry before it has its key, an entry is the one that is found. -/
theorem find?_of_nodes
    {document : Document} {node : Node} {before after : List Node}
    (h : document.nodes = before ++ node :: after)
    (hfirst : forall entry, entry ∈ before.map Node.entry ->
      (entry.kind == node.kind && entry.id == node.id) = false) :
    document.find? node.kind node.id = some node := by
  have hnone : before.find? (fun other => other.kind == node.kind && other.id == node.id) =
      none := by
    rw [List.find?_eq_none]
    intro other hother
    rw [Bool.not_eq_true]
    exact hfirst other.entry (List.mem_map_of_mem hother)
  rw [find?, h, List.find?_append, hnone, Option.none_or, List.find?_cons_of_pos (by simp)]

/-- An entry in its segment, and the rows before and behind it. -/
structure NodeSplit (document : Document) (wanted : Node -> Bool) (node : Node)
    (front : List Segment) (segment : Segment) (back : List Segment) (before after : Layout) :
    Prop where
  text : document.text = Segments.raw front ++ segment.raw ++ Segments.raw back
  fit_front : Segments.Fit false front
  inRoot : Segments.leads false front = true
  fits : segment.Fits true
  fit_back : Segments.Fit true back
  reads_front : Segments.layoutFrom 0 front = .ok before
  reads_back : Segments.layoutFrom ((Segments.raw front).size + segment.raw.size) back = .ok after
  isBlock : segment.isBlock = true
  layoutAt : exists found : Layout,
    segment.layoutAt (Segments.raw front).size = .ok found ∧ found.nodes = [node]
  outer : node.outer = ⟨(Segments.raw front).size, (Segments.raw front).size + segment.raw.size⟩
  first : before.nodes.find? wanted = none
  nodes : document.nodes = before.nodes ++ node :: after.nodes

/-- Every entry that is looked for and found splits its document. -/
theorem LaidOut.exists_nodeSplit
    {document : Document} {row : List Segment} {wanted : Node -> Bool} {node : Node}
    (h : document.LaidOut row)
    (hfind : document.nodes.find? wanted = some node) :
    exists (front : List Segment) (segment : Segment) (back : List Segment)
        (before after : Layout),
      row = front ++ segment :: back ∧
        NodeSplit document wanted node front segment back before after := by
  rcases h.exists_layoutFrom with ⟨layout, hlayout, heq⟩
  have hnodes : document.nodes = layout.nodes := by
    rw [nodes, heq]
  rw [hnodes] at hfind
  rcases Segments.exists_segment_of_find? hlayout hfind with ⟨front, segment, back, before, found,
    after, hsplit, hbefore, hfirst, hfound, hone, hafter, hsum⟩
  rw [Nat.zero_add] at hfound hafter
  rcases Segment.outer_of_layoutAt hfound hone with ⟨hblock, houter⟩
  have hfit := h.fit
  rw [hsplit, Segments.fit_append] at hfit
  have hinRoot := Segment.inRoot_of_isBlock hblock hfit.2.1
  have hback := hfit.2.2
  rw [Segment.leads_of_isBlock hblock, hinRoot] at hback
  refine ⟨front, segment, back, before, after, hsplit, ?_⟩
  exact
    { text := by
        rw [← h.raw, hsplit]
        simp
      fit_front := hfit.1
      inRoot := hinRoot
      fits := hinRoot ▸ hfit.2.1
      fit_back := hback
      reads_front := hbefore
      reads_back := hafter
      isBlock := hblock
      layoutAt := ⟨found, hfound, hone⟩
      outer := houter
      first := hfirst
      nodes := hnodes.trans hsum }

section Split

variable {document : Document} {wanted : Node -> Bool} {node : Node} {front back : List Segment}
  {segment : Segment} {before after : Layout}

/-- The segment of the entry that is found is an element, or one that closes itself. -/
theorem NodeSplit.form
    (h : NodeSplit document wanted node front segment back before after) :
    (exists (opening : Text) (inside : Forest) (closing : Text),
      segment = .element opening inside closing ∧ tagName opening = node.kind.tag ∧
        elementNode node.kind (Segments.raw front).size opening inside closing = .ok node) ∨
      exists (content : Text) (heading : Heading),
        segment = .inner (.emptyTag content) ∧ tagName content = node.kind.tag ∧
          Heading.ofTag node.kind content = .ok heading ∧
          node = Reader.Node.ofEmptyTag heading ⟨(Segments.raw front).size,
            (Segments.raw front).size + (Event.emptyTag content).raw.size⟩ := by
  rcases h.layoutAt with ⟨found, hfound, hone⟩
  exact Segment.form_of_layoutAt hfound hone

theorem NodeSplit.entries_segment
    (h : NodeSplit document wanted node front segment back before after) :
    segment.entries = [node.entry] := by
  rcases h.layoutAt with ⟨found, hfound, hone⟩
  rw [← Segment.entries_of_layoutAt hfound, hone, List.map_singleton]

/-- No entry before the one that is found is looked for. -/
theorem NodeSplit.not_wanted
    {isWanted : Entry -> Bool}
    (h : NodeSplit document wanted node front segment back before after)
    (hwanted : forall other : Node, wanted other = isWanted other.entry) :
    forall entry, entry ∈ front.flatMap Segment.entries -> isWanted entry = false := by
  intro entry hentry
  rw [← Segments.entries_of_layoutFrom h.reads_front] at hentry
  rcases List.mem_map.mp hentry with ⟨other, hother, heq⟩
  have hnot := List.find?_eq_none.mp h.first other hother
  rw [hwanted, heq, Bool.not_eq_true] at hnot
  exact hnot

end Split

/-- The first element of a list that is not free splits it in one way. -/
theorem eq_of_append_cons
    {α : Type} {free : α -> Bool} {front front' back back' : List α} {x x' : α}
    (hfront : forall y, y ∈ front -> free y = true)
    (hx : free x = false)
    (hfront' : forall y, y ∈ front' -> free y = true)
    (hx' : free x' = false)
    (h : front ++ x :: back = front' ++ x' :: back') :
    front = front' ∧ x = x' ∧ back = back' := by
  have hsame := congrArg (List.takeWhile free) h
  rw [List.takeWhile_append_of_pos hfront, List.takeWhile_append_of_pos hfront',
    List.takeWhile_cons_of_neg (by simp [hx]), List.takeWhile_cons_of_neg (by simp [hx']),
    List.append_nil, List.append_nil] at hsame
  rw [hsame, List.append_cancel_left_eq, List.cons.injEq] at h
  exact ⟨hsame, h⟩

/-- The first segment of a row that makes up an entry of a key is that of the entry that is
found. -/
theorem LaidOut.exists_nodeSplit_of_row
    {document : Document} {front back : List Segment} {segment : Segment} {entry : Entry}
    (h : document.LaidOut (front ++ segment :: back))
    (hentries : segment.entries = [entry])
    (hfirst : forall other, other ∈ front.flatMap Segment.entries ->
      (other.kind == entry.kind && other.id == entry.id) = false) :
    exists (node : Node) (before after : Layout),
      document.find? entry.kind entry.id = some node ∧ node.entry = entry ∧
        NodeSplit document (fun node => node.kind == entry.kind && node.id == entry.id) node front
          segment back before after := by
  let wanted : Entry -> Bool := fun other => other.kind == entry.kind && other.id == entry.id
  let free : Segment -> Bool := fun other => other.entries.all fun entry => !wanted entry
  have hfree : forall row : List Segment,
      (forall other, other ∈ row.flatMap Segment.entries -> wanted other = false) ->
        forall other, other ∈ row -> free other = true := by
    intro row hrow other hother
    rw [List.all_eq_true]
    intro entry hentry
    rw [hrow entry (List.mem_flatMap.mpr ⟨other, hother, hentry⟩)]
    rfl
  have hwanted : free segment = false := by simp [free, wanted, hentries]
  have hfound : exists node : Node, document.find? entry.kind entry.id = some node := by
    rw [← Option.isSome_iff_exists, find?, List.find?_isSome]
    have hmem : entry ∈ document.nodes.map Node.entry := by
      rw [← entries, h.entries_eq, List.mem_flatMap]
      exact ⟨segment, by simp, by simp [hentries]⟩
    rcases List.mem_map.mp hmem with ⟨node, hnode, heq⟩
    exact ⟨node, hnode, by simp [Node.kind, Node.id, heq]⟩
  rcases hfound with ⟨node, hfind⟩
  rcases h.exists_nodeSplit hfind with ⟨front', segment', back', before, after, hrow, hsplit⟩
  have hwanted' : free segment' = false := by
    have hmatch : wanted node.entry = true := by
      have heq := matches_of_find? hfind
      simp only [wanted, Bool.and_eq_true, beq_iff_eq]
      exact heq
    simp [free, hsplit.entries_segment, hmatch]
  rcases eq_of_append_cons (hfree front hfirst) hwanted
    (hfree front' (hsplit.not_wanted fun _ => rfl)) hwanted' hrow with ⟨rfl, rfl, rfl⟩
  refine ⟨node, before, after, hfind, ?_, hsplit⟩
  have hone := hsplit.entries_segment
  rw [hentries, List.cons.injEq] at hone
  exact hone.1.symm

theorem LaidOut.fits_of_isBlock
    {document : Document} {row : List Segment} {segment : Segment}
    (h : document.LaidOut row)
    (hmem : segment ∈ row)
    (hblock : segment.isBlock = true) :
    segment.Fits true := by
  rcases List.append_of_mem hmem with ⟨front, back, rfl⟩
  have hfit := h.fit
  rw [Segments.fit_append] at hfit
  have hfits := hfit.2.1
  rwa [Segment.inRoot_of_isBlock hblock hfits] at hfits

/-- A block that can be read may take the place of another one. -/
theorem LaidOut.exists_exchange
    {document : Document} {front back : List Segment} {segment segment' : Segment}
    (h : document.LaidOut (front ++ segment :: back))
    (hblock : segment.isBlock = true)
    (hblock' : segment'.isBlock = true)
    (hfits : segment'.Fits true)
    (hreadable : segment'.Readable) :
    exists edited : Document,
      parse (Segments.raw front ++ segment'.raw ++ Segments.raw back) = .ok edited ∧
        edited.LaidOut (front ++ segment' :: back) := by
  have hfit := h.fit
  rw [Segments.fit_append] at hfit
  have hinRoot := Segment.inRoot_of_isBlock hblock hfit.2.1
  have hrest := hfit.2.2
  rw [Segment.leads_of_isBlock hblock, hinRoot] at hrest
  have hback : Segments.Fit true (segment' :: back) := by
    refine ⟨hfits, ?_⟩
    rw [Segment.leads_of_isBlock hblock']
    exact hrest
  have hplain := h.plain
  rw [← h.raw, Segments.raw_append] at hplain
  have hall : forall other, other ∈ front ++ segment' :: back -> other.Readable := by
    intro other hother
    rcases List.mem_append.mp hother with hmem | hmem
    · exact h.readable other (List.mem_append_left _ hmem)
    · rcases List.mem_cons.mp hmem with heq | hmem
      · rw [heq]
        exact hreadable
      · exact h.readable other (List.mem_append_right _ (List.mem_cons_of_mem _ hmem))
  have hnew := exists_laidOut_append hplain hfit.1 hinRoot hback hall
  rwa [Segments.raw_cons, ← List.append_assoc] at hnew

end Document
end AndroidStrings
