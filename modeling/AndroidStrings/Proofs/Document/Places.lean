import AndroidStrings.Proofs.Document.FormList
import AndroidStrings.Proofs.Document.Group
import AndroidStrings.Proofs.Document.NodeSplit
import AndroidStrings.Proofs.Text.Piece

/-!
# Places of a document

Every edit trusts the places that the reader has noted down.  They are exact: each of them begins
and ends between two characters, an entry stands from its start tag to its end tag, its items
stand between these, its value is what stands at the places, and nothing overlaps.

## Main statement

`exactIn_of_parse` : the places of a document that has been read are exact.
-/

namespace AndroidStrings

open Markup

/-!
# Exact places
-/

namespace Node

def places (node : Node) : List Span :=
  node.outer :: node.inner :: node.items.flatMap fun item => [item.outer, item.inner]

theorem outer_mem_places (node : Node) : node.outer ∈ node.places :=
  List.mem_cons_self

theorem inner_mem_places (node : Node) : node.inner ∈ node.places :=
  List.mem_cons_of_mem _ List.mem_cons_self

/-- Of several items for a quantity, the last one counts. -/
def lastItem? (node : Node) (quantity : Quantity) : Option ItemNode :=
  (node.items.filter fun item => item.quantity == some quantity).getLast?

/-- The value of an entry is what stands at its places. -/
def HasValue (text : Text) (node : Node) : Prop :=
  match node.entry.value with
  | .singular value => value = text.slice node.inner
  | .array values => values = node.items.map fun item => text.slice item.inner
  | .plural forms =>
      forall quantity : Quantity,
        forms.get? quantity = (node.lastItem? quantity).map fun item => text.slice item.inner

/-- An entry stands where its places say.  With tags of its own, what stands between them is
balanced. -/
structure IsExact (text : Text) (node : Node) : Prop where
  begins : ('<' :: node.kind.tag) <+: text.slice node.outer
  ends : (text.slice node.outer).getLast? = some '>'
  closed : node.selfClosing = true -> node.inner = ⟨node.outer.stop, node.outer.stop⟩
  tags : node.selfClosing = false ->
    node.outer.start < node.inner.start ∧ node.inner.start ≤ node.inner.stop ∧
      node.inner.stop < node.outer.stop ∧
      (exists closing : Text,
        endTagName closing = node.kind.tag ∧
          text.slice ⟨node.inner.stop, node.outer.stop⟩ = (Event.endTag closing).raw) ∧
      Balanced (text.slice node.inner)
  items_in : Span.IncreasingIn node.inner (node.items.map ItemNode.outer)
  items_inner : forall item, item ∈ node.items -> item.inner.Inside item.outer
  value : node.HasValue text

end Node

namespace Layout

/-- The places of what stands directly inside the root element. -/
def rootPlaces (layout : Layout) : List Span :=
  layout.nodes.map Node.outer ++ layout.others ++ layout.comments

def places (layout : Layout) : List Span :=
  layout.declaration.toList ++ layout.rootOpen.toList ++ layout.rootClose.toList ++
    layout.nodes.flatMap Node.places ++ layout.others ++ layout.comments

/-- All places of a layout are exact places of a text and stand in a range of it. -/
structure ExactIn (text : Text) (range : Span) (layout : Layout) : Prop where
  nodes_in : Span.IncreasingIn range (layout.nodes.map Node.outer)
  others_in : Span.IncreasingIn range layout.others
  comments_in : Span.IncreasingIn range layout.comments
  apart : layout.rootPlaces.Pairwise Span.Apart
  exact_nodes : forall node, node ∈ layout.nodes -> node.IsExact text
  places_at : forall place, place ∈ layout.places -> text.HasAt place (text.slice place)

end Layout

/-!
# Entries
-/

theorem filter_filterMap_forms (items : List ReadItem) (quantity : Quantity) :
    (items.filterMap fun item =>
        item.node.quantity.map fun found => (found, item.value)).filter
          (fun form => form.1 == quantity) =
      (items.filter fun item => item.node.quantity == some quantity).map fun item =>
        (quantity, item.value) := by
  induction items with
  | nil => rfl
  | cons item items ih =>
      cases hquantity : item.node.quantity with
      | none => simp [hquantity, ih]
      | some found =>
          by_cases hfound : found = quantity
          · simp [hquantity, hfound, ih]
          · simp [hquantity, hfound, ih]

/-- The value of an element with items is what stands in its items. -/
theorem hasValue_of_items
    {text : Text} {range : Span} {items : List ReadItem} {node : Node} {kind : EntryKind}
    (h : ItemsIn text range items)
    (hitems : node.items = items.map ReadItem.node)
    (hkind : kind ≠ .string)
    (hvalue : node.entry.value = itemsEntryValue kind items) :
    node.HasValue text := by
  have hslices : forall item, item ∈ items -> item.value = text.slice item.node.inner := by
    intro item hitem
    exact (h.inner_at item hitem).slice.symm
  unfold Node.HasValue
  rw [hvalue]
  cases kind with
  | string => exact absurd rfl hkind
  | stringArray =>
      simp only [itemsEntryValue, hitems, List.map_map]
      exact List.map_congr_left hslices
  | plurals =>
      intro quantity
      have hlast : node.lastItem? quantity =
          ((items.filter fun item => item.node.quantity == some quantity).getLast?).map
            ReadItem.node := by
        simp [Node.lastItem?, hitems, List.filter_map, Function.comp_def]
      rw [Plural.get?_ofList, lastForm?, filter_filterMap_forms, List.getLast?_map, hlast,
        Option.map_map, Option.map_map]
      apply Option.map_congr
      intro item hitem
      have hmem := List.mem_of_mem_filter (List.mem_of_getLast? hitem)
      exact hslices item hmem

theorem items_of_elementNode
    {kind : EntryKind} {start : Nat} {opening closing : Text} {inside : Forest} {node : Node}
    (h : elementNode kind start opening inside closing = .ok node) :
    node.inner = ⟨start + (Event.startTag opening).raw.size,
        start + (Event.startTag opening).raw.size + inside.raw.size⟩ ∧
      node.selfClosing = false ∧
      (node.entry.value = .singular inside.raw ∧ node.items = [] ∨
        exists (heading : Heading) (items : List ReadItem),
          itemsFrom heading (start + (Event.startTag opening).raw.size) inside = .ok items ∧
            kind ≠ .string ∧ node.items = items.map ReadItem.node ∧
            node.entry.value = itemsEntryValue kind items) := by
  unfold elementNode at h
  split at h
  · simp at h
  · rename_i heading hheading
    have hkind := Segment.kind_of_heading hheading
    cases kind with
    | string =>
        simp only [Except.ok.injEq] at h
        rw [← h]
        exact ⟨rfl, rfl, .inl ⟨rfl, rfl⟩⟩
    | _ =>
        rcases Success.map_eq_ok_iff.mp h with ⟨items, hitems, heq⟩
        rw [← heq]
        exact ⟨rfl, rfl, .inr ⟨heading, items, hitems, by simp, rfl, by rw [hkind]⟩⟩

section Entries

variable {text : Text} {start stop : Nat} {node : Node}

theorem tag_isPrefix
    {content : Text} {kind : EntryKind}
    (back : Text)
    (h : tagName content = kind.tag) :
    ('<' :: kind.tag) <+: '<' :: (content ++ back) := by
  rw [List.cons_prefix_cons, ← h]
  exact ⟨rfl, (List.takeWhile_prefix _).trans (List.prefix_append _ _)⟩

/-- An entry with an end tag whose parts stand where its places say. -/
structure ElementAt (text : Text) (kind : EntryKind) (opening closing : Text) (inside : Forest)
    (node : Node) : Prop where
  kind_eq : node.kind = kind
  open_ended : node.selfClosing = false
  outer : text.HasAt node.outer (Segment.element opening inside closing).raw
  inner_start : node.inner.start = node.outer.start + (Event.startTag opening).raw.size
  inner : text.HasAt node.inner inside.raw
  closing : text.HasAt ⟨node.inner.stop, node.outer.stop⟩ (Event.endTag closing).raw
  items : exists items : List ReadItem,
    ItemsIn text node.inner items ∧ node.items = items.map ReadItem.node
  value : node.HasValue text

theorem elementAt_of_elementNode
    {kind : EntryKind} {opening closing : Text} {inside : Forest}
    (hat : text.HasAt ⟨start, stop⟩ (Segment.element opening inside closing).raw)
    (h : elementNode kind start opening inside closing = .ok node) :
    ElementAt text kind opening closing inside node := by
  rcases Segment.entry_of_elementNode h with ⟨houter, heading, _, hkey⟩
  rcases items_of_elementNode h with ⟨hinner, hopen, hvalue⟩
  rw [← hat.stop_eq] at houter
  rw [← houter] at hat
  have hpieces := hat
  rw [Segment.raw_element] at hpieces
  have hinside : text.HasAt node.inner inside.raw := by
    have hpiece := hpieces.left.right
    rw [houter] at hpiece
    rw [hinner]
    simpa [Nat.add_assoc] using hpiece
  have hclosing : text.HasAt ⟨node.inner.stop, node.outer.stop⟩ (Event.endTag closing).raw := by
    have hpiece := hpieces.right
    rw [houter] at hpiece
    rw [hinner, houter]
    simpa [Nat.add_assoc] using hpiece
  have hstart : node.inner.start = node.outer.start + (Event.startTag opening).raw.size := by
    rw [hinner, houter]
  rcases hvalue with ⟨hsingular, hnone⟩ | ⟨itemHeading, items, hread, hnot, hnodes, hvalue⟩
  · have hsaid : node.HasValue text := by
      unfold Node.HasValue
      rw [hsingular]
      exact hinside.slice.symm
    exact ⟨congrArg Prod.fst hkey, hopen, hat, hstart, hinside, hclosing,
      ⟨[], itemsIn_nil text _, hnone⟩, hsaid⟩
  · have hin : ItemsIn text node.inner items := by
      rw [hinner] at hinside ⊢
      exact itemsIn_of_itemsFrom hread hinside
    exact ⟨congrArg Prod.fst hkey, hopen, hat, hstart, hinside, hclosing, ⟨items, hin, hnodes⟩,
      hasValue_of_items hin hnodes hnot hvalue⟩

section ElementAt

variable {kind : EntryKind} {opening closing : Text} {inside : Forest}

theorem ElementAt.isExact
    (hwell : (Forest.element opening inside closing .nil).WellFormed)
    (hname : tagName opening = kind.tag)
    (h : ElementAt text kind opening closing inside node) :
    node.IsExact text := by
  rcases h.items with ⟨items, hin, hnodes⟩
  have hslice := h.outer.slice
  constructor
  case begins =>
    have hprefix := tag_isPrefix ('>' :: (inside.raw ++ (Event.endTag closing).raw)) hname
    rw [hslice, h.kind_eq, Segment.raw_element]
    simpa [Event.raw] using hprefix
  case ends =>
    rw [hslice]
    exact (@Segment.isMarkup_raw (.element opening inside closing) rfl).2
  case closed => simp [h.open_ended]
  case tags =>
    intro _
    have hpos : 0 < (Event.startTag opening).raw.size := size_raw_pos_of_markup _
    have hpos' : 0 < (Event.endTag closing).raw.size := size_raw_pos_of_markup _
    have hstart := h.inner_start
    have hinner := h.inner.stop_eq
    have hstop := h.closing.stop_eq
    simp only at hstop
    refine ⟨by omega, by omega, by omega, ⟨closing, ?_, h.closing.slice⟩, inside, hwell.2.1,
      h.inner.slice.symm⟩
    rw [h.kind_eq, ← hname]
    exact hwell.1.2.2
  case items_in =>
    rw [hnodes, List.map_map]
    exact hin.outer
  case items_inner =>
    rw [hnodes]
    intro item hitem
    rcases List.mem_map.mp hitem with ⟨read, hread, heq⟩
    rw [← heq]
    exact hin.inside read hread
  case value => exact h.value

/-- The places of an entry, and those of its items, are in the text. -/
theorem ElementAt.hasAt_places
    (h : ElementAt text kind opening closing inside node) :
    forall place, place ∈ node.places -> text.HasAt place (text.slice place) := by
  rcases h.items with ⟨items, hin, hnodes⟩
  intro place hplace
  rcases List.mem_cons.mp hplace with houter | hplace
  · rw [houter]
    exact h.outer.self
  rcases List.mem_cons.mp hplace with hinner | hplace
  · rw [hinner]
    exact h.inner.self
  rw [hnodes] at hplace
  rcases List.mem_flatMap.mp hplace with ⟨item, hitem, hends⟩
  rcases List.mem_map.mp hitem with ⟨read, hread, heq⟩
  rw [← heq] at hends
  rcases List.mem_cons.mp hends with hends | hends
  · rw [hends]
    exact hin.outer_at read hread
  · rw [List.mem_singleton.mp hends]
    exact (hin.inner_at read hread).self

end ElementAt

/-- An element that closes itself has no inside, and an empty value. -/
theorem isExact_of_emptyTag
    {content : Text} {heading : Heading}
    (hname : tagName content = heading.kind.tag)
    (hat : text.HasAt ⟨start, stop⟩ (Event.emptyTag content).raw) :
    (Reader.Node.ofEmptyTag heading ⟨start, stop⟩).IsExact text ∧
      forall place, place ∈ (Reader.Node.ofEmptyTag heading ⟨start, stop⟩).places ->
        text.HasAt place (text.slice place) := by
  have hkind : (Reader.Node.ofEmptyTag heading ⟨start, stop⟩).kind = heading.kind :=
    congrArg Prod.fst (Segment.key_ofEmptyTag heading _)
  constructor
  · exact
      { begins := by
          rw [hkind]
          simp only [Reader.Node.ofEmptyTag, hat.slice]
          exact tag_isPrefix _ hname
        ends := by
          simp [Reader.Node.ofEmptyTag, hat.slice, Event.raw, List.getLast?_append,
            List.getLast?_cons]
        closed := fun _ => rfl
        tags := by simp [Reader.Node.ofEmptyTag]
        items_in := Span.increasingIn_nil _
        items_inner := by simp [Reader.Node.ofEmptyTag]
        value := by
          unfold Node.HasValue
          cases hcase : heading.kind with
          | string =>
              simp only [Reader.Node.ofEmptyTag, hcase, Reader.emptyValue]
              exact hat.nil.slice.symm
          | plurals =>
              simp only [Reader.Node.ofEmptyTag, hcase, Reader.emptyValue]
              intro quantity
              cases quantity <;> rfl
          | stringArray =>
              simp only [Reader.Node.ofEmptyTag, hcase, Reader.emptyValue]
              rfl }
  · intro place hplace
    rcases List.mem_cons.mp hplace with hplace | hplace
    · rw [hplace]
      exact hat.self
    · rcases List.mem_cons.mp hplace with hplace | hplace
      · rw [hplace]
        exact hat.nil.self
      · cases hplace

end Entries

/-!
# Segments
-/

namespace Segment

/-- The places that a segment adds are its own, and those of its entry. -/
theorem mem_places_of_layoutAt
    {start : Nat} {segment : Segment} {found : Layout} {place : Span}
    (h : segment.layoutAt start = .ok found)
    (hplace : place ∈ found.places) :
    place = ⟨start, start + segment.raw.size⟩ ∨
      exists node : Node, node ∈ found.nodes ∧ place ∈ node.places := by
  unfold layoutAt at h
  simp only at h
  generalize (⟨start, start + segment.raw.size⟩ : Span) = span at h ⊢
  repeat' split at h
  all_goals first
    | (rcases Success.map_eq_ok_iff.mp h with ⟨made, _, heq⟩
       rw [← heq] at hplace ⊢
       simp only [Layout.places, Option.toList_none, List.nil_append, List.append_nil,
         List.flatMap_cons, List.flatMap_nil] at hplace
       exact .inr ⟨_, List.mem_singleton.mpr rfl, hplace⟩)
    | (simp only [Except.ok.injEq] at h
       rw [← h] at hplace
       simp only [Layout.places, Option.toList_none, Option.toList_some, List.nil_append,
         List.append_nil, List.flatMap_nil] at hplace
       first
         | exact .inl (List.mem_singleton.mp hplace)
         | cases hplace)

theorem isExact_of_layoutAt
    {inRoot : Bool} {start : Nat} {segment : Segment} {found : Layout} {node : Node} {text : Text}
    (hfits : segment.Fits inRoot)
    (hat : text.HasAt ⟨start, start + segment.raw.size⟩ segment.raw)
    (h : segment.layoutAt start = .ok found)
    (hnodes : found.nodes = [node]) :
    node.IsExact text ∧
      forall place, place ∈ node.places -> text.HasAt place (text.slice place) := by
  rcases form_of_layoutAt h hnodes with ⟨_, _, _, rfl, hname, hmade⟩ |
    ⟨_, heading, rfl, hname, hheading, hnode⟩
  · have hparts := elementAt_of_elementNode hat hmade
    exact ⟨hparts.isExact hfits.2 hname, hparts.hasAt_places⟩
  · rw [← kind_of_heading hheading] at hname
    rw [raw_inner] at hat
    rw [hnode]
    exact isExact_of_emptyTag hname hat

/-- Whether a segment is listed with its place: an element or a comment of the root element. -/
def isListed (segment : Segment) : Bool :=
  segment.isBlock || segment.comment?.isSome

theorem rootPlaces_eq
    {start : Nat} {segment : Segment} {found : Layout}
    (h : segment.layoutAt start = .ok found) :
    found.rootPlaces =
      if segment.isListed then [⟨start, start + segment.raw.size⟩] else [] := by
  cases hblock : segment.isBlock with
  | true =>
      rcases layoutAt_of_isBlock hblock h with ⟨hblocks, hcomments, _⟩
      have hspans := congrArg (List.map Document.Block.span) hblocks
      simpa [isListed, hblock, Layout.rootPlaces, Layout.blocks, hcomments, Function.comp_def,
        blockAt] using hspans
  | false =>
      rcases layoutAt_of_not_isBlock hblock h with ⟨hnodes, hothers⟩
      have hcomments := comments_of_layoutAt hblock h
      cases hcomment : segment.comment? <;>
        simp [isListed, hblock, Layout.rootPlaces, hnodes, hothers, hcomments, hcomment]

theorem size_raw_pos_of_isListed
    {segment : Segment}
    (h : segment.isListed = true) :
    0 < segment.raw.size :=
  size_raw_pos (Bool.or_eq_true .. ▸ h)

/-- A segment adds at most one place directly inside the root element. -/
theorem rootPlaces_of_layoutAt
    {start : Nat} {segment : Segment} {found : Layout}
    (h : segment.layoutAt start = .ok found) :
    found.rootPlaces = [] ∨
      found.rootPlaces = [⟨start, start + segment.raw.size⟩] ∧ 0 < segment.raw.size := by
  rw [rootPlaces_eq h]
  split
  · rename_i hlisted
    exact .inr ⟨rfl, size_raw_pos_of_isListed hlisted⟩
  · exact .inl rfl

/-- The places of a segment are exact. -/
theorem exactIn_of_layoutAt
    {inRoot : Bool} {start stop : Nat} {segment : Segment} {found : Layout} {text : Text}
    (hfits : segment.Fits inRoot)
    (hat : text.HasAt ⟨start, stop⟩ segment.raw)
    (h : segment.layoutAt start = .ok found) :
    found.ExactIn text ⟨start, stop⟩ := by
  have hstop : stop = start + segment.raw.size := hat.stop_eq
  subst hstop
  have hroot : Span.IncreasingIn ⟨start, start + segment.raw.size⟩ found.rootPlaces ∧
      found.rootPlaces.Pairwise Span.Apart := by
    rcases rootPlaces_of_layoutAt h with hnil | ⟨hone, hpos⟩
    · rw [hnil]
      exact ⟨Span.increasingIn_nil _, List.Pairwise.nil⟩
    · rw [hone]
      exact ⟨Span.increasingIn_singleton (Nat.lt_add_of_pos_right hpos),
        List.pairwise_singleton _ _⟩
  have hnodes : forall node, node ∈ found.nodes -> node.IsExact text ∧
      forall place, place ∈ node.places -> text.HasAt place (text.slice place) := by
    intro node hnode
    rcases nodes_of_layoutAt h with hnil | ⟨one, hone⟩
    · rw [hnil] at hnode
      cases hnode
    · rw [hone, List.mem_singleton] at hnode
      rw [hnode]
      exact isExact_of_layoutAt hfits hat h hone
  exact
    { nodes_in := hroot.1.sublist
        ((List.sublist_append_left _ _).trans (List.sublist_append_left _ _))
      others_in := hroot.1.sublist
        ((List.sublist_append_right _ _).trans (List.sublist_append_left _ _))
      comments_in := hroot.1.sublist (List.sublist_append_right _ _)
      apart := hroot.2
      exact_nodes := fun node hnode => (hnodes node hnode).1
      places_at := by
        intro place hplace
        rcases mem_places_of_layoutAt h hplace with heq | ⟨node, hnode, hmem⟩
        · rw [heq]
          exact hat.self
        · exact (hnodes node hnode).2 place hmem }

end Segment

/-!
# Rows
-/

namespace Layout

theorem exactIn_empty (text : Text) (range : Span) : ExactIn text range {} :=
  { nodes_in := Span.increasingIn_nil range
    others_in := Span.increasingIn_nil range
    comments_in := Span.increasingIn_nil range
    apart := List.Pairwise.nil
    exact_nodes := by simp
    places_at := by simp [places] }

theorem rootPlaces_append_perm (front back : Layout) :
    (front ++ back).rootPlaces.Perm (front.rootPlaces ++ back.rootPlaces) := by
  simp only [rootPlaces, nodes_append, others_append, comments_append, List.map_append]
  rw [List.perm_iff_count]
  intro place
  simp only [List.count_append]
  omega

/-- Of two places the later one counts. -/
theorem mem_toList_or
    {first second : Option Span} {place : Span}
    (h : place ∈ (second.or first).toList) :
    place ∈ first.toList ∨ place ∈ second.toList := by
  cases second with
  | none => exact .inl h
  | some span => exact .inr h

theorem mem_places_append
    {front back : Layout} {place : Span}
    (h : place ∈ (front ++ back).places) :
    place ∈ front.places ∨ place ∈ back.places := by
  simp only [places, append_def, List.flatMap_append, List.mem_append] at h ⊢
  rcases h with ((((h | h) | h) | h | h) | h | h) | h | h
  · rcases mem_toList_or h with h | h <;> simp [h]
  · rcases mem_toList_or h with h | h <;> simp [h]
  · rcases mem_toList_or h with h | h <;> simp [h]
  all_goals simp [h]

/-- Two layouts in neighbouring ranges are exact together. -/
theorem ExactIn.append
    {front back : Layout} {text : Text} {start middle stop : Nat}
    (hfront : front.ExactIn text ⟨start, middle⟩)
    (hback : back.ExactIn text ⟨middle, stop⟩)
    (hstart : start ≤ middle)
    (hstop : middle ≤ stop) :
    (front ++ back).ExactIn text ⟨start, stop⟩ :=
  { nodes_in := by
      rw [nodes_append, List.map_append]
      exact hfront.nodes_in.append hback.nodes_in hstart hstop
    others_in := hfront.others_in.append hback.others_in hstart hstop
    comments_in := hfront.comments_in.append hback.comments_in hstart hstop
    apart := by
      have hinside : forall {layout : Layout} {range place : Span}, layout.ExactIn text range ->
          place ∈ layout.rootPlaces -> place.Inside range := by
        intro layout range place hexact hplace
        rcases List.mem_append.mp hplace with hplace | hplace
        · rcases List.mem_append.mp hplace with hplace | hplace
          · exact hexact.nodes_in.2 place hplace
          · exact hexact.others_in.2 place hplace
        · exact hexact.comments_in.2 place hplace
      rw [(rootPlaces_append_perm front back).pairwise_iff fun h => h.symm, List.pairwise_append]
      refine ⟨hfront.apart, hback.apart, ?_⟩
      intro left hleft right hright
      exact .inl (Span.before_of_inside (hinside hfront hleft) (hinside hback hright))
    exact_nodes := by
      intro node hnode
      rcases List.mem_append.mp hnode with hnode | hnode
      · exact hfront.exact_nodes node hnode
      · exact hback.exact_nodes node hnode
    places_at := by
      intro place hplace
      rcases mem_places_append hplace with hplace | hplace
      · exact hfront.places_at place hplace
      · exact hback.places_at place hplace }

section

variable {text : Text} {range : Span} {layout : Layout} {node : Node}

/-- The inside of an element does not begin the text. -/
theorem ExactIn.inner_pos
    (h : layout.ExactIn text range)
    (hnode : node ∈ layout.nodes) :
    0 < node.inner.start := by
  have hexact := h.exact_nodes node hnode
  cases hclosed : node.selfClosing with
  | false =>
      have htags := hexact.tags hclosed
      omega
  | true =>
      have hpos := h.nodes_in.1.1 node.outer (List.mem_map_of_mem hnode)
      rw [hexact.closed hclosed]
      exact Nat.zero_lt_of_lt hpos

/-- Neither does the inside of an item. -/
theorem ExactIn.item_inner_pos
    {item : ItemNode}
    (h : layout.ExactIn text range)
    (hnode : node ∈ layout.nodes)
    (hitem : item ∈ node.items) :
    0 < item.inner.start := by
  have hexact := h.exact_nodes node hnode
  have hin := (hexact.items_in.2 item.outer (List.mem_map_of_mem hitem)).1
  have hinside := (hexact.items_inner item hitem).1
  have hpos := h.inner_pos hnode
  omega

end

end Layout

namespace Segments

/-- The places of a row of segments are exact. -/
theorem exactIn_of_layoutFrom
    {inRoot : Bool} {start stop : Nat} {segments : List Segment} {layout : Layout} {text : Text}
    (hfit : Fit inRoot segments)
    (hat : text.HasAt ⟨start, stop⟩ (raw segments))
    (h : layoutFrom start segments = .ok layout) :
    layout.ExactIn text ⟨start, stop⟩ := by
  induction segments generalizing inRoot start layout with
  | nil =>
      simp only [layoutFrom, Except.ok.injEq] at h
      rw [← h]
      exact Layout.exactIn_empty text _
  | cons segment segments ih =>
      rw [raw_cons] at hat
      have hstop := hat.stop_eq
      rw [Text.size_append] at hstop
      simp only at hstop
      rcases exists_layouts_of_cons h with ⟨found, others, hfound, hothers, heq⟩
      have hfirst := Segment.exactIn_of_layoutAt hfit.1 hat.left hfound
      rw [← heq]
      apply hfirst.append (ih hfit.2 hat.right hothers)
      · exact Nat.le_add_right _ _
      · simp only
        omega

end Segments

namespace Document

theorem exactIn_of_isRead
    {document : Document}
    (hplain : PlainStart document.text)
    (hread : parse document.text = .ok document) :
    document.layout.ExactIn document.text ⟨0, document.text.size⟩ := by
  rcases exists_segments_of_parse hplain hread with ⟨segments, hfit, hraw⟩
  have hagain := parse_raw (by rwa [hraw]) hfit
  rw [hraw, hread] at hagain
  rcases Success.map_eq_ok_iff.mp hagain.symm with ⟨layout, hlayout, hdocument⟩
  have hat := Text.hasAt_self document.text
  rw [← hraw] at hat
  have hexact := Segments.exactIn_of_layoutFrom hfit hat hlayout
  rw [hraw] at hexact
  rwa [← congrArg Document.layout hdocument]

/-- The places of a document that has been read are exact. -/
theorem exactIn_of_parse
    {text : Text} {document : Document}
    (hplain : PlainStart text)
    (hparse : parse text = .ok document) :
    document.layout.ExactIn text ⟨0, text.size⟩ := by
  have htext := text_of_parse hparse
  rw [← htext] at hplain hparse ⊢
  exact exactIn_of_isRead hplain hparse

theorem exactIn_of_parse_plurals :
    exists document : Document,
      parse ("<resources><!-- \u00e9 --><plurals name=\"a > b\">".toList ++
          "<item quantity=\"one\">x</item><item quantity=\"one\">y</item></plurals>".toList ++
          "<dimen name=\"d\">1</dimen><string name=\"s\"/></resources>".toList) =
            .ok document ∧
        document.order = [(.plurals, "a > b".toList), (.string, "s".toList)] ∧
        document.layout.ExactIn document.text ⟨0, document.text.size⟩ := by
  have hread : (parse ("<resources><!-- \u00e9 --><plurals name=\"a > b\">".toList ++
      "<item quantity=\"one\">x</item><item quantity=\"one\">y</item></plurals>".toList ++
      "<dimen name=\"d\">1</dimen><string name=\"s\"/></resources>".toList)).map order =
        .ok [(.plurals, "a > b".toList), (.string, "s".toList)] := by
    decide +kernel
  rcases Success.map_eq_ok_iff.mp hread with ⟨document, hparse, horder⟩
  refine ⟨document, hparse, horder, ?_⟩
  rw [text_of_parse hparse]
  exact exactIn_of_parse (by decide) hparse

end Document
end AndroidStrings
