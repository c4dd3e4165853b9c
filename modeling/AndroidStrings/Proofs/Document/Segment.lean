import AndroidStrings.Document.Parse
import AndroidStrings.Proofs.Markup.Forest

/-!
# Segments of a document

A document is a row of segments: what stands outside the root element, the tags of the root
element, and what stands directly inside it.  Each segment says on its own what it adds to the
layout, wherever it stands, so that a document can be cut and put together again segment by
segment.
-/

namespace AndroidStrings

open Markup

/-!
# Layouts side by side
-/

namespace Span

def shift (offset : Nat) (span : Span) : Span :=
  ⟨span.start + offset, span.stop + offset⟩

end Span

namespace ItemNode

def shift (offset : Nat) (item : ItemNode) : ItemNode :=
  { item with outer := item.outer.shift offset, inner := item.inner.shift offset }

end ItemNode

namespace Node

def shift (offset : Nat) (node : Node) : Node :=
  { node with
    outer := node.outer.shift offset
    inner := node.inner.shift offset
    items := node.items.map (ItemNode.shift offset) }

@[simp] theorem entry_shift (offset : Nat) (node : Node) :
    (node.shift offset).entry = node.entry := rfl

end Node

namespace Layout

/-- The layout of a text followed by another one; of the declaration and the root tags the last
ones count. -/
def append (front back : Layout) : Layout :=
  { declaration := back.declaration.or front.declaration
    rootOpen := back.rootOpen.or front.rootOpen
    rootClose := back.rootClose.or front.rootClose
    nodes := front.nodes ++ back.nodes
    comments := front.comments ++ back.comments
    others := front.others ++ back.others }

instance : Append Layout :=
  ⟨append⟩

theorem append_def (front back : Layout) :
    front ++ back =
      { declaration := back.declaration.or front.declaration
        rootOpen := back.rootOpen.or front.rootOpen
        rootClose := back.rootClose.or front.rootClose
        nodes := front.nodes ++ back.nodes
        comments := front.comments ++ back.comments
        others := front.others ++ back.others } := rfl

@[simp] theorem nodes_append (front back : Layout) :
    (front ++ back).nodes = front.nodes ++ back.nodes := rfl

@[simp] theorem comments_append (front back : Layout) :
    (front ++ back).comments = front.comments ++ back.comments := rfl

@[simp] theorem others_append (front back : Layout) :
    (front ++ back).others = front.others ++ back.others := rfl

@[simp] theorem empty_append (layout : Layout) : ({} : Layout) ++ layout = layout := by
  simp [append_def]

@[simp] theorem append_empty (layout : Layout) : layout ++ ({} : Layout) = layout := by
  simp [append_def]

theorem append_assoc (front middle back : Layout) :
    front ++ middle ++ back = front ++ (middle ++ back) := by
  simp [append_def, Option.or_assoc]

def shift (offset : Nat) (layout : Layout) : Layout :=
  { declaration := layout.declaration.map (Span.shift offset)
    rootOpen := layout.rootOpen.map (Span.shift offset)
    rootClose := layout.rootClose.map (Span.shift offset)
    nodes := layout.nodes.map (Node.shift offset)
    comments := layout.comments.map (Span.shift offset)
    others := layout.others.map (Span.shift offset) }

theorem shift_append (offset : Nat) (front back : Layout) :
    (front ++ back).shift offset = front.shift offset ++ back.shift offset := by
  simp [shift, append_def, Option.map_or]

end Layout

/-!
# Segments
-/

/-- An `outer` event stands outside the root element and an `inner` one directly inside it;
`rootOpen` and `rootClose` are the tags of the root element. -/
inductive Segment where
  | outer (event : Event)
  | rootOpen (content : Text)
  | inner (event : Event)
  | element (opening : Text) (inside : Forest) (closing : Text)
  | rootClose (content : Text)
  deriving DecidableEq, Repr

namespace Segment

def events : Segment -> List Event
  | outer event => [event]
  | rootOpen content => [.startTag content]
  | inner event => [event]
  | element opening inside closing => .startTag opening :: (inside.events ++ [.endTag closing])
  | rootClose content => [.endTag content]

def raw (segment : Segment) : Text :=
  spell segment.events

@[simp] theorem raw_outer (event : Event) : (outer event).raw = event.raw := by
  simp [raw, events]

@[simp] theorem raw_rootOpen (content : Text) :
    (rootOpen content).raw = (Event.startTag content).raw := by
  simp [raw, events]

@[simp] theorem raw_inner (event : Event) : (inner event).raw = event.raw := by
  simp [raw, events]

@[simp] theorem raw_element (opening : Text) (inside : Forest) (closing : Text) :
    (element opening inside closing).raw =
      (Event.startTag opening).raw ++ inside.raw ++ (Event.endTag closing).raw := by
  simp [raw, events, Forest.raw]

@[simp] theorem raw_rootClose (content : Text) :
    (rootClose content).raw = (Event.endTag content).raw := by
  simp [raw, events]

/-- Whether the place behind a segment is inside the root element, when `inRoot` says it of the
place before. -/
def leads (inRoot : Bool) : Segment -> Bool
  | rootOpen _ => true
  | rootClose _ => false
  | _ => inRoot

/-- A segment that may stand at a place, with its tags matched and every event spelled. -/
def Fits (inRoot : Bool) : Segment -> Prop
  | outer event => inRoot = false ∧ event.isLeaf = true ∧ event.Spelled
  | rootOpen content =>
      inRoot = false ∧ (Event.startTag content).Spelled ∧ tagName content = Reader.rootName
  | inner event => inRoot = true ∧ event.isLeaf = true ∧ event.Spelled
  | element opening inside closing =>
      inRoot = true ∧ (Forest.element opening inside closing .nil).WellFormed
  | rootClose content =>
      inRoot = true ∧ (Event.endTag content).Spelled ∧ endTagName content = Reader.rootName

theorem Fits.spelled
    {inRoot : Bool} {segment : Segment}
    (h : segment.Fits inRoot) :
    forall event, event ∈ segment.events -> event.Spelled := by
  cases segment with
  | outer event => simpa [events] using h.2.2
  | rootOpen content => simpa [events] using h.2.1
  | inner event => simpa [events] using h.2.2
  | element opening inside closing => simpa [events] using h.2.spelled
  | rootClose content => simpa [events] using h.2.1

end Segment

/-!
# What a segment says
-/

/-- An item with its value. -/
structure ReadItem where
  node : ItemNode
  value : Text
  deriving DecidableEq, Repr

namespace ReadItem

def shift (offset : Nat) (item : ReadItem) : ReadItem :=
  { item with node := item.node.shift offset }

end ReadItem

/-- The items of an element that stand in a forest. -/
def itemsFrom (heading : Heading) (start : Nat) : Forest -> Except Error (List ReadItem)
  | .nil => .ok []
  | .leaf event rest =>
      let stop := start + event.raw.size
      match event with
      | .emptyTag content =>
          if tagName content = Reader.itemName then
            match itemQuantity heading content with
            | .error e => .error e
            | .ok quantity =>
                (itemsFrom heading stop rest).map
                  (⟨⟨quantity, ⟨start, stop⟩, ⟨stop, stop⟩⟩, []⟩ :: ·)
          else itemsFrom heading stop rest
      | _ => itemsFrom heading stop rest
  | .element opening inside closing rest =>
      let innerStart := start + (Event.startTag opening).raw.size
      let innerStop := innerStart + inside.raw.size
      let stop := innerStop + (Event.endTag closing).raw.size
      if tagName opening = Reader.itemName then
        match itemQuantity heading opening with
        | .error e => .error e
        | .ok quantity =>
            (itemsFrom heading stop rest).map
              (⟨⟨quantity, ⟨start, stop⟩, ⟨innerStart, innerStop⟩⟩, inside.raw⟩ :: ·)
      else itemsFrom heading stop rest

/-- The value of an element with items. -/
def itemsEntryValue (kind : EntryKind) (items : List ReadItem) : EntryValue :=
  match kind with
  | .plurals =>
      .plural (.ofList (items.filterMap fun item =>
        item.node.quantity.map fun quantity => (quantity, item.value)))
  | _ => .array (items.map ReadItem.value)

/-- The entry that an element makes up, with its place. -/
def elementNode (kind : EntryKind) (start : Nat) (opening : Text) (inside : Forest)
    (closing : Text) : Except Error Node :=
  match Heading.ofTag kind opening with
  | .error e => .error e
  | .ok heading =>
      let innerStart := start + (Event.startTag opening).raw.size
      let innerStop := innerStart + inside.raw.size
      let stop := innerStop + (Event.endTag closing).raw.size
      match kind with
      | .string =>
          .ok
            { entry := ⟨heading.id, .singular inside.raw, heading.translatable⟩
              outer := ⟨start, stop⟩
              inner := ⟨innerStart, innerStop⟩
              selfClosing := false
              items := [] }
      | _ =>
          (itemsFrom heading innerStart inside).map fun items =>
            { entry := ⟨heading.id, itemsEntryValue heading.kind items, heading.translatable⟩
              outer := ⟨start, stop⟩
              inner := ⟨innerStart, innerStop⟩
              selfClosing := false
              items := items.map ReadItem.node }

namespace Segment

/-- What a segment adds to the layout of a document, when it begins at a byte. -/
def layoutAt (start : Nat) (segment : Segment) : Except Error Layout :=
  let span : Span := ⟨start, start + segment.raw.size⟩
  match segment with
  | outer (.declaration _) => .ok { declaration := some span }
  | outer (.emptyTag content) =>
      if tagName content = Reader.rootName then .ok { rootOpen := some span } else .ok {}
  | outer _ => .ok {}
  | rootOpen _ => .ok { rootOpen := some span }
  | inner (.declaration _) => .ok { declaration := some span }
  | inner (.emptyTag content) =>
      match EntryKind.ofTag? (tagName content) with
      | none => .ok { others := [span] }
      | some kind =>
          (Heading.ofTag kind content).map fun heading =>
            { nodes := [Reader.Node.ofEmptyTag heading span] }
  | inner (.comment _) => .ok { comments := [span] }
  | inner _ => .ok {}
  | element opening inside closing =>
      match EntryKind.ofTag? (tagName opening) with
      | none => .ok { others := [span] }
      | some kind =>
          (elementNode kind start opening inside closing).map fun node => { nodes := [node] }
  | rootClose _ => .ok { rootClose := some span }

end Segment

/-!
# Rows of segments
-/

namespace Segments

def events (segments : List Segment) : List Event :=
  segments.flatMap Segment.events

def raw (segments : List Segment) : Text :=
  segments.flatMap Segment.raw

@[simp] theorem raw_nil : raw [] = [] := rfl

@[simp] theorem raw_cons (segment : Segment) (segments : List Segment) :
    raw (segment :: segments) = segment.raw ++ raw segments := rfl

@[simp] theorem raw_append (front back : List Segment) :
    raw (front ++ back) = raw front ++ raw back := by
  simp [raw]

theorem spell_events (segments : List Segment) : spell (events segments) = raw segments := by
  induction segments with
  | nil => rfl
  | cons segment segments ih =>
      simp only [events, List.flatMap_cons, spell_append, raw_cons] at ih ⊢
      rw [ih]
      rfl

/-- Whether the place behind a row of segments is inside the root element. -/
def leads (inRoot : Bool) (segments : List Segment) : Bool :=
  segments.foldl Segment.leads inRoot

/-- Each segment may stand where it stands. -/
def Fit (inRoot : Bool) : List Segment -> Prop
  | [] => True
  | segment :: rest => segment.Fits inRoot ∧ Fit (segment.leads inRoot) rest

@[simp] theorem fit_append (inRoot : Bool) (front back : List Segment) :
    Fit inRoot (front ++ back) ↔ Fit inRoot front ∧ Fit (leads inRoot front) back := by
  induction front generalizing inRoot with
  | nil => simp [Fit, leads]
  | cons segment front ih => simp [Fit, leads, ih, and_assoc]

theorem Fit.spelled
    {inRoot : Bool} {segments : List Segment}
    (h : Fit inRoot segments) :
    forall event, event ∈ events segments -> event.Spelled := by
  induction segments generalizing inRoot with
  | nil =>
      intro event hevent
      cases hevent
  | cons segment segments ih =>
      intro event hevent
      rcases List.mem_append.mp hevent with hfirst | hrest
      · exact h.1.spelled event hfirst
      · exact ih h.2 event hrest

def layoutFrom (start : Nat) : List Segment -> Except Error Layout
  | [] => .ok {}
  | segment :: rest =>
      match segment.layoutAt start with
      | .error e => .error e
      | .ok layout => (layoutFrom (start + segment.raw.size) rest).map (layout ++ ·)

theorem layoutFrom_append (start : Nat) (front back : List Segment) :
    layoutFrom start (front ++ back) =
      match layoutFrom start front with
      | .error e => .error e
      | .ok layout => (layoutFrom (start + (raw front).size) back).map (layout ++ ·) := by
  induction front generalizing start with
  | nil =>
      simp only [List.nil_append, layoutFrom, raw_nil, Text.size_nil, Nat.add_zero]
      cases layoutFrom start back with
      | error e => rfl
      | ok layout => simp [Except.map]
  | cons segment front ih =>
      simp only [List.cons_append, layoutFrom]
      cases segment.layoutAt start with
      | error e => rfl
      | ok first =>
          simp only [ih, raw_cons, Text.size_append, Nat.add_assoc]
          cases layoutFrom (start + segment.raw.size) front with
          | error e => rfl
          | ok middle =>
              simp only [Except.map]
              cases layoutFrom (start + (segment.raw.size + (raw front).size)) back with
              | error e => rfl
              | ok last => simp [Layout.append_assoc]

/-- The layout of a row is made up of those of its segments. -/
theorem exists_layouts_of_cons
    {row : List Segment} {segment : Segment} {start : Nat} {layout : Layout}
    (h : layoutFrom start (segment :: row) = .ok layout) :
    exists found after : Layout,
      segment.layoutAt start = .ok found ∧
        layoutFrom (start + segment.raw.size) row = .ok after ∧ found ++ after = layout := by
  simp only [layoutFrom] at h
  split at h
  · cases h
  · rename_i found hfound
    rcases Success.map_eq_ok_iff.mp h with ⟨after, hafter, heq⟩
    exact ⟨found, after, hfound, hafter, heq⟩

theorem exists_layouts_of_split
    {front back : List Segment} {segment : Segment} {start : Nat} {layout : Layout}
    (h : layoutFrom start (front ++ segment :: back) = .ok layout) :
    exists before found after : Layout,
      layoutFrom start front = .ok before ∧
        segment.layoutAt (start + (raw front).size) = .ok found ∧
        layoutFrom (start + (raw front).size + segment.raw.size) back = .ok after ∧
        before ++ (found ++ after) = layout := by
  rw [layoutFrom_append] at h
  split at h
  · cases h
  · rename_i before hbefore
    rcases Success.map_eq_ok_iff.mp h with ⟨rest, hrest, heq⟩
    rcases exists_layouts_of_cons hrest with ⟨found, after, hfound, hafter, rfl⟩
    exact ⟨before, found, after, hbefore, hfound, hafter, heq⟩

end Segments
end AndroidStrings
