import AndroidStrings.Document.Sort
import AndroidStrings.Proofs.Document.Shift

/-!
# Blocks of a row of segments

The elements directly inside the root element are the blocks that sorting moves.  Each of them
is one segment, and what sorting asks of it, its key and its kind, is said by the segment alone.

## Main statement

`layoutAt_of_isBlock` : a block adds itself to the layout, and nothing else.
-/

namespace AndroidStrings

open Markup

namespace Layout

/-- The blocks of a layout, entries first. -/
def blocks (layout : Layout) : List Document.Block :=
  layout.nodes.map (fun node => ⟨some node.entry.key, node.outer⟩) ++
    layout.others.map fun span => ⟨none, span⟩

end Layout

namespace Segment

def isBlock : Segment -> Bool
  | element _ _ _ => true
  | inner (.emptyTag _) => true
  | _ => false

/-- A block is an element or an element that closes itself, directly in the root element. -/
theorem form_of_isBlock
    {segment : Segment}
    (h : segment.isBlock = true) :
    (exists (opening : Text) (inside : Forest) (closing : Text),
      segment = element opening inside closing) ∨
      exists content : Text, segment = inner (.emptyTag content) := by
  cases segment with
  | element opening inside closing => exact .inl ⟨opening, inside, closing, rfl⟩
  | inner event =>
      cases event with
      | emptyTag content => exact .inr ⟨content, rfl⟩
      | _ => cases h
  | _ => cases h

/-- What stands in the tag that a block begins with. -/
def content : Segment -> Text
  | element opening _ _ => opening
  | inner (.emptyTag content) => content
  | _ => []

def tag (segment : Segment) : Text :=
  tagName segment.content

/-- The key of a block; elements of other types have none. -/
def key? (segment : Segment) : Option EntryKind.Key :=
  match EntryKind.ofTag? segment.tag with
  | none => none
  | some kind =>
      match Heading.ofTag kind segment.content with
      | .ok heading => some (kind, heading.id)
      | .error _ => none

def blockAt (segment : Segment) (start : Nat) : Document.Block :=
  ⟨segment.key?, ⟨start, start + segment.raw.size⟩⟩

def hasItems (segment : Segment) : Bool :=
  (segment.blockAt 0).hasItems

/-- The tags of a segment can be read. -/
def Readable (segment : Segment) : Prop :=
  exists found : Layout, segment.layoutAt 0 = .ok found

theorem readable_of_layoutAt
    {start : Nat} {segment : Segment} {found : Layout}
    (h : segment.layoutAt start = .ok found) :
    segment.Readable := by
  have hshift := layoutAt_shift start 0 segment
  rw [Nat.zero_add, h] at hshift
  rcases Success.map_eq_ok_iff.mp hshift.symm with ⟨found', hfound', _⟩
  exact ⟨found', hfound'⟩

theorem Readable.layoutAt
    {segment : Segment}
    (h : segment.Readable)
    (start : Nat) :
    exists found : Layout, segment.layoutAt start = .ok found := by
  rcases h with ⟨found, hfound⟩
  have hshift := layoutAt_shift start 0 segment
  rw [Nat.zero_add, hfound] at hshift
  exact ⟨_, hshift⟩

theorem kind_of_heading
    {kind : EntryKind} {content : Text} {heading : Heading}
    (h : Heading.ofTag kind content = .ok heading) :
    heading.kind = kind := by
  unfold Heading.ofTag at h
  repeat' split at h
  all_goals simp only [Except.ok.injEq, reduceCtorEq] at h
  rw [← h]

/-- An element that closes itself makes up an entry of the key that its tag says. -/
theorem key_ofEmptyTag (heading : Heading) (span : Span) :
    (Reader.Node.ofEmptyTag heading span).entry.key = (heading.kind, heading.id) := by
  apply Prod.ext
  · show (Reader.emptyValue heading.kind).kind = heading.kind
    cases heading.kind <;> rfl
  · rfl

theorem entry_of_elementNode
    {kind : EntryKind} {start : Nat} {opening closing : Text} {inside : Forest} {node : Node}
    (h : elementNode kind start opening inside closing = .ok node) :
    node.outer = ⟨start, start + (element opening inside closing).raw.size⟩ ∧
      exists heading : Heading,
        Heading.ofTag kind opening = .ok heading ∧ node.entry.key = (kind, heading.id) := by
  unfold elementNode at h
  split at h
  · simp at h
  · rename_i heading hheading
    have hkind := kind_of_heading hheading
    have hsize : (element opening inside closing).raw.size = (Event.startTag opening).raw.size +
        inside.raw.size + (Event.endTag closing).raw.size := by
      simp [Nat.add_assoc]
    cases kind with
    | string =>
        simp only [Except.ok.injEq] at h
        rw [← h, hsize]
        refine ⟨?_, heading, hheading, rfl⟩
        simp [Nat.add_assoc]
    | _ =>
        rcases Success.map_eq_ok_iff.mp h with ⟨items, _, heq⟩
        rw [← heq, hsize]
        refine ⟨?_, heading, hheading, ?_⟩
        · simp [Nat.add_assoc]
        · simp only [Entry.key, Entry.kind, itemsEntryValue, hkind]
          rfl

/-- A block adds itself to the layout, and nothing else. -/
theorem layoutAt_of_isBlock
    {start : Nat} {segment : Segment} {found : Layout}
    (hblock : segment.isBlock = true)
    (h : segment.layoutAt start = .ok found) :
    found.blocks = [segment.blockAt start] ∧ found.comments = [] ∧ found.declaration = none ∧
      found.rootOpen = none ∧ found.rootClose = none := by
  cases segment with
  | element opening inside closing =>
      simp only [layoutAt] at h
      split at h
      · rename_i hnone
        simp only [Except.ok.injEq] at h
        rw [← h]
        refine ⟨?_, rfl, rfl, rfl, rfl⟩
        simp [Layout.blocks, blockAt, key?, tag, content, hnone]
      · rename_i kind hkind
        rcases Success.map_eq_ok_iff.mp h with ⟨node, hnode, heq⟩
        rcases entry_of_elementNode hnode with ⟨houter, heading, hheading, hkey⟩
        rw [← heq]
        refine ⟨?_, rfl, rfl, rfl, rfl⟩
        simp [Layout.blocks, blockAt, key?, tag, content, hkind, hheading, houter, hkey]
  | inner event =>
      cases event with
      | emptyTag content =>
          simp only [layoutAt] at h
          split at h
          · rename_i hnone
            simp only [Except.ok.injEq] at h
            rw [← h]
            refine ⟨?_, rfl, rfl, rfl, rfl⟩
            simp [Layout.blocks, blockAt, key?, tag, Segment.content, hnone]
          · rename_i kind hkind
            rcases Success.map_eq_ok_iff.mp h with ⟨heading, hheading, heq⟩
            rw [← heq]
            refine ⟨?_, rfl, rfl, rfl, rfl⟩
            simp only [Layout.blocks, List.map_cons, key_ofEmptyTag, kind_of_heading hheading]
            simp [blockAt, key?, tag, Segment.content, hkind, hheading, Reader.Node.ofEmptyTag]
      | _ => simp [isBlock] at hblock
  | _ => simp [isBlock] at hblock

/-- A segment that is no block adds no block. -/
theorem layoutAt_of_not_isBlock
    {start : Nat} {segment : Segment} {found : Layout}
    (hblock : segment.isBlock = false)
    (h : segment.layoutAt start = .ok found) :
    found.nodes = [] ∧ found.others = [] := by
  cases segment with
  | element opening inside closing => simp [isBlock] at hblock
  | inner event =>
      cases event with
      | emptyTag content => simp [isBlock] at hblock
      | _ =>
          simp only [layoutAt, Except.ok.injEq] at h
          rw [← h]
          exact ⟨rfl, rfl⟩
  | outer event =>
      cases event with
      | emptyTag content =>
          simp only [layoutAt] at h
          split at h <;>
            · simp only [Except.ok.injEq] at h
              rw [← h]
              exact ⟨rfl, rfl⟩
      | _ =>
          simp only [layoutAt, Except.ok.injEq] at h
          rw [← h]
          exact ⟨rfl, rfl⟩
  | _ =>
      simp only [layoutAt, Except.ok.injEq] at h
      rw [← h]
      exact ⟨rfl, rfl⟩

/-- The kind of a block that can be read is said by its tag. -/
theorem Readable.key?_eq
    {segment : Segment}
    (hblock : segment.isBlock = true)
    (h : segment.Readable) :
    exists id : Text, segment.key? = (EntryKind.ofTag? segment.tag).map fun kind => (kind, id) := by
  rcases h with ⟨found, hfound⟩
  cases segment with
  | element opening inside closing =>
      simp only [Segment.layoutAt] at hfound
      cases hkind : EntryKind.ofTag? (tagName opening) with
      | none => exact ⟨[], by simp [key?, tag, content, hkind]⟩
      | some kind =>
          rw [hkind] at hfound
          rcases Success.map_eq_ok_iff.mp hfound with ⟨node, hnode, _⟩
          rcases entry_of_elementNode hnode with ⟨_, heading, hheading, _⟩
          exact ⟨heading.id, by simp [key?, tag, content, hkind, hheading]⟩
  | inner event =>
      cases event with
      | emptyTag content =>
          simp only [Segment.layoutAt] at hfound
          cases hkind : EntryKind.ofTag? (tagName content) with
          | none => exact ⟨[], by simp [key?, tag, Segment.content, hkind]⟩
          | some kind =>
              rw [hkind] at hfound
              rcases Success.map_eq_ok_iff.mp hfound with ⟨heading, hheading, _⟩
              exact ⟨heading.id, by simp [key?, tag, Segment.content, hkind, hheading]⟩
      | _ => simp [isBlock] at hblock
  | _ => simp [isBlock] at hblock

theorem hasItems_eq_of_tag
    {segment segment' : Segment}
    (hblock : segment.isBlock = true)
    (hblock' : segment'.isBlock = true)
    (h : segment.Readable)
    (h' : segment'.Readable)
    (htag : segment'.tag = segment.tag) :
    segment'.hasItems = segment.hasItems := by
  rcases h.key?_eq hblock with ⟨id, hkey⟩
  rcases h'.key?_eq hblock' with ⟨id', hkey'⟩
  unfold hasItems Document.Block.hasItems blockAt
  simp only [hkey, hkey', htag]
  cases EntryKind.ofTag? segment.tag with
  | none => rfl
  | some kind => cases kind <;> rfl

theorem hasItems_of_tag
    {segment : Segment}
    (hblock : segment.isBlock = true)
    (hreadable : segment.Readable)
    (htag : EntryKind.ofTag? segment.tag = some .string) :
    segment.hasItems = false := by
  rcases hreadable.key?_eq hblock with ⟨id, hkey⟩
  rw [htag, Option.map_some] at hkey
  rw [hasItems, Document.Block.hasItems, blockAt, hkey]

end Segment
end AndroidStrings
