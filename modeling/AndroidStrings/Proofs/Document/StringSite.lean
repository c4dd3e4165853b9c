import AndroidStrings.Proofs.Document.NodeSplit
import AndroidStrings.Proofs.Document.SelfClosing

/-!
# Where a string stands

The first string of an id stands between two rows of segments, in a start tag and an end tag.  An
element that closes itself has neither, but it is given both when a value is stored in it, so it
is seen as the element that it becomes.

## Main statements

- `StringSite.exists_of_laidOut` : the place of a string in the row of its document.
- `StringSite.exists_of_contains` : every string of a document stands somewhere.
-/

namespace AndroidStrings

open Markup

namespace Segment

theorem string_of_elementNode
    {start : Nat} {opening closing : Text} {inside : Forest} {node : Node}
    (h : elementNode .string start opening inside closing = .ok node) :
    exists heading : Heading,
      Heading.ofTag .string opening = .ok heading ∧
        node =
          { entry := ⟨heading.id, .singular inside.raw, heading.translatable⟩
            outer := ⟨start, start + (element opening inside closing).raw.size⟩
            inner := ⟨start + (Event.startTag opening).raw.size,
              start + (Event.startTag opening).raw.size + inside.raw.size⟩
            selfClosing := false
            items := [] } := by
  unfold elementNode at h
  split at h
  · simp at h
  · rename_i heading hheading
    refine ⟨heading, hheading, ?_⟩
    simp only [Except.ok.injEq] at h
    rw [← h]
    simp [Nat.add_assoc]

/-- The segment with a forest for its value; an element that closes itself is given tags. -/
def withInside (inside : Forest) : Segment -> Segment
  | element opening _ closing => element opening inside closing
  | inner (.emptyTag content) =>
      element (Text.trimEnd isSpace content) inside EntryKind.string.tag
  | segment => segment

theorem withInside_withInside (first last : Forest) (segment : Segment) :
    (segment.withInside first).withInside last = segment.withInside last := by
  cases segment with
  | inner event => cases event <;> rfl
  | _ => rfl

/-- A value leaves the key, which is in the tag that the segment begins with. -/
theorem key?_withInside
    {segment : Segment} {key : EntryKind.Key}
    (h : segment.key? = some key)
    (inside : Forest) :
    (segment.withInside inside).key? = some key := by
  cases segment with
  | inner event =>
      cases event with
      | emptyTag content =>
          simp only [withInside, key?, tag, Segment.content, (tagName_trimEnd content).1] at h ⊢
          split at h
          · cases h
          · rename_i kind _
            cases hheading : Heading.ofTag kind content with
            | error fault => simp [hheading] at h
            | ok heading =>
                rw [hheading] at h
                rw [(Heading.ofTag_trimEnd hheading).1]
                exact h
      | _ => exact h
  | _ => exact h

end Segment

/-!
# Sites
-/

/-- A place for a string: a start tag with a heading and an end tag, and what stands around
them. -/
structure StringSite where
  front : List Segment
  opening : Text
  closing : Text
  back : List Segment
  heading : Heading
  before : Layout
  after : Layout
  fit_front : Segments.Fit false front
  inRoot : Segments.leads false front = true
  fit_back : Segments.Fit true back
  spelled_opening : (Event.startTag opening).Spelled
  spelled_closing : (Event.endTag closing).Spelled
  closes : endTagName closing = tagName opening
  named : tagName opening = EntryKind.string.tag
  headed : Heading.ofTag .string opening = .ok heading
  reads_front : Segments.layoutFrom 0 front = .ok before
  reads_back : Segments.layoutFrom 0 back = .ok after

namespace StringSite

/-- The text with a value at the place. -/
def textWith (site : StringSite) (stored : Text) : Text :=
  Segments.raw site.front ++ (Event.startTag site.opening).raw ++ stored ++
    (Event.endTag site.closing).raw ++ Segments.raw site.back

/-- The entry at the place, when it has a value. -/
def entryWith (site : StringSite) (stored : Text) : Entry :=
  ⟨site.heading.id, .singular stored, site.heading.translatable⟩

def isString (id : Text) (node : Node) : Bool :=
  node.kind == .string && node.id == id

/-- The place is where the first string of an id stands in a document. -/
structure Locates (site : StringSite) (document : Document) (id : Text) : Prop where
  id_eq : site.heading.id = id
  first : site.before.nodes.find? (isString id) = none
  entries : exists value : Text,
    document.entries = site.before.nodes.map Node.entry ++
      site.entryWith value :: site.after.nodes.map Node.entry
  plain : forall stored : Text, Document.PlainStart (site.textWith stored)
  replaceString_eq : forall stored : Text,
    document.replaceString id stored = Document.parse (site.textWith stored)

theorem plainStart_exchange
    {front back back' : Text} {c : Char}
    (h : Document.PlainStart (front ++ c :: back)) :
    Document.PlainStart (front ++ c :: back') := by
  cases front with
  | nil => exact h
  | cons d front => exact h

section Replacing

variable {document : Document} {id front back : Text} {node : Node}

theorem replaceString_of_element
    {opening closing inside : Text}
    (hfind : document.find? .string id = some node)
    (htext : document.text =
      front ++ (Event.startTag opening).raw ++ inside ++ (Event.endTag closing).raw ++ back)
    (hinner : node.inner = ⟨front.size + (Event.startTag opening).raw.size,
      front.size + (Event.startTag opening).raw.size + inside.size⟩)
    (hopen : node.selfClosing = false)
    (stored : Text) :
    document.replaceString id stored = Document.parse
      (front ++ (Event.startTag opening).raw ++ stored ++ (Event.endTag closing).raw ++ back) := by
  have hsplice := Text.splice_append (front ++ (Event.startTag opening).raw) inside
    ((Event.endTag closing).raw ++ back) stored
  rw [Text.size_append, ← hinner] at hsplice
  simp only [Document.replaceString, hfind, hopen, Bool.false_eq_true, if_false, Document.splice,
    htext]
  rw [List.append_assoc _ _ back, hsplice, List.append_assoc _ _ back]

theorem replaceString_of_emptyTag
    {content : Text} {heading : Heading}
    (hfind : document.find? .string id = some node)
    (htext : document.text = front ++ (Event.emptyTag content).raw ++ back)
    (houter : node.outer = ⟨front.size, front.size + (Event.emptyTag content).raw.size⟩)
    (hclosed : node.selfClosing = true)
    (hheading : Heading.ofTag .string content = .ok heading)
    (stored : Text) :
    document.replaceString id stored = Document.parse
      (front ++ (Event.startTag (Text.trimEnd isSpace content)).raw ++ stored ++
        (Event.endTag EntryKind.string.tag).raw ++ back) := by
  have hslice : document.slice node.outer = (Event.emptyTag content).raw := by
    rw [Document.slice, htext, houter, Text.slice_append]
  simp only [Document.replaceString, hfind, hclosed, if_true]
  rw [hslice, Document.expandedString_raw hheading, Document.splice, htext, houter,
    Text.splice_append]
  simp only [List.append_assoc]

end Replacing

section Split

variable {document : Document} {id : Text} {node : Node} {front back : List Segment}
  {before after : Layout} {heading : Heading}

theorem exists_of_element
    {opening closing : Text} {inside : Forest} {outer : Span}
    (hplain : Document.PlainStart document.text)
    (hfind : document.find? .string id = some node)
    (h : document.NodeSplit (isString id) node front (.element opening inside closing) back
      before after)
    (hname : tagName opening = EntryKind.string.tag)
    (hheading : Heading.ofTag .string opening = .ok heading)
    (hnode : node =
      { entry := ⟨heading.id, .singular inside.raw, heading.translatable⟩
        outer := outer
        inner := ⟨(Segments.raw front).size + (Event.startTag opening).raw.size,
          (Segments.raw front).size + (Event.startTag opening).raw.size + inside.raw.size⟩
        selfClosing := false
        items := [] }) :
    exists site : StringSite,
      site.Locates document id ∧ site.front = front ∧ site.back = back ∧
        forall forest : Forest, (Segment.element opening inside closing).withInside forest =
          .element site.opening forest site.closing := by
  rcases Segments.exists_layoutFrom h.reads_back 0 with ⟨after', hafter, hsame⟩
  have hpieces : document.text = Segments.raw front ++ (Event.startTag opening).raw ++
      inside.raw ++ (Event.endTag closing).raw ++ Segments.raw back := by
    rw [h.text]
    simp
  let site : StringSite :=
    { front, opening, closing, back, heading, before
      after := after'
      fit_front := h.fit_front
      inRoot := h.inRoot
      fit_back := h.fit_back
      spelled_opening := h.fits.2.1.1
      spelled_closing := h.fits.2.1.2.1
      closes := h.fits.2.1.2.2
      named := hname
      headed := hheading
      reads_front := h.reads_front
      reads_back := hafter }
  refine ⟨site, ⟨?_, h.first, ⟨inside.raw, ?_⟩, ?_, ?_⟩, rfl, rfl, fun _ => rfl⟩
  · rw [← (Document.matches_of_find? hfind).2, hnode]
    rfl
  · rw [Document.entries, h.nodes, List.map_append, List.map_cons, ← hsame, hnode]
    rfl
  · intro stored
    rw [hpieces] at hplain
    simp only [textWith, Event.raw, List.cons_append, List.append_assoc] at hplain ⊢
    exact plainStart_exchange hplain
  · intro stored
    apply replaceString_of_element hfind hpieces
    · rw [hnode]
    · rw [hnode]

/-- An element that closes itself stands where it is once it has tags. -/
theorem exists_of_emptyTag
    {content : Text}
    (hplain : Document.PlainStart document.text)
    (hfind : document.find? .string id = some node)
    (h : document.NodeSplit (isString id) node front (.inner (.emptyTag content)) back before
      after)
    (hname : tagName content = EntryKind.string.tag)
    (hheading : Heading.ofTag .string content = .ok heading)
    (hnode : node = Reader.Node.ofEmptyTag heading
      ⟨(Segments.raw front).size, (Segments.raw front).size + (Event.emptyTag content).raw.size⟩) :
    exists site : StringSite,
      site.Locates document id ∧ site.front = front ∧ site.back = back ∧
        forall forest : Forest, (Segment.inner (.emptyTag content)).withInside forest =
          .element site.opening forest site.closing := by
  rcases Segments.exists_layoutFrom h.reads_back 0 with ⟨after', hafter, hsame⟩
  have hname' := (tagName_trimEnd content).1.trans hname
  have htext := h.text
  rw [Segment.raw_inner] at htext
  let site : StringSite :=
    { front, back, heading, before
      after := after'
      opening := Text.trimEnd isSpace content
      closing := EntryKind.string.tag
      fit_front := h.fit_front
      inRoot := h.inRoot
      fit_back := h.fit_back
      spelled_opening := Document.spelled_startTag_trimEnd h.fits.2.2 hname hheading
      spelled_closing := spelled_endTag_of_isName ⟨by decide, by decide⟩
      closes := hname'.symm
      named := hname'
      headed := (Heading.ofTag_trimEnd hheading).1
      reads_front := h.reads_front
      reads_back := hafter }
  refine ⟨site, ⟨?_, h.first, ⟨[], ?_⟩, ?_, ?_⟩, rfl, rfl, fun _ => rfl⟩
  · rw [← (Document.matches_of_find? hfind).2, hnode]
    rfl
  · rw [Document.entries, h.nodes, List.map_append, List.map_cons, ← hsame, hnode]
    have hkind := Segment.kind_of_heading hheading
    simp [Reader.Node.ofEmptyTag, Reader.emptyValue, hkind, entryWith, site]
  · intro stored
    rw [htext] at hplain
    simp only [textWith, Event.raw, List.cons_append, List.append_assoc] at hplain ⊢
    exact plainStart_exchange hplain
  · intro stored
    apply replaceString_of_emptyTag hfind htext
    · rw [hnode]
      rfl
    · rw [hnode]
      rfl
    · exact hheading

end Split

/-- The first string of an id stands in the place of a block of the row. -/
theorem exists_of_laidOut
    {document : Document} {row : List Segment} {id : Text}
    (h : document.LaidOut row)
    (hcontains : document.contains .string id = true) :
    exists (site : StringSite) (segment : Segment),
      site.Locates document id ∧ row = site.front ++ segment :: site.back ∧
        segment.isBlock = true ∧ segment.key? = some (.string, id) ∧
        forall forest : Forest,
          segment.withInside forest = .element site.opening forest site.closing := by
  rcases Option.isSome_iff_exists.mp hcontains with ⟨node, hfind⟩
  have hmatch := Document.matches_of_find? hfind
  have hfirst : document.nodes.find? (isString id) = some node := hfind
  rcases h.exists_nodeSplit hfirst with ⟨front, segment, back, before, after, hrow, hsplit⟩
  rcases hsplit.form with ⟨opening, inside, closing, hsegment, hname, hmade⟩ |
    ⟨content, heading, hsegment, hname, hheading, hnode⟩
  · subst hsegment
    rw [hmatch.1] at hname hmade
    rcases Segment.string_of_elementNode hmade with ⟨heading, hheading, hnode⟩
    rcases exists_of_element h.plain hfind hsplit hname hheading hnode with
      ⟨site, hsite, hfront, hback, hinside⟩
    refine ⟨site, _, hsite, by rw [hfront, hback, hrow], rfl, ?_, hinside⟩
    rw [← hmatch.2, hnode]
    simp only [Segment.key?, Segment.tag, Segment.content, hname, EntryKind.ofTag?_tag, hheading]
    rfl
  · subst hsegment
    rw [hmatch.1] at hname hheading
    rcases exists_of_emptyTag h.plain hfind hsplit hname hheading hnode with
      ⟨site, hsite, hfront, hback, hinside⟩
    refine ⟨site, _, hsite, by rw [hfront, hback, hrow], rfl, ?_, hinside⟩
    rw [← hmatch.2, hnode]
    simp only [Segment.key?, Segment.tag, Segment.content, hname, EntryKind.ofTag?_tag, hheading]
    rfl

/-- Every string of a document stands somewhere. -/
theorem exists_of_contains
    {text id : Text} {document : Document}
    (hplain : Document.PlainStart text)
    (hparse : Document.parse text = .ok document)
    (hcontains : document.contains .string id = true) :
    exists site : StringSite, site.Locates document id := by
  have htext := Document.text_of_parse hparse
  rcases Document.exists_laidOut (htext ▸ hplain) (htext ▸ hparse) with ⟨row, hrow⟩
  rcases exists_of_laidOut hrow hcontains with ⟨site, _, hsite, _⟩
  exact ⟨site, hsite⟩

end StringSite
end AndroidStrings
