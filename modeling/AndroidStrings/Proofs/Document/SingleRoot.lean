import AndroidStrings.Proofs.Document.Group
import AndroidStrings.Proofs.Document.Structure

/-!
# Documents with one root element

Sorting takes a document apart at the tags of its root element.  Where there is one root element
only, and no declaration behind its opening tag, these parts make up the whole document.

## Main statements

- `exists_rootedRow` : a document with one root element falls into these parts.
- `layoutFrom_segments` : its layout is that of the parts.
- `Reads.commentedBlocks_eq`, `Reads.lastComments_eq` : its blocks and comments are those of the
  parts.
-/

namespace AndroidStrings

open Markup

namespace Markup.Event

def isDeclaration : Event -> Bool
  | .declaration _ => true
  | _ => false

/-- An empty tag with the name of the root element. -/
def isRootTag : Event -> Bool
  | .emptyTag content => tagName content = Reader.rootName
  | _ => false

end Markup.Event

namespace Document

/-- A text with exactly one root element, which has an end tag, and with no declaration behind the
opening tag of it. -/
def SingleRoot (text : Text) : Prop :=
  exists (front inside back : List Event) (opening closing : Text),
    (scan text).events.map Located.event =
        front ++ .startTag opening :: (inside ++ .endTag closing :: back) ∧
      (forall event, event ∈ front ++ back -> event.isLeaf = true ∧ event.isRootTag = false) ∧
      inside.foldlM openNames [] = .ok [] ∧
      forall event, event ∈ inside ++ back -> event.isDeclaration = false

end Document

/-!
# Rows with one root element
-/

/-- The parts of a document with one root element: what stands before it, its opening tag, what
stands in it, its end tag, and what stands behind it. -/
structure RootedRow where
  front : List Event
  opening : Text
  inside : List Segment
  closing : Text
  back : List Event

namespace Segment

/-- A segment of the inside of the root element that is no declaration. -/
def IsContent : Segment -> Prop
  | inner event => event.isLeaf = true ∧ event.Spelled ∧ event.isDeclaration = false
  | element opening inside closing => (Forest.element opening inside closing .nil).WellFormed
  | _ => False

theorem IsContent.fits
    {segment : Segment}
    (h : segment.IsContent) :
    segment.Fits true := by
  cases segment with
  | inner event => exact ⟨rfl, h.1, h.2.1⟩
  | element opening inside closing => exact ⟨rfl, h⟩
  | _ => exact h.elim

theorem IsContent.leads
    {segment : Segment}
    (h : segment.IsContent) :
    segment.leads true = true := by
  cases segment with
  | rootClose content => exact h.elim
  | _ => rfl

theorem IsContent.layoutAt
    {segment : Segment} {start : Nat} {found : Layout}
    (h : segment.IsContent)
    (hfound : segment.layoutAt start = .ok found) :
    found.declaration = none ∧ found.rootOpen = none ∧ found.rootClose = none := by
  cases hblock : segment.isBlock with
  | true => exact (layoutAt_of_isBlock hblock hfound).2.2
  | false =>
      cases segment with
      | inner event =>
          cases event with
          | declaration content => exact absurd h.2.2 (by simp [Event.isDeclaration])
          | emptyTag content => simp [isBlock] at hblock
          | _ =>
              simp only [Segment.layoutAt, Except.ok.injEq] at hfound
              rw [← hfound]
              exact ⟨rfl, rfl, rfl⟩
      | element opening inside closing => simp [isBlock] at hblock
      | _ => exact h.elim

end Segment

/-- What may stand outside the root element. -/
structure Markup.Event.IsBeside (event : Event) : Prop where
  leaf : event.isLeaf = true
  spelled : event.Spelled
  noRoot : event.isRootTag = false

namespace RootedRow

def segments (row : RootedRow) : List Segment :=
  row.front.map .outer ++
    .rootOpen row.opening :: (row.inside ++ .rootClose row.closing :: row.back.map .outer)

structure WellFormed (row : RootedRow) : Prop where
  front : forall event, event ∈ row.front -> event.IsBeside
  opening : (Event.startTag row.opening).Spelled ∧ tagName row.opening = Reader.rootName
  inside : forall segment, segment ∈ row.inside -> segment.IsContent
  closing : (Event.endTag row.closing).Spelled ∧ endTagName row.closing = Reader.rootName
  back : forall event, event ∈ row.back -> event.IsBeside ∧ event.isDeclaration = false

end RootedRow

namespace Segments

theorem fit_outer
    {events : List Event}
    (h : forall event, event ∈ events -> event.IsBeside) :
    Fit false (events.map .outer) ∧ leads false (events.map .outer) = false := by
  induction events with
  | nil => exact ⟨trivial, rfl⟩
  | cons event events ih =>
      have hfirst := h event (by simp)
      have hrest := ih (List.forall_mem_cons.mp h).2
      exact ⟨⟨⟨rfl, hfirst.leaf, hfirst.spelled⟩, hrest.1⟩, hrest.2⟩

theorem fit_content
    {row : List Segment}
    (h : forall segment, segment ∈ row -> segment.IsContent) :
    Fit true row ∧ leads true row = true := by
  induction row with
  | nil => exact ⟨trivial, rfl⟩
  | cons segment row ih =>
      have hfirst := h segment (by simp)
      have hrest := ih (List.forall_mem_cons.mp h).2
      constructor
      · refine ⟨hfirst.fits, ?_⟩
        rw [hfirst.leads]
        exact hrest.1
      · show leads (segment.leads true) row = true
        rw [hfirst.leads]
        exact hrest.2

theorem isContent_of_ofInside
    {forest : Forest}
    (h : forest.WellFormed)
    (hplain : forall event, event ∈ forest.events -> event.isDeclaration = false) :
    forall segment, segment ∈ ofInside forest -> segment.IsContent := by
  induction forest with
  | nil => simp [ofInside]
  | leaf event rest ih =>
      intro segment hsegment
      rcases List.mem_cons.mp hsegment with heq | hrest
      · rw [heq]
        exact ⟨h.1, h.2.1, hplain event (by simp)⟩
      · exact ih h.2.2 (List.forall_mem_cons.mp hplain).2 segment
          hrest
  | element opening inside closing rest _ ih =>
      intro segment hsegment
      rcases List.mem_cons.mp hsegment with heq | hrest
      · rw [heq]
        exact ⟨h.1, h.2.1, trivial⟩
      · apply ih h.2.2 _ segment hrest
        intro other hother
        apply hplain other
        rw [Forest.events_element]
        simp [hother]

end Segments

namespace RootedRow

theorem WellFormed.fit
    {row : RootedRow}
    (h : row.WellFormed) :
    Segments.Fit false row.segments := by
  have hfront := Segments.fit_outer h.front
  have hinside := Segments.fit_content h.inside
  have hback := Segments.fit_outer fun event hevent => (h.back event hevent).1
  rw [segments, Segments.fit_append, hfront.2]
  refine ⟨hfront.1, ⟨rfl, h.opening⟩, ?_⟩
  show Segments.Fit true _
  rw [Segments.fit_append, hinside.2]
  exact ⟨hinside.1, ⟨rfl, h.closing⟩, hback.1⟩

theorem events_outer (events : List Event) :
    Segments.events (events.map Segment.outer) = events := by
  simp [Segments.events, List.flatMap_map, Segment.events]

theorem events_segments (row : RootedRow) :
    Segments.events row.segments =
      row.front ++ .startTag row.opening ::
        (Segments.events row.inside ++ .endTag row.closing :: row.back) := by
  have hclose : Segments.events (.rootClose row.closing :: row.back.map .outer) =
      .endTag row.closing :: row.back := by
    show .endTag row.closing :: Segments.events (row.back.map .outer) = _
    rw [events_outer]
  have hopen : Segments.events (.rootOpen row.opening ::
      (row.inside ++ .rootClose row.closing :: row.back.map .outer)) =
        .startTag row.opening ::
          (Segments.events row.inside ++ .endTag row.closing :: row.back) := by
    rw [← hclose, ← Segments.events_append]
    rfl
  rw [segments, Segments.events_append, events_outer, hopen]

end RootedRow

/-!
# The row of a document
-/

namespace Markup.Forest

/-- A forest that begins with the given leaves. -/
def leaves (events : List Event) (rest : Forest) : Forest :=
  events.foldr .leaf rest

@[simp] theorem events_leaves (events : List Event) (rest : Forest) :
    (leaves events rest).events = events ++ rest.events := by
  induction events with
  | nil => rfl
  | cons event events ih =>
      show event :: (leaves events rest).events = _
      rw [ih, List.cons_append]

theorem wellFormed_leaves
    {events : List Event} {rest : Forest}
    (h : forall event, event ∈ events -> event.isLeaf = true ∧ event.Spelled)
    (hrest : rest.WellFormed) :
    (leaves events rest).WellFormed := by
  induction events with
  | nil => exact hrest
  | cons event events ih =>
      have hfirst := h event (by simp)
      exact ⟨hfirst.1, hfirst.2,
        ih (List.forall_mem_cons.mp h).2⟩

theorem hasRootsOnly_of_leaves
    {events : List Event} {rest : Forest}
    (h : Segments.HasRootsOnly (leaves events rest)) :
    Segments.HasRootsOnly rest := by
  induction events with
  | nil => exact h
  | cons event events ih => exact ih h

end Markup.Forest

namespace Cursor

theorem foldlM_openNames_leaves
    {events : List Event}
    (h : forall event, event ∈ events -> event.isLeaf = true)
    (opened : List Text) :
    events.foldlM openNames opened = .ok opened := by
  induction events with
  | nil => rfl
  | cons event events ih =>
      rw [List.foldlM_cons, openNames_leaf (h event (by simp))]
      exact ih (List.forall_mem_cons.mp h).2

/-- The one element that is not closed in itself is closed by the tag behind it. -/
theorem endTagName_of_foldlM_openNames
    {front back : List Event} {opening closing : Text} {forest : Forest} {opened : List Text}
    (hfront : forall event, event ∈ front -> event.isLeaf = true)
    (hforest : forest.WellFormed)
    (h : (front ++ .startTag opening :: (forest.events ++ .endTag closing :: back)).foldlM
      openNames [] = .ok opened) :
    endTagName closing = tagName opening := by
  rw [List.foldlM_append, foldlM_openNames_leaves hfront] at h
  rcases Success.bind_eq_ok_iff.mp h with ⟨names, hnames, hafterFront⟩
  rw [Except.ok.injEq] at hnames
  rw [← hnames, List.foldlM_cons] at hafterFront
  rcases Success.bind_eq_ok_iff.mp hafterFront with ⟨inner, hinner, hafterTag⟩
  rw [openNames, Except.ok.injEq] at hinner
  rw [← hinner, List.foldlM_append, foldlM_openNames_forest hforest] at hafterTag
  rcases Success.bind_eq_ok_iff.mp hafterTag with ⟨still, hstill, hafterForest⟩
  rw [Except.ok.injEq] at hstill
  rw [← hstill, List.foldlM_cons] at hafterForest
  rcases Success.bind_eq_ok_iff.mp hafterForest with ⟨outer, houter, _⟩
  simp only [openNames] at houter
  split at houter
  · rename_i hsame
    exact hsame.symm
  · simp at houter

end Cursor

namespace Document

/-- The events of a document can be read. -/
theorem exists_foldlM_of_parse
    {text : Text} {document : Document}
    (hplain : PlainStart text)
    (h : parse text = .ok document) :
    exists cursor : Cursor,
      ((scan text).events.map Located.event).foldlM (Cursor.advance text) Cursor.start =
        .ok cursor := by
  rcases spelled_of_parse hplain h with ⟨hspelled, hspell⟩
  rw [parse_eq_of_spell hplain hspelled hspell] at h
  rcases Success.map_eq_ok_iff.mp h with ⟨layout, hread, _⟩
  rcases Success.bind_eq_ok_iff.mp hread with ⟨cursor, hfold, _⟩
  exact ⟨cursor, hfold⟩

/-- The events of a document with one root element are those of a row. -/
theorem exists_rootedRow_events
    {text : Text} {document : Document}
    (hplain : PlainStart text)
    (hparse : parse text = .ok document)
    (hsingle : SingleRoot text) :
    exists row : RootedRow,
      row.WellFormed ∧ Segments.events row.segments = (scan text).events.map Located.event := by
  rcases hsingle with ⟨front, inside, back, opening, closing, hevents, hbeside, hinside, hnone⟩
  have hspelled := (spelled_of_parse hplain hparse).1
  rcases exists_foldlM_of_parse hplain hparse with ⟨cursor, hfold⟩
  rw [hevents] at hspelled hfold ⊢
  have hleaf : forall event, event ∈ front ++ back -> event.isLeaf = true ∧ event.Spelled := by
    intro event hevent
    refine ⟨(hbeside event hevent).1, hspelled event ?_⟩
    rcases List.mem_append.mp hevent with hmem | hmem <;> simp [hmem]
  -- What stands in the root element closes all its elements, so it is a forest.
  have hinsideSpelled : forall event, event ∈ inside -> event.Spelled := by
    intro event hevent
    exact hspelled event (by simp [hevent])
  have hnoElement : forall element, element ∈ ([] : List OpenElement) -> element.WellFormed := by
    simp
  have hnoForest : Forest.nil.WellFormed := trivial
  rcases exists_openEvents_of_openNames hinsideSpelled hnoElement hnoForest hinside with
    ⟨opened, forest, hforest, hopened, _, hwell⟩
  rw [List.map_eq_nil_iff.mp hopened.symm] at hforest
  have hforestEvents : inside = forest.events := hforest
  subst hforestEvents
  have hopeningSpelled : (Event.startTag opening).Spelled := hspelled _ (by simp)
  have hclosingSpelled : (Event.endTag closing).Spelled := hspelled _ (by simp)
  have hname : endTagName closing = tagName opening :=
    Cursor.endTagName_of_foldlM_openNames
      (fun event hevent => (hleaf event (List.mem_append_left _ hevent)).1) hwell
      (Cursor.openNames_of_foldlM_advance hfold)
  have hall : (Forest.leaves front
      (.element opening forest closing (.leaves back .nil))).WellFormed := by
    apply Forest.wellFormed_leaves (fun event hevent => hleaf event (by simp [hevent]))
    exact ⟨⟨hopeningSpelled, hclosingSpelled, hname⟩, hwell,
      Forest.wellFormed_leaves (fun event hevent => hleaf event (by simp [hevent])) trivial⟩
  have hroot : tagName opening = Reader.rootName := by
    have hwhole : ((Forest.leaves front (.element opening forest closing
        (.leaves back .nil))).events ++ []).foldlM (Cursor.advance text) Cursor.start =
          .ok cursor := by
      simpa using hfold
    have hroots := Cursor.hasRootsOnly_of_foldlM hall (rfl : Cursor.start.Level) rfl hwhole
    exact (Forest.hasRootsOnly_of_leaves hroots).1
  refine ⟨⟨front, opening, Segments.ofInside forest, closing, back⟩, ?_, ?_⟩
  · constructor
    · intro event hevent
      have hmem : event ∈ front ++ back := List.mem_append_left _ hevent
      exact ⟨(hleaf event hmem).1, (hleaf event hmem).2, (hbeside event hmem).2⟩
    · exact ⟨hopeningSpelled, hroot⟩
    · exact Segments.isContent_of_ofInside hwell
        (fun event hevent => hnone event (List.mem_append_left _ hevent))
    · exact ⟨hclosingSpelled, by rw [hname, hroot]⟩
    · intro event hevent
      have hmem : event ∈ front ++ back := List.mem_append_right _ hevent
      exact ⟨⟨(hleaf event hmem).1, (hleaf event hmem).2, (hbeside event hmem).2⟩,
        hnone event (List.mem_append_right _ hevent)⟩
  · rw [RootedRow.events_segments, Segments.events_ofInside]

/-- A document with one root element falls into the parts of a row. -/
theorem exists_rootedRow
    {text : Text} {document : Document}
    (hplain : PlainStart text)
    (hparse : parse text = .ok document)
    (hsingle : SingleRoot text) :
    exists row : RootedRow, row.WellFormed ∧ Segments.raw row.segments = text := by
  rcases exists_rootedRow_events hplain hparse hsingle with ⟨row, hrow, hevents⟩
  refine ⟨row, hrow, ?_⟩
  rw [← Segments.spell_events, hevents, (spelled_of_parse hplain hparse).2]

end Document

/-!
# The layout of the parts
-/

namespace Segments

/-- The place of the last declaration among events. -/
def declarationFrom (start : Nat) : List Event -> Option Span
  | [] => none
  | event :: rest =>
      (declarationFrom (start + event.raw.size) rest).or
        (if event.isDeclaration then some ⟨start, start + event.raw.size⟩ else none)

theorem layoutFrom_outer
    {events : List Event}
    (h : forall event, event ∈ events -> event.isRootTag = false)
    (start : Nat) :
    layoutFrom start (events.map .outer) = .ok { declaration := declarationFrom start events } := by
  induction events generalizing start with
  | nil => rfl
  | cons event events ih =>
      have hfirst : (Segment.outer event).layoutAt start =
          .ok { declaration :=
            if event.isDeclaration then some ⟨start, start + event.raw.size⟩ else none } := by
        have hroot := h event (by simp)
        cases event with
        | emptyTag content =>
            have hname : tagName content ≠ Reader.rootName := by
              simpa [Event.isRootTag] using hroot
            simp [Segment.layoutAt, hname, Event.isDeclaration]
        | _ => simp [Segment.layoutAt, Event.isDeclaration]
      rw [List.map_cons, layoutFrom, hfirst]
      rw [Segment.raw_outer]
      rw [ih (List.forall_mem_cons.mp h).2]
      simp [Except.map, Layout.append_def, declarationFrom]

theorem declarationFrom_of_none
    {events : List Event}
    (h : forall event, event ∈ events -> event.isDeclaration = false)
    (start : Nat) :
    declarationFrom start events = none := by
  induction events generalizing start with
  | nil => rfl
  | cons event events ih =>
      rw [declarationFrom, ih (List.forall_mem_cons.mp h).2,
        h event (by simp)]
      rfl

theorem declarationFrom_append
    {front back : List Event} {content : Text}
    (h : forall event, event ∈ back -> event.isDeclaration = false)
    (start : Nat) :
    declarationFrom start (front ++ .declaration content :: back) =
      some ⟨start + (spell front).size,
        start + (spell front).size + (Event.declaration content).raw.size⟩ := by
  induction front generalizing start with
  | nil =>
      rw [List.nil_append, declarationFrom, declarationFrom_of_none h]
      rfl
  | cons event front ih =>
      rw [List.cons_append, declarationFrom, ih, Option.some_or, spell_cons, Text.size_append]
      simp [Nat.add_assoc]

theorem layoutFrom_content
    {row : List Segment} {start : Nat} {found : Layout}
    (h : forall segment, segment ∈ row -> segment.IsContent)
    (hfound : layoutFrom start row = .ok found) :
    found.declaration = none ∧ found.rootOpen = none ∧ found.rootClose = none := by
  induction row generalizing start found with
  | nil =>
      simp only [layoutFrom, Except.ok.injEq] at hfound
      rw [← hfound]
      exact ⟨rfl, rfl, rfl⟩
  | cons segment row ih =>
      rcases exists_layouts_of_cons hfound with ⟨first, others, hfirst, hothers, heq⟩
      have hsegment := (h segment (by simp)).layoutAt hfirst
      have hrest := ih (List.forall_mem_cons.mp h).2 hothers
      rw [← heq]
      simp [Layout.append_def, hsegment.1, hsegment.2.1, hsegment.2.2, hrest.1, hrest.2.1,
        hrest.2.2]

end Segments

namespace RootedRow

/-- The place at which the inside of the root element begins. -/
def insideStart (row : RootedRow) : Nat :=
  (spell row.front).size + (Event.startTag row.opening).raw.size

theorem raw_outer (events : List Event) : Segments.raw (events.map .outer) = spell events := by
  simp [Segments.raw, spell, List.flatMap_map]

theorem raw_segments (row : RootedRow) :
    Segments.raw row.segments = spell row.front ++ (Event.startTag row.opening).raw ++
      Segments.raw row.inside ++ ((Event.endTag row.closing).raw ++ spell row.back) := by
  simp [segments, raw_outer]

/-- The layout of a row is that of its inside, with the declaration and the root tags. -/
theorem layoutFrom_segments
    {row : RootedRow}
    (h : row.WellFormed) :
    exists closing : Span,
      Segments.layoutFrom 0 row.segments =
        (Segments.layoutFrom row.insideStart row.inside).map fun found =>
          { found with
            declaration := Segments.declarationFrom 0 row.front
            rootOpen := some ⟨(spell row.front).size, row.insideStart⟩
            rootClose := some closing } := by
  have hfront := Segments.layoutFrom_outer (fun event hevent => (h.front event hevent).noRoot) 0
  have hback := Segments.layoutFrom_outer fun event hevent => (h.back event hevent).1.noRoot
  have hplain := Segments.declarationFrom_of_none fun event hevent => (h.back event hevent).2
  let stop := row.insideStart + (Segments.raw row.inside).size
  refine ⟨⟨stop, stop + (Segment.rootClose row.closing).raw.size⟩, ?_⟩
  rw [segments, Segments.layoutFrom_append, hfront]
  simp only [Segments.layoutFrom, Segment.layoutAt, Segments.layoutFrom_append, raw_outer,
    Nat.zero_add, Segment.raw_rootOpen]
  have hstart : (spell row.front).size + (Event.startTag row.opening).raw.size =
      row.insideStart := rfl
  rw [hstart]
  cases hinside : Segments.layoutFrom row.insideStart row.inside with
  | error e => rfl
  | ok found =>
      have hfound := Segments.layoutFrom_content h.inside hinside
      simp only [hback, hplain, Except.map]
      simp [Layout.append_def, hfound.1, hfound.2.1, insideStart, stop]

/-!
# What sorting reads off a row
-/

section Parsed

variable {row : RootedRow} {document : Document}

/-- What is read of the text of a row. -/
structure Reads (row : RootedRow) (document : Document) : Prop where
  text : document.text = Segments.raw row.segments
  declaration : document.layout.declaration = Segments.declarationFrom 0 row.front
  rootOpen : document.layout.rootOpen = some ⟨(spell row.front).size, row.insideStart⟩
  rootClose : exists closing : Span, document.layout.rootClose = some closing
  inside : exists found : Layout,
    Segments.layoutFrom row.insideStart row.inside = .ok found ∧
      document.layout.nodes = found.nodes ∧ document.layout.comments = found.comments ∧
      document.layout.others = found.others

theorem reads_of_parse
    (h : row.WellFormed)
    (hplain : Document.PlainStart (Segments.raw row.segments))
    (hparse : Document.parse (Segments.raw row.segments) = .ok document) :
    row.Reads document := by
  have htext := Document.text_of_parse hparse
  rcases layoutFrom_segments h with ⟨closing, hlayout⟩
  rw [Document.parse_raw hplain h.fit, hlayout] at hparse
  rcases Success.map_eq_ok_iff.mp hparse with ⟨layout, hmap, heq⟩
  rcases Success.map_eq_ok_iff.mp hmap with ⟨found, hfound, hlayoutEq⟩
  rw [← heq, ← hlayoutEq]
  exact ⟨rfl, rfl, rfl, ⟨closing, rfl⟩, found, hfound, rfl, rfl, rfl⟩

/-- The text of a row is a document if its inside can be read. -/
theorem exists_document_of_inside
    {found : Layout}
    (h : row.WellFormed)
    (hplain : Document.PlainStart (Segments.raw row.segments))
    (hfound : Segments.layoutFrom row.insideStart row.inside = .ok found) :
    exists document : Document, Document.parse (Segments.raw row.segments) = .ok document := by
  rcases layoutFrom_segments h with ⟨closing, hlayout⟩
  rw [Document.parse_raw hplain h.fit, hlayout, hfound]
  exact ⟨_, rfl⟩

theorem Reads.blocks_eq
    (h : row.Reads document) :
    document.blocks = Segments.blocksFrom row.insideStart row.inside := by
  rcases h.inside with ⟨found, hfound, hnodes, _, hothers⟩
  have hperm := (Segments.blocks_perm_of_layoutFrom hfound).1
  have hblocks : document.layout.blocks = found.blocks := by
    simp only [Layout.blocks, hnodes, hothers]
  exact Document.blocks_eq_blocksFrom (hblocks ▸ hperm)

theorem Reads.commentsAt
    (h : row.Reads document) :
    document.CommentsAt 0 row.insideStart [] row.inside := by
  rcases h.inside with ⟨found, hfound, _, hcomments, _⟩
  have hall := (Segments.blocks_perm_of_layoutFrom hfound).2
  exact ⟨[], [], by simpa [hcomments] using hall, by simp, by simp, rfl⟩

theorem Reads.text_inside
    (h : row.Reads document) :
    document.text = (spell row.front ++ (Event.startTag row.opening).raw) ++
      Segments.raw row.inside ++ ((Event.endTag row.closing).raw ++ spell row.back) := by
  rw [h.text, raw_segments]

theorem insideStart_eq (row : RootedRow) :
    row.insideStart = (spell row.front ++ (Event.startTag row.opening).raw).size := by
  rw [insideStart, Text.size_append]

/-- The blocks of a document with their comments are the groups of its row. -/
theorem Reads.commentedBlocks_eq
    (h : row.Reads document) :
    document.commentedBlocks = (Segments.groups [] row.inside).map Group.commented := by
  rw [Document.commentedBlocks, h.blocks_eq]
  exact Document.commentedBlocksFrom_eq h.commentsAt h.text_inside row.insideStart_eq
    (Nat.zero_le _)

theorem Reads.writeBlocks_eq
    (h : row.Reads document)
    (ending : LineEnding) :
    document.writeBlocks ending.text 0 document.blocks =
      (Segments.groups [] row.inside).map (Group.write ending) := by
  have hblocks := h.commentedBlocks_eq
  rw [Document.commentedBlocks] at hblocks
  rw [Document.writeBlocks_eq_map_write, hblocks, List.map_map]
  apply List.map_congr_left
  intro group _
  exact write_commented ending group

theorem Reads.lastComments_eq
    (h : row.Reads document) :
    document.lastComments =
      (Segments.below [] row.inside).map fun content => (Event.comment content).raw := by
  have hbelow := Document.belowComments_eq h.commentsAt h.text_inside row.insideStart_eq
    (Nat.zero_le _)
  rw [Document.lastComments, h.blocks_eq, ← hbelow]
  congr 2
  funext comment
  unfold Document.lastStop
  cases (Segments.blocksFrom row.insideStart row.inside).getLast? <;> rfl

end Parsed

end RootedRow
end AndroidStrings
