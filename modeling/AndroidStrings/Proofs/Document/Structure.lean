import AndroidStrings.Proofs.Document.Decomposition
import AndroidStrings.Proofs.Success

/-!
# The segments of a document

How many elements are open decides where the reader is, so what a scan lets through and the
reader accepts has the root element at the top and nothing else open at the end.

## Main statement

`exists_segments_of_parse` : every document is the text of a row of segments that fit.
-/

namespace AndroidStrings

open Markup

namespace Cursor

def depthOf : Place -> Nat
  | .outside => 0
  | .root => 1
  | .other _ _ depth => depth + 2
  | .string _ depth => depth + 2
  | .items _ _ => 2
  | .item _ _ _ depth => depth + 3
  | .foreign _ _ _ depth => depth + 3

/-- The reader is as deep as elements are open. -/
def Level (cursor : Cursor) : Prop :=
  depthOf cursor.reader.place = cursor.opened.length

theorem length_of_openNames
    {opened names : List Text} {event : Event}
    (h : openNames opened event = .ok names) :
    match event with
    | .startTag _ => names.length = opened.length + 1
    | .endTag _ => opened.length = names.length + 1
    | _ => names.length = opened.length := by
  cases event with
  | startTag content =>
      simp only [openNames, Except.ok.injEq] at h
      simp [← h]
  | endTag content =>
      cases opened with
      | nil => simp [openNames] at h
      | cons innermost outer =>
          simp only [openNames] at h
          split at h
          · simp only [Except.ok.injEq] at h
            simp [h]
          · simp at h
  | _ =>
      simp only [openNames, Except.ok.injEq] at h
      simp [h]

theorem bodyDepth?_some
    {depth deeper : Nat} {event : Event} {opened names : List Text}
    (hnames : openNames opened event = .ok names)
    (h : Reader.bodyDepth? depth event = some deeper) :
    deeper + opened.length = depth + names.length := by
  have hlength := length_of_openNames hnames
  cases event with
  | endTag content =>
      cases depth with
      | zero => simp [Reader.bodyDepth?] at h
      | succ outer =>
          simp only [Reader.bodyDepth?, Option.some.injEq] at h
          simp only at hlength
          omega
  | _ =>
      simp only [Reader.bodyDepth?, Option.some.injEq] at h
      simp only at hlength
      omega

theorem bodyDepth?_none
    {depth : Nat} {event : Event} {opened names : List Text}
    (hnames : openNames opened event = .ok names)
    (h : Reader.bodyDepth? depth event = none) :
    depth = 0 ∧ opened.length = names.length + 1 := by
  have hlength := length_of_openNames hnames
  cases event with
  | endTag content =>
      cases depth with
      | zero => exact ⟨rfl, hlength⟩
      | succ outer => simp [Reader.bodyDepth?] at h
  | _ => simp [Reader.bodyDepth?] at h

theorem depthOf_of_step
    {text : Text} {reader moved : Reader} {event : Event} {span : Span} {opened names : List Text}
    (hlevel : depthOf reader.place = opened.length)
    (hnames : openNames opened event = .ok names)
    (hstep : reader.step text ⟨event, span⟩ = .ok moved) :
    depthOf moved.place = names.length := by
  have hlength := length_of_openNames hnames
  unfold Reader.step at hstep
  cases hplace : reader.place with
  | outside =>
      simp only [hplace, depthOf] at hstep hlevel
      cases event <;> simp only [Reader.stepOutside] at hstep hlength
      all_goals
        repeat' split at hstep
        all_goals simp only [Except.ok.injEq, reduceCtorEq] at hstep
        all_goals rw [← hstep]
        all_goals simp only [depthOf, hplace]
        all_goals omega
  | root =>
      simp only [hplace, depthOf] at hstep hlevel
      cases event <;> simp only [Reader.stepRoot] at hstep hlength
      all_goals
        repeat' split at hstep
        all_goals simp only [Except.ok.injEq, reduceCtorEq] at hstep
        all_goals rw [← hstep]
        all_goals simp only [depthOf, hplace, Reader.moveTo, Reader.addNode, Reader.addOther,
          Reader.addComment]
        all_goals omega
  | items entry found =>
      simp only [hplace, depthOf] at hstep hlevel
      cases event <;> simp only [Reader.stepItems] at hstep hlength
      all_goals
        repeat' split at hstep
        all_goals simp only [Except.ok.injEq, reduceCtorEq] at hstep
        all_goals rw [← hstep]
        all_goals simp only [depthOf, hplace, Reader.moveTo, Reader.addNode]
        all_goals omega
  | _ =>
      simp only [hplace, depthOf] at hstep hlevel
      split at hstep
      · rename_i deeper hdeeper
        have hbody := bodyDepth?_some hnames hdeeper
        simp only [Except.ok.injEq] at hstep
        rw [← hstep]
        simp only [depthOf, Reader.moveTo]
        omega
      · rename_i hdone
        have hbody := bodyDepth?_none hnames hdone
        simp only [Except.ok.injEq] at hstep
        rw [← hstep]
        simp only [depthOf, Reader.moveTo, Reader.addNode, Reader.addOther]
        omega

theorem level_of_advance
    {text : Text} {cursor moved : Cursor} {event : Event}
    (hlevel : cursor.Level)
    (h : cursor.advance text event = .ok moved) :
    moved.Level := by
  have hopened := openNames_of_advance h
  unfold advance at h
  split at h
  · simp at h
  · rename_i names hnames
    rcases Success.map_eq_ok_iff.mp h with ⟨reader, hstep, heq⟩
    rw [hnames, Except.ok.injEq] at hopened
    unfold Level
    rw [← hopened, ← heq]
    exact depthOf_of_step hlevel hnames hstep

theorem level_of_foldlM_advance
    {text : Text} {cursor moved : Cursor} {events : List Event}
    (hlevel : cursor.Level)
    (h : events.foldlM (advance text) cursor = .ok moved) :
    moved.Level := by
  induction events generalizing cursor with
  | nil =>
      simp only [List.foldlM_nil, pure, Except.pure, Except.ok.injEq] at h
      rw [← h]
      exact hlevel
  | cons event events ih =>
      rw [List.foldlM_cons] at h
      rcases Success.bind_eq_ok_iff.mp h with ⟨next, hadvance, hrest⟩
      exact ih (level_of_advance hlevel hadvance) hrest

end Cursor

namespace Segments

/-- The segments of what stands directly inside the root element. -/
def ofInside : Forest -> List Segment
  | .nil => []
  | .leaf event rest => .inner event :: ofInside rest
  | .element opening inside closing rest => .element opening inside closing :: ofInside rest

/-- The segments of what stands outside all elements, if all its elements are root elements. -/
def ofOutside : Forest -> List Segment
  | .nil => []
  | .leaf event rest => .outer event :: ofOutside rest
  | .element opening inside closing rest =>
      .rootOpen opening :: (ofInside inside ++ .rootClose closing :: ofOutside rest)

def HasRootsOnly : Forest -> Prop
  | .nil => True
  | .leaf _ rest => HasRootsOnly rest
  | .element opening _ _ rest => tagName opening = Reader.rootName ∧ HasRootsOnly rest

theorem events_append (front back : List Segment) :
    events (front ++ back) = events front ++ events back := by
  simp [events]

theorem events_ofInside (forest : Forest) : events (ofInside forest) = forest.events := by
  induction forest with
  | nil => rfl
  | leaf event rest ih =>
      simp only [ofInside, events, List.flatMap_cons, Segment.events] at ih ⊢
      simp [ih]
  | element opening inside closing rest _ ih =>
      simp only [ofInside, events, List.flatMap_cons, Segment.events] at ih ⊢
      simp [ih]

theorem events_ofOutside (forest : Forest) : events (ofOutside forest) = forest.events := by
  induction forest with
  | nil => rfl
  | leaf event rest ih =>
      simp only [ofOutside, events, List.flatMap_cons, Segment.events] at ih ⊢
      simp [ih]
  | element opening inside closing rest _ ih =>
      have hinside := events_ofInside inside
      simp only [ofOutside, events, List.flatMap_cons, List.flatMap_append, Segment.events]
        at ih hinside ⊢
      simp [ih, hinside]

theorem fit_ofInside
    {forest : Forest}
    (h : forest.WellFormed) :
    Fit true (ofInside forest) ∧ leads true (ofInside forest) = true := by
  induction forest with
  | nil => exact ⟨trivial, rfl⟩
  | leaf event rest ih => exact ⟨⟨⟨rfl, h.1, h.2.1⟩, (ih h.2.2).1⟩, (ih h.2.2).2⟩
  | element opening inside closing rest _ ih =>
      exact ⟨⟨⟨rfl, h.1, h.2.1, trivial⟩, (ih h.2.2).1⟩, (ih h.2.2).2⟩

theorem fit_ofOutside
    {forest : Forest}
    (h : forest.WellFormed)
    (hroots : HasRootsOnly forest) :
    Fit false (ofOutside forest) ∧ leads false (ofOutside forest) = false := by
  induction forest with
  | nil => exact ⟨trivial, rfl⟩
  | leaf event rest ih =>
      have hrest := ih h.2.2 hroots
      exact ⟨⟨⟨rfl, h.1, h.2.1⟩, hrest.1⟩, hrest.2⟩
  | element opening inside closing rest _ ih =>
      have hinside := fit_ofInside h.2.1
      have hrest := ih h.2.2 hroots.2
      have hname : endTagName closing = Reader.rootName := by
        rw [h.1.2.2, hroots.1]
      constructor
      · refine ⟨⟨rfl, h.1.1, hroots.1⟩, ?_⟩
        show Fit true _
        rw [fit_append, hinside.2]
        exact ⟨hinside.1, ⟨rfl, h.1.2.1, hname⟩, hrest.1⟩
      · show leads true _ = false
        simp only [leads, List.foldl_append] at hinside hrest ⊢
        rw [hinside.2]
        exact hrest.2

end Segments

/-!
# The top of a document
-/

namespace Cursor

theorem foldlM_openNames_forest
    {forest : Forest}
    (h : forest.WellFormed)
    (opened : List Text) :
    forest.events.foldlM openNames opened = .ok opened := by
  induction forest generalizing opened with
  | nil => rfl
  | leaf event rest ih =>
      rw [Forest.events_leaf, List.foldlM_cons, openNames_leaf h.1]
      exact ih h.2.2 opened
  | element opening inside closing rest ihinside ihrest =>
      rw [Forest.events_element, List.foldlM_cons]
      show List.foldlM openNames (tagName opening :: opened) _ = _
      rw [List.foldlM_append, ihinside h.2.1]
      show List.foldlM openNames (tagName opening :: opened) (.endTag closing :: _) = _
      rw [List.foldlM_cons, openNames_endTag opened h.1.2.2]
      exact ihrest h.2.2 opened

theorem place_of_level_nil
    {cursor : Cursor}
    (h : cursor.Level)
    (hopened : cursor.opened = []) :
    cursor.reader.place = .outside := by
  unfold Level at h
  rw [hopened] at h
  cases hplace : cursor.reader.place <;> simp [hplace, depthOf] at h
  rfl

theorem tagName_of_advance_outside
    {text opening : Text} {cursor moved : Cursor}
    (hlevel : cursor.Level)
    (hopened : cursor.opened = [])
    (h : cursor.advance text (.startTag opening) = .ok moved) :
    tagName opening = Reader.rootName := by
  have hplace := place_of_level_nil hlevel hopened
  simp only [advance, openNames, Reader.step, hplace, Reader.stepOutside] at h
  split at h
  · assumption
  · simp [Except.map] at h

theorem hasRootsOnly_of_foldlM
    {text : Text} {cursor moved : Cursor} {forest : Forest} {more : List Event}
    (hwell : forest.WellFormed)
    (hlevel : cursor.Level)
    (hopened : cursor.opened = [])
    (h : (forest.events ++ more).foldlM (advance text) cursor = .ok moved) :
    Segments.HasRootsOnly forest := by
  induction forest generalizing cursor with
  | nil => trivial
  | leaf event rest ih =>
      rw [Forest.events_leaf, List.cons_append, List.foldlM_cons] at h
      rcases Success.bind_eq_ok_iff.mp h with ⟨next, hadvance, hmore⟩
      have hnames := openNames_of_advance hadvance
      rw [hopened, openNames_leaf hwell.1, Except.ok.injEq] at hnames
      exact ih hwell.2.2 (level_of_advance hlevel hadvance) hnames.symm hmore
  | element opening inside closing rest _ ih =>
      have hfirstWell : (Forest.element opening inside closing .nil).WellFormed :=
        ⟨hwell.1, hwell.2.1, trivial⟩
      have hsplit : (Forest.element opening inside closing rest).events ++ more =
          (Forest.element opening inside closing .nil).events ++ (rest.events ++ more) := by
        simp
      rw [hsplit, List.foldlM_append] at h
      rcases Success.bind_eq_ok_iff.mp h with ⟨next, hfirst, hmore⟩
      have hnext := level_of_foldlM_advance hlevel hfirst
      have hnames := openNames_of_foldlM_advance hfirst
      rw [hopened, foldlM_openNames_forest hfirstWell, Except.ok.injEq] at hnames
      rw [Forest.events_element, List.foldlM_cons] at hfirst
      rcases Success.bind_eq_ok_iff.mp hfirst with ⟨inner, hadvance, _⟩
      constructor
      · exact tagName_of_advance_outside hlevel hopened hadvance
      · exact ih hwell.2.2 hnext hnames.symm hmore

theorem depthOf_of_finish
    {reader : Reader} {layout : Layout}
    (h : reader.finish = .ok layout) :
    depthOf reader.place ≤ 1 := by
  unfold Reader.finish at h
  cases hplace : reader.place <;> simp [hplace] at h <;> simp [depthOf]

end Cursor

namespace Document

/-- Where every element is closed, the root element is an element like the other ones. -/
theorem exists_segments_of_closed
    {text : Text} {forest : Forest} {cursor : Cursor}
    (h : forest.WellFormed)
    (hfold : forest.events.foldlM (Cursor.advance text) Cursor.start = .ok cursor) :
    exists segments : List Segment,
      Segments.Fit false segments ∧ Segments.events segments = forest.events := by
  have hroots : Segments.HasRootsOnly forest := by
    rw [← List.append_nil forest.events] at hfold
    exact Cursor.hasRootsOnly_of_foldlM h (rfl : Cursor.start.Level) rfl hfold
  exact ⟨Segments.ofOutside forest, (Segments.fit_ofOutside h hroots).1,
    Segments.events_ofOutside forest⟩

/-- The root element may lack its end tag. -/
theorem exists_segments_of_open
    {text opening : Text} {before inside : Forest} {cursor : Cursor}
    (hbefore : before.WellFormed)
    (hopening : (Event.startTag opening).Spelled)
    (hinside : inside.WellFormed)
    (hfold : (before.events ++ .startTag opening :: inside.events).foldlM (Cursor.advance text)
      Cursor.start = .ok cursor) :
    exists segments : List Segment,
      Segments.Fit false segments ∧
        Segments.events segments = before.events ++ .startTag opening :: inside.events := by
  have hstart : Cursor.start.Level := rfl
  have hroots : Segments.HasRootsOnly before :=
    Cursor.hasRootsOnly_of_foldlM hbefore hstart rfl hfold
  have hname : tagName opening = Reader.rootName := by
    rw [List.foldlM_append] at hfold
    rcases Success.bind_eq_ok_iff.mp hfold with ⟨next, hfirst, hmore⟩
    have hnext := Cursor.openNames_of_foldlM_advance hfirst
    rw [show Cursor.start.opened = [] from rfl, Cursor.foldlM_openNames_forest hbefore,
      Except.ok.injEq] at hnext
    rw [List.foldlM_cons] at hmore
    rcases Success.bind_eq_ok_iff.mp hmore with ⟨moved, hadvance, _⟩
    exact Cursor.tagName_of_advance_outside (Cursor.level_of_foldlM_advance hstart hfirst)
      hnext.symm hadvance
  have hfit := Segments.fit_ofOutside hbefore hroots
  exists Segments.ofOutside before ++ .rootOpen opening :: Segments.ofInside inside
  constructor
  · rw [Segments.fit_append, hfit.2]
    exact ⟨hfit.1, ⟨rfl, hopening, hname⟩, (Segments.fit_ofInside hinside).1⟩
  · rw [Segments.events_append, Segments.events_ofOutside]
    show before.events ++ (.startTag opening :: Segments.events (Segments.ofInside inside)) = _
    rw [Segments.events_ofInside]

/-- The text of every document is a row of segments. -/
theorem exists_segments_of_parse
    {text : Text} {document : Document}
    (hplain : PlainStart text)
    (h : parse text = .ok document) :
    exists segments : List Segment,
      Segments.Fit false segments ∧ Segments.raw segments = text := by
  rcases spelled_of_parse hplain h with ⟨hspelled, hspell⟩
  generalize (scan text).events.map Located.event = events at hspelled hspell
  rw [parse_eq_of_spell hplain hspelled hspell] at h
  rcases Success.map_eq_ok_iff.mp h with ⟨layout, hread, _⟩
  rcases Success.bind_eq_ok_iff.mp hread with ⟨cursor, hfold, hfinish⟩
  have hlevel := Cursor.level_of_foldlM_advance (rfl : Cursor.start.Level) hfold
  have hopens := Cursor.openNames_of_foldlM_advance hfold
  have hnone : forall element, element ∈ ([] : List OpenElement) -> element.WellFormed := by
    simp
  have hempty : Forest.nil.WellFormed := trivial
  rcases exists_openEvents_of_openNames hspelled hnone hempty hopens with
    ⟨opened, inside, hevents, hnames, hopened, hinside⟩
  have hdepth := Cursor.depthOf_of_finish hfinish
  rw [hlevel, hnames, List.length_map] at hdepth
  rw [show openEvents [] Forest.nil ++ events = events from rfl] at hevents
  suffices hsegments : exists segments : List Segment,
      Segments.Fit false segments ∧ Segments.events segments = events by
    rcases hsegments with ⟨segments, hfit, hsame⟩
    exact ⟨segments, hfit, by rw [← Segments.spell_events, hsame, hspell]⟩
  cases opened with
  | nil =>
      have hall : events = inside.events := by
        rw [hevents]
        rfl
      rw [hall] at hfold ⊢
      exact exists_segments_of_closed hinside hfold
  | cons element outer =>
      -- Only the root element may be open at the end.
      have hnil : outer = [] := by
        cases outer with
        | nil => rfl
        | cons _ _ => simp at hdepth
      subst hnil
      have helement := hopened element (by simp)
      have hall : events =
          element.before.events ++ (.startTag element.opening :: inside.events) := by
        rw [hevents]
        simp [openEvents, OpenElement.events]
      rw [hall] at hfold ⊢
      exact exists_segments_of_open helement.1 helement.2 hinside hfold

end Document
end AndroidStrings
