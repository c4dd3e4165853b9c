import AndroidStrings.Proofs.Markup.Spelling
import AndroidStrings.Proofs.Success

/-!
# Forests of elements

A forest is what stands between two tags that match: leaves and whole elements, one after
another.  Its events keep every character, so the text of a forest and the forest of a text say
the same.  Any list of events that a scan lets through is a forest behind a number of elements
that are still open.

## Main statements

- `exists_openEvents_of_openNames` : events whose tags match fall into open elements and forests.
- `exists_closing_of_openNames` : an element that is left ends behind a forest.
-/

namespace AndroidStrings
namespace Markup

/-- Whether an event neither opens nor closes an element. -/
def Event.isLeaf : Event -> Bool
  | .startTag _ => false
  | .endTag _ => false
  | _ => true

inductive Forest where
  | nil
  | leaf (event : Event) (rest : Forest)
  | element (opening : Text) (inside : Forest) (closing : Text) (rest : Forest)
  deriving DecidableEq, Repr

namespace Forest

def events : Forest -> List Event
  | nil => []
  | leaf event rest => event :: rest.events
  | element opening inside closing rest =>
      .startTag opening :: (inside.events ++ .endTag closing :: rest.events)

/-- The text of a forest. -/
def raw (forest : Forest) : Text :=
  spell forest.events

/-- Every event is spelled, and every end tag has the name of its start tag. -/
def WellFormed : Forest -> Prop
  | nil => True
  | leaf event rest => event.isLeaf = true ∧ event.Spelled ∧ rest.WellFormed
  | element opening inside closing rest =>
      ((Event.startTag opening).Spelled ∧ (Event.endTag closing).Spelled ∧
        endTagName closing = tagName opening) ∧ inside.WellFormed ∧ rest.WellFormed

def append : Forest -> Forest -> Forest
  | nil, back => back
  | leaf event rest, back => leaf event (rest.append back)
  | element opening inside closing rest, back =>
      element opening inside closing (rest.append back)

instance : Append Forest :=
  ⟨append⟩

@[simp] theorem nil_append (back : Forest) : nil ++ back = back := rfl

@[simp] theorem leaf_append (event : Event) (rest back : Forest) :
    leaf event rest ++ back = leaf event (rest ++ back) := rfl

@[simp] theorem element_append (opening closing : Text) (inside rest back : Forest) :
    element opening inside closing rest ++ back =
      element opening inside closing (rest ++ back) := rfl

@[simp] theorem events_nil : nil.events = [] := rfl

@[simp] theorem events_leaf (event : Event) (rest : Forest) :
    (leaf event rest).events = event :: rest.events := rfl

@[simp] theorem events_element (opening closing : Text) (inside rest : Forest) :
    (element opening inside closing rest).events =
      .startTag opening :: (inside.events ++ .endTag closing :: rest.events) := rfl

@[simp] theorem events_append (front back : Forest) :
    (front ++ back).events = front.events ++ back.events := by
  induction front with
  | nil => rfl
  | leaf event rest ih => simp [ih]
  | element opening inside closing rest _ ih => simp [ih]

@[simp] theorem raw_append (front back : Forest) :
    (front ++ back).raw = front.raw ++ back.raw := by
  simp [raw]

theorem WellFormed.append
    {front back : Forest}
    (hfront : front.WellFormed)
    (hback : back.WellFormed) :
    (front ++ back).WellFormed := by
  induction front with
  | nil => exact hback
  | leaf event rest ih => exact ⟨hfront.1, hfront.2.1, ih hfront.2.2⟩
  | element opening inside closing rest _ ih => exact ⟨hfront.1, hfront.2.1, ih hfront.2.2⟩

theorem WellFormed.spelled
    {forest : Forest}
    (h : forest.WellFormed) :
    forall event, event ∈ forest.events -> event.Spelled := by
  induction forest with
  | nil =>
      intro event hevent
      cases hevent
  | leaf first rest ih =>
      intro event hevent
      rcases List.mem_cons.mp hevent with heq | hrest
      · rw [heq]
        exact h.2.1
      · exact ih h.2.2 event hrest
  | element opening inside closing rest ihinside ihrest =>
      intro event hevent
      rcases List.mem_cons.mp hevent with heq | htail
      · rw [heq]
        exact h.1.1
      · rcases List.mem_append.mp htail with hinside | hclosing
        · exact ihinside h.2.1 event hinside
        · rcases List.mem_cons.mp hclosing with heq | hrest
          · rw [heq]
            exact h.1.2.1
          · exact ihrest h.2.2 event hrest

end Forest

/-!
# The forest of a list of events

Reading events from left to right, the elements that are open keep what stood before them.
-/

/-- An element that is still open: what stands before it, and its start tag. -/
structure OpenElement where
  before : Forest
  opening : Text

namespace OpenElement

def events (element : OpenElement) : List Event :=
  element.before.events ++ [.startTag element.opening]

def WellFormed (element : OpenElement) : Prop :=
  element.before.WellFormed ∧ (Event.startTag element.opening).Spelled

def name (element : OpenElement) : Text :=
  tagName element.opening

end OpenElement

/-- The events of open elements, innermost first, and of what stands in the innermost. -/
def openEvents (opened : List OpenElement) (inside : Forest) : List Event :=
  opened.reverse.flatMap OpenElement.events ++ inside.events

theorem openEvents_push (opened : List OpenElement) (inside : Forest) (opening : Text) :
    openEvents (⟨inside, opening⟩ :: opened) .nil =
      openEvents opened inside ++ [.startTag opening] := by
  simp [openEvents, OpenElement.events]

theorem openEvents_leaf (opened : List OpenElement) (inside : Forest) (event : Event) :
    openEvents opened (inside ++ .leaf event .nil) = openEvents opened inside ++ [event] := by
  simp [openEvents]

theorem openEvents_pop (element : OpenElement) (opened : List OpenElement) (inside : Forest)
    (closing : Text) :
    openEvents opened (element.before ++ .element element.opening inside closing .nil) =
      openEvents (element :: opened) inside ++ [.endTag closing] := by
  simp [openEvents, OpenElement.events]

theorem openNames_leaf {opened : List Text} {event : Event} (h : event.isLeaf = true) :
    openNames opened event = .ok opened := by
  cases event <;> first | rfl | simp [Event.isLeaf] at h

/-- One event turns a row of open elements into a row of open elements. -/
theorem exists_openEvents_of_event
    {event : Event} {opened : List OpenElement} {inside : Forest} {names : List Text}
    (hevent : event.Spelled)
    (hopened : forall element, element ∈ opened -> element.WellFormed)
    (hinside : inside.WellFormed)
    (h : openNames (opened.map OpenElement.name) event = .ok names) :
    exists (opened' : List OpenElement) (inside' : Forest),
      openEvents opened inside ++ [event] = openEvents opened' inside' ∧
        names = opened'.map OpenElement.name ∧
        (forall element, element ∈ opened' -> element.WellFormed) ∧ inside'.WellFormed := by
  by_cases hleaf : event.isLeaf = true
  · rw [openNames_leaf hleaf, Except.ok.injEq] at h
    have hnew : (inside ++ .leaf event .nil).WellFormed :=
      hinside.append ⟨hleaf, hevent, trivial⟩
    exact ⟨opened, _, (openEvents_leaf _ _ _).symm, h.symm, hopened, hnew⟩
  · cases event with
    | startTag opening =>
        simp only [openNames, Except.ok.injEq] at h
        refine ⟨⟨inside, opening⟩ :: opened, .nil, (openEvents_push _ _ _).symm, h.symm, ?_,
          trivial⟩
        intro element helement
        rcases List.mem_cons.mp helement with helement | helement
        · rw [helement]
          exact ⟨hinside, hevent⟩
        · exact hopened element helement
    | endTag closing =>
        cases opened with
        | nil => simp [openNames] at h
        | cons element opened =>
            have helement := hopened element (by simp)
            simp only [List.map_cons, openNames] at h
            split at h
            · rename_i hname
              rw [Except.ok.injEq] at h
              have hnew : (element.before ++ .element element.opening inside closing
                  .nil).WellFormed :=
                helement.1.append ⟨⟨helement.2, hevent, hname.symm⟩, hinside, trivial⟩
              exact ⟨opened, _, (openEvents_pop _ _ _ _).symm, h.symm,
                (List.forall_mem_cons.mp hopened).2, hnew⟩
            · simp at h
    | _ => simp [Event.isLeaf] at hleaf

theorem exists_openEvents_of_openNames
    {events : List Event} {opened : List OpenElement} {inside : Forest} {names : List Text}
    (hspelled : forall event, event ∈ events -> event.Spelled)
    (hopened : forall element, element ∈ opened -> element.WellFormed)
    (hinside : inside.WellFormed)
    (h : events.foldlM openNames (opened.map OpenElement.name) = .ok names) :
    exists (opened' : List OpenElement) (inside' : Forest),
      openEvents opened inside ++ events = openEvents opened' inside' ∧
        names = opened'.map OpenElement.name ∧
        (forall element, element ∈ opened' -> element.WellFormed) ∧ inside'.WellFormed := by
  induction events generalizing opened inside with
  | nil =>
      simp only [List.foldlM_nil, pure, Except.pure, Except.ok.injEq] at h
      exact ⟨opened, inside, by simp, h.symm, hopened, hinside⟩
  | cons event events ih =>
      rw [List.foldlM_cons] at h
      rcases Success.bind_eq_ok_iff.mp h with ⟨moved, hfirst, hrest⟩
      rcases exists_openEvents_of_event (hspelled event (by simp)) hopened hinside hfirst with
        ⟨middle, forest, hmiddle, hnames, hmiddleWell, hforest⟩
      rw [hnames] at hrest
      rcases ih (List.forall_mem_cons.mp hspelled).2 hmiddleWell hforest hrest with
        ⟨opened', inside', heq, hall⟩
      refine ⟨opened', inside', ?_, hall⟩
      rw [← heq, ← hmiddle, List.append_assoc, List.singleton_append]

/-!
# Where an element ends
-/

/-- Events that leave an open element hold its end tag, and a forest stands before it. -/
theorem exists_closing_of_openNames
    {events : List Event} {name : Text} {outer names : List Text}
    (hspelled : forall event, event ∈ events -> event.Spelled)
    (h : events.foldlM openNames (name :: outer) = .ok names)
    (hshort : names.length ≤ outer.length) :
    exists (inside : Forest) (closing : Text) (rest : List Event),
      events = inside.events ++ .endTag closing :: rest ∧ inside.WellFormed ∧
        endTagName closing = name ∧ rest.foldlM openNames outer = .ok names := by
  -- What follows an inner element is shorter, but it is no tail of the list.
  induction hlength : events.length using Nat.strongRecOn generalizing
    events name outer with
  | ind length ih =>
      cases events with
      | nil =>
          simp only [List.foldlM_nil, pure, Except.pure, Except.ok.injEq] at h
          rw [← h, List.length_cons] at hshort
          omega
      | cons event events =>
          have hevent := hspelled event (by simp)
          have hevents : forall e, e ∈ events -> e.Spelled := by
            intro e he
            exact hspelled e (List.mem_cons_of_mem _ he)
          rw [List.length_cons] at hlength
          rw [List.foldlM_cons] at h
          by_cases hleaf : event.isLeaf = true
          · rw [openNames_leaf hleaf] at h
            rcases ih events.length (by omega) hevents h hshort rfl with
              ⟨inside, closing, rest, heq, hwell, hname, hrest⟩
            refine ⟨.leaf event inside, closing, rest, ?_, ⟨hleaf, hevent, hwell⟩, hname, hrest⟩
            rw [heq]
            rfl
          · cases event with
            | endTag closing =>
                simp only [openNames] at h
                split at h
                · rename_i hname
                  exact ⟨.nil, closing, events, rfl, trivial, hname.symm, h⟩
                · simp [bind, Except.bind] at h
            | startTag opening =>
                have hinner : names.length ≤ (name :: outer).length := by
                  rw [List.length_cons]
                  omega
                rcases ih events.length (by omega) hevents h hinner rfl with
                  ⟨inside, closing, after, heq, hwell, hname, hafter⟩
                have hafterSpelled : forall e, e ∈ after -> e.Spelled := by
                  intro e he
                  apply hevents
                  rw [heq]
                  exact List.mem_append_right _ (List.mem_cons_of_mem _ he)
                have hclosing : (Event.endTag closing).Spelled := by
                  apply hevents
                  rw [heq]
                  simp
                have hshorter : after.length < length := by
                  have hsum := congrArg List.length heq
                  simp only [List.length_append, List.length_cons] at hsum
                  omega
                rcases ih after.length hshorter hafterSpelled hafter hshort rfl with
                  ⟨behind, last, rest, heq', hwell', hname', hrest⟩
                refine ⟨.element opening inside closing behind, last, rest, ?_,
                  ⟨⟨hevent, hclosing, hname⟩, hwell, hwell'⟩, hname', hrest⟩
                rw [heq, heq']
                simp
            | _ => simp [Event.isLeaf] at hleaf

end Markup
end AndroidStrings
