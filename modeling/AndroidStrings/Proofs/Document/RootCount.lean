import AndroidStrings.Proofs.Document.Insertion
import AndroidStrings.Proofs.Document.Remarks

/-!
# The number of root elements

The reader accepts several root elements one after another, and need not see the end tag of the last
one.  The roots of a text are counted in its events, outside of all elements, and they are the roots
of its row.  So there is nothing behind the last end tag of a single root element.

## Main statements

- `LaidOut.rootCount_eq` : the root elements of a text are those of its row.
- `InsertionSite.entries_back` : nothing is read behind the last end tag of a single root element.
-/

namespace AndroidStrings

open Markup

namespace Markup

/-- The tag of a root element, its only tag or the first one. -/
def Event.opensRoot : Event -> Bool
  | .startTag content => tagName content = Reader.rootName
  | .emptyTag content => tagName content = Reader.rootName
  | _ => false

/-- The root elements among events that stand in a number of elements. -/
def rootCountFrom (depth : Nat) : List Event -> Nat
  | [] => 0
  | event :: events =>
      (if event.opensRoot && depth == 0 then 1 else 0) +
        rootCountFrom (event.depthBehind depth) events

/-- Plain text is no root element and does not lead into one. -/
theorem rootCountFrom_markup (depth : Nat) (events : List Event) :
    rootCountFrom depth (markup events) = rootCountFrom depth events := by
  induction events generalizing depth with
  | nil => rfl
  | cons event events ih =>
      cases htext : event.isText with
      | false => rw [markup_cons htext, rootCountFrom, rootCountFrom, ih]
      | true =>
          rcases exists_text_of_isText htext with ⟨content, rfl⟩
          rw [markup_text, rootCountFrom, ih]
          exact (Nat.zero_add _).symm

theorem rootCountFrom_cons_of_inside
    {depth : Nat}
    (h : 0 < depth)
    (event : Event) (events : List Event) :
    rootCountFrom depth (event :: events) = rootCountFrom (event.depthBehind depth) events := by
  rw [rootCountFrom, beq_eq_false_iff_ne.mpr (Nat.ne_of_gt h), Bool.and_false]
  exact Nat.zero_add _

/-- Nothing in an element is a root element. -/
theorem rootCountFrom_forest
    {depth : Nat} {forest : Forest}
    (h : forest.WellFormed)
    (hdepth : 0 < depth)
    (back : List Event) :
    rootCountFrom depth (forest.events ++ back) = rootCountFrom depth back := by
  induction forest generalizing depth back with
  | nil => rfl
  | leaf event rest ih =>
      rw [Forest.events_leaf, List.cons_append, rootCountFrom_cons_of_inside hdepth,
        depthBehind_of_isLeaf h.1, ih h.2.2 hdepth]
  | element opening inside closing rest ihinside ihrest =>
      rw [Forest.events_element, List.cons_append, List.append_assoc, List.cons_append,
        rootCountFrom_cons_of_inside hdepth, Event.depthBehind,
        ihinside h.2.1 (Nat.succ_pos depth), rootCountFrom_cons_of_inside (Nat.succ_pos depth),
        Event.depthBehind, Nat.succ_sub_one, ihrest h.2.2 hdepth]

end Markup

/-- Whether a mark is that of a new root element. -/
def RootMark.isRoot : RootMark -> Bool
  | .opens | .closed => true
  | _ => false

/-- The root elements among the events of a segment are those of its marks. -/
theorem Segment.rootCountFrom_append
    {inRoot : Bool} {segment : Segment}
    (h : segment.Fits inRoot)
    (back : List Event) :
    rootCountFrom inRoot.toNat (segment.events ++ back) =
      segment.rootMarks.countP RootMark.isRoot +
        rootCountFrom (segment.leads inRoot).toNat back := by
  have hinside : 0 < true.toNat := Nat.one_pos
  cases segment with
  | outer event =>
      rcases h with ⟨rfl, hleaf, _⟩
      rw [events, List.singleton_append, rootCountFrom, depthBehind_of_isLeaf hleaf]
      refine congrArg (· + rootCountFrom 0 back) ?_
      cases event with
      | emptyTag content =>
          by_cases hname : tagName content = Reader.rootName <;>
            simp [Event.opensRoot, rootMarks, RootMark.isRoot, hname]
      | startTag content => cases hleaf
      | _ => rfl
  | rootOpen content =>
      rcases h with ⟨rfl, _, hname⟩
      rw [events, List.singleton_append, rootCountFrom, Event.opensRoot, hname]
      rfl
  | inner event =>
      rcases h with ⟨rfl, hleaf, _⟩
      rw [events, List.singleton_append, rootCountFrom_cons_of_inside hinside,
        depthBehind_of_isLeaf hleaf]
      cases event <;> exact (Nat.zero_add _).symm
  | element opening inside closing =>
      rcases h with ⟨rfl, hwell⟩
      rw [events, List.cons_append, List.append_assoc, rootCountFrom_cons_of_inside hinside,
        Event.depthBehind, rootCountFrom_forest hwell.2.1 (Nat.succ_pos _),
        List.singleton_append, rootCountFrom_cons_of_inside (Nat.succ_pos _)]
      exact (Nat.zero_add _).symm
  | rootClose content =>
      rcases h with ⟨rfl, _, _⟩
      rw [events, List.singleton_append, rootCountFrom_cons_of_inside hinside]
      exact (Nat.zero_add _).symm

namespace Segments

theorem rootCountFrom_events
    {inRoot : Bool} {row : List Segment}
    (h : Fit inRoot row) :
    rootCountFrom inRoot.toNat (events row) = (rootMarks row).countP RootMark.isRoot := by
  induction row generalizing inRoot with
  | nil => rfl
  | cons segment row ih =>
      rw [rootMarks_cons, List.countP_append, ← ih h.2]
      exact Segment.rootCountFrom_append h.1 (events row)

theorem opens_mem_of_leads
    {row : List Segment}
    (h : leads false row = true) :
    .opens ∈ rootMarks row := by
  induction row with
  | nil => simp [leads] at h
  | cons segment row ih =>
      rw [rootMarks_cons, List.mem_append]
      cases segment with
      | rootOpen content => exact .inl (List.mem_singleton_self _)
      | _ => exact .inr (ih h)

/-- Outside of root elements there are no entries. -/
theorem entries_eq_nil_of_outside
    {row : List Segment}
    (hfit : Fit false row)
    (h : .opens ∉ rootMarks row) :
    row.flatMap Segment.entries = [] := by
  induction row with
  | nil => rfl
  | cons segment row ih =>
      rw [rootMarks_cons, List.mem_append, not_or] at h
      cases segment with
      | outer event =>
          have hnone : (Segment.outer event).entries = [] := by
            cases event with
            | emptyTag content =>
                by_cases hname : tagName content = Reader.rootName <;>
                  simp [Segment.entries, Segment.layoutAt, hname]
            | _ => rfl
          rw [List.flatMap_cons, hnone, ih hfit.2 h.2]
          rfl
      | rootOpen content => exact absurd (List.mem_singleton_self _) h.1
      | inner event => exact absurd hfit.1.1 Bool.false_ne_true
      | element opening inside closing => exact absurd hfit.1.1 Bool.false_ne_true
      | rootClose content => exact absurd hfit.1.1 Bool.false_ne_true

end Segments

namespace Document

/-- The number of root elements in a text. -/
def rootCount (text : Text) : Nat :=
  rootCountFrom 0 ((scan text).events.map Located.event)

section Row

variable {document : Document} {row : List Segment}

/-- The events of a text are those of its row, but for plain text. -/
theorem LaidOut.markup_eq (h : document.LaidOut row) :
    markup ((scan document.text).events.map Located.event) = markup (Segments.events row) := by
  have hscan := spelled_of_parse h.plain h.read
  apply markup_eq_of_spell_eq hscan.1 h.fit.spelled
  rw [hscan.2, Segments.spell_events, h.raw]

/-- The root elements of a text are those of its row. -/
theorem LaidOut.rootCount_eq (h : document.LaidOut row) :
    rootCount document.text = (Segments.rootMarks row).countP RootMark.isRoot := by
  rw [rootCount, ← rootCountFrom_markup, h.markup_eq, rootCountFrom_markup]
  exact Segments.rootCountFrom_events h.fit

/-- Nothing is read behind the last end tag of a single root element. -/
theorem InsertionSite.entries_back
    (site : InsertionSite document row)
    (h : document.LaidOut row)
    (hone : rootCount document.text = 1) :
    site.back.flatMap Segment.entries = [] := by
  apply Segments.entries_eq_nil_of_outside site.fit_back.2
  intro hmem
  have hfront := Segments.opens_mem_of_leads site.inRoot
  have hmarks : Segments.rootMarks row =
      Segments.rootMarks site.front ++ .closes :: Segments.rootMarks site.back := by
    rw [← Segments.rootMarks_solid, site.solid_row, Segments.rootMarks_append,
      Segments.rootMarks_solid, Segments.rootMarks_solid]
    rfl
  have hcount : forall {marks : List RootMark}, .opens ∈ marks ->
      0 < marks.countP RootMark.isRoot := by
    intro marks hopens
    exact List.countP_pos_iff.mpr ⟨_, hopens, rfl⟩
  have hfew := h.rootCount_eq
  rw [hone, hmarks, List.countP_append, List.countP_cons] at hfew
  have htwo := hcount hfront
  have hthree := hcount hmem
  simp only [RootMark.isRoot] at hfew
  omega

end Row

end Document
end AndroidStrings
