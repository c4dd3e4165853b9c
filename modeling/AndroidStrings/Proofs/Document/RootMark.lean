import AndroidStrings.Proofs.Document.LaidOut

/-!
# The tags of the root element in a row

The declarations outside of all entries and the tags of the root element are the marks of a row.
They tell whether a document has one root element, with no declaration behind its opening tag, and
where its last end tag stands.  An edit inside the root element leaves them.

## Main statements

- `exists_rootedRow_of_rootMarks` : a row with the marks of one root element falls into the parts
  of it.
- `LaidOut.rootClose_eq_none_iff`, `LaidOut.exists_rootClose` : the last end tag of the root
  element.
-/

namespace AndroidStrings

open Markup

inductive RootMark where
  | declaration
  | opens
  | closes
  | closed
  deriving DecidableEq, Repr

namespace Segment

def rootMarks : Segment -> List RootMark
  | outer (.declaration _) => [.declaration]
  | outer (.emptyTag content) => if tagName content = Reader.rootName then [.closed] else []
  | rootOpen _ => [.opens]
  | inner (.declaration _) => [.declaration]
  | rootClose _ => [.closes]
  | _ => []

theorem rootMarks_of_isText
    {segment : Segment}
    (h : segment.isText = true) :
    segment.rootMarks = [] := by
  rcases exists_text_of_isText h with ⟨content, rfl | rfl⟩ <;> rfl

theorem rootMarks_of_isBlock
    {segment : Segment}
    (h : segment.isBlock = true) :
    segment.rootMarks = [] := by
  rcases form_of_isBlock h with ⟨_, _, _, rfl⟩ | ⟨_, rfl⟩ <;> rfl

/-- A segment has at most one mark, and the tags of the root element are told by theirs. -/
theorem rootMarks_cases (segment : Segment) :
    segment.rootMarks = [] ∨
      exists mark : RootMark,
        segment.rootMarks = [mark] ∧
          (mark = .opens -> exists content : Text, segment = .rootOpen content) ∧
          (mark = .closes -> exists content : Text, segment = .rootClose content) := by
  cases segment with
  | outer event =>
      cases event with
      | emptyTag content =>
          by_cases hname : tagName content = Reader.rootName
          · exact .inr ⟨.closed, by simp [rootMarks, hname], by simp, by simp⟩
          · exact .inl (by simp [rootMarks, hname])
      | declaration content => exact .inr ⟨.declaration, rfl, by simp, by simp⟩
      | _ => exact .inl rfl
  | inner event =>
      cases event with
      | declaration content => exact .inr ⟨.declaration, rfl, by simp, by simp⟩
      | _ => exact .inl rfl
  | rootOpen content => exact .inr ⟨.opens, rfl, fun _ => ⟨content, rfl⟩, by simp⟩
  | rootClose content => exact .inr ⟨.closes, rfl, by simp, fun _ => ⟨content, rfl⟩⟩
  | element opening inside closing => exact .inl rfl

end Segment

namespace Segments

def rootMarks (row : List Segment) : List RootMark :=
  row.flatMap Segment.rootMarks

@[simp] theorem rootMarks_nil : rootMarks [] = [] := rfl

@[simp] theorem rootMarks_cons (segment : Segment) (row : List Segment) :
    rootMarks (segment :: row) = segment.rootMarks ++ rootMarks row := rfl

@[simp] theorem rootMarks_append (front back : List Segment) :
    rootMarks (front ++ back) = rootMarks front ++ rootMarks back :=
  List.flatMap_append

theorem rootMarks_solid (row : List Segment) : rootMarks (solid row) = rootMarks row :=
  flatMap_solid (fun _ h => Segment.rootMarks_of_isText h) row

end Segments

/-!
# One root element
-/

/-- The marks of one root element that is closed, with declarations before it only. -/
def IsSingleRoot (marks : List RootMark) : Prop :=
  exists count : Nat, marks = List.replicate count .declaration ++ [.opens, .closes]

namespace RootedRow

theorem rootMarks_outer
    {events : List Event}
    (h : forall event, event ∈ events -> event.IsBeside) :
    exists count : Nat,
      Segments.rootMarks (events.map .outer) = List.replicate count .declaration ∧
        ((forall event, event ∈ events -> event.isDeclaration = false) -> count = 0) := by
  induction events with
  | nil => exact ⟨0, rfl, fun _ => rfl⟩
  | cons event events ih =>
      rcases ih (List.forall_mem_cons.mp h).2 with ⟨count, hcount, hnone⟩
      have hroot := (h event (by simp)).noRoot
      rw [List.map_cons, Segments.rootMarks_cons, hcount]
      cases event with
      | declaration content =>
          refine ⟨count + 1, rfl, ?_⟩
          intro hno
          exact absurd (hno (.declaration content) (by simp)) (by simp [Event.isDeclaration])
      | emptyTag content =>
          have hname : tagName content ≠ Reader.rootName := by
            simpa [Event.isRootTag] using hroot
          refine ⟨count, ?_, fun hno => hnone (List.forall_mem_cons.mp hno).2⟩
          simp [Segment.rootMarks, hname]
      | _ => exact ⟨count, rfl, fun hno => hnone (List.forall_mem_cons.mp hno).2⟩

theorem rootMarks_content
    {row : List Segment}
    (h : forall segment, segment ∈ row -> segment.IsContent) :
    Segments.rootMarks row = [] := by
  rw [Segments.rootMarks, List.flatMap_eq_nil_iff]
  intro segment hsegment
  have hcontent := h segment hsegment
  cases segment with
  | inner event =>
      cases event with
      | declaration content => exact absurd hcontent.2.2 (by simp [Event.isDeclaration])
      | _ => rfl
  | element opening inside closing => rfl
  | _ => exact hcontent.elim

theorem WellFormed.isSingleRoot
    {row : RootedRow}
    (h : row.WellFormed) :
    IsSingleRoot (Segments.rootMarks row.segments) := by
  rcases rootMarks_outer h.front with ⟨count, hfront, _⟩
  rcases rootMarks_outer (fun event hevent => (h.back event hevent).1) with ⟨none, hback, hzero⟩
  have hnone := hzero fun event hevent => (h.back event hevent).2
  refine ⟨count, ?_⟩
  rw [segments, Segments.rootMarks_append, hfront, Segments.rootMarks_cons,
    Segments.rootMarks_append, rootMarks_content h.inside, Segments.rootMarks_cons, hback, hnone]
  rfl

end RootedRow

namespace Segments

/-- Before the tag of the root element stands what may stand outside of it. -/
theorem exists_events_of_outside
    {row : List Segment}
    (hfit : Fit false row)
    (hmarks : forall mark, mark ∈ rootMarks row -> mark = .declaration) :
    exists events : List Event,
      row = events.map .outer ∧ forall event, event ∈ events -> event.IsBeside := by
  induction row with
  | nil => exact ⟨[], rfl, by simp⟩
  | cons segment row ih =>
      rw [rootMarks_cons] at hmarks
      have hrest : forall mark, mark ∈ rootMarks row -> mark = .declaration := by
        intro mark hmark
        exact hmarks mark (List.mem_append_right _ hmark)
      cases segment with
      | outer event =>
          rcases ih hfit.2 hrest with ⟨events, hrow, hbeside⟩
          refine ⟨event :: events, by rw [hrow, List.map_cons], ?_⟩
          intro other hother
          rcases List.mem_cons.mp hother with heq | hmem
          · rw [heq]
            refine ⟨hfit.1.2.1, hfit.1.2.2, ?_⟩
            cases event with
            | emptyTag content =>
                cases hroot : (Event.emptyTag content).isRootTag with
                | false => rfl
                | true =>
                    have hname : tagName content = Reader.rootName := by
                      simpa [Event.isRootTag] using hroot
                    have hclosed := hmarks .closed (by simp [Segment.rootMarks, hname])
                    cases hclosed
            | _ => rfl
          · exact hbeside other hmem
      | rootOpen content =>
          have hopens := hmarks .opens (by simp [Segment.rootMarks])
          cases hopens
      | inner event => exact absurd hfit.1.1 (by simp)
      | element opening inside closing => exact absurd hfit.1.1 (by simp)
      | rootClose content => exact absurd hfit.1.1 (by simp)

theorem isContent_of_inside
    {row : List Segment}
    (hfit : Fit true row)
    (hmarks : rootMarks row = []) :
    forall segment, segment ∈ row -> segment.IsContent := by
  induction row with
  | nil => simp
  | cons segment row ih =>
      rw [rootMarks_cons, List.append_eq_nil_iff] at hmarks
      intro other hother
      cases segment with
      | inner event =>
          rcases List.mem_cons.mp hother with heq | hmem
          · rw [heq]
            refine ⟨hfit.1.2.1, hfit.1.2.2, ?_⟩
            cases event with
            | declaration content => exact absurd hmarks.1 (by simp [Segment.rootMarks])
            | _ => rfl
          · exact ih hfit.2 hmarks.2 other hmem
      | element opening inside closing =>
          rcases List.mem_cons.mp hother with heq | hmem
          · rw [heq]
            exact hfit.1.2
          · exact ih hfit.2 hmarks.2 other hmem
      | rootClose content => exact absurd hmarks.1 (by simp [Segment.rootMarks])
      | outer event => exact absurd hfit.1.1 (by simp)
      | rootOpen content => exact absurd hfit.1.1 (by simp)

/-- A row is cut right before the segment with a mark. -/
theorem exists_of_rootMarks_eq_cons
    {row : List Segment} {before after : List RootMark} {mark : RootMark}
    (h : rootMarks row = before ++ mark :: after) :
    exists (front : List Segment) (segment : Segment) (back : List Segment),
      row = front ++ segment :: back ∧ rootMarks front = before ∧ segment.rootMarks = [mark] ∧
        rootMarks back = after := by
  induction row generalizing before with
  | nil => simp at h
  | cons segment row ih =>
      rw [rootMarks_cons] at h
      rcases segment.rootMarks_cases with hnone | ⟨only, honly, _⟩
      · rw [hnone, List.nil_append] at h
        rcases ih h with ⟨front, found, back, hrow, hfront, hfound, hback⟩
        refine ⟨segment :: front, found, back, by rw [hrow, List.cons_append], ?_, hfound, hback⟩
        rw [rootMarks_cons, hnone, hfront, List.nil_append]
      · rw [honly, List.singleton_append] at h
        cases before with
        | nil =>
            rw [List.nil_append, List.cons.injEq] at h
            exact ⟨[], segment, row, rfl, rfl, by rw [honly, h.1], h.2⟩
        | cons first before =>
            rw [List.cons_append, List.cons.injEq] at h
            rcases ih h.2 with ⟨front, found, back, hrow, hfront, hfound, hback⟩
            refine ⟨segment :: front, found, back, by rw [hrow, List.cons_append], ?_, hfound,
              hback⟩
            rw [rootMarks_cons, honly, hfront, h.1, List.singleton_append]

theorem exists_rootOpen_of_rootMarks
    {segment : Segment}
    (h : segment.rootMarks = [.opens]) :
    exists content : Text, segment = .rootOpen content := by
  rcases segment.rootMarks_cases with hnone | ⟨mark, hmark, hopens, _⟩
  · rw [hnone] at h
    cases h
  · rw [hmark, List.singleton_inj] at h
    exact hopens h

theorem exists_rootClose_of_rootMarks
    {segment : Segment}
    (h : segment.rootMarks = [.closes]) :
    exists content : Text, segment = .rootClose content := by
  rcases segment.rootMarks_cases with hnone | ⟨mark, hmark, _, hcloses⟩
  · rw [hnone] at h
    cases h
  · rw [hmark, List.singleton_inj] at h
    exact hcloses h

/-- A row with the marks of one root element falls into the parts of it. -/
theorem exists_rootedRow_of_rootMarks
    {row : List Segment}
    (hfit : Fit false row)
    (hmarks : IsSingleRoot (rootMarks row)) :
    exists rooted : RootedRow, rooted.WellFormed ∧ rooted.segments = row := by
  rcases hmarks with ⟨count, hmarks⟩
  rcases exists_of_rootMarks_eq_cons hmarks with ⟨front, first, rest, rfl, hfront, hfirst, hrest⟩
  rcases exists_rootOpen_of_rootMarks hfirst with ⟨opening, rfl⟩
  have hclose : rootMarks rest = [] ++ RootMark.closes :: [] := hrest
  rcases exists_of_rootMarks_eq_cons hclose with ⟨inside, last, back, rfl, hinside, hlast, hback⟩
  rcases exists_rootClose_of_rootMarks hlast with ⟨closing, rfl⟩
  rw [fit_append] at hfit
  have hdeclarations : forall mark, mark ∈ rootMarks front -> mark = .declaration := by
    rw [hfront]
    intro mark hmark
    exact List.eq_of_mem_replicate hmark
  rcases exists_events_of_outside hfit.1 hdeclarations with ⟨before, rfl, hbefore⟩
  have hopening := hfit.2.1
  have hafter := hfit.2.2
  rw [show (Segment.rootOpen opening).leads (leads false (before.map .outer)) = true from rfl,
    fit_append] at hafter
  have hclosing := hafter.2.1
  have hbehind : Fit false back := hafter.2.2
  have hnothing : forall mark, mark ∈ rootMarks back -> mark = .declaration := by
    rw [hback]
    simp
  rcases exists_events_of_outside hbehind hnothing with ⟨after, rfl, hbeside⟩
  refine ⟨⟨before, opening, inside, closing, after⟩, ?_, rfl⟩
  exact
    { front := hbefore
      opening := hopening.2
      inside := isContent_of_inside hafter.1 hinside
      closing := hclosing.2
      back := by
        intro event hevent
        refine ⟨hbeside event hevent, ?_⟩
        cases event with
        | declaration content =>
            have hmem : RootMark.declaration ∈ rootMarks (after.map .outer) :=
              List.mem_flatMap.mpr ⟨.outer (.declaration content), List.mem_map_of_mem hevent,
                by simp [Segment.rootMarks]⟩
            rw [hback] at hmem
            cases hmem
        | _ => rfl }

end Segments

/-!
# The last end tag
-/

namespace Segment

theorem rootClose_of_layoutAt
    {start : Nat} {segment : Segment} {found : Layout}
    (h : segment.layoutAt start = .ok found) :
    (segment.rootMarks = [.closes] ∧
        found.rootClose = some ⟨start, start + segment.raw.size⟩) ∨
      (.closes ∉ segment.rootMarks ∧ found.rootClose = none) := by
  cases hblock : segment.isBlock with
  | true =>
      refine .inr ⟨?_, (layoutAt_of_isBlock hblock h).2.2.2.2⟩
      rw [rootMarks_of_isBlock hblock]
      simp
  | false =>
      cases segment with
      | rootClose content =>
          simp only [layoutAt, Except.ok.injEq] at h
          rw [← h]
          exact .inl ⟨rfl, rfl⟩
      | rootOpen content =>
          simp only [layoutAt, Except.ok.injEq] at h
          rw [← h]
          exact .inr ⟨by simp [rootMarks], rfl⟩
      | element opening inside closing => simp [isBlock] at hblock
      | outer event =>
          right
          cases event with
          | emptyTag content =>
              simp only [layoutAt] at h
              split at h <;>
                · rename_i hname
                  rw [Except.ok.injEq] at h
                  rw [← h]
                  exact ⟨by simp [rootMarks, hname], rfl⟩
          | _ =>
              simp only [layoutAt, Except.ok.injEq] at h
              rw [← h]
              exact ⟨by simp [rootMarks], rfl⟩
      | inner event =>
          right
          cases event with
          | emptyTag content => simp [isBlock] at hblock
          | _ =>
              simp only [layoutAt, Except.ok.injEq] at h
              rw [← h]
              exact ⟨by simp [rootMarks], rfl⟩

end Segment

namespace Segments

/-- Either no segment ends the root element, or the last one that does is the one in the
layout. -/
theorem rootClose_of_layoutFrom
    {row : List Segment} {start : Nat} {layout : Layout}
    (h : layoutFrom start row = .ok layout) :
    (.closes ∉ rootMarks row ∧ layout.rootClose = none) ∨
      exists (front : List Segment) (content : Text) (back : List Segment),
        row = front ++ .rootClose content :: back ∧
          layout.rootClose = some ⟨start + (raw front).size,
            start + (raw front).size + (Segment.rootClose content).raw.size⟩ := by
  induction row generalizing start layout with
  | nil =>
      rw [layoutFrom, Except.ok.injEq] at h
      rw [← h]
      exact .inl ⟨by simp, rfl⟩
  | cons segment row ih =>
      rcases exists_layouts_of_cons h with ⟨found, others, hfound, hothers, heq⟩
      have hclose : layout.rootClose = others.rootClose.or found.rootClose := by
        rw [← heq]
        rfl
      rcases ih hothers with ⟨hnone, hothersNone⟩ | ⟨front, content, back, hrow, hlast⟩
      · rw [hothersNone, Option.none_or] at hclose
        rcases Segment.rootClose_of_layoutAt hfound with ⟨hmark, hspan⟩ | ⟨hmark, hspan⟩
        · rcases exists_rootClose_of_rootMarks hmark with ⟨content, rfl⟩
          exact .inr ⟨[], content, row, rfl, by simpa [hclose] using hspan⟩
        · left
          rw [rootMarks_cons, List.mem_append, hclose]
          exact ⟨by simp [hmark, hnone], hspan⟩
      · refine .inr ⟨segment :: front, content, back, by rw [hrow, List.cons_append], ?_⟩
        rw [hclose, hlast]
        simp [Nat.add_assoc]

end Segments

namespace Document

section Row

variable {document : Document} {row : List Segment}

theorem LaidOut.rootClose_eq_none_iff
    (h : document.LaidOut row) :
    document.layout.rootClose = none ↔ .closes ∉ Segments.rootMarks row := by
  rcases h.exists_layoutFrom with ⟨layout, hlayout, heq⟩
  rw [heq]
  rcases Segments.rootClose_of_layoutFrom hlayout with ⟨hnone, hclose⟩ |
    ⟨front, content, back, hrow, hclose⟩
  · exact ⟨fun _ => hnone, fun _ => hclose⟩
  · rw [hclose, hrow]
    simp [Segment.rootMarks]

/-- The end tag that new entries are put before. -/
theorem LaidOut.exists_rootClose
    {span : Span}
    (h : document.LaidOut row)
    (hclose : document.layout.rootClose = some span) :
    exists (front : List Segment) (content : Text) (back : List Segment),
      row = front ++ .rootClose content :: back ∧ span.start = (Segments.raw front).size := by
  rcases h.exists_layoutFrom with ⟨layout, hlayout, heq⟩
  rw [heq] at hclose
  rcases Segments.rootClose_of_layoutFrom hlayout with ⟨_, hnone⟩ |
    ⟨front, content, back, hrow, hlast⟩
  · rw [hnone] at hclose
    cases hclose
  · rw [hclose, Option.some.injEq] at hlast
    exact ⟨front, content, back, hrow, by rw [hlast, Nat.zero_add]⟩

end Row

end Document
end AndroidStrings
