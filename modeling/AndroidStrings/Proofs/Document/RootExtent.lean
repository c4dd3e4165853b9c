import AndroidStrings.Proofs.Document.Places
import AndroidStrings.Proofs.Document.RootCount

/-!
# The extent of the root element

The reader lists the elements and comments of every root element, but of the tags of root elements
it keeps the last ones only.  So what it has listed lies between the tags that it keeps unless
another root element begins behind it, or the last end tag stands before it.

## Main statements

- `Segments.mem_rootPlaces_iff` : what is listed stands where its segment stands.
- `LaidOut.insideRoot_iff` : when everything lies between the tags.
- `insideRoot_iff_sheltered` : the same for a text, and for texts with one root element.
-/

namespace AndroidStrings

open Markup

/-- The opening tag of the root element ends before everything that is listed directly inside it,
and the end tag, if there is one, begins behind all of it. -/
structure Layout.InsideRoot (layout : Layout) : Prop where
  opened : forall place, place ∈ layout.rootPlaces ->
    exists tag : Span, layout.rootOpen = some tag ∧ tag.stop ≤ place.start
  closed : forall place, place ∈ layout.rootPlaces ->
    forall tag : Span, layout.rootClose = some tag -> place.stop ≤ tag.start

namespace Segment

def beginsRoot (segment : Segment) : Bool :=
  segment.rootMarks.any RootMark.isRoot

def endsRoot (segment : Segment) : Bool :=
  segment.rootMarks.contains .closes

/-- What is listed stands in the root element, and it is no tag of it. -/
theorem rootMarks_of_isListed
    {segment : Segment}
    (h : segment.isListed = true) :
    segment.rootMarks = [] ∧ forall inRoot : Bool, segment.Fits inRoot -> inRoot = true := by
  rw [isListed, Bool.or_eq_true] at h
  rcases h with hblock | hcomment
  · exact ⟨rootMarks_of_isBlock hblock, fun _ => inRoot_of_isBlock hblock⟩
  · unfold comment? at hcomment
    split at hcomment
    · exact ⟨rfl, fun _ hfits => hfits.1⟩
    · cases hcomment

theorem rootOpen_of_layoutAt
    {start : Nat} {segment : Segment} {found : Layout}
    (h : segment.layoutAt start = .ok found) :
    found.rootOpen =
      if segment.beginsRoot then some ⟨start, start + segment.raw.size⟩ else none := by
  cases hblock : segment.isBlock with
  | true =>
      rw [(layoutAt_of_isBlock hblock h).2.2.2.1, beginsRoot, rootMarks_of_isBlock hblock]
      rfl
  | false =>
      cases segment with
      | element opening inside closing => simp [isBlock] at hblock
      | outer event =>
          cases event with
          | emptyTag content =>
              simp only [layoutAt] at h
              split at h <;>
                · rename_i hname
                  rw [Except.ok.injEq] at h
                  simp [← h, beginsRoot, rootMarks, hname, RootMark.isRoot]
          | _ =>
              simp only [layoutAt, Except.ok.injEq] at h
              simp [← h, beginsRoot, rootMarks, RootMark.isRoot]
      | inner event =>
          cases event with
          | emptyTag content => simp [isBlock] at hblock
          | _ =>
              simp only [layoutAt, Except.ok.injEq] at h
              simp [← h, beginsRoot, rootMarks, RootMark.isRoot]
      | _ =>
          simp only [layoutAt, Except.ok.injEq] at h
          simp [← h, beginsRoot, rootMarks, RootMark.isRoot]

end Segment

/-!
# Rows
-/

namespace Segments

/-- A span of a layout of which the last one counts, with the segments that set it. -/
structure LastTaken (last : Layout -> Option Span) (sets : Segment -> Bool) : Prop where
  empty : last {} = none
  append : forall front back : Layout, last (front ++ back) = (last back).or (last front)
  layoutAt : forall {start : Nat} {segment : Segment} {found : Layout},
    segment.layoutAt start = .ok found ->
      last found = if sets segment then some ⟨start, start + segment.raw.size⟩ else none

theorem lastTaken_rootOpen : LastTaken Layout.rootOpen Segment.beginsRoot where
  empty := rfl
  append _ _ := rfl
  layoutAt := Segment.rootOpen_of_layoutAt

theorem lastTaken_rootClose : LastTaken Layout.rootClose Segment.endsRoot where
  empty := rfl
  append _ _ := rfl
  layoutAt := by
    intro start segment found h
    rcases Segment.rootClose_of_layoutAt h with ⟨hmark, hspan⟩ | ⟨hmark, hspan⟩
    · rw [hspan, Segment.endsRoot, hmark]
      rfl
    · rw [hspan, Segment.endsRoot, List.contains_eq_mem, decide_eq_false hmark]
      rfl

section LastTaken

variable {last : Layout -> Option Span} {sets : Segment -> Bool} {row : List Segment}
  {start : Nat} {layout : Layout}

/-- Either no segment of a row sets the span, or it lies in the row. -/
theorem LastTaken.none_or_inside
    (htaken : LastTaken last sets)
    (h : layoutFrom start row = .ok layout) :
    (last layout = none ∧ forall segment, segment ∈ row -> sets segment = false) ∨
      exists span : Span,
        last layout = some span ∧ start ≤ span.start ∧ span.start ≤ span.stop ∧
          span.stop ≤ start + (raw row).size ∧
          exists segment : Segment, segment ∈ row ∧ sets segment = true := by
  induction row generalizing start layout with
  | nil =>
      rw [layoutFrom, Except.ok.injEq] at h
      rw [← h]
      exact .inl ⟨htaken.empty, by simp⟩
  | cons segment row ih =>
      rcases exists_layouts_of_cons h with ⟨found, after, hfound, hafter, rfl⟩
      rw [htaken.append, htaken.layoutAt hfound, raw_cons, Text.size_append]
      rcases ih hafter with ⟨hnone, hrow⟩ | ⟨span, hspan, hfirst, hle, hlast, other, hother, hsets⟩
      · rw [hnone, Option.none_or]
        cases hhere : sets segment with
        | false => exact .inl ⟨rfl, List.forall_mem_cons.mpr ⟨hhere, hrow⟩⟩
        | true =>
            refine .inr ⟨_, rfl, Nat.le_refl _, Nat.le_add_right _ _, ?_, segment,
              List.mem_cons_self, hhere⟩
            show start + segment.raw.size ≤ _
            omega
      · rw [hspan, Option.some_or]
        exact .inr ⟨span, rfl, by omega, hle, by omega, other, List.mem_cons_of_mem _ hother, hsets⟩

end LastTaken

/-- What is listed stands where its segment stands. -/
theorem mem_rootPlaces_iff
    {row : List Segment} {start : Nat} {layout : Layout} {place : Span}
    (h : layoutFrom start row = .ok layout) :
    place ∈ layout.rootPlaces ↔
      exists (front : List Segment) (segment : Segment) (back : List Segment),
        row = front ++ segment :: back ∧ segment.isListed = true ∧
          place = ⟨start + (raw front).size, start + (raw front).size + segment.raw.size⟩ := by
  induction row generalizing start layout with
  | nil =>
      rw [layoutFrom, Except.ok.injEq] at h
      rw [← h]
      simp [Layout.rootPlaces]
  | cons segment row ih =>
      rcases exists_layouts_of_cons h with ⟨found, after, hfound, hafter, rfl⟩
      rw [(Layout.rootPlaces_append_perm found after).mem_iff,
        List.mem_append, Segment.rootPlaces_eq hfound, ih hafter]
      constructor
      · rintro (hhere | ⟨front, other, back, rfl, hlisted, rfl⟩)
        · split at hhere
          · rename_i hlisted
            exact ⟨[], segment, row, rfl, hlisted, by simpa using hhere⟩
          · cases hhere
        · refine ⟨segment :: front, other, back, rfl, hlisted, ?_⟩
          simp only [raw_cons, Text.size_append, Nat.add_assoc]
      · rintro ⟨front, other, back, hrow, hlisted, rfl⟩
        cases front with
        | nil =>
            rw [List.nil_append, List.cons.injEq] at hrow
            left
            rw [hrow.1, if_pos hlisted]
            simp
        | cons first front =>
            rw [List.cons_append, List.cons.injEq] at hrow
            right
            refine ⟨front, other, back, hrow.2, hlisted, ?_⟩
            simp only [hrow.1, raw_cons, Text.size_append, Nat.add_assoc]

/-- No root element begins behind what is listed, and one is closed behind it if any is. -/
def Sheltered (row : List Segment) : Prop :=
  forall (front back : List Segment) (segment : Segment),
    row = front ++ segment :: back -> segment.isListed = true ->
      (forall other, other ∈ back -> other.beginsRoot = false) ∧
        ((exists other, other ∈ row ∧ other.endsRoot = true) ->
          exists other, other ∈ back ∧ other.endsRoot = true)

section Split

variable {row front back : List Segment} {segment : Segment} {layout : Layout}

/-- There is a way into the root element before what is listed. -/
theorem opens_mem_of_isListed
    (hfit : Fit false (front ++ segment :: back))
    (hlisted : segment.isListed = true) :
    .opens ∈ rootMarks front := by
  rw [fit_append] at hfit
  exact opens_mem_of_leads ((Segment.rootMarks_of_isListed hlisted).2 _ hfit.2.1)

theorem exists_beginsRoot_of_opens
    (h : .opens ∈ rootMarks row) :
    exists segment : Segment, segment ∈ row ∧ segment.beginsRoot = true := by
  rcases List.mem_flatMap.mp h with ⟨segment, hsegment, hmark⟩
  exact ⟨segment, hsegment, List.any_eq_true.mpr ⟨_, hmark, rfl⟩⟩

/-- The last opening tag ends before a listed segment if none stands behind the segment. -/
theorem opened_iff
    (hfit : Fit false (front ++ segment :: back))
    (hlisted : segment.isListed = true)
    (h : layoutFrom 0 (front ++ segment :: back) = .ok layout) :
    (exists tag : Span, layout.rootOpen = some tag ∧ tag.stop ≤ (raw front).size) ↔
      forall other, other ∈ back -> other.beginsRoot = false := by
  rcases exists_layouts_of_split h with ⟨before, found, after, hbefore, hfound, hafter, rfl⟩
  have hpos := Segment.size_raw_pos_of_isListed hlisted
  have hmarks := (Segment.rootMarks_of_isListed hlisted).1
  have hnone : found.rootOpen = none := by
    rw [Segment.rootOpen_of_layoutAt hfound, Segment.beginsRoot, hmarks]
    rfl
  have hopen : (before ++ (found ++ after)).rootOpen = after.rootOpen.or before.rootOpen := by
    rw [lastTaken_rootOpen.append, lastTaken_rootOpen.append, hnone, Option.or_none]
  rw [hopen]
  rcases lastTaken_rootOpen.none_or_inside hafter with
    ⟨hafterNone, hback⟩ | ⟨span, hspan, hfirst, hle, _, other, hother, hbegins⟩
  · rcases lastTaken_rootOpen.none_or_inside hbefore with ⟨_, hfront⟩ | ⟨tag, htag, _, _, hlast, _⟩
    · rcases exists_beginsRoot_of_opens (opens_mem_of_isListed hfit hlisted) with
        ⟨other, hother, hbegins⟩
      rw [hfront other hother] at hbegins
      cases hbegins
    · rw [hafterNone, Option.none_or]
      exact iff_of_true ⟨tag, htag, by omega⟩ hback
  · rw [hspan, Option.some_or]
    apply iff_of_false
    · rintro ⟨tag, htag, hstop⟩
      rw [Option.some.injEq] at htag
      subst htag
      omega
    · intro hback
      rw [hback other hother] at hbegins
      cases hbegins

/-- The last end tag stands behind a listed segment if there is one there, or none at all. -/
theorem closed_iff
    (hlisted : segment.isListed = true)
    (h : layoutFrom 0 (front ++ segment :: back) = .ok layout) :
    (forall tag : Span, layout.rootClose = some tag ->
        (raw front).size + segment.raw.size ≤ tag.start) ↔
      ((exists other, other ∈ front ++ segment :: back ∧ other.endsRoot = true) ->
        exists other, other ∈ back ∧ other.endsRoot = true) := by
  rcases exists_layouts_of_split h with ⟨before, found, after, hbefore, hfound, hafter, rfl⟩
  have hpos := Segment.size_raw_pos_of_isListed hlisted
  have hmarks := (Segment.rootMarks_of_isListed hlisted).1
  have hsegment : segment.endsRoot = false := by
    rw [Segment.endsRoot, hmarks]
    rfl
  have hclose : (before ++ (found ++ after)).rootClose = after.rootClose.or before.rootClose := by
    rw [lastTaken_rootClose.append, lastTaken_rootClose.append,
      lastTaken_rootClose.layoutAt hfound, hsegment]
    simp
  rw [hclose]
  rcases lastTaken_rootClose.none_or_inside hafter with
    ⟨hafterNone, hback⟩ | ⟨span, hspan, hfirst, _, _, hbehind⟩
  · rw [hafterNone, Option.none_or]
    rcases lastTaken_rootClose.none_or_inside hbefore with
      ⟨hbeforeNone, hfront⟩ | ⟨tag, htag, _, hle, hlast, other, hother, hends⟩
    · refine iff_of_true (fun tag htag => ?_) ?_
      · rw [hbeforeNone] at htag
        cases htag
      · rintro ⟨other, hother, hends⟩
        simp only [List.mem_append, List.mem_cons] at hother
        rcases hother with hmem | rfl | hmem
        · rw [hfront other hmem] at hends
          cases hends
        · rw [hsegment] at hends
          cases hends
        · exact ⟨other, hmem, hends⟩
    · apply iff_of_false
      · intro hbefore'
        have hstart := hbefore' tag htag
        omega
      · intro hbehind
        rcases hbehind ⟨other, List.mem_append_left _ hother, hends⟩ with ⟨last, hlast, hlastEnds⟩
        rw [hback last hlast] at hlastEnds
        cases hlastEnds
  · rw [hspan, Option.some_or]
    refine iff_of_true (fun tag htag => ?_) fun _ => hbehind
    rw [Option.some.injEq] at htag
    subst htag
    omega

end Split

/-!
# One root element
-/

theorem endsRoot_iff {segment : Segment} :
    segment.endsRoot = true ↔ exists content : Text, segment = .rootClose content := by
  constructor
  · intro h
    rcases segment.rootMarks_cases with hnil | ⟨mark, hone, _, hcloses⟩
    · rw [Segment.endsRoot, hnil] at h
      cases h
    · rw [Segment.endsRoot, hone, List.contains_eq_mem, decide_eq_true_iff,
        List.mem_singleton] at h
      exact hcloses h.symm
  · rintro ⟨content, rfl⟩
    rfl

/-- In the root element again behind the end of one, there are two of them. -/
theorem two_le_count_of_endsRoot
    {row : List Segment}
    (hfit : Fit false row)
    (hleads : leads false row = true)
    (h : exists segment, segment ∈ row ∧ segment.endsRoot = true) :
    2 ≤ (rootMarks row).countP RootMark.isRoot := by
  rcases h with ⟨segment, hsegment, hends⟩
  rcases endsRoot_iff.mp hends with ⟨content, rfl⟩
  rcases List.append_of_mem hsegment with ⟨front, back, rfl⟩
  have hfront : .opens ∈ rootMarks front := by
    rw [fit_append] at hfit
    exact opens_mem_of_leads hfit.2.1.1
  have hback : .opens ∈ rootMarks back := by
    apply opens_mem_of_leads
    simpa [leads, Segment.leads] using hleads
  have hone : forall {marks : List RootMark}, .opens ∈ marks ->
      1 ≤ marks.countP RootMark.isRoot :=
    fun hmem => List.countP_pos_iff.mpr ⟨_, hmem, rfl⟩
  have hsum : (rootMarks (front ++ .rootClose content :: back)).countP RootMark.isRoot =
      (rootMarks front).countP RootMark.isRoot + (rootMarks back).countP RootMark.isRoot := by
    rw [rootMarks_append, rootMarks_cons, List.countP_append, List.countP_append]
    simp [Segment.rootMarks, RootMark.isRoot]
  have hfirst := hone hfront
  have hlast := hone hback
  omega

/-- With one root element everything is listed between its tags. -/
theorem sheltered_of_count
    {row : List Segment}
    (hfit : Fit false row)
    (h : (rootMarks row).countP RootMark.isRoot ≤ 1) :
    Sheltered row := by
  rintro front back segment rfl hlisted
  rcases Segment.rootMarks_of_isListed hlisted with ⟨hmarks, hinRoot⟩
  have hopens := opens_mem_of_isListed hfit hlisted
  have hpos : 0 < (rootMarks front).countP RootMark.isRoot :=
    List.countP_pos_iff.mpr ⟨_, hopens, rfl⟩
  rw [rootMarks_append, rootMarks_cons, hmarks, List.nil_append, List.countP_append] at h
  rw [fit_append] at hfit
  constructor
  · intro other hother
    rw [Segment.beginsRoot, List.any_eq_false]
    intro mark hmark hroot
    have hbehind : 0 < (rootMarks back).countP RootMark.isRoot :=
      List.countP_pos_iff.mpr ⟨mark, List.mem_flatMap.mpr ⟨other, hother, hmark⟩, hroot⟩
    omega
  · rintro ⟨other, hother, hends⟩
    simp only [List.mem_append, List.mem_cons] at hother
    rcases hother with hmem | rfl | hmem
    · have htwo := two_le_count_of_endsRoot hfit.1 (hinRoot _ hfit.2.1) ⟨other, hmem, hends⟩
      omega
    · rw [Segment.endsRoot, hmarks] at hends
      cases hends
    · exact ⟨other, hmem, hends⟩

end Segments

/-!
# Main statement
-/

namespace Document

/-- Everything that is listed lies between the tags of the root element exactly if no root element
begins behind any of it, and one ends behind it if any does. -/
theorem LaidOut.insideRoot_iff
    {document : Document} {row : List Segment}
    (h : document.LaidOut row) :
    document.layout.InsideRoot ↔ Segments.Sheltered row := by
  rcases h.exists_layoutFrom with ⟨layout, hlayout, heq⟩
  rw [heq]
  constructor
  · rintro hinside front back segment rfl hlisted
    have hplace := (Segments.mem_rootPlaces_iff hlayout).mpr
      ⟨front, segment, back, rfl, hlisted, rfl⟩
    rw [Nat.zero_add] at hplace
    exact ⟨(Segments.opened_iff h.fit hlisted hlayout).mp (hinside.opened _ hplace),
      (Segments.closed_iff hlisted hlayout).mp (hinside.closed _ hplace)⟩
  · intro hsheltered
    constructor
    · intro place hplace
      rcases (Segments.mem_rootPlaces_iff hlayout).mp hplace with
        ⟨front, segment, back, rfl, hlisted, rfl⟩
      rw [Nat.zero_add]
      exact (Segments.opened_iff h.fit hlisted hlayout).mpr (hsheltered _ _ _ rfl hlisted).1
    · intro place hplace
      rcases (Segments.mem_rootPlaces_iff hlayout).mp hplace with
        ⟨front, segment, back, rfl, hlisted, rfl⟩
      rw [Nat.zero_add]
      exact (Segments.closed_iff hlisted hlayout).mpr (hsheltered _ _ _ rfl hlisted).2

/-- Every document is laid out in a row that says whether everything lies between the tags of the
root element, and with one root element, closed or not, it does. -/
theorem insideRoot_iff_sheltered
    {text : Text} {document : Document}
    (hplain : PlainStart text)
    (hparse : parse text = .ok document) :
    (exists row : List Segment,
      document.LaidOut row ∧ (document.layout.InsideRoot ↔ Segments.Sheltered row)) ∧
      (rootCount text ≤ 1 -> document.layout.InsideRoot) := by
  have htext := text_of_parse hparse
  rcases exists_laidOut (htext ▸ hplain) (htext ▸ hparse) with ⟨row, hlaid⟩
  refine ⟨⟨row, hlaid, hlaid.insideRoot_iff⟩, fun hcount => ?_⟩
  rw [← htext, hlaid.rootCount_eq] at hcount
  exact hlaid.insideRoot_iff.mpr (Segments.sheltered_of_count hlaid.fit hcount)

/-- A declaration behind a comment, and a comment, an element and a string in the root element. -/
theorem insideRoot_iff_sheltered_prolog :
    exists document : Document,
      parse ("<!-- a --><?xml version=\"1.0\"?><resources x=\">\"><!-- \u00e9 -->".toList ++
          "<dimen name=\"d\">1</dimen><string name=\"s\"/></resources><!-- c -->".toList) =
            .ok document ∧
        document.layout.rootPlaces.length = 3 ∧ document.layout.InsideRoot := by
  let text := "<!-- a --><?xml version=\"1.0\"?><resources x=\">\"><!-- \u00e9 -->".toList ++
    "<dimen name=\"d\">1</dimen><string name=\"s\"/></resources><!-- c -->".toList
  have hread : (parse text).map (fun document => document.layout.rootPlaces.length) = .ok 3 := by
    decide +kernel
  rcases Success.map_eq_ok_iff.mp hread with ⟨document, hparse, hlength⟩
  exact ⟨document, hparse, hlength,
    (insideRoot_iff_sheltered (by decide) hparse).2 (by decide +kernel)⟩

/-- The tag of a second root element is kept, and the string of the first one stands before it. -/
theorem not_insideRoot_secondRoot :
    exists document : Document,
      parse "<resources x=\"1\"><string name=\"a\"/></resources><resources/>".toList =
          .ok document ∧
        document.rootOpenTag? = some "<resources/>".toList ∧
        ¬ document.layout.InsideRoot := by
  have hread : (parse
      "<resources x=\"1\"><string name=\"a\"/></resources><resources/>".toList).map
        (fun document => (document.rootOpenTag?, document.layout.rootOpen,
          document.layout.rootPlaces)) =
      .ok (some "<resources/>".toList, some ⟨47, 59⟩, [⟨17, 35⟩]) := by
    decide +kernel
  rcases Success.map_eq_ok_iff.mp hread with ⟨document, hparse, hfacts⟩
  simp only [Prod.mk.injEq] at hfacts
  refine ⟨document, hparse, hfacts.1, fun hinside => ?_⟩
  rcases hinside.opened ⟨17, 35⟩ (by rw [hfacts.2.2]; exact List.mem_singleton_self _) with
    ⟨tag, htag, hstop⟩
  rw [hfacts.2.1, Option.some.injEq] at htag
  rw [← htag] at hstop
  exact absurd hstop (by decide)

end Document
end AndroidStrings
