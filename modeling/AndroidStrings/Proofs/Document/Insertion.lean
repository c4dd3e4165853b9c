import AndroidStrings.Proofs.Document.Removal

/-!
# Insertion

A new element goes on a line of its own before the last end tag of the root element.  The blanks
before that tag stay before it, so the row gets one segment more, and texts around it.

## Main statements

- `LaidOut.exists_ownLine`, `LaidOut.exists_insertionSite` : where a new element goes.
- `LaidOut.exists_insertEntry` : a document with one element more.
-/

namespace AndroidStrings

open Markup

namespace Document

/-- The line of a new element, between a row that leads into the root element and a row that goes
on inside it. -/
theorem exists_laidOut_line
    {front back : List Segment} {segment : Segment} {lead follow tail : Text}
    (hplain : PlainStart (Segments.raw front ++ tail))
    (hfront : Segments.Fit false front)
    (hleads : Segments.leads false front = true)
    (hback : Segments.Fit true back)
    (hreadable : forall other, other ∈ front ++ back -> other.Readable)
    (hblock : segment.isBlock = true)
    (hfits : segment.Fits true)
    (hsegment : segment.Readable)
    (hlead : '<' ∉ lead)
    (hfollow : '<' ∉ follow) :
    exists edited : Document,
      parse (Segments.raw front ++ (lead ++ segment.raw ++ follow) ++ Segments.raw back) =
          .ok edited ∧
        edited.LaidOut
          (front ++ .inner (.text lead) :: segment :: .inner (.text follow) :: back) := by
  let line : List Segment := .inner (.text lead) :: segment :: .inner (.text follow) :: back
  have hline : Segments.Fit true line := by
    refine ⟨⟨rfl, rfl, hlead⟩, hfits, ?_⟩
    rw [show (Segment.inner (.text lead)).leads true = true from rfl,
      Segment.leads_of_isBlock hblock]
    exact ⟨⟨rfl, rfl, hfollow⟩, hback⟩
  have hall : forall other, other ∈ front ++ line -> other.Readable := by
    intro other hother
    rcases List.mem_append.mp hother with hmem | hmem
    · exact hreadable other (List.mem_append_left _ hmem)
    · simp only [line, List.mem_cons] at hmem
      rcases hmem with heq | heq | heq | hmem
      · rw [heq]
        exact Segments.readable_text lead
      · rw [heq]
        exact hsegment
      · rw [heq]
        exact Segments.readable_text follow
      · exact hreadable other (List.mem_append_right _ hmem)
  rcases exists_laidOut_append hplain hfront hleads hline hall with ⟨edited, hedited, hlaid⟩
  have htext : Segments.raw front ++ (lead ++ segment.raw ++ follow) ++ Segments.raw back =
      Segments.raw front ++ Segments.raw line := by
    simp [line, Event.raw]
  exact ⟨edited, by rw [htext, hedited], hlaid⟩

/-- Where a new element goes, as a row with texts around the element: the row leads into the root
element, and goes on with its last end tag. -/
structure InsertionSite (document : Document) (row : List Segment) where
  front : List Segment
  lead : Text
  follow : Text
  content : Text
  back : List Segment
  fit_front : Segments.Fit false front
  inRoot : Segments.leads false front = true
  fit_back : Segments.Fit true (.rootClose content :: back)
  lead_noMarkup : '<' ∉ lead
  follow_noMarkup : '<' ∉ follow
  plain : forall t : Text, PlainStart (Segments.raw front ++ t)
  solid_row : Segments.solid row =
    Segments.solid front ++ Segments.solid (.rootClose content :: back)
  insertEntry_eq : forall element : Text,
    document.insertEntry element =
      parse (Segments.raw front ++ (lead ++ element ++ follow) ++
        Segments.raw (.rootClose content :: back))

/-- The last end tag of the root element, and the rows before and behind it. -/
theorem LaidOut.exists_rootCloseStart
    {document : Document} {row : List Segment} {close : Nat}
    (h : document.LaidOut row)
    (hclose : document.rootCloseStart = .ok close) :
    exists (front : List Segment) (content : Text) (back : List Segment),
      row = front ++ .rootClose content :: back ∧ close = (Segments.raw front).size ∧
        Segments.Fit false front ∧ Segments.leads false front = true ∧
        Segments.Fit true (.rootClose content :: back) := by
  have hspan : exists span : Span, document.layout.rootClose = some span ∧ span.start = close := by
    unfold rootCloseStart at hclose
    split at hclose
    · rename_i span hspan
      rw [Except.ok.injEq] at hclose
      exact ⟨span, hspan, hclose⟩
    · cases hclose
  rcases hspan with ⟨span, hspan, rfl⟩
  rcases h.exists_rootClose hspan with ⟨front, content, back, hrow, hsize⟩
  have hfit := h.fit
  rw [hrow, Segments.fit_append] at hfit
  have hleads : Segments.leads false front = true := hfit.2.1.1
  exact ⟨front, content, back, hrow, hsize, hfit.1, hleads, hleads ▸ hfit.2⟩

theorem not_mem_of_isBlank
    {blank : Text}
    (h : blank.isBlank = true) :
    '<' ∉ blank := by
  intro hmem
  exact absurd (List.all_eq_true.mp h '<' hmem) (by decide)

/-- A row that leads into the root element begins the text whatever follows it. -/
theorem LaidOut.plainStart_front
    {document : Document} {row front : List Segment} {tail : Text}
    (h : document.LaidOut row)
    (hleads : Segments.leads false front = true)
    (htext : document.text = Segments.raw front ++ tail)
    (t : Text) :
    PlainStart (Segments.raw front ++ t) := by
  have hplain := h.plain
  rw [htext] at hplain
  exact plainStart_append (List.ne_nil_of_mem (Segments.mem_raw_of_leads hleads)) hplain

/-- Where the last end tag starts its line, a new element goes on a line of its own before it. -/
theorem LaidOut.exists_ownLine
    {document : Document} {row : List Segment} {close : Nat}
    (h : document.LaidOut row)
    (hclose : document.rootCloseStart = .ok close)
    (hline : document.text.startsLine close = true) :
    exists (site : InsertionSite document row) (blank : Text),
      site.lead = entryIndent ∧ site.follow = document.lineEnding.text ++ blank ∧
        (Segments.raw site.front).lastLine = [] ∧
        document.text = Segments.raw site.front ++
          (blank ++ Segments.raw (.rootClose site.content :: site.back)) := by
  rcases h.exists_rootCloseStart hclose with
    ⟨front, content, back, hrow, hsize, hfitFront, hleads, hrest⟩
  let rest : List Segment := .rootClose content :: back
  have htext : document.text = Segments.raw front ++ Segments.raw rest := by
    rw [← h.raw, hrow, Segments.raw_append]
  have hstarts := hline
  rw [htext, hsize] at hstarts
  rcases Text.exists_lineStart_append hstarts with
    ⟨kept, blank, hfront, hlast, hblank, hposition⟩
  rcases Segments.exists_dropBack hfitFront hfront (Text.all_isSpace_of_isBlank hblank) with
    ⟨front', hraw, hfit', hleads', hsame⟩
  have hkept : document.text = Segments.raw front' ++ (blank ++ Segments.raw rest) := by
    rw [htext, hfront, hraw, List.append_assoc]
  have hinsert : forall element : Text,
      document.insertEntry element =
        parse (Segments.raw front' ++
          (entryIndent ++ element ++ (document.lineEnding.text ++ blank)) ++
          Segments.raw rest) := by
    intro element
    have hsplice := Text.splice_append kept [] (blank ++ Segments.raw rest)
      (entryIndent ++ element ++ document.lineEnding.text)
    rw [Text.size_nil, Nat.add_zero, List.append_nil] at hsplice
    rw [insertEntry, hclose]
    simp only
    rw [if_pos hline, insertAt, splice, hsize, htext, hposition, hfront,
      List.append_assoc kept, hsplice, hraw]
    simp [rest]
  let site : InsertionSite document row :=
    { front := front', lead := entryIndent, follow := document.lineEnding.text ++ blank
      content, back
      fit_front := hfit'
      inRoot := hleads'.trans hleads
      fit_back := hrest
      lead_noMarkup := by decide
      follow_noMarkup :=
        List.not_mem_append (Header.not_mem_ending _) (not_mem_of_isBlank hblank)
      plain := h.plainStart_front (hleads'.trans hleads) hkept
      solid_row := by rw [hrow, Segments.solid_append, hsame]
      insertEntry_eq := hinsert }
  exact ⟨site, blank, rfl, rfl, hraw.symm ▸ hlast, hkept⟩

theorem LaidOut.exists_insertionSite
    {document : Document} {row : List Segment} {close : Nat}
    (h : document.LaidOut row)
    (hclose : document.rootCloseStart = .ok close) :
    Nonempty (InsertionSite document row) := by
  by_cases hline : document.text.startsLine close = true
  · rcases h.exists_ownLine hclose hline with ⟨site, _⟩
    exact ⟨site⟩
  · -- The end tag shares its line, and the new element begins another one.
    rcases h.exists_rootCloseStart hclose with
      ⟨front, content, back, hrow, hsize, hfitFront, hleads, hrest⟩
    let rest : List Segment := .rootClose content :: back
    have htext : document.text = Segments.raw front ++ Segments.raw rest := by
      rw [← h.raw, hrow, Segments.raw_append]
    have hending := Header.not_mem_ending document.lineEnding
    refine ⟨⟨front, document.lineEnding.text ++ entryIndent, document.lineEnding.text, content,
      back, hfitFront, hleads, hrest, List.not_mem_append hending (by decide), hending,
      h.plainStart_front hleads htext, by rw [hrow, Segments.solid_append], ?_⟩⟩
    intro element
    have hsplice := Text.splice_append (Segments.raw front) [] (Segments.raw rest)
      (document.lineEnding.text ++ entryIndent ++ element ++ document.lineEnding.text)
    rw [Text.size_nil, Nat.add_zero, List.append_nil] at hsplice
    rw [insertEntry, hclose]
    simp only
    rw [if_neg hline, insertAt, splice, hsize, htext, hsplice]

/-- A new element with the texts around it, at its site. -/
theorem InsertionSite.exists_laidOut
    {document : Document} {row : List Segment} {segment : Segment}
    (site : InsertionSite document row)
    (h : document.LaidOut row)
    (hblock : segment.isBlock = true)
    (hfits : segment.Fits true)
    (hsegment : segment.Readable) :
    exists edited : Document,
      document.insertEntry segment.raw = .ok edited ∧
        edited.LaidOut (site.front ++ .inner (.text site.lead) :: segment ::
          .inner (.text site.follow) :: .rootClose site.content :: site.back) := by
  have hreadable : forall other,
      other ∈ site.front ++ .rootClose site.content :: site.back -> other.Readable := by
    apply Segments.readable_of_solid _ h.readable
    rw [site.solid_row, Segments.solid_append]
  rw [site.insertEntry_eq]
  exact exists_laidOut_line (site.plain []) site.fit_front site.inRoot site.fit_back hreadable
    hblock hfits hsegment site.lead_noMarkup site.follow_noMarkup

/-- A new element is the last segment but for text before the last end tag of the root element. -/
theorem LaidOut.exists_insertEntry
    {document : Document} {row : List Segment} {segment : Segment} {close : Nat}
    (h : document.LaidOut row)
    (hclose : document.rootCloseStart = .ok close)
    (hblock : segment.isBlock = true)
    (hfits : segment.Fits true)
    (hsegment : segment.Readable) :
    exists (edited : Document) (front back row' : List Segment),
      document.insertEntry segment.raw = .ok edited ∧ edited.LaidOut row' ∧
        Segments.solid row = Segments.solid front ++ Segments.solid back ∧
        Segments.solid row' = Segments.solid front ++ segment :: Segments.solid back := by
  rcases h.exists_insertionSite hclose with ⟨site⟩
  rcases site.exists_laidOut h hblock hfits hsegment with ⟨edited, hedited, hlaid⟩
  refine ⟨edited, site.front, .rootClose site.content :: site.back, _, hedited, hlaid,
    site.solid_row, ?_⟩
  rw [Segments.solid_append, Segments.solid_cons_of_isText rfl,
    Segments.solid_cons_of_not_isText (Segment.isText_of_isBlock hblock),
    Segments.solid_cons_of_isText rfl]

end Document
end AndroidStrings
