import Mathlib.Data.List.TakeWhile
import AndroidStrings.Proofs.Document.SingleRoot
import AndroidStrings.Proofs.Text.Rewrite

/-!
# The head of a sorted document

Before the content of the root element sorting writes the declaration, what stands between the
declaration and the root element, trimmed, and the opening tag.

## Main statements

- `exists_header` : what sorting writes there are events again.
- `heads_of_front` : a document that begins with them is written with the same ones.
-/

namespace AndroidStrings

open Markup

/-!
# Trimmed events
-/

namespace Markup

/-- An event that may stand before the root element and is no declaration. -/
def Event.IsProlog (event : Event) : Prop :=
  event.IsBeside ∧ event.isDeclaration = false

theorem isProlog_text
    {content : Text}
    (h : '<' ∉ content) :
    (Event.text content).IsProlog :=
  ⟨⟨rfl, h, rfl⟩, rfl⟩

theorem trim_raw_of_markup
    {event : Event}
    (h : forall content : Text, event ≠ .text content) :
    (forall t : Text,
      Text.trimStart CharClass.isWhiteSpace (event.raw ++ t) = event.raw ++ t) ∧
        Text.trimEnd CharClass.isWhiteSpace event.raw = event.raw := by
  have hstart : forall t : Text,
      Text.trimStart CharClass.isWhiteSpace ('<' :: t) = '<' :: t := by
    intro t
    rw [Text.trimStart, List.dropWhile_cons_of_neg (by decide)]
  have hend : forall t : Text, t.getLast? = some '>' ->
      Text.trimEnd CharClass.isWhiteSpace t = t := by
    intro t hlast
    apply Text.trimEnd_eq_self
    intro c hc
    rw [hlast, Option.some.injEq] at hc
    rw [← hc]
    decide
  cases event with
  | text content => exact absurd rfl (h content)
  | _ =>
      constructor
      · intro t
        exact hstart _
      · apply hend
        simp [Event.raw, List.getLast?_cons, List.getLast?_append]

theorem exists_trimStart_spell
    {events : List Event}
    (h : forall event, event ∈ events -> event.IsProlog) :
    exists trimmed : List Event,
      (forall event, event ∈ trimmed -> event.IsProlog) ∧
        spell trimmed = Text.trimStart CharClass.isWhiteSpace (spell events) := by
  induction events with
  | nil => exact ⟨[], by simp, rfl⟩
  | cons event events ih =>
      have hrest : forall other, other ∈ events -> other.IsProlog :=
        (List.forall_mem_cons.mp h).2
      by_cases htext : exists content : Text, event = .text content
      · rcases htext with ⟨content, rfl⟩
        have hcontent : '<' ∉ content := (h (.text content) (by simp)).1.spelled
        cases htrim : Text.trimStart CharClass.isWhiteSpace content with
        | nil =>
            -- The text is white space, and the next event comes first.
            rcases ih hrest with ⟨trimmed, htrimmed, hspell⟩
            refine ⟨trimmed, htrimmed, ?_⟩
            rw [hspell, spell_cons, Text.trimStart, Text.trimStart, Event.raw,
              List.dropWhile_append_of_pos (List.dropWhile_eq_nil_iff.mp htrim)]
        | cons c core =>
            refine ⟨.text (c :: core) :: events, ?_, ?_⟩
            · intro other hother
              rcases List.mem_cons.mp hother with heq | hmem
              · rw [heq, ← htrim]
                exact isProlog_text fun hmem =>
                  hcontent ((List.dropWhile_sublist _).subset hmem)
              · exact hrest other hmem
            · rw [spell_cons, spell_cons, Event.raw, Event.raw, ← htrim, Text.trimStart,
                Text.trimStart, List.dropWhile_append, if_neg]
              rw [show content.dropWhile CharClass.isWhiteSpace = c :: core from htrim]
              simp
      · have hmarkup : forall content : Text, event ≠ .text content :=
          fun content heq => htext ⟨content, heq⟩
        exact ⟨event :: events, h, ((trim_raw_of_markup hmarkup).1 _).symm⟩

theorem exists_trimEnd_spell
    {events : List Event}
    (h : forall event, event ∈ events -> event.IsProlog) :
    exists trimmed : List Event,
      (forall event, event ∈ trimmed -> event.IsProlog) ∧
        spell trimmed = Text.trimEnd CharClass.isWhiteSpace (spell events) := by
  induction events with
  | nil => exact ⟨[], by simp, rfl⟩
  | cons event events ih =>
      rcases ih (List.forall_mem_cons.mp h).2 with
        ⟨trimmed, htrimmed, hspell⟩
      by_cases hnil : Text.trimEnd CharClass.isWhiteSpace (spell events) = []
      · -- Nothing but white space follows, so the event is trimmed itself.
        have hwhite : forall c, c ∈ spell events -> CharClass.isWhiteSpace c = true := by
          rcases Text.exists_trimEnd_append CharClass.isWhiteSpace (spell events) with
            ⟨back, heq, hback⟩
          rw [hnil, List.nil_append] at heq
          rw [heq]
          exact hback
        rw [spell_cons, Text.trimEnd_append_of_all hwhite]
        by_cases htext : exists content : Text, event = .text content
        · rcases htext with ⟨content, rfl⟩
          have hcontent : '<' ∉ content := (h (.text content) (by simp)).1.spelled
          refine ⟨[.text (Text.trimEnd CharClass.isWhiteSpace content)], ?_, by simp [Event.raw]⟩
          intro other hother
          rw [List.mem_singleton.mp hother]
          apply isProlog_text
          rcases Text.exists_trimEnd_append CharClass.isWhiteSpace content with ⟨back, heq, _⟩
          intro hmem
          rw [heq] at hcontent
          exact hcontent (List.mem_append_left _ hmem)
        · have hmarkup : forall content : Text, event ≠ .text content :=
            fun content heq => htext ⟨content, heq⟩
          refine ⟨[event], ?_, ?_⟩
          · intro other hother
            rw [List.mem_singleton.mp hother]
            exact h event (by simp)
          · rw [(trim_raw_of_markup hmarkup).2]
            simp
      · refine ⟨event :: trimmed, ?_, ?_⟩
        · intro other hother
          rcases List.mem_cons.mp hother with heq | hmem
          · rw [heq]
            exact h event (by simp)
          · exact htrimmed other hmem
        · rw [spell_cons, spell_cons, hspell, Text.trimEnd_append_of_ne_nil hnil]

/-- Trimmed, what stands before the root element is a list of such events again. -/
theorem exists_trim_spell
    {events : List Event}
    (h : forall event, event ∈ events -> event.IsProlog) :
    exists trimmed : List Event,
      (forall event, event ∈ trimmed -> event.IsProlog) ∧
        spell trimmed = Text.trim CharClass.isWhiteSpace (spell events) := by
  rcases exists_trimStart_spell h with ⟨started, hstarted, hstart⟩
  rcases exists_trimEnd_spell hstarted with ⟨trimmed, htrimmed, hend⟩
  exact ⟨trimmed, htrimmed, by rw [hend, hstart]; rfl⟩

/-- Either no event is a declaration, or one of them is the last one. -/
theorem exists_last_declaration (events : List Event) :
    (forall event, event ∈ events -> event.isDeclaration = false) ∨
      exists (before after : List Event) (content : Text),
        events = before ++ .declaration content :: after ∧
          forall event, event ∈ after -> event.isDeclaration = false := by
  induction events with
  | nil => exact .inl (by simp)
  | cons event events ih =>
      rcases ih with hnone | ⟨before, after, content, heq, hafter⟩
      · cases hevent : event.isDeclaration with
        | false =>
            left
            intro other hother
            rcases List.mem_cons.mp hother with hfirst | hrest
            · rw [hfirst, hevent]
            · exact hnone other hrest
        | true =>
            right
            cases event with
            | declaration content => exact ⟨[], events, content, rfl, hnone⟩
            | _ => simp [Event.isDeclaration] at hevent
      · exact .inr ⟨event :: before, after, content, by rw [heq]; rfl, hafter⟩

/-- The content of a start tag does not end with the slash of an empty one. -/
theorem getLast?_of_spelled_startTag
    {content : Text}
    (h : (Event.startTag content).Spelled) :
    content.getLast? ≠ some '/' := by
  rcases (construct_of_spelled h (by simp)).exists_tagContent rfl with ⟨inner, hevent, _⟩
  unfold tagEvent at hevent
  split at hevent
  · simp at hevent
  · split at hevent
    · simp at hevent
    · rename_i hlast
      rw [Event.startTag.injEq] at hevent
      rw [hevent]
      exact hlast

end Markup

/-!
# Headers
-/

/-- What is written before the content of the root element: the content of the declaration, the
events between it and the root element, and the content of the opening tag. -/
structure Header where
  declaration : Text
  prolog : List Event
  opening : Text

namespace Header

structure WellFormed (header : Header) : Prop where
  declaration : (Event.declaration header.declaration).Spelled
  prolog : forall event, event ∈ header.prolog -> event.IsProlog
  trimmed : Text.trim CharClass.isWhiteSpace (spell header.prolog) = spell header.prolog
  opening : (Event.startTag header.opening).Spelled ∧ tagName header.opening = Reader.rootName

/-- A document is written with the given header. -/
structure Heads (header : Header) (document : Document) : Prop where
  declaration : document.declaration?.getD Document.defaultDeclaration =
    (Event.declaration header.declaration).raw
  prolog : document.prolog = spell header.prolog
  opening : document.sortedRootTag = (Event.startTag header.opening).raw

/-- The events behind the declaration. -/
def behind (ending : LineEnding) (header : Header) : List Event :=
  .text ending.text ::
    if (spell header.prolog).isEmpty then [] else header.prolog ++ [.text ending.text]

/-- The events before the root element. -/
def front (ending : LineEnding) (header : Header) : List Event :=
  .declaration header.declaration :: header.behind ending

theorem not_mem_ending (ending : LineEnding) : '<' ∉ ending.text := by
  cases ending <;> decide

section WellFormed

variable {header : Header}

theorem WellFormed.behind
    (h : header.WellFormed)
    (ending : LineEnding) :
    forall event, event ∈ header.behind ending -> event.IsProlog := by
  have htext := isProlog_text (not_mem_ending ending)
  intro event hevent
  rw [Header.behind] at hevent
  rcases List.mem_cons.mp hevent with heq | hevent
  · rw [heq]
    exact htext
  · split at hevent
    · simp at hevent
    · rcases List.mem_append.mp hevent with hprolog | hending
      · exact h.prolog event hprolog
      · rw [List.mem_singleton.mp hending]
        exact htext

theorem WellFormed.front
    (h : header.WellFormed)
    (ending : LineEnding) :
    forall event, event ∈ header.front ending -> event.IsBeside := by
  intro event hevent
  rcases List.mem_cons.mp hevent with heq | hbehind
  · rw [heq]
    exact ⟨rfl, h.declaration, rfl⟩
  · exact (h.behind ending event hbehind).1

theorem WellFormed.trim_behind
    (h : header.WellFormed)
    (ending : LineEnding) :
    Text.trim CharClass.isWhiteSpace (spell (header.behind ending)) = spell header.prolog := by
  have hwhite := Text.isWhite_ending ending
  rw [Header.behind, spell_cons, Event.raw, Text.trim_append_of_white hwhite]
  split
  · rename_i hnil
    rw [List.isEmpty_iff.mp hnil]
    rfl
  · -- What is trimmed already stays when white space behind it is taken away.
    rename_i hne
    have hne' : Text.trimStart CharClass.isWhiteSpace (spell header.prolog) =
        spell header.prolog := by
      have htrimmed := h.trimmed
      cases hspell : spell header.prolog with
      | nil => rfl
      | cons c rest =>
          have hhead : CharClass.isWhiteSpace c = false := by
            apply Text.head?_trim (t := spell header.prolog)
            rw [htrimmed, hspell]
            rfl
          rw [Text.trimStart, List.dropWhile_cons_of_neg (by simp [hhead])]
    have hstart : Text.trimStart CharClass.isWhiteSpace (spell header.prolog ++ ending.text) =
        spell header.prolog ++ ending.text := by
      rw [Text.trimStart] at hne'
      rw [Text.trimStart, List.dropWhile_append, hne', if_neg hne]
    have hend := h.trimmed
    rw [Text.trim, hne'] at hend
    rw [spell_append, spell_cons, spell_nil, List.append_nil, Event.raw, Text.trim, hstart,
      Text.trimEnd_append_of_all hwhite, hend]

end WellFormed

end Header

/-!
# The header of a row
-/

namespace RootedRow

section Parsed

variable {row : RootedRow} {document : Document}

theorem Reads.prologSpan_eq
    {start : Nat}
    (h : row.Reads document)
    (hstart : (document.layout.declaration.map Span.stop).getD 0 = start) :
    document.prologSpan = ⟨start, (spell row.front).size⟩ := by
  unfold Document.prologSpan
  rw [h.rootOpen]
  cases hdeclaration : document.layout.declaration with
  | none =>
      rw [hdeclaration] at hstart
      rw [← hstart]
      rfl
  | some span =>
      rw [hdeclaration] at hstart
      rw [← hstart]
      rfl

theorem Reads.prolog_of_none
    (h : row.Reads document)
    (hnone : forall event, event ∈ row.front -> event.isDeclaration = false) :
    document.declaration? = none ∧
      document.prolog = Text.trim CharClass.isWhiteSpace (spell row.front) := by
  have hdeclaration : document.layout.declaration = none := by
    rw [h.declaration, Segments.declarationFrom_of_none hnone]
  constructor
  · rw [Document.declaration?, hdeclaration]
    rfl
  · have hstart : (document.layout.declaration.map Span.stop).getD 0 = 0 := by
      rw [hdeclaration]
      rfl
    rw [Document.prolog, h.prologSpan_eq hstart]
    congr 1
    have htext : document.text = [] ++ spell row.front ++ ((Event.startTag row.opening).raw ++
        (Segments.raw row.inside ++ ((Event.endTag row.closing).raw ++ spell row.back))) := by
      rw [h.text, raw_segments]
      simp
    exact slice_eq_of_append htext rfl (by simp)

theorem Reads.prolog_of_declaration
    {before after : List Event} {content : Text}
    (h : row.Reads document)
    (hfront : row.front = before ++ .declaration content :: after)
    (hafter : forall event, event ∈ after -> event.isDeclaration = false) :
    document.declaration? = some (Event.declaration content).raw ∧
      document.prolog = Text.trim CharClass.isWhiteSpace (spell after) := by
  have hdeclaration := h.declaration
  rw [hfront, Segments.declarationFrom_append hafter, Nat.zero_add] at hdeclaration
  have htext : document.text = spell before ++ (Event.declaration content).raw ++
      (spell after ++ ((Event.startTag row.opening).raw ++ (Segments.raw row.inside ++
        ((Event.endTag row.closing).raw ++ spell row.back)))) := by
    rw [h.text, raw_segments, hfront]
    simp
  constructor
  · rw [Document.declaration?, hdeclaration, Option.map_some]
    congr 1
    exact slice_eq_of_append htext rfl rfl
  · have hstart : (document.layout.declaration.map Span.stop).getD 0 =
        (spell before).size + (Event.declaration content).raw.size := by
      rw [hdeclaration]
      rfl
    rw [Document.prolog, h.prologSpan_eq hstart]
    congr 1
    have hrest := htext
    rw [← List.append_assoc] at hrest
    refine slice_eq_of_append hrest ?_ ?_
    · rw [Text.size_append]
    · rw [hfront, spell_append, spell_cons, Text.size_append, Text.size_append, Nat.add_assoc]

/-- No declaration stands behind the opening tag. -/
theorem Reads.prologSpan_le
    (h : row.Reads document) :
    document.prologSpan.start ≤ document.prologSpan.stop := by
  rw [h.prologSpan_eq rfl, h.declaration]
  rcases exists_last_declaration row.front with hnone | ⟨before, after, content, hfront, hafter⟩
  · rw [Segments.declarationFrom_of_none hnone]
    exact Nat.zero_le _
  · rw [hfront, Segments.declarationFrom_append hafter, Nat.zero_add, spell_append, spell_cons,
      Text.size_append, Text.size_append, ← Nat.add_assoc]
    exact Nat.le_add_right _ _

theorem Reads.sortedRootTag_eq
    (hrow : row.WellFormed)
    (h : row.Reads document) :
    document.sortedRootTag = (Event.startTag row.opening).raw := by
  have htag : document.rootOpenTag? = some (Event.startTag row.opening).raw := by
    have htext : document.text = spell row.front ++ (Event.startTag row.opening).raw ++
        (Segments.raw row.inside ++ ((Event.endTag row.closing).raw ++ spell row.back)) := by
      rw [h.text, raw_segments]
      simp
    rw [Document.rootOpenTag?, h.rootOpen, Option.map_some]
    congr 1
    exact slice_eq_of_append htext rfl rfl
  have hlast := getLast?_of_spelled_startTag hrow.opening.1
  have hends : (Event.startTag row.opening).raw.endsWith "/>".toList = false := by
    rw [Text.endsWith, Bool.eq_false_iff]
    intro hback
    rcases List.isSuffixOf_iff_suffix.mp hback with ⟨front, heq⟩
    have hcut : front ++ ['/'] ++ ['>'] = '<' :: row.opening ++ ['>'] := by
      simpa [Event.raw] using heq
    have hopening := List.append_cancel_right hcut
    cases front with
    | nil => simp at hopening
    | cons c front =>
        simp only [List.cons_append, List.cons.injEq] at hopening
        rw [← hopening.2, List.getLast?_concat] at hlast
        exact hlast rfl
  unfold Document.sortedRootTag
  simp only [htag, Option.getD_some, hends]
  rfl

theorem spelled_defaultDeclaration :
    exists content : Text,
      (Event.declaration content).Spelled ∧
        (Event.declaration content).raw = Document.defaultDeclaration := by
  let content : Text := "xml version=\"1.0\" encoding=\"utf-8\"".toList
  have hcontent : ¬ "?>".toList <:+: content := by
    rw [← Text.contains_iff_isInfix]
    decide
  have hspelled := spelled_instructionEvent hcontent (by decide)
  rw [instructionEvent, if_pos (by decide)] at hspelled
  exact ⟨content, hspelled, by decide⟩

/-- What sorting writes before the content of the root element is a header. -/
theorem exists_header
    (hrow : row.WellFormed)
    (h : row.Reads document) :
    exists header : Header, header.WellFormed ∧ header.Heads document := by
  have hopening := h.sortedRootTag_eq hrow
  rcases exists_last_declaration row.front with hnone | ⟨before, after, content, hfront, hafter⟩
  · have hprolog := h.prolog_of_none hnone
    rcases exists_trim_spell fun event hevent => ⟨hrow.front event hevent, hnone event hevent⟩ with
      ⟨trimmed, htrimmed, hspell⟩
    rcases spelled_defaultDeclaration with ⟨content, hcontent, hraw⟩
    refine ⟨⟨content, trimmed, row.opening⟩, ⟨hcontent, htrimmed, ?_, hrow.opening⟩, ?_, ?_,
      hopening⟩
    · rw [hspell, Text.trim_trim]
    · rw [hprolog.1, hraw]
      rfl
    · rw [hprolog.2, hspell]
  · have hprolog := h.prolog_of_declaration hfront hafter
    have hbeside : forall event, event ∈ after -> event.IsProlog := by
      intro event hevent
      exact ⟨hrow.front event (by rw [hfront]; simp [hevent]), hafter event hevent⟩
    rcases exists_trim_spell hbeside with ⟨trimmed, htrimmed, hspell⟩
    have hcontent : (Event.declaration content).Spelled :=
      (hrow.front _ (by rw [hfront]; simp)).spelled
    refine ⟨⟨content, trimmed, row.opening⟩, ⟨hcontent, htrimmed, ?_, hrow.opening⟩, ?_, ?_,
      hopening⟩
    · rw [hspell, Text.trim_trim]
    · rw [hprolog.1]
      rfl
    · rw [hprolog.2, hspell]

/-- A document that begins with a header is written with it. -/
theorem heads_of_front
    {header : Header} {ending : LineEnding}
    (hheader : header.WellFormed)
    (hrow : row.WellFormed)
    (h : row.Reads document)
    (hfront : row.front = header.front ending)
    (hopening : row.opening = header.opening) :
    header.Heads document := by
  have hafter := fun event hevent => (hheader.behind ending event hevent).2
  have hfirst : row.front = [] ++ .declaration header.declaration :: header.behind ending := hfront
  have hprolog := h.prolog_of_declaration hfirst hafter
  refine ⟨?_, ?_, ?_⟩
  · rw [hprolog.1]
    rfl
  · rw [hprolog.2, hheader.trim_behind]
  · rw [h.sortedRootTag_eq hrow, hopening]

/-- Documents that begin alike are written with the same header. -/
theorem Reads.heads_of_same_front
    {row' : RootedRow} {document' : Document} {header : Header}
    (hrow : row.WellFormed)
    (hrow' : row'.WellFormed)
    (h : row.Reads document)
    (h' : row'.Reads document')
    (hfront : row'.front = row.front)
    (hopening : row'.opening = row.opening)
    (hheads : header.Heads document) :
    header.Heads document' := by
  have htag : document'.sortedRootTag = document.sortedRootTag := by
    rw [h'.sortedRootTag_eq hrow', h.sortedRootTag_eq hrow, hopening]
  have hhead : document'.declaration? = document.declaration? ∧
      document'.prolog = document.prolog := by
    rcases exists_last_declaration row.front with hnone | ⟨before, after, content, hlast, hafter⟩
    · have hold := h.prolog_of_none hnone
      have hnew := h'.prolog_of_none (hfront ▸ hnone)
      rw [hold.1, hold.2, hnew.1, hnew.2, hfront]
      exact ⟨rfl, rfl⟩
    · have hold := h.prolog_of_declaration hlast hafter
      have hnew := h'.prolog_of_declaration (hfront.trans hlast) hafter
      rw [hold.1, hold.2, hnew.1, hnew.2]
      exact ⟨rfl, rfl⟩
  refine ⟨?_, ?_, ?_⟩
  · rw [hhead.1, hheads.declaration]
  · rw [hhead.2, hheads.prolog]
  · rw [htag, hheads.opening]

end Parsed

end RootedRow
end AndroidStrings
