import AndroidStrings.Proofs.Document.Block
import AndroidStrings.Proofs.Document.Structure
import AndroidStrings.Proofs.Document.WrittenText
import AndroidStrings.Proofs.Markup.Relaid

/-!
# Reading what was written

A block that is written anew has the markup of the old one, laid out anew.  Where the reader gets
through it at all, it is a block again, with the same tag, and the reader comes out of it where
it went in.

## Main statement

`exists_block_of_readRest` : what the reader gets through is a block with the old tag.
-/

namespace AndroidStrings

open Markup
open Text (Relaid IsMarkup)

namespace Cursor

theorem advance_of_readRest
    {text rest : Text} {cursor : Cursor} {event : Event} {reader : Reader}
    (hevent : event.Decided)
    (h : cursor.readRest text (event.raw ++ rest) = .ok reader) :
    event.Spelled ∧
      exists moved : Cursor,
        cursor.advance text event = .ok moved ∧ moved.readRest text rest = .ok reader := by
  rcases hevent with hspelled | hrefused
  · rw [readRest_raw text cursor hspelled] at h
    exact ⟨hspelled, Success.bind_eq_ok_iff.mp h⟩
  · rcases hrefused rest with ⟨fault, hfault⟩
    rw [readRest_of_next_error text cursor hfault] at h
    simp at h

/-- Behind a loose forest that is read, the reader has the elements open that it had before. -/
theorem wellFormed_of_readRest
    {forest : Forest} {text rest : Text} {cursor : Cursor} {reader : Reader}
    (hloose : forest.Loose)
    (h : cursor.readRest text (forest.raw ++ rest) = .ok reader) :
    forest.WellFormed ∧
      exists moved : Cursor,
        moved.opened = cursor.opened ∧ moved.readRest text rest = .ok reader := by
  induction forest generalizing cursor rest with
  | nil => exact ⟨trivial, cursor, rfl, h⟩
  | leaf event behind ih =>
      rw [Forest.raw_leaf, List.append_assoc] at h
      rcases advance_of_readRest hloose.2.1 h with ⟨hspelled, moved, hadvance, hmore⟩
      rcases ih hloose.2.2 hmore with ⟨hwell, last, hopened, hlast⟩
      have hnames := openNames_of_advance hadvance
      rw [openNames_leaf hloose.1, Except.ok.injEq] at hnames
      exact ⟨⟨hloose.1, hspelled, hwell⟩, last, by rw [hopened, hnames], hlast⟩
  | element opening inside closing behind ihinside ihbehind =>
      rw [Forest.raw_element, List.append_assoc, List.append_assoc, List.append_assoc] at h
      rcases advance_of_readRest hloose.1.1 h with ⟨hopening, inner, hadvance, hinner⟩
      have hnames := openNames_of_advance hadvance
      rw [openNames, Except.ok.injEq] at hnames
      rcases ihinside hloose.2.1 hinner with ⟨hinside, before, hbefore, hclose⟩
      rcases advance_of_readRest hloose.1.2 hclose with ⟨hclosing, after, hadvance', hafter⟩
      have hnames' := openNames_of_advance hadvance'
      rw [hbefore, ← hnames, openNames] at hnames'
      rcases ihbehind hloose.2.2 hafter with ⟨hbehind, last, hopened, hlast⟩
      split at hnames'
      · rename_i hname
        rw [Except.ok.injEq] at hnames'
        exact ⟨⟨⟨hopening, hclosing, hname.symm⟩, hinside, hbehind⟩, last,
          by rw [hopened, ← hnames'], hlast⟩
      · simp at hnames'

end Cursor

/-!
# Tags that begin in the same way
-/

namespace Markup

theorem tagName_append_space
    {c : Char}
    (hc : isSpace c = true)
    (front back : Text) :
    tagName (front ++ c :: back) = tagName front := by
  induction front with
  | nil => simp [tagName, hc]
  | cons d front ih =>
      simp only [tagName, List.cons_append, List.takeWhile_cons] at ih ⊢
      rw [ih]

theorem isSpace_of_lineEnd
    {t : Text}
    (h : t.head? = some '\r' ∨ t.head? = some '\n') :
    exists (c : Char) (rest : Text), t = c :: rest ∧ isSpace c = true := by
  cases t with
  | nil => simp at h
  | cons c rest =>
      refine ⟨c, rest, rfl, ?_⟩
      simp only [List.head?_cons, Option.some.injEq] at h
      rcases h with h | h <;> rw [h] <;> rfl

/-- Of a text that begins with a tag, a front part before a line break holds the whole tag or ends
in it. -/
theorem tag_or_break_of_append
    {content rest front back : Text}
    (h : '<' :: content ++ '>' :: rest = front ++ back)
    (hback : back.head? = some '\r' ∨ back.head? = some '\n') :
    (exists more : Text, front = '<' :: content ++ '>' :: more) ∨
      exists (start : Text) (c : Char) (more : Text),
        front = '<' :: start ∧ content = start ++ c :: more ∧ isSpace c = true := by
  rcases isSpace_of_lineEnd hback with ⟨c, behind, rfl, hc⟩
  rcases List.append_eq_append_iff.mp h with ⟨middle, hfront, hmiddle⟩ | ⟨middle, hcontent, hmiddle⟩
  · left
    cases middle with
    | nil =>
        simp only [List.nil_append, List.cons.injEq] at hmiddle
        rw [← hmiddle.1] at hc
        simp [isSpace] at hc
    | cons d middle =>
        simp only [List.cons_append, List.cons.injEq] at hmiddle
        exact ⟨middle, by rw [hfront, ← hmiddle.1]⟩
  · right
    cases middle with
    | nil =>
        simp only [List.nil_append, List.cons.injEq] at hmiddle
        rw [hmiddle.1] at hc
        simp [isSpace] at hc
    | cons d middle =>
        simp only [List.cons_append, List.cons.injEq] at hmiddle
        cases front with
        | nil =>
            simp only [List.nil_append, List.cons.injEq] at hcontent
            rw [hmiddle.1, ← hcontent.1] at hc
            simp [isSpace] at hc
        | cons e front =>
            simp only [List.cons_append, List.cons.injEq] at hcontent
            exact ⟨front, d, middle, by rw [hcontent.1], hcontent.2, by rw [← hmiddle.1]; exact hc⟩

/-- Two tags with a common front part, followed by a line break in both, are the same up to white
space in them. -/
theorem content_of_common_front
    {content content' rest rest' front back back' : Text}
    (h : '<' :: content ++ '>' :: rest = front ++ back)
    (h' : '<' :: content' ++ '>' :: rest' = front ++ back')
    (hcontent : isTagContent none content = true)
    (hcontent' : isTagContent none content' = true)
    (hback : (back = [] ∧ back' = []) ∨
      (back.head? = some '\r' ∨ back.head? = some '\n') ∧
        (back'.head? = some '\r' ∨ back'.head? = some '\n')) :
    content' = content ∨
      exists (start : Text) (c : Char) (more : Text) (c' : Char) (more' : Text),
        content = start ++ c :: more ∧ content' = start ++ c' :: more' ∧
          isSpace c = true ∧ isSpace c' = true := by
  have unique : forall {u v s t : Text},
      '<' :: u ++ '>' :: s = '<' :: v ++ '>' :: t -> isTagContent none u = true ->
        isTagContent none v = true -> v = u := by
    intro u v s t heq hu hv
    simp only [List.cons_append, List.cons.injEq, true_and] at heq
    have hcut := cutTag?_eq_some_iff.mpr ⟨heq, hv⟩
    rw [cutTag?_eq_some_iff.mpr ⟨rfl, hu⟩, Option.some.injEq, Prod.mk.injEq] at hcut
    exact hcut.1.symm
  rcases hback with ⟨hnil, hnil'⟩ | ⟨hbreak, hbreak'⟩
  · left
    rw [hnil, ← hnil', ← h'] at h
    exact unique h hcontent hcontent'
  · rcases tag_or_break_of_append h hbreak with ⟨more, hfront⟩ | ⟨start, c, more, hfront, heq, hc⟩
    · left
      rw [hfront, List.append_assoc, List.cons_append] at h'
      exact unique h'.symm hcontent hcontent'
    · rcases tag_or_break_of_append h' hbreak' with
        ⟨more', hfront'⟩ | ⟨start', c', more', hfront', heq', hc'⟩
      · left
        rw [hfront', List.append_assoc, List.cons_append] at h
        exact unique h hcontent hcontent'
      · right
        rw [hfront, List.cons.injEq] at hfront'
        rw [← hfront'.2] at heq'
        exact ⟨start, c, more, c', more', heq, heq', hc, hc'⟩

end Markup

/-!
# Blocks
-/

namespace Segment

theorem isMarkup_raw
    {segment : Segment}
    (h : segment.isBlock = true) :
    IsMarkup segment.raw := by
  cases segment with
  | element opening inside closing =>
      constructor
      · simp [Event.raw]
      · simp [Event.raw, List.getLast?_cons]
  | inner event =>
      cases event with
      | emptyTag content =>
          constructor
          · simp [Event.raw]
          · simp [Event.raw, List.getLast?_append, List.getLast?_cons]
      | _ => simp [isBlock] at h
  | _ => simp [isBlock] at h

/-- What stands between the content and the bracket in the tag that a block begins with. -/
def slash : Segment -> Text
  | inner (.emptyTag _) => ['/']
  | _ => []

theorem slash_eq (segment : Segment) : segment.slash = [] ∨ segment.slash = ['/'] := by
  unfold slash
  split
  · exact .inr rfl
  · exact .inl rfl

/-- The text between the brackets of the tag that a block begins with. -/
theorem exists_tagContent
    {segment : Segment}
    (hblock : segment.isBlock = true)
    (hfits : segment.Fits true) :
    exists rest : Text,
      segment.raw = '<' :: (segment.content ++ segment.slash) ++ '>' :: rest ∧
        isTagContent none (segment.content ++ segment.slash) = true := by
  cases segment with
  | element opening inside closing =>
      have hconstruct := construct_of_spelled hfits.2.1.1 (by simp)
      rcases hconstruct.exists_tagContent rfl with ⟨inner, hevent, _, _, hinner⟩
      have hraw := congrArg Event.raw hevent
      rw [raw_tagEvent] at hraw
      simp only [Event.raw, List.cons_append, List.cons.injEq, true_and] at hraw
      have hsame : opening = inner := List.append_cancel_right hraw
      refine ⟨inside.raw ++ (Event.endTag closing).raw, ?_, ?_⟩
      · simp [content, slash, Event.raw]
      · show isTagContent none (opening ++ []) = true
        rw [List.append_nil, hsame]
        exact hinner
  | inner event =>
      cases event with
      | emptyTag inner =>
          have hspelled : (Event.emptyTag inner).Spelled := hfits.2.2
          refine ⟨[], ?_, ?_⟩
          · simp [content, slash, Event.raw]
          · rw [slash, content, isTagContent_append_plain (.inl rfl) (by rfl)]
            exact isTagContent_of_spelled_emptyTag hspelled
      | _ => simp [isBlock] at hblock
  | _ => simp [isBlock] at hblock

/-- What the reader gets through of a block laid out anew is a block of the same form. -/
theorem exists_block_of_relaid
    {segment : Segment} {t text rest : Text} {cursor : Cursor} {reader : Reader}
    (hblock : segment.isBlock = true)
    (hfits : segment.Fits true)
    (hrelaid : Relaid segment.raw t)
    (h : cursor.readRest text (t ++ rest) = .ok reader) :
    exists segment' : Segment,
      segment'.isBlock = true ∧ segment'.Fits true ∧ segment'.raw = t ∧
        segment'.slash = segment.slash := by
  cases segment with
  | element opening inside closing =>
      have hwell : (Forest.element opening inside closing .nil).WellFormed := hfits.2
      have hparts : Relaid ([] ++ ((Event.startTag opening).raw ++ inside.raw ++
          (Event.endTag closing).raw ++ [])) t := by
        simpa using hrelaid
      have hinside : forall u : Text, Relaid inside.raw u ->
          exists inside' : Forest, inside'.Loose ∧ inside'.raw = u := by
        intro u hu
        exact exists_forest_of_relaid hwell.2.1 (List.not_mem_nil (a := '<')) hu
      rcases exists_element_of_relaid hwell.1.1 hwell.1.2.1 hinside hparts with
        ⟨front, opening', closing', s', inside', rfl, hfront, hs, hloose, hopening, hclosing⟩
      rw [hfront.nil_left, hs.nil_left] at h ⊢
      have hraw : [] ++ ((Event.startTag opening').raw ++ inside'.raw ++
          (Event.endTag closing').raw ++ []) =
            (Forest.element opening' inside' closing' .nil).raw := by
        rw [Forest.raw_element]
        rfl
      rw [hraw] at h ⊢
      have hlooseElement : (Forest.element opening' inside' closing' .nil).Loose :=
        ⟨⟨hopening, hclosing⟩, hloose, trivial⟩
      have hwell' := (Cursor.wellFormed_of_readRest hlooseElement h).1
      refine ⟨element opening' inside' closing', rfl, ⟨rfl, hwell'⟩, ?_, rfl⟩
      simp [Forest.raw]
  | inner event =>
      cases event with
      | emptyTag content =>
          have hspelled : (Event.emptyTag content).Spelled := hfits.2.2
          have hparts : Relaid ([] ++ ((Event.emptyTag content).raw ++ [])) t := by
            simpa using hrelaid
          rcases (construct_of_spelled hspelled (by simp)).exists_relaid_append hparts with
            ⟨front, event, s', rfl, hfront, hs, hshape, hdecided⟩
          rcases eq_emptyTag_of_shape hshape with ⟨content', rfl⟩
          rw [hfront.nil_left, hs.nil_left, List.nil_append, List.append_nil] at h ⊢
          have hspelled' := (Cursor.advance_of_readRest hdecided h).1
          refine ⟨.inner (.emptyTag content'), rfl, ⟨rfl, rfl, hspelled'⟩, ?_, rfl⟩
          simp
      | _ => simp [isBlock] at hblock
  | _ => simp [isBlock] at hblock

/-- A name ends at the first white space, and a slash behind it does not matter. -/
theorem tagName_eq_of_append_slash
    {content slash start more : Text} {c : Char}
    (hslash : slash = [] ∨ slash = ['/'])
    (hc : isSpace c = true)
    (h : content ++ slash = start ++ c :: more) :
    tagName content = tagName start := by
  rcases hslash with rfl | rfl
  · rw [List.append_nil] at h
    rw [h, tagName_append_space hc]
  · rcases List.append_eq_append_iff.mp h with ⟨w, hw, hrest⟩ | ⟨w, hw, hrest⟩
    · cases w with
      | nil => rw [hw, List.append_nil]
      | cons d w =>
          simp only [List.cons_append, List.cons.injEq] at hrest
          have hlength := congrArg List.length hrest.2
          simp at hlength
    · cases w with
      | nil => rw [hw, List.append_nil]
      | cons d w =>
          simp only [List.cons_append, List.cons.injEq] at hrest
          rw [hw, tagName_append_space (by rw [← hrest.1]; exact hc)]

/-- The first line of a block stays, and its tag begins there. -/
theorem tag_eq_of_elementText
    {segment segment' : Segment} {hasItems : Bool} {ending : LineEnding}
    (hblock : segment.isBlock = true)
    (hblock' : segment'.isBlock = true)
    (hfits : segment.Fits true)
    (hfits' : segment'.Fits true)
    (hform : segment'.slash = segment.slash)
    (hraw : segment'.raw = Document.elementText hasItems ending segment.raw) :
    segment'.tag = segment.tag := by
  rcases exists_tagContent hblock hfits with ⟨rest, htext, hcontent⟩
  rcases exists_tagContent hblock' hfits' with ⟨rest', htext', hcontent'⟩
  rcases Text.exists_front_of_rewriteLines ending (isMarkup_raw hblock)
    (fun _ hhead => Document.trimStart_of_markup hhead) with
    ⟨front, back, back', hold, hnew, hback⟩
  have hnewText : segment'.raw = front ++ back' := hraw.trans hnew
  rw [htext] at hold
  rw [htext'] at hnewText
  unfold tag
  rcases content_of_common_front hold hnewText hcontent hcontent' hback with
    hsame | ⟨start, c, more, c', more', hstart, hstart', hc, hc'⟩
  · rw [hform] at hsame
    rw [List.append_cancel_right hsame]
  · rw [tagName_eq_of_append_slash segment.slash_eq hc hstart,
      tagName_eq_of_append_slash segment'.slash_eq hc' hstart']

end Segment

namespace Cursor

/-- A block that is written anew and read directly inside the root element. -/
theorem exists_block_of_readRest
    {segment : Segment} {hasItems : Bool} {ending : LineEnding} {text front rest : Text}
    {position : Nat} {layout : Layout} {reader : Reader}
    (hblock : segment.isBlock = true)
    (hfits : segment.Fits true)
    (htext : text = front ++ Document.elementText hasItems ending segment.raw ++ rest)
    (hposition : position = front.size)
    (h : (atRoot true position layout).readRest text
      (Document.elementText hasItems ending segment.raw ++ rest) = .ok reader) :
    exists (segment' : Segment) (found : Layout),
      segment'.isBlock = true ∧ segment'.Fits true ∧
        segment'.raw = Document.elementText hasItems ending segment.raw ∧
        segment'.tag = segment.tag ∧ segment'.layoutAt position = .ok found ∧
        (atRoot true (position + segment'.raw.size) (layout ++ found)).readRest text rest =
          .ok reader := by
  have hrelaid := Document.relaid_elementText hasItems ending (Segment.isMarkup_raw hblock)
  rcases Segment.exists_block_of_relaid hblock hfits hrelaid h with
    ⟨segment', hblock', hfits', hraw, hform⟩
  have htag := Segment.tag_eq_of_elementText hblock hblock' hfits hfits' hform hraw
  rw [← hraw] at h htext
  have hspell : segment'.raw = spell segment'.events := rfl
  rw [hspell, readRest_spell text _ hfits'.spelled,
    foldlM_advance_segment layout hfits' htext hposition] at h
  rcases Success.bind_eq_ok_iff.mp h with ⟨moved, hmoved, hrest⟩
  rcases Success.map_eq_ok_iff.mp hmoved with ⟨found, hfound, heq⟩
  have hleads : segment'.leads true = true := by
    cases segment' with
    | rootClose content => simp [Segment.isBlock] at hblock'
    | _ => rfl
  rw [← heq, hleads] at hrest
  exact ⟨segment', found, hblock', hfits', hraw, htag, hfound, hrest⟩

end Cursor
end AndroidStrings
