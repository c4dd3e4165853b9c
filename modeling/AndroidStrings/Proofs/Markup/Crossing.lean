import Mathlib.Data.List.Infix
import AndroidStrings.Proofs.Markup.Fragment

/-!
# Constructs that end behind a text

A text that is put in front of the end of a file may leave a construct open, and what follows it
then belongs to this construct.  The end that is looked at here closes a string and the root
element, and an element follows that may stand outside of the root element only.  It ends no
comment, and in it every angle bracket has its partner, so the only constructs that can reach into
it are tags that end with its first tag.  Such a tag can end with the end tag of any other string.

## Main statements

- `Construct.exists_content_of_crossing` : what reaches into the end of a file.
- `exists_sameTag` : the same tag before the end of another file.
-/

namespace AndroidStrings
namespace Markup

/-- What follows the end tag of the string. -/
def frameBack : Text :=
  "</resources><string/>".toList

def frameEnd : Text :=
  "</string>".toList ++ frameBack

variable {event : Event} {front ending rest content closing blank t : Text}

/-- The quotes that a tag can be read from inside of. -/
def IsTagQuote (quote : Option Char) : Prop :=
  quote = none ∨ quote = some '"' ∨ quote = some '\''

/-- Without quotes, a `>` ends a tag or stands inside a quote that is never closed. -/
theorem isTagContent_eq_false
    (hquotes : '"' ∉ t ∧ '\'' ∉ t)
    (hclosed : '>' ∈ t)
    {quote : Option Char}
    (hquote : IsTagQuote quote) :
    isTagContent quote t = false := by
  have hopen : forall {q : Char} {s : Text}, q ∉ s -> isTagContent (some q) s = false := by
    intro q s hq
    induction s with
    | nil => rfl
    | cons c s ih =>
        rw [List.mem_cons, not_or] at hq
        rw [isTagContent, if_neg (Ne.symm hq.1), ih hq.2]
  rcases hquote with rfl | rfl | rfl
  · induction t with
    | nil => cases hclosed
    | cons c t ih =>
        simp only [List.mem_cons, not_or] at hquotes hclosed
        rw [isTagContent]
        rcases hclosed with rfl | hclosed
        · rfl
        · rw [if_neg (by simp [Ne.symm hquotes.1.1, Ne.symm hquotes.2.1]),
            ih ⟨hquotes.1.2, hquotes.2.2⟩ hclosed, Bool.and_false]
  · exact hopen hquotes.1
  · exact hopen hquotes.2

theorem isTagContent_append_eq_false
    (h : forall {quote : Option Char}, IsTagQuote quote -> isTagContent quote t = false)
    {quote : Option Char}
    (hquote : IsTagQuote quote)
    (front : Text) :
    isTagContent quote (front ++ t) = false := by
  induction front generalizing quote with
  | nil => exact h hquote
  | cons c front ih =>
      rw [List.cons_append]
      cases quote with
      | none =>
          rw [isTagContent, ih, Bool.and_false]
          split
          · rename_i hc
            rcases hc with rfl | rfl
            · exact .inr (.inl rfl)
            · exact .inr (.inr rfl)
          · exact .inl rfl
      | some q =>
          rw [isTagContent, ih]
          split
          · exact .inl rfl
          · exact hquote

/-- What is not cut off is not cut off deeper inside either. -/
theorem cutBalanced?_add_eq_none
    {depth : Nat}
    (h : cutBalanced? depth t = none)
    (more : Nat) :
    cutBalanced? (depth + more) t = none := by
  induction t generalizing depth with
  | nil => rfl
  | cons c t ih =>
      simp only [cutBalanced?] at h ⊢
      split at h
      · rename_i hopen
        rw [if_pos hopen, Nat.add_right_comm, ih (Option.map_eq_none_iff.mp h), Option.map_none]
      · rename_i hopen
        rw [if_neg hopen]
        split at h
        · rename_i hclose
          rw [if_pos hclose]
          cases depth with
          | zero => cases h
          | succ outer =>
              rw [Nat.succ_add]
              dsimp only
              rw [ih (Option.map_eq_none_iff.mp h), Option.map_none]
        · rename_i hclose
          rw [if_neg hclose, ih (Option.map_eq_none_iff.mp h), Option.map_none]

theorem cutBalanced?_append
    (h : forall depth : Nat, cutBalanced? depth ending = none)
    {depth : Nat} {front content rest : Text}
    (hcut : cutBalanced? depth (front ++ ending) = some (content, rest)) :
    content.length < front.length := by
  induction front generalizing depth content rest with
  | nil =>
      rw [List.nil_append, h] at hcut
      cases hcut
  | cons c front ih =>
      have hextend : forall {inner : Nat},
          (cutBalanced? inner (front ++ ending)).map (fun parts => (c :: parts.1, parts.2)) =
            some (content, rest) -> content.length < (c :: front).length := by
        intro inner hinner
        rcases Option.map_eq_some_iff.mp hinner with ⟨parts, hparts, heq⟩
        have hshorter : parts.1.length < front.length := ih hparts
        rw [← (Prod.mk.inj heq).1, List.length_cons, List.length_cons]
        omega
      simp only [List.cons_append, cutBalanced?] at hcut
      split at hcut
      · exact hextend hcut
      · split at hcut
        · split at hcut
          · rw [← (Prod.mk.inj (Option.some.inj hcut)).1]
            simp
          · exact hextend hcut
        · exact hextend hcut

/-!
# Ends of constructs
-/

/-- The texts that end a comment, character data or an instruction. -/
def asideClosings : List Text :=
  ["-->".toList, "]]>".toList, "?>".toList]

theorem Construct.exists_raw_eq_append (h : Construct event) :
    exists front : Text, event.raw = front ++ ['>'] := by
  cases h with
  | @instruction content _ _ =>
      refine ⟨'<' :: '?' :: content ++ ['?'], ?_⟩
      rw [raw_instructionEvent]
      simp
  | tag _ _ _ => exact ⟨_, raw_tagEvent _⟩
  | _ => exact ⟨_, rfl⟩

/-- A construct ends with one of the closing texts, is a document type declaration, or is a tag. -/
theorem Construct.cases_of_raw (h : Construct event) :
    (exists closing : Text, closing ∈ asideClosings ∧ closing <:+ event.raw) ∨
      (exists keyword content : Text,
        event.raw = '<' :: '!' :: (keyword ++ content) ++ ['>'] ∧ IsDoctypeKeyword keyword ∧
          cutBalanced? 0 (content ++ ['>']) = some (content, [])) ∨
      exists content : Text,
        event = tagEvent content ∧ content.head? ≠ some '!' ∧ content.head? ≠ some '?' ∧
          isTagContent none content = true := by
  cases h with
  | @comment content _ =>
      exact .inl ⟨"-->".toList, by decide, '<' :: '!' :: '-' :: '-' :: content, by simp [Event.raw]⟩
  | @cdata content _ =>
      exact .inl ⟨"]]>".toList, by decide, '<' :: '!' :: "[CDATA[".toList ++ content,
        by simp [Event.raw]⟩
  | @instruction content _ _ =>
      refine .inl ⟨"?>".toList, by decide, '<' :: '?' :: content, ?_⟩
      rw [raw_instructionEvent]
      simp
  | @doctype keyword content hkeyword hcut _ =>
      exact .inr (.inl ⟨keyword, content, rfl, hkeyword, hcut []⟩)
  | @tag content hbang hmark hcontent => exact .inr (.inr ⟨content, rfl, hbang, hmark, hcontent⟩)

/-!
# The end of a file
-/

/-- Where a construct can end in the end of a file. -/
def frameStops : List Text :=
  ["</string>".toList, "</string></resources>".toList, frameEnd]

theorem mem_frameStops
    (h : ending <+: frameEnd)
    (hlast : ending.getLast? = some '>') :
    ending ∈ frameStops := by
  have hall : forall s, s ∈ frameEnd.inits -> s.getLast? = some '>' -> s ∈ frameStops := by
    decide
  exact hall ending ((List.mem_inits ending frameEnd).mpr h) hlast

theorem not_suffix_of_mem_frameStops
    {closing : Text}
    (hending : ending ∈ frameStops)
    (hclosing : closing ∈ asideClosings) :
    ¬ closing <:+ front ++ ending := by
  have hall : forall s, s ∈ frameStops -> forall s', s' ∈ asideClosings ->
      s'.length ≤ s.length ∧ ¬ s' <:+ s := by
    decide
  rcases hall ending hending closing hclosing with ⟨hlength, hnot⟩
  intro hsuffix
  exact hnot (List.suffix_of_suffix_length_le hsuffix (List.suffix_append front ending) hlength)

theorem not_mem_of_isDoctypeKeyword
    {keyword : Text}
    (h : IsDoctypeKeyword keyword) :
    '<' ∉ keyword := by
  intro hmem
  have hupper : upper '<' ∈ keyword.map upper := List.mem_map_of_mem hmem
  rw [h.2] at hupper
  revert hupper
  decide

/-- A document type declaration does not end there, where every bracket has its partner. -/
theorem not_doctype_of_mem_frameStops
    {keyword : Text}
    (hending : ending ∈ frameStops)
    (hkeyword : IsDoctypeKeyword keyword)
    (hcut : cutBalanced? 0 (content ++ ['>']) = some (content, [])) :
    '<' :: '!' :: (keyword ++ content) ++ ['>'] ≠ front ++ ending := by
  have hall : forall s, s ∈ frameStops -> "</".toList <+: s ∧ cutBalanced? 0 s = none := by
    decide
  rcases hall ending hending with ⟨hopens, hbalanced⟩
  rcases hopens with ⟨more, rfl⟩
  intro hraw
  have hkey : '<' ∉ '!' :: keyword := by
    simp [not_mem_of_isDoctypeKeyword hkeyword]
  cases front with
  | nil => simp at hraw
  | cons c front =>
      have hsplit : ('!' :: keyword) ++ (content ++ ['>']) = front ++ ("</".toList ++ more) := by
        simpa using (List.cons.inj hraw).2
      have hinside : exists inside : Text, content ++ ['>'] = inside ++ ("</".toList ++ more) := by
        rcases List.append_eq_append_iff.mp hsplit with ⟨inside, _, heq⟩ | ⟨inside, hfront, heq⟩
        · exact ⟨inside, heq⟩
        · cases inside with
          | nil => exact ⟨[], heq.symm⟩
          | cons d inside =>
              have hd : '<' = d := (List.cons.inj heq).1
              rw [hfront, ← hd] at hkey
              simp at hkey
      rcases hinside with ⟨inside, heq⟩
      have hlength := congrArg List.length heq
      rw [heq] at hcut
      have hshorter := cutBalanced?_append
        (fun depth => by simpa using cutBalanced?_add_eq_none hbalanced depth) hcut
      simp at hlength
      omega

/-- A tag that goes on behind the end tag of the string does not end. -/
theorem eq_of_tag
    (hending : ending ∈ frameStops)
    (hcontent : isTagContent none content = true)
    (hraw : '<' :: content ++ ['>'] = front ++ ending) :
    ending = "</string>".toList := by
  by_contra hne
  -- The end of the file has no quotes, so none that is open where it begins is closed in it.
  have hall : forall s, s ∈ frameStops -> s ≠ "</string>".toList ->
      s = '<' :: s.tail.dropLast ++ ['>'] ∧
        ('"' ∉ s.tail.dropLast ∧ '\'' ∉ s.tail.dropLast) ∧ '>' ∈ s.tail.dropLast := by
    decide
  rcases hall ending hending hne with ⟨heq, hquotes, hclosed⟩
  generalize ending.tail.dropLast = inner at heq hquotes hclosed
  have hopen : forall s : Text, isTagContent none (s ++ inner) = false :=
    isTagContent_append_eq_false (isTagContent_eq_false hquotes hclosed) (.inl rfl)
  have hwhole : '<' :: content = front ++ '<' :: inner := by
    rw [heq, List.cons_append, ← List.cons_append, ← List.append_assoc] at hraw
    exact List.append_cancel_right hraw
  have hsplit : exists s : Text, content = s ++ inner := by
    cases front with
    | nil => exact ⟨[], (List.cons.inj hwhole).2⟩
    | cons c front =>
        refine ⟨front ++ ['<'], ?_⟩
        rw [List.append_assoc]
        exact (List.cons.inj hwhole).2
  rcases hsplit with ⟨s, rfl⟩
  rw [hopen] at hcontent
  cases hcontent

/-- Of the constructs that begin in a text, only tags reach into the end of the file, and they end
there with the first tag. -/
theorem Construct.exists_content_of_crossing
    (h : Construct event)
    (hraw : event.raw = front ++ ending)
    (hend : frameEnd = ending ++ rest)
    (hne : ending ≠ []) :
    exists content : Text,
      event = tagEvent content ∧ content.head? ≠ some '!' ∧ content.head? ≠ some '?' ∧
        isTagContent none content = true ∧ '<' :: content = front ++ "</string".toList ∧
          rest = frameBack := by
  have hlast : ending.getLast? = some '>' := by
    rcases h.exists_raw_eq_append with ⟨start, hstart⟩
    rw [← List.getLast?_append_of_ne_nil front hne, ← hraw, hstart, List.getLast?_concat]
  have hending := mem_frameStops ⟨rest, hend.symm⟩ hlast
  rcases h.cases_of_raw with ⟨closing, hclosing, hsuffix⟩ | ⟨keyword, content, hdoctype, hkeyword,
    hcut⟩ | ⟨content, htag, hbang, hmark, hcontent⟩
  · rw [hraw] at hsuffix
    exact absurd hsuffix (not_suffix_of_mem_frameStops hending hclosing)
  · rw [hraw] at hdoctype
    exact absurd hdoctype.symm (not_doctype_of_mem_frameStops hending hkeyword hcut)
  · rw [htag, raw_tagEvent] at hraw
    have heq := eq_of_tag hending hcontent hraw
    subst heq
    refine ⟨content, htag, hbang, hmark, hcontent, ?_, List.append_cancel_left hend.symm⟩
    have hsplit : ('<' :: content) ++ ['>'] = (front ++ "</string".toList) ++ ['>'] := by
      simpa using hraw
    exact List.append_cancel_right hsplit

/-!
# The end tag of a string
-/

/-- Tags with the same name. -/
inductive SameTag : Event -> Event -> Prop where
  | startTag {content content' : Text} :
      tagName content = tagName content' ->
      SameTag (.startTag content) (.startTag content')
  | endTag {name name' : Text} :
      endTagName name = endTagName name' ->
      SameTag (.endTag name) (.endTag name')

theorem endTagName_append_blank
    {name : Text}
    (hlast : name.getLast? = some 'g')
    (hblank : blank.all isSpace = true) :
    endTagName (name ++ blank) = name := by
  have htrim : Text.trimEnd isSpace (name ++ blank) = name := by
    rw [Text.trimEnd_append_of_all (List.all_eq_true.mp hblank)]
    apply Text.trimEnd_eq_self
    intro c hc
    rw [hlast] at hc
    rw [← Option.some.inj hc]
    rfl
  unfold endTagName
  rw [htrim]
  cases name with
  | nil => cases hlast
  | cons c name => rfl

/-- The end tag of a string has its name, and white space behind it. -/
theorem exists_blank_of_endTagName
    (h : endTagName closing = "string".toList) :
    exists blank : Text, closing = "string".toList ++ blank ∧ blank.all isSpace = true := by
  rcases Text.exists_trimEnd_append isSpace closing with ⟨blank, heq, hblank⟩
  have hall : blank.all isSpace = true := List.all_eq_true.mpr hblank
  unfold endTagName at h
  split at h
  · rename_i hnil
    rw [hnil, List.nil_append] at heq
    have hletter : 's' ∈ blank := by
      rw [← heq, h]
      decide
    exact absurd (hblank 's' hletter) (by decide)
  · rw [h] at heq
    exact ⟨blank, heq, hall⟩

theorem tagName_append_blank
    (content : Text)
    (hblank : blank.all isSpace = true) :
    tagName (content ++ blank) = tagName content := by
  have hnone : blank.takeWhile (fun c => !isSpace c) = [] := by
    cases blank with
    | nil => rfl
    | cons c blank => simp [List.all_eq_true.mp hblank c (by simp)]
  unfold tagName
  rw [List.takeWhile_append, hnone, List.append_nil]
  split
  · rename_i hlength
    exact ((List.takeWhile_prefix _).eq_of_length hlength).symm
  · rfl

theorem tagEvent_eq_startTag
    (hhead : t.head? ≠ some '/')
    (hlast : t.getLast? ≠ some '/') :
    tagEvent t = .startTag t := by
  unfold tagEvent
  split
  · simp at hhead
  · rw [if_neg hlast]

theorem getLast?_append_blank
    (hlast : content.getLast? = some 'g')
    (hblank : blank.all isSpace = true) :
    (content ++ blank).getLast? ≠ some '/' := by
  intro hslash
  rw [List.getLast?_append, hlast] at hslash
  cases hend : blank.getLast? with
  | none =>
      rw [hend] at hslash
      cases hslash
  | some c =>
      rw [hend] at hslash
      have hspace := List.all_eq_true.mp hblank c (List.mem_of_getLast? hend)
      rw [Option.some.inj hslash] at hspace
      cases hspace

/-- White space at its end leaves the tag what it is. -/
theorem sameTag_append_blank
    (front : Text)
    (hblank : blank.all isSpace = true) :
    SameTag (tagEvent (front ++ "/string".toList))
      (tagEvent (front ++ "/string".toList ++ blank)) := by
  have hend : forall name : Text, name.getLast? = some 'g' ->
      SameTag (.endTag name) (.endTag (name ++ blank)) := by
    intro name hlast
    refine .endTag ?_
    rw [endTagName_append_blank hlast hblank]
    simpa using @endTagName_append_blank [] name hlast rfl
  cases front with
  | nil => exact hend "string".toList (by decide)
  | cons c front =>
      by_cases hc : c = '/'
      · subst hc
        exact hend (front ++ "/string".toList) (by simp)
      · have hhead : forall t : Text, (c :: front ++ t).head? ≠ some '/' :=
          fun t h => hc (Option.some.inj h)
        have hlast : (c :: front ++ "/string".toList).getLast? = some 'g' := by
          rw [List.getLast?_append]
          rfl
        have hopen : tagEvent (c :: front ++ "/string".toList) =
            .startTag (c :: front ++ "/string".toList) := by
          apply tagEvent_eq_startTag (hhead _)
          rw [hlast]
          decide
        have hopen' : tagEvent (c :: front ++ "/string".toList ++ blank) =
            .startTag (c :: front ++ "/string".toList ++ blank) := by
          refine tagEvent_eq_startTag ?_ (getLast?_append_blank hlast hblank)
          rw [List.append_assoc]
          exact hhead _
        rw [hopen, hopen']
        exact .startTag (tagName_append_blank _ hblank).symm

/-- A tag that ends with the end tag of a string can end with any other one. -/
theorem exists_sameTag
    (hbang : content.head? ≠ some '!')
    (hmark : content.head? ≠ some '?')
    (hcontent : isTagContent none content = true)
    (hraw : '<' :: content = front ++ "</string".toList)
    (hblank : blank.all isSpace = true) :
    exists event : Event,
      event.Spelled ∧ event.raw = front ++ (Event.endTag ("string".toList ++ blank)).raw ∧
        SameTag (tagEvent content) event := by
  have hsplit : exists start : Text, content = start ++ "/string".toList := by
    cases front with
    | nil => exact ⟨[], (List.cons.inj hraw).2⟩
    | cons c front =>
        refine ⟨front ++ ['<'], ?_⟩
        rw [List.append_assoc]
        exact (List.cons.inj hraw).2
  rcases hsplit with ⟨start, rfl⟩
  have hhead : forall c : Char, (start ++ "/string".toList ++ blank).head? = some c ->
      (start ++ "/string".toList).head? = some c := by
    intro c hc
    cases start <;> exact hc
  refine ⟨tagEvent (start ++ "/string".toList ++ blank), ?_, ?_, sameTag_append_blank start hblank⟩
  · refine spelled_tagEvent (fun hc => hbang (hhead _ hc)) (fun hc => hmark (hhead _ hc)) ?_
    rw [isTagContent_append_plain (.inl rfl) (all_isPlain_of_isSpace hblank), hcontent]
  · rw [raw_tagEvent, ← List.cons_append, hraw]
    simp [Event.raw]

theorem eq_cons_of_openNames_endTag
    {opened names : List Text}
    (h : openNames opened (.endTag closing) = .ok names) :
    opened = endTagName closing :: names := by
  cases opened with
  | nil => cases h
  | cons innermost outer =>
      simp only [openNames] at h
      split at h
      · rename_i hname
        rw [hname, Except.ok.inj h]
      · cases h

theorem openNames_sameTag
    {event event' : Event}
    (h : SameTag event event')
    (opened : List Text) :
    openNames opened event = openNames opened event' := by
  cases h with
  | startTag hname => simp only [openNames, hname]
  | endTag hname => simp only [openNames, hname]

end Markup
end AndroidStrings
