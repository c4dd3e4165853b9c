import AndroidStrings.Markup.Scan

/-!
# Constructs of markup

An event is spelled when its text is read back as that event, whatever follows it.  What the
reader can meet behind a `<` is said here by the texts that stand for it: a proof that depends on
what an event looks like goes through these five cases, and not through the reader.

## Main statements

- `construct_of_nextMarkup` : every markup that is read is one of the constructs.
- `spelled_of_construct` : every construct is spelled.
-/

namespace AndroidStrings
namespace Text

/-!
# Cutting at a closing text
-/

/-- A closing text whose last character stands only at its end does not begin inside an other
text and end in its own next occurrence. -/
theorem prefix_of_prefix_append
    {init body rest : Text} {last : Char}
    (hlast : last ∉ init)
    (hne : body ≠ [])
    (h : init ++ [last] <+: body ++ (init ++ [last]) ++ rest) :
    init ++ [last] <+: body := by
  by_cases hlength : (init ++ [last]).length ≤ body.length
  · exact List.prefix_of_prefix_length_le h ⟨init ++ [last] ++ rest, by simp⟩ hlength
  · -- The occurrence ends inside the closing text, so its last character is in `init`.
    have hcover : body <+: init ++ [last] :=
      List.prefix_of_prefix_length_le ⟨init ++ [last] ++ rest, by simp⟩ h (by omega)
    rcases hcover with ⟨w, hw⟩
    have hpositive := List.length_pos_iff.mpr hne
    have hsum := congrArg List.length hw
    simp only [List.length_append, List.length_singleton] at hsum hlength
    have hw' : w ≠ [] := by
      intro hnil
      rw [hnil, List.length_nil] at hsum
      omega
    have hwlast : w.getLast hw' = last := by
      have happ := congrArg List.getLast? hw
      rw [List.getLast?_append, List.getLast?_append, List.getLast?_eq_some_getLast hw'] at happ
      simpa using happ
    have hoverlap : w <+: init ++ [last] ++ rest := by
      rw [List.append_assoc] at h
      apply (List.prefix_append_right_inj body).mp
      rw [hw]
      exact h
    have hinit : w <+: init := by
      apply List.prefix_of_prefix_length_le hoverlap ?_ (by omega)
      exact ⟨[last] ++ rest, by simp⟩
    exfalso
    apply hlast
    rw [← hwlast]
    exact hinit.subset (List.getLast_mem hw')

/-- A closing text whose last character stands nowhere else in it is found right behind any
text that does not hold it. -/
theorem cutAt?_append
    (init : Text) (last : Char) {body : Text}
    (hlast : last ∉ init)
    (hbody : ¬ (init ++ [last]) <:+: body)
    (rest : Text) :
    cutAt? (init ++ [last]) (body ++ (init ++ [last]) ++ rest) = some (body, rest) := by
  induction body with
  | nil =>
      cases init with
      | nil => simp [cutAt?]
      | cons d ds => simp [cutAt?]
  | cons c body ih =>
      have hnot : (init ++ [last]).isPrefixOf (c :: (body ++ (init ++ [last]) ++ rest)) =
          false := by
        rw [Bool.eq_false_iff]
        intro hcon
        rw [List.isPrefixOf_iff_prefix] at hcon
        exact hbody (prefix_of_prefix_append hlast (List.cons_ne_nil c body) hcon).isInfix
      have hinner : ¬ (init ++ [last]) <:+: body := by
        intro hcon
        exact hbody (hcon.trans (List.infix_cons (List.infix_refl body)))
      simp only [List.cons_append, cutAt?, hnot, Bool.false_eq_true, if_false, ih hinner,
        Option.map_some]

theorem not_infix_of_cutAt?
    {closing t front back : Text}
    (hne : closing ≠ [])
    (h : cutAt? closing t = some (front, back)) :
    ¬ closing <:+: front := by
  induction t generalizing front with
  | nil => simp [cutAt?] at h
  | cons c t ih =>
      simp only [cutAt?] at h
      split at h
      · simp only [Option.some.injEq, Prod.mk.injEq] at h
        rw [← h.1]
        intro hpart
        exact hne (List.infix_nil.mp hpart)
      · rename_i hfront
        rcases Option.map_eq_some_iff.mp h with ⟨parts, hparts, heq⟩
        simp only [Prod.mk.injEq] at heq
        have hcut : cutAt? closing t = some (parts.1, back) := by
          rw [hparts, ← heq.2]
        rw [← heq.1]
        intro hpart
        rcases List.infix_cons_iff.mp hpart with hhere | hlater
        · apply hfront
          rw [List.isPrefixOf_iff_prefix, append_of_cutAt? hcut, List.append_assoc]
          exact hhere.trans ⟨closing ++ back, by simp⟩
        · exact ih hcut hlater

end Text

namespace Markup

/-- Whether a text, read from inside a quote or from outside, meets no closing bracket outside
quotes and leaves no quote open. -/
def isTagContent : Option Char → Text → Bool
  | quote, [] => quote.isNone
  | none, c :: t =>
      c != '>' && isTagContent (if c = '"' ∨ c = '\'' then some c else none) t
  | some q, c :: t => isTagContent (if c = q then none else some q) t

theorem cutTag?_eq_some_iff
    {quote : Option Char} {t content rest : Text} :
    cutTag? quote t = some (content, rest) ↔
      t = content ++ '>' :: rest ∧ isTagContent quote content = true := by
  induction t generalizing quote content with
  | nil => simp [cutTag?]
  | cons c t ih =>
      cases quote with
      | none =>
          cases content with
          | nil =>
              by_cases hc : c = '>'
              · simp [cutTag?, isTagContent, hc]
              · by_cases hq : c = '"' ∨ c = '\'' <;> simp [cutTag?, hc, hq]
          | cons d content =>
              by_cases hc : c = '>'
              · have hd : ¬ (c = d ∧ d ≠ '>') := by
                  intro hcon
                  exact hcon.2 (hcon.1 ▸ hc)
                simp [cutTag?, isTagContent, hc]
                intro heq
                simp [← heq]
              · by_cases hq : c = '"' ∨ c = '\''
                · simp [cutTag?, isTagContent, hc, hq, ih]
                  grind
                · simp [cutTag?, isTagContent, hc, hq, ih]
                  grind
      | some q =>
          cases content with
          | nil => by_cases hq : c = q <;> simp [cutTag?, isTagContent, hq]
          | cons d content =>
              by_cases hq : c = q
              · simp [cutTag?, isTagContent, hq, ih]
                grind
              · simp [cutTag?, isTagContent, hq, ih]
                grind

theorem cutBalanced?_exchange
    {depth : Nat} {t content rest : Text}
    (h : cutBalanced? depth t = some (content, rest))
    (s : Text) :
    cutBalanced? depth (content ++ '>' :: s) = some (content, s) := by
  induction t generalizing depth content with
  | nil => simp [cutBalanced?] at h
  | cons c t ih =>
      simp only [cutBalanced?] at h
      split at h
      · rename_i hc
        rcases Option.map_eq_some_iff.mp h with ⟨parts, hparts, heq⟩
        simp only [Prod.mk.injEq] at heq
        rw [← heq.1]
        have hcut : cutBalanced? (depth + 1) t = some (parts.1, rest) := by
          rw [hparts, ← heq.2]
        simp [cutBalanced?, hc, ih hcut]
      · rename_i hopen
        split at h
        · rename_i hc
          cases depth with
          | zero =>
              simp only [Option.some.injEq, Prod.mk.injEq] at h
              rw [← h.1]
              simp [cutBalanced?]
          | succ depth =>
              rcases Option.map_eq_some_iff.mp h with ⟨parts, hparts, heq⟩
              simp only [Prod.mk.injEq] at heq
              rw [← heq.1]
              have hcut : cutBalanced? depth t = some (parts.1, rest) := by
                rw [hparts, ← heq.2]
              simp [cutBalanced?, hc, ih hcut]
        · rename_i hclose
          rcases Option.map_eq_some_iff.mp h with ⟨parts, hparts, heq⟩
          simp only [Prod.mk.injEq] at heq
          rw [← heq.1]
          have hcut : cutBalanced? depth t = some (parts.1, rest) := by
            rw [hparts, ← heq.2]
          simp [cutBalanced?, hopen, hclose, ih hcut]

/-!
# Spelled events
-/

theorem nextMarkup_eq_nextTag
    {t : Text}
    (hbang : t.head? ≠ some '!')
    (hmark : t.head? ≠ some '?') :
    nextMarkup t = nextTag t := by
  unfold nextMarkup
  split
  · simp at hbang
  · simp at hbang
  · simp at hbang
  · simp at hbang
  · simp at hbang
  · simp at hmark
  · rfl

theorem nextTag_append
    {content : Text}
    (h : isTagContent none content = true)
    (rest : Text) :
    nextTag (content ++ '>' :: rest) = .ok (tagEvent content, rest) := by
  have hcut : cutTag? none (content ++ '>' :: rest) = some (content, rest) :=
    cutTag?_eq_some_iff.mpr ⟨rfl, h⟩
  simp [nextTag, hcut]

/-- A text holds no `<`; any other event is read back from its own text. -/
def Event.Spelled : Event -> Prop
  | .text content => '<' ∉ content
  | event => forall rest : Text, next (event.raw ++ rest) = .ok (event, rest)

theorem Event.Spelled.next_raw
    {event : Event}
    (h : event.Spelled)
    (hmarkup : forall content : Text, event ≠ .text content)
    (rest : Text) :
    next (event.raw ++ rest) = .ok (event, rest) := by
  cases event with
  | text content => exact absurd rfl (hmarkup content)
  | _ => exact h rest

theorem Event.Spelled.of_next_raw
    {event : Event}
    (hmarkup : forall content : Text, event ≠ .text content)
    (h : forall rest : Text, next (event.raw ++ rest) = .ok (event, rest)) :
    event.Spelled := by
  cases event with
  | text content => exact absurd rfl (hmarkup content)
  | _ => exact h

theorem spelled_comment
    {content : Text}
    (h : ¬ "-->".toList <:+: content) :
    (Event.comment ('-' :: '-' :: content ++ ['-', '-'])).Spelled := by
  intro rest
  have hcut := Text.cutAt?_append ['-', '-'] '>' (by decide) h rest
  simp only [List.append_assoc, List.cons_append, List.nil_append] at hcut
  simp [Event.raw, next, nextMarkup, nextComment, hcut]

theorem spelled_cdata
    {content : Text}
    (h : ¬ "]]>".toList <:+: content) :
    (Event.cdata ("[CDATA[".toList ++ content ++ [']', ']'])).Spelled := by
  intro rest
  have hcut := Text.cutAt?_append [']', ']'] '>' (by decide) h rest
  simp only [List.append_assoc, List.cons_append, List.nil_append] at hcut
  simp [Event.raw, next, nextMarkup, nextCData, Text.stripPrefix?, hcut]

/-- An instruction or the declaration, as its content says. -/
def instructionEvent (content : Text) : Event :=
  if isDeclaration content then .declaration content else .instruction content

theorem raw_instructionEvent (content : Text) :
    (instructionEvent content).raw = '<' :: '?' :: content ++ ['?', '>'] := by
  unfold instructionEvent
  split <;> rfl

theorem spelled_instructionEvent
    {content : Text}
    (h : ¬ "?>".toList <:+: content)
    (hhead : content.head? ≠ some '>') :
    (instructionEvent content).Spelled := by
  have hcut := Text.cutAt?_append ['?'] '>' (by decide) h
  simp only [List.append_assoc, List.cons_append, List.nil_append] at hcut
  have hnext : forall rest : Text,
      next ((instructionEvent content).raw ++ rest) = .ok (instructionEvent content, rest) := by
    intro rest
    rw [raw_instructionEvent]
    simp only [List.cons_append, List.append_assoc, List.nil_append, next, nextMarkup]
    unfold nextInstruction
    split
    · rename_i u hu
      cases content with
      | nil => simp at hu
      | cons c content =>
          simp only [List.cons_append, List.cons.injEq] at hu
          exact absurd (by rw [hu.1]; rfl) hhead
    · rw [hcut rest]
      rfl
  refine .of_next_raw ?_ hnext
  intro text
  unfold instructionEvent
  split <;> simp

theorem spelled_tagEvent
    {content : Text}
    (hbang : content.head? ≠ some '!')
    (hmark : content.head? ≠ some '?')
    (h : isTagContent none content = true) :
    (tagEvent content).Spelled := by
  have hhead : forall (c : Char) (rest : Text), c ≠ '>' -> content.head? ≠ some c ->
      (content ++ '>' :: rest).head? ≠ some c := by
    intro c rest hc hcontent
    cases content with
    | nil => simpa using hc.symm
    | cons d content => simpa using hcontent
  have hnext : forall rest : Text,
      next ((tagEvent content).raw ++ rest) = .ok (tagEvent content, rest) := by
    intro rest
    rw [raw_tagEvent]
    simp only [List.cons_append, List.append_assoc, List.nil_append, next]
    rw [nextMarkup_eq_nextTag (hhead '!' rest (by decide) hbang)
      (hhead '?' rest (by decide) hmark), nextTag_append h]
  exact .of_next_raw (tagEvent_ne_text content) hnext

/-!
# The constructs
-/

/-- The keyword of a document type declaration, in any case but for its first letter. -/
def IsDoctypeKeyword (keyword : Text) : Prop :=
  (keyword.head? = some 'D' ∨ keyword.head? = some 'd') ∧
    keyword.map upper = "DOCTYPE".toList

inductive Construct : Event -> Prop where
  | comment {content : Text} :
      ¬ "-->".toList <:+: content ->
      Construct (.comment ('-' :: '-' :: content ++ ['-', '-']))
  | cdata {content : Text} :
      ¬ "]]>".toList <:+: content ->
      Construct (.cdata ("[CDATA[".toList ++ content ++ [']', ']']))
  | doctype {keyword content : Text} :
      IsDoctypeKeyword keyword ->
      (forall rest : Text, cutBalanced? 0 (content ++ '>' :: rest) = some (content, rest)) ->
      content.all isSpace = false ->
      Construct (.doctype (keyword ++ content))
  | instruction {content : Text} :
      ¬ "?>".toList <:+: content ->
      content.head? ≠ some '>' ->
      Construct (instructionEvent content)
  | tag {content : Text} :
      content.head? ≠ some '!' ->
      content.head? ≠ some '?' ->
      isTagContent none content = true ->
      Construct (tagEvent content)

theorem nextDoctype_of_keyword
    {keyword content rest : Text}
    (hkeyword : IsDoctypeKeyword keyword)
    (hcut : cutBalanced? 0 (content ++ '>' :: rest) = some (content, rest)) :
    next ('<' :: '!' :: (keyword ++ content) ++ '>' :: rest) =
      if content.all isSpace then .error .namelessDoctype
      else .ok (.doctype (keyword ++ content), rest) := by
  have hlength : keyword.length = "DOCTYPE".toList.length := by
    rw [← hkeyword.2, List.length_map]
  have hsplit : splitKeyword? "DOCTYPE".toList (keyword ++ (content ++ '>' :: rest)) =
      some (keyword, content ++ '>' :: rest) := by
    simp only [splitKeyword?]
    rw [← hlength, List.take_left, List.drop_left, if_pos hkeyword.2]
  have hnext : nextDoctype (keyword ++ (content ++ '>' :: rest)) =
      if content.all isSpace then .error .namelessDoctype
      else .ok (.doctype (keyword ++ content), rest) := by
    simp only [nextDoctype, hsplit, hcut]
  cases keyword with
  | nil => simp at hlength
  | cons c keyword =>
      rcases hkeyword.1 with hc | hc <;>
        · simp only [List.head?_cons, Option.some.injEq] at hc
          subst hc
          simpa [next, nextMarkup] using hnext

theorem spelled_of_construct
    {event : Event}
    (h : Construct event) :
    event.Spelled := by
  cases h with
  | comment hcontent => exact spelled_comment hcontent
  | cdata hcontent => exact spelled_cdata hcontent
  | instruction hcontent hhead => exact spelled_instructionEvent hcontent hhead
  | tag hbang hmark hcontent => exact spelled_tagEvent hbang hmark hcontent
  | doctype hkeyword hcut hname =>
      intro rest
      have hnext := nextDoctype_of_keyword hkeyword (hcut rest)
      rw [hname] at hnext
      simpa [Event.raw] using hnext

theorem Construct.exists_raw_eq
    {event : Event}
    (h : Construct event) :
    exists content : Text, event.raw = '<' :: content := by
  cases h with
  | instruction hcontent hhead => exact ⟨_, raw_instructionEvent _⟩
  | tag hbang hmark hcontent => exact ⟨_, raw_tagEvent _⟩
  | _ => exact ⟨_, rfl⟩

/-- Whether an event is a start tag, an end tag or an empty tag. -/
def Event.isTag : Event -> Bool
  | .startTag _ => true
  | .emptyTag _ => true
  | .endTag _ => true
  | _ => false

theorem Construct.exists_tagContent
    {event : Event}
    (h : Construct event)
    (htag : event.isTag = true) :
    exists content : Text,
      event = tagEvent content ∧ content.head? ≠ some '!' ∧ content.head? ≠ some '?' ∧
        isTagContent none content = true := by
  cases h with
  | tag hbang hmark hcontent => exact ⟨_, rfl, hbang, hmark, hcontent⟩
  | instruction hcontent hhead =>
      unfold instructionEvent at htag
      split at htag <;> simp [Event.isTag] at htag
  | _ => simp [Event.isTag] at htag

section Reading

variable {t rest : Text} {event : Event}

theorem construct_of_nextComment (h : nextComment t = .ok (event, rest)) : Construct event := by
  simp only [nextComment] at h
  split at h
  · split at h
    · rename_i content after hcut
      simp only [Except.ok.injEq, Prod.mk.injEq] at h
      rw [← h.1]
      exact .comment (Text.not_infix_of_cutAt? (by simp) hcut)
    · simp at h
  · simp at h

theorem construct_of_nextCData (h : nextCData t = .ok (event, rest)) : Construct event := by
  simp only [nextCData] at h
  split at h
  · split at h
    · rename_i content after hcut
      simp only [Except.ok.injEq, Prod.mk.injEq] at h
      rw [← h.1]
      exact .cdata (Text.not_infix_of_cutAt? (by simp) hcut)
    · simp at h
  · simp at h

/-- The first letter is known where a document type is looked for; the other ones are compared
without their case. -/
theorem construct_of_nextDoctype
    {c : Char}
    (hc : c = 'D' ∨ c = 'd')
    (h : nextDoctype (c :: t) = .ok (event, rest)) :
    Construct event := by
  simp only [nextDoctype] at h
  split at h
  · rename_i keyword body hsplit
    split at h
    · rename_i content after hcut
      split at h
      · simp at h
      · rename_i hname
        simp only [Except.ok.injEq, Prod.mk.injEq] at h
        simp only [splitKeyword?] at hsplit
        split at hsplit
        · rename_i hupper
          simp only [Option.some.injEq, Prod.mk.injEq] at hsplit
          rw [← h.1]
          refine .doctype ⟨?_, ?_⟩ (cutBalanced?_exchange hcut) (by simpa using hname)
          · rw [← hsplit.1]
            rcases hc with hc | hc <;> simp [hc]
          · rw [← hsplit.1]
            exact hupper
        · simp at hsplit
    · simp at h
  · simp at h

theorem construct_of_nextInstruction
    (h : nextInstruction t = .ok (event, rest)) :
    Construct event := by
  unfold nextInstruction at h
  split at h
  · simp at h
  · rename_i hopen
    split at h
    · rename_i content after hcut
      simp only [Except.ok.injEq, Prod.mk.injEq] at h
      rw [← h.1]
      refine .instruction (Text.not_infix_of_cutAt? (by simp) hcut) ?_
      intro hhead
      cases content with
      | nil => simp at hhead
      | cons c content =>
          simp only [List.head?_cons, Option.some.injEq] at hhead
          apply hopen (content ++ ['?', '>'] ++ after)
          rw [Text.append_of_cutAt? hcut, hhead]
          rfl
    · simp at h

theorem construct_of_nextTag
    (hbang : forall u : Text, t ≠ '!' :: u)
    (hmark : forall u : Text, t ≠ '?' :: u)
    (h : nextTag t = .ok (event, rest)) :
    Construct event := by
  simp only [nextTag] at h
  split at h
  · rename_i content after hcut
    simp only [Except.ok.injEq, Prod.mk.injEq] at h
    rcases cutTag?_eq_some_iff.mp hcut with ⟨happend, hcontent⟩
    rw [← h.1]
    have hhead : forall c : Char, content.head? = some c -> exists u : Text, t = c :: u := by
      intro c hc
      cases content with
      | nil => simp at hc
      | cons d content =>
          simp only [List.head?_cons, Option.some.injEq] at hc
          rw [happend, hc]
          exact ⟨_, rfl⟩
    refine .tag ?_ ?_ hcontent
    · intro hc
      rcases hhead '!' hc with ⟨u, hu⟩
      exact hbang u hu
    · intro hc
      rcases hhead '?' hc with ⟨u, hu⟩
      exact hmark u hu
  · simp at h

theorem construct_of_nextMarkup (h : nextMarkup t = .ok (event, rest)) : Construct event := by
  unfold nextMarkup at h
  split at h
  · exact construct_of_nextComment h
  · exact construct_of_nextCData h
  · exact construct_of_nextDoctype (.inl rfl) h
  · exact construct_of_nextDoctype (.inr rfl) h
  · simp at h
  · exact construct_of_nextInstruction h
  · rename_i hbang hmark
    exact construct_of_nextTag hbang hmark h

end Reading

end Markup
end AndroidStrings
