import AndroidStrings.Proofs.Markup.Fragment
import AndroidStrings.Proofs.Text.Relaid

/-!
# Markup laid out anew

Markup that is laid out anew has the same events in the same order, with contents laid out anew.
Only two things can go wrong: a document type declaration can lose its name, which is refused
wherever it stands, and the names of a start tag and its end tag can come apart.

## Main statement

`exists_forest_of_relaid` : a forest that is laid out anew is a loose forest.
-/

namespace AndroidStrings
namespace Markup

open Text (Relaid IsWhite IsWord)

/-- What an event looks like from outside.  Comments, character data, document type declarations,
instructions and the declaration are not told apart. -/
inductive Shape where
  | text
  | aside
  | startTag
  | emptyTag
  | endTag
  deriving DecidableEq, Repr

namespace Event

/-- The text of an event is read in one way, whatever follows it, or never. -/
def Decided (event : Event) : Prop :=
  event.Spelled ∨ forall rest : Text, exists fault : Error, next (event.raw ++ rest) = .error fault

def shape : Event -> Shape
  | .text _ => .text
  | .startTag _ => .startTag
  | .emptyTag _ => .emptyTag
  | .endTag _ => .endTag
  | _ => .aside

end Event

/-!
# Characters that decide
-/

theorem isPlain_of_isWhiteSpace
    {c : Char}
    (h : CharClass.isWhiteSpace c = true) :
    isPlain c = true := by
  simp only [isPlain, Bool.and_eq_true, bne_iff_ne, ne_eq]
  refine ⟨⟨?_, ?_⟩, ?_⟩ <;>
    · intro heq
      rw [heq] at h
      revert h
      decide

theorem all_isPlain_of_isWhite
    {white : Text}
    (h : IsWhite white) :
    white.all isPlain = true := by
  rw [List.all_eq_true]
  intro c hc
  exact isPlain_of_isWhiteSpace (h c hc)

theorem isTagContent_relaid
    {s t : Text} {quote : Option Char}
    (hquote : quote = none ∨ quote = some '"' ∨ quote = some '\'')
    (h : Relaid s t) :
    isTagContent quote t = isTagContent quote s := by
  induction h generalizing quote with
  | nil => rfl
  | char c _ ih =>
      cases quote with
      | none =>
          rw [isTagContent, isTagContent, ih]
          by_cases hc : c = '"' ∨ c = '\''
          · rw [if_pos hc]
            rcases hc with hc | hc <;> simp [hc]
          · simp [hc]
      | some q =>
          rw [isTagContent, isTagContent, ih]
          by_cases hc : c = q
          · simp [hc]
          · simpa [hc] using hquote
  | gap hold hnew _ ih =>
      rw [isTagContent_plain_append hquote (all_isPlain_of_isWhite hold.1),
        isTagContent_plain_append hquote (all_isPlain_of_isWhite hnew.1), ih hquote]

theorem cutBalanced?_white_append
    {white : Text}
    (h : IsWhite white)
    (depth : Nat) (t : Text) :
    cutBalanced? depth (white ++ t) =
      (cutBalanced? depth t).map fun parts => (white ++ parts.1, parts.2) := by
  induction white with
  | nil => simp
  | cons c white ih =>
      have hc := h c (by simp)
      have hrest := ih (List.forall_mem_cons.mp h).2
      have hangles : c ≠ '<' ∧ c ≠ '>' := by
        constructor <;>
          · intro heq
            rw [heq] at hc
            revert hc
            decide
      simp only [List.cons_append, cutBalanced?, hangles, if_false, hrest, Option.map_map]
      rfl

theorem cutBalanced?_relaid
    {s t : Text} {depth : Nat}
    (h : Relaid s t)
    (rest : Text)
    (hcut : cutBalanced? depth (s ++ '>' :: rest) = some (s, rest)) :
    cutBalanced? depth (t ++ '>' :: rest) = some (t, rest) := by
  have extended : forall (front : Text) {u v : Text} {d : Nat} {w : Text},
      (cutBalanced? d w).map (fun parts => (front ++ parts.1, parts.2)) = some (front ++ u, v) ->
        cutBalanced? d w = some (u, v) := by
    intro front u v d w hmap
    rcases Option.map_eq_some_iff.mp hmap with ⟨parts, hparts, heq⟩
    rw [Prod.mk.injEq] at heq
    rw [hparts, ← List.append_cancel_left heq.1, ← heq.2]
  induction h generalizing depth with
  | nil => exact hcut
  | char c _ ih =>
      simp only [List.cons_append, cutBalanced?] at hcut ⊢
      by_cases hopen : c = '<'
      · simp only [hopen, if_true] at hcut ⊢
        rw [ih (extended ['<'] hcut)]
        rfl
      · simp only [hopen, if_false] at hcut ⊢
        by_cases hclose : c = '>'
        · simp only [hclose, if_true] at hcut ⊢
          cases depth with
          | zero => simp at hcut
          | succ depth =>
              simp only at hcut ⊢
              rw [ih (extended ['>'] hcut)]
              rfl
        · simp only [hclose, if_false] at hcut ⊢
          rw [ih (extended [c] hcut)]
          rfl
  | gap hold hnew _ ih =>
      rw [List.append_assoc, cutBalanced?_white_append hold.1] at hcut
      rw [List.append_assoc, cutBalanced?_white_append hnew.1, ih (extended _ hcut)]
      rfl

theorem isWhiteSpace_of_upper
    {c d : Char}
    (h : upper c = d)
    (hd : CharClass.isWhiteSpace d = false) :
    CharClass.isWhiteSpace c = false := by
  unfold upper at h
  split at h
  · rename_i hletter
    have hbound : 97 ≤ c.toNat ∧ c.toNat ≤ 122 := hletter
    simp only [CharClass.isWhiteSpace, CharClass.inRanges, CharClass.whiteSpaceRanges,
      List.any_cons, List.any_nil, Bool.or_false, Bool.or_eq_false_iff, decide_eq_false_iff_not]
    omega
  · rw [h]
    exact hd

/-!
# Events laid out anew
-/

theorem shape_tagEvent (content : Text) :
    (tagEvent content).shape =
      if content.head? = some '/' then .endTag
      else if content.getLast? = some '/' then .emptyTag else .startTag := by
  unfold tagEvent
  split
  · simp [Event.shape]
  · rename_i hslash
    have hhead : content.head? ≠ some '/' := by
      intro hhead
      cases content with
      | nil => simp at hhead
      | cons c content =>
          simp only [List.head?_cons, Option.some.injEq] at hhead
          exact hslash content (by rw [hhead])
    rw [if_neg hhead]
    split <;> rfl

theorem shape_instructionEvent (content : Text) :
    (instructionEvent content).shape = .aside := by
  unfold instructionEvent
  split <;> rfl

section Beginning

variable {content s t : Text}

theorem exists_comment_append_of_relaid
    (hcontent : ¬ "-->".toList <:+: content)
    (h : Relaid ((Event.comment ('-' :: '-' :: content ++ ['-', '-'])).raw ++ s) t) :
    exists content' s' : Text,
      t = (Event.comment content').raw ++ s' ∧ Relaid s s' ∧ (Event.comment content').Spelled := by
  have hparts : Relaid ("<!--".toList ++ (content ++ ("-->".toList ++ s))) t := by
    simpa [Event.raw] using h
  rcases hparts.split_delimited (by decide) (by decide) hcontent with
    ⟨content', s', rfl, _, hs, hnot⟩
  refine ⟨'-' :: '-' :: content' ++ ['-', '-'], s', ?_, hs, spelled_comment hnot⟩
  simp [Event.raw]

theorem exists_cdata_append_of_relaid
    (hcontent : ¬ "]]>".toList <:+: content)
    (h : Relaid ((Event.cdata ("[CDATA[".toList ++ content ++ [']', ']'])).raw ++ s) t) :
    exists content' s' : Text,
      t = (Event.cdata content').raw ++ s' ∧ Relaid s s' ∧ (Event.cdata content').Spelled := by
  have hparts : Relaid ("<![CDATA[".toList ++ (content ++ ("]]>".toList ++ s))) t := by
    simpa [Event.raw] using h
  rcases hparts.split_delimited (by decide) (by decide) hcontent with
    ⟨content', s', rfl, _, hs, hnot⟩
  refine ⟨"[CDATA[".toList ++ content' ++ [']', ']'], s', ?_, hs, spelled_cdata hnot⟩
  simp [Event.raw]

theorem exists_instruction_append_of_relaid
    (hcontent : ¬ "?>".toList <:+: content)
    (hhead : content.head? ≠ some '>')
    (h : Relaid ((instructionEvent content).raw ++ s) t) :
    exists content' s' : Text,
      t = (instructionEvent content').raw ++ s' ∧ Relaid s s' ∧
        (instructionEvent content').Spelled := by
  have hparts : Relaid ("<?".toList ++ (content ++ ("?>".toList ++ s))) t := by
    simpa [raw_instructionEvent] using h
  rcases hparts.split_delimited (by decide) (by decide) hcontent with
    ⟨content', s', rfl, hrelaid, hs, hnot⟩
  have hhead' : content'.head? ≠ some '>' := by
    intro hcon
    exact hhead ((hrelaid.head?_iff (by decide)).mpr hcon)
  refine ⟨content', s', ?_, hs, spelled_instructionEvent hnot hhead'⟩
  simp [raw_instructionEvent]

theorem IsDoctypeKeyword.isWord {keyword : Text} (h : IsDoctypeKeyword keyword) :
    IsWord keyword := by
  have hupper : IsWord (keyword.map upper) := by
    rw [h.2]
    decide
  constructor
  · intro hnil
    rw [hnil] at hupper
    exact hupper.1 rfl
  · intro c hc
    exact isWhiteSpace_of_upper rfl (hupper.2 _ (List.mem_map_of_mem hc))

/-- Nothing but white space may be left of the name, so that the declaration is refused. -/
theorem exists_doctype_append_of_relaid
    {keyword : Text}
    (hkeyword : IsDoctypeKeyword keyword)
    (hcut : forall rest : Text,
      cutBalanced? 0 (content ++ '>' :: rest) = some (content, rest))
    (h : Relaid ((Event.doctype (keyword ++ content)).raw ++ s) t) :
    exists content' s' : Text,
      t = (Event.doctype content').raw ++ s' ∧ Relaid s s' ∧ (Event.doctype content').Decided := by
  have hparts : Relaid ([] ++ ("<!".toList ++ (keyword ++ content ++ '>' :: s))) t := by
    simpa [Event.raw] using h
  rcases hparts.split_word (by decide) with ⟨front, back, rfl, hfront, hback⟩
  have hbody : Relaid ([] ++ (keyword ++ (content ++ '>' :: s))) back := by
    simpa using hback
  rcases hbody.split_word hkeyword.isWord with ⟨front', back', rfl, hfront', hback'⟩
  rcases hback'.split (by decide) with ⟨content', s', rfl, hcontent', hs'⟩
  rw [hfront.nil_left, hfront'.nil_left]
  have hcut' : forall rest : Text,
      cutBalanced? 0 (content' ++ '>' :: rest) = some (content', rest) := by
    intro rest
    exact cutBalanced?_relaid hcontent' rest (hcut rest)
  refine ⟨keyword ++ content', s', ?_, hs', ?_⟩
  · simp [Event.raw]
  · cases hname' : content'.all isSpace with
    | false => exact .inl (spelled_of_construct (.doctype hkeyword hcut' hname'))
    | true =>
        apply Or.inr
        intro rest
        have hnext := nextDoctype_of_keyword hkeyword (hcut' rest)
        rw [hname'] at hnext
        exact ⟨.namelessDoctype, by simpa [Event.raw] using hnext⟩

theorem exists_tag_append_of_relaid
    (hbang : content.head? ≠ some '!')
    (hmark : content.head? ≠ some '?')
    (hcontent : isTagContent none content = true)
    (h : Relaid ((tagEvent content).raw ++ s) t) :
    exists content' s' : Text,
      t = (tagEvent content').raw ++ s' ∧ Relaid s s' ∧
        (tagEvent content').shape = (tagEvent content).shape ∧ (tagEvent content').Spelled := by
  rw [raw_tagEvent] at h
  have hparts : Relaid ('<' :: (content ++ '>' :: s)) t := by
    simpa using h
  rcases hparts.cons_left (by decide) with ⟨back, rfl, hback⟩
  rcases hback.split (by decide) with ⟨content', s', rfl, hcontent', hs'⟩
  refine ⟨content', s', ?_, hs', ?_, spelled_of_construct (.tag ?_ ?_ ?_)⟩
  · rw [raw_tagEvent]
    simp
  · have hslash : CharClass.isWhiteSpace '/' = false := by
      decide
    rw [shape_tagEvent, shape_tagEvent]
    simp only [hcontent'.head?_iff hslash, hcontent'.getLast?_iff hslash]
  · intro hcon
    exact hbang ((hcontent'.head?_iff (by decide)).mpr hcon)
  · intro hcon
    exact hmark ((hcontent'.head?_iff (by decide)).mpr hcon)
  · rw [isTagContent_relaid (.inl rfl) hcontent']
    exact hcontent

/-- A construct that is laid out anew keeps its shape. -/
theorem Construct.exists_relaid
    {event : Event}
    (h : Construct event)
    (hrelaid : Relaid (event.raw ++ s) t) :
    exists (event' : Event) (s' : Text),
      t = event'.raw ++ s' ∧ Relaid s s' ∧ event'.shape = event.shape ∧
        event'.Decided := by
  cases h with
  | comment hcontent =>
      rcases exists_comment_append_of_relaid hcontent hrelaid with ⟨content', s', heq, hs, hspelled⟩
      exact ⟨_, s', heq, hs, rfl, .inl hspelled⟩
  | cdata hcontent =>
      rcases exists_cdata_append_of_relaid hcontent hrelaid with ⟨content', s', heq, hs, hspelled⟩
      exact ⟨_, s', heq, hs, rfl, .inl hspelled⟩
  | doctype hkeyword hcut hname =>
      rcases exists_doctype_append_of_relaid hkeyword hcut hrelaid with
        ⟨content', s', heq, hs, hdecided⟩
      exact ⟨_, s', heq, hs, rfl, hdecided⟩
  | instruction hcontent hhead =>
      rcases exists_instruction_append_of_relaid hcontent hhead hrelaid with
        ⟨content', s', heq, hs, hspelled⟩
      refine ⟨_, s', heq, hs, ?_, .inl hspelled⟩
      rw [shape_instructionEvent, shape_instructionEvent]
  | tag hbang hmark hcontent =>
      rcases exists_tag_append_of_relaid hbang hmark hcontent hrelaid with
        ⟨content', s', heq, hs, hshape, hspelled⟩
      exact ⟨_, s', heq, hs, hshape, .inl hspelled⟩

theorem exists_comment_of_relaid
    (h : (Event.comment content).Spelled)
    (hrelaid : Relaid (Event.comment content).raw t) :
    exists content' : Text,
      t = (Event.comment content').raw ∧ (Event.comment content').Spelled := by
  rw [← List.append_nil (Event.comment content).raw] at hrelaid
  generalize hevent : Event.comment content = event at h hrelaid
  cases construct_of_spelled h (by simp [← hevent]) with
  | comment hcontent =>
      rcases exists_comment_append_of_relaid hcontent hrelaid with ⟨content', s', heq, hs, hspelled⟩
      rw [hs.nil_left, List.append_nil] at heq
      exact ⟨content', heq, hspelled⟩
  | instruction hcontent hhead =>
      unfold instructionEvent at hevent
      split at hevent <;> simp at hevent
  | tag hbang hmark hcontent =>
      have hshape := congrArg Event.shape hevent
      rw [shape_tagEvent] at hshape
      simp only [Event.shape] at hshape
      repeat' split at hshape
      all_goals simp at hshape
  | _ => simp at hevent

end Beginning

/-- A construct behind another text, laid out anew. -/
theorem Construct.exists_relaid_append
    {event : Event} {front s t : Text}
    (h : Construct event)
    (hrelaid : Relaid (front ++ (event.raw ++ s)) t) :
    exists (front' : Text) (event' : Event) (s' : Text),
      t = front' ++ (event'.raw ++ s') ∧ Relaid front front' ∧ Relaid s s' ∧
        event'.shape = event.shape ∧ event'.Decided := by
  rcases h.exists_raw_eq with ⟨content, hraw⟩
  rw [hraw, List.cons_append] at hrelaid
  rcases hrelaid.split (by decide) with ⟨front', back', rfl, hfront, hback⟩
  have hevent : Relaid (event.raw ++ s) ('<' :: back') := by
    rw [hraw]
    exact .char '<' hback
  rcases h.exists_relaid hevent with ⟨event', s', heq, hs, hshape, hdecided⟩
  exact ⟨front', event', s', by rw [heq], hfront, hs, hshape, hdecided⟩

/-!
# Forests laid out anew
-/

namespace Forest

/-- Well-formed but for the names of tags and for what is never read. -/
def Loose : Forest -> Prop
  | nil => True
  | leaf event rest => event.isLeaf = true ∧ event.Decided ∧ rest.Loose
  | element opening inside closing rest =>
      ((Event.startTag opening).Decided ∧ (Event.endTag closing).Decided) ∧
        inside.Loose ∧ rest.Loose

end Forest

theorem isLeaf_of_shape
    {event event' : Event}
    (h : event'.shape = event.shape)
    (hleaf : event.isLeaf = true) :
    event'.isLeaf = true := by
  cases event <;> cases event' <;> simp_all [Event.shape, Event.isLeaf]

theorem eq_startTag_of_shape
    {event : Event}
    (h : event.shape = .startTag) :
    exists opening : Text, event = .startTag opening := by
  cases event <;> simp [Event.shape] at h
  exact ⟨_, rfl⟩

theorem eq_endTag_of_shape
    {event : Event}
    (h : event.shape = .endTag) :
    exists closing : Text, event = .endTag closing := by
  cases event <;> simp [Event.shape] at h
  exact ⟨_, rfl⟩

theorem eq_emptyTag_of_shape
    {event : Event}
    (h : event.shape = .emptyTag) :
    exists content : Text, event = .emptyTag content := by
  cases event <;> simp [Event.shape] at h
  exact ⟨_, rfl⟩

/-- An element behind another text, laid out anew; the forest inside is given as a statement, so
that the induction over forests can use it. -/
theorem exists_element_of_relaid
    {opening closing front s t : Text} {inside : Forest}
    (hopening : (Event.startTag opening).Spelled)
    (hclosing : (Event.endTag closing).Spelled)
    (hinside : forall u : Text, Relaid inside.raw u ->
      exists inside' : Forest, inside'.Loose ∧ inside'.raw = u)
    (hrelaid : Relaid
      (front ++ ((Event.startTag opening).raw ++ inside.raw ++
        (Event.endTag closing).raw ++ s)) t) :
    exists (front' opening' closing' s' : Text) (inside' : Forest),
      t = front' ++ ((Event.startTag opening').raw ++ inside'.raw ++
          (Event.endTag closing').raw ++ s') ∧
        Relaid front front' ∧ Relaid s s' ∧ inside'.Loose ∧
        (Event.startTag opening').Decided ∧ (Event.endTag closing').Decided := by
  rw [List.append_assoc, List.append_assoc] at hrelaid
  rcases (construct_of_spelled hopening (by simp)).exists_relaid_append hrelaid with
    ⟨front', event, rest, rfl, hfront, hrest, hshape, hdecided⟩
  rcases eq_startTag_of_shape hshape with ⟨opening', rfl⟩
  rcases (construct_of_spelled hclosing (by simp)).exists_relaid_append hrest with
    ⟨middle, event, s', rfl, hmiddle, hs, hshape', hdecided'⟩
  rcases eq_endTag_of_shape hshape' with ⟨closing', rfl⟩
  rcases hinside middle hmiddle with ⟨inside', hloose, rfl⟩
  refine ⟨front', opening', closing', s', inside', ?_, hfront, hs, hloose, hdecided, hdecided'⟩
  simp

/-- A forest that is laid out anew is a loose forest.  Texts may stand side by side in a forest
and gaps may reach over several of them, so they are taken together with what stands before. -/
theorem exists_forest_of_relaid
    {forest : Forest} {front t : Text}
    (h : forest.WellFormed)
    (hfront : '<' ∉ front)
    (hrelaid : Relaid (front ++ forest.raw) t) :
    exists forest' : Forest, forest'.Loose ∧ forest'.raw = t := by
  have text : forall {u v : Text} {rest : Forest}, '<' ∉ u -> Relaid u v -> rest.Loose ->
      (Forest.leaf (.text v) rest).Loose := by
    intro u v rest hu huv hrest
    exact ⟨rfl, .inl (huv.not_mem (by decide) hu), hrest⟩
  induction forest generalizing front t with
  | nil =>
      rw [show Forest.nil.raw = [] from rfl, List.append_nil] at hrelaid
      refine ⟨.leaf (.text t) .nil, text hfront hrelaid trivial, ?_⟩
      rw [Forest.raw_leaf]
      exact List.append_nil t
  | leaf event rest ih =>
      rw [Forest.raw_leaf] at hrelaid
      by_cases htext : exists content : Text, event = .text content
      · rcases htext with ⟨content, rfl⟩
        rw [← List.append_assoc] at hrelaid
        apply ih h.2.2 _ hrelaid
        intro hmem
        rcases List.mem_append.mp hmem with hmem | hmem
        · exact hfront hmem
        · exact h.2.1 hmem
      · have hconstruct := construct_of_spelled h.2.1 (fun content heq => htext ⟨content, heq⟩)
        rcases hconstruct.exists_relaid_append hrelaid with
          ⟨front', event', s', rfl, hfront', hs, hshape, hdecided⟩
        rcases ih h.2.2 (List.not_mem_nil (a := '<')) hs with ⟨rest', hloose, rfl⟩
        refine ⟨.leaf (.text front') (.leaf event' rest'), ?_, rfl⟩
        exact text hfront hfront' ⟨isLeaf_of_shape hshape h.1, hdecided, hloose⟩
  | element opening inside closing rest ihinside ihrest =>
      rw [Forest.raw_element] at hrelaid
      have hinside : forall u : Text, Relaid inside.raw u ->
          exists inside' : Forest, inside'.Loose ∧ inside'.raw = u := by
        intro u hu
        exact ihinside h.2.1 (List.not_mem_nil (a := '<')) hu
      rcases exists_element_of_relaid h.1.1 h.1.2.1 hinside hrelaid with
        ⟨front', opening', closing', s', inside', rfl, hfront', hs, hloose, hopening, hclosing⟩
      rcases ihrest h.2.2 (List.not_mem_nil (a := '<')) hs with ⟨rest', hlooseRest, rfl⟩
      refine ⟨.leaf (.text front') (.element opening' inside' closing' rest'), ?_, ?_⟩
      · exact text hfront hfront' ⟨⟨hopening, hclosing⟩, hloose, hlooseRest⟩
      · rw [Forest.raw_leaf, Forest.raw_element]
        rfl

end Markup
end AndroidStrings
