import AndroidStrings.Proofs.Markup.Forest
import AndroidStrings.Proofs.Text.Trim

/-!
# Balanced fragments

A balanced fragment is a piece of markup that is complete in itself, said by a grammar and
without the reader: text, comments, character data, instructions, empty tags, and start tags
closed by an end tag of the same name.

## Main statement

`balanced_of_fragment` : a balanced fragment is the text of a forest.
-/

namespace AndroidStrings
namespace Markup

/-- A character that means nothing else in a tag. -/
def isNameChar (c : Char) : Bool :=
  !isSpace c && !(['<', '>', '/', '!', '?', '=', '&', '"', '\''].contains c)

def IsName (name : Text) : Prop :=
  name ≠ [] ∧ name.all isNameChar = true

/-- What may stand behind the name of a tag: white space, and then attributes with their values
in quotes, so that a closing bracket stands inside quotes only. -/
def AreAttributes (attributes : Text) : Prop :=
  (forall c, attributes.head? = some c -> isSpace c = true) ∧
    isTagContent none attributes = true

/-- A balanced piece of markup.  The name of the end tag may have white space behind it. -/
inductive Fragment : Text -> Prop where
  | empty : Fragment []
  | text {content rest : Text} :
      '<' ∉ content ->
      Fragment rest ->
      Fragment (content ++ rest)
  | comment {content rest : Text} :
      ¬ "-->".toList <:+: content ->
      Fragment rest ->
      Fragment ("<!--".toList ++ content ++ "-->".toList ++ rest)
  | cdata {content rest : Text} :
      ¬ "]]>".toList <:+: content ->
      Fragment rest ->
      Fragment ("<![CDATA[".toList ++ content ++ "]]>".toList ++ rest)
  | instruction {content rest : Text} :
      ¬ "?>".toList <:+: content ->
      content.head? ≠ some '>' ->
      Fragment rest ->
      Fragment ("<?".toList ++ content ++ "?>".toList ++ rest)
  | emptyTag {name attributes rest : Text} :
      IsName name ->
      AreAttributes attributes ->
      Fragment rest ->
      Fragment ('<' :: name ++ attributes ++ "/>".toList ++ rest)
  | element {name attributes inside blank rest : Text} :
      IsName name ->
      AreAttributes attributes ->
      attributes.getLast? ≠ some '/' ->
      Fragment inside ->
      blank.all isSpace = true ->
      Fragment rest ->
      Fragment ('<' :: name ++ attributes ++ ['>'] ++ inside ++
        "</".toList ++ name ++ blank ++ ['>'] ++ rest)

theorem Fragment.of_text {content : Text} (h : '<' ∉ content) : Fragment content :=
  List.append_nil content ▸ .text h .empty

/-- An element without attributes, and nothing behind it. -/
theorem Fragment.of_element
    {name inside : Text}
    (hname : IsName name)
    (h : Fragment inside) :
    Fragment ('<' :: name ++ ['>'] ++ inside ++ "</".toList ++ name ++ ['>']) := by
  have hattributes : AreAttributes [] := ⟨by simp, rfl⟩
  have hall := Fragment.element hname hattributes (by simp) h (rfl : [].all isSpace = true) .empty
  simp only [List.append_nil] at hall
  exact hall

/-!
# Contents of tags
-/

/-- Neither a quote nor a closing bracket. -/
def isPlain (c : Char) : Bool :=
  c != '>' && c != '"' && c != '\''

theorem isTagContent_plain_append
    {plain : Text} {quote : Option Char}
    (hquote : quote = none ∨ quote = some '"' ∨ quote = some '\'')
    (h : plain.all isPlain = true)
    (back : Text) :
    isTagContent quote (plain ++ back) = isTagContent quote back := by
  induction plain with
  | nil => rfl
  | cons c plain ih =>
      rw [List.all_cons, Bool.and_eq_true] at h
      have hc : c ≠ '>' ∧ c ≠ '"' ∧ c ≠ '\'' := by
        simpa [isPlain, and_assoc] using h.1
      have hrest := ih h.2
      rcases hquote with hquote | hquote | hquote <;> subst hquote <;>
        simp [isTagContent, hc, hrest]

theorem isTagContent_append_plain
    {plain : Text} {quote : Option Char}
    (hquote : quote = none ∨ quote = some '"' ∨ quote = some '\'')
    (h : plain.all isPlain = true)
    (front : Text) :
    isTagContent quote (front ++ plain) = isTagContent quote front := by
  induction front generalizing quote with
  | nil =>
      have hplain := isTagContent_plain_append hquote h []
      rw [List.append_nil] at hplain
      exact hplain
  | cons c front ih =>
      cases quote with
      | none =>
          rw [List.cons_append, isTagContent, isTagContent, ih]
          by_cases hc : c = '"' ∨ c = '\''
          · rw [if_pos hc]
            rcases hc with hc | hc <;> simp [hc]
          · simp [hc]
      | some q =>
          rw [List.cons_append, isTagContent, isTagContent, ih]
          by_cases hc : c = q
          · simp [hc]
          · simpa [hc] using hquote

/-- A tag that ends with `/>` reads as one only if the rest of it holds no other end of a tag. -/
theorem isTagContent_of_spelled_emptyTag
    {content : Text}
    (h : (Event.emptyTag content).Spelled) :
    isTagContent none content = true := by
  have hconstruct := construct_of_spelled h (by simp)
  rcases hconstruct.exists_tagContent rfl with ⟨inner, hevent, _, _, hinner⟩
  have hraw := congrArg Event.raw hevent
  rw [raw_tagEvent] at hraw
  have hsplit : content ++ ['/'] ++ ['>'] = inner ++ ['>'] := by
    simpa [Event.raw] using hraw
  rw [← List.append_cancel_right hsplit, isTagContent_append_plain (.inl rfl) (by rfl)] at hinner
  exact hinner

theorem all_isPlain_of_isName {name : Text} (h : IsName name) : name.all isPlain = true := by
  rw [List.all_eq_true]
  intro c hc
  have hname := List.all_eq_true.mp h.2 c hc
  simp only [isNameChar, Bool.and_eq_true, Bool.not_eq_true'] at hname
  simp only [isPlain, Bool.and_eq_true, bne_iff_ne, ne_eq]
  refine ⟨⟨?_, ?_⟩, ?_⟩ <;>
    · intro heq
      rw [heq] at hname
      simp at hname

theorem all_isPlain_of_isSpace
    {blank : Text}
    (h : blank.all isSpace = true) :
    blank.all isPlain = true := by
  rw [List.all_eq_true]
  intro c hc
  have hspace := List.all_eq_true.mp h c hc
  simp only [isPlain, Bool.and_eq_true, bne_iff_ne, ne_eq]
  refine ⟨⟨?_, ?_⟩, ?_⟩ <;>
    · intro heq
      rw [heq] at hspace
      simp [isSpace] at hspace

/-!
# Tags with names
-/

section Tags

variable {name attributes blank : Text}

theorem head?_ne_of_isName
    (hname : IsName name)
    {c : Char}
    (hc : isNameChar c = false)
    (back : Text) :
    (name ++ back).head? ≠ some c := by
  cases name with
  | nil => exact absurd rfl hname.1
  | cons d name =>
      intro hhead
      have hd := List.all_eq_true.mp hname.2 d (by simp)
      simp only [List.cons_append, List.head?_cons, Option.some.injEq] at hhead
      rw [hhead, hc] at hd
      exact Bool.noConfusion hd

theorem tagName_append (hname : IsName name) (hattributes : AreAttributes attributes) :
    tagName (name ++ attributes) = name := by
  have hall : forall c, c ∈ name -> (!isSpace c) = true := by
    intro c hc
    have hd := List.all_eq_true.mp hname.2 c hc
    simp only [isNameChar, Bool.and_eq_true] at hd
    exact hd.1
  unfold tagName
  rw [List.takeWhile_append_of_pos hall]
  cases attributes with
  | nil => simp
  | cons c attributes => simp [hattributes.1 c rfl]

theorem endTagName_append (hname : IsName name) (hblank : blank.all isSpace = true) :
    endTagName (name ++ blank) = name := by
  have htrim : Text.trimEnd isSpace (name ++ blank) = name := by
    rw [Text.trimEnd_append_of_all (List.all_eq_true.mp hblank)]
    apply Text.trimEnd_eq_self
    intro c hc
    have hd := List.all_eq_true.mp hname.2 c (List.mem_of_getLast? hc)
    simp only [isNameChar, Bool.and_eq_true, Bool.not_eq_true'] at hd
    exact hd.1
  unfold endTagName
  rw [htrim]
  cases name with
  | nil => exact absurd rfl hname.1
  | cons c name => rfl

theorem spelled_emptyTag (hname : IsName name) (hattributes : AreAttributes attributes) :
    (Event.emptyTag (name ++ attributes)).Spelled := by
  have hevent : tagEvent (name ++ (attributes ++ ['/'])) =
      .emptyTag (name ++ attributes) := by
    unfold tagEvent
    split
    · rename_i u hu
      exact absurd (by rw [hu]; rfl) (head?_ne_of_isName hname rfl (attributes ++ ['/']))
    · rw [← List.append_assoc, List.getLast?_concat, if_pos rfl, List.dropLast_concat]
  rw [← hevent]
  apply spelled_tagEvent
  · exact head?_ne_of_isName hname rfl _
  · exact head?_ne_of_isName hname rfl _
  · rw [isTagContent_plain_append (.inl rfl) (all_isPlain_of_isName hname),
      isTagContent_append_plain (.inl rfl) (by rfl)]
    exact hattributes.2

theorem spelled_startTag
    (hname : IsName name) (hattributes : AreAttributes attributes)
    (hlast : attributes.getLast? ≠ some '/') :
    (Event.startTag (name ++ attributes)).Spelled := by
  have hslash : (name ++ attributes).getLast? ≠ some '/' := by
    rw [List.getLast?_append]
    cases hattr : attributes.getLast? with
    | some c =>
        rw [hattr] at hlast
        simpa using hlast
    | none =>
        intro hcon
        have hd := List.all_eq_true.mp hname.2 '/' (List.mem_of_getLast? (by simpa using hcon))
        exact Bool.noConfusion hd
  have hevent : tagEvent (name ++ attributes) = .startTag (name ++ attributes) := by
    unfold tagEvent
    split
    · rename_i u hu
      exact absurd (by rw [hu]; rfl) (head?_ne_of_isName hname rfl attributes)
    · rw [if_neg hslash]
  rw [← hevent]
  apply spelled_tagEvent
  · exact head?_ne_of_isName hname rfl _
  · exact head?_ne_of_isName hname rfl _
  · rw [isTagContent_plain_append (.inl rfl) (all_isPlain_of_isName hname)]
    exact hattributes.2

theorem spelled_endTag (hname : IsName name) (hblank : blank.all isSpace = true) :
    (Event.endTag (name ++ blank)).Spelled := by
  have hplain : (name ++ blank).all isPlain = true := by
    rw [List.all_append, all_isPlain_of_isName hname, all_isPlain_of_isSpace hblank]
    rfl
  have hevent : tagEvent ('/' :: (name ++ blank)) = .endTag (name ++ blank) := rfl
  rw [← hevent]
  apply spelled_tagEvent
  · simp
  · simp
  · have hslash : ('/' :: (name ++ blank)).all isPlain = true := by
      rw [List.all_cons, hplain]
      rfl
    have hcontent := isTagContent_plain_append (.inl rfl) hslash []
    rw [List.append_nil] at hcontent
    rw [hcontent]
    rfl

theorem spelled_endTag_of_isName (hname : IsName name) : (Event.endTag name).Spelled := by
  have hclosing := spelled_endTag hname (rfl : List.all [] isSpace = true)
  rwa [List.append_nil] at hclosing

end Tags

/-!
# The forest of a fragment
-/

/-- The text reads as a forest: whole events, with every element closed in it. -/
def Balanced (t : Text) : Prop :=
  exists forest : Forest, forest.WellFormed ∧ forest.raw = t

theorem Forest.raw_leaf (event : Event) (rest : Forest) :
    (leaf event rest).raw = event.raw ++ rest.raw := rfl

theorem Forest.raw_element (opening closing : Text) (inside rest : Forest) :
    (element opening inside closing rest).raw =
      (Event.startTag opening).raw ++ inside.raw ++ (Event.endTag closing).raw ++ rest.raw := by
  simp [raw]

theorem balanced_of_fragment
    {t : Text}
    (h : Fragment t) :
    Balanced t := by
  induction h with
  | empty => exact ⟨.nil, trivial, rfl⟩
  | text hcontent _ ih =>
      rename_i content rest _
      rcases ih with ⟨forest, hwell, hraw⟩
      refine ⟨.leaf (.text content) forest, ⟨rfl, hcontent, hwell⟩, ?_⟩
      rw [Forest.raw_leaf, hraw]
      rfl
  | comment hcontent _ ih =>
      rcases ih with ⟨forest, hwell, hraw⟩
      refine ⟨.leaf (.comment _) forest, ⟨rfl, spelled_comment hcontent, hwell⟩, ?_⟩
      rw [Forest.raw_leaf, hraw]
      simp [Event.raw]
  | cdata hcontent _ ih =>
      rcases ih with ⟨forest, hwell, hraw⟩
      refine ⟨.leaf (.cdata _) forest, ⟨rfl, spelled_cdata hcontent, hwell⟩, ?_⟩
      rw [Forest.raw_leaf, hraw]
      simp [Event.raw]
  | instruction hcontent hhead _ ih =>
      rename_i content rest _
      rcases ih with ⟨forest, hwell, hraw⟩
      have hleaf : (instructionEvent content).isLeaf = true := by
        unfold instructionEvent
        split <;> rfl
      refine ⟨.leaf (instructionEvent content) forest,
        ⟨hleaf, spelled_instructionEvent hcontent hhead, hwell⟩, ?_⟩
      rw [Forest.raw_leaf, hraw, raw_instructionEvent]
      simp
  | emptyTag hname hattributes _ ih =>
      rcases ih with ⟨forest, hwell, hraw⟩
      refine ⟨.leaf (.emptyTag _) forest, ⟨rfl, spelled_emptyTag hname hattributes, hwell⟩, ?_⟩
      rw [Forest.raw_leaf, hraw]
      simp [Event.raw]
  | element hname hattributes hlast _ hblank _ ihinside ihrest =>
      rcases ihinside with ⟨inside, hinside, hrawInside⟩
      rcases ihrest with ⟨forest, hwell, hraw⟩
      refine ⟨.element _ inside _ forest, ⟨⟨spelled_startTag hname hattributes hlast,
        spelled_endTag hname hblank, ?_⟩, hinside, hwell⟩, ?_⟩
      · rw [tagName_append hname hattributes, endTagName_append hname hblank]
      · rw [Forest.raw_element, hraw, hrawInside]
        simp [Event.raw]

end Markup
end AndroidStrings
