import AndroidStrings.Proofs.Text.CharClass
import AndroidStrings.Proofs.Value.InlineTag

/-!
# XML tags in a value

A tag of XML has a name and attributes in quotes.  Angle brackets stand around it and a `<` nowhere
in it, so it is an inline tag exactly when its name begins with a letter; this is decided in front
of its first quote.

## Main statements

- `Tag.beginsAt_raw` : which tags are inline tags.
- `Tag.exists_front_eq` : what stands in front of a quote in a tag.
-/

namespace AndroidStrings

open CharClass InlineTag Text

namespace MarkedUp

def isNameStart (c : Char) : Bool :=
  isAsciiLetter c || c == '_' || c == ':'

def isNameRest (c : Char) : Bool :=
  isNameStart c || isAsciiDigit c || c == '.' || c == '-'

/-- A name of ASCII characters. -/
structure Name where
  first : Char
  rest : Text
  isNameStart_first : isNameStart first = true
  isNameRest_rest : forall c, c ∈ rest -> isNameRest c = true

/-- White space between the parts of a tag. -/
abbrev Blank : Type :=
  { blank : Text // forall c, c ∈ blank -> Markup.isSpace c = true }

/-- What may stand in the name of an attribute. -/
def isKeyChar (c : Char) : Bool :=
  !Markup.isSpace c && !isQuote c && c != '<' && c != '>' && c != '&' && c != '=' && c != '/'

/-- An attribute with the white space in front of it and around its `=`. -/
structure Attribute where
  blank : Blank
  key : Text
  before : Blank
  after : Blank
  quote : Char
  value : Text
  blank_ne_nil : blank.val ≠ []
  key_ne_nil : key ≠ []
  isKeyChar_key : forall c, c ∈ key -> isKeyChar c = true
  isQuote_quote : isQuote quote = true
  quoted : forall c, c ∈ value -> c ≠ '<' ∧ c ≠ '&' ∧ c ≠ quote

def Attribute.raw (a : Attribute) : Text :=
  a.blank.val ++
    (a.key ++ a.before.val ++ '=' :: (a.after.val ++ a.quote :: (a.value ++ [a.quote])))

inductive Tag where
  | opening (name : Name) (attributes : List Attribute) (blank : Blank)
  | empty (name : Name) (attributes : List Attribute) (blank : Blank)
  | closing (name : Name) (blank : Blank)

namespace Tag

def name : Tag -> Name
  | opening name _ _ => name
  | empty name _ _ => name
  | closing name _ => name

/-- What stands between the `<` and the name. -/
def mark : Tag -> Text
  | closing _ _ => ['/']
  | _ => []

/-- The attributes, and the white space behind them. -/
def gap : Tag -> Text
  | opening _ attributes blank => attributes.flatMap Attribute.raw ++ blank.val
  | empty _ attributes blank => attributes.flatMap Attribute.raw ++ blank.val
  | closing _ blank => blank.val

/-- What stands in front of the last `>`. -/
def slash : Tag -> Text
  | empty _ _ _ => ['/']
  | _ => []

def inner (tag : Tag) : Text :=
  tag.mark ++ tag.name.first :: (tag.name.rest ++ (tag.gap ++ tag.slash))

def raw (tag : Tag) : Text :=
  '<' :: (tag.inner ++ ['>'])

end Tag

/-!
# The characters of a tag
-/

variable {c : Char} {t : Text}

theorem isNameChar_of_isAsciiAlphanumeric
    (h : isAsciiAlphanumeric c = true) :
    isNameChar c = true := by
  rw [isNameChar, isWord_of_isAsciiAlphanumeric h]
  rfl

theorem isNameChar_of_isNameRest (h : isNameRest c = true) : isNameChar c = true := by
  simp only [isNameRest, isNameStart, Bool.or_eq_true, beq_iff_eq] at h
  rcases h with ((((hletter | rfl) | rfl) | hdigit) | rfl) | rfl
  · exact isNameChar_of_isAsciiAlphanumeric (by rw [isAsciiAlphanumeric, hletter, Bool.true_or])
  · decide
  · decide
  · exact isNameChar_of_isAsciiAlphanumeric (by rw [isAsciiAlphanumeric, hdigit, Bool.or_true])
  · decide
  · decide

theorem ne_of_isQuote (h : isQuote c = true) : c ≠ '<' ∧ c ≠ '>' ∧ c ≠ '&' ∧ c ≠ '/' := by
  simp only [isQuote, Bool.or_eq_true, beq_iff_eq] at h
  rcases h with rfl | rfl <;> decide

/-- A text that a tag may hold between its angle brackets. -/
def IsHeld (t : Text) : Prop :=
  '<' ∉ t ∧ '&' ∉ t

instance (t : Text) : Decidable (IsHeld t) :=
  inferInstanceAs (Decidable ('<' ∉ t ∧ '&' ∉ t))

theorem isHeld_append_iff {s : Text} : IsHeld (s ++ t) ↔ IsHeld s ∧ IsHeld t := by
  simp only [IsHeld, List.mem_append, not_or]
  exact and_and_and_comm

theorem isHeld_cons_iff : IsHeld (c :: t) ↔ (c ≠ '<' ∧ c ≠ '&') ∧ IsHeld t := by
  simp only [IsHeld, List.mem_cons, not_or, ne_comm (b := c), Ne]
  exact and_and_and_comm

theorem isHeld_of_forall
    {inClass : Char -> Bool}
    (hclass : inClass '<' = false ∧ inClass '&' = false)
    (h : forall c, c ∈ t -> inClass c = true) :
    IsHeld t := by
  constructor
  · intro hmem
    exact ne_true_of_eq_false hclass.1 (h '<' hmem)
  · intro hmem
    exact ne_true_of_eq_false hclass.2 (h '&' hmem)

theorem Blank.isHeld (blank : Blank) : IsHeld blank.val :=
  isHeld_of_forall (by decide) blank.property

theorem Attribute.isHeld_raw (a : Attribute) : IsHeld a.raw := by
  have hkey : IsHeld a.key := isHeld_of_forall (by decide) a.isKeyChar_key
  have hquote := ne_of_isQuote a.isQuote_quote
  have hvalue : IsHeld a.value :=
    ⟨fun hmem => (a.quoted '<' hmem).1 rfl, fun hmem => (a.quoted '&' hmem).2.1 rfl⟩
  simp only [Attribute.raw, isHeld_append_iff, isHeld_cons_iff]
  exact ⟨a.blank.isHeld, ⟨hkey, a.before.isHeld⟩, by decide, a.after.isHeld,
    ⟨hquote.1, hquote.2.2.1⟩, hvalue, ⟨hquote.1, hquote.2.2.1⟩, by decide⟩

/-- The part of a tag behind its name begins with white space. -/
def IsGap (t : Text) : Prop :=
  t = [] ∨ exists (c : Char) (rest : Text), t = c :: rest ∧ Markup.isSpace c = true

theorem Blank.isGap_append
    (blank : Blank)
    (h : blank.val ≠ [])
    (t : Text) :
    IsGap (blank.val ++ t) := by
  rcases List.exists_cons_of_ne_nil h with ⟨c, rest, heq⟩
  refine .inr ⟨c, rest ++ t, by rw [heq, List.cons_append], blank.property c ?_⟩
  rw [heq]
  exact List.mem_cons_self

theorem Blank.isGap (blank : Blank) : IsGap blank.val := by
  by_cases h : blank.val = []
  · exact .inl h
  · have hgap := blank.isGap_append h []
    rwa [List.append_nil] at hgap

theorem isHeld_attributes
    (attributes : List Attribute) (blank : Blank) :
    IsHeld (attributes.flatMap Attribute.raw ++ blank.val) := by
  induction attributes with
  | nil => exact blank.isHeld
  | cons a attributes ih =>
      rw [List.flatMap_cons, List.append_assoc]
      exact isHeld_append_iff.mpr ⟨a.isHeld_raw, ih⟩

theorem isGap_attributes
    (attributes : List Attribute) (blank : Blank) :
    IsGap (attributes.flatMap Attribute.raw ++ blank.val) := by
  cases attributes with
  | nil => exact blank.isGap
  | cons a attributes =>
      rw [List.flatMap_cons, Attribute.raw, List.append_assoc, List.append_assoc]
      exact a.blank.isGap_append a.blank_ne_nil _

theorem head?_dropWhile_bracket
    {s : Text}
    (h : '<' ∉ s)
    (t : Text) :
    ((s ++ '>' :: t).dropWhile fun d => d != '<' && d != '>').head? = some '>' := by
  induction s with
  | nil => rfl
  | cons c s ih =>
      rw [List.mem_cons, not_or] at h
      by_cases hc : c = '>'
      · rw [hc]
        rfl
      · rw [List.cons_append, List.dropWhile_cons_of_pos (by simp [hc, Ne.symm h.1]), ih h.2]

theorem occursIn_append
    {s : Text}
    (h : '<' ∉ s)
    (t : Text) :
    occursIn (s ++ t) = occursIn t := by
  induction s with
  | nil => rfl
  | cons c s ih =>
      rw [List.mem_cons, not_or] at h
      have hc : beginsAt (c :: (s ++ t)) = false := by
        simp [beginsAt, Ne.symm h.1]
      rw [List.cons_append, occursIn, hc, Bool.false_or, ih h.2]

theorem occursIn_eq_false (h : '<' ∉ t) : occursIn t = false := by
  have hnil := occursIn_append h []
  rwa [List.append_nil] at hnil

theorem beginsAt_mark
    {mark : Text}
    (hmark : mark = [] ∨ mark = ['/'])
    (hc : c ≠ '/')
    (t : Text) :
    beginsAt ('<' :: (mark ++ c :: t)) = isNamedTag (c :: t) := by
  rcases hmark with rfl | rfl
  · exact beginsAt_cons hc t
  · rfl

namespace Tag

variable (tag : Tag)

theorem mark_eq : tag.mark = [] ∨ tag.mark = ['/'] := by
  cases tag with
  | opening => exact .inl rfl
  | empty => exact .inl rfl
  | closing => exact .inr rfl

theorem slash_eq : tag.slash = [] ∨ tag.slash = ['/'] := by
  cases tag with
  | opening => exact .inl rfl
  | empty => exact .inr rfl
  | closing => exact .inl rfl

theorem isHeld_gap : IsHeld tag.gap := by
  cases tag with
  | opening name attributes blank => exact isHeld_attributes attributes blank
  | empty name attributes blank => exact isHeld_attributes attributes blank
  | closing name blank => exact blank.isHeld

theorem isGap_gap : IsGap tag.gap := by
  cases tag with
  | opening name attributes blank => exact isGap_attributes attributes blank
  | empty name attributes blank => exact isGap_attributes attributes blank
  | closing name blank => exact blank.isGap

theorem first_ne : tag.name.first ≠ '/' ∧ isQuote tag.name.first = false := by
  have hfirst := tag.name.isNameStart_first
  constructor
  · intro heq
    rw [heq] at hfirst
    cases hfirst
  · rw [Bool.eq_false_iff]
    intro hquote
    simp only [isQuote, Bool.or_eq_true, beq_iff_eq] at hquote
    rcases hquote with heq | heq <;>
      · rw [heq] at hfirst
        cases hfirst

theorem isHeld_inner : IsHeld tag.inner := by
  have hmark : IsHeld tag.mark := by
    rcases tag.mark_eq with heq | heq <;>
      · rw [heq]
        decide
  have hslash : IsHeld tag.slash := by
    rcases tag.slash_eq with heq | heq <;>
      · rw [heq]
        decide
  have hname : IsHeld (tag.name.first :: tag.name.rest) := by
    have hclass : isNameRest '<' = false ∧ isNameRest '&' = false := by
      decide
    apply isHeld_of_forall hclass
    intro c hc
    rcases List.mem_cons.mp hc with rfl | hc
    · rw [isNameRest, tag.name.isNameStart_first]
      rfl
    · exact tag.name.isNameRest_rest c hc
  rw [inner, ← List.cons_append]
  simp only [isHeld_append_iff]
  exact ⟨hmark, hname, tag.isHeld_gap, hslash⟩

theorem not_mem_tail : '<' ∉ tag.inner ++ ['>'] := by
  simp [tag.isHeld_inner.1]

theorem not_mem_gap : '<' ∉ tag.gap ++ tag.slash := by
  have hinner := tag.isHeld_inner
  rw [inner, ← List.cons_append, isHeld_append_iff, isHeld_append_iff] at hinner
  exact hinner.2.2.1

/-- What stands behind the name ends a tag, and the name does not go on there. -/
theorem endsTag_gap (t : Text) :
    endsTag ((tag.gap ++ (tag.slash ++ '>' :: t)).dropWhile InlineTag.isNameChar) = true := by
  rcases tag.isGap_gap with hgap | ⟨c, rest, hgap, hspace⟩
  · rw [hgap, List.nil_append]
    rcases tag.slash_eq with hslash | hslash <;>
      · rw [hslash]
        rfl
  · have hc : c ≠ '/' ∧ c ≠ '>' ∧ InlineTag.isNameChar c = false := by
      simp only [Markup.isSpace, Bool.or_eq_true, beq_iff_eq] at hspace
      rcases hspace with ((rfl | rfl) | rfl) | rfl <;> decide
    have hrest : '<' ∉ rest ++ tag.slash := by
      have hnone := tag.not_mem_gap
      rw [hgap, List.cons_append, List.mem_cons, not_or] at hnone
      exact hnone.2
    rw [hgap, List.cons_append, List.dropWhile_cons_of_neg (by simp [hc.2.2]),
      endsTag_cons hc.1 hc.2.1, Markup.isWhiteSpace_of_isSpace hspace, ← List.append_assoc,
      head?_dropWhile_bracket hrest]
    rfl

/-- A tag is an inline tag when its name begins with a letter. -/
theorem beginsAt_raw (t : Text) : beginsAt (tag.raw ++ t) = isAsciiLetter tag.name.first := by
  have hname :
      isNamedTag (tag.name.first :: (tag.name.rest ++ (tag.gap ++ (tag.slash ++ '>' :: t)))) =
        isAsciiLetter tag.name.first := by
    have hrest : forall c, c ∈ tag.name.rest -> InlineTag.isNameChar c = true :=
      fun c hc => isNameChar_of_isNameRest (tag.name.isNameRest_rest c hc)
    rw [isNamedTag, List.dropWhile_append_of_pos hrest, tag.endsTag_gap, Bool.and_true]
  have hraw : tag.raw ++ t = '<' ::
      (tag.mark ++ tag.name.first :: (tag.name.rest ++ (tag.gap ++ (tag.slash ++ '>' :: t)))) := by
    simp [raw, inner]
  rw [hraw, ← hname]
  exact beginsAt_mark tag.mark_eq tag.first_ne.1 _

variable {tag} in
/-- The first quote of a tag stands behind its name. -/
theorem exists_front_eq
    {front back : Text}
    (h : tag.inner ++ ['>'] = front ++ c :: back)
    (hc : isQuote c = true) :
    exists rest : Text, front = tag.mark ++ tag.name.first :: rest := by
  have hne : c ∉ tag.mark ++ [tag.name.first] := by
    intro hmem
    rcases List.mem_append.mp hmem with hmark | hfirst
    · rcases tag.mark_eq with heq | heq
      · rw [heq] at hmark
        cases hmark
      · rw [heq, List.mem_singleton] at hmark
        exact (ne_of_isQuote hc).2.2.2 hmark
    · rw [List.mem_singleton.mp hfirst, tag.first_ne.2] at hc
      cases hc
  rw [inner, List.append_assoc, List.cons_append, List.append_cons,
    List.append_eq_append_iff] at h
  rcases h with ⟨rest, hfront, _⟩ | ⟨rest, hfront, hback⟩
  · exact ⟨rest, by rw [hfront, List.append_assoc, List.singleton_append]⟩
  · cases rest with
    | nil =>
        rw [List.append_nil] at hfront
        exact ⟨[], hfront.symm⟩
    | cons d rest =>
        rw [List.cons_append, List.cons.injEq] at hback
        rw [hfront, ← hback.1] at hne
        simp at hne

end Tag
end MarkedUp
end AndroidStrings
