import AndroidStrings.Proofs.Markup.Construct
import AndroidStrings.Proofs.Text.CharClass
import AndroidStrings.Proofs.Value.Placeholder

/-!
# Values composed of placeholders

A value is written as a row of parts: plain text, doubled percent signs, and tokens, which are
specifiers, brace tokens and spans.  The doubled percent signs are taken out of the whole value
before it is scanned, from left to right.  No other part has two percent signs side by side or ends
in one, so exactly the parts that were written as doubled signs are taken out.  What is left is
scanned part by part: no token begins in plain text, and behind every token that is found the scan
goes on with the next part.

## Main statement

`extract_raw` : the placeholders of a value are the tokens that it is composed of.
-/

namespace AndroidStrings
namespace Placeholder

open CharClass Text

/-!
# Parts of a value
-/

def doubled : Text :=
  ['%', '%']

/-- The letters that a specifier ends with. -/
def specifierLetters : Text :=
  ['s', 'd', 'i', 'f']

/-- The characters that a token begins with. -/
def tokenMarks : Text :=
  ['%', '{', '<']

abbrev Digits : Type :=
  { t : Text // forall c, c ∈ t -> isAsciiDigit c = true }

abbrev Letter : Type :=
  { c : Char // c ∈ specifierLetters }

abbrev BraceName : Type :=
  { t : Text // t ≠ [] ∧ '}' ∉ t ∧ ¬ doubled <:+: t }

abbrev SpanAttributes : Type :=
  { t : Text // '>' ∉ t ∧ ¬ doubled <:+: t }

abbrev SpanContent : Type :=
  { t : Text // ¬ spanClosing <:+: t ∧ ¬ doubled <:+: t }

/-- Text in which no token begins. -/
abbrev PlainText : Type :=
  { t : Text // List.Disjoint t tokenMarks }

inductive Token where
  | specifier (digits : Digits) (dollar : Bool) (letter : Letter)
  | brace (name : BraceName)
  | span (attributes : SpanAttributes) (content : SpanContent)

namespace Token

/-- The dollar sign of a specifier. -/
def dollarSign (dollar : Bool) : Text :=
  if dollar then ['$'] else []

def raw : Token -> Text
  | specifier digits dollar letter =>
      '%' :: (digits.val ++ (dollarSign dollar ++ [letter.val]))
  | brace name => '{' :: (name.val ++ ['}'])
  | span attributes content =>
      spanOpening ++ (attributes.val ++ '>' :: (content.val ++ spanClosing))

end Token

inductive Part where
  | plain (t : PlainText)
  | percent
  | token (written : Token)

namespace Part

def raw : Part -> Text
  | plain t => t.val
  | percent => doubled
  | token written => written.raw

def token? : Part -> Option Token
  | token written => some written
  | _ => none

/-- What is left of a part when the doubled percent signs are taken out. -/
def left : Part -> Text
  | percent => []
  | part => part.raw

end Part

variable {s t : Text} {c : Char}

/-!
# Doubled percent signs
-/

/-- A text that stays as it is when the doubled percent signs are taken out, whatever follows it. -/
def Stays (s : Text) : Prop :=
  forall t : Text, withoutDoubled (s ++ t) = s ++ withoutDoubled t

theorem Stays.append (hs : Stays s) (ht : Stays t) : Stays (s ++ t) := by
  intro following
  rw [List.append_assoc, hs, ht, List.append_assoc]

theorem stays_of_not_mem (h : '%' ∉ s) : Stays s :=
  fun following => replaceAll_append_of_not_mem h following

/-- A text without doubled percent signs, closed by something else. -/
theorem stays_append_singleton
    (hs : ¬ doubled <:+: s)
    (hc : c ≠ '%') :
    Stays (s ++ [c]) := by
  intro following
  induction s with
  | nil => exact stays_of_not_mem (by simpa using hc.symm) following
  | cons d s ih =>
      rw [List.infix_cons_iff, not_or] at hs
      have hbegins : ¬ doubled <+: d :: (s ++ [c] ++ following) := by
        intro hbegins
        rw [doubled, List.cons_prefix_cons] at hbegins
        cases s with
        | nil => exact hc (List.cons_prefix_cons.mp hbegins.2).1.symm
        | cons e s =>
            apply hs.1
            rw [doubled, List.cons_prefix_cons, List.cons_prefix_cons]
            exact ⟨hbegins.1, (List.cons_prefix_cons.mp hbegins.2).1, List.nil_prefix⟩
      exact (replaceAll_cons hbegins []).trans (congrArg (d :: ·) (ih hs.2))

theorem not_doubled_isInfix_cons (h : '%' ∉ s) : ¬ doubled <:+: '%' :: s := by
  rw [List.infix_cons_iff, not_or]
  constructor
  · intro hbegins
    exact h ((List.cons_prefix_cons.mp hbegins).2.subset List.mem_cons_self)
  · intro hinside
    exact h (hinside.subset List.mem_cons_self)

theorem ne_of_mem_specifierLetters (h : c ∈ specifierLetters) :
    c ≠ '%' ∧ c ≠ '$' ∧ isDecimalDigit c = false := by
  simp only [specifierLetters, List.mem_cons, List.not_mem_nil, or_false] at h
  rcases h with rfl | rfl | rfl | rfl <;> decide

theorem stays_raw (token : Token) : Stays token.raw := by
  cases token with
  | specifier digits dollar letter =>
      have hdigits : '%' ∉ digits.val := by
        intro hmem
        cases digits.property '%' hmem
      have hdollar : '%' ∉ Token.dollarSign dollar := by
        cases dollar <;> decide
      have hboth : '%' ∉ digits.val ++ Token.dollarSign dollar := by
        simp [hdigits, hdollar]
      have hstays := stays_append_singleton (not_doubled_isInfix_cons hboth)
        (ne_of_mem_specifierLetters letter.property).1
      simpa [Token.raw] using hstays
  | brace name =>
      have hopen : Stays ['{'] := stays_of_not_mem (by decide)
      have hname : Stays (name.val ++ ['}']) :=
        stays_append_singleton name.property.2.2 (by decide)
      rw [Token.raw, ← List.singleton_append]
      exact hopen.append hname
  | span attributes content =>
      have hopening : Stays spanOpening := stays_of_not_mem (by decide)
      have hattributes : Stays (attributes.val ++ ['>']) :=
        stays_append_singleton attributes.property.2 (by decide)
      have hcontent : Stays (content.val ++ ['<']) :=
        stays_append_singleton content.property.2 (by decide)
      have hclosing : Stays "/xliff:g>".toList := stays_of_not_mem (by decide)
      have hsplit : (Token.span attributes content).raw = spanOpening ++
          ((attributes.val ++ ['>']) ++ ((content.val ++ ['<']) ++ "/xliff:g>".toList)) := by
        rw [Token.raw, List.append_cons attributes.val, List.append_assoc content.val]
        rfl
      rw [hsplit]
      exact hopening.append (hattributes.append (hcontent.append hclosing))

/-- Taking out the doubled percent signs takes out the parts that were written as such. -/
theorem withoutDoubled_raw (parts : List Part) :
    withoutDoubled (parts.flatMap Part.raw) = parts.flatMap Part.left := by
  induction parts with
  | nil => simp [withoutDoubled, replaceAll]
  | cons part parts ih =>
      rw [List.flatMap_cons, List.flatMap_cons, ← ih]
      cases part with
      | plain t => exact stays_of_not_mem (fun hmem => t.property hmem List.mem_cons_self) _
      | percent => exact replaceAll_append (List.cons_ne_nil '%' ['%']) [] _
      | token written => exact stays_raw written _

/-!
# Finding a token
-/

theorem conversionAt?_raw
    (dollar : Bool) (letter : Letter)
    (t : Text) :
    conversionAt? (Token.dollarSign dollar ++ ([letter.val] ++ t)) =
      some (Token.dollarSign dollar ++ [letter.val]) := by
  have hletter : letterAt? (letter.val :: t) = some [letter.val] := by
    have hmem := letter.property
    simp only [specifierLetters, List.mem_cons, List.not_mem_nil, or_false] at hmem
    rcases hmem with heq | heq | heq | heq <;>
      · rw [heq]
        rfl
  cases dollar with
  | true =>
      change conversionAt? ('$' :: letter.val :: t) = _
      rw [conversionAt?, if_pos rfl, hletter]
      rfl
  | false =>
      change conversionAt? (letter.val :: t) = _
      rw [conversionAt?, if_neg (ne_of_mem_specifierLetters letter.property).2.1, hletter]
      rfl

theorem specifierAt?_raw
    (digits : Digits) (dollar : Bool) (letter : Letter)
    (t : Text) :
    specifierAt? ((Token.specifier digits dollar letter).raw ++ t) =
      some (Token.specifier digits dollar letter).raw := by
  have hdigits : forall c, c ∈ digits.val -> isDecimalDigit c = true :=
    fun c hc => isDecimalDigit_of_isAsciiDigit (digits.property c hc)
  have hstop : exists (c : Char) (rest : Text),
      Token.dollarSign dollar ++ ([letter.val] ++ t) = c :: rest ∧ isDecimalDigit c = false := by
    cases dollar with
    | true => exact ⟨'$', letter.val :: t, rfl, by decide⟩
    | false => exact ⟨letter.val, t, rfl, (ne_of_mem_specifierLetters letter.property).2.2⟩
  rcases hstop with ⟨c, rest, hrest, hc⟩
  have hconversion := conversionAt?_raw dollar letter t
  rw [Token.raw, List.cons_append, List.append_assoc, List.append_assoc, specifierAt?_cons]
  rw [hrest] at hconversion ⊢
  rw [Markup.dropWhile_append_cons hdigits hc, Markup.takeWhile_append_cons hdigits hc, hconversion]
  rfl

theorem braceTokenAt?_raw
    (name : BraceName)
    (t : Text) :
    braceTokenAt? ((Token.brace name).raw ++ t) = some (Token.brace name).raw := by
  have hname : forall c, c ∈ name.val -> (c != '}') = true :=
    fun c hc => bne_iff_ne.mpr (ne_of_mem_of_not_mem hc name.property.2.1)
  rw [Token.raw, List.cons_append, List.append_assoc, List.singleton_append, braceTokenAt?_cons,
    Markup.dropWhile_append_cons hname rfl, Markup.takeWhile_append_cons hname rfl, if_neg]
  · rfl
  · rw [not_or]
    exact ⟨name.property.1, List.cons_ne_nil _ _⟩

theorem spanAt?_raw
    (attributes : SpanAttributes) (content : SpanContent)
    (t : Text) :
    spanAt? ((Token.span attributes content).raw ++ t) =
      some (Token.span attributes content).raw := by
  have hattributes : forall c, c ∈ attributes.val -> (c != '>') = true :=
    fun c hc => bne_iff_ne.mpr (ne_of_mem_of_not_mem hc attributes.property.1)
  have hstrip : forall rest : Text, stripPrefix? spanOpening (spanOpening ++ rest) = some rest := by
    intro rest
    rw [stripPrefix?, if_pos (List.isPrefixOf_iff_prefix.mpr (List.prefix_append _ _)),
      List.drop_left]
  -- No closing tag begins in the content, so the first one is the one behind it.
  have hcut : cutAt? spanClosing (content.val ++ spanClosing ++ t) = some (content.val, t) :=
    cutAt?_append "</xliff:g".toList '>' (by decide) content.property.1 t
  rw [Token.raw, List.append_assoc, List.append_assoc, List.cons_append, spanAt?_eq, hstrip,
    Option.bind_some, spanRestAt?, Markup.dropWhile_append_cons hattributes rfl,
    Markup.takeWhile_append_cons hattributes rfl]
  simp only [hcut, Option.map_some]
  rw [List.append_assoc, List.cons_append]

theorem at?_raw (token : Token) (t : Text) : at? (token.raw ++ t) = some token.raw := by
  cases token with
  | specifier digits dollar letter =>
      rw [at?_eq, simpleAt?, specifierAt?_raw]
      rfl
  | brace name =>
      rw [at?_eq, simpleAt?, braceTokenAt?_raw, Token.raw, List.cons_append,
        specifierAt?_of_ne (by decide)]
      rfl
  | span attributes content =>
      have hfirst : (Token.span attributes content).raw =
          '<' :: (Token.span attributes content).raw.tail := rfl
      rw [at?_eq, simpleAt?, spanAt?_raw, hfirst, List.cons_append,
        specifierAt?_of_ne (by decide), braceTokenAt?_of_ne (by decide)]
      rfl

theorem at?_of_not_mem (h : c ∉ tokenMarks) (t : Text) : at? (c :: t) = none := by
  simp only [tokenMarks, List.mem_cons, List.not_mem_nil, or_false, not_or] at h
  rw [at?_eq, simpleAt?, specifierAt?_of_ne h.1, braceTokenAt?_of_ne h.2.1, spanAt?_of_ne h.2.2]
  rfl

/-!
# Scanning
-/

theorem scanBy_append_of_disjoint
    (h : List.Disjoint s tokenMarks)
    (t : Text) :
    scanBy at? (s ++ t) = scanBy at? t := by
  induction s with
  | nil => rfl
  | cons c s ih =>
      rw [List.disjoint_cons_left] at h
      rw [List.cons_append, scanBy_of_none (at?_of_not_mem h.1 _), ih h.2]

theorem Token.raw_ne_nil (token : Token) : token.raw ≠ [] := by
  cases token with
  | specifier digits dollar letter => exact List.cons_ne_nil _ _
  | brace name => exact List.cons_ne_nil _ _
  | span attributes content => exact List.cons_ne_nil _ _

/-- Each token is found where it was written, and the scan goes on behind it. -/
theorem scanBy_left (parts : List Part) :
    scanBy at? (parts.flatMap Part.left) = (parts.filterMap Part.token?).map Token.raw := by
  induction parts with
  | nil => rw [List.flatMap_nil, scanBy, List.filterMap_nil, List.map_nil]
  | cons part parts ih =>
      rw [List.flatMap_cons]
      cases part with
      | plain t =>
          rw [List.filterMap_cons_none rfl, ← ih]
          exact scanBy_append_of_disjoint t.property _
      | percent =>
          rw [List.filterMap_cons_none rfl, ← ih]
          rfl
      | token written =>
          have htoken : Part.token? (.token written) = some written := rfl
          rw [List.filterMap_cons_some htoken, List.map_cons, ← ih]
          exact scanBy_of_some (at?_raw written _) written.raw_ne_nil

/-- The placeholders of a value are the tokens that it is composed of, whole and in their order. -/
theorem extract_raw (parts : List Part) :
    extract (parts.flatMap Part.raw) = (parts.filterMap Part.token?).map Token.raw := by
  rw [extract, scan_eq, ← scanBy_left, ← withoutDoubled_raw]
  rfl

example :
    extract "100%%%1$d {%s}<xliff:g>%d</xliff:g>%%s".toList =
      ["%1$d".toList, "{%s}".toList, "<xliff:g>%d</xliff:g>".toList] := by
  decide +kernel

end Placeholder
end AndroidStrings
