import AndroidStrings.Proofs.Markup.Attribute
import AndroidStrings.Value.Escape

/-!
# Inline tags under escaping

Quotes between the `<` and the `>` of an inline tag delimit attributes.  They stand behind the name
of the tag and white space, so what is written before any of them would be a tag if a `>` followed,
and the quotes stay.  So escaping of quotes keeps inline tags as they are, and a second time it
finds nothing left to escape.

## Main statements

- `escapeQuotes_escapeQuotes` : escaping of quotes is idempotent.
- `occursIn_escapeQuotes` : inline tags are still there when the quotes have been escaped.
-/

namespace AndroidStrings

open CharClass

namespace InlineTag

/-- A text without angle brackets. -/
def IsInner (t : Text) : Prop :=
  forall c, c ∈ t -> c ≠ '<' ∧ c ≠ '>'

instance (t : Text) : Decidable (IsInner t) :=
  List.decidableBAll _ t

variable {inner front t : Text} {c : Char}

theorem isInner_cons_iff : IsInner (c :: t) ↔ (c ≠ '<' ∧ c ≠ '>') ∧ IsInner t :=
  List.forall_mem_cons

theorem isInner_append_iff : IsInner (front ++ t) ↔ IsInner front ∧ IsInner t :=
  List.forall_mem_append

theorem IsInner.dropWhile (h : IsInner t) (p : Char -> Bool) : IsInner (t.dropWhile p) :=
  fun c hc => h c ((List.dropWhile_suffix p).subset hc)

theorem IsInner.dropWhile_bracket (h : IsInner inner) (t : Text) :
    (inner ++ '>' :: t).dropWhile (fun d => d != '<' && d != '>') = '>' :: t := by
  refine Markup.dropWhile_append_cons ?_ (by decide) t
  intro d hd
  simpa using h d hd

theorem dropWhile_append_of_not
    {p : Char -> Bool}
    (hc : p c = false)
    (front t : Text) :
    (front ++ c :: t).dropWhile p = front.dropWhile p ++ c :: t := by
  rw [List.dropWhile_append, List.dropWhile_cons_of_neg (by simp [hc])]
  split
  · rename_i hempty
    rw [List.isEmpty_iff.mp hempty, List.nil_append]
  · rfl

/-!
## Tags and what follows them
-/

theorem endsTag_cons (hslash : c ≠ '/') (hbracket : c ≠ '>') (t : Text) :
    endsTag (c :: t) =
      (isWhiteSpace c && (t.dropWhile fun d => d != '<' && d != '>').head? == some '>') := by
  rw [endsTag.eq_def]
  split
  · rename_i heq
    exact absurd (List.cons.inj heq).1 hbracket
  · rename_i heq
    exact absurd (List.cons.inj heq).1 hslash
  · rename_i heq
    rw [(List.cons.inj heq).1, (List.cons.inj heq).2]
  · rename_i heq
    cases heq

theorem endsTag_append (h : IsInner inner) (t : Text) :
    endsTag (inner ++ '>' :: t) = endsTag (inner ++ ['>']) := by
  cases inner with
  | nil => rfl
  | cons c inner =>
      rcases isInner_cons_iff.mp h with ⟨⟨_, hbracket⟩, hinner⟩
      rw [List.cons_append, List.cons_append]
      by_cases hslash : c = '/'
      · rw [hslash]
        cases inner <;> rfl
      · rw [endsTag_cons hslash hbracket, endsTag_cons hslash hbracket, hinner.dropWhile_bracket,
          hinner.dropWhile_bracket]
        rfl

theorem isNamedTag_append (h : IsInner inner) (t : Text) :
    isNamedTag (inner ++ '>' :: t) = isNamedTag (inner ++ ['>']) := by
  cases inner with
  | nil => rfl
  | cons c inner =>
      have hrest := (isInner_cons_iff.mp h).2.dropWhile isNameChar
      rw [List.cons_append, List.cons_append, isNamedTag, isNamedTag,
        dropWhile_append_of_not (by decide), dropWhile_append_of_not (by decide),
        endsTag_append hrest]

theorem beginsAt_cons (hslash : c ≠ '/') (t : Text) :
    beginsAt ('<' :: c :: t) = isNamedTag (c :: t) := by
  simp [beginsAt, hslash]

/-- Whether a tag begins is decided up to the next `>`. -/
theorem beginsAt_append (h : IsInner inner) (t : Text) :
    beginsAt ('<' :: (inner ++ '>' :: t)) = beginsAt ('<' :: (inner ++ ['>'])) := by
  cases inner with
  | nil => rfl
  | cons c inner =>
      by_cases hslash : c = '/'
      · rw [hslash]
        exact isNamedTag_append (isInner_cons_iff.mp h).2 t
      · rw [List.cons_append, List.cons_append, beginsAt_cons hslash, beginsAt_cons hslash]
        exact isNamedTag_append h t

/-!
## The end of a tag
-/

theorem exists_of_endsTag (h : endsTag t = true) :
    exists (inner rest : Text), t = inner ++ '>' :: rest ∧ IsInner inner := by
  cases t with
  | nil => cases h
  | cons c t =>
      by_cases hbracket : c = '>'
      · exact ⟨[], t, by rw [hbracket, List.nil_append], by simp [IsInner]⟩
      · by_cases hslash : c = '/'
        · subst hslash
          rw [endsTag, beq_iff_eq, List.head?_eq_some_iff] at h
          rcases h with ⟨rest, rfl⟩
          exact ⟨['/'], rest, rfl, by simp [IsInner]⟩
        · rw [endsTag_cons hslash hbracket, Bool.and_eq_true, beq_iff_eq,
            List.head?_eq_some_iff] at h
          rcases h with ⟨hspace, rest, hrest⟩
          rcases Markup.exists_append_of_dropWhile hrest with ⟨front, rfl, hfront, _⟩
          refine ⟨c :: front, rest, rfl, isInner_cons_iff.mpr ⟨⟨?_, hbracket⟩, ?_⟩⟩
          · rintro rfl
            cases hspace
          · intro d hd
            simpa using hfront d hd

theorem exists_of_isNamedTag (h : isNamedTag t = true) :
    exists (inner rest : Text), t = inner ++ '>' :: rest ∧ IsInner inner := by
  cases t with
  | nil => cases h
  | cons c t =>
      rw [isNamedTag, Bool.and_eq_true] at h
      rcases exists_of_endsTag h.2 with ⟨inner, rest, hrest, hinner⟩
      refine ⟨c :: (t.takeWhile isNameChar ++ inner), rest, ?_, isInner_cons_iff.mpr ⟨?_, ?_⟩⟩
      · rw [List.cons_append, List.append_assoc, ← hrest, List.takeWhile_append_dropWhile]
      · constructor <;>
          · rintro rfl
            cases h.1
      · refine isInner_append_iff.mpr ⟨?_, hinner⟩
        intro d hd
        have hname := List.mem_takeWhile_imp hd
        constructor <;>
          · rintro rfl
            cases hname

theorem exists_of_beginsAt (h : beginsAt t = true) :
    exists (inner rest : Text), t = '<' :: (inner ++ '>' :: rest) ∧ IsInner inner := by
  unfold beginsAt at h
  split at h
  · rcases exists_of_isNamedTag h with ⟨inner, rest, rfl, hinner⟩
    exact ⟨'/' :: inner, rest, rfl, isInner_cons_iff.mpr ⟨by decide, hinner⟩⟩
  · rcases exists_of_isNamedTag h with ⟨inner, rest, rfl, hinner⟩
    exact ⟨inner, rest, rfl, hinner⟩
  · cases h

/-!
## Quotes in a tag
-/

theorem endsTag_of_quote
    (hfront : IsInner front)
    (hc : Text.isQuote c = true)
    (h : endsTag (front ++ c :: t) = true) :
    endsTag (front ++ ['>']) = true := by
  have hquote : c ≠ '/' ∧ c ≠ '>' ∧ isWhiteSpace c = false := by
    simp only [Text.isQuote, Bool.or_eq_true, beq_iff_eq] at hc
    rcases hc with rfl | rfl <;> decide
  cases front with
  | nil =>
      rw [List.nil_append, endsTag_cons hquote.1 hquote.2.1, hquote.2.2] at h
      cases h
  | cons d front =>
      rcases isInner_cons_iff.mp hfront with ⟨⟨_, hbracket⟩, hinner⟩
      by_cases hslash : d = '/'
      · subst hslash
        rw [List.cons_append, endsTag, beq_iff_eq] at h
        cases front with
        | nil => rfl
        | cons d front =>
            rw [List.cons_append, List.head?_cons, Option.some.injEq] at h
            exact absurd h (isInner_cons_iff.mp hinner).1.2
      · rw [List.cons_append, endsTag_cons hslash hbracket, Bool.and_eq_true] at h ⊢
        rw [hinner.dropWhile_bracket]
        exact ⟨h.1, rfl⟩

theorem isNamedTag_of_quote
    (hfront : IsInner front)
    (hc : Text.isQuote c = true)
    (h : isNamedTag (front ++ c :: t) = true) :
    isNamedTag (front ++ ['>']) = true := by
  have hquote : isAsciiLetter c = false ∧ isNameChar c = false := by
    simp only [Text.isQuote, Bool.or_eq_true, beq_iff_eq] at hc
    rcases hc with rfl | rfl <;> decide
  cases front with
  | nil =>
      rw [List.nil_append, isNamedTag, hquote.1] at h
      cases h
  | cons d front =>
      have hrest := (isInner_cons_iff.mp hfront).2.dropWhile isNameChar
      rw [List.cons_append, isNamedTag, Bool.and_eq_true] at h ⊢
      rw [dropWhile_append_of_not hquote.2] at h
      rw [dropWhile_append_of_not (by decide)]
      exact ⟨h.1, endsTag_of_quote hrest hc h.2⟩

/-- In front of a quote in a tag, the tag could have ended. -/
theorem beginsAt_of_quote
    (hfront : IsInner front)
    (hc : Text.isQuote c = true)
    (h : beginsAt ('<' :: (front ++ c :: t)) = true) :
    beginsAt ('<' :: (front ++ ['>'])) = true := by
  cases front with
  | nil =>
      have hslash : c ≠ '/' := by
        rintro rfl
        cases hc
      rw [List.nil_append, beginsAt_cons hslash] at h
      cases isNamedTag_of_quote hfront hc h
  | cons d front =>
      by_cases hslash : d = '/'
      · subst hslash
        exact isNamedTag_of_quote (isInner_cons_iff.mp hfront).2 hc h
      · rw [List.cons_append, beginsAt_cons hslash] at h ⊢
        exact isNamedTag_of_quote hfront hc h

end InlineTag

/-!
# Escaping of quotes
-/

namespace Text

open InlineTag

variable {t inner : Text}

theorem escapeQuotesFrom_escapeQuotesFrom
    (previous : Option Char) (opened : Option Text) (t : Text) :
    escapeQuotesFrom previous opened (escapeQuotesFrom previous opened t) =
      escapeQuotesFrom previous opened t := by
  -- What is remembered is what was written, so the second time is in the same state.
  induction t generalizing previous opened with
  | nil => rfl
  | cons c t ih =>
      rw [escapeQuotesFrom]
      split
      · rw [escapeQuotesFrom, if_neg (by simp [isQuote]), escapeQuotesFrom, if_neg (by simp), ih]
      · rename_i hkept
        rw [escapeQuotesFrom, if_neg hkept, ih]

theorem escapeQuotes_escapeQuotes (t : Text) : escapeQuotes (escapeQuotes t) = escapeQuotes t :=
  escapeQuotesFrom_escapeQuotesFrom none none t

/-- The quotes of a tag that has begun are kept. -/
theorem exists_escapeQuotesFrom_of_opened
    {done : Text}
    (hinner : IsInner (done ++ inner))
    (htag : beginsAt ('<' :: (done ++ inner ++ ['>'])) = true)
    (previous : Option Char) (t : Text) :
    exists (previous' : Option Char) (opened : Option Text),
      escapeQuotesFrom previous (some ('<' :: done)) (inner ++ t) =
        inner ++ escapeQuotesFrom previous' opened t := by
  induction inner generalizing done previous with
  | nil => exact ⟨previous, some ('<' :: done), rfl⟩
  | cons c inner ih =>
      have hdone := (isInner_append_iff.mp hinner).1
      have hc := hinner c (by simp)
      have htrack : trackOpen (some ('<' :: done)) c = some ('<' :: (done ++ [c])) := by
        simp [trackOpen, hc.1, hc.2]
      have hkept : ¬ (isQuote c ∧ previous ≠ some '\\' ∧
          insideTag (some ('<' :: done)) = false) := by
        rintro ⟨hquote, _, hinside⟩
        rw [List.append_assoc, List.cons_append] at htag
        have hbegins := beginsAt_of_quote hdone hquote htag
        rw [insideTag, List.cons_append, occursIn, hbegins, Bool.true_or] at hinside
        cases hinside
      rw [List.cons_append, escapeQuotesFrom, if_neg hkept, htrack]
      rw [List.append_cons done c inner] at hinner htag
      rcases ih hinner htag (some c) with ⟨previous', opened, hrest⟩
      exact ⟨previous', opened, by rw [hrest, List.cons_append]⟩

/-- A tag is kept with its quotes. -/
theorem exists_escapeQuotesFrom_of_tag
    (hinner : IsInner inner)
    (htag : beginsAt ('<' :: (inner ++ ['>'])) = true)
    (previous : Option Char) (opened : Option Text) (t : Text) :
    exists rest : Text,
      escapeQuotesFrom previous opened ('<' :: (inner ++ '>' :: t)) =
        '<' :: (inner ++ '>' :: rest) := by
  have hopened : trackOpen opened '<' = some ['<'] := rfl
  rw [← List.nil_append inner] at hinner htag
  rcases exists_escapeQuotesFrom_of_opened hinner htag (some '<') ('>' :: t) with
    ⟨previous', opened', hinside⟩
  rw [escapeQuotesFrom, if_neg (by simp [isQuote]), hopened]
  rw [hinside, escapeQuotesFrom, if_neg (by simp [isQuote])]
  exact ⟨_, rfl⟩

theorem occursIn_escapeQuotesFrom
    (h : occursIn t = true)
    (previous : Option Char) (opened : Option Text) :
    occursIn (escapeQuotesFrom previous opened t) = true := by
  induction t generalizing previous opened with
  | nil => cases h
  | cons c t ih =>
      rw [occursIn, Bool.or_eq_true] at h
      rcases h with hbegins | hrest
      · rcases exists_of_beginsAt hbegins with ⟨inner, rest, heq, hinner⟩
        rw [List.cons.injEq] at heq
        rcases heq with ⟨rfl, rfl⟩
        rw [beginsAt_append hinner] at hbegins
        rcases exists_escapeQuotesFrom_of_tag hinner hbegins previous opened rest with
          ⟨written, hwritten⟩
        rw [hwritten, occursIn, beginsAt_append hinner, hbegins, Bool.true_or]
      · rw [escapeQuotesFrom]
        split
        · simp [occursIn, ih hrest]
        · simp [occursIn, ih hrest]

theorem occursIn_escapeQuotes (h : occursIn t = true) : occursIn (escapeQuotes t) = true :=
  occursIn_escapeQuotesFrom h none none

end Text
end AndroidStrings
