import AndroidStrings.Proofs.Value.RoundTrip

/-!
# The form that values are stored in

A stored value goes between two tags as it is, so what it holds must not be taken for markup.  Its
ampersands begin references.  It has no angle brackets, unless the value says with an entity or a
tag that it is markup already.  Without a `<` there is no tag whose attributes a quote could
delimit, so every quote stands behind a backslash.

## Main statement

`escapeValue_isSafe` : ampersands, angle brackets and quotes of a stored value.
-/

namespace AndroidStrings

open CharClass

namespace Text

/-!
## References
-/

/-- What may stand between the ampersand and the semicolon of a reference.  A mark tells
hexadecimal digits from decimal ones. -/
inductive IsReferenceName (marks : Text) : Text -> Prop where
  | named {first : Char} {name : Text} :
      isAsciiLetter first = true ->
      name.all isWord = true ->
      IsReferenceName marks (first :: name)
  | decimal {digits : Text} :
      digits ≠ [] ->
      digits.all isAsciiDigit = true ->
      IsReferenceName marks ('#' :: digits)
  | hexadecimal {mark : Char} {digits : Text} :
      mark ∈ marks ->
      digits ≠ [] ->
      digits.all isHexDigit = true ->
      IsReferenceName marks ('#' :: mark :: digits)

/-- What follows an ampersand is the rest of a reference, and more. -/
def ContinuesReference (marks following : Text) : Prop :=
  exists name rest : Text, following = name ++ ';' :: rest ∧ IsReferenceName marks name

/-- Every ampersand of a text begins a reference. -/
def HasReferences (marks t : Text) : Prop :=
  forall front back : Text, t = front ++ '&' :: back -> ContinuesReference marks back

/-- A small and a capital letter mean the same in front of hexadecimal digits. -/
def hexadecimalMarks : Text :=
  ['x', 'X']

variable {c : Char} {t : Text}

theorem exists_of_head?_dropWhile
    {inClass : Char -> Bool}
    (h : ((t.dropWhile inClass).head? == some ';') = true) :
    exists run rest : Text, t = run ++ ';' :: rest ∧ run.all inClass = true := by
  rw [beq_iff_eq, List.head?_eq_some_iff] at h
  rcases h with ⟨rest, hrest⟩
  refine ⟨t.takeWhile inClass, rest, ?_, List.all_takeWhile⟩
  rw [← hrest, List.takeWhile_append_dropWhile]

theorem exists_of_isRunThenSemicolon
    {digit : Char -> Bool}
    (h : isRunThenSemicolon digit t = true) :
    exists digits rest : Text,
      t = digits ++ ';' :: rest ∧ digits ≠ [] ∧ digits.all digit = true := by
  cases t with
  | nil => cases h
  | cons c t =>
      rw [isRunThenSemicolon, Bool.and_eq_true] at h
      rcases exists_of_head?_dropWhile h.2 with ⟨digits, rest, rfl, hdigits⟩
      refine ⟨c :: digits, rest, rfl, List.cons_ne_nil c digits, ?_⟩
      rw [List.all_cons, h.1, hdigits]
      rfl

theorem continuesReference_of_completesReference
    (h : completesReference t = true) :
    ContinuesReference hexadecimalMarks t := by
  unfold completesReference at h
  split at h
  · rcases exists_of_isRunThenSemicolon h with ⟨digits, rest, rfl, hne, hdigits⟩
    exact ⟨'#' :: 'x' :: digits, rest, rfl, .hexadecimal (by decide) hne hdigits⟩
  · rcases exists_of_isRunThenSemicolon h with ⟨digits, rest, rfl, hne, hdigits⟩
    exact ⟨'#' :: 'X' :: digits, rest, rfl, .hexadecimal (by decide) hne hdigits⟩
  · rcases exists_of_isRunThenSemicolon h with ⟨digits, rest, rfl, hne, hdigits⟩
    exact ⟨'#' :: digits, rest, rfl, .decimal hne hdigits⟩
  · rename_i first t _ _ _
    rw [Bool.and_eq_true] at h
    rcases exists_of_head?_dropWhile h.2 with ⟨name, rest, rfl, hname⟩
    exact ⟨first :: name, rest, rfl, .named h.1 hname⟩
  · cases h

theorem HasReferencesOnly.hasReferences
    (h : HasReferencesOnly t) :
    HasReferences hexadecimalMarks t := by
  intro front back heq
  have hcompletes : completesReference (lead back) = true := h front back heq
  rw [completesReference_lead] at hcompletes
  exact continuesReference_of_completesReference hcompletes

/-!
## Quotes
-/

/-- Every quote of a text stands behind a backslash. -/
def HasEscapedQuotes (t : Text) : Prop :=
  forall front (c : Char) back,
    t = front ++ c :: back -> isQuote c = true -> front.getLast? = some '\\'

/-- Outside of tags, what is written in front of a quote ends with a backslash; in front of the
first character that is written stands the one that was read before. -/
theorem getLast?_of_escapeQuotesFrom
    {previous : Option Char} {front back : Text}
    (hopen : '<' ∉ escapeQuotesFrom previous none t)
    (hc : isQuote c = true)
    (h : escapeQuotesFrom previous none t = front ++ c :: back) :
    front.getLast?.or previous = some '\\' := by
  induction t generalizing previous front with
  | nil => simp [escapeQuotesFrom] at h
  | cons d t ih =>
      rw [escapeQuotesFrom] at h hopen
      split at h
      · rename_i hquote
        rw [if_pos hquote, List.mem_cons, List.mem_cons, not_or, not_or] at hopen
        have htrack : trackOpen (trackOpen none '\\') d = none := by
          simp [trackOpen, Ne.symm hopen.2.1]
        rw [htrack] at h hopen
        cases front with
        | nil =>
            rw [List.nil_append, List.cons.injEq] at h
            rw [← h.1] at hc
            cases hc
        | cons e front =>
            cases front with
            | nil =>
                rw [List.singleton_append, List.cons.injEq] at h
                rw [← h.1]
                rfl
            | cons e' front =>
                simp only [List.cons_append, List.cons.injEq] at h
                have hrest := ih hopen.2.2 h.2.2
                rwa [List.getLast?_cons_cons, List.getLast?_cons, Option.some_or, ← h.2.1,
                  ← Option.or_some]
      · rename_i hkept
        rw [if_neg hkept, List.mem_cons, not_or] at hopen
        have htrack : trackOpen none d = none := by
          simp [trackOpen, Ne.symm hopen.1]
        rw [htrack] at h hopen
        cases front with
        | nil =>
            rw [List.nil_append, List.cons.injEq] at h
            rw [h.1] at hkept
            simp only [hc, insideTag, true_and, and_true, not_not] at hkept
            rw [hkept]
            rfl
        | cons e front =>
            rw [List.cons_append, List.cons.injEq] at h
            have hrest := ih hopen.2 h.2
            rwa [List.getLast?_cons, Option.some_or, ← h.1, ← Option.or_some]

theorem hasEscapedQuotes_escapeQuotes
    (hopen : '<' ∉ t.escapeQuotes) :
    HasEscapedQuotes t.escapeQuotes := by
  intro front c back heq hc
  have hlast := getLast?_of_escapeQuotesFrom hopen hc heq
  rwa [Option.or_none] at hlast

end Text

/-!
# Stored values
-/

open Text

theorem exists_escapeValue_eq (value : Text) :
    exists t : Text, escapeValue value = t.escapeQuotes := by
  cases hkeeps : keepsAngles value.plainQuotes with
  | true => exact ⟨_, escapeValue_of_keepsAngles hkeeps⟩
  | false => exact ⟨_, escapeValue_of_not_keepsAngles hkeeps⟩

/-- The ampersands of a stored value begin references; it has no angle brackets unless the value
has an entity for markup or an inline tag; and without a `<` its quotes are escaped. -/
theorem escapeValue_isSafe (value : Text) :
    HasReferences hexadecimalMarks (escapeValue value) ∧
      (value.plainQuotes.hasEscapes = false ->
        InlineTag.occursIn value.plainQuotes.escapeBareAmpersands = false ->
          '<' ∉ escapeValue value ∧ '>' ∉ escapeValue value) ∧
      ('<' ∉ escapeValue value -> HasEscapedQuotes (escapeValue value)) := by
  refine ⟨(hasReferencesOnly_escapeValue value).hasReferences, ?_, ?_⟩
  · intro hescapes htag
    have hkeeps : keepsAngles value.plainQuotes = false := by
      rw [keepsAngles, hescapes, htag]
      rfl
    have hinner := isInner_escapeQuotes
      (isInner_escapeAngles value.plainQuotes.escapeBareAmpersands)
    rw [escapeValue_of_not_keepsAngles hkeeps]
    exact ⟨fun hless => (hinner '<' hless).1 rfl, fun hgreater => (hinner '>' hgreater).2 rfl⟩
  · intro hopen
    rcases exists_escapeValue_eq value with ⟨t, ht⟩
    rw [ht] at hopen ⊢
    exact hasEscapedQuotes_escapeQuotes hopen

/-- A capital letter in front of hexadecimal digits makes a reference too. -/
theorem not_hasReferences_capital :
    ¬ HasReferences ['x'] (escapeValue "&#X41;".toList) := by
  have hescaped : escapeValue "&#X41;".toList = "&#X41;".toList := by decide +kernel
  intro h
  rcases h [] "#X41;".toList hescaped with ⟨name, rest, heq, hname⟩
  cases hname with
  | @named first _ hfirst _ =>
      have hsign : '#' = first := (List.cons.inj heq).1
      rw [← hsign] at hfirst
      cases hfirst
  | @decimal digits hne hdigits =>
      cases digits with
      | nil => exact hne rfl
      | cons d digits =>
          have hd : 'X' = d := (List.cons.inj (List.cons.inj heq).2).1
          rw [← hd] at hdigits
          cases hdigits
  | @hexadecimal mark _ hmark _ _ =>
      have hx : 'X' = mark := (List.cons.inj (List.cons.inj heq).2).1
      rw [← hx] at hmark
      exact absurd hmark (by decide)

end AndroidStrings
