import AndroidStrings.Proofs.Text.Rewrite
import AndroidStrings.Proofs.Value.Escape
import AndroidStrings.Proofs.Value.Escaped
import AndroidStrings.Proofs.Value.InlineTag

/-!
# Escaping and reading back

What is displayed of a stored value is the value with everything read back that reading finds in it;
so a value that holds nothing of the kind is displayed as it was given, and no other one is.
Escaping a stored value again leaves it as it is: its ampersands begin references, its quotes stand
behind backslashes or in tags, and its angle brackets are those of a value that keeps them.

## Main statements

- `unescapeValue_escapeValue_iff` : when escaping is undone exactly.
- `escapeValue_escapeValue` : escaping is idempotent.
-/

namespace AndroidStrings

open Text

/-!
## The passes together
-/

/-- Whether the angle brackets of a text are left to be markup. -/
def keepsAngles (plain : Text) : Bool :=
  plain.hasEscapes || InlineTag.occursIn plain.escapeBareAmpersands

theorem escapeValue_of_keepsAngles
    {value : Text}
    (h : keepsAngles value.plainQuotes = true) :
    escapeValue value = value.plainQuotes.escapeBareAmpersands.escapeQuotes :=
  if_pos h

theorem escapeValue_of_not_keepsAngles
    {value : Text}
    (h : keepsAngles value.plainQuotes = false) :
    escapeValue value = value.plainQuotes.escapeBareAmpersands.escapeAngles.escapeQuotes :=
  if_neg (ne_true_of_eq_false h)

theorem escaped_escapeQuotes (t : Text) : Escaped quoteChars false t t.escapeQuotes :=
  escaped_escapeQuotesFrom none none t

/-- What holds of a text with its bare ampersands escaped, and is kept by the passes, holds of a
stored value. -/
theorem escapeValue_of_ampersands
    {motive : Text -> Prop} {value : Text}
    (hampersands : motive value.plainQuotes.escapeBareAmpersands)
    (hpass : forall {marked t written : Text} {behind : Bool},
      Escaped marked behind t written -> motive t -> motive written) :
    motive (escapeValue value) := by
  cases hkeeps : keepsAngles value.plainQuotes with
  | true =>
      rw [escapeValue_of_keepsAngles hkeeps]
      exact hpass (escaped_escapeQuotes _) hampersands
  | false =>
      rw [escapeValue_of_not_keepsAngles hkeeps]
      exact hpass (escaped_escapeQuotes _) (hpass (escaped_escapeAngles false _) hampersands)

theorem escapeValue_of_passes
    {motive : Text -> Prop} {value : Text}
    (hplain : motive value.plainQuotes)
    (hpass : forall {marked t written : Text} {behind : Bool},
      Escaped marked behind t written -> motive t -> motive written) :
    motive (escapeValue value) :=
  escapeValue_of_ampersands (hpass (escaped_escapeBareAmpersands false _) hplain) hpass

/-!
# Reading back
-/

/-- A stored value is displayed like the value with plain quotes. -/
theorem unescapeValue_escapeValue (value : Text) :
    unescapeValue (escapeValue value) = unescapeValue value.plainQuotes := by
  apply escapeValue_of_passes (motive := fun t => unescapeValue t = _)
  · rfl
  · intro marked t written behind hpass ht
    rw [hpass.unescapeValue, ht]

/-- What escaping or reading back replaces, with the character that comes in its place. -/
def displayedAs : List (Text × Char) :=
  [("&apos;".toList, '\''), ("&quot;".toList, '"'), ("\\'".toList, '\''), ("\\\"".toList, '"'),
    ("&lt;".toList, '<'), ("&gt;".toList, '>'), ("&amp;".toList, '&')]

/-- What is not displayed as it is written. -/
def escapeSequences : List Text :=
  ["&apos;".toList, "&quot;".toList, "\\'".toList, "\\\"".toList, "&lt;".toList, "&gt;".toList,
    "&amp;".toList]

theorem unescapeValue_plainQuotes (value : Text) :
    unescapeValue value.plainQuotes = replaceEach displayedAs value :=
  rfl

theorem forall_mem_escapeSequences_iff {holds : Text -> Prop} :
    (forall sequence, sequence ∈ escapeSequences -> holds sequence) ↔
      forall pair, pair ∈ displayedAs -> holds pair.1 := by
  change (forall sequence, sequence ∈ displayedAs.map Prod.fst -> holds sequence) ↔ _
  exact List.forall_mem_map

/-- A value is displayed as it was given exactly when it holds no escape sequence. -/
theorem unescapeValue_escapeValue_iff (value : Text) :
    unescapeValue (escapeValue value) = value ↔
      forall sequence, sequence ∈ escapeSequences -> value.contains sequence = false := by
  rw [unescapeValue_escapeValue, unescapeValue_plainQuotes, replaceEach_eq_self_iff (by decide),
    forall_mem_escapeSequences_iff]
  apply forall₂_congr
  intro pair _
  rw [Bool.eq_false_iff, Ne, contains_iff_isInfix]

/-!
# Escaping again
-/

/-- A stored value has the foreign entities of the value only. -/
theorem not_isInfix_escapeValue
    {name value : Text}
    (hplain : IsPlain name)
    (hforeign : IsForeign name)
    (hvalue : ¬ '&' :: name <:+: value.plainQuotes) :
    ¬ '&' :: name <:+: escapeValue value := by
  apply escapeValue_of_passes (motive := fun t => ¬ '&' :: name <:+: t)
  · exact hvalue
  · intro marked t written behind hpass ht
    exact hpass.not_isInfix hplain hforeign ht

theorem plainQuotes_eq_self
    {t : Text}
    (hapos : ¬ "&apos;".toList <:+: t)
    (hquot : ¬ "&quot;".toList <:+: t) :
    t.plainQuotes = t := by
  rw [plainQuotes, replaceAll_eq_self hapos, replaceAll_eq_self hquot]

theorem plainQuotes_escapeValue (value : Text) :
    (escapeValue value).plainQuotes = escapeValue value := by
  apply plainQuotes_eq_self
  · -- Quotes that are put in place of the other entity do not complete this one.
    refine not_isInfix_escapeValue (by decide) (by decide) ?_
    intro hoccurs
    have hinner := isInfix_of_isInfix_replaceAll (by decide) (by decide) hoccurs
    exact not_isInfix_replaceAll (by decide) (by decide) value hinner
  · refine not_isInfix_escapeValue (by decide) (by decide) ?_
    exact not_isInfix_replaceAll (by decide) (by decide) _

theorem hasReferencesOnly_escapeBareAmpersands (t : Text) :
    HasReferencesOnly t.escapeBareAmpersands := by
  induction t with
  | nil => exact behindAmpersands_nil
  | cons c t ih =>
      rw [escapeBareAmpersands]
      split
      · exact behindAmpersands_cons_iff.mpr
          ⟨fun _ => completesReference_lead _, BehindAmpersands.append (by decide) ih⟩
      · rename_i hkept
        refine behindAmpersands_cons_iff.mpr ⟨?_, ih⟩
        intro hc
        rw [(escaped_escapeBareAmpersands false t).lead, completesReference_lead]
        rw [not_and, Bool.not_eq_false] at hkept
        exact hkept hc

/-- The ampersands of a stored value begin references. -/
theorem hasReferencesOnly_escapeValue (value : Text) : HasReferencesOnly (escapeValue value) := by
  apply escapeValue_of_ampersands
  · exact hasReferencesOnly_escapeBareAmpersands value.plainQuotes
  · intro marked t written behind hpass ht
    exact hpass.hasReferencesOnly ht

/-!
## Angle brackets
-/

theorem isInner_escapeAngles (t : Text) : InlineTag.IsInner t.escapeAngles := by
  fun_induction escapeAngles t with
  | case1 => simp [InlineTag.IsInner]
  | case2 t ih => exact InlineTag.isInner_append_iff.mpr ⟨by decide, ih⟩
  | case3 t ih => exact InlineTag.isInner_append_iff.mpr ⟨by decide, ih⟩
  | case4 c t hless hgreater ih => exact InlineTag.isInner_cons_iff.mpr ⟨⟨hless, hgreater⟩, ih⟩

theorem escapeAngles_eq_self {t : Text} (h : InlineTag.IsInner t) : t.escapeAngles = t := by
  fun_induction escapeAngles t with
  | case1 => rfl
  | case2 t ih => exact absurd rfl (h '<' (by simp)).1
  | case3 t ih => exact absurd rfl (h '>' (by simp)).2
  | case4 c t _ _ ih => rw [ih (InlineTag.isInner_cons_iff.mp h).2]

theorem isInner_escapeQuotes {t : Text} (h : InlineTag.IsInner t) :
    InlineTag.IsInner t.escapeQuotes := by
  intro c hc
  rcases mem_escapeQuotesFrom hc with hwritten | hmem
  · rw [List.mem_singleton.mp hwritten]
    decide
  · exact h c hmem

theorem hasEscapes_iff {t : Text} :
    t.hasEscapes = true ↔ exists c, c ∈ markupChars ∧ escapeOf c <:+: t := by
  simp only [hasEscapes, Bool.or_eq_true, contains_iff_isInfix]
  constructor
  · rintro ((hamp | hless) | hgreater)
    · exact ⟨'&', by decide, hamp⟩
    · exact ⟨'<', by decide, hless⟩
    · exact ⟨'>', by decide, hgreater⟩
  · rintro ⟨c, hc, hoccurs⟩
    rcases mem_markupChars_iff.mp hc with rfl | rfl | rfl
    · exact .inl (.inl hoccurs)
    · exact .inl (.inr hoccurs)
    · exact .inr hoccurs

/-- A value that keeps its angle brackets keeps them when it is escaped again. -/
theorem keepsAngles_escapeValue
    {value : Text}
    (h : keepsAngles value.plainQuotes = true) :
    keepsAngles (escapeValue value) = true := by
  rw [keepsAngles, escapeBareAmpersands_eq_self (hasReferencesOnly_escapeValue value),
    Bool.or_eq_true]
  rw [keepsAngles, Bool.or_eq_true] at h
  rcases h with hescapes | htag
  · rcases hasEscapes_iff.mp hescapes with ⟨c, hc, hoccurs⟩
    have hescaped := mem_escapedChars_iff.mpr (.inl hc)
    refine .inl (hasEscapes_iff.mpr ⟨c, hc, ?_⟩)
    apply escapeValue_of_passes
    · exact hoccurs
    · intro marked t written behind hpass ht
      exact hpass.isInfix_escapeOf hescaped ht
  · have hkeeps : keepsAngles value.plainQuotes = true := by
      rw [keepsAngles, htag, Bool.or_true]
    rw [escapeValue_of_keepsAngles hkeeps]
    exact .inr (occursIn_escapeQuotes htag)

/-- Escaping is idempotent. -/
theorem escapeValue_escapeValue (value : Text) :
    escapeValue (escapeValue value) = escapeValue value := by
  have hplain := plainQuotes_escapeValue value
  have hampersands := escapeBareAmpersands_eq_self (hasReferencesOnly_escapeValue value)
  cases hkeeps : keepsAngles value.plainQuotes with
  | true =>
      have hagain := keepsAngles_escapeValue hkeeps
      rw [← hplain] at hagain
      rw [escapeValue_of_keepsAngles hagain, hplain, hampersands,
        escapeValue_of_keepsAngles hkeeps, escapeQuotes_escapeQuotes]
  | false =>
      -- No angle bracket is left, so it does not matter whether the second time keeps them.
      have hwritten := escapeValue_of_not_keepsAngles hkeeps
      have hquotes : (escapeValue value).escapeQuotes = escapeValue value := by
        rw [hwritten, escapeQuotes_escapeQuotes]
      have hangles : (escapeValue value).escapeAngles = escapeValue value := by
        rw [hwritten]
        exact escapeAngles_eq_self (isInner_escapeQuotes (isInner_escapeAngles _))
      cases hagain : keepsAngles (escapeValue value).plainQuotes with
      | true => rw [escapeValue_of_keepsAngles hagain, hplain, hampersands, hquotes]
      | false => rw [escapeValue_of_not_keepsAngles hagain, hplain, hampersands, hangles, hquotes]

end AndroidStrings
