import AndroidStrings.Proofs.Value.RoundTrip
import AndroidStrings.Proofs.Value.Tags
import AndroidStrings.Proofs.Value.Validation

/-!
# Stored values that are checked again

A value is checked as it was given, before it is escaped.  What escaping writes passes all checks
but one: its entities are allowed ones, it adds no tag, and no backtick comes next to a quote.  Only
a backslash in front of a quote is read as an attribute without quotes, where the quote stands
behind a word and an equals sign and the value has angle brackets.

## Main statement

`validate_escapeValue_iff` : when a stored value passes the checks that the value has passed.
-/

namespace AndroidStrings

open Text

namespace Text

variable {marked t written part : Text} {behind : Bool}

/-- The characters of escapes, apart from quotes. -/
def escapeLetters : Text :=
  "&amplgt;\\".toList

theorem escapeOf_subset_escapeLetters {c : Char} (h : c ∈ markupChars) :
    escapeOf c ⊆ escapeLetters := by
  rcases mem_markupChars_iff.mp h with rfl | rfl | rfl <;> decide

theorem isInfix_of_isInfix_append
    {escape : Text}
    (hescape : List.Disjoint part escape)
    (h : part <:+: escape ++ t) :
    part <:+: t := by
  induction escape with
  | nil => exact h
  | cons c escape ih =>
      rcases List.disjoint_cons_right.mp hescape with ⟨hc, hrest⟩
      rw [List.cons_append, List.infix_cons_iff] at h
      rcases h with hfirst | htail
      · cases part with
        | nil => exact List.nil_infix
        | cons d part =>
            rw [List.cons_prefix_cons] at hfirst
            exact absurd (by simp [hfirst.1]) hc
      · exact ih hrest htail

namespace Escaped

theorem isPrefix_of_isPrefix
    (hpart : List.Disjoint part escapeMarks)
    (h : Escaped marked behind t written)
    (hbegins : part <+: written) :
    part <+: t := by
  induction h generalizing part with
  | nil => exact hbegins
  | kept _ ih =>
      cases part with
      | nil => exact List.nil_prefix
      | cons d part =>
          rw [List.cons_prefix_cons] at hbegins ⊢
          exact ⟨hbegins.1, ih (List.disjoint_cons_left.mp hpart).2 hbegins.2⟩
  | escaped hc _ _ _ _ _ =>
      rcases exists_escapeOf_eq hc with ⟨mark, rest, hescape, hmark, _⟩
      cases part with
      | nil => exact List.nil_prefix
      | cons d part =>
          rw [hescape, List.cons_append, List.cons_prefix_cons] at hbegins
          rw [← hbegins.1] at hmark
          exact (hpart List.mem_cons_self hmark).elim

/-- A part without the characters of escapes stood in the text. -/
theorem isInfix_of_isInfix
    (hpart : List.Disjoint part escapeLetters)
    (h : Escaped marked behind t written)
    (hoccurs : part <:+: written) :
    part <:+: t := by
  have hmarks : List.Disjoint part escapeMarks :=
    List.disjoint_of_subset_right (by decide) hpart
  induction h with
  | nil => exact hoccurs
  | kept rest ih =>
      have hkept : Escaped marked false _ _ := kept rest
      rw [List.infix_cons_iff] at hoccurs ⊢
      exact hoccurs.imp (hkept.isPrefix_of_isPrefix hmarks) ih
  | @escaped _ c t written hc _ _ _ rest ih =>
      rcases mem_escapedChars_iff.mp hc with hmarkup | hquote
      · have hletters := List.disjoint_of_subset_right (escapeOf_subset_escapeLetters hmarkup) hpart
        exact List.infix_cons (ih (isInfix_of_isInfix_append hletters hoccurs))
      · -- The quote stands in the text as well, only the backslash in front of it is new.
        rw [escapeOf_of_mem_quoteChars hquote] at hoccurs
        have hbackslash : part <:+: ['\\'] ++ (c :: written) := hoccurs
        have hletters := List.disjoint_of_subset_right (by decide : ['\\'] ⊆ escapeLetters) hpart
        have hrest := isInfix_of_isInfix_append hletters hbackslash
        rw [← beq_backslash hc] at rest
        have hkept : Escaped marked false (c :: t) (c :: written) := kept rest
        rw [List.infix_cons_iff] at hrest ⊢
        exact hrest.imp (hkept.isPrefix_of_isPrefix hmarks) ih

theorem disjoint_backtickPair (h : part ∈ Value.backtickPairs) :
    List.Disjoint part escapeLetters := by
  simp only [Value.backtickPairs, List.mem_cons, List.not_mem_nil, or_false] at h
  rcases h with rfl | rfl | rfl | rfl <;> decide

theorem hasBacktickEscape
    (h : Escaped marked behind t written)
    (ht : Value.hasBacktickEscape t = false) :
    Value.hasBacktickEscape written = false := by
  rw [Bool.eq_false_iff, Ne, Value.hasBacktickEscape_iff] at ht ⊢
  rintro ⟨pair, hpair, hoccurs⟩
  exact ht ⟨pair, hpair, h.isInfix_of_isInfix (disjoint_backtickPair hpair) hoccurs⟩

end Escaped
end Text

/-!
# The stored value
-/

namespace Value

variable {value t written : Text}

theorem isSound_of_entity
    {following name : Text}
    (hname : entityName? following = some name)
    (hallowed : isAllowedEntity name = true)
    (hended : (following.dropWhile isEntityChar).head? = some ';') :
    IsSound following := by
  refine ⟨?_, fun _ => hended⟩
  intro other hother
  rw [hname, Option.some.injEq] at hother
  rwa [← hother]

theorem isSound_of_escapeOf
    {c : Char} {name : Text}
    (hc : c ∈ markupChars)
    (hname : escapeOf c = '&' :: name)
    (rest : Text) :
    IsSound (lead (name ++ rest)) := by
  rcases mem_markupChars_iff.mp hc with rfl | rfl | rfl
  · cases hname
    exact @isSound_of_entity _ "amp".toList rfl rfl rfl
  · cases hname
    exact @isSound_of_entity _ "lt".toList rfl rfl rfl
  · cases hname
    exact @isSound_of_entity _ "gt".toList rfl rfl rfl

/-- Escaping does not write them. -/
theorem isPlain_of_mem_refusedNames {name : Text} (h : name ∈ refusedNames) :
    IsPlain name ∧ IsForeign name := by
  simp only [refusedNames, List.mem_cons, List.not_mem_nil, or_false] at h
  rcases h with rfl | rfl | rfl <;> decide

theorem hasBacktickEscape_escapeValue
    (h : hasBacktickEscape value.plainQuotes = false) :
    hasBacktickEscape (escapeValue value) = false := by
  apply escapeValue_of_passes (motive := fun t => hasBacktickEscape t = false)
  · exact h
  · intro marked t written behind hpass ht
    exact hpass.hasBacktickEscape ht

theorem checkEntities_escapeValue
    (h : checkEntities value.plainQuotes = .ok ()) :
    checkEntities (escapeValue value) = .ok () := by
  rw [checkEntities_eq_ok_iff] at h ⊢
  apply escapeValue_of_passes
  · exact h
  · intro marked t written behind hpass ht
    refine hpass.behindAmpersands ht ?_
    intro c name hc hname rest
    exact isSound_of_escapeOf hc hname rest

theorem mem_of_hasAngles (h : hasAngles value = true) : '<' ∈ value ∧ '>' ∈ value := by
  rw [hasAngles, Bool.and_eq_true] at h
  simpa using h

/-- Angle brackets of a stored value are those of a value that keeps them. -/
theorem keepsAngles_of_hasAngles
    (h : hasAngles (escapeValue value) = true) :
    keepsAngles value.plainQuotes = true := by
  cases hkeeps : keepsAngles value.plainQuotes with
  | true => rfl
  | false =>
      rw [escapeValue_of_not_keepsAngles hkeeps] at h
      have hangles := isInner_escapeAngles value.plainQuotes.escapeBareAmpersands
      exact absurd rfl (isInner_escapeQuotes hangles '<' (mem_of_hasAngles h).1).1

theorem hasAngles_of_escapeValue
    (h : hasAngles (escapeValue value) = true) :
    hasAngles value = true := by
  rcases mem_of_hasAngles h with ⟨hless, hgreater⟩
  have hless' := (mem_escapeValue hless).resolve_left (by decide)
  have hgreater' := (mem_escapeValue hgreater).resolve_left (by decide)
  simp [hasAngles, hless', hgreater']

theorem tags_escapeValue
    (hkeeps : keepsAngles value.plainQuotes = true) :
    tags (escapeValue value) = tags value.plainQuotes := by
  rw [escapeValue_of_keepsAngles hkeeps, (escaped_escapeQuotes _).tags_eq (by decide) (by decide),
    (escaped_escapeBareAmpersands false value.plainQuotes).tags_eq (by decide) (by decide)]

/-- A value that passed the checks passes them in its stored form unless a part of this is read as
an attribute without quotes. -/
theorem validate_escapeValue_iff (h : validate value = .ok ()) :
    validate (escapeValue value) = .ok () ↔
      (hasAngles (escapeValue value) = true -> unquotedAttribute? (escapeValue value) = none) := by
  rcases validate_eq_ok_iff.mp h with ⟨hbacktick, hnames, hmarkup, hentities⟩
  have hplain : value.plainQuotes = value :=
    plainQuotes_eq_self (hnames "apos;".toList (by decide)) (hnames "quot;".toList (by decide))
  have hbacktick' : hasBacktickEscape (escapeValue value) = false :=
    hasBacktickEscape_escapeValue (hplain.symm ▸ hbacktick)
  have hnames' : forall name, name ∈ refusedNames -> ¬ '&' :: name <:+: escapeValue value := by
    intro name hname
    rcases isPlain_of_mem_refusedNames hname with ⟨hordinary, hforeign⟩
    exact not_isInfix_escapeValue hordinary hforeign (hplain.symm ▸ hnames name hname)
  have hentities' : checkEntities (escapeValue value) = .ok () :=
    checkEntities_escapeValue (hplain.symm ▸ hentities)
  have hnesting : hasAngles (escapeValue value) = true ->
      checkNesting [] (tags (escapeValue value)) = .ok () := by
    intro hangles
    rw [tags_escapeValue (keepsAngles_of_hasAngles hangles), hplain]
    exact (hmarkup (hasAngles_of_escapeValue hangles)).2
  rw [validate_eq_ok_iff]
  constructor
  · rintro ⟨_, _, hchecked, _⟩ hangles
    exact (hchecked hangles).1
  · intro hattribute
    exact ⟨hbacktick', hnames', fun hangles => ⟨hattribute hangles, hnesting hangles⟩, hentities'⟩

end Value
end AndroidStrings
