import AndroidStrings.Language.Qualifier
import AndroidStrings.Proofs.Text.CharClass

/-!
# Forms of a qualifier

A qualifier of a language is in the short form or in the long one.  Both are of letters, digits,
hyphens and plus signs, so the name of a folder for a language has no separator of paths in it.

## Main statements

- `exists_of_isShortForm`, `exists_of_isLongForm` : how the two forms are spelled.
- `notMem_of_isLanguage` : characters that are in no qualifier.
-/

namespace AndroidStrings
namespace Qualifier

open CharClass

theorem isAsciiLetter_of_isSmallLetter {c : Char} (h : isSmallLetter c = true) :
    isAsciiLetter c = true := by
  rw [isAsciiLetter, Bool.or_eq_true]
  exact .inl h

theorem isAsciiLetter_of_isCapitalLetter {c : Char} (h : isCapitalLetter c = true) :
    isAsciiLetter c = true := by
  rw [isAsciiLetter, Bool.or_eq_true]
  exact .inr h

variable {qualifier : Text}

/-- The short form: two or three small letters, perhaps with a region of two capital letters. -/
theorem exists_of_isShortForm
    (h : isShortForm qualifier = true) :
    exists language : Text, language.all isSmallLetter = true ∧
      (language.length = 2 ∨ language.length = 3) ∧
        (qualifier = language ∨ exists c d : Char, isCapitalLetter c = true ∧
          isCapitalLetter d = true ∧ qualifier = language ++ ['-', 'r', c, d]) := by
  have hparts := List.takeWhile_append_dropWhile (p := isSmallLetter) (l := qualifier)
  simp only [isShortForm, Bool.and_eq_true, Bool.or_eq_true, beq_iff_eq] at h
  refine ⟨qualifier.takeWhile isSmallLetter, List.all_takeWhile, h.1, ?_⟩
  have hregion := h.2
  split at hregion
  · rename_i hnone
    rw [hnone, List.append_nil] at hparts
    exact .inl hparts.symm
  · rename_i c d hfour
    rw [hfour] at hparts
    rw [Bool.and_eq_true] at hregion
    exact .inr ⟨c, d, hregion.1, hregion.2, hparts.symm⟩
  · cases hregion

/-- The long form: a mark, and letters, digits and plus signs. -/
theorem exists_of_isLongForm
    (h : isLongForm qualifier = true) :
    exists rest : Text, qualifier = 'b' :: '+' :: rest ∧
      rest.all (fun c => isAsciiAlphanumeric c || c == '+') = true := by
  unfold isLongForm at h
  split at h
  · rename_i rest
    rw [Bool.and_eq_true] at h
    exact ⟨rest, rfl, h.2⟩
  · cases h

theorem isShortForm_plus (rest : Text) : isShortForm ('b' :: '+' :: rest) = false :=
  rfl

/-- The characters that qualifiers of languages are made of. -/
def isQualifierChar (c : Char) : Bool :=
  isAsciiAlphanumeric c || c == '-' || c == '+'

theorem isQualifierChar_of_isAsciiLetter {c : Char} (h : isAsciiLetter c = true) :
    isQualifierChar c = true := by
  simp [isQualifierChar, isAsciiAlphanumeric, h]

theorem forall_mem_of_isLanguage
    (h : isLanguage qualifier = true) :
    forall c : Char, c ∈ qualifier -> isQualifierChar c = true := by
  have hsmall : forall language : Text, language.all isSmallLetter = true ->
      forall c : Char, c ∈ language -> isQualifierChar c = true := fun language hall c hc =>
    isQualifierChar_of_isAsciiLetter
      (isAsciiLetter_of_isSmallLetter (List.all_eq_true.mp hall c hc))
  rw [isLanguage, Bool.or_eq_true] at h
  rcases h with hshort | hlong
  · rcases exists_of_isShortForm hshort with ⟨language, hall, _, rfl | ⟨c, d, hc, hd, rfl⟩⟩
    · exact hsmall qualifier hall
    · simp only [List.forall_mem_append, List.forall_mem_cons]
      exact ⟨hsmall language hall, rfl, rfl,
        isQualifierChar_of_isAsciiLetter (isAsciiLetter_of_isCapitalLetter hc),
        isQualifierChar_of_isAsciiLetter (isAsciiLetter_of_isCapitalLetter hd),
        fun _ hnone => absurd hnone List.not_mem_nil⟩
  · rcases exists_of_isLongForm hlong with ⟨rest, rfl, hall⟩
    simp only [List.forall_mem_cons]
    refine ⟨rfl, rfl, fun c hc => ?_⟩
    have hchar := List.all_eq_true.mp hall c hc
    rw [Bool.or_eq_true] at hchar
    rcases hchar with halphanumeric | hplus
    · simp [isQualifierChar, halphanumeric]
    · simp [isQualifierChar, hplus]

/-- Other characters are in no qualifier. -/
theorem notMem_of_isLanguage
    {c : Char}
    (h : isLanguage qualifier = true)
    (hc : isQualifierChar c = false) :
    c ∉ qualifier :=
  not_mem_of_forall (forall_mem_of_isLanguage h) hc

theorem notMem_slash_of_isLanguage (h : isLanguage qualifier = true) : '/' ∉ qualifier :=
  notMem_of_isLanguage h (by decide)

theorem ne_nil_of_isLanguage (h : isLanguage qualifier = true) : qualifier ≠ [] := by
  rintro rfl
  cases h

theorem isSource_eq_false_of_isLanguage (h : isLanguage qualifier = true) :
    isSource qualifier = false := by
  cases hsource : isSource qualifier with
  | false => rfl
  | true =>
      simp only [isSource, Bool.or_eq_true, beq_iff_eq] at hsource
      rcases hsource with rfl | rfl
      · exact absurd h (by decide)
      · exact absurd h (by decide)

end Qualifier
end AndroidStrings
