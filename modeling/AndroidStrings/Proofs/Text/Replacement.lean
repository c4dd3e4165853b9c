import AndroidStrings.Text.Search
import Mathlib.Data.List.Infix

/-!
# Replacement of a pattern

A text is read along the occurrences of a pattern that replacement finds: what it finds is
replaced, and every character that no occurrence begins with is kept.  Where the replacement is
shorter than the pattern, the text gets shorter with every occurrence, so a text that stays as it
is has none.

## Main statements

- `occurrence_induction` : induction along the occurrences of a pattern.
- `replaceEach_eq_self_iff` : several replacements leave the texts without their patterns.
-/

namespace AndroidStrings
namespace Text

section Pattern

variable {pattern replacement t : Text}

/-- What holds of a text after each occurrence that is replaced, and after each character that is
kept, holds of every text. -/
@[elab_as_elim]
theorem occurrence_induction
    (hpattern : pattern ≠ [])
    {motive : Text -> Prop}
    (nil : motive [])
    (found : forall t, motive t -> motive (pattern ++ t))
    (kept : forall c t, ¬ pattern <+: c :: t -> motive t -> motive (c :: t))
    (t : Text) :
    motive t := by
  induction hlength : t.length using Nat.strongRecOn generalizing t with
  | ind n ih =>
      cases t with
      | nil => exact nil
      | cons c t =>
          by_cases hbegins : pattern <+: c :: t
          · rcases hbegins with ⟨rest, hrest⟩
            have hshorter : rest.length < n := by
              have hsum := congrArg List.length hrest
              have hpositive := List.length_pos_of_ne_nil hpattern
              rw [List.length_append] at hsum
              omega
            rw [← hrest]
            exact found rest (ih rest.length hshorter rest rfl)
          · exact kept c t hbegins (ih t.length (by simp [← hlength]) t rfl)

theorem replaceAll_append (hpattern : pattern ≠ []) (replacement t : Text) :
    replaceAll pattern replacement (pattern ++ t) =
      replacement ++ replaceAll pattern replacement t := by
  cases pattern with
  | nil => exact absurd rfl hpattern
  | cons c pattern => simp [replaceAll]

theorem replaceAll_cons
    {c : Char}
    (h : ¬ pattern <+: c :: t)
    (replacement : Text) :
    replaceAll pattern replacement (c :: t) = c :: replaceAll pattern replacement t := by
  rw [replaceAll, if_neg]
  rw [List.isPrefixOf_iff_prefix]
  exact fun hboth => h hboth.2

theorem isPrefix_cons_of_not_mem
    {c d : Char} {s closing : Text}
    (hd : d ∉ c :: s) :
    ¬ d :: closing <+: c :: (s ++ t) := by
  rw [List.cons_prefix_cons]
  rintro ⟨rfl, _⟩
  exact hd List.mem_cons_self

/-- No occurrence begins in a text without the first character of the pattern. -/
theorem replaceAll_append_of_not_mem
    {d : Char} {s closing : Text}
    (hd : d ∉ s)
    (t : Text) :
    replaceAll (d :: closing) replacement (s ++ t) =
      s ++ replaceAll (d :: closing) replacement t := by
  induction s with
  | nil => rfl
  | cons c s ih =>
      rw [List.cons_append, replaceAll_cons (isPrefix_cons_of_not_mem hd),
        ih fun hmem => hd (List.mem_cons_of_mem c hmem), List.cons_append]

theorem replaceAll_eq_self
    (h : ¬ pattern <:+: t)
    (replacement : Text) :
    replaceAll pattern replacement t = t := by
  induction t with
  | nil => simp [replaceAll]
  | cons c t ih =>
      rw [List.infix_cons_iff, not_or] at h
      rw [replaceAll_cons h.1, ih h.2]

theorem length_replaceAll_le
    (hpattern : pattern ≠ [])
    (hshorter : replacement.length ≤ pattern.length)
    (t : Text) :
    (replaceAll pattern replacement t).length ≤ t.length := by
  induction t using occurrence_induction hpattern with
  | nil => simp [replaceAll]
  | found t ih =>
      rw [replaceAll_append hpattern, List.length_append, List.length_append]
      omega
  | kept c t hbegins ih =>
      rw [replaceAll_cons hbegins, List.length_cons, List.length_cons]
      omega

theorem length_replaceAll_lt
    (hshorter : replacement.length < pattern.length)
    (h : pattern <:+: t) :
    (replaceAll pattern replacement t).length < t.length := by
  have hpattern : pattern ≠ [] := by
    intro hnil
    rw [hnil] at hshorter
    exact Nat.not_lt_zero _ hshorter
  induction t using occurrence_induction hpattern with
  | nil => exact absurd (List.infix_nil.mp h) hpattern
  | found t _ =>
      have hrest := length_replaceAll_le hpattern hshorter.le t
      rw [replaceAll_append hpattern, List.length_append, List.length_append]
      omega
  | kept c t hbegins ih =>
      have hrest := ih ((List.infix_cons_iff.mp h).resolve_left hbegins)
      rw [replaceAll_cons hbegins, List.length_cons, List.length_cons]
      omega

/-- A text without the replacing character is not made by the replacement. -/
theorem isPrefix_of_isPrefix_replaceAll
    {c : Char} {front : Text}
    (hpattern : pattern ≠ [])
    (hc : c ∉ front)
    (h : front <+: replaceAll pattern [c] t) :
    front <+: t := by
  induction t using occurrence_induction hpattern generalizing front with
  | nil => simpa [replaceAll] using h
  | found t _ =>
      rw [replaceAll_append hpattern] at h
      cases front with
      | nil => exact List.nil_prefix
      | cons d front =>
          rw [List.singleton_append, List.cons_prefix_cons] at h
          exact absurd (by simp [h.1]) hc
  | kept d t hbegins ih =>
      rw [replaceAll_cons hbegins] at h
      cases front with
      | nil => exact List.nil_prefix
      | cons e front =>
          rw [List.cons_prefix_cons] at h ⊢
          exact ⟨h.1, ih (fun hmem => hc (List.mem_cons_of_mem e hmem)) h.2⟩

theorem isInfix_of_isInfix_replaceAll
    {c : Char} {part : Text}
    (hpattern : pattern ≠ [])
    (hc : c ∉ part)
    (h : part <:+: replaceAll pattern [c] t) :
    part <:+: t := by
  induction t using occurrence_induction hpattern with
  | nil => simpa [replaceAll] using h
  | found t ih =>
      rw [replaceAll_append hpattern, List.singleton_append, List.infix_cons_iff] at h
      rcases h with hfirst | hrest
      · cases part with
        | nil => exact List.nil_infix
        | cons d part =>
            rw [List.cons_prefix_cons] at hfirst
            exact absurd (by simp [hfirst.1]) hc
      · exact (ih hrest).trans (List.suffix_append pattern t).isInfix
  | kept d t hbegins ih =>
      have hwhole := isPrefix_of_isPrefix_replaceAll (t := d :: t) hpattern hc
      rw [replaceAll_cons hbegins] at h hwhole
      rw [List.infix_cons_iff] at h ⊢
      exact h.imp hwhole ih

/-- Replacement by a character that is not in the pattern leaves no occurrence. -/
theorem not_isInfix_replaceAll
    {c : Char}
    (hpattern : pattern ≠ [])
    (hc : c ∉ pattern)
    (t : Text) :
    ¬ pattern <:+: replaceAll pattern [c] t := by
  induction t using occurrence_induction hpattern with
  | nil => simpa [replaceAll] using hpattern
  | found t ih =>
      rw [replaceAll_append hpattern, List.singleton_append, List.infix_cons_iff]
      rintro (hfirst | hrest)
      · cases pattern with
        | nil => exact hpattern rfl
        | cons d pattern =>
            rw [List.cons_prefix_cons] at hfirst
            exact hc (by simp [hfirst.1])
      · exact ih hrest
  | kept d t hbegins ih =>
      rw [replaceAll_cons hbegins, List.infix_cons_iff]
      rintro (hfirst | hrest)
      · rw [← replaceAll_cons hbegins] at hfirst
        exact hbegins (isPrefix_of_isPrefix_replaceAll hpattern hc hfirst)
      · exact ih hrest

end Pattern

/-!
# Several replacements
-/

/-- Replaces every pattern of a list by its character, one pattern after another. -/
def replaceEach (pairs : List (Text × Char)) (t : Text) : Text :=
  pairs.foldl (fun t pair => replaceAll pair.1 [pair.2] t) t

theorem length_replaceEach_le
    {pairs : List (Text × Char)}
    (h : forall pair, pair ∈ pairs -> 1 < pair.1.length)
    (t : Text) :
    (replaceEach pairs t).length ≤ t.length := by
  induction pairs generalizing t with
  | nil => exact Nat.le_refl _
  | cons pair pairs ih =>
      have hlong := h pair (by simp)
      have hshorter : [pair.2].length ≤ pair.1.length := hlong.le
      have hfirst := length_replaceAll_le (List.ne_nil_of_length_pos (Nat.zero_lt_of_lt hlong))
        hshorter t
      exact (ih (List.forall_mem_cons.mp h).2 _).trans hfirst

/-- Several replacements by single characters leave exactly the texts without their patterns. -/
theorem replaceEach_eq_self_iff
    {pairs : List (Text × Char)}
    (h : forall pair, pair ∈ pairs -> 1 < pair.1.length)
    (t : Text) :
    replaceEach pairs t = t ↔ forall pair, pair ∈ pairs -> ¬ pair.1 <:+: t := by
  induction pairs generalizing t with
  | nil => simp [replaceEach]
  | cons pair pairs ih =>
      have hrest := (List.forall_mem_cons.mp h).2
      by_cases hoccurs : pair.1 <:+: t
      · -- The text has become shorter, and no replacement makes it longer again.
        have hshorter : [pair.2].length < pair.1.length := h pair (by simp)
        have hless := length_replaceAll_lt hshorter hoccurs
        have hle := length_replaceEach_le hrest (replaceAll pair.1 [pair.2] t)
        constructor
        · intro heq
          have hlength : (replaceEach pairs (replaceAll pair.1 [pair.2] t)).length = t.length :=
            congrArg List.length heq
          omega
        · intro hnone
          exact absurd hoccurs (hnone pair (by simp))
      · have hfirst : replaceEach (pair :: pairs) t = replaceEach pairs t :=
          congrArg (replaceEach pairs) (replaceAll_eq_self hoccurs [pair.2])
        rw [hfirst, ih hrest, List.forall_mem_cons]
        exact ⟨fun hpairs => ⟨hoccurs, hpairs⟩, And.right⟩

end Text
end AndroidStrings
