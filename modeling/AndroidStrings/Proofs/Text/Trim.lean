import AndroidStrings.Text.Search

/-!
# Trimming

A text trimmed at its end is what stands before the blanks that end it; trimmed at both ends, it
stands between blanks.
-/

namespace AndroidStrings
namespace Text

theorem trimEnd_cons (blank : Char -> Bool) (c : Char) (t : Text) :
    trimEnd blank (c :: t) =
      if trimEnd blank t = [] ∧ blank c then [] else c :: trimEnd blank t := by
  simp only [trimEnd]
  split
  · rename_i hnil
    by_cases hc : blank c = true <;> simp [hnil, hc]
  · rename_i hne
    rw [if_neg (fun hcond => hne hcond.1)]

theorem trimEnd_eq_nil_of_all
    {blank : Char -> Bool} {t : Text}
    (h : forall c, c ∈ t -> blank c = true) :
    trimEnd blank t = [] := by
  induction t with
  | nil => rfl
  | cons c t ih =>
      rw [trimEnd_cons, ih (List.forall_mem_cons.mp h).2, h c (by simp)]
      simp

theorem trimEnd_append_of_all
    {blank : Char -> Bool} {back : Text}
    (h : forall c, c ∈ back -> blank c = true)
    (front : Text) :
    trimEnd blank (front ++ back) = trimEnd blank front := by
  induction front with
  | nil => exact trimEnd_eq_nil_of_all h
  | cons c front ih => rw [List.cons_append, trimEnd_cons, trimEnd_cons, ih]

theorem trimEnd_append_cons
    {blank : Char -> Bool} {c : Char}
    (h : blank c = false)
    (front back : Text) :
    trimEnd blank (front ++ c :: back) = front ++ c :: trimEnd blank back := by
  induction front with
  | nil => simp [trimEnd_cons, h]
  | cons d front ih =>
      rw [List.cons_append, trimEnd_cons, ih]
      simp

theorem trimEnd_append_singleton
    {blank : Char -> Bool} {c : Char}
    (h : blank c = false)
    (front : Text) :
    trimEnd blank (front ++ [c]) = front ++ [c] :=
  trimEnd_append_cons h front []

theorem trimEnd_eq_self
    {blank : Char -> Bool} {t : Text}
    (h : forall c, t.getLast? = some c -> blank c = false) :
    trimEnd blank t = t := by
  cases hlast : t.getLast? with
  | none =>
      rw [List.getLast?_eq_none_iff.mp hlast]
      rfl
  | some c =>
      rcases List.getLast?_eq_some_iff.mp hlast with ⟨front, rfl⟩
      exact trimEnd_append_singleton (h c hlast) front

theorem trimEnd_append_of_last
    {blank : Char -> Bool} {front : Text}
    (h : forall c, front.getLast? = some c -> blank c = false)
    (back : Text) :
    trimEnd blank (front ++ back) = front ++ trimEnd blank back := by
  cases hlast : front.getLast? with
  | none =>
      rw [List.getLast?_eq_none_iff.mp hlast]
      rfl
  | some c =>
      rcases List.getLast?_eq_some_iff.mp hlast with ⟨init, rfl⟩
      rw [List.append_assoc, List.append_assoc]
      exact trimEnd_append_cons (h c hlast) init back

theorem head?_trimEnd
    {blank : Char -> Bool} {t : Text} {c : Char}
    (h : (trimEnd blank t).head? = some c) :
    t.head? = some c := by
  cases t with
  | nil => simp [trimEnd] at h
  | cons d t =>
      rw [trimEnd_cons] at h
      split at h
      · simp at h
      · exact h

/-- A text is its trimmed part and blanks behind it. -/
theorem exists_trimEnd_append (blank : Char -> Bool) (t : Text) :
    exists back : Text,
      t = trimEnd blank t ++ back ∧ forall c, c ∈ back -> blank c = true := by
  induction t with
  | nil =>
      exists []
      simp [trimEnd]
  | cons c t ih =>
      rcases ih with ⟨back, heq, hback⟩
      by_cases h : trimEnd blank t = [] ∧ blank c = true
      · exists c :: t
        rw [trimEnd_cons, if_pos h]
        constructor
        · rfl
        · intro d hd
          rcases List.mem_cons.mp hd with hd | hd
          · rw [hd]
            exact h.2
          · rw [h.1, List.nil_append] at heq
            exact hback d (heq ▸ hd)
      · exists back
        rw [trimEnd_cons, if_neg h, List.cons_append, ← heq]
        exact ⟨rfl, hback⟩

theorem getLast?_trimEnd
    {blank : Char -> Bool} {t : Text} {c : Char}
    (h : (trimEnd blank t).getLast? = some c) :
    blank c = false := by
  induction t with
  | nil => simp [trimEnd] at h
  | cons d t ih =>
      rw [trimEnd_cons] at h
      split at h
      · simp at h
      · rename_i hcond
        cases hrest : trimEnd blank t with
        | nil =>
            rw [hrest] at h hcond
            simp only [List.getLast?_singleton, Option.some.injEq] at h
            rw [← h]
            simpa using hcond
        | cons e rest =>
            apply ih
            rw [hrest] at h ⊢
            simpa using h

theorem trimEnd_append_of_ne_nil
    {blank : Char -> Bool} {back : Text}
    (h : trimEnd blank back ≠ [])
    (front : Text) :
    trimEnd blank (front ++ back) = front ++ trimEnd blank back := by
  induction front with
  | nil => rfl
  | cons c front ih =>
      rw [List.cons_append, trimEnd_cons, ih, if_neg, List.cons_append]
      intro hcond
      exact h (List.append_eq_nil_iff.mp hcond.1).2

/-!
# Trimming at both ends
-/

/-- A text is its trimmed part between blanks; behind a text that ends with no blank there are
none. -/
theorem exists_trim_append (blank : Char -> Bool) (t : Text) :
    exists lead tail : Text,
      t = lead ++ trim blank t ++ tail ∧ (forall c, c ∈ lead -> blank c = true) ∧
        (forall c, c ∈ tail -> blank c = true) ∧
        ((forall c, t.getLast? = some c -> blank c = false) -> tail = []) := by
  rcases exists_trimEnd_append blank (trimStart blank t) with ⟨tail, htail, hblank⟩
  have ht : t = t.takeWhile blank ++ trimStart blank t :=
    (List.takeWhile_append_dropWhile).symm
  refine ⟨t.takeWhile blank, tail, ?_, ?_, hblank, ?_⟩
  · rw [trim, List.append_assoc, ← htail]
    exact ht
  · exact List.all_eq_true.mp List.all_takeWhile
  · intro hlast
    cases hend : tail.getLast? with
    | none => exact List.getLast?_eq_none_iff.mp hend
    | some c =>
        have hc : t.getLast? = some c := by
          rw [ht, htail, List.getLast?_append, List.getLast?_append, hend]
          rfl
        have hbad := hblank c (List.mem_of_getLast? hend)
        rw [hlast c hc] at hbad
        exact Bool.noConfusion hbad

theorem trim_append_of_white
    {blank : Char -> Bool} {lead : Text}
    (h : forall c, c ∈ lead -> blank c = true)
    (t : Text) :
    trim blank (lead ++ t) = trim blank t := by
  rw [trim, trim, trimStart, trimStart, List.dropWhile_append_of_pos h]

theorem head?_trim
    {blank : Char -> Bool} {t : Text} {c : Char}
    (h : (trim blank t).head? = some c) :
    blank c = false := by
  have hhead := List.head?_dropWhile_not blank t
  rw [show t.dropWhile blank = trimStart blank t from rfl, head?_trimEnd h] at hhead
  exact hhead

theorem trim_eq_self
    {blank : Char -> Bool} {t : Text}
    (hhead : forall c, t.head? = some c -> blank c = false)
    (hlast : forall c, t.getLast? = some c -> blank c = false) :
    trim blank t = t := by
  have hstart : trimStart blank t = t := by
    cases t with
    | nil => rfl
    | cons c t => simp [trimStart, hhead c rfl]
  rw [trim, hstart, trimEnd_eq_self hlast]

theorem trim_trim (blank : Char -> Bool) (t : Text) :
    trim blank (trim blank t) = trim blank t :=
  trim_eq_self (fun _ h => head?_trim h) (fun _ h => getLast?_trimEnd h)

theorem trim_isInfix (blank : Char -> Bool) (t : Text) : trim blank t <:+: t := by
  rcases exists_trim_append blank t with ⟨lead, tail, heq, _⟩
  exact ⟨lead, tail, heq.symm⟩

theorem mem_of_mem_trim
    {blank : Char -> Bool} {t : Text} {c : Char}
    (h : c ∈ trim blank t) :
    c ∈ t := by
  rcases exists_trim_append blank t with ⟨lead, tail, heq, _⟩
  rw [heq]
  simp [h]

end Text
end AndroidStrings
