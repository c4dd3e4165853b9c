import AndroidStrings.Proofs.Value.Escaped
import AndroidStrings.Value.Validation

/-!
# Tags of an escaped text

The tags that nesting is checked on are read from a `<` to the next `>`.  Where angle brackets are
left as they are, escaping writes something between the two at most, never a slash at the end and
nothing in the name; so the tags of the escaped text are those of the text.

## Main statement

`Escaped.tags_eq` : escaping without angle brackets keeps the tags.
-/

namespace AndroidStrings

open CharClass Text

namespace Value

/-- Whether a tag is a closing one, and its name. -/
def tagHead (t : Text) : Bool × Text :=
  match t with
  | '/' :: rest => (true, tagName rest)
  | _ => (false, tagName t)

theorem tagName_lead (t : Text) : tagName (lead t) = tagName t := by
  simp only [tagName, takeWhile_lead isOrdinary_isWord, dropWhile_lead isOrdinary_isWord]
  cases t.takeWhile isWord with
  | nil => rfl
  | cons c first =>
      cases t.dropWhile isWord with
      | nil => rfl
      | cons d rest =>
          by_cases hcolon : d = ':'
          · subst hcolon
            rw [lead_cons rfl]
            simp only [takeWhile_lead isOrdinary_isWord]
          · cases hd : isSpecial d with
            | true => simp [lead_cons_special hd, hcolon]
            | false => simp [lead_cons hd, hcolon]

theorem tagHead_of_ne {c : Char} (h : c ≠ '/') (t : Text) :
    tagHead (c :: t) = (false, tagName (c :: t)) := by
  unfold tagHead
  split
  · rename_i heq
    exact absurd (List.cons.inj heq).1 h
  · rfl

theorem tagHead_lead (t : Text) : tagHead (lead t) = tagHead t := by
  cases t with
  | nil => rfl
  | cons c t =>
      by_cases hslash : c = '/'
      · rw [hslash, lead_cons rfl, tagHead, tagHead, tagName_lead]
      · have hname := tagName_lead (c :: t)
        rw [tagHead_of_ne hslash]
        cases hc : isSpecial c with
        | true =>
            rw [lead_cons_special hc] at hname ⊢
            rw [← hname]
            rfl
        | false =>
            rw [lead_cons hc] at hname ⊢
            rw [tagHead_of_ne hslash, hname]

theorem tagAfterBracket?_eq (t : Text) :
    tagAfterBracket? t =
      if (t.dropWhile (· != '>')).isEmpty then none
      else if (tagHead t).2.isEmpty then none
      else if (t.takeWhile (· != '>')).getLast? = some '/' then some (.empty (tagHead t).2)
      else if (tagHead t).1 then some (.closing (tagHead t).2)
      else some (.opening (tagHead t).2) := by
  unfold tagAfterBracket?
  split
  · rfl
  · split
    rename_i isClosing name heq
    have hhead : tagHead t = (isClosing, name) := heq
    rw [hhead]

theorem tags_cons (c : Char) (t : Text) :
    tags (c :: t) =
      match if c = '<' then tagAfterBracket? t else none with
      | some tag => tag :: tags (t.dropWhile (· != '>'))
      | none => tags t :=
  (tags.eq_def (c :: t)).trans rfl

theorem tags_append
    {front : Text}
    (h : '<' ∉ front)
    (t : Text) :
    tags (front ++ t) = tags t := by
  induction front with
  | nil => rfl
  | cons c front ih =>
      rw [List.mem_cons, not_or] at h
      rw [List.cons_append, tags_cons, if_neg (Ne.symm h.1), ih h.2]

end Value

/-!
# Between the angle brackets
-/

namespace Text.Escaped

open Value

variable {marked t written : Text} {behind : Bool} {c : Char}

/-- Neither angle brackets nor slashes are written. -/
theorem disjoint_escapeOf (h : c ∈ escapedChars) : List.Disjoint (escapeOf c) ['<', '>', '/'] := by
  rcases cases_of_mem_escapedChars h with rfl | rfl | rfl | rfl | rfl <;> decide

theorem forall_mem_escapeOf (h : c ∈ escapedChars) (d : Char) (hd : d ∈ escapeOf c) :
    (d != '>') = true := by
  rw [bne_iff_ne]
  rintro rfl
  exact disjoint_escapeOf h hd (by simp)

theorem isEmpty_eq (h : Escaped marked behind t written) : written.isEmpty = t.isEmpty := by
  cases h with
  | nil => rfl
  | kept _ => rfl
  | escaped _ _ _ _ _ => simp [escapeOf_ne_nil]

/-- The parts behind the next `>` are escaped in the same way. -/
theorem exists_dropWhile
    (hclose : '>' ∉ marked)
    (h : Escaped marked behind t written) :
    exists behind' : Bool,
      Escaped marked behind' (t.dropWhile (· != '>')) (written.dropWhile (· != '>')) := by
  induction h with
  | @nil behind => exact ⟨behind, .nil⟩
  | @kept behind c t written rest ih =>
      by_cases hc : c = '>'
      · exists behind
        rw [List.dropWhile_cons_of_neg (by simp [hc]), List.dropWhile_cons_of_neg (by simp [hc])]
        exact .kept rest
      · rwa [List.dropWhile_cons_of_pos (by simp [hc]), List.dropWhile_cons_of_pos (by simp [hc])]
  | escaped hc hmarked _ _ _ ih =>
      have hne := ne_of_mem_of_not_mem hmarked hclose
      have hescape := forall_mem_escapeOf hc
      rwa [List.dropWhile_cons_of_pos (by simp [hne]), List.dropWhile_append_of_pos hescape]

/-- Up to the next `>`, a slash stands at the end of both or of none; what stands in front of the
two matters where they are empty. -/
theorem getLast?_takeWhile_iff
    {before before' : Char}
    (hclose : '>' ∉ marked)
    (h : Escaped marked behind t written)
    (hbefore : before' = '/' ↔ before = '/') :
    (written.takeWhile (· != '>')).getLast?.getD before' = '/' ↔
      (t.takeWhile (· != '>')).getLast?.getD before = '/' := by
  induction h generalizing before before' with
  | nil => exact hbefore
  | @kept _ c _ _ _ ih =>
      by_cases hc : c = '>'
      · rwa [List.takeWhile_cons_of_neg (by simp [hc]), List.takeWhile_cons_of_neg (by simp [hc])]
      · rw [List.takeWhile_cons_of_pos (by simp [hc]), List.takeWhile_cons_of_pos (by simp [hc]),
          List.getLast?_cons, List.getLast?_cons]
        exact ih Iff.rfl
  | @escaped _ c _ _ hc hmarked _ _ _ ih =>
      have hne := ne_of_mem_of_not_mem hmarked hclose
      have hescape := forall_mem_escapeOf hc
      have hlast : (escapeOf c).getLast?.getD before' = '/' ↔ c = '/' := by
        rw [List.getLast?_eq_some_getLast (escapeOf_ne_nil c), Option.getD_some]
        constructor
        · intro hslash
          have hmem := List.getLast_mem (escapeOf_ne_nil c)
          rw [hslash] at hmem
          exact (disjoint_escapeOf hc hmem (by simp)).elim
        · rintro rfl
          exact absurd hc (by decide)
      rw [List.takeWhile_cons_of_pos (by simp [hne]), List.takeWhile_append_of_pos hescape,
        List.getLast?_cons, List.getLast?_append, Option.getD_or]
      exact ih hlast

theorem eq_some_slash_iff {last : Option Char} : last = some '/' ↔ last.getD ' ' = '/' := by
  cases last <;> simp

theorem tagAfterBracket?_eq
    (hclose : '>' ∉ marked)
    (h : Escaped marked behind t written) :
    tagAfterBracket? written = tagAfterBracket? t := by
  have hhead : tagHead written = tagHead t := by
    rw [← tagHead_lead, h.lead, tagHead_lead]
  rcases h.exists_dropWhile hclose with ⟨_, hrest⟩
  have hlast : (written.takeWhile (· != '>')).getLast? = some '/' ↔
      (t.takeWhile (· != '>')).getLast? = some '/' := by
    rw [eq_some_slash_iff, eq_some_slash_iff]
    exact h.getLast?_takeWhile_iff hclose Iff.rfl
  rw [Value.tagAfterBracket?_eq, Value.tagAfterBracket?_eq, hhead, hrest.isEmpty_eq]
  simp only [hlast]

theorem tags_eq
    (hopen : '<' ∉ marked)
    (hclose : '>' ∉ marked)
    (h : Escaped marked behind t written) :
    tags written = tags t := by
  fun_induction tags t generalizing behind written with
  | case1 =>
      cases h
      rw [tags]
  | case2 c t tag htag ih =>
      rw [dite_eq_ite] at htag
      cases h with
      | kept hkept =>
          rcases hkept.exists_dropWhile hclose with ⟨_, hrest⟩
          rw [tags_cons, hkept.tagAfterBracket?_eq hclose, htag]
          exact congrArg (tag :: ·) (ih hrest)
      | escaped _ hmarked _ _ _ =>
          rw [if_neg (ne_of_mem_of_not_mem hmarked hopen)] at htag
          cases htag
  | case3 c t htag ih =>
      rw [dite_eq_ite] at htag
      cases h with
      | kept hkept =>
          rw [tags_cons, hkept.tagAfterBracket?_eq hclose, htag]
          exact ih hkept
      | escaped hc _ _ _ hkept =>
          rw [tags_append fun hmem => disjoint_escapeOf hc hmem (by simp)]
          exact ih hkept

end Text.Escaped
end AndroidStrings
