import AndroidStrings.Proofs.Value.RoundTrip

/-!
# Texts with exchanged fillings

A placeholder is told by percent signs, braces and angle brackets.  What escaping takes out and what
it writes instead has none of them behind its first character; this first character is one of a few
marks.  So a text and its escaped form are two texts with the same characters and other fillings
between them, and they are read side by side as long as the reading asks for no mark.

## Main statements

- `Refilled.takeWhile_eq`, `Refilled.takeWhile` : runs of characters in the two texts.
- `Refilled.cutAt?` : the first occurrence of a closing text.
- `Refilled.replaceAll` : the two texts without a pattern.
- `refilled_of_escaped`, `refilled_replaceAll` : the passes of escaping.
-/

namespace AndroidStrings
namespace Text

/-- The characters that placeholders are told by. -/
def placeholderChars : Text :=
  ['%', '{', '}', '<', '>']

/-- What may be exchanged for something else. -/
def IsFilling (marks s : Text) : Prop :=
  exists (mark : Char) (rest : Text),
    s = mark :: rest ∧ mark ∈ marks ∧ List.Disjoint rest placeholderChars

/-- Two texts with the same characters and other fillings between them. -/
inductive Refilled (marks : Text) : Text -> Text -> Prop where
  | nil : Refilled marks [] []
  | kept {c : Char} {t written : Text} :
      Refilled marks t written ->
      Refilled marks (c :: t) (c :: written)
  | filled {s s' t written : Text} :
      IsFilling marks s ->
      IsFilling marks s' ->
      Refilled marks t written ->
      Refilled marks (s ++ t) (s' ++ written)

variable {marks s t written : Text} {c : Char}

namespace IsFilling

theorem not_nil : ¬ IsFilling marks [] := by
  rintro ⟨mark, rest, hs, _⟩
  cases hs

theorem head_mem (h : IsFilling marks (c :: s)) : c ∈ marks := by
  rcases h with ⟨mark, rest, hs, hmark, _⟩
  rw [(List.cons.inj hs).1]
  exact hmark

/-- A filling is made of a mark and of characters that are in no placeholder. -/
theorem mem (h : IsFilling marks s) (hc : c ∈ s) : c ∈ marks ∨ c ∉ placeholderChars := by
  rcases h with ⟨mark, rest, rfl, hmark, hrest⟩
  rcases List.mem_cons.mp hc with rfl | hc
  · exact .inl hmark
  · exact .inr fun hmem => hrest hc hmem

theorem not_mem
    (h : IsFilling marks s)
    (hc : c ∈ placeholderChars)
    (hmark : c ∉ marks) :
    c ∉ s := by
  intro hmem
  rcases h.mem hmem with hmarks | hnot
  · exact hmark hmarks
  · exact hnot hc

end IsFilling

namespace Refilled

theorem symm (h : Refilled marks t written) : Refilled marks written t := by
  induction h with
  | nil => exact .nil
  | kept _ ih => exact .kept ih
  | filled hs hs' _ ih => exact .filled hs' hs ih

theorem eq_nil (h : Refilled marks [] written) : written = [] := by
  generalize ht : ([] : Text) = t at h
  cases h with
  | nil => rfl
  | kept => cases ht
  | filled hs _ _ =>
      rw [(List.append_eq_nil_iff.mp ht.symm).1] at hs
      exact absurd hs IsFilling.not_nil

theorem eq_nil_iff (h : Refilled marks t written) : written = [] ↔ t = [] := by
  constructor
  · rintro rfl
    exact h.symm.eq_nil
  · rintro rfl
    exact h.eq_nil

/-- A character that is no mark stands in both texts. -/
theorem exists_cons
    (hc : c ∉ marks)
    (h : Refilled marks (c :: t) written) :
    exists rest : Text, written = c :: rest ∧ Refilled marks t rest := by
  generalize hfront : c :: t = front at h
  cases h with
  | nil => cases hfront
  | kept hrest =>
      rw [List.cons.injEq] at hfront
      rw [hfront.1, hfront.2]
      exact ⟨_, rfl, hrest⟩
  | @filled s _ _ _ hs _ _ =>
      cases s with
      | nil => exact absurd hs IsFilling.not_nil
      | cons d s =>
          rw [List.cons_append, List.cons.injEq] at hfront
          rw [hfront.1] at hc
          exact absurd hs.head_mem hc

theorem exists_append
    {front : Text}
    (hfront : List.Disjoint front marks)
    (h : Refilled marks (front ++ t) written) :
    exists rest : Text, written = front ++ rest ∧ Refilled marks t rest := by
  induction front generalizing written with
  | nil => exact ⟨written, rfl, h⟩
  | cons c front ih =>
      rw [List.disjoint_cons_left] at hfront
      rw [List.cons_append] at h
      rcases exists_cons hfront.1 h with ⟨rest, rfl, hrest⟩
      rcases ih hfront.2 hrest with ⟨rest', rfl, hrest'⟩
      exact ⟨rest', rfl, hrest'⟩

theorem isPrefix_iff
    {front : Text}
    (hfront : List.Disjoint front marks)
    (h : Refilled marks t written) :
    front <+: written ↔ front <+: t := by
  constructor
  · rintro ⟨rest, rfl⟩
    rcases exists_append hfront h.symm with ⟨rest', rfl, _⟩
    exact List.prefix_append front rest'
  · rintro ⟨rest, rfl⟩
    rcases exists_append hfront h with ⟨rest', rfl, _⟩
    exact List.prefix_append front rest'

/-!
## Runs of characters
-/

/-- A run of characters without marks stands in both texts. -/
theorem takeWhile_eq
    {inClass : Char -> Bool}
    (hmarks : forall c, c ∈ marks -> inClass c = false)
    (h : Refilled marks t written) :
    written.takeWhile inClass = t.takeWhile inClass ∧
      Refilled marks (t.dropWhile inClass) (written.dropWhile inClass) := by
  induction h with
  | nil => exact ⟨rfl, .nil⟩
  | @kept c t written hrest ih =>
      cases hc : inClass c with
      | true => simpa [List.takeWhile_cons, List.dropWhile_cons, hc] using ih
      | false => simpa [List.takeWhile_cons, List.dropWhile_cons, hc] using hrest.kept
  | filled hs hs' hrest _ =>
      have hboth := hrest.filled hs hs'
      rcases hs with ⟨mark, rest, rfl, hmark, _⟩
      rcases hs' with ⟨mark', rest', rfl, hmark', _⟩
      simpa [List.takeWhile_cons, List.dropWhile_cons, hmarks mark hmark, hmarks mark' hmark']
        using hboth

/-- A run that goes on over fillings has them exchanged. -/
theorem takeWhile
    {inClass : Char -> Bool}
    (hmarks : forall c, c ∈ marks -> inClass c = true)
    (hclass : forall c, c ∉ placeholderChars -> inClass c = true)
    (h : Refilled marks t written) :
    Refilled marks (t.takeWhile inClass) (written.takeWhile inClass) ∧
      Refilled marks (t.dropWhile inClass) (written.dropWhile inClass) := by
  have hall : forall {s : Text}, IsFilling marks s -> forall c, c ∈ s -> inClass c = true :=
    fun hs c hc => (hs.mem hc).elim (hmarks c) (hclass c)
  induction h with
  | nil => exact ⟨.nil, .nil⟩
  | @kept c t written hrest ih =>
      cases hc : inClass c with
      | true => simpa [List.takeWhile_cons, List.dropWhile_cons, hc] using ⟨ih.1.kept, ih.2⟩
      | false => simpa [List.takeWhile_cons, List.dropWhile_cons, hc] using ⟨.nil, hrest.kept⟩
  | filled hs hs' _ ih =>
      rw [List.takeWhile_append_of_pos (hall hs), List.takeWhile_append_of_pos (hall hs'),
        List.dropWhile_append_of_pos (hall hs), List.dropWhile_append_of_pos (hall hs')]
      exact ⟨ih.1.filled hs hs', ih.2⟩

end Refilled

/-!
## Closing texts
-/

theorem cutAt?_append_of_not_mem
    {d : Char} {closing : Text}
    (hd : d ∉ s)
    (t : Text) :
    cutAt? (d :: closing) (s ++ t) =
      (cutAt? (d :: closing) t).map fun parts => (s ++ parts.1, parts.2) := by
  induction s with
  | nil => simp
  | cons c s ih =>
      rw [List.cons_append, cutAt?, if_neg, ih fun hmem => hd (List.mem_cons_of_mem c hmem),
        Option.map_map]
      · rfl
      · rw [List.isPrefixOf_iff_prefix]
        exact isPrefix_cons_of_not_mem hd

theorem isInfix_cons_of_not_mem
    {d : Char} {closing : Text}
    (hd : d ∉ s)
    (h : d :: closing <:+: s ++ t) :
    d :: closing <:+: t := by
  induction s with
  | nil => exact h
  | cons c s ih =>
      rw [List.cons_append, List.infix_cons_iff] at h
      rcases h with hhere | hlater
      · exact absurd hhere (isPrefix_cons_of_not_mem hd)
      · exact ih (fun hmem => hd (List.mem_cons_of_mem c hmem)) hlater

theorem rel_map
    {α : Type} {related : α -> α -> Prop} {found found' : Option α} {f f' : α -> α}
    (h : Option.Rel related found found')
    (hf : forall {x y : α}, related x y -> related (f x) (f' y)) :
    Option.Rel related (found.map f) (found'.map f') := by
  cases h with
  | none => exact .none
  | some hboth => exact .some (hf hboth)

namespace Refilled

variable {d : Char} {closing : Text}

theorem stripPrefix?
    {front : Text}
    (hfront : List.Disjoint front marks)
    (h : Refilled marks t written) :
    Option.Rel (Refilled marks) (stripPrefix? front t) (stripPrefix? front written) := by
  by_cases hbegins : front <+: t
  · rcases hbegins with ⟨rest, rfl⟩
    rcases exists_append hfront h with ⟨rest', rfl, hrest⟩
    simpa [Text.stripPrefix?, List.isPrefixOf_iff_prefix] using hrest
  · have hnot := (isPrefix_iff hfront h).not.mpr hbegins
    simp [Text.stripPrefix?, List.isPrefixOf_iff_prefix, hbegins, hnot]

theorem isInfix
    (hclosing : List.Disjoint (d :: closing) marks)
    (hd : d ∈ placeholderChars)
    (h : Refilled marks t written)
    (hpart : d :: closing <:+: t) :
    d :: closing <:+: written := by
  have hmark := (List.disjoint_cons_left.mp hclosing).1
  induction h with
  | nil => exact hpart
  | kept hrest ih =>
      rw [List.infix_cons_iff] at hpart ⊢
      exact hpart.imp (isPrefix_iff hclosing hrest.kept).mpr ih
  | filled hs hs' _ ih =>
      have hlater := isInfix_cons_of_not_mem (hs.not_mem hd hmark) hpart
      exact List.infix_append_of_infix_right (ih hlater)

/-- A closing text that begins in no filling stands in both texts, and first in the same place. -/
theorem cutAt?
    (hclosing : List.Disjoint (d :: closing) marks)
    (hd : d ∈ placeholderChars)
    (h : Refilled marks t written) :
    Option.Rel (fun parts parts' => Refilled marks parts.2 parts'.2)
      (cutAt? (d :: closing) t) (cutAt? (d :: closing) written) := by
  have hmark := (List.disjoint_cons_left.mp hclosing).1
  induction h with
  | nil => exact .none
  | @kept c t written hrest ih =>
      by_cases hbegins : d :: closing <+: c :: t
      · rcases hbegins with ⟨rest, hrest'⟩
        have hboth := hrest.kept (c := c)
        rw [← hrest'] at hboth ⊢
        rcases exists_append hclosing hboth with ⟨rest', hwritten, hfollow⟩
        rw [hwritten]
        simpa [Text.cutAt?] using Option.Rel.some hfollow
      · have hnot := (isPrefix_iff hclosing hrest.kept).not.mpr hbegins
        rw [← List.isPrefixOf_iff_prefix] at hbegins hnot
        rw [Text.cutAt?, Text.cutAt?, if_neg hbegins, if_neg hnot]
        exact rel_map ih fun hparts => hparts
  | filled hs hs' _ ih =>
      rw [cutAt?_append_of_not_mem (hs.not_mem hd hmark),
        cutAt?_append_of_not_mem (hs'.not_mem hd hmark)]
      exact rel_map ih fun hparts => hparts

/-- Where a pattern is taken out of both texts, the fillings stay. -/
theorem replaceAll
    (hclosing : List.Disjoint (d :: closing) marks)
    (hd : d ∈ placeholderChars)
    (h : Refilled marks t written) :
    Refilled marks (replaceAll (d :: closing) [] t) (replaceAll (d :: closing) [] written) := by
  have hmark := (List.disjoint_cons_left.mp hclosing).1
  have hpattern := List.cons_ne_nil d closing
  -- The pattern may begin with a kept character and go on, so what follows it is shorter by more.
  induction hlength : t.length using Nat.strongRecOn generalizing t written with
  | ind n ih =>
      subst hlength
      cases h with
      | nil => simpa [Text.replaceAll] using nil
      | @kept c t written hrest =>
          by_cases hbegins : d :: closing <+: c :: t
          · rcases hbegins with ⟨rest, hrest'⟩
            have hboth := hrest.kept (c := c)
            rw [← hrest'] at hboth ih ⊢
            rcases exists_append hclosing hboth with ⟨rest', hwritten, hfollow⟩
            have hshorter : rest.length < (d :: closing ++ rest).length := by
              rw [List.length_append, List.length_cons]
              omega
            rw [hwritten, replaceAll_append hpattern, replaceAll_append hpattern]
            exact ih _ hshorter hfollow rfl
          · have hnot := (isPrefix_iff hclosing hrest.kept).not.mpr hbegins
            rw [replaceAll_cons hbegins, replaceAll_cons hnot]
            exact (ih _ (by simp) hrest rfl).kept
      | @filled s s' t written hs hs' hrest =>
          have hshorter : t.length < (s ++ t).length := by
            rw [List.length_append, Nat.lt_add_left_iff_pos, List.length_pos_iff]
            rintro rfl
            exact IsFilling.not_nil hs
          rw [replaceAll_append_of_not_mem (hs.not_mem hd hmark),
            replaceAll_append_of_not_mem (hs'.not_mem hd hmark)]
          exact (ih _ hshorter hrest rfl).filled hs hs'

end Refilled

/-!
## The passes of escaping
-/

/-- What escaping changes in every value begins with one of these. -/
def quotedMarks : Text :=
  ['&', '\\', '\'', '"']

def bracketMarks : Text :=
  quotedMarks ++ ['<', '>']

theorem isFilling_escapeOf
    (hmarks : quotedMarks ⊆ marks)
    (hc : c ∈ escapedChars) :
    IsFilling marks (escapeOf c) := by
  rcases cases_of_mem_escapedChars hc with rfl | rfl | rfl | rfl | rfl <;>
    exact ⟨_, _, rfl, hmarks (by decide), by decide⟩

theorem refilled_of_escaped
    {marked : Text} {behind : Bool}
    (hmarks : quotedMarks ⊆ marks)
    (hmarked : marked ⊆ marks)
    (h : Escaped marked behind t written) :
    Refilled marks t written := by
  induction h with
  | nil => exact .nil
  | kept _ ih => exact .kept ih
  | @escaped _ c t written hc hmem _ _ _ ih =>
      have hsingle : IsFilling marks [c] := ⟨c, [], rfl, hmarked hmem, List.disjoint_nil_left _⟩
      exact .filled hsingle (isFilling_escapeOf hmarks hc) ih

theorem refilled_replaceAll
    {pattern replacement : Text}
    (hpattern : IsFilling marks pattern)
    (hreplacement : IsFilling marks replacement)
    (t : Text) :
    Refilled marks t (replaceAll pattern replacement t) := by
  have hne : pattern ≠ [] := by
    rintro rfl
    exact IsFilling.not_nil hpattern
  induction t using occurrence_induction hne with
  | nil => simpa [replaceAll] using Refilled.nil
  | found t ih =>
      rw [replaceAll_append hne]
      exact .filled hpattern hreplacement ih
  | kept c t hnot ih =>
      rw [replaceAll_cons hnot]
      exact .kept ih

end Text

open Text

section Escaping

variable {holds : Text -> Prop} {marks value : Text}

/-- What is kept when fillings are exchanged is kept by the first two passes. -/
theorem ampersands_of_refilled
    (hmarks : quotedMarks ⊆ marks)
    (h : forall {t written : Text}, Refilled marks t written -> holds t -> holds written)
    (hvalue : holds value) :
    holds value.plainQuotes.escapeBareAmpersands := by
  have hfilling : forall {s : Text}, IsFilling quotedMarks s -> IsFilling marks s := by
    rintro s ⟨mark, rest, hs, hmark, hrest⟩
    exact ⟨mark, rest, hs, hmarks hmark, hrest⟩
  have hapos : Refilled marks value (replaceAll "&apos;".toList ['\''] value) :=
    refilled_replaceAll (hfilling ⟨_, _, rfl, by decide, by decide⟩)
      (hfilling ⟨_, _, rfl, by decide, by decide⟩) value
  have hquot : Refilled marks (replaceAll "&apos;".toList ['\''] value) value.plainQuotes :=
    refilled_replaceAll (hfilling ⟨_, _, rfl, by decide, by decide⟩)
      (hfilling ⟨_, _, rfl, by decide, by decide⟩) (replaceAll "&apos;".toList ['\''] value)
  have hampersands := escaped_escapeBareAmpersands false value.plainQuotes
  refine h (refilled_of_escaped hmarks ?_ hampersands) (h hquot (h hapos hvalue))
  exact fun c hc => hmarks ((by decide : ['&'] ⊆ quotedMarks) hc)

/-- What is kept when fillings are exchanged holds of a stored value. -/
theorem escapeValue_of_refilled
    (hmarks : quotedMarks ⊆ marks)
    (hangles : keepsAngles value.plainQuotes = false -> ['<', '>'] ⊆ marks)
    (h : forall {t written : Text}, Refilled marks t written -> holds t -> holds written)
    (hvalue : holds value) :
    holds (escapeValue value) := by
  have hampersands := ampersands_of_refilled hmarks h hvalue
  have hquotes : forall {t : Text}, holds t -> holds t.escapeQuotes := by
    intro t ht
    refine h (refilled_of_escaped hmarks ?_ (escaped_escapeQuotes t)) ht
    exact fun c hc => hmarks ((by decide : quoteChars ⊆ quotedMarks) hc)
  cases hkeeps : keepsAngles value.plainQuotes with
  | true =>
      rw [escapeValue_of_keepsAngles hkeeps]
      exact hquotes hampersands
  | false =>
      rw [escapeValue_of_not_keepsAngles hkeeps]
      exact hquotes (h (refilled_of_escaped hmarks (hangles hkeeps) (escaped_escapeAngles false _))
        hampersands)

end Escaping

end AndroidStrings
