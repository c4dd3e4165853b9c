import AndroidStrings.Value.Escape

/-!
# What leads a text

Escaping reads six characters in a special way: ampersands, angle brackets, quotes and
backslashes.  It writes something in front of or in place of them and keeps all others, so the part
of a text in front of its first special character stays as it is.  The names of references and tags
are read there and nowhere else.

## Main statements

- `isPrefix_lead_iff` : what a text begins with, as far as it has no special characters.
- `completesReference_lead` : a reference is read in front of the first special character.
- `escapeBareAmpersands_eq_self` : a text with references only has no bare ampersands.
-/

namespace AndroidStrings

open CharClass

namespace Text

def specialChars : Text :=
  ['&', '<', '>', '\'', '"', '\\']

/-- Whether escaping reads a character in a special way. -/
def isSpecial (c : Char) : Bool :=
  decide (c ∈ specialChars)

/-- The part of a text in front of its first special character. -/
def lead (t : Text) : Text :=
  t.takeWhile fun c => !isSpecial c

/-- A text without special characters. -/
def IsPlain (t : Text) : Prop :=
  forall c, c ∈ t -> isSpecial c = false

instance (t : Text) : Decidable (IsPlain t) :=
  List.decidableBAll _ t

/-- A class of characters without the special ones. -/
def IsOrdinary (inClass : Char -> Bool) : Prop :=
  forall c, c ∈ specialChars -> inClass c = false

instance (inClass : Char -> Bool) : Decidable (IsOrdinary inClass) :=
  List.decidableBAll _ specialChars

theorem IsOrdinary.eq_false
    {inClass : Char -> Bool} {c : Char}
    (h : IsOrdinary inClass)
    (hc : isSpecial c = true) :
    inClass c = false :=
  h c (of_decide_eq_true hc)

theorem isOrdinary_isWord : IsOrdinary isWord := by
  decide

theorem isOrdinary_isAsciiLetter : IsOrdinary isAsciiLetter := by
  decide

theorem isOrdinary_isAsciiDigit : IsOrdinary isAsciiDigit := by
  decide

theorem isOrdinary_isHexDigit : IsOrdinary isHexDigit := by
  decide

variable {c : Char} {t : Text}

@[simp] theorem lead_nil : lead [] = [] := rfl

theorem lead_cons_special (h : isSpecial c = true) (t : Text) : lead (c :: t) = [] := by
  simp [lead, h]

theorem lead_cons (h : isSpecial c = false) (t : Text) : lead (c :: t) = c :: lead t := by
  simp [lead, h]

/-- A front without special characters is read off what leads a text. -/
theorem isPrefix_lead_iff
    {front : Text}
    (h : IsPlain front) :
    front <+: lead t ↔ front <+: t := by
  induction t generalizing front with
  | nil => rfl
  | cons c t ih =>
      cases front with
      | nil => simp
      | cons d front =>
          have hd := h d (by simp)
          cases hc : isSpecial c with
          | true =>
              have hne : d ≠ c := by
                intro heq
                rw [heq, hc] at hd
                cases hd
              simp [lead_cons_special hc, hne]
          | false =>
              rw [lead_cons hc, List.cons_prefix_cons, List.cons_prefix_cons,
                ih (List.forall_mem_cons.mp h).2]

/-- A run of ordinary characters is read off what leads a text. -/
theorem takeWhile_lead
    {inClass : Char -> Bool}
    (h : IsOrdinary inClass)
    (t : Text) :
    (lead t).takeWhile inClass = t.takeWhile inClass := by
  induction t with
  | nil => rfl
  | cons c t ih =>
      cases hc : isSpecial c with
      | true => rw [lead_cons_special hc, List.takeWhile_nil, List.takeWhile_cons,
          h.eq_false hc, if_neg Bool.false_ne_true]
      | false => rw [lead_cons hc, List.takeWhile_cons, List.takeWhile_cons, ih]

/-- What follows the run leads what follows it in the text. -/
theorem dropWhile_lead
    {inClass : Char -> Bool}
    (h : IsOrdinary inClass)
    (t : Text) :
    (lead t).dropWhile inClass = lead (t.dropWhile inClass) := by
  induction t with
  | nil => rfl
  | cons c t ih =>
      cases hc : isSpecial c with
      | true => rw [List.dropWhile_cons, h.eq_false hc, if_neg Bool.false_ne_true,
          lead_cons_special hc, List.dropWhile_nil]
      | false =>
          rw [lead_cons hc, List.dropWhile_cons, List.dropWhile_cons, ih]
          split
          · rfl
          · rw [lead_cons hc]

theorem head?_lead_beq {d : Char} (h : isSpecial d = false) (t : Text) :
    ((lead t).head? == some d) = (t.head? == some d) := by
  cases t with
  | nil => rfl
  | cons c t =>
      cases hc : isSpecial c with
      | true =>
          have hne : c ≠ d := by
            rintro rfl
            rw [h] at hc
            cases hc
          simp [lead_cons_special hc, hne]
      | false => rw [lead_cons hc, List.head?_cons, List.head?_cons]

/-- Whether a run of ordinary characters ends at a semicolon. -/
theorem head?_dropWhile_lead
    {inClass : Char -> Bool}
    (h : IsOrdinary inClass)
    (t : Text) :
    (((lead t).dropWhile inClass).head? == some ';') =
      ((t.dropWhile inClass).head? == some ';') := by
  rw [dropWhile_lead h, head?_lead_beq rfl]

theorem isRunThenSemicolon_lead
    {digit : Char -> Bool}
    (h : IsOrdinary digit)
    (t : Text) :
    isRunThenSemicolon digit (lead t) = isRunThenSemicolon digit t := by
  cases t with
  | nil => rfl
  | cons c t =>
      cases hc : isSpecial c with
      | true => simp [lead_cons_special hc, isRunThenSemicolon, h.eq_false hc]
      | false => rw [lead_cons hc, isRunThenSemicolon, isRunThenSemicolon, head?_dropWhile_lead h]

/-- A number sign and what follows it are read in front of the first special character. -/
theorem completesReference_numberSign_lead (t : Text) :
    completesReference ('#' :: lead t) = completesReference ('#' :: t) := by
  cases t with
  | nil => rfl
  | cons c t =>
      have hrun := isRunThenSemicolon_lead isOrdinary_isAsciiDigit (c :: t)
      cases hc : isSpecial c with
      | true =>
          have hx : c ≠ 'x' ∧ c ≠ 'X' := by
            constructor <;>
              · rintro rfl
                cases hc
          rw [lead_cons_special hc] at hrun ⊢
          simpa [completesReference, hx] using hrun
      | false =>
          rw [lead_cons hc] at hrun ⊢
          by_cases hx : c = 'x' ∨ c = 'X'
          · rcases hx with rfl | rfl
            · exact isRunThenSemicolon_lead isOrdinary_isHexDigit t
            · exact isRunThenSemicolon_lead isOrdinary_isHexDigit t
          · rw [not_or] at hx
            simpa [completesReference, hx] using hrun

/-- A reference is read in front of the first special character. -/
theorem completesReference_lead (t : Text) :
    completesReference (lead t) = completesReference t := by
  cases t with
  | nil => rfl
  | cons c t =>
      by_cases hsign : c = '#'
      · rw [hsign, lead_cons rfl, completesReference_numberSign_lead]
      · cases hc : isSpecial c with
        | true =>
            have hletter := isOrdinary_isAsciiLetter.eq_false hc
            simp [lead_cons_special hc, completesReference, hsign, hletter]
        | false =>
            rw [lead_cons hc]
            simp [completesReference, hsign, head?_dropWhile_lead isOrdinary_isWord]

/-!
# Behind the ampersands
-/

/-- What leads the text behind each ampersand has a property. -/
def BehindAmpersands (holds : Text -> Prop) (t : Text) : Prop :=
  forall front back : Text, t = front ++ '&' :: back -> holds (lead back)

section Ampersands

variable {holds : Text -> Prop}

theorem behindAmpersands_nil : BehindAmpersands holds [] := by
  intro front back h
  simp at h

theorem behindAmpersands_cons_iff :
    BehindAmpersands holds (c :: t) ↔
      (c = '&' -> holds (lead t)) ∧ BehindAmpersands holds t := by
  constructor
  · intro h
    constructor
    · intro hc
      exact h [] t (by rw [hc, List.nil_append])
    · intro front back heq
      exact h (c :: front) back (by rw [heq, List.cons_append])
  · rintro ⟨hfirst, hrest⟩ front back heq
    cases front with
    | nil =>
        rw [List.nil_append, List.cons.injEq] at heq
        rw [← heq.2]
        exact hfirst heq.1
    | cons d front =>
        rw [List.cons_append, List.cons.injEq] at heq
        exact hrest front back heq.2

theorem BehindAmpersands.append
    {front : Text}
    (hfront : '&' ∉ front)
    (ht : BehindAmpersands holds t) :
    BehindAmpersands holds (front ++ t) := by
  induction front with
  | nil => exact ht
  | cons c front ih =>
      rw [List.mem_cons, not_or] at hfront
      rw [List.cons_append, behindAmpersands_cons_iff]
      exact ⟨fun hc => absurd hc.symm hfront.1, ih hfront.2⟩

/-- A name stands behind no ampersand exactly when it does not occur with one in front. -/
theorem behindAmpersands_not_isPrefix_iff
    {name : Text}
    (hname : IsPlain name) :
    BehindAmpersands (fun following => ¬ name <+: following) t ↔ ¬ '&' :: name <:+: t := by
  constructor
  · rintro h ⟨front, back, heq⟩
    refine h front (name ++ back) ?_ ((isPrefix_lead_iff hname).mpr (List.prefix_append name back))
    rw [← heq, List.append_assoc, List.cons_append]
  · rintro h front back rfl hbegins
    rcases (isPrefix_lead_iff hname).mp hbegins with ⟨rest, rfl⟩
    exact h ⟨front, rest, by rw [List.append_assoc, List.cons_append]⟩

end Ampersands

/-- Every ampersand begins a reference. -/
def HasReferencesOnly (t : Text) : Prop :=
  BehindAmpersands (fun following => completesReference following = true) t

theorem escapeBareAmpersands_eq_self (h : HasReferencesOnly t) : escapeBareAmpersands t = t := by
  induction t with
  | nil => rfl
  | cons c t ih =>
      rcases behindAmpersands_cons_iff.mp h with ⟨hfirst, hrest⟩
      rw [escapeBareAmpersands, if_neg, ih hrest]
      rintro ⟨hc, hbare⟩
      rw [← completesReference_lead, hfirst hc] at hbare
      cases hbare

end Text
end AndroidStrings
