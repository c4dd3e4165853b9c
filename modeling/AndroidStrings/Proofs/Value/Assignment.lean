import AndroidStrings.Proofs.Text.CharClass
import AndroidStrings.Proofs.Value.Piece
import AndroidStrings.Proofs.Value.Validation

/-!
# Assignments without quotes

The check for unquoted attributes looks for white space, a word, an equals sign and a value that
does not begin with a quote, and takes the value up to the next white space or `>`.  It goes over
the whole text, and finds the first place where such an assignment begins, whatever the place is.

## Main statements

- `unquotedAttribute?_eq_none_iff` : nothing is found where no assignment begins.
- `exists_of_unquotedAttribute?` : what is found is the first assignment.
-/

namespace AndroidStrings

open CharClass

namespace Value

variable {value t a back front : Text} {c : Char}

/-!
# Assignments
-/

/-- The first character of a value without quotes. -/
def isValueStart (c : Char) : Bool :=
  !(isWhiteSpace c || c == '"' || c == '\'' || c == '>')

def isValueRest (c : Char) : Bool :=
  !isWhiteSpace c && c != '>'

def IsAssignment (a : Text) : Prop :=
  exists (word : Text) (first : Char) (rest : Text),
    a = word ++ '=' :: first :: rest ∧ IsRun isWord word ∧ isValueStart first = true ∧
      forall c, c ∈ rest -> isValueRest c = true

/-- The text begins with white space and an assignment. -/
def Assigns (t a : Text) : Prop :=
  exists blank back : Text,
    t = blank ++ (a ++ back) ∧ IsRun isWhiteSpace blank ∧ IsAssignment a ∧ Stops isValueRest back

/-- An assignment begins behind this part of the value. -/
def AssignsBehind (value front : Text) : Prop :=
  exists t a : Text, value = front ++ t ∧ Assigns t a

/-- The first assignment of a value, and what stands in front of it. -/
def IsFirstAssignment (value front a : Text) : Prop :=
  (exists t : Text, value = front ++ t ∧ Assigns t a) ∧
    forall earlier : Text, AssignsBehind value earlier -> front.length ≤ earlier.length

/-!
# Reading an assignment
-/

theorem IsAssignment.stops_isWhiteSpace
    (h : IsAssignment a)
    (back : Text) :
    Stops isWhiteSpace (a ++ back) := by
  rcases h with ⟨word, first, rest, rfl, hword, _, _⟩
  rcases List.exists_cons_of_ne_nil hword.ne_nil with ⟨d, word, rfl⟩
  intro c hc
  cases hc
  rw [Bool.eq_false_iff]
  intro hspace
  exact hword.not_mem (isWord_eq_false_of_isWhiteSpace hspace) List.mem_cons_self

theorem attributeAfterSpace_eq_some_iff :
    attributeAfterSpace t = some a ↔
      exists back : Text, t = a ++ back ∧ IsAssignment a ∧ Stops isValueRest back := by
  constructor
  · intro h
    simp only [attributeAfterSpace] at h
    have hsplit := List.takeWhile_append_dropWhile (p := isWord) (l := t)
    split at h
    · rename_i d word first rest hfirst hrest
      have hword : IsRun isWord (t.takeWhile isWord) :=
        isRun_takeWhile (by rw [hfirst]; exact List.cons_ne_nil _ _)
      rw [hfirst, hrest] at hsplit
      rw [hfirst] at hword h
      split at h
      · cases h
      · rename_i hstart
        rw [← Option.some.inj h]
        refine ⟨rest.dropWhile isValueRest, ?_, ?_, stops_dropWhile isValueRest rest⟩
        · rw [← hsplit, List.append_assoc]
          exact congrArg (d :: word ++ '=' :: first :: ·) List.takeWhile_append_dropWhile.symm
        · refine ⟨d :: word, first, _, rfl, hword, ?_, fun c hc => List.mem_takeWhile_imp hc⟩
          simpa [isValueStart] using hstart
    · cases h
  · rintro ⟨back, rfl, ⟨word, first, rest, rfl, hword, hfirst, hrest⟩, hstops⟩
    have hequals : Stops isWord ('=' :: first :: (rest ++ back)) := stops_cons (by decide) _
    have hstart :
        (isWhiteSpace first || first == '"' || first == '\'' || first == '>') = false := by
      simpa [isValueStart] using hfirst
    have hvalue := takeWhile_append_of_stops hrest hstops
    rw [attributeAfterSpace, List.append_assoc, List.cons_append, List.cons_append,
      takeWhile_append_of_stops hword.forall_mem hequals,
      dropWhile_append_of_stops hword.forall_mem hequals]
    rcases List.exists_cons_of_ne_nil hword.ne_nil with ⟨d, word, rfl⟩
    simp only [hstart, Bool.false_eq_true, if_false]
    exact congrArg (fun value => some (d :: word ++ '=' :: first :: value)) hvalue

/-- The assignment behind the white space at the front of a text. -/
def assignment? (t : Text) : Option Text :=
  match t with
  | [] => none
  | c :: rest =>
      if isWhiteSpace c then attributeAfterSpace (rest.dropWhile isWhiteSpace) else none

theorem assignment?_eq_some_iff : assignment? t = some a ↔ Assigns t a := by
  constructor
  · intro h
    unfold assignment? at h
    split at h
    · cases h
    · rename_i c rest
      split at h
      · rename_i hc
        rcases attributeAfterSpace_eq_some_iff.mp h with ⟨back, hsplit, ha, hstops⟩
        refine ⟨c :: rest.takeWhile isWhiteSpace, back, ?_, ⟨List.cons_ne_nil _ _, ?_⟩, ha, hstops⟩
        · rw [← hsplit, List.cons_append, List.takeWhile_append_dropWhile]
        · rw [List.forall_mem_cons]
          exact ⟨hc, fun d hd => List.mem_takeWhile_imp hd⟩
      · cases h
  · rintro ⟨blank, back, rfl, ⟨hne, hblank⟩, ha, hstops⟩
    rcases List.exists_cons_of_ne_nil hne with ⟨c, blank, rfl⟩
    rw [List.forall_mem_cons] at hblank
    rw [List.cons_append, assignment?, if_pos hblank.1,
      dropWhile_append_of_stops hblank.2 (ha.stops_isWhiteSpace back)]
    exact attributeAfterSpace_eq_some_iff.mpr ⟨back, rfl, ha, hstops⟩

theorem unquotedAttribute?_cons (c : Char) (t : Text) :
    unquotedAttribute? (c :: t) = (assignment? (c :: t)).or (unquotedAttribute? t) := by
  rw [unquotedAttribute?, assignment?]
  split
  · rename_i found hfound
    rw [hfound]
    rfl
  · rename_i hnone
    rw [hnone]
    rfl

/-!
# The first assignment
-/

theorem assignsBehind_cons_iff :
    AssignsBehind (c :: t) front ↔
      (front = [] ∧ exists a : Text, Assigns (c :: t) a) ∨
        exists rest : Text, front = c :: rest ∧ AssignsBehind t rest := by
  constructor
  · rintro ⟨behind, a, heq, ha⟩
    cases front with
    | nil =>
        rw [List.nil_append] at heq
        exact .inl ⟨rfl, a, heq ▸ ha⟩
    | cons d front =>
        rw [List.cons_append, List.cons.injEq] at heq
        exact .inr ⟨front, by rw [heq.1], behind, a, heq.2, ha⟩
  · rintro (⟨rfl, a, ha⟩ | ⟨rest, rfl, behind, a, rfl, ha⟩)
    · exact ⟨c :: t, a, rfl, ha⟩
    · exact ⟨behind, a, rfl, ha⟩

theorem not_assignsBehind_nil (front : Text) : ¬ AssignsBehind [] front := by
  rintro ⟨t, a, heq, blank, back, hsplit, ⟨hne, _⟩, _⟩
  rw [(List.append_eq_nil_iff.mp heq.symm).2] at hsplit
  exact hne (List.append_eq_nil_iff.mp hsplit.symm).1

/-- Nothing is found where no assignment begins. -/
theorem unquotedAttribute?_eq_none_iff :
    unquotedAttribute? value = none ↔ forall front : Text, ¬ AssignsBehind value front := by
  induction value with
  | nil => exact ⟨fun _ => not_assignsBehind_nil, fun _ => rfl⟩
  | cons c t ih =>
      rw [unquotedAttribute?_cons, Option.or_eq_none_iff, ih, Option.eq_none_iff_forall_ne_some]
      simp only [ne_eq, assignment?_eq_some_iff]
      constructor
      · rintro ⟨hfirst, hrest⟩ front hbehind
        rcases assignsBehind_cons_iff.mp hbehind with ⟨_, a, ha⟩ | ⟨rest, _, hlater⟩
        · exact hfirst a ha
        · exact hrest rest hlater
      · intro hnone
        constructor
        · intro a ha
          exact hnone [] (assignsBehind_cons_iff.mpr (.inl ⟨rfl, a, ha⟩))
        · intro rest hlater
          exact hnone (c :: rest) (assignsBehind_cons_iff.mpr (.inr ⟨rest, rfl, hlater⟩))

/-- What is found is the first assignment. -/
theorem exists_of_unquotedAttribute?
    (h : unquotedAttribute? value = some a) :
    exists front : Text, IsFirstAssignment value front a := by
  induction value with
  | nil => cases h
  | cons c t ih =>
      rw [unquotedAttribute?_cons, Option.or_eq_some_iff] at h
      rcases h with hfound | ⟨hnone, hlater⟩
      · exact ⟨[], ⟨c :: t, rfl, assignment?_eq_some_iff.mp hfound⟩, fun _ _ => Nat.zero_le _⟩
      · rcases ih hlater with ⟨front, ⟨behind, rfl, ha⟩, hfirst⟩
        refine ⟨c :: front, ⟨behind, rfl, ha⟩, ?_⟩
        intro earlier hearlier
        rcases assignsBehind_cons_iff.mp hearlier with ⟨_, a', ha'⟩ | ⟨rest, rfl, hrest⟩
        · rw [assignment?_eq_some_iff.mpr ha'] at hnone
          cases hnone
        · exact Nat.succ_le_succ (hfirst rest hrest)

end Value
end AndroidStrings
