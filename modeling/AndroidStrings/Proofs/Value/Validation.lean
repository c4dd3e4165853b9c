import AndroidStrings.Proofs.Text.Rewrite
import AndroidStrings.Proofs.Value.Lead
import AndroidStrings.Value.Validation

/-!
# The checks of a value

A value passes when each of its checks does: no backtick stands next to a quote, the entities that
are never let pass do not occur, every ampersand begins a reference that is allowed and ends, and
where both angle brackets occur no attribute is without quotes and the tags nest.

## Main statements

- `checkEntities_eq_ok_iff` : entities are checked behind every ampersand.
- `validate_eq_ok_iff` : the whole check.
-/

namespace AndroidStrings

open CharClass Text

namespace Value

variable {value t : Text}

/-!
## Entities
-/

theorem isOrdinary_isEntityChar : IsOrdinary isEntityChar := by
  decide

/-- A word that a semicolon ends, with what stands in front of it. -/
def endedWord? (sign t : Text) : Option Text :=
  if t.takeWhile isWord ≠ [] ∧ ((t.dropWhile isWord).head? == some ';') = true then
    some (sign ++ t.takeWhile isWord)
  else none

theorem endedWord?_lead (sign t : Text) : endedWord? sign (lead t) = endedWord? sign t := by
  rw [endedWord?, takeWhile_lead isOrdinary_isWord, head?_dropWhile_lead isOrdinary_isWord]
  rfl

theorem endedWord?_eq (sign t : Text) :
    endedWord? sign t =
      match t.takeWhile isWord, t.dropWhile isWord with
      | [], _ => none
      | word, ';' :: _ => some (sign ++ word)
      | _, _ => none := by
  unfold endedWord?
  cases t.takeWhile isWord with
  | nil => simp
  | cons c word =>
      cases t.dropWhile isWord with
      | nil => simp
      | cons d rest =>
          by_cases hend : d = ';'
          · simp [hend]
          · simp [hend]

/-- The number sign in front of the name of an entity, and the rest. -/
def entitySign (t : Text) : Text × Text :=
  match t with
  | '#' :: rest => (['#'], rest)
  | _ => ([], t)

theorem entitySign_of_ne {c : Char} (h : c ≠ '#') (t : Text) :
    entitySign (c :: t) = ([], c :: t) := by
  unfold entitySign
  split
  · rename_i heq
    exact absurd (List.cons.inj heq).1 h
  · rfl

theorem entityName?_eq (t : Text) :
    entityName? t = endedWord? (entitySign t).1 (entitySign t).2 := by
  rw [endedWord?_eq]
  rfl

theorem entityName?_lead (t : Text) : entityName? (lead t) = entityName? t := by
  rw [entityName?_eq, entityName?_eq]
  cases t with
  | nil => rfl
  | cons c t =>
      by_cases hsign : c = '#'
      · rw [hsign, lead_cons rfl]
        exact endedWord?_lead ['#'] t
      · have hword := endedWord?_lead [] (c :: t)
        rw [entitySign_of_ne hsign]
        cases hc : isSpecial c with
        | true =>
            rw [lead_cons_special hc] at hword ⊢
            exact hword
        | false =>
            rw [lead_cons hc] at hword ⊢
            rw [entitySign_of_ne hsign]
            exact hword

theorem entityNames_cons (c : Char) (t : Text) :
    entityNames (c :: t) =
      match if c = '&' then entityName? t else none with
      | some name => name :: entityNames t
      | none => entityNames t :=
  rfl

/-- Leaving out repetitions leaves nothing only where there is nothing. -/
theorem foldl_eq_nil_iff {names seen : List Text} :
    names.foldl (fun seen name => if seen.contains name then seen else seen ++ [name]) seen = [] ↔
      seen = [] ∧ names = [] := by
  induction names generalizing seen with
  | nil => simp
  | cons name names ih =>
      have hne : (if seen.contains name then seen else seen ++ [name]) ≠ [] := by
        split
        · rintro rfl
          contradiction
        · simp
      rw [List.foldl_cons, ih]
      exact ⟨fun hboth => absurd hboth.1 hne, fun hboth => by cases hboth.2⟩

theorem invalidEntities_eq_nil_iff :
    invalidEntities value = [] ↔
      forall name, name ∈ entityNames value -> isAllowedEntity name = true := by
  simp only [invalidEntities, List.map_eq_nil_iff, foldl_eq_nil_iff, List.filter_eq_nil_iff,
    true_and]
  simp

theorem forall_mem_entityNames_iff :
    (forall name, name ∈ entityNames t -> isAllowedEntity name = true) ↔
      BehindAmpersands (fun following => forall name, entityName? following = some name ->
        isAllowedEntity name = true) t := by
  induction t with
  | nil => simp [entityNames, behindAmpersands_nil]
  | cons c t ih =>
      rw [entityNames_cons, behindAmpersands_cons_iff, ← ih, entityName?_lead]
      by_cases hc : c = '&'
      · cases hname : entityName? t with
        | none => simp [hc]
        | some name => simp [hc]
      · simp [hc]

theorem unterminatedEntity?_eq_none_iff :
    unterminatedEntity? t = none ↔
      BehindAmpersands (fun following => following.takeWhile isEntityChar ≠ [] ->
        (following.dropWhile isEntityChar).head? = some ';') t := by
  induction t with
  | nil => simp [unterminatedEntity?, behindAmpersands_nil]
  | cons c t ih =>
      have hended := head?_dropWhile_lead isOrdinary_isEntityChar t
      rw [Bool.eq_iff_iff, beq_iff_eq, beq_iff_eq] at hended
      rw [behindAmpersands_cons_iff, ← ih, takeWhile_lead isOrdinary_isEntityChar, hended,
        unterminatedEntity?]
      by_cases hc : c = '&'
      · by_cases hword : t.takeWhile isEntityChar = []
        · simp [hword]
        · by_cases hend : (t.dropWhile isEntityChar).head? = some ';'
          · simp [hend]
          · simp [hc, hword, hend]
      · simp [hc]

/-- A reference behind an ampersand that the check lets pass. -/
structure IsSound (following : Text) : Prop where
  allowed : forall name, entityName? following = some name -> isAllowedEntity name = true
  ended : following.takeWhile isEntityChar ≠ [] ->
    (following.dropWhile isEntityChar).head? = some ';'

/-- Entities are checked behind every ampersand. -/
theorem checkEntities_eq_ok_iff :
    checkEntities value = .ok () ↔ BehindAmpersands IsSound value := by
  have hboth : checkEntities value = .ok () ↔
      invalidEntities value = [] ∧ unterminatedEntity? value = none := by
    unfold checkEntities
    split
    · rename_i hallowed
      rw [hallowed]
      split
      · rename_i hended
        simp [hended]
      · rename_i hended
        simp [hended]
    · rename_i entities hinvalid
      constructor
      · intro h
        cases h
      · rintro ⟨hallowed, _⟩
        exact absurd hallowed hinvalid
  rw [hboth, invalidEntities_eq_nil_iff, forall_mem_entityNames_iff,
    unterminatedEntity?_eq_none_iff]
  constructor
  · rintro ⟨hallowed, hended⟩ front back heq
    exact ⟨hallowed front back heq, hended front back heq⟩
  · intro h
    exact ⟨fun front back heq => (h front back heq).allowed,
      fun front back heq => (h front back heq).ended⟩

/-!
## Backticks
-/

/-- A backtick next to a quote. -/
def backtickPairs : List Text :=
  [['`', '"'], ['"', '`'], ['`', '\''], ['\'', '`']]

theorem hasBacktickEscape_iff :
    hasBacktickEscape value = true ↔ exists pair, pair ∈ backtickPairs ∧ pair <:+: value := by
  simp [hasBacktickEscape, backtickPairs, contains_iff_isInfix, or_assoc]

/-!
## The whole check
-/

/-- Names of entities that are never let pass. -/
def refusedNames : List Text :=
  ["pos;".toList, "quot;".toList, "apos;".toList]

def hasAngles (value : Text) : Bool :=
  List.contains value '<' && List.contains value '>'

theorem checkMarkup_eq_ok_iff :
    checkMarkup value = .ok () ↔
      unquotedAttribute? value = none ∧ checkNesting [] (tags value) = .ok () := by
  unfold checkMarkup
  split
  · rename_i assignment hassignment
    simp [hassignment]
  · rename_i hnone
    simp [hnone]

theorem validate_eq_ok_iff :
    validate value = .ok () ↔
      hasBacktickEscape value = false ∧
        (forall name, name ∈ refusedNames -> ¬ '&' :: name <:+: value) ∧
        (hasAngles value = true ->
          unquotedAttribute? value = none ∧ checkNesting [] (tags value) = .ok ()) ∧
        checkEntities value = .ok () := by
  have hnames : (forall name, name ∈ refusedNames -> ¬ '&' :: name <:+: value) ↔
      value.contains "&pos;".toList = false ∧ value.contains "&quot;".toList = false ∧
        value.contains "&apos;".toList = false := by
    simp [refusedNames, Bool.eq_false_iff, contains_iff_isInfix]
  have hangles : (List.contains value '<' && List.contains value '>') = hasAngles value := rfl
  rw [hnames, ← checkMarkup_eq_ok_iff, validate, hangles]
  cases hasBacktickEscape value with
  | true => simp
  | false =>
      cases value.contains "&pos;".toList with
      | true => simp
      | false =>
          cases value.contains "&quot;".toList with
          | true => simp
          | false =>
              cases value.contains "&apos;".toList with
              | true => simp
              | false =>
                  cases hasAngles value with
                  | false => simp
                  | true => cases checkMarkup value <;> simp

end Value
end AndroidStrings
