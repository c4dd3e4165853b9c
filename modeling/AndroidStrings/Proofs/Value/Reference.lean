import AndroidStrings.Proofs.Markup.Attribute
import AndroidStrings.Proofs.Text.CharClass
import AndroidStrings.Proofs.Value.Validation

/-!
# References of a checked value

A value is searched for references twice: once for names between an ampersand and a semicolon, of
which only some are allowed, and once for runs of letters, digits, underscores and number signs that
no semicolon ends.  A name is a word, perhaps behind one number sign.  A run may be more than this:
it may be a number sign alone, have a number sign further behind, or hold a number such as `²` that
is in no word.  Such a run with a semicolon behind it is found by neither of the two searches, and
everything else behind an ampersand is an allowed reference or no reference at all.

## Main statement

`isReference_iff` : which ampersands of a value that passes the checks begin a reference.
-/

namespace AndroidStrings

open CharClass Text

namespace Value

variable {value t name : Text}

/-!
# What may stand behind an ampersand
-/

/-- No character of a reference stands behind the ampersand. -/
def IsBare (t : Text) : Prop :=
  Stops isEntityChar t

/-- The names of the references that are allowed. -/
inductive IsAllowedName : Text -> Prop where
  | amp : IsAllowedName "amp".toList
  | lt : IsAllowedName "lt".toList
  | gt : IsAllowedName "gt".toList
  | decimal {digits : Text} :
      IsRun isAsciiDigit digits ->
      IsAllowedName ('#' :: digits)
  | hexadecimal {mark : Char} {digits : Text} :
      mark = 'x' ∨ mark = 'X' ->
      IsRun isHexDigit digits ->
      IsAllowedName ('#' :: mark :: digits)

/-- An allowed name and a semicolon stand behind the ampersand. -/
def IsReference (t : Text) : Prop :=
  exists name rest : Text, IsAllowedName name ∧ t = name ++ ';' :: rest

/-- A word, perhaps behind a number sign. -/
def IsName (name : Text) : Prop :=
  exists word : Text, IsRun isWord word ∧ (name = word ∨ name = '#' :: word)

/-- A run of characters of references that a semicolon ends, and that is no name. -/
def IsOverlooked (t : Text) : Prop :=
  exists run rest : Text, t = run ++ ';' :: rest ∧ IsRun isEntityChar run ∧ ¬ IsName run

/-!
# Names
-/

theorem IsName.not_mem (h : IsName name) : ';' ∉ name := by
  rcases h with ⟨word, hword, rfl | rfl⟩
  · exact hword.not_mem (by decide)
  · rw [List.mem_cons, not_or]
    exact ⟨by decide, hword.not_mem (by decide)⟩

/-- A word with a semicolon behind it is read as it stands. -/
theorem endedWord?_append
    {word : Text}
    (hword : IsRun isWord word)
    (sign rest : Text) :
    endedWord? sign (word ++ ';' :: rest) = some (sign ++ word) := by
  have hstops : Stops isWord (';' :: rest) := stops_cons (by decide) rest
  rw [endedWord?, takeWhile_append_of_stops hword.forall_mem hstops,
    dropWhile_append_of_stops hword.forall_mem hstops, if_pos ⟨hword.ne_nil, rfl⟩]

theorem exists_of_endedWord?
    {sign : Text}
    (h : endedWord? sign t = some name) :
    exists word rest : Text,
      IsRun isWord word ∧ name = sign ++ word ∧ t = word ++ ';' :: rest := by
  unfold endedWord? at h
  split at h
  · rename_i hended
    rcases hended with ⟨hne, hend⟩
    rcases List.head?_eq_some_iff.mp (beq_iff_eq.mp hend) with ⟨rest, hrest⟩
    refine ⟨_, rest, isRun_takeWhile hne, (Option.some.inj h).symm, ?_⟩
    rw [← hrest, List.takeWhile_append_dropWhile]
  · cases h

theorem entitySign_append (t : Text) : (entitySign t).1 ++ (entitySign t).2 = t := by
  unfold entitySign
  split <;> rfl

theorem entitySign_fst (t : Text) : (entitySign t).1 = [] ∨ (entitySign t).1 = ['#'] := by
  unfold entitySign
  split
  · exact .inr rfl
  · exact .inl rfl

theorem entityName?_eq_some_iff :
    entityName? t = some name ↔ IsName name ∧ exists rest : Text, t = name ++ ';' :: rest := by
  rw [entityName?_eq]
  constructor
  · intro h
    rcases exists_of_endedWord? h with ⟨word, rest, hword, hname, hsplit⟩
    have hwhole : t = name ++ ';' :: rest := by
      rw [hname, List.append_assoc, ← hsplit, entitySign_append]
    rcases entitySign_fst t with hsign | hsign <;> rw [hsign] at hname
    · exact ⟨⟨word, hword, .inl hname⟩, rest, hwhole⟩
    · exact ⟨⟨word, hword, .inr hname⟩, rest, hwhole⟩
  · rintro ⟨⟨word, hword, rfl | rfl⟩, rest, rfl⟩
    · rcases List.exists_cons_of_ne_nil hword.ne_nil with ⟨c, word, rfl⟩
      have hsign : c ≠ '#' := by
        rintro rfl
        exact hword.not_mem (by decide) List.mem_cons_self
      rw [List.cons_append, entitySign_of_ne hsign]
      exact endedWord?_append hword [] rest
    · exact endedWord?_append hword ['#'] rest

theorem isAllowedEntity_decimal
    {c : Char}
    (hx : c ≠ 'x')
    (hX : c ≠ 'X')
    (t : Text) :
    isAllowedEntity ('#' :: c :: t) = (c :: t).all isAsciiDigit := by
  simp [isAllowedEntity, hx, hX]

theorem isAllowedEntity_iff : isAllowedEntity name = true ↔ IsAllowedName name := by
  constructor
  · intro h
    unfold isAllowedEntity at h
    split at h
    · exact .amp
    · exact .lt
    · exact .gt
    · rw [Bool.and_eq_true, List.all_eq_true] at h
      exact .hexadecimal (.inl rfl) ⟨by simpa using h.1, h.2⟩
    · rw [Bool.and_eq_true, List.all_eq_true] at h
      exact .hexadecimal (.inr rfl) ⟨by simpa using h.1, h.2⟩
    · rw [Bool.and_eq_true, List.all_eq_true] at h
      exact .decimal ⟨by simpa using h.1, h.2⟩
    · cases h
  · intro h
    cases h with
    | amp => rfl
    | lt => rfl
    | gt => rfl
    | decimal hdigits =>
        rcases List.exists_cons_of_ne_nil hdigits.ne_nil with ⟨c, digits, rfl⟩
        have hmark : c ≠ 'x' ∧ c ≠ 'X' := by
          constructor <;>
            · rintro rfl
              exact hdigits.not_mem (by decide) List.mem_cons_self
        rw [isAllowedEntity_decimal hmark.1 hmark.2, List.all_eq_true]
        exact hdigits.forall_mem
    | @hexadecimal mark digits hmark hdigits =>
        have hboth : (!digits.isEmpty && digits.all isHexDigit) = true := by
          rw [Bool.and_eq_true, List.all_eq_true]
          exact ⟨by simpa using hdigits.ne_nil, hdigits.forall_mem⟩
        rcases hmark with rfl | rfl
        · exact hboth
        · exact hboth

theorem IsAllowedName.isName (h : IsAllowedName name) : IsName name := by
  cases h with
  | amp => exact ⟨"amp".toList, ⟨by decide, List.all_eq_true.mp (by decide)⟩, .inl rfl⟩
  | lt => exact ⟨"lt".toList, ⟨by decide, List.all_eq_true.mp (by decide)⟩, .inl rfl⟩
  | gt => exact ⟨"gt".toList, ⟨by decide, List.all_eq_true.mp (by decide)⟩, .inl rfl⟩
  | @decimal digits hdigits =>
      refine ⟨digits, ⟨hdigits.ne_nil, ?_⟩, .inr rfl⟩
      intro c hc
      apply isWord_of_isAsciiAlphanumeric
      rw [isAsciiAlphanumeric, hdigits.forall_mem c hc, Bool.or_true]
  | @hexadecimal mark digits hmark hdigits =>
      refine ⟨mark :: digits, ⟨List.cons_ne_nil _ _, ?_⟩, .inr rfl⟩
      rw [List.forall_mem_cons]
      constructor
      · rcases hmark with rfl | rfl <;> decide
      · intro c hc
        apply isWord_of_isAsciiAlphanumeric
        exact isAsciiAlphanumeric_of_isHexDigit (hdigits.forall_mem c hc)

/-!
# The two searches
-/

theorem isSound_lead_iff : IsSound (lead t) ↔ IsSound t := by
  have hended := head?_dropWhile_lead isOrdinary_isEntityChar t
  rw [Bool.eq_iff_iff, beq_iff_eq, beq_iff_eq] at hended
  constructor
  · rintro ⟨hallowed, hend⟩
    rw [entityName?_lead] at hallowed
    rw [takeWhile_lead isOrdinary_isEntityChar, hended] at hend
    exact ⟨hallowed, hend⟩
  · rintro ⟨hallowed, hend⟩
    rw [← entityName?_lead] at hallowed
    rw [← takeWhile_lead isOrdinary_isEntityChar, ← hended] at hend
    exact ⟨hallowed, hend⟩

/-- What is overlooked is a run of characters of references, and no reference. -/
theorem IsOverlooked.not_isReference (h : IsOverlooked t) : ¬ (IsBare t ∨ IsReference t) := by
  rcases h with ⟨run, rest, rfl, hrun, hnot⟩
  have hsemicolon : ';' ∉ run := hrun.not_mem (by decide)
  rintro (hbare | ⟨name, rest', hallowed, heq⟩)
  · rcases List.exists_cons_of_ne_nil hrun.ne_nil with ⟨c, run', rfl⟩
    exact hrun.not_mem (hbare c rfl) List.mem_cons_self
  · rw [(Markup.eq_of_append_cons_eq heq hsemicolon hallowed.isName.not_mem).1] at hnot
    exact hnot hallowed.isName

theorem IsSound.isBare_or_isReference_iff
    (h : IsSound t) :
    IsBare t ∨ IsReference t ↔ ¬ IsOverlooked t := by
  constructor
  · exact fun hfine hoverlooked => hoverlooked.not_isReference hfine
  · intro hnot
    by_cases hne : t.takeWhile isEntityChar = []
    · left
      intro c hc
      rcases List.head?_eq_some_iff.mp hc with ⟨rest, rfl⟩
      rw [Bool.eq_false_iff]
      intro hentity
      rw [List.takeWhile_cons_of_pos hentity] at hne
      cases hne
    · right
      rcases List.head?_eq_some_iff.mp (h.ended hne) with ⟨rest, hrest⟩
      have hsplit : t = t.takeWhile isEntityChar ++ ';' :: rest := by
        rw [← hrest, List.takeWhile_append_dropWhile]
      -- The run is a name, so the search for names has found it and it is allowed.
      have hname : IsName (t.takeWhile isEntityChar) := by
        by_contra hother
        exact hnot ⟨_, rest, hsplit, isRun_takeWhile hne, hother⟩
      have hfound := entityName?_eq_some_iff.mpr ⟨hname, rest, hsplit⟩
      exact ⟨_, rest, isAllowedEntity_iff.mp (h.allowed _ hfound), hsplit⟩

/-- In a value that passes the checks, an ampersand stands alone or begins an allowed reference
exactly when what is behind it is not overlooked. -/
theorem isReference_iff
    {front back : Text}
    (h : validate value = .ok ())
    (heq : value = front ++ '&' :: back) :
    IsBare back ∨ IsReference back ↔ ¬ IsOverlooked back := by
  have hentities := (validate_eq_ok_iff.mp h).2.2.2
  have hsound := checkEntities_eq_ok_iff.mp hentities front back heq
  exact (isSound_lead_iff.mp hsound).isBare_or_isReference_iff

theorem isReference_iff_copyright :
    validate "&amp; &#169;".toList = .ok () ∧
      (IsBare "#169;".toList ∨ IsReference "#169;".toList ↔ ¬ IsOverlooked "#169;".toList) := by
  have h : validate "&amp; &#169;".toList = .ok () := by
    decide +kernel
  exact ⟨h, @isReference_iff _ "&amp; ".toList "#169;".toList h rfl⟩

/-- A number sign without digits passes the checks, although it is closed by a semicolon. -/
theorem not_isReference_numberSign :
    validate "&#;".toList = .ok () ∧ ¬ (IsBare "#;".toList ∨ IsReference "#;".toList) := by
  refine ⟨by decide +kernel, ?_⟩
  apply IsOverlooked.not_isReference
  refine ⟨['#'], [], rfl, ⟨List.cons_ne_nil _ _, List.all_eq_true.mp (by decide)⟩, ?_⟩
  rintro ⟨word, hword, hname | hname⟩
  · rw [← hname] at hword
    exact hword.not_mem (by decide) List.mem_cons_self
  · exact hword.ne_nil (List.cons.inj hname).2.symm

end Value
end AndroidStrings
