import AndroidStrings.Proofs.Value.Assignment
import Mathlib.Logic.Relation

/-!
# Nesting of tags

Tags that end in `/>` stand for themselves; the others open a name or close one.  They nest when
they are made of pairs, each with nested tags between the two and behind them.  A pair with nothing
between its tags can be cancelled, and this does not change what the check says, for it opens the
name and closes it again.  When only opening tags are left, their names are the ones that the check
has open, so the next closing tag is compared with the last of them.

## Main statements

- `checkDelimiters_of_leaves` : the names that are open are those of the tags that are left.
- `nested_iff_leaves_nil` : tags nest when nothing is left of them.
- `checkMarkup_eq_iff` : the check of a value is decided by the nesting of its tags.
-/

namespace AndroidStrings
namespace Value

/-- A tag that opens or closes its name. -/
inductive Delimiter where
  | opening (name : Text)
  | closing (name : Text)

def Delimiter.tag : Delimiter -> Tag
  | opening name => .opening name
  | closing name => .closing name

/-- What a tag is for nesting; nothing when it ends in `/>`. -/
def WrittenTag.delimiter? (w : WrittenTag) : Option Delimiter :=
  if w.IsSelfClosing then none
  else if w.slash then some (.closing w.name)
  else some (.opening w.name)

def Piece.delimiter? : Piece -> Option Delimiter
  | char _ => none
  | tag w => w.delimiter?

def checkDelimiters (opened : List Text) (ds : List Delimiter) : Except ValueIssue Unit :=
  checkNesting opened (ds.map Delimiter.tag)

variable {ds ds' front back : List Delimiter} {name : Text} {names opened : List Text}

/-!
# Pairs of tags
-/

/-- Tags made of pairs. -/
inductive Nested : List Delimiter -> Prop where
  | nil : Nested []
  | pair {name : Text} {inside behind : List Delimiter} :
      Nested inside ->
      Nested behind ->
      Nested (.opening name :: (inside ++ .closing name :: behind))

/-- One pair of tags next to each other is cancelled. -/
inductive CancelsPair : List Delimiter -> List Delimiter -> Prop where
  | pair (front : List Delimiter) (name : Text) (back : List Delimiter) :
      CancelsPair (front ++ .opening name :: .closing name :: back) (front ++ back)

def Cancels (ds ds' : List Delimiter) : Prop :=
  Relation.ReflTransGen CancelsPair ds ds'

/-- Cancelling pairs leaves opening tags of these names, from the outermost one on. -/
def Leaves (ds : List Delimiter) (names : List Text) : Prop :=
  Cancels ds (names.map .opening)

theorem checkDelimiters_cancelsPair
    (h : CancelsPair ds ds')
    (opened : List Text) :
    checkDelimiters opened ds = checkDelimiters opened ds' := by
  cases h with
  | pair front name back =>
      induction front generalizing opened with
      | nil => simp [checkDelimiters, checkNesting, Delimiter.tag]
      | cons d front ih =>
          cases d with
          | opening other => exact ih (other :: opened)
          | closing other =>
              cases opened with
              | nil => rfl
              | cons innermost outer =>
                  have hrest := ih outer
                  simp only [checkDelimiters, List.cons_append, List.map_cons, Delimiter.tag,
                    checkNesting] at hrest ⊢
                  rw [hrest]

theorem Cancels.checkDelimiters_eq
    (h : Cancels ds ds')
    (opened : List Text) :
    checkDelimiters opened ds = checkDelimiters opened ds' := by
  induction h with
  | refl => rfl
  | tail _ hpair ih => rw [ih, checkDelimiters_cancelsPair hpair]

theorem CancelsPair.append
    (h : CancelsPair ds ds')
    (front back : List Delimiter) :
    CancelsPair (front ++ (ds ++ back)) (front ++ (ds' ++ back)) := by
  cases h with
  | pair inner name rest =>
      have hpair := CancelsPair.pair (front ++ inner) name (rest ++ back)
      simpa using hpair

theorem Cancels.append
    (h : Cancels ds ds')
    (front back : List Delimiter) :
    Cancels (front ++ (ds ++ back)) (front ++ (ds' ++ back)) :=
  h.lift (fun ds => front ++ (ds ++ back)) fun _ _ hpair => hpair.append front back

theorem checkDelimiters_openings
    (names opened : List Text) (back : List Delimiter) :
    checkDelimiters opened (names.map .opening ++ back) =
      checkDelimiters (names.reverse ++ opened) back := by
  induction names generalizing opened with
  | nil => rfl
  | cons name names ih =>
      rw [List.reverse_cons, List.append_assoc, List.singleton_append, ← ih]
      rfl

/-- The names that are open are those of the tags that are left. -/
theorem checkDelimiters_of_leaves
    (h : Leaves front names)
    (back : List Delimiter) :
    checkDelimiters [] (front ++ back) = checkDelimiters names.reverse back := by
  have hcancels := (Cancels.append h [] back).checkDelimiters_eq []
  rwa [List.nil_append, List.nil_append, checkDelimiters_openings, List.append_nil] at hcancels

/-!
# Nested tags
-/

/-- A pair can be put into nested tags anywhere. -/
theorem Nested.of_cancelsPair
    (h : CancelsPair ds ds')
    (hnested : Nested ds') :
    Nested ds := by
  cases h with
  | pair front name back =>
      generalize hwhole : front ++ back = whole at hnested
      induction hnested generalizing front back with
      | nil =>
          rcases List.append_eq_nil_iff.mp hwhole with ⟨rfl, rfl⟩
          exact .pair .nil .nil
      | @pair other inside behind hinside hbehind ihinside ihbehind =>
          cases front with
          | nil =>
              rw [List.nil_append] at hwhole
              rw [hwhole]
              exact .pair .nil (.pair hinside hbehind)
          | cons d front =>
              rw [List.cons_append, List.cons.injEq] at hwhole
              rcases hwhole with ⟨rfl, hwhole⟩
              rcases List.append_eq_append_iff.mp hwhole with
                ⟨rest, hin, hback⟩ | ⟨rest, hin, hclose⟩
              · have hmore := @Nested.pair other _ _ (ihinside front rest hin.symm) hbehind
                rw [hback]
                simpa using hmore
              · cases rest with
                | nil =>
                    rw [List.append_nil] at hin
                    have hmore := @Nested.pair other _ _ (ihinside front [] (by simp [hin])) hbehind
                    rw [List.nil_append] at hclose
                    rw [← hclose]
                    simpa using hmore
                | cons d rest =>
                    rw [List.cons_append, List.cons.injEq] at hclose
                    rcases hclose with ⟨rfl, hclose⟩
                    have hmore := @Nested.pair other _ _ hinside (ihbehind rest back hclose.symm)
                    rw [hin]
                    simpa using hmore

theorem leaves_nil_of_nested (h : Nested ds) : Leaves ds [] := by
  induction h with
  | nil => exact .refl
  | @pair name inside behind _ _ ihinside ihbehind =>
      have hinside := Cancels.append ihinside [.opening name] (.closing name :: behind)
      have hpair : CancelsPair (.opening name :: .closing name :: behind) behind :=
        .pair [] name behind
      exact (hinside.tail hpair).trans ihbehind

theorem nested_iff_leaves_nil : Nested ds ↔ Leaves ds [] := by
  constructor
  · exact leaves_nil_of_nested
  · intro h
    refine h.head_induction_on .nil ?_
    intro ds ds' hpair _ hnested
    exact hnested.of_cancelsPair hpair

/-!
# The first closing tag that fails
-/

/-- A closing tag of this name fails behind these tags: nothing is left of them, or the last tag
that is left has another name. -/
def Fails (front : List Delimiter) (name : Text) : Prop :=
  exists names : List Text, Leaves front names ∧ names.getLast? ≠ some name

def NoneFails (ds : List Delimiter) : Prop :=
  forall (front : List Delimiter) (name : Text) (back : List Delimiter),
    ds = front ++ .closing name :: back -> ¬ Fails front name

/-- The verdict on tags. -/
inductive Verdict (ds : List Delimiter) : Except ValueIssue Unit -> Prop where
  | nested :
      Nested ds ->
      Verdict ds (.ok ())
  | unexpected {front : List Delimiter} {name : Text} {back : List Delimiter} :
      ds = front ++ .closing name :: back ->
      NoneFails front ->
      Leaves front [] ->
      Verdict ds (.error (.unexpectedClosingTag name))
  | mismatched {front : List Delimiter} {outer : List Text} {opened name : Text}
      {back : List Delimiter} :
      ds = front ++ .closing name :: back ->
      NoneFails front ->
      Leaves front (outer ++ [opened]) ->
      opened ≠ name ->
      Verdict ds (.error (.mismatchedTags opened name))
  | unclosed {names : List Text} :
      NoneFails ds ->
      Leaves ds names ->
      names ≠ [] ->
      Verdict ds (.error (.unclosedTags names))

theorem checkDelimiters_of_verdict
    {result : Except ValueIssue Unit}
    (h : Verdict ds result) :
    checkDelimiters [] ds = result := by
  cases h with
  | nested hnested =>
      have hcheck := checkDelimiters_of_leaves (leaves_nil_of_nested hnested) []
      rwa [List.append_nil] at hcheck
  | unexpected hsplit _ hleaves =>
      rw [hsplit, checkDelimiters_of_leaves hleaves]
      rfl
  | mismatched hsplit _ hleaves hne =>
      rw [hsplit, checkDelimiters_of_leaves hleaves, List.reverse_concat]
      simp [checkDelimiters, checkNesting, Delimiter.tag, hne]
  | unclosed _ hleaves hne =>
      have hcheck := checkDelimiters_of_leaves hleaves []
      rw [List.append_nil] at hcheck
      rw [hcheck]
      simp [checkDelimiters, checkNesting, hne]

theorem checkDelimiters_closing (opened : List Text) (name : Text) (back : List Delimiter) :
    checkDelimiters opened (.closing name :: back) =
      match opened with
      | [] => .error (.unexpectedClosingTag name)
      | innermost :: outer =>
          if innermost = name then checkDelimiters outer back
          else .error (.mismatchedTags innermost name) :=
  rfl

/-- No closing tag fails where only opening tags are left. -/
theorem noneFails_of_leaves (h : Leaves ds names) : NoneFails ds := by
  rintro front name back rfl ⟨left, hleft, hlast⟩
  have hfails := checkDelimiters_of_leaves hleft (.closing name :: back)
  have hpasses := checkDelimiters_of_leaves h []
  rw [List.append_nil, hfails, checkDelimiters_closing] at hpasses
  rcases List.eq_nil_or_concat' left with rfl | ⟨outer, opened, rfl⟩
  · simp only [checkDelimiters, checkNesting, List.map_nil, List.reverse_nil] at hpasses
    split at hpasses <;> cases hpasses
  · have hne : opened ≠ name := by
      rintro rfl
      exact hlast List.getLast?_concat
    rw [List.reverse_concat] at hpasses
    simp only [checkDelimiters, checkNesting, List.map_nil, if_neg hne] at hpasses
    split at hpasses <;> cases hpasses

/-- Tags leave only opening tags, or a closing tag fails behind some of them that do. -/
theorem leaves_or_fails (ds : List Delimiter) :
    (exists names : List Text, Leaves ds names) ∨
      exists (front : List Delimiter) (name : Text) (back : List Delimiter),
        ds = front ++ .closing name :: back ∧ Fails front name := by
  induction ds using List.reverseRecOn with
  | nil => exact .inl ⟨[], .refl⟩
  | append_singleton ds d ih =>
      rcases ih with ⟨names, hnames⟩ | ⟨front, name, back, hsplit, hfails⟩
      · have hleft := Cancels.append hnames [] [d]
        rw [List.nil_append, List.nil_append] at hleft
        cases d with
        | opening name =>
            left
            refine ⟨names ++ [name], ?_⟩
            rwa [Leaves, List.map_append]
        | closing name =>
            by_cases hlast : names.getLast? = some name
            · left
              rcases List.getLast?_eq_some_iff.mp hlast with ⟨outer, rfl⟩
              have hpair := CancelsPair.pair (outer.map .opening) name []
              rw [List.append_nil] at hpair
              rw [List.map_append, List.append_assoc] at hleft
              exact ⟨outer, hleft.tail hpair⟩
            · exact .inr ⟨ds, name, [], rfl, names, hnames, hlast⟩
      · exact .inr ⟨front, name, back ++ [d], by rw [hsplit]; simp, hfails⟩

theorem exists_verdict (ds : List Delimiter) :
    exists result : Except ValueIssue Unit, Verdict ds result := by
  rcases leaves_or_fails ds with ⟨names, hnames⟩ | ⟨front, name, back, hsplit, left, hleft, hlast⟩
  · by_cases hnil : names = []
    · rw [hnil] at hnames
      exact ⟨_, .nested (nested_iff_leaves_nil.mpr hnames)⟩
    · exact ⟨_, .unclosed (noneFails_of_leaves hnames) hnames hnil⟩
  · have hnone := noneFails_of_leaves hleft
    rcases List.eq_nil_or_concat' left with rfl | ⟨outer, opened, rfl⟩
    · exact ⟨_, .unexpected hsplit hnone hleft⟩
    · refine ⟨_, .mismatched hsplit hnone hleft ?_⟩
      rintro rfl
      exact hlast List.getLast?_concat

theorem checkDelimiters_eq_iff
    {result : Except ValueIssue Unit} :
    checkDelimiters [] ds = result ↔ Verdict ds result := by
  constructor
  · rintro rfl
    rcases exists_verdict ds with ⟨result, hresult⟩
    rw [checkDelimiters_of_verdict hresult]
    exact hresult
  · exact checkDelimiters_of_verdict

/-!
# The check of a value
-/

theorem WrittenTag.tag_eq (w : WrittenTag) :
    w.tag = (w.delimiter?.map Delimiter.tag).getD (.empty w.name) := by
  rw [tag, delimiter?]
  split
  · rfl
  · split <;> rfl

/-- Tags that end in `/>` do not count. -/
theorem checkNesting_filterMap (pieces : List Piece) (opened : List Text) :
    checkNesting opened (pieces.filterMap Piece.tag?) =
      checkDelimiters opened (pieces.filterMap Piece.delimiter?) := by
  induction pieces generalizing opened with
  | nil => rfl
  | cons piece pieces ih =>
      cases piece with
      | char c => exact ih opened
      | tag w =>
          have htag : Piece.tag? (.tag w) = some w.tag := rfl
          rw [List.filterMap_cons_some htag, w.tag_eq, List.filterMap_cons, Piece.delimiter?]
          cases w.delimiter? with
          | none => exact ih opened
          | some d =>
              cases d with
              | opening name => exact ih (name :: opened)
              | closing name =>
                  cases opened with
                  | nil => rfl
                  | cons innermost outer =>
                      simp only [Option.map_some, Option.getD_some, Delimiter.tag, checkNesting,
                        checkDelimiters_closing, ih outer]

/-- Where no assignment without quotes begins, the check of a value says what the nesting of its
tags says. -/
theorem checkMarkup_eq_iff
    {value : Text}
    (h : forall front : Text, ¬ AssignsBehind value front) :
    exists pieces : List Piece,
      Cut value pieces ∧ (forall other : List Piece, Cut value other -> other = pieces) ∧
        forall result : Except ValueIssue Unit,
          checkMarkup value = result ↔ Verdict (pieces.filterMap Piece.delimiter?) result := by
  rcases exists_cut value with ⟨pieces, hcut⟩
  refine ⟨pieces, hcut, fun other hother => hother.unique hcut, ?_⟩
  intro result
  rw [checkMarkup, unquotedAttribute?_eq_none_iff.mpr h, hcut.tags_eq, ← checkDelimiters_eq_iff,
    ← checkNesting_filterMap]

theorem checkMarkup_eq_iff_bold :
    (forall front : Text, ¬ AssignsBehind "<b>x <i/></b>".toList front) ∧
      exists pieces : List Piece,
        Cut "<b>x <i/></b>".toList pieces ∧
          (forall other : List Piece, Cut "<b>x <i/></b>".toList other -> other = pieces) ∧
          forall result : Except ValueIssue Unit,
            checkMarkup "<b>x <i/></b>".toList = result ↔
              Verdict (pieces.filterMap Piece.delimiter?) result := by
  have h : forall front : Text, ¬ AssignsBehind "<b>x <i/></b>".toList front :=
    unquotedAttribute?_eq_none_iff.mp (by decide)
  exact ⟨h, checkMarkup_eq_iff h⟩

end Value
end AndroidStrings
