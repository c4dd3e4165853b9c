import AndroidStrings.Proofs.Value.Assignment
import AndroidStrings.Value.Escape

/-!
# Assignments in tags

An assignment without quotes is an attribute where it stands in a tag, behind the name and outside
quotes.  It ends with the tag at the latest, so the attribute is reported as it is written.  The
check does not look at the place, though: white space, a word and an equals sign are taken for an
attribute between the tags and in quotes as well.

## Main statements

- `assigns_append_close_iff` : an assignment in a tag ends with the tag.
- `reports_attribute_iff` : when the reported assignment is an attribute of a tag.
-/

namespace AndroidStrings

open CharClass Text

namespace Value

variable {value t a back : Text}

/-!
# Places among the attributes
-/

/-- Every quote of the text is closed in it. -/
inductive ClosesQuotes : Text -> Prop where
  | nil : ClosesQuotes []
  | char {c : Char} {t : Text} :
      isQuote c = false ->
      ClosesQuotes t ->
      ClosesQuotes (c :: t)
  | quoted {quote : Char} {run t : Text} :
      isQuote quote = true ->
      quote ∉ run ->
      ClosesQuotes t ->
      ClosesQuotes (quote :: (run ++ quote :: t))

/-- A place in a tag of the value, behind the name and outside quotes. -/
structure AttributePlace (value : Text) where
  before : List Piece
  tag : WrittenTag
  after : List Piece
  cut : Cut value (before ++ .tag tag :: after)
  read : Text
  unread : Text
  rest_eq : tag.rest = read ++ unread
  closesQuotes : ClosesQuotes read

namespace AttributePlace

variable (place : AttributePlace value)

/-- The value up to the place. -/
def front : Text :=
  place.before.flatMap Piece.raw ++ '<' :: (place.tag.mark ++ (place.tag.name ++ place.read))

theorem front_append :
    place.front ++ (place.unread ++ '>' :: place.after.flatMap Piece.raw) = value := by
  have hcut := place.cut.flatMap_raw
  rw [List.flatMap_append, List.flatMap_cons, Piece.raw, WrittenTag.raw, WrittenTag.inner,
    place.rest_eq] at hcut
  simpa [front] using hcut

theorem not_mem_unread : '>' ∉ place.unread := by
  intro hmem
  have hrest := place.tag.not_mem_rest
  rw [place.rest_eq] at hrest
  exact hrest (List.mem_append_right _ hmem)

end AttributePlace

/-!
# Assignments up to the end of a tag
-/

theorem IsAssignment.not_mem (h : IsAssignment a) : '>' ∉ a := by
  rcases h with ⟨word, first, rest, rfl, hword, hfirst, hrest⟩
  have hne : '>' ≠ first := by
    rintro rfl
    cases hfirst
  have hclose : '>' ∉ word ∧ '>' ∉ rest :=
    ⟨hword.not_mem (by decide), not_mem_of_forall hrest (by decide)⟩
  simp [hne, hclose]

/-- An assignment goes no further than the next `>`. -/
theorem assigns_append_close_iff (h : '>' ∉ t) :
    Assigns (t ++ '>' :: back) a ↔ Assigns t a := by
  constructor
  · rintro ⟨blank, behind, hsplit, hblank, ha, hstops⟩
    have hspace : '>' ∉ blank := hblank.not_mem (by decide)
    have hnot : '>' ∉ blank ++ a := by
      simp [hspace, ha.not_mem]
    rw [← List.append_assoc] at hsplit
    rcases List.append_eq_append_iff.mp hsplit with ⟨past, hpast, hclose⟩ | ⟨gap, rfl, hbehind⟩
    · cases past with
      | nil =>
          rw [List.append_nil] at hpast
          exact ⟨blank, [], by rw [← hpast, List.append_nil], hblank, ha, stops_nil⟩
      | cons c past =>
          rw [List.cons_append, List.cons.injEq] at hclose
          rw [hpast, ← hclose.1] at hnot
          simp at hnot
    · refine ⟨blank, gap, List.append_assoc _ _ _, hblank, ha, ?_⟩
      intro c hc
      refine hstops c ?_
      rw [hbehind, List.head?_append, hc, Option.some_or]
  · rintro ⟨blank, behind, rfl, hblank, ha, hstops⟩
    refine ⟨blank, behind ++ '>' :: back, by simp, hblank, ha, ?_⟩
    cases behind with
    | nil => exact stops_cons (by decide) back
    | cons d behind => exact fun c hc => hstops c hc

theorem AttributePlace.assigns_iff (place : AttributePlace value) :
    Assigns (place.unread ++ '>' :: place.after.flatMap Piece.raw) a ↔ Assigns place.unread a :=
  assigns_append_close_iff place.not_mem_unread

/-!
# Reported attributes
-/

theorem checkNesting_ne_unquotedAttribute (opened : List Text) (found : List Tag) :
    checkNesting opened found ≠ .error (.unquotedAttribute a) := by
  fun_induction checkNesting opened found <;> simp_all

theorem checkEntities_ne_unquotedAttribute :
    checkEntities value ≠ .error (.unquotedAttribute a) := by
  unfold checkEntities
  split
  · split <;> simp
  · simp

theorem checkMarkup_eq_unquotedAttribute_iff :
    checkMarkup value = .error (.unquotedAttribute a) ↔ unquotedAttribute? value = some a := by
  rw [checkMarkup]
  cases unquotedAttribute? value with
  | some found => simp
  | none => simp [checkNesting_ne_unquotedAttribute]

theorem unquotedAttribute?_of_validate (h : validate value = .error (.unquotedAttribute a)) :
    unquotedAttribute? value = some a := by
  rw [← checkMarkup_eq_unquotedAttribute_iff]
  unfold validate at h
  split_ifs at h with hbackticks hpos hquot hapos hangles
  · cases h
  · cases h
  · cases h
  · cases h
  · split at h
    · rename_i issue hissue
      rw [hissue, h]
    · exact absurd h checkEntities_ne_unquotedAttribute
  · exact absurd h checkEntities_ne_unquotedAttribute

/-- The reported assignment is an attribute of a tag when one of the assignments in tags has no
assignment in front of it. -/
theorem reports_attribute_iff (h : validate value = .error (.unquotedAttribute a)) :
    (exists place : AttributePlace value,
      Assigns place.unread a ∧
        forall front : Text, AssignsBehind value front -> place.front.length ≤ front.length) ↔
      forall front : Text, AssignsBehind value front ->
        exists place : AttributePlace value,
          AssignsBehind value place.front ∧ place.front.length ≤ front.length := by
  rcases exists_of_unquotedAttribute? (unquotedAttribute?_of_validate h) with
    ⟨first, ⟨t, hfirst, ha⟩, hleast⟩
  constructor
  · rintro ⟨place, hplace, hnone⟩ front hfront
    exact ⟨place, ⟨_, a, place.front_append.symm, place.assigns_iff.mpr hplace⟩,
      hnone front hfront⟩
  · intro htags
    rcases htags first ⟨t, a, hfirst, ha⟩ with ⟨place, hplace, hle⟩
    have hlength := le_antisymm hle (hleast place.front hplace)
    rcases List.append_inj (place.front_append.trans hfirst) hlength with ⟨hfront, hrest⟩
    rw [← hrest, place.assigns_iff] at ha
    refine ⟨place, ha, ?_⟩
    rw [hfront]
    exact hleast

theorem reports_attribute_iff_bold :
    validate "<b c=d>x e=f</b>".toList = .error (.unquotedAttribute "c=d".toList) ∧
      ((exists place : AttributePlace "<b c=d>x e=f</b>".toList,
        Assigns place.unread "c=d".toList ∧
          forall front : Text, AssignsBehind "<b c=d>x e=f</b>".toList front ->
            place.front.length ≤ front.length) ↔
        forall front : Text, AssignsBehind "<b c=d>x e=f</b>".toList front ->
          exists place : AttributePlace "<b c=d>x e=f</b>".toList,
            AssignsBehind "<b c=d>x e=f</b>".toList place.front ∧
              place.front.length ≤ front.length) := by
  have h : validate "<b c=d>x e=f</b>".toList = .error (.unquotedAttribute "c=d".toList) := by
    decide
  exact ⟨h, reports_attribute_iff h⟩

/-!
# Tags without attributes
-/

/-- A tag with nothing behind its name. -/
def WrittenTag.bare (slash : Bool) {word : Text} (h : IsRun isWord word) : WrittenTag where
  slash := slash
  name := word
  rest := []
  isTagName := .word h stops_nil (by nofun)
  not_mem_rest := List.not_mem_nil

theorem Cut.chars
    {pieces : List Piece}
    (run : Text)
    (hrun : '<' ∉ run)
    (h : Cut t pieces) :
    Cut (run ++ t) (run.map Piece.char ++ pieces) := by
  induction run with
  | nil => exact h
  | cons c run ih =>
      rw [List.mem_cons, not_or] at hrun
      refine .char ?_ (ih hrun.2)
      intro w hprefix
      exact hrun.1 (List.cons_prefix_cons.mp hprefix).1

theorem AttributePlace.not_assigns_of_bare
    {pieces : List Piece}
    (hcut : Cut value pieces)
    (hbare : forall w : WrittenTag, Piece.tag w ∈ pieces -> w.rest = [])
    (place : AttributePlace value) :
    ¬ Assigns place.unread a := by
  rw [hcut.unique place.cut] at hbare
  have hrest := hbare place.tag (List.mem_append_right _ List.mem_cons_self)
  rw [place.rest_eq, List.append_eq_nil_iff] at hrest
  rw [hrest.2]
  rintro ⟨blank, behind, hsplit, hblank, _⟩
  exact hblank.ne_nil (List.append_eq_nil_iff.mp hsplit.symm).1

theorem validate_text_between_tags :
    validate "<b>a b=c</b>".toList = .error (.unquotedAttribute "b=c</b".toList) ∧
      ¬ exists place : AttributePlace "<b>a b=c</b>".toList,
        Assigns place.unread "b=c</b".toList := by
  refine ⟨by decide, ?_⟩
  rintro ⟨place, hplace⟩
  have hword : IsRun isWord ['b'] := ⟨by decide, List.all_eq_true.mp (by decide)⟩
  have hclose : Cut "</b>".toList [.tag (.bare true hword)] :=
    .tag (w := .bare true hword) .nil
  have htext : Cut "a b=c</b>".toList ("a b=c".toList.map .char ++ [.tag (.bare true hword)]) :=
    .chars "a b=c".toList (by decide) hclose
  have hcut : Cut "<b>a b=c</b>".toList
      (.tag (.bare false hword) :: ("a b=c".toList.map .char ++ [.tag (.bare true hword)])) :=
    .tag (w := .bare false hword) htext
  refine place.not_assigns_of_bare hcut ?_ hplace
  intro w hw
  have hbare : w = .bare false hword ∨ w = .bare true hword := by simpa using hw
  rcases hbare with rfl | rfl
  · rfl
  · rfl

end Value
end AndroidStrings
