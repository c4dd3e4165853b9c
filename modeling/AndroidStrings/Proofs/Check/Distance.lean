import Mathlib.Algebra.BigOperators.Fin
import Mathlib.Data.Nat.Dist
import Mathlib.InformationTheory.Hamming
import AndroidStrings.Proofs.Check.Drift
import AndroidStrings.Proofs.Check.Options

/-!
# Distance of nearly copied values

Behind its end a text goes on with empty places.  The difference of two texts is the number of
places at which they are not the same, so it is a Hamming distance and has the laws of one,
whatever the lengths are.  As it is zero between equal texts only, a value that is reported as
nearly copied is at least at distance one.

## Main statements

- `Text.difference_eq_hammingDist` : the difference as a Hamming distance of rows of places.
- `Text.difference_eq_differingPlaces_add` : the difference by the part that both texts have, and
  the rest of the longer one.
- `Check.nearMatch_mem_languageIssues_iff` : the near matches of a report.
- `difference_metric` : the difference is a metric, and near matches are those within the threshold.
-/

namespace AndroidStrings

namespace Text

/-!
# Places
-/

/-- The first places of a text; those behind its end are empty. -/
def places (count : Nat) (t : Text) : Fin count -> Option Char :=
  fun place => t[place.val]?

theorem places_nil (count : Nat) :
    places (count + 1) [] = Fin.cons none (places count []) := by
  funext place
  cases place using Fin.cases <;> rfl

theorem places_cons (count : Nat) (c : Char) (t : Text) :
    places (count + 1) (c :: t) = Fin.cons (some c) (places count t) := by
  funext place
  cases place using Fin.cases <;> rfl

/-- Texts that end within some places are told apart there. -/
theorem eq_of_places_eq
    {count : Nat} {left right : Text}
    (hleft : left.length ≤ count)
    (hright : right.length ≤ count)
    (h : places count left = places count right) :
    left = right := by
  apply List.ext_getElem?
  intro place
  by_cases hplace : place < count
  · exact congrFun h ⟨place, hplace⟩
  · rw [List.getElem?_eq_none (by omega), List.getElem?_eq_none (by omega)]

theorem hammingDist_cons
    {α : Type} [DecidableEq α] {count : Nat}
    (a b : α) (left right : Fin count -> α) :
    hammingDist (Fin.cons a left : Fin (count + 1) -> α) (Fin.cons b right) =
      (if a = b then 0 else 1) + hammingDist left right := by
  simp only [hammingDist, Finset.card_filter, Fin.sum_univ_succ, Fin.cons_zero, Fin.cons_succ,
    ne_eq, ite_not]

/-!
# Difference as a Hamming distance
-/

/-- A text differs from the empty one at each of its places. -/
theorem hammingDist_places_nil
    {count : Nat} {t : Text}
    (h : t.length ≤ count) :
    hammingDist (places count []) (places count t) = t.length := by
  induction t generalizing count with
  | nil => exact hammingDist_self _
  | cons c t ih =>
      cases count with
      | zero => cases h
      | succ count =>
          rw [places_nil, places_cons, hammingDist_cons, if_neg (Option.some_ne_none c).symm,
            ih (Nat.le_of_succ_le_succ h), List.length_cons, Nat.add_comm]

/-- The difference counts the places at which two texts are not the same; how many empty places
are looked at does not matter. -/
theorem difference_eq_hammingDist
    {count : Nat} {left right : Text}
    (hleft : left.length ≤ count)
    (hright : right.length ≤ count) :
    difference left right = hammingDist (places count left) (places count right) := by
  fun_induction difference left right generalizing count with
  | case1 right => exact (hammingDist_places_nil hright).symm
  | case2 left _ => rw [hammingDist_comm, hammingDist_places_nil hleft]
  | case3 c left d right ih =>
      cases count with
      | zero => cases hleft
      | succ count =>
          rw [ih (Nat.le_of_succ_le_succ hleft) (Nat.le_of_succ_le_succ hright), places_cons,
            places_cons, hammingDist_cons]
          simp only [Option.some.injEq]

theorem difference_eq_zero_iff {left right : Text} :
    difference left right = 0 ↔ left = right := by
  have hleft := Nat.le_max_left left.length right.length
  have hright := Nat.le_max_right left.length right.length
  rw [difference_eq_hammingDist hleft hright, hammingDist_eq_zero]
  exact ⟨eq_of_places_eq hleft hright, fun h => by rw [h]⟩

theorem difference_pos_iff {left right : Text} : 0 < difference left right ↔ left ≠ right := by
  rw [Nat.pos_iff_ne_zero, ne_eq, difference_eq_zero_iff]

theorem difference_comm (left right : Text) : difference left right = difference right left := by
  have hleft := Nat.le_max_left left.length right.length
  have hright := Nat.le_max_right left.length right.length
  rw [difference_eq_hammingDist hleft hright, difference_eq_hammingDist hright hleft,
    hammingDist_comm]

theorem difference_triangle (left middle right : Text) :
    difference left right ≤ difference left middle + difference middle right := by
  -- All three texts end within as many places as they have characters together.
  let count := left.length + middle.length + right.length
  have hleft : left.length ≤ count := by omega
  have hmiddle : middle.length ≤ count := by omega
  have hright : right.length ≤ count := by omega
  rw [difference_eq_hammingDist hleft hright, difference_eq_hammingDist hleft hmiddle,
    difference_eq_hammingDist hmiddle hright]
  exact hammingDist_triangle _ _ _

/-!
# Difference by the part that both texts have
-/

/-- The number of places at which two texts have different characters. -/
def differingPlaces (left right : Text) : Nat :=
  (left.zip right).countP fun pair => pair.1 != pair.2

theorem differingPlaces_le_min (left right : Text) :
    differingPlaces left right ≤ min left.length right.length := by
  rw [← List.length_zip]
  exact List.countP_le_length

/-- Where both texts go on, characters are compared; what one of them has beyond the other counts
whole. -/
theorem difference_eq_differingPlaces_add (left right : Text) :
    difference left right = differingPlaces left right + Nat.dist left.length right.length := by
  fun_induction difference left right with
  | case1 right => simp [differingPlaces, Nat.dist_zero_left]
  | case2 left _ => simp [differingPlaces, Nat.dist_zero_right]
  | case3 c left d right ih =>
      rw [ih, List.length_cons, List.length_cons, Nat.dist_add_add_right, differingPlaces,
        differingPlaces, List.zip_cons_cons, List.countP_cons]
      by_cases h : c = d
      · simp [h]
      · simp [h]
        omega

/-- One character in front moves all others, and each of them counts. -/
example : difference "Menu".toList "xMenu".toList = 5 := by decide

theorem dist_length_le_difference (left right : Text) :
    Nat.dist left.length right.length ≤ difference left right := by
  rw [difference_eq_differingPlaces_add]
  exact Nat.le_add_left _ _

theorem difference_le_max (left right : Text) :
    difference left right ≤ max left.length right.length := by
  have hoverlap := differingPlaces_le_min left right
  have hrest : Nat.dist left.length right.length =
      max left.length right.length - min left.length right.length :=
    Nat.dist_eq_max_sub_min
  rw [difference_eq_differingPlaces_add]
  omega

end Text

namespace Check

/-!
# Near matches
-/

/-- The strings that a check looks at for near matches: in the full mode, those of languages other
than English that are not exempt. -/
structure Compares (options : CheckOptions) (source translation : ResourceFile)
    (id text other : Text) : Prop where
  mode : options.mode = .full
  foreign : Qualifier.isEnglish translation.language = false
  string : exists entry, entry ∈ source.entries ∧ entry.translatable = true ∧ entry.id = id ∧
    entry.value = .singular text
  found : translation.string? id = some other
  notExempt : options.exemptions.allowsCopy id text other = false

section NearMatch

variable {options : CheckOptions} {english : Bool} {id name text other : Text} {distance : Nat}

/-- Values that are not the same are at least at distance one, so no near match has distance zero
and none is lost at a threshold above zero. -/
theorem nearMatch_mem_copyIssues_iff {source found : Text} :
    .nearMatch name distance text other ∈ copyIssues options english id source found ↔
      (name = id ∧ text = source ∧ other = found) ∧ english = false ∧
        options.exemptions.allowsCopy id source found = false ∧
        distance = Text.difference found source ∧
        1 ≤ distance ∧ distance ≤ options.nearThreshold := by
  rw [mem_copyIssues_iff]
  constructor
  · rintro ⟨hexempt, ⟨_, _, hissue⟩ | ⟨_, _, hissue⟩ | ⟨hforeign, hdiffers, hnear, hissue⟩⟩
    · cases hissue
    · cases hissue
    · have hpositive := Text.difference_pos_iff.mpr hdiffers.symm
      cases hissue
      exact ⟨⟨rfl, rfl, rfl⟩, hforeign, hexempt, rfl, hpositive, hnear.2⟩
  · rintro ⟨⟨rfl, rfl, rfl⟩, hforeign, hexempt, rfl, hpositive, hnear⟩
    have hdiffers : text ≠ other := (Text.difference_pos_iff.mp hpositive).symm
    have hthreshold : 0 < options.nearThreshold := Nat.lt_of_lt_of_le hpositive hnear
    exact ⟨hexempt, .inr (.inr ⟨hforeign, hdiffers, ⟨hthreshold, hnear⟩, rfl⟩)⟩

theorem nearMatch_notMem_placeholderIssues (source found : Text) :
    .nearMatch name distance text other ∉ placeholderIssues id source found := by
  unfold placeholderIssues
  split <;> simp

theorem nearMatch_mem_entryIssues_iff {translation : ResourceFile} {entry : Entry} :
    .nearMatch name distance text other ∈ entryIssues options english translation entry ↔
      options.isFull = true ∧ exists source found, entry.value = .singular source ∧
        translation.string? entry.id = some found ∧
        .nearMatch name distance text other ∈
          copyIssues options english entry.id source found := by
  unfold entryIssues
  cases hvalue : entry.value with
  | singular source =>
      cases hfound : translation.string? entry.id with
      | none =>
          simp only [stringIssues]
          split <;> simp
      | some found =>
          simp only [stringIssues_some, List.mem_append, stringCopies,
            or_iff_left (nearMatch_notMem_placeholderIssues source found)]
          cases options.isFull <;> simp
  | plural forms =>
      refine iff_of_false (fun h => ?_) ?_
      · cases isOfPlural_of_mem_pluralIssues h
      · rintro ⟨_, _, _, hsingular, _⟩
        cases hsingular
  | array items =>
      simp only [arrayIssues]
      split <;> simp

theorem nearMatch_notMem_obsoleteIssues (source translation : ResourceFile) :
    .nearMatch name distance text other ∉ obsoleteIssues source translation := by
  intro h
  rcases List.mem_map.mp h with ⟨entry, _, hissue⟩
  cases hissue

/-- A report has a near match for each string that it compares and that is at a distance between
one and the threshold, and no other. -/
theorem nearMatch_mem_languageIssues_iff {source translation : ResourceFile} :
    .nearMatch id distance text other ∈ languageIssues options source translation ↔
      Compares options source translation id text other ∧
        distance = Text.difference other text ∧
        1 ≤ distance ∧ distance ≤ options.nearThreshold := by
  rw [mem_languageIssues_iff]
  constructor
  · rintro (⟨entry, hentry, htranslatable, hissue⟩ | ⟨_, hobsolete⟩)
    · rcases nearMatch_mem_entryIssues_iff.mp hissue with ⟨hfull, _, _, hvalue, hfound, hcopy⟩
      rcases nearMatch_mem_copyIssues_iff.mp hcopy with ⟨⟨rfl, rfl, rfl⟩, hforeign, hexempt, hnear⟩
      exact ⟨⟨beq_iff_eq.mp hfull, hforeign, ⟨entry, hentry, htranslatable, rfl, hvalue⟩, hfound,
        hexempt⟩, hnear⟩
    · exact absurd hobsolete (nearMatch_notMem_obsoleteIssues source translation)
  · rintro ⟨⟨hmode, hforeign, ⟨entry, hentry, htranslatable, rfl, hvalue⟩, hfound, hexempt⟩,
      hnear⟩
    have hcopy := nearMatch_mem_copyIssues_iff.mpr ⟨⟨rfl, rfl, rfl⟩, hforeign, hexempt, hnear⟩
    exact .inl ⟨entry, hentry, htranslatable, nearMatch_mem_entryIssues_iff.mpr
      ⟨beq_iff_eq.mpr hmode, text, other, hvalue, hfound, hcopy⟩⟩

end NearMatch

end Check

/-!
# Main statement
-/

/-- The difference is a metric on texts, at least the difference of the lengths and at most the
greater length.  A check reports, of the strings that it compares, those at a distance of at least
one and at most the threshold as near matches. -/
theorem difference_metric :
    (forall left right : Text, Text.difference left right = 0 ↔ left = right) ∧
      (forall left right : Text, Text.difference left right = Text.difference right left) ∧
      (forall left middle right : Text,
        Text.difference left right ≤ Text.difference left middle + Text.difference middle right) ∧
      (forall left right : Text,
        Nat.dist left.length right.length ≤ Text.difference left right ∧
          Text.difference left right ≤ max left.length right.length) ∧
      forall (options : CheckOptions) (source translation : ResourceFile) (id text other : Text)
          (distance : Nat),
        .nearMatch id distance text other ∈
            (Check.checkLanguage options source translation).issues ↔
          Check.Compares options source translation id text other ∧
            distance = Text.difference other text ∧
            1 ≤ distance ∧ distance ≤ options.nearThreshold := by
  refine ⟨fun _ _ => Text.difference_eq_zero_iff, Text.difference_comm, Text.difference_triangle,
    fun left right => ?_, fun _ _ _ _ _ _ _ => Check.nearMatch_mem_languageIssues_iff⟩
  exact ⟨Text.dist_length_le_difference left right, Text.difference_le_max left right⟩

end AndroidStrings
