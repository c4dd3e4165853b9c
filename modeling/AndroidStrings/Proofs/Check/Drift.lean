import Mathlib.Data.List.Basic
import AndroidStrings.Proofs.Check.Lookup

/-!
# Drift of an English variant

A variant of English repeats the source, so a full check of it finds where it has drifted apart,
and so do the changes.  Where nothing is exempt and every string of the source is to be translated,
both say the same about the strings.  What a check finds in plurals and arrays is of other sorts.

## Main statements

- `isOfPlural_of_mem_pluralIssues` : the sorts of issues that plurals have.
- `filterMap_entryIssues`, `filterMap_stringIssues` : what the strings of the source add to both
  reports.
- `drift_agrees` : the full check of an English variant and its changes.
-/

namespace AndroidStrings

/-!
# Issues that speak of strings
-/

namespace Issue

/-- The string that is said to differ from the source. -/
def changedString? : Issue -> Option ChangedString
  | differsFromSource id source translation => some ⟨id, source, translation⟩
  | _ => none

/-- The name of the string that is said to be missing. -/
def missingString? : Issue -> Option Text
  | missing id .string => some id
  | _ => none

/-- The name of the string that is said to be left over. -/
def obsoleteString? : Issue -> Option Text
  | obsolete id .string => some id
  | _ => none

def isOfPlural : Issue -> Bool
  | missingPlural _ | untranslatedQuantity _ _ _ | pluralPlaceholderMismatch _ _ _ _
  | pluralDiffersFromSource _ _ _ _ => true
  | _ => false

/-- Nothing is picked from the issues of plurals, arrays and placeholders. -/
structure PicksStrings {α : Type} (pick : Issue -> Option α) : Prop where
  plural : forall issue : Issue, issue.isOfPlural = true -> pick issue = none
  array : forall id : Text, pick (.missing id .stringArray) = none
  placeholder : forall (id : Text) (source translation : List Text),
    pick (.placeholderMismatch id source translation) = none

theorem picksStrings_changedString? : PicksStrings changedString? where
  plural := fun issue h => by cases issue <;> first | rfl | cases h
  array := fun _ => rfl
  placeholder := fun _ _ _ => rfl

theorem picksStrings_missingString? : PicksStrings missingString? where
  plural := fun issue h => by cases issue <;> first | rfl | cases h
  array := fun _ => rfl
  placeholder := fun _ _ _ => rfl

theorem picksStrings_obsoleteString? : PicksStrings obsoleteString? where
  plural := fun issue h => by cases issue <;> first | rfl | cases h
  array := fun _ => rfl
  placeholder := fun _ _ _ => rfl

end Issue

/-- Nothing is exempt. -/
def Exemptions.nothing : Exemptions :=
  { terms := [], idPrefixes := [], ids := [], maxExemptLength := 0 }

theorem Exemptions.coversEntry_nothing
    {id source : Text}
    (hfilled : source ≠ [])
    (halias : isAlias source = false) :
    nothing.coversEntry id source = false := by
  have hlength : decide (source.length ≤ 0) = false := by
    simpa using hfilled
  rw [coversEntry, halias, show nothing.maxExemptLength = 0 from rfl, hlength]
  rfl

/-- A source whose strings all count for both reports: they are to be translated, and none of them
is empty or stands for another string. -/
structure ResourceFile.Comparable (source variant : ResourceFile) : Prop where
  translatable : forall entry, entry ∈ source.entries -> entry.kind = .string ->
    entry.translatable = true
  filled : forall string, string ∈ source.strings -> string.2 ≠ []
  noAlias : forall string, string ∈ source.strings ++ variant.strings ->
    Exemptions.isAlias string.2 = false

namespace Check

/-!
# Issues of plurals and placeholders
-/

theorem isOfPlural_of_mem_formIssues
    {options : CheckOptions} {english : Bool} {id translation : Text} {source : Plural}
    {quantity : Quantity} {issue : Issue}
    (h : issue ∈ formIssues options english id source quantity translation) :
    issue.isOfPlural = true := by
  rcases List.mem_append.mp h with hcopy | hplaceholder
  · revert hcopy
    unfold formCopyIssues
    repeat' split
    all_goals simp +contextual [Issue.isOfPlural]
  · revert hplaceholder
    unfold formPlaceholderIssues
    repeat' split
    all_goals simp +contextual [Issue.isOfPlural]

theorem isOfPlural_of_mem_pluralIssues
    {options : CheckOptions} {english : Bool} {id : Text} {source : Plural}
    {translation : Option Plural} {issue : Issue}
    (h : issue ∈ pluralIssues options english id source translation) :
    issue.isOfPlural = true := by
  cases translation with
  | none =>
      rw [List.mem_singleton.mp h]
      rfl
  | some forms =>
      rcases List.mem_flatMap.mp h with ⟨form, _, hform⟩
      exact isOfPlural_of_mem_formIssues hform

section Pick

variable {α : Type} {pick : Issue -> Option α} (hpick : Issue.PicksStrings pick)

include hpick

theorem filterMap_pluralIssues
    (options : CheckOptions) (english : Bool) (id : Text) (source : Plural)
    (translation : Option Plural) :
    (pluralIssues options english id source translation).filterMap pick = [] := by
  rw [List.filterMap_eq_nil_iff]
  intro issue hissue
  exact hpick.plural issue (isOfPlural_of_mem_pluralIssues hissue)

theorem filterMap_placeholderIssues (id source translation : Text) :
    (placeholderIssues id source translation).filterMap pick = [] := by
  unfold placeholderIssues
  split
  · rfl
  · rw [List.filterMap_cons_none (hpick.placeholder _ _ _)]
    rfl

end Pick

/-!
# What the strings add
-/

theorem flatMap_filter {α β : Type} (kept : α -> Bool) (made : α -> List β) (items : List α) :
    (items.filter kept).flatMap made =
      items.flatMap fun item => if kept item then made item else [] := by
  induction items with
  | nil => rfl
  | cons item items ih =>
      cases hkept : kept item <;> simp [hkept, ih]

/-- What is picked from the issues of strings only is found by going through the strings of the
source. -/
theorem filterMap_entryIssues
    {α : Type} {pick : Issue -> Option α} {source : ResourceFile}
    (hpick : Issue.PicksStrings pick)
    (htranslatable : forall entry, entry ∈ source.entries -> entry.kind = .string ->
      entry.translatable = true)
    (options : CheckOptions) (english : Bool) (variant : ResourceFile) :
    ((source.entries.filter Entry.translatable).flatMap
        (entryIssues options english variant)).filterMap pick =
      source.strings.flatMap fun string =>
        (stringIssues options english string.1 string.2
          (variant.string? string.1)).filterMap pick := by
  rw [flatMap_filter, List.filterMap_flatMap, ResourceFile.strings,
    List.filterMap_eq_flatMap_toList, List.flatMap_assoc]
  apply List.flatMap_congr
  intro entry hentry
  unfold entryIssues
  cases hvalue : entry.value with
  | singular text =>
      have hkind : entry.kind = .string := by
        rw [Entry.kind, hvalue]
        rfl
      simp [htranslatable entry hentry hkind]
  | plural forms =>
      have hnone := filterMap_pluralIssues hpick options english entry.id forms
        (variant.plural? entry.id)
      split
      · exact hnone
      · rfl
  | array items =>
      simp only [arrayIssues]
      repeat' split
      · rfl
      · rw [List.filterMap_cons_none (hpick.array _)]
        rfl
      · rfl

section String

variable {options : CheckOptions} {source variant : ResourceFile} {id text : Text}
  (hfull : options.isFull = true)
  (hnothing : options.exemptions = .nothing)
  (hcomparable : source.Comparable variant)
  (hstring : (id, text) ∈ source.strings)

include hfull hnothing hcomparable hstring

/-- What a full check finds in a string of an English variant, where nothing is exempt. -/
theorem stringIssues_of_comparable :
    stringIssues options true id text (variant.string? id) =
      match variant.string? id with
      | none => [.missing id .string]
      | some other =>
          (if text = other then [] else [.differsFromSource id text other]) ++
            placeholderIssues id text other := by
  have hcovers : options.exemptions.coversEntry id text = false := by
    rw [hnothing]
    exact Exemptions.coversEntry_nothing (hcomparable.filled _ hstring)
      (hcomparable.noAlias _ (List.mem_append_left _ hstring))
  cases hother : variant.string? id with
  | none => simp [stringIssues, hcovers]
  | some other =>
      have halias : Exemptions.isAlias other = false :=
        hcomparable.noAlias (id, other)
          (List.mem_append_right _ (ResourceFile.mem_strings_of_string? hother))
      have hcopy : options.exemptions.allowsCopy id text other = false := by
        rw [Exemptions.allowsCopy, hcovers, halias]
        rfl
      simp [stringIssues, hfull, copyIssues, hcopy]

/-- What is picked from the issues of a string that is missing or differs. -/
theorem filterMap_stringIssues
    {α : Type} {pick : Issue -> Option α}
    (hpick : Issue.PicksStrings pick) :
    (stringIssues options true id text (variant.string? id)).filterMap pick =
      match variant.string? id with
      | none => (pick (.missing id .string)).toList
      | some other =>
          if text = other then [] else (pick (.differsFromSource id text other)).toList := by
  rw [stringIssues_of_comparable hfull hnothing hcomparable hstring]
  cases variant.string? id with
  | none => rw [List.filterMap_eq_flatMap_toList, List.flatMap_singleton]
  | some other =>
      simp only [List.filterMap_append, filterMap_placeholderIssues hpick, List.append_nil]
      split
      · rfl
      · rw [List.filterMap_eq_flatMap_toList, List.flatMap_singleton]

theorem filterMap_changedString?_stringIssues :
    (stringIssues options true id text (variant.string? id)).filterMap Issue.changedString? =
      match variant.string? id with
      | some other => if other = text then [] else [⟨id, text, other⟩]
      | none => [] := by
  rw [filterMap_stringIssues hfull hnothing hcomparable hstring Issue.picksStrings_changedString?]
  cases variant.string? id with
  | none => rfl
  | some other =>
      simp only [eq_comm (a := other)]
      rfl

theorem filterMap_missingString?_stringIssues :
    (stringIssues options true id text (variant.string? id)).filterMap Issue.missingString? =
      if (variant.string? id).isNone then [id] else [] := by
  rw [filterMap_stringIssues hfull hnothing hcomparable hstring Issue.picksStrings_missingString?]
  cases variant.string? id with
  | none => rfl
  | some other => exact ite_self []

theorem filterMap_obsoleteString?_stringIssues :
    (stringIssues options true id text (variant.string? id)).filterMap Issue.obsoleteString? =
      [] := by
  rw [filterMap_stringIssues hfull hnothing hcomparable hstring Issue.picksStrings_obsoleteString?]
  cases variant.string? id with
  | none => rfl
  | some other => exact ite_self []

end String

/-!
# What is left over
-/

theorem filterMap_obsoleteIssues_eq_nil
    {α : Type} {pick : Issue -> Option α}
    (hpick : forall (id : Text) (kind : EntryKind), pick (.obsolete id kind) = none)
    (source variant : ResourceFile) :
    (obsoleteIssues source variant).filterMap pick = [] := by
  rw [List.filterMap_eq_nil_iff]
  intro issue hissue
  rcases List.mem_map.mp hissue with ⟨entry, _, rfl⟩
  exact hpick entry.id entry.kind

/-- The strings that are left over are those that the source lacks. -/
theorem filterMap_obsoleteString?_obsoleteIssues (source variant : ResourceFile) :
    (obsoleteIssues source variant).filterMap Issue.obsoleteString? =
      (Changes.missingFrom source variant).map NamedString.id := by
  rw [obsoleteIssues, Changes.missingFrom_eq, List.filterMap_map, List.filterMap_filter,
    List.map_filterMap, List.filterMap_filter]
  apply List.filterMap_congr
  intro entry _
  rw [Entry.kind]
  cases hvalue : entry.value <;>
    simp [EntryValue.kind, Issue.obsoleteString?, Entry.kind, hvalue]

/-!
# Main statement
-/

/-- In a full check of an English variant, the strings that differ, are missing and are left over
are those of the changes. -/
theorem drift_agrees
    {options : CheckOptions} {source variant : ResourceFile}
    (hmode : options.mode = .full)
    (hnothing : options.exemptions = .nothing)
    (henglish : Qualifier.isEnglish variant.language = true)
    (hcomparable : source.Comparable variant) :
    (checkLanguage options source variant).issues.filterMap Issue.changedString? =
        (Changes.between source variant).changed ∧
      (checkLanguage options source variant).issues.filterMap Issue.missingString? =
        (Changes.between source variant).newInSource.map NamedString.id ∧
      (checkLanguage options source variant).issues.filterMap Issue.obsoleteString? =
        (Changes.between source variant).obsolete.map NamedString.id := by
  have hfull : options.isFull = true := by
    rw [CheckOptions.isFull, hmode]
    rfl
  have hissues : (checkLanguage options source variant).issues =
      (source.entries.filter Entry.translatable).flatMap (entryIssues options true variant) ++
        obsoleteIssues source variant := by
    rw [checkLanguage, languageIssues, henglish]
    exact if_pos hfull
  rw [hissues]
  simp only [List.filterMap_append]
  refine ⟨?_, ?_, ?_⟩
  · rw [filterMap_obsoleteIssues_eq_nil (fun _ _ => rfl), List.append_nil,
      filterMap_entryIssues Issue.picksStrings_changedString? hcomparable.translatable,
      Changes.between, List.filterMap_eq_flatMap_toList]
    apply List.flatMap_congr
    intro string hstring
    rw [filterMap_changedString?_stringIssues hfull hnothing hcomparable hstring]
    cases variant.string? string.1 with
    | none => rfl
    | some other => simp only; split <;> rfl
  · rw [filterMap_obsoleteIssues_eq_nil (fun _ _ => rfl), List.append_nil,
      filterMap_entryIssues Issue.picksStrings_missingString? hcomparable.translatable,
      Changes.between, Changes.missingFrom, List.map_map, List.map_eq_flatMap, flatMap_filter]
    apply List.flatMap_congr
    intro string hstring
    rw [filterMap_missingString?_stringIssues hfull hnothing hcomparable hstring]
    rfl
  · rw [filterMap_obsoleteString?_obsoleteIssues,
      filterMap_entryIssues Issue.picksStrings_obsoleteString? hcomparable.translatable,
      List.flatMap_eq_nil_iff.mpr, List.nil_append]
    · rfl
    · intro string hstring
      exact filterMap_obsoleteString?_stringIssues hfull hnothing hcomparable hstring

/-- A source with a string that is reworded, one that is given twice, and plurals of the same
name. -/
def rewordedSource : ResourceFile :=
  ⟨"source".toList,
    [⟨"a".toList, .singular "Colours".toList, true⟩, ⟨"a".toList, .plural .empty, false⟩,
      ⟨"b".toList, .singular "Open".toList, true⟩, ⟨"a".toList, .singular "Colors".toList, true⟩]⟩

/-- A variant that lacks a string, has an array of its name, and has one string more. -/
def rewordedVariant : ResourceFile :=
  ⟨"en-rUS".toList,
    [⟨"old".toList, .singular "Gone".toList, true⟩, ⟨"b".toList, .array [], true⟩,
      ⟨"a".toList, .singular "Colors".toList, true⟩, ⟨"old".toList, .plural .empty, true⟩]⟩

theorem drift_agrees_reworded :
    let options : CheckOptions := ⟨.full, 1, .nothing⟩
    let issues := (checkLanguage options rewordedSource rewordedVariant).issues
    Qualifier.isEnglish rewordedVariant.language = true ∧
      rewordedSource.Comparable rewordedVariant ∧
      issues.filterMap Issue.changedString? =
        [⟨"a".toList, "Colours".toList, "Colors".toList⟩] ∧
      issues.filterMap Issue.missingString? = ["b".toList] ∧
      issues.filterMap Issue.obsoleteString? = ["old".toList] := by
  intro options issues
  have henglish : Qualifier.isEnglish rewordedVariant.language = true := by
    decide +kernel
  have hcomparable : rewordedSource.Comparable rewordedVariant :=
    ⟨by decide, by decide, by decide⟩
  have hmode : options.mode = .full := rfl
  rcases drift_agrees hmode rfl henglish hcomparable with
    ⟨hchanged, hmissing, hobsolete⟩
  exact ⟨henglish, hcomparable, hchanged.trans (by decide), hmissing.trans (by decide),
    hobsolete.trans (by decide)⟩

end Check
end AndroidStrings
