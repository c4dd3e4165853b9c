import Mathlib.Data.List.Nodup
import AndroidStrings.Proofs.Check.Lookup

/-!
# Changes as a symmetric difference

The strings of two files are compared in two passes, and what a pass looks up in the other file is
the first string of a name.  Where each file gives a name to one string, this is the string itself,
so both passes together see each name once, and the files may be exchanged.

## Main statements

- `ResourceFile.string?_eq_some_iff` : a string with a name of its own is found under the name.
- `Changes.stands_iff` : where a name stands, by what the two files give it.
- `Changes.inSync_iff` : files without changes.
- `Changes.changed_swap` : the strings with different values, from the other side.
- `Changes.between_symmetric` : changes as a symmetric difference.
-/

namespace AndroidStrings

/-!
# Strings with names of their own
-/

namespace ResourceFile

/-- A string with a name of its own is found under the name. -/
theorem string?_eq_some_iff
    {file : ResourceFile}
    (hnodup : file.stringNames.Nodup)
    {id value : Text} :
    file.string? id = some value ↔ (id, value) ∈ file.strings := by
  constructor
  · exact mem_strings_of_string?
  · intro hstring
    have hname : id ∈ file.stringNames := List.mem_map.mpr ⟨(id, value), hstring, rfl⟩
    rcases Option.isSome_iff_exists.mp (isSome_string?_iff.mpr (mem_stringNames_iff.mp hname)) with
      ⟨found, hfound⟩
    have hsame : (id, found) = (id, value) :=
      List.inj_on_of_nodup_map hnodup (mem_strings_of_string? hfound) hstring rfl
    rw [hfound, (Prod.mk.inj hsame).2]

end ResourceFile

/-- The same string with the two files exchanged. -/
def ChangedString.swap (string : ChangedString) : ChangedString :=
  ⟨string.id, string.variant, string.source⟩

theorem ChangedString.swap_involutive : Function.Involutive ChangedString.swap :=
  fun _ => rfl

namespace Changes

/-- Where a name stands in a comparison of strings. -/
inductive Standing where
  | changed
  | newInSource
  | obsolete
  | same
  deriving DecidableEq, Repr

/-- A name is listed with the strings of one sort, or both files give it the same value. -/
def Stands (source variant : ResourceFile) (id : Text) : Standing -> Prop
  | .changed => id ∈ (between source variant).changed.map ChangedString.id
  | .newInSource => id ∈ (between source variant).newInSource.map NamedString.id
  | .obsolete => id ∈ (between source variant).obsolete.map NamedString.id
  | .same => exists value : Text, (id, value) ∈ source.strings ∧ (id, value) ∈ variant.strings

/-- What a standing says of the values that the two files give to the name. -/
def Standing.Says : Standing -> Option Text -> Option Text -> Prop
  | .changed, inSource, inVariant => exists value other : Text,
      inSource = some value ∧ inVariant = some other ∧ value ≠ other
  | .newInSource, inSource, inVariant => inSource.isSome = true ∧ inVariant = none
  | .obsolete, inSource, inVariant => inVariant.isSome = true ∧ inSource = none
  | .same, inSource, inVariant => exists value : Text,
      inSource = some value ∧ inVariant = some value

/-- Where a name stands to which the files give these values. -/
def standing? : Option Text -> Option Text -> Option Standing
  | some value, some other => if value = other then some .same else some .changed
  | some _, none => some .newInSource
  | none, some _ => some .obsolete
  | none, none => none

theorem standing?_eq_some_iff {inSource inVariant : Option Text} {standing : Standing} :
    standing? inSource inVariant = some standing ↔ standing.Says inSource inVariant := by
  cases inSource with
  | none => cases inVariant <;> cases standing <;> simp [standing?, Standing.Says]
  | some value =>
      cases inVariant with
      | none => cases standing <;> simp [standing?, Standing.Says]
      | some other =>
          by_cases hsame : value = other
          · cases standing <;> simp [standing?, Standing.Says, hsame]
          · cases standing <;> simp [standing?, Standing.Says, hsame, Ne.symm hsame]

theorem isSome_standing?_iff {inSource inVariant : Option Text} :
    (standing? inSource inVariant).isSome = true ↔
      inSource.isSome = true ∨ inVariant.isSome = true := by
  cases inSource with
  | none => cases inVariant <;> simp [standing?]
  | some value =>
      cases inVariant with
      | none => simp [standing?]
      | some other => by_cases hsame : value = other <;> simp [standing?, hsame]

/-- The files agree on a name when no other standing is possible. -/
theorem eq_iff_forall_standing? {inSource inVariant : Option Text} :
    inSource = inVariant ↔
      forall standing : Standing,
        standing? inSource inVariant = some standing -> standing = .same := by
  cases inSource with
  | none => cases inVariant <;> simp [standing?]
  | some value =>
      cases inVariant with
      | none => simp [standing?]
      | some other => by_cases hsame : value = other <;> simp [standing?, hsame]

/-!
# Members of the lists
-/

theorem mem_changed_iff
    {source variant : ResourceFile} {string : ChangedString} :
    string ∈ (between source variant).changed ↔
      (string.id, string.source) ∈ source.strings ∧
        variant.string? string.id = some string.variant ∧ string.source ≠ string.variant := by
  rw [between, List.mem_filterMap]
  constructor
  · rintro ⟨⟨id, value⟩, hmem, hstring⟩
    cases hother : variant.string? id with
    | none => simp [hother] at hstring
    | some other =>
        rw [hother] at hstring
        simp only [Option.ite_none_left_eq_some, Option.some.injEq] at hstring
        rcases hstring with ⟨hne, rfl⟩
        exact ⟨hmem, hother, fun heq => hne heq.symm⟩
  · rcases string with ⟨id, value, other⟩
    rintro ⟨hmem, hother, hne⟩
    refine ⟨(id, value), hmem, ?_⟩
    simp only [hother, if_neg fun heq : other = value => hne heq.symm]

theorem mem_missingFrom_iff
    {other file : ResourceFile} {string : NamedString} :
    string ∈ missingFrom other file ↔
      (string.id, string.value) ∈ file.strings ∧ other.string? string.id = none := by
  simp only [missingFrom, List.mem_map, List.mem_filter, Option.isNone_iff_eq_none, Prod.exists]
  constructor
  · rintro ⟨id, value, hmem, rfl⟩
    exact hmem
  · intro hmem
    exact ⟨string.id, string.value, hmem, rfl⟩

theorem mem_names_missingFrom_iff {other file : ResourceFile} {id : Text} :
    id ∈ (missingFrom other file).map NamedString.id ↔
      (file.string? id).isSome = true ∧ other.string? id = none := by
  rw [List.mem_map, ResourceFile.isSome_string?_iff, ← ResourceFile.mem_stringNames_iff,
    ResourceFile.stringNames, List.mem_map]
  constructor
  · rintro ⟨string, hstring, rfl⟩
    rcases mem_missingFrom_iff.mp hstring with ⟨hmem, hnone⟩
    exact ⟨⟨_, hmem, rfl⟩, hnone⟩
  · rintro ⟨⟨⟨id, value⟩, hmem, rfl⟩, hnone⟩
    exact ⟨⟨id, value⟩, mem_missingFrom_iff.mpr ⟨hmem, hnone⟩, rfl⟩

/-!
# Both passes together
-/

section Distinct

variable {source variant : ResourceFile}
  (hsource : source.stringNames.Nodup) (hvariant : variant.stringNames.Nodup)

include hsource

theorem mem_names_changed_iff {id : Text} :
    id ∈ (between source variant).changed.map ChangedString.id ↔
      exists value other : Text,
        source.string? id = some value ∧ variant.string? id = some other ∧ value ≠ other := by
  rw [List.mem_map]
  constructor
  · rintro ⟨string, hstring, rfl⟩
    rcases mem_changed_iff.mp hstring with ⟨hmem, hother, hne⟩
    exact ⟨_, _, (ResourceFile.string?_eq_some_iff hsource).mpr hmem, hother, hne⟩
  · rintro ⟨value, other, hvalue, hother, hne⟩
    have hmem := (ResourceFile.string?_eq_some_iff hsource).mp hvalue
    exact ⟨⟨id, value, other⟩, mem_changed_iff.mpr ⟨hmem, hother, hne⟩, rfl⟩

theorem nodup_changed : (between source variant).changed.Nodup := by
  have hstrings : source.strings.Nodup := List.Nodup.of_map Prod.fst hsource
  refine hstrings.filterMap ?_
  intro first second string hfirst hsecond
  rw [Option.mem_def] at hfirst hsecond
  split at hfirst
  · split at hsecond
    · rw [Option.ite_none_left_eq_some, Option.some.injEq] at hfirst hsecond
      -- A listed string holds the name and the value that it was listed for.
      have hsame := hfirst.2.trans hsecond.2.symm
      exact Prod.ext (congrArg ChangedString.id hsame) (congrArg ChangedString.source hsame)
    · cases hsecond
  · cases hfirst

include hvariant

/-- Where a name stands is said by what the two files give it. -/
theorem stands_iff {id : Text} {standing : Standing} :
    Stands source variant id standing ↔
      standing? (source.string? id) (variant.string? id) = some standing := by
  rw [standing?_eq_some_iff]
  cases standing with
  | changed => exact mem_names_changed_iff hsource
  | newInSource => exact mem_names_missingFrom_iff
  | obsolete => exact mem_names_missingFrom_iff
  | same =>
      simp only [Stands, Standing.Says, ResourceFile.string?_eq_some_iff hsource,
        ResourceFile.string?_eq_some_iff hvariant]

/-- A name has one standing if one of the files has a string of the name, and none otherwise. -/
theorem existsUnique_stands_iff {id : Text} :
    (∃! standing, Stands source variant id standing) ↔
      id ∈ source.stringNames ∨ id ∈ variant.stringNames := by
  simp only [stands_iff hsource hvariant, ResourceFile.mem_stringNames_iff,
    ← ResourceFile.isSome_string?_iff]
  rw [← isSome_standing?_iff, Option.isSome_iff_exists]
  constructor
  · exact ExistsUnique.exists
  · rintro ⟨standing, hstanding⟩
    exact ⟨standing, hstanding, fun other hother => Option.some.inj (hother.symm.trans hstanding)⟩

omit hsource hvariant in
theorem inSync_iff_forall_stands :
    (between source variant).inSync = true ↔
      forall (id : Text) (standing : Standing),
        Stands source variant id standing -> standing = .same := by
  simp only [inSync, Bool.and_eq_true, List.isEmpty_iff]
  constructor
  · rintro ⟨⟨hchanged, hnew⟩, hobsolete⟩ id standing hstands
    cases standing with
    | changed => simp [Stands, hchanged] at hstands
    | newInSource => simp [Stands, hnew] at hstands
    | obsolete => simp [Stands, hobsolete] at hstands
    | same => rfl
  · intro hsame
    have hnone : forall (id : Text) (standing : Standing), standing ≠ .same ->
        ¬ Stands source variant id standing :=
      fun id standing hne hstands => hne (hsame id standing hstands)
    refine ⟨⟨?_, ?_⟩, ?_⟩
    · rw [← List.map_eq_nil_iff, List.eq_nil_iff_forall_not_mem]
      exact fun id => hnone id .changed nofun
    · rw [← List.map_eq_nil_iff, List.eq_nil_iff_forall_not_mem]
      exact fun id => hnone id .newInSource nofun
    · rw [← List.map_eq_nil_iff, List.eq_nil_iff_forall_not_mem]
      exact fun id => hnone id .obsolete nofun

/-- Files without changes give the same values to the same names. -/
theorem inSync_iff :
    (between source variant).inSync = true ↔
      forall id : Text, source.string? id = variant.string? id := by
  simp only [inSync_iff_forall_stands, stands_iff hsource hvariant, eq_iff_forall_standing?]

/-- Compared from the other side, the same strings have different values. -/
theorem changed_swap :
    ((between variant source).changed).Perm
      ((between source variant).changed.map ChangedString.swap) := by
  have hnodup : ((between source variant).changed.map ChangedString.swap).Nodup :=
    (nodup_changed hsource).map ChangedString.swap_involutive.injective
  rw [List.perm_ext_iff_of_nodup (nodup_changed hvariant) hnodup]
  intro string
  rw [List.mem_map_of_involutive ChangedString.swap_involutive, mem_changed_iff, mem_changed_iff,
    ResourceFile.string?_eq_some_iff hsource, ResourceFile.string?_eq_some_iff hvariant]
  constructor
  · rintro ⟨hinVariant, hinSource, hne⟩
    exact ⟨hinSource, hinVariant, hne.symm⟩
  · rintro ⟨hinSource, hinVariant, hne⟩
    exact ⟨hinVariant, hinSource, hne.symm⟩

/-!
# Main statement
-/

/-- Changes of two files in which every string has a name of its own: there are none when both
files hold the same strings, a name of either file has one standing, and with the files exchanged
the new and the obsolete strings change places and the changed ones have their values exchanged. -/
theorem between_symmetric :
    ((between source variant).inSync = true ↔
        forall id value : Text, (id, value) ∈ source.strings ↔ (id, value) ∈ variant.strings) ∧
      (forall id : Text,
        (∃! standing, Stands source variant id standing) ↔
          id ∈ source.stringNames ∨ id ∈ variant.stringNames) ∧
      (between variant source).newInSource = (between source variant).obsolete ∧
      (between variant source).obsolete = (between source variant).newInSource ∧
      ((between variant source).changed).Perm
        ((between source variant).changed.map ChangedString.swap) := by
  refine ⟨?_, fun id => existsUnique_stands_iff hsource hvariant, rfl, rfl,
    changed_swap hsource hvariant⟩
  rw [inSync_iff hsource hvariant]
  apply forall_congr'
  intro id
  rw [Option.ext_iff]
  simp only [ResourceFile.string?_eq_some_iff hsource, ResourceFile.string?_eq_some_iff hvariant]

end Distinct

/-- Strings between plurals and arrays of the same names. -/
def tabs : ResourceFile :=
  ⟨"source".toList,
    [⟨"a".toList, .singular "Open tab".toList, true⟩,
      ⟨"b".toList, .plural (.ofList [(.other, "%d tabs".toList)]), true⟩,
      ⟨"b".toList, .singular "Close all tabs".toList, true⟩,
      ⟨"c".toList, .singular "New one".toList, true⟩]⟩

/-- A variant in another order, whose array has the name of a string that it lacks. -/
def tabsVariant : ResourceFile :=
  ⟨"en-rUS".toList,
    [⟨"old".toList, .singular "Gone".toList, true⟩,
      ⟨"c".toList, .array ["New one".toList], true⟩,
      ⟨"b".toList, .singular "Close tabs".toList, true⟩,
      ⟨"a".toList, .singular "Open tab".toList, true⟩]⟩

theorem between_symmetric_tabs :
    tabs.stringNames.Nodup ∧ tabsVariant.stringNames.Nodup ∧
      between tabs tabsVariant =
        ⟨[⟨"b".toList, "Close all tabs".toList, "Close tabs".toList⟩],
          [⟨"c".toList, "New one".toList⟩], [⟨"old".toList, "Gone".toList⟩]⟩ ∧
      (between tabs tabsVariant).inSync = false ∧
      (∃! standing, Stands tabs tabsVariant "c".toList standing) ∧
      (between tabsVariant tabs).newInSource = [⟨"old".toList, "Gone".toList⟩] ∧
      ((between tabsVariant tabs).changed).Perm
        [⟨"b".toList, "Close tabs".toList, "Close all tabs".toList⟩] := by
  have hsource : tabs.stringNames.Nodup := by decide
  have hvariant : tabsVariant.stringNames.Nodup := by decide
  rcases between_symmetric hsource hvariant with ⟨_, hstands, hnew, _, hchanged⟩
  exact ⟨hsource, hvariant, by decide, by decide, (hstands "c".toList).mpr (by decide),
    hnew.trans (by decide), hchanged⟩

end Changes
end AndroidStrings
