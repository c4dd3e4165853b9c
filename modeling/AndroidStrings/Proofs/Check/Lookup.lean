import Mathlib.Data.List.Basic
import Mathlib.Data.List.Find
import AndroidStrings.Changes
import AndroidStrings.Check.Report

/-!
# Entries that a check looks up

The issues of an entry carry its name, and what is looked up for them in the translation goes by
that name.  So the entries of some names can be left out of both files, and the issues of the other
names stay as they are.

## Main statements

- `named_entryIssues` : the name that the issues of an entry carry.
- `Changes.missingFrom_eq` : the strings that another file lacks, by its entries.
- `find?_without` : names that are looked up and stay.
- `mem_languageIssues_iff`, `mem_copyIssues_iff` : where an issue of a report comes from.
- `languageIssues_without` : a report on files without the entries of some names.
-/

namespace AndroidStrings

/-!
# Entries and strings of a file
-/

namespace ResourceFile

theorem mem_order_iff {file : ResourceFile} {kind : EntryKind} {id : Text} :
    (kind, id) ∈ file.order ↔ file.contains kind id = true := by
  simp only [order, List.mem_map, contains, find?, List.find?_isSome, Bool.and_eq_true,
    beq_iff_eq, Entry.key, Prod.mk.injEq]

theorem kind_of_find?
    {file : ResourceFile} {kind : EntryKind} {id : Text} {entry : Entry}
    (h : file.find? kind id = some entry) :
    entry.kind = kind := by
  have hmatch := List.find?_some h
  rw [Bool.and_eq_true, beq_iff_eq] at hmatch
  exact hmatch.1

theorem mem_strings_iff {file : ResourceFile} {id text : Text} :
    (id, text) ∈ file.strings ↔
      exists entry, entry ∈ file.entries ∧ entry.id = id ∧ entry.value = .singular text := by
  rw [strings, List.mem_filterMap]
  constructor
  · rintro ⟨entry, hentry, hstring⟩
    refine ⟨entry, hentry, ?_⟩
    cases hvalue : entry.value with
    | singular found =>
        simp only [hvalue, Option.some.injEq, Prod.mk.injEq] at hstring
        exact ⟨hstring.1, congrArg EntryValue.singular hstring.2⟩
    | _ => simp [hvalue] at hstring
  · rintro ⟨entry, hentry, rfl, hvalue⟩
    exact ⟨entry, hentry, by rw [hvalue]⟩

theorem mem_strings_of_string?
    {file : ResourceFile} {id text : Text}
    (h : file.string? id = some text) :
    (id, text) ∈ file.strings := by
  unfold string? at h
  split at h
  · rename_i value hvalue
    rcases Option.map_eq_some_iff.mp hvalue with ⟨entry, hfind, hentry⟩
    have hmatch := List.find?_some hfind
    rw [Bool.and_eq_true, beq_iff_eq, beq_iff_eq] at hmatch
    rw [Option.some.inj h] at hentry
    exact mem_strings_iff.mpr ⟨entry, List.mem_of_find?_eq_some hfind, hmatch.2, hentry⟩
  · cases h

theorem isNone_string? (file : ResourceFile) (id : Text) :
    (file.string? id).isNone = !file.contains .string id := by
  rw [string?, contains]
  cases hfind : file.find? .string id with
  | none => rfl
  | some entry =>
      have hkind := kind_of_find? hfind
      rw [Entry.kind] at hkind
      cases hvalue : entry.value with
      | singular text => simp [hvalue]
      | _ => simp [hvalue, EntryValue.kind] at hkind

theorem isSome_string?_iff {file : ResourceFile} {id : Text} :
    (file.string? id).isSome = true ↔ (EntryKind.string, id) ∈ file.order := by
  rw [← Option.not_isNone, isNone_string?, Bool.not_not, mem_order_iff]

/-- The names of the strings, in file order. -/
def stringNames (file : ResourceFile) : List Text :=
  file.strings.map Prod.fst

theorem mem_stringNames_iff {file : ResourceFile} {id : Text} :
    id ∈ file.stringNames ↔ (EntryKind.string, id) ∈ file.order := by
  rw [stringNames, List.mem_map]
  constructor
  · rintro ⟨⟨id, text⟩, hstring, rfl⟩
    rcases mem_strings_iff.mp hstring with ⟨entry, hentry, rfl, hvalue⟩
    refine List.mem_map.mpr ⟨entry, hentry, ?_⟩
    rw [Entry.key, Entry.kind, hvalue, EntryValue.kind]
  · intro hkey
    rcases Option.isSome_iff_exists.mp (isSome_string?_iff.mpr hkey) with ⟨text, htext⟩
    exact ⟨(id, text), mem_strings_of_string? htext, rfl⟩

end ResourceFile

/-- The strings that another file lacks are the entries that it lacks, as far as they are
strings. -/
theorem Changes.missingFrom_eq (other file : ResourceFile) :
    missingFrom other file = (file.entries.filter fun entry =>
      entry.kind == .string && !other.contains .string entry.id).filterMap fun entry =>
        match entry.value with
        | .singular text => some ⟨entry.id, text⟩
        | _ => none := by
  rw [missingFrom, ResourceFile.strings, List.filter_filterMap, List.map_filterMap,
    List.filterMap_filter]
  apply List.filterMap_congr
  intro entry _
  rw [Entry.kind]
  cases entry.value with
  | singular text =>
      cases hcontains : other.contains .string entry.id <;>
        simp [EntryValue.kind, Option.filter, ResourceFile.isNone_string?, hcontains]
  | _ => simp [EntryValue.kind]

/-!
# Files without some names
-/

namespace ResourceFile

/-- A file without the entries of some names. -/
def without (file : ResourceFile) (ids : List Text) : ResourceFile :=
  { file with entries := file.entries.filter fun entry => !ids.contains entry.id }

theorem entries_without (file : ResourceFile) (ids : List Text) :
    (file.without ids).entries = file.entries.filter fun entry => !ids.contains entry.id :=
  rfl

section Without

variable {ids : List Text} {id : Text} (h : id ∉ ids) (file : ResourceFile)

include h

/-- Entries of other names are found as before. -/
theorem find?_without (kind : EntryKind) :
    (file.without ids).find? kind id = file.find? kind id := by
  unfold ResourceFile.find? without
  rw [List.find?_filter]
  apply List.find?_congr
  intro entry _
  rw [Bool.eq_iff_iff]
  simp only [decide_eq_true_eq, Bool.and_eq_true, Bool.not_eq_true', beq_iff_eq,
    List.contains_eq_mem, decide_eq_false_iff_not]
  constructor
  · exact And.right
  · rintro ⟨hkind, rfl⟩
    exact ⟨h, hkind, rfl⟩

theorem contains_without (kind : EntryKind) :
    (file.without ids).contains kind id = file.contains kind id := by
  unfold ResourceFile.contains
  rw [find?_without h]

theorem string?_without : (file.without ids).string? id = file.string? id := by
  unfold ResourceFile.string?
  rw [find?_without h]

theorem plural?_without : (file.without ids).plural? id = file.plural? id := by
  unfold ResourceFile.plural?
  rw [find?_without h]

end Without

end ResourceFile

namespace Check

/-!
# Issues of a report
-/

theorem mem_languageIssues_iff
    {options : CheckOptions} {source translation : ResourceFile} {issue : Issue} :
    issue ∈ languageIssues options source translation ↔
      (exists entry, entry ∈ source.entries ∧ entry.translatable = true ∧
        issue ∈ entryIssues options (Qualifier.isEnglish translation.language) translation
          entry) ∨
        options.isFull = true ∧ issue ∈ obsoleteIssues source translation := by
  unfold languageIssues
  cases options.isFull <;> simp [and_assoc]

/-- A string has at most one of three issues besides those of its placeholders. -/
theorem mem_copyIssues_iff
    {options : CheckOptions} {english : Bool} {id source translation : Text} {issue : Issue} :
    issue ∈ copyIssues options english id source translation ↔
      options.exemptions.allowsCopy id source translation = false ∧
        (english = true ∧ source ≠ translation ∧
            issue = .differsFromSource id source translation ∨
          english = false ∧ source = translation ∧ issue = .untranslated id source ∨
          english = false ∧ source ≠ translation ∧
            (0 < options.nearThreshold ∧
              Text.difference translation source ≤ options.nearThreshold) ∧
            issue = .nearMatch id (Text.difference translation source) source translation) := by
  unfold copyIssues
  cases options.exemptions.allowsCopy id source translation with
  | true => simp
  | false =>
      by_cases hcopied : source = translation
      · cases english <;> simp [hcopied]
      · cases english with
        | true => simp [hcopied]
        | false =>
            by_cases hnear : 0 < options.nearThreshold ∧
                Text.difference translation source ≤ options.nearThreshold
            · simp [hcopied, hnear]
            · simp [hcopied, hnear]

/-!
# Names of issues
-/

/-- All issues of a list carry a name. -/
def Named (id : Text) (issues : List Issue) : Prop :=
  forall issue, issue ∈ issues -> issue.id = id

namespace Named

variable {id : Text} {issue : Issue} {issues more : List Issue}

theorem nil : Named id [] :=
  fun _ h => absurd h List.not_mem_nil

theorem single (h : issue.id = id) : Named id [issue] :=
  List.forall_mem_singleton.mpr h

theorem append
    (h : Named id issues)
    (hmore : Named id more) :
    Named id (issues ++ more) :=
  fun issue hissue => (List.mem_append.mp hissue).elim (h issue) (hmore issue)

theorem ite {c : Prop} [Decidable c]
    (h : Named id issues)
    (hmore : Named id more) :
    Named id (if c then issues else more) := by
  split
  · exact h
  · exact hmore

theorem flatMap {α : Type} {items : List α} {found : α -> List Issue}
    (h : forall item, Named id (found item)) :
    Named id (items.flatMap found) := by
  intro issue hissue
  rcases List.mem_flatMap.mp hissue with ⟨item, _, hfound⟩
  exact h item issue hfound

end Named

section Names

variable (options : CheckOptions) (english : Bool) (id source translation : Text)
  (quantity : Quantity)

theorem named_copyIssues : Named id (copyIssues options english id source translation) := by
  unfold copyIssues
  exact .ite .nil (.ite (.ite .nil (.single rfl)) (.ite (.single rfl) (.ite (.single rfl) .nil)))

theorem named_stringIssues (found : Option Text) :
    Named id (stringIssues options english id source found) := by
  cases found with
  | none => exact .ite .nil (.single rfl)
  | some value =>
      refine .append (.ite ?_ .nil) (.ite .nil (.single rfl))
      exact named_copyIssues options english id source value

theorem named_formIssues (plural : Plural) :
    Named id (formIssues options english id plural quantity translation) := by
  apply Named.append
  · cases plural.get? quantity with
    | none => exact .nil
    | some form => exact .ite (.ite (.ite .nil (.single rfl)) (.ite (.single rfl) .nil)) .nil
  · cases (plural.get? quantity).or (plural.get? .other) with
    | none => exact .nil
    | some form => exact .ite .nil (.single rfl)

theorem named_pluralIssues (plural : Plural) (found : Option Plural) :
    Named id (pluralIssues options english id plural found) := by
  cases found with
  | none => exact .single rfl
  | some forms => exact .flatMap fun form => named_formIssues options english id form.2 form.1 plural

/-- The issues of an entry carry its name. -/
theorem named_entryIssues (translation : ResourceFile) (entry : Entry) :
    Named entry.id (entryIssues options english translation entry) := by
  unfold entryIssues
  cases entry.value with
  | singular source => exact named_stringIssues _ _ _ _ _
  | plural source => exact named_pluralIssues _ _ _ _ _
  | array items => exact .ite .nil (.single rfl)

end Names

/-!
# Reports without some names
-/

section Without

variable {ids : List Text}

/-- The issues of other names. -/
def issuesWithout (ids : List Text) (issues : List Issue) : List Issue :=
  issues.filter fun issue => !ids.contains issue.id

theorem Named.issuesWithout_eq_self
    {id : Text} {issues : List Issue}
    (hnamed : Named id issues)
    (h : id ∉ ids) :
    issuesWithout ids issues = issues := by
  rw [issuesWithout, List.filter_eq_self]
  intro issue hissue
  simpa [hnamed issue hissue] using h

theorem Named.issuesWithout_eq_nil
    {id : Text} {issues : List Issue}
    (hnamed : Named id issues)
    (h : id ∈ ids) :
    issuesWithout ids issues = [] := by
  rw [issuesWithout, List.filter_eq_nil_iff]
  intro issue hissue
  simpa [hnamed issue hissue] using h

/-- An entry of another name is looked up as before, so it has the issues that it had. -/
theorem entryIssues_without
    {entry : Entry}
    (h : entry.id ∉ ids)
    (options : CheckOptions) (english : Bool) (translation : ResourceFile) :
    entryIssues options english (translation.without ids) entry =
      entryIssues options english translation entry := by
  simp only [entryIssues, ResourceFile.string?_without h, ResourceFile.plural?_without h,
    ResourceFile.contains_without h]

theorem flatMap_entryIssues_without (options : CheckOptions) (english : Bool)
    (translation : ResourceFile) (entries : List Entry) :
    (entries.filter fun entry => !ids.contains entry.id).flatMap
        (entryIssues options english (translation.without ids)) =
      issuesWithout ids (entries.flatMap (entryIssues options english translation)) := by
  induction entries with
  | nil => rfl
  | cons entry entries ih =>
      have hnamed := named_entryIssues options english translation entry
      rw [List.flatMap_cons, issuesWithout, List.filter_append]
      by_cases hid : entry.id ∈ ids
      · rw [List.filter_cons_of_neg (by simpa using hid), ih]
        exact (congrArg (· ++ _) (hnamed.issuesWithout_eq_nil hid)).symm
      · rw [List.filter_cons_of_pos (by simpa using hid), List.flatMap_cons, ih,
          entryIssues_without hid]
        exact (congrArg (· ++ _) (hnamed.issuesWithout_eq_self hid)).symm

theorem obsoleteIssues_without (source translation : ResourceFile) :
    obsoleteIssues (source.without ids) (translation.without ids) =
      issuesWithout ids (obsoleteIssues source translation) := by
  rw [obsoleteIssues, obsoleteIssues, issuesWithout, List.filter_map, List.filter_filter,
    ResourceFile.entries_without, List.filter_filter]
  congr 1
  apply List.filter_congr
  intro entry _
  by_cases hid : entry.id ∈ ids
  · simp [hid, Issue.id]
  · simp [hid, Issue.id, ResourceFile.contains_without hid]

/-- Without the entries of some names, the report has the issues of the other names. -/
theorem languageIssues_without (options : CheckOptions) (source translation : ResourceFile) :
    languageIssues options (source.without ids) (translation.without ids) =
      issuesWithout ids (languageIssues options source translation) := by
  have htranslatable : (source.without ids).entries.filter Entry.translatable =
      (source.entries.filter Entry.translatable).filter fun entry => !ids.contains entry.id := by
    rw [ResourceFile.entries_without, List.filter_filter, List.filter_filter]
    simp only [Bool.and_comm]
  have hlabel : (translation.without ids).language = translation.language := rfl
  simp only [languageIssues, htranslatable, hlabel, flatMap_entryIssues_without,
    obsoleteIssues_without]
  split
  · exact (List.filter_append ..).symm
  · rfl

end Without

end Check
end AndroidStrings
