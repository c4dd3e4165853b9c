import Mathlib.Data.List.Nodup
import AndroidStrings.Proofs.Check.Lookup

/-!
# A file checked against itself

An entry that a translation has with the same value has the same placeholders, and in a variant of
English it is what it should be.  So all there is to say about it is that it was copied, and this
only the full mode says, of other languages.

## Main statements

- `ResourceFile.find?_of_mem` : an entry with a key of its own is found under the key.
- `mem_entryIssues_of_same` : an entry that the translation has with the same value.
- `checkLanguage_self` : a file checked against its own entries.
-/

namespace AndroidStrings

namespace ResourceFile

/-!
# Entries with keys of their own
-/

section Nodup

variable {file : ResourceFile} (hnodup : file.order.Nodup)

include hnodup

theorem find?_of_mem
    {entry : Entry}
    (hentry : entry ∈ file.entries) :
    file.find? entry.kind entry.id = some entry := by
  have hsome : (file.find? entry.kind entry.id).isSome = true := by
    rw [find?, List.find?_isSome]
    exact ⟨entry, hentry, by simp⟩
  rcases Option.isSome_iff_exists.mp hsome with ⟨found, hfind⟩
  have hmatch := List.find?_some hfind
  rw [Bool.and_eq_true, beq_iff_eq, beq_iff_eq] at hmatch
  have hsame : found = entry :=
    List.inj_on_of_nodup_map hnodup (List.mem_of_find?_eq_some hfind) hentry
      (Prod.ext hmatch.1 hmatch.2)
  rw [hfind, hsame]

theorem string?_of_mem_strings
    {id value : Text}
    (hstring : (id, value) ∈ file.strings) :
    file.string? id = some value := by
  rcases mem_strings_iff.mp hstring with ⟨entry, hentry, rfl, hvalue⟩
  have hfind := find?_of_mem hnodup hentry
  rw [Entry.kind, hvalue, EntryValue.kind] at hfind
  rw [string?, hfind, Option.map_some, hvalue]

end Nodup

end ResourceFile

/-- A value that is the same as in the source. -/
def Issue.isUntranslated : Issue -> Bool
  | untranslated _ _ | untranslatedQuantity _ _ _ => true
  | _ => false

namespace Check

/-!
# Issues of values that are the same
-/

theorem placeholderIssues_self (id value : Text) : placeholderIssues id value value = [] := by
  rw [placeholderIssues, Placeholder.agree, beq_self_eq_true, if_pos rfl]

/-- The issue says that a value was copied, in a full check of another language than English. -/
structure SaysCopied (options : CheckOptions) (english : Bool) (issue : Issue) : Prop where
  full : options.isFull = true
  foreign : english = false
  untranslated : issue.isUntranslated = true

section Same

variable {options : CheckOptions} {english : Bool} {issue : Issue}

theorem mem_stringIssues_of_same
    {id value : Text}
    (h : issue ∈ stringIssues options english id value (some value)) :
    SaysCopied options english issue := by
  rw [stringIssues, placeholderIssues_self, List.append_nil] at h
  cases hfull : options.isFull with
  | false => simp [hfull] at h
  | true =>
      rw [hfull, if_pos rfl, mem_copyIssues_iff] at h
      rcases h with ⟨_, ⟨_, hdiffers, _⟩ | ⟨hforeign, _, rfl⟩ | ⟨_, hdiffers, _⟩⟩
      · exact absurd rfl hdiffers
      · exact ⟨hfull, hforeign, rfl⟩
      · exact absurd rfl hdiffers

theorem mem_pluralIssues_of_same
    {id : Text} {forms : Plural}
    (h : issue ∈ pluralIssues options english id forms (some forms)) :
    SaysCopied options english issue := by
  rcases List.mem_flatMap.mp h with ⟨form, hform, hissue⟩
  rcases List.mem_filterMap.mp hform with ⟨quantity, _, hquantity⟩
  rcases Option.map_eq_some_iff.mp hquantity with ⟨value, hvalue, rfl⟩
  simp only [formIssues, hvalue, Option.some_or, formPlaceholderIssues, Placeholder.agree,
    beq_self_eq_true, if_true, List.append_nil] at hissue
  cases hfull : options.isFull with
  | false => simp [hfull] at hissue
  | true =>
      rw [hfull, if_pos rfl, formCopyIssues, if_pos rfl] at hissue
      split at hissue
      · cases hissue
      · rename_i henglish
        split at hissue
        · rw [List.mem_singleton.mp hissue]
          exact ⟨hfull, Bool.eq_false_iff.mpr henglish, rfl⟩
        · cases hissue

/-- An entry that the translation has with the same value is at most said to be copied. -/
theorem mem_entryIssues_of_same
    {translation : ResourceFile} {entry found : Entry}
    (hfind : translation.find? entry.kind entry.id = some found)
    (hvalue : found.value = entry.value)
    (h : issue ∈ entryIssues options english translation entry) :
    SaysCopied options english issue := by
  rw [Entry.kind] at hfind
  rw [entryIssues] at h
  cases hcase : entry.value with
  | singular value =>
      rw [hcase] at hfind hvalue h
      have hstring : translation.string? entry.id = some value := by
        rw [ResourceFile.string?, show translation.find? .string entry.id = some found from hfind,
          Option.map_some, hvalue]
      simp only [hstring] at h
      exact mem_stringIssues_of_same h
  | plural forms =>
      rw [hcase] at hfind hvalue h
      have hplural : translation.plural? entry.id = some forms := by
        rw [ResourceFile.plural?, show translation.find? .plurals entry.id = some found from hfind,
          Option.map_some, hvalue]
      simp only [hplural] at h
      exact mem_pluralIssues_of_same h
  | array items =>
      rw [hcase] at hfind h
      have hcontains : translation.contains .stringArray entry.id = true := by
        rw [ResourceFile.contains,
          show translation.find? .stringArray entry.id = some found from hfind]
        rfl
      simp [hcontains, arrayIssues] at h

end Same

/-!
# The file as its own translation
-/

section Self

variable {source : ResourceFile} (hnodup : source.order.Nodup) (label : Text)

include hnodup

theorem obsoleteIssues_self : obsoleteIssues source ⟨label, source.entries⟩ = [] := by
  rw [obsoleteIssues, List.map_eq_nil_iff, List.filter_eq_nil_iff]
  intro entry hentry
  have hfind := source.find?_of_mem hnodup hentry
  simp [ResourceFile.contains, hfind]

/-- All that a check of a file against its own entries finds are copies. -/
theorem mem_languageIssues_self
    {options : CheckOptions} {issue : Issue}
    (h : issue ∈ languageIssues options source ⟨label, source.entries⟩) :
    SaysCopied options (Qualifier.isEnglish label) issue := by
  rcases mem_languageIssues_iff.mp h with ⟨entry, hentry, _, hissue⟩ | ⟨_, hobsolete⟩
  · exact mem_entryIssues_of_same (source.find?_of_mem hnodup hentry) rfl hissue
  · rw [obsoleteIssues_self hnodup] at hobsolete
    cases hobsolete

end Self

end Check

theorem Changes.missingFrom_self
    {file : ResourceFile}
    (hnodup : file.order.Nodup)
    (label label' : Text) :
    missingFrom ⟨label, file.entries⟩ ⟨label', file.entries⟩ = [] := by
  rw [missingFrom, List.map_eq_nil_iff, List.filter_eq_nil_iff]
  rintro ⟨id, value⟩ hstring
  have hsome : file.string? id = some value := file.string?_of_mem_strings hnodup hstring
  simp [show ResourceFile.string? ⟨label, file.entries⟩ id = some value from hsome]

theorem Changes.inSync_self
    {source : ResourceFile}
    (hnodup : source.order.Nodup)
    (label : Text) :
    (between source ⟨label, source.entries⟩).inSync = true := by
  have hchanged : (between source ⟨label, source.entries⟩).changed = [] := by
    rw [between, List.filterMap_eq_nil_iff]
    rintro ⟨id, value⟩ hstring
    have hsome : source.string? id = some value := source.string?_of_mem_strings hnodup hstring
    simp [show ResourceFile.string? ⟨label, source.entries⟩ id = some value from hsome]
  rw [inSync, hchanged, between, missingFrom_self hnodup label source.language,
    missingFrom_self hnodup source.language label]
  rfl

namespace Check

/-!
# Main statement
-/

/-- A file in which every key is used once, checked against its own entries under some label: the
incremental mode reports nothing, the full mode reports nothing for English and only untranslated
values for other languages, and there are no changes. -/
theorem checkLanguage_self
    {source : ResourceFile}
    (hnodup : source.order.Nodup)
    (options : CheckOptions) (label : Text) :
    (options.mode = .incremental ->
        (checkLanguage options source ⟨label, source.entries⟩).issues = []) ∧
      (options.mode = .full -> Qualifier.isEnglish label = true ->
        (checkLanguage options source ⟨label, source.entries⟩).issues = []) ∧
      (options.mode = .full -> Qualifier.isEnglish label = false ->
        forall issue, issue ∈ (checkLanguage options source ⟨label, source.entries⟩).issues ->
          (exists id value : Text, issue = .untranslated id value) ∨
            exists (id : Text) (quantity : Quantity) (value : Text),
              issue = .untranslatedQuantity id quantity value) ∧
      (Changes.between source ⟨label, source.entries⟩).inSync = true := by
  refine ⟨?_, ?_, ?_, Changes.inSync_self hnodup label⟩
  · intro hmode
    rw [List.eq_nil_iff_forall_not_mem]
    intro issue hissue
    have hfull := (mem_languageIssues_self hnodup label hissue).full
    rw [CheckOptions.isFull, hmode] at hfull
    cases hfull
  · intro _ henglish
    rw [List.eq_nil_iff_forall_not_mem]
    intro issue hissue
    have hforeign := (mem_languageIssues_self hnodup label hissue).foreign
    rw [henglish] at hforeign
    cases hforeign
  · intro _ _ issue hissue
    have hcopied := (mem_languageIssues_self hnodup label hissue).untranslated
    cases issue with
    | untranslated id value => exact .inl ⟨id, value, rfl⟩
    | untranslatedQuantity id quantity value => exact .inr ⟨id, quantity, value, rfl⟩
    | _ => cases hcopied

/-- A string, plurals and an array of one name, and a string that is not to be translated. -/
def sharedNames : ResourceFile :=
  ⟨"source".toList,
    [⟨"a".toList, .singular "Open %s".toList, true⟩,
      ⟨"a".toList, .plural (.ofList [(.one, "%d tab".toList), (.other, "all".toList)]), true⟩,
      ⟨"a".toList, .array ["x".toList], true⟩, ⟨"b".toList, .singular "Keep".toList, false⟩]⟩

theorem checkLanguage_self_sharedNames :
    let issues := fun (mode : CheckMode) (label : String) =>
      (checkLanguage ⟨mode, 1, .standard⟩ sharedNames ⟨label.toList, sharedNames.entries⟩).issues
    sharedNames.order.Nodup ∧ issues .incremental "de" = [] ∧ issues .full "en-rGB" = [] ∧
      issues .full "de" = [.untranslated "a".toList "Open %s".toList,
        .untranslatedQuantity "a".toList .one "%d tab".toList] ∧
      (Changes.between sharedNames ⟨"de".toList, sharedNames.entries⟩).inSync = true := by
  intro issues
  have hnodup : sharedNames.order.Nodup := by decide
  have henglish : Qualifier.isEnglish "en-rGB".toList = true := by decide +kernel
  have hincremental := checkLanguage_self hnodup ⟨.incremental, 1, .standard⟩ "de".toList
  have hfull := checkLanguage_self hnodup ⟨.full, 1, .standard⟩ "en-rGB".toList
  exact ⟨hnodup, hincremental.1 rfl, hfull.2.1 rfl henglish, by decide +kernel,
    hincremental.2.2.2⟩

end Check
end AndroidStrings
