import AndroidStrings.Proofs.Check.SelfCheck

/-!
# An entry that is added everywhere

A file that gains an entry with a new key finds the entry under its key, and everything else as
before.  When the source file and a translation gain the same entry, the source entry is compared
with itself, so the incremental mode has nothing to say about it.

## Main statements

- `Gains.find?_of_ne`, `Gains.find?_key` : lookups in a file with one entry more.
- `entryIssues_eq_nil` : an entry that the translation has with the same value.
- `languageIssues_of_gains` : a check of files that gain the same entry.
-/

namespace AndroidStrings

namespace ResourceFile

/-- One file has one entry more than the other, with a key that the other does not have. -/
structure Gains (entry : Entry) (file more : ResourceFile) : Prop where
  language : more.language = file.language
  fresh : entry.key ∉ file.order
  entries : exists front back : List Entry,
    file.entries = front ++ back ∧ more.entries = front ++ entry :: back

/-!
# Lookups
-/

namespace Gains

variable {entry : Entry} {file more : ResourceFile} {kind : EntryKind} {id : Text}

/-- Other keys are looked up as before. -/
theorem find?_of_ne
    (h : Gains entry file more)
    (hkey : (kind, id) ≠ entry.key) :
    more.find? kind id = file.find? kind id := by
  have hother : ¬ (entry.kind == kind && entry.id == id) = true := by
    rw [Bool.and_eq_true, beq_iff_eq, beq_iff_eq]
    rintro ⟨rfl, rfl⟩
    exact hkey rfl
  rcases h.entries with ⟨front, back, hfile, hmore⟩
  rw [find?, find?, hfile, hmore, List.find?_append, List.find?_append,
    List.find?_cons_of_neg (p := fun other : Entry => other.kind == kind && other.id == id) hother]

theorem string?_of_ne
    (h : Gains entry file more)
    (hkey : (.string, id) ≠ entry.key) :
    more.string? id = file.string? id := by
  rw [string?, string?, h.find?_of_ne hkey]

theorem plural?_of_ne
    (h : Gains entry file more)
    (hkey : (.plurals, id) ≠ entry.key) :
    more.plural? id = file.plural? id := by
  rw [plural?, plural?, h.find?_of_ne hkey]

theorem contains_of_ne
    (h : Gains entry file more)
    (hkey : (kind, id) ≠ entry.key) :
    more.contains kind id = file.contains kind id := by
  rw [contains, contains, h.find?_of_ne hkey]

/-- The new entry is the only one of its key, so it is found. -/
theorem find?_key (h : Gains entry file more) : more.find? entry.kind entry.id = some entry := by
  rcases h.entries with ⟨front, back, hfile, hmore⟩
  have hnone : front.find? (fun other => other.kind == entry.kind && other.id == entry.id) =
      none := by
    rw [List.find?_eq_none]
    intro other hother hsame
    rw [Bool.and_eq_true, beq_iff_eq, beq_iff_eq] at hsame
    apply h.fresh
    rw [order, hfile, List.mem_map]
    exact ⟨other, List.mem_append_left back hother, Prod.ext hsame.1 hsame.2⟩
  rw [find?, hmore, List.find?_append, hnone, Option.none_or, List.find?_cons_of_pos (by simp)]

end Gains

end ResourceFile

namespace Check

open ResourceFile

/-!
# Issues
-/

/-- An entry that the translation has with the same value has no issue in the incremental mode. -/
theorem entryIssues_eq_nil
    {options : CheckOptions} {translation : ResourceFile} {entry found : Entry}
    (hmode : options.isFull = false)
    (hfind : translation.find? entry.kind entry.id = some found)
    (hvalue : found.value = entry.value)
    (english : Bool) :
    entryIssues options english translation entry = [] := by
  rw [List.eq_nil_iff_forall_not_mem]
  intro issue hissue
  have hfull := (mem_entryIssues_of_same hfind hvalue hissue).full
  rw [hmode] at hfull
  cases hfull

section Gains

variable {entry : Entry} {source source' translation translation' : ResourceFile}

/-- An entry of another key is compared as before. -/
theorem entryIssues_of_gains
    {other : Entry}
    (h : Gains entry translation translation')
    (hkey : other.key ≠ entry.key)
    (options : CheckOptions) (english : Bool) :
    entryIssues options english translation' other =
      entryIssues options english translation other := by
  rw [Entry.key, Entry.kind] at hkey
  rw [entryIssues, entryIssues]
  cases hvalue : other.value with
  | singular value =>
      rw [hvalue] at hkey
      exact congrArg (stringIssues options english other.id value) (h.string?_of_ne hkey)
  | plural forms =>
      rw [hvalue] at hkey
      exact congrArg (pluralIssues options english other.id forms) (h.plural?_of_ne hkey)
  | array items =>
      rw [hvalue] at hkey
      exact congrArg (arrayIssues options other.id) (h.contains_of_ne hkey)

/-- A source file and a translation that gain the same entry have the issues that they had, in the
incremental mode. -/
theorem languageIssues_of_gains
    {options : CheckOptions}
    (hmode : options.isFull = false)
    (hsource : Gains entry source source')
    (htranslation : Gains entry translation translation') :
    languageIssues options source' translation' = languageIssues options source translation := by
  let english := Qualifier.isEnglish translation.language
  have hnew : entryIssues options english translation' entry = [] :=
    entryIssues_eq_nil hmode htranslation.find?_key rfl english
  have hold : forall other, other ∈ source.entries.filter Entry.translatable ->
      entryIssues options english translation' other =
        entryIssues options english translation other := by
    intro other hother
    apply entryIssues_of_gains htranslation
    intro hkey
    exact hsource.fresh (List.mem_map.mpr ⟨other, List.mem_of_mem_filter hother, hkey⟩)
  rcases hsource.entries with ⟨front, back, hentries, hentries'⟩
  have hfound : (source'.entries.filter Entry.translatable).flatMap
      (entryIssues options english translation') =
        (source.entries.filter Entry.translatable).flatMap
          (entryIssues options english translation') := by
    rw [hentries', hentries, List.filter_append, List.filter_append, List.flatMap_append,
      List.flatMap_append, List.filter_cons]
    split
    · rw [List.flatMap_cons, hnew, List.nil_append]
    · rfl
  simp only [languageIssues, hmode, htranslation.language, Bool.false_eq_true, if_false]
  exact hfound.trans (List.flatMap_congr hold)

end Gains

end Check
end AndroidStrings
