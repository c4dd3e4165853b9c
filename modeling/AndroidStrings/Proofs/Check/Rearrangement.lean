import AndroidStrings.Proofs.Check.Lookup
import AndroidStrings.Proofs.Document.Arrange

/-!
# Translations in another order

When the entries of a translation are arranged by the keys of the source, the first entry with a
key stays the first one with it, so every lookup finds what it found before.  The entries that the
source does not have stay in their order.  So the order of a translation matters neither to a check
nor to the changes.

## Main statements

- `find?_arranged` : what is looked up in an arranged file.
- `filter_entries_arranged` : the entries that the order does not name.
- `comparisons_arranged` : the check of an arranged translation, and its changes.
-/

namespace AndroidStrings

namespace ResourceFile

/-- A file with its entries arranged by an order, as sorting arranges them. -/
def arranged (file : ResourceFile) (order : List EntryKind.Key) : ResourceFile :=
  { file with entries := arrange (fun entry => some entry.key) order file.entries }

/-!
# Lookups
-/

section Lookup

variable (file : ResourceFile) (order : List EntryKind.Key) (kind : EntryKind) (id : Text)

theorem find?_arranged : (file.arranged order).find? kind id = file.find? kind id := by
  rw [find?, find?, ← List.head?_filter, ← List.head?_filter]
  congr 1
  apply filter_arrange
  intro wanted item _ hkey hitem other hother
  rw [Bool.and_eq_true, beq_iff_eq, beq_iff_eq] at hitem hother
  rw [← hkey, Entry.key, Entry.key, hitem.1, hitem.2, hother.1, hother.2]

theorem string?_arranged : (file.arranged order).string? id = file.string? id := by
  rw [string?, string?, find?_arranged]

theorem plural?_arranged : (file.arranged order).plural? id = file.plural? id := by
  rw [plural?, plural?, find?_arranged]

theorem contains_arranged :
    (file.arranged order).contains kind id = file.contains kind id := by
  rw [contains, contains, find?_arranged]

end Lookup

/-!
# Entries that are left over
-/

/-- Entries that the order does not name stay in their order. -/
theorem filter_entries_arranged
    {order : List EntryKind.Key} {isLeft : Entry -> Bool}
    (h : forall entry, isLeft entry = true -> entry.key ∉ order)
    (file : ResourceFile) :
    (file.arranged order).entries.filter isLeft = file.entries.filter isLeft := by
  apply filter_arrange
  intro wanted item hwanted hkey hitem
  rw [Option.some.injEq] at hkey
  exact absurd (hkey ▸ hwanted) (h item hitem)

end ResourceFile

section Arranged

variable (source file : ResourceFile)

theorem Check.obsoleteIssues_arranged :
    obsoleteIssues source (file.arranged source.order) = obsoleteIssues source file := by
  rw [obsoleteIssues, obsoleteIssues, ResourceFile.filter_entries_arranged]
  intro entry hleft hmem
  rw [ResourceFile.mem_order_iff.mp hmem] at hleft
  cases hleft

theorem Changes.missingFrom_arranged :
    missingFrom source (file.arranged source.order) = missingFrom source file := by
  rw [missingFrom_eq, missingFrom_eq, ResourceFile.filter_entries_arranged]
  intro entry hleft hmem
  rw [Bool.and_eq_true, beq_iff_eq] at hleft
  rw [Entry.key, hleft.1, ResourceFile.mem_order_iff] at hmem
  simp [hmem] at hleft

theorem Changes.missingFrom_of_arranged (order : List EntryKind.Key) :
    missingFrom (file.arranged order) source = missingFrom file source := by
  simp only [missingFrom, ResourceFile.string?_arranged]

end Arranged

/-!
# Main statement
-/

/-- A translation whose entries are arranged by the keys of the source is checked with the same
issues, in the same order, and has the same changes. -/
theorem comparisons_arranged (options : CheckOptions) (source translation : ResourceFile) :
    Check.checkLanguage options source (translation.arranged source.order) =
        Check.checkLanguage options source translation ∧
      Changes.between source (translation.arranged source.order) =
        Changes.between source translation := by
  have hentry : forall (english : Bool) (entry : Entry),
      Check.entryIssues options english (translation.arranged source.order) entry =
        Check.entryIssues options english translation entry := by
    intro english entry
    simp only [Check.entryIssues, ResourceFile.string?_arranged, ResourceFile.plural?_arranged,
      ResourceFile.contains_arranged]
  have hlabel : (translation.arranged source.order).language = translation.language := rfl
  constructor
  · simp only [Check.checkLanguage, Check.languageIssues, hlabel, Check.obsoleteIssues_arranged]
    rw [funext (hentry _)]
  · simp only [Changes.between, ResourceFile.string?_arranged, Changes.missingFrom_arranged,
      Changes.missingFrom_of_arranged]

end AndroidStrings
