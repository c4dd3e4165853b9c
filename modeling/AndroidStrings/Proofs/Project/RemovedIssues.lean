import AndroidStrings.Project.Check
import AndroidStrings.Proofs.Check.Lookup
import AndroidStrings.Proofs.Project.Completed

/-!
# Issues of names that are removed

Files without the entries of some names are checked like the files before, and the issues of these
names are gone.  Files that cannot be read are left out of the report before and after.

## Main statements

- `RemovesNames.loadResource_eq` : what is read of a file when names have been removed.
- `RemovesNames.check_eq` : the report on all languages when names have been removed.
- `check_remove` : the report behind a removal that fails nowhere.
-/

namespace AndroidStrings

/-!
# Reports without some names
-/

def LanguageReport.without (ids : List Text) (report : LanguageReport) : LanguageReport :=
  { report with issues := Check.issuesWithout ids report.issues }

/-- A report without the issues of some names. -/
def CheckReport.without (ids : List Text) (report : CheckReport) : CheckReport :=
  { report with languages := report.languages.map (LanguageReport.without ids) }

theorem Check.checkAll_without (options : CheckOptions) (ids : List Text) (source : ResourceFile)
    (translations : List ResourceFile) :
    checkAll options (source.without ids) (translations.map fun file => file.without ids) =
      (checkAll options source translations).without ids := by
  have hlanguage : forall translation : ResourceFile,
      checkLanguage options (source.without ids) (translation.without ids) =
        (checkLanguage options source translation).without ids := by
    intro translation
    rw [checkLanguage, languageIssues_without]
    rfl
  simp only [checkAll, CheckReport.without, List.map_map, Function.comp_def, hlanguage]

theorem Document.LeftWithout.resource_eq
    {ids : List Text} {document left : Document}
    (h : document.LeftWithout ids left)
    (language : Text) :
    left.resource language = (document.resource language).without ids := by
  rw [resource, h.entries]
  rfl

namespace ResourceDirectory

variable {directory : ResourceDirectory} {tree left : FileTree} {ids : List Text}

/-!
# Names that have been removed
-/

/-- A file is read without the entries that have been removed, or it cannot be read, as before. -/
theorem RemovesNames.loadResource_eq
    {language : Text}
    (h : directory.RemovesNames ids tree left)
    (hplain : directory.PlainTargets tree)
    (hlanguage : language ∈ directory.everyLanguage tree) :
    loadResource left directory language =
      (loadResource tree directory language).map fun file => file.without ids := by
  unfold loadResource
  cases hload : load tree directory language with
  | error fault =>
      rw [load_eq_of_read? h.names (h.unreadable language fault hlanguage hload), hload]
      rfl
  | ok document =>
      rcases h.removed language document hlanguage hload (hplain language document hlanguage hload)
        with ⟨new, hnew, _, hwithout⟩
      rw [hnew]
      exact congrArg Except.ok (hwithout.resource_eq language)

theorem RemovesNames.readable_eq
    {found : List Text}
    (h : directory.RemovesNames ids tree left)
    (hplain : directory.PlainTargets tree)
    (hfound : forall language, language ∈ found -> language ∈ directory.everyLanguage tree) :
    readable left directory found =
      (readable tree directory found).map fun file => file.without ids := by
  unfold readable
  rw [List.map_filterMap]
  apply List.filterMap_congr
  intro language hlanguage
  rw [h.loadResource_eq hplain (hfound language hlanguage)]
  cases loadResource tree directory language <;> rfl

/-- The report on all languages loses the issues of the names that have been removed. -/
theorem RemovesNames.check_eq
    (h : directory.RemovesNames ids tree left)
    (hplain : directory.PlainTargets tree)
    (hsource : Qualifier.sourceLanguage ∈ directory.everyLanguage tree)
    (options : CheckOptions) :
    directory.check left none options =
      (directory.check tree none options).map (CheckReport.without ids) := by
  have hloaded : loadSourceResource left directory =
      (loadSourceResource tree directory).map fun file => file.without ids :=
    h.loadResource_eq hplain hsource
  unfold check
  rw [hloaded]
  cases loadSourceResource tree directory with
  | error fault => rfl
  | ok source =>
      simp only [Except.map, translations, h.names.languages]
      cases hfound : languages tree directory with
      | error fault => rfl
      | ok found =>
          have hreadable := h.readable_eq hplain fun language hlanguage =>
            mem_everyLanguage_of_languages hfound hlanguage
          simp only [hreadable, Check.checkAll_without]

/-!
# Removals without failures
-/

theorem map_language_readable
    {found : List Text}
    (h : forall language, language ∈ found ->
      exists document : Document, load tree directory language = .ok document) :
    (readable tree directory found).map ResourceFile.language = found := by
  induction found with
  | nil => rfl
  | cons language found ih =>
      rcases h language List.mem_cons_self with ⟨document, hload⟩
      have hrest := ih fun other hother => h other (List.mem_cons_of_mem language hother)
      unfold readable at hrest ⊢
      rw [List.filterMap_cons, loadResource, hload]
      exact congrArg (language :: ·) hrest

/-- If removing a name fails nowhere, every language is checked before and after, and its issues
are those before, in the same order, without the issues of the name. -/
theorem check_remove
    {id : Text} {report : BatchReport}
    (hplain : directory.PlainTargets tree)
    (hreport : (directory.remove tree id).1 = .ok report)
    (hfailed : report.failed = 0)
    (options : CheckOptions) :
    exists (found : List Text) (checked : CheckReport),
      languages tree directory = .ok found ∧
        directory.check tree none options = .ok checked ∧
        checked.languages.map LanguageReport.language = found ∧
        directory.check (directory.remove tree id).2 none options =
          .ok (checked.without [id]) := by
  rcases exists_load_of_remove hreport hfailed with ⟨targets, htargets, hreads⟩
  have hsource : Qualifier.sourceLanguage ∈ directory.everyLanguage tree :=
    everyLanguage_eq htargets ▸ sourceLanguage_mem_of_targets htargets
  rcases Success.map_eq_ok_iff.mp htargets with ⟨found, hfound, rfl⟩
  rcases hreads _ List.mem_cons_self with ⟨source, hload⟩
  have hchecked : directory.check tree none options = .ok (Check.checkAll options
      (source.resource Qualifier.sourceLanguage) (readable tree directory found)) := by
    simp only [check, loadSourceResource, loadResource, hload, Except.map, translations, hfound]
  refine ⟨found, _, hfound, hchecked, ?_, ?_⟩
  · rw [Check.checkAll, List.map_map]
    exact map_language_readable fun language hlanguage =>
      hreads language (List.mem_cons_of_mem _ hlanguage)
  · rw [(directory.removesNames_remove tree id).check_eq hplain hsource, hchecked]
    rfl

/-- A project in which a string and plurals of the source file share a name, which the translation
gives to an array; the translation also has a string that is left over. -/
def sharedAndLeftOver : FileTree :=
  ⟨[(["res".toList, "values".toList, fileName],
      Encoding.encode ("<resources><string name=\"a\">Hello</string>" ++
        "<plurals name=\"a\"/><string name=\"b\">%s files</string></resources>").toList),
    (["res".toList, "values-fr".toList, fileName],
      Encoding.encode ("<resources><string name=\"b\">fichiers</string>" ++
        "<string-array name=\"a\"/><string name=\"c\">reste</string></resources>").toList)],
    []⟩

theorem check_remove_shared :
    let directory : ResourceDirectory := ⟨"res".toList⟩
    let options : CheckOptions := { CheckOptions.standard with mode := .full }
    let left := (directory.remove sharedAndLeftOver "a".toList).2
    directory.PlainTargets sharedAndLeftOver ∧
      (directory.remove sharedAndLeftOver "a".toList).1.map BatchReport.failed = .ok 0 ∧
      exists checked : CheckReport,
        directory.check sharedAndLeftOver none options = .ok checked ∧
          checked.languages.map (fun report => report.issues) =
            [[.missing "a".toList .string, .missingPlural "a".toList,
              .placeholderMismatch "b".toList ["%s".toList] [],
              .obsolete "a".toList .stringArray, .obsolete "c".toList .string]] ∧
          directory.check left none options = .ok (checked.without ["a".toList]) ∧
          (checked.without ["a".toList]).languages.map (fun report => report.issues) =
            [[.placeholderMismatch "b".toList ["%s".toList] [], .obsolete "c".toList .string]] := by
  intro directory options left
  have hfacts : (directory.PlainTargets sharedAndLeftOver ∧
      (directory.remove sharedAndLeftOver "a".toList).1.map BatchReport.failed = .ok 0) ∧
      (directory.check sharedAndLeftOver none options).map (fun checked =>
        (checked.languages.map (fun report => report.issues),
          (checked.without ["a".toList]).languages.map (fun report => report.issues))) =
        .ok ([[.missing "a".toList .string, .missingPlural "a".toList,
            .placeholderMismatch "b".toList ["%s".toList] [],
            .obsolete "a".toList .stringArray, .obsolete "c".toList .string]],
          [[.placeholderMismatch "b".toList ["%s".toList] [],
            .obsolete "c".toList .string]]) := by
    -- The facts are evaluated together, so that the files are read once.
    decide +kernel
  rcases hfacts with ⟨⟨hplain, hremoved⟩, hissues⟩
  rcases Success.map_eq_ok_iff.mp hremoved with ⟨report, hreport, hfailed⟩
  rcases check_remove hplain hreport hfailed options with ⟨_, checked, _, hchecked, _, hleft⟩
  rcases Success.map_eq_ok_iff.mp hissues with ⟨before, hbefore, hlists⟩
  rw [hchecked, Except.ok.injEq] at hbefore
  rw [← hbefore, Prod.mk.injEq] at hlists
  exact ⟨hplain, hremoved, checked, hchecked, hlists.1, hleft, hlists.2⟩

end ResourceDirectory
end AndroidStrings
