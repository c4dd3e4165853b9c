import AndroidStrings.Project.Check
import AndroidStrings.Proofs.Check.AddedEntry
import AndroidStrings.Proofs.Document.Addition
import AndroidStrings.Proofs.Project.EditedFiles

/-!
# Issues behind an addition to every file

An addition that is applied to every file stores the same entry in all of them.  The values are
compared with themselves then, and everything else is looked up as before, so the report of the
incremental mode stays as it was.

## Main statements

- `gainsEverywhere_of_batch` : the files behind an addition that is applied everywhere.
- `GainsEverywhere.check_eq` : the report when every file has gained the same entry.
- `check_of_added_everywhere` : the report behind an addition that is applied everywhere.
-/

namespace AndroidStrings

/-- Every target of a batch was edited. -/
def BatchReport.AllApplied (report : BatchReport) : Prop :=
  forall outcome, outcome ∈ report.outcomes -> outcome.status = .applied

instance (report : BatchReport) : Decidable report.AllApplied :=
  inferInstanceAs (Decidable (forall outcome, outcome ∈ report.outcomes ->
    outcome.status = .applied))

namespace ResourceDirectory

open Session

variable {directory : ResourceDirectory} {tree left : FileTree} {entry : Entry}

/-- Every file can be read before and after, and has gained the same entry. -/
def GainsEverywhere (directory : ResourceDirectory) (entry : Entry) (tree left : FileTree) :
    Prop :=
  exists found : List Text,
    targets tree directory .everywhere = .ok found ∧
      forall language, language ∈ found ->
        exists file more : ResourceFile,
          loadResource tree directory language = .ok file ∧
            loadResource left directory language = .ok more ∧ file.Gains entry more

/-!
# Files behind an addition
-/

/-- A batch that is applied to every target has made something of every document. -/
theorem exists_edited_of_batch
    {edit : DocumentEdit} {skipReason : Text} {scope : Scope} {report : BatchReport}
    (h : (batch directory skipReason edit tree (targets tree directory scope)).1 = .ok report)
    (happlied : report.AllApplied) :
    exists found : List Text,
      targets tree directory scope = .ok found ∧
        forall language, language ∈ found ->
          exists document new : Document,
            load tree directory language = .ok document ∧ edit document = .ok (some new) := by
  rcases exists_outcomes_of_batch (fun _ => nodup_places_of_targets) h with
    ⟨found, hfound, houtcomes⟩
  refine ⟨found, hfound, fun language hlanguage => ?_⟩
  have hstatus := happlied _ (houtcomes ▸ List.mem_map_of_mem hlanguage)
  cases hanswer : (load tree directory language).bind edit with
  | error fault =>
      rw [hanswer] at hstatus
      cases hstatus
  | ok made =>
      cases made with
      | none =>
          rw [hanswer] at hstatus
          cases hstatus
      | some new =>
          rcases Success.bind_eq_ok_iff.mp hanswer with ⟨document, hload, hedit⟩
          exact ⟨document, new, hload, hedit⟩

/-- An addition that is applied to every file adds its entry to every file. -/
theorem gainsEverywhere_of_batch
    {command : ProjectCommand} {edit : DocumentEdit} {skipReason : Text} {report : BatchReport}
    (added : EditCommand)
    (hperform : directory.perform tree command =
      batch directory skipReason edit tree (targets tree directory .everywhere))
    (hedit : (ofTree tree).edit directory command = edit)
    (htargets : (ofTree tree).targets directory command = directory.everyLanguage tree)
    (hsame : forall document : Document,
      document.perform added = document.wholeOrSkipped (edit document))
    (hadded : added.added? = some entry)
    (haccepted : added.Accepted)
    (hplain : directory.PlainTargets tree)
    (hreport : (directory.perform tree command).1 = .ok report)
    (happlied : report.AllApplied) :
    directory.GainsEverywhere entry tree (directory.perform tree command).2 := by
  rw [hperform] at hreport
  rcases exists_edited_of_batch hreport happlied with ⟨found, hfound, hedited⟩
  have hevery := everyLanguage_eq hfound
  refine ⟨found, hfound, fun language hlanguage => ?_⟩
  rcases hedited language hlanguage with ⟨document, new, hload, hnew⟩
  have hdone : document.perform added = ⟨new, .ok .applied⟩ := by
    rw [hsame, hnew]
    rfl
  have hstart := hplain language document (hevery ▸ hlanguage) hload
  rcases Document.exists_entries_of_added hstart (isRead_of_load hload) hadded haccepted
    (congrArg SteppedEdit.result hdone) with ⟨hstartNew, hfresh, hentries⟩
  rw [hdone] at hstartNew hentries
  have hloadNew : load (directory.perform tree command).2 directory language = .ok new :=
    load_perform_of_edit (htargets ▸ hevery ▸ hlanguage) hload (hedit ▸ hnew) hstartNew
  refine ⟨document.resource language, new.resource language, ?_, ?_, rfl, hfresh, hentries⟩
  · rw [loadResource, hload]
    rfl
  · rw [loadResource, hloadNew]
    rfl

/-!
# Reports
-/

/-- When every file has gained the same entry, the incremental mode reports what it reported. -/
theorem GainsEverywhere.check_eq
    {options : CheckOptions}
    (h : directory.GainsEverywhere entry tree left)
    (hnames : FileTree.SameNames left tree)
    (hmode : options.isFull = false) :
    exists checked : CheckReport,
      directory.check tree none options = .ok checked ∧
        directory.check left none options = .ok checked := by
  rcases h with ⟨every, hevery, hgains⟩
  rcases Success.map_eq_ok_iff.mp hevery with ⟨found, hfound, rfl⟩
  rcases hgains _ List.mem_cons_self with ⟨source, source', hload, hload', hsource⟩
  have hfound' : languages left directory = .ok found :=
    (hnames.languages directory).trans hfound
  have hreports : (readable left directory found).map (Check.checkLanguage options source') =
      (readable tree directory found).map (Check.checkLanguage options source) := by
    rw [readable, readable, List.map_filterMap, List.map_filterMap]
    apply List.filterMap_congr
    intro language hlanguage
    rcases hgains language (List.mem_cons_of_mem _ hlanguage) with
      ⟨file, more, hfile, hmore, htranslation⟩
    rw [hfile, hmore]
    simp only [Except.toOption, Option.map_some, Check.checkLanguage, htranslation.language,
      Check.languageIssues_of_gains hmode hsource htranslation]
  refine ⟨Check.checkAll options source (readable tree directory found), ?_, ?_⟩
  · simp only [check, loadSourceResource, hload, translations, hfound, Except.map]
  · simp only [check, loadSourceResource, hload', translations, hfound', Except.map,
      Check.checkAll, hreports]

/-!
# Main statement
-/

/-- An addition that is applied to every file leaves the report of the incremental mode as it
was. -/
theorem check_of_added_everywhere
    {id : Text} {mode : EscapeMode} {options : CheckOptions}
    (hid : CommandLine.isValidId id = true)
    (hplain : directory.PlainTargets tree)
    (hmode : options.mode = .incremental) :
    (forall (value : Text) (report : BatchReport),
      Markup.Fragment (mode.apply value) ->
        (addString tree directory id value mode .everywhere).1 = .ok report ->
          report.AllApplied ->
            exists checked : CheckReport,
              directory.check tree none options = .ok checked ∧
                directory.check (addString tree directory id value mode .everywhere).2 none
                  options = .ok checked) ∧
      forall (forms : List (Quantity × Text)) (report : BatchReport),
        (forall form, form ∈ forms -> Markup.Fragment (mode.apply form.2)) ->
          (addPlural tree directory id forms mode .everywhere).1 = .ok report ->
            report.AllApplied ->
              exists checked : CheckReport,
                directory.check tree none options = .ok checked ∧
                  directory.check (addPlural tree directory id forms mode .everywhere).2 none
                    options = .ok checked := by
  have hfull : options.isFull = false := by
    rw [CheckOptions.isFull, hmode]
    rfl
  constructor
  · intro value report hvalue hreport happlied
    let command : ProjectCommand := .addString id value mode .everywhere
    have hgains : directory.GainsEverywhere ⟨id, .singular (mode.apply value), true⟩ tree
        (directory.perform tree command).2 :=
      gainsEverywhere_of_batch (.add id value mode) rfl rfl rfl (fun _ => rfl) rfl
        ⟨hid, hvalue⟩ hplain hreport happlied
    exact hgains.check_eq (directory.sameNames_perform tree command) hfull
  · intro forms report hforms hreport happlied
    let command : ProjectCommand := .addPlural id forms mode .everywhere
    let stored := forms.map fun form => (form.1, mode.apply form.2)
    have hgains : directory.GainsEverywhere ⟨id, .plural (.ofList stored), true⟩ tree
        (directory.perform tree command).2 :=
      gainsEverywhere_of_batch (.addPlural id forms mode) rfl rfl rfl (fun _ => rfl) rfl
        ⟨hid, hforms⟩ hplain hreport happlied
    exact hgains.check_eq (directory.sameNames_perform tree command) hfull

/-- A source file with an array, and a translation without it that gives a string twice. -/
def arrayAndTwice : FileTree :=
  ⟨[(["res".toList, "values".toList, fileName],
      Encoding.encode ("<resources><string-array name=\"a\"/>" ++
        "<string name=\"b\">%s files</string></resources>").toList),
    (["res".toList, "values-fr".toList, fileName],
      Encoding.encode ("<resources><string name=\"b\">fichiers</string>" ++
        "<string name=\"b\">%s fichiers</string></resources>").toList)],
    []⟩

theorem check_of_added_everywhere_array :
    let directory : ResourceDirectory := ⟨"res".toList⟩
    let done := addString arrayAndTwice directory "a".toList "%d new".toList .raw .everywhere
    CommandLine.isValidId "a".toList = true ∧ directory.PlainTargets arrayAndTwice ∧
      Markup.Fragment (EscapeMode.raw.apply "%d new".toList) ∧
      exists (report : BatchReport) (checked : CheckReport),
        done.1 = .ok report ∧ report.AllApplied ∧
          directory.check arrayAndTwice none .standard = .ok checked ∧
          checked.languages.map (fun report => report.issues) =
            [[.missing "a".toList .stringArray,
              .placeholderMismatch "b".toList ["%s".toList] []]] ∧
          directory.check done.2 none .standard = .ok checked := by
  intro directory done
  have hid : CommandLine.isValidId "a".toList = true := by
    decide
  have hfragment : Markup.Fragment (EscapeMode.raw.apply "%d new".toList) :=
    @Markup.Fragment.text "%d new".toList [] (by decide) .empty
  have hfacts : (directory.PlainTargets arrayAndTwice ∧
      done.1.map (fun report => decide report.AllApplied) = .ok true) ∧
      (directory.check arrayAndTwice none .standard).map (fun checked =>
        checked.languages.map (fun report => report.issues)) =
          .ok [[.missing "a".toList .stringArray,
            .placeholderMismatch "b".toList ["%s".toList] []]] := by
    -- The facts are evaluated together, so that the files are read once.
    decide +kernel
  rcases hfacts with ⟨⟨hplain, hdone⟩, hissues⟩
  rcases Success.map_eq_ok_iff.mp hdone with ⟨report, hreport, happlied⟩
  have hall := of_decide_eq_true happlied
  have hmode : CheckOptions.standard.mode = .incremental := rfl
  rcases (check_of_added_everywhere hid hplain hmode).1 _ report hfragment hreport hall with
    ⟨checked, hchecked, hleft⟩
  rcases Success.map_eq_ok_iff.mp hissues with ⟨before, hbefore, hlists⟩
  rw [hchecked, Except.ok.injEq] at hbefore
  exact ⟨hid, hplain, hfragment, report, checked, hreport, hall, hchecked, hbefore ▸ hlists,
    hleft⟩

end ResourceDirectory
end AndroidStrings
