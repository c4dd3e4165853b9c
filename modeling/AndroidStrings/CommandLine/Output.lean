import AndroidStrings.Check.ReportJson
import AndroidStrings.CommandLine.Request
import AndroidStrings.Project.Batch

/-!
# Output of commands

What commands print, as lists of lines.
-/

namespace AndroidStrings
namespace CommandLine

abbrev Lines := List String

namespace Output

def shown (t : Text) : String :=
  String.ofList t

def quoted (t : Text) : String :=
  "'" ++ shown t ++ "'"

def rule : String :=
  String.ofList (List.replicate 80 '=')

def banner (title : String) : Lines :=
  [rule, title, rule]

/-!
## Values
-/

def string (language id value : Text) : Lines :=
  [shown language ++ ":" ++ shown id, "  " ++ shown value]

def form (quantity : Quantity) (value : Text) : String :=
  "  " ++ shown quantity.name ++ ": " ++ shown value

def plurals (language id : Text) (plural : Plural) : Lines :=
  (shown language ++ ":" ++ shown id) ::
    match plural.forms with
    | [] => ["  (no items)"]
    | forms => forms.map fun found => form found.1 found.2

/-!
## Languages, four in a row
-/

def columns : Nat :=
  4

def columnWidth : Nat :=
  12

def padded (t : Text) : Text :=
  t ++ List.replicate (columnWidth - t.length) ' '

def row (languages : List Text) : String :=
  "  " ++ shown ((Text.joinWith [' ', ' '] (languages.map padded)).trimEnd CharClass.isWhiteSpace)

/-- Rows of a given length; the last one may be shorter. -/
def rows (length : Nat) (languages : List Text) : List (List Text) :=
  match languages with
  | [] => []
  | first :: rest =>
      (first :: rest.take (length - 1)) :: rows length (rest.drop (length - 1))
termination_by languages.length
decreasing_by
  simp only [List.length_drop, List.length_cons]
  omega

theorem flatten_rows (length : Nat) (languages : List Text) :
    (rows length languages).flatten = languages := by
  fun_induction rows length languages with
  | case1 => rfl
  | case2 first rest ih =>
      rw [List.flatten_cons, ih, List.cons_append, List.take_append_drop]

def languages (found : List Text) : Lines :=
  banner ("AVAILABLE LANGUAGES (" ++ toString found.length ++ ")") ++
    (rows columns found).map row ++ [rule]

/-!
## Checks
-/

/-- So many issues of a language are shown when all languages are checked. -/
def issuePreview : Nat :=
  20

def scopeLine (report : CheckReport) : Option Text → String
  | some language => "Checking " ++ shown language ++ " (showing all issues)"
  | none =>
      let count := report.languages.length
      "Checking " ++ toString count ++ if count = 1 then " language" else " languages"

def nearLines (threshold : Nat) : Lines :=
  if 0 < threshold then
    ["Including near matches (≤" ++ toString threshold ++ " char difference)"]
  else []

def checkHeader (report : CheckReport) (language : Option Text) (options : CheckOptions) : Lines :=
  [scopeLine report language] ++ nearLines options.nearThreshold ++ [""] ++
    banner "TRANSLATION QUALITY CHECK"

def languageTitle (report : LanguageReport) : String :=
  let issues := shown report.language ++ " (" ++ toString report.issues.length ++ " issues"
  if 0 < report.criticalCount then
    issues ++ ", " ++ toString report.criticalCount ++ " CRITICAL):"
  else issues ++ "):"

def moreLines (hidden : Nat) : Lines :=
  if 0 < hidden then ["  ... and " ++ toString hidden ++ " more issues"] else []

/-- The issues of a language, as many as the limit allows. -/
def languageIssues (limit : Option Nat) (report : LanguageReport) : Lines :=
  let shownCount := limit.getD report.issues.length
  ["", languageTitle report] ++
    (report.issues.take shownCount).map (fun issue => "  " ++ issue.message) ++
    moreLines (report.issues.length - shownCount)

def checkIssues (limit : Option Nat) (report : CheckReport) : Lines :=
  if report.languages.all LanguageReport.isClean then
    ["", "✅ No translation quality issues detected!"]
  else
    ["", "Potential translation issues found:"] ++
      (report.languages.filter fun language => !language.isClean).flatMap (languageIssues limit)

def criticalLines (count : Nat) : Lines :=
  if 0 < count then
    ["", "*** CRITICAL ISSUES FOUND: " ++ toString count ++
      " placeholder mismatches that WILL cause crashes! ***"]
  else []

def checkSummary (report : CheckReport) : Lines :=
  let summary := report.summary
  [""] ++ banner "SUMMARY" ++
    ["Languages checked: " ++ toString summary.checked,
      "Languages with potential issues: " ++ toString summary.withIssues,
      "Languages with clean translations: " ++ toString summary.clean] ++
    criticalLines summary.critical ++ [rule]

def check (report : CheckReport) (language : Option Text) (options : CheckOptions) :
    ReportStyle → Lines
  | .json => [shown report.toJson.render]
  | .summary => checkSummary report
  | .issues =>
      checkHeader report language options ++
        checkIssues (if language.isSome then none else some issuePreview) report ++
        checkSummary report

/-!
## Edits
-/

/-- The source file is shown by the name of its folder. -/
def targetName (target : Text) : String :=
  if Qualifier.isSource target then shown ResourceDirectory.sourceFolder else shown target

def outcome (verb : String) (outcome : TargetOutcome) : String :=
  let name := targetName outcome.target
  match outcome.status with
  | .applied => "[OK] " ++ verb ++ " " ++ name
  | .skipped reason => "[SKIP] " ++ name ++ ": " ++ shown reason
  | .failed cause => "[ERROR] " ++ name ++ ": " ++ cause.message

def batch (verb : String) (report : BatchReport) : Lines :=
  report.outcomes.map (outcome verb) ++ [""] ++ banner "SUMMARY" ++
    ["Successful: " ++ toString report.applied, "Skipped: " ++ toString report.skipped,
      "Errors: " ++ toString report.failed, rule]

def updated (language id : Text) : String :=
  "[OK] Successfully updated " ++ shown language ++ ":" ++ shown id

def setOne (language id stored : Text) : Lines :=
  [updated language id, "  New value: " ++ shown stored]

def setManyHeader (language : Text) (count : Nat) : Lines :=
  banner ("BATCH UPDATE: " ++ shown language) ++
    ["Updating " ++ toString count ++ " strings...", ""]

def setPluralsHeader (id : Text) (count : Nat) : Lines :=
  ["Updating plurals: " ++ shown id, "Setting " ++ toString count ++ " quantities...", ""]

def setPlurals (language id : Text) (quantities : List Quantity) : Lines :=
  quantities.map (fun quantity => "[OK] Updated quantity " ++ quoted quantity.name) ++
    ["", updated language id]

def addHeader (id value : Text) : Lines :=
  banner ("ADDING STRING: " ++ shown id) ++ ["Value: " ++ shown value, ""]

def addPluralHeader (id : Text) (forms : List (Quantity × Text)) : Lines :=
  banner ("ADDING PLURAL: " ++ shown id) ++ forms.map (fun given => form given.1 given.2) ++ [""]

def removeHeader (id : Text) : Lines :=
  banner ("REMOVING STRING: " ++ shown id) ++ [""]

/-!
## Comparisons
-/

def unused : List Text → Lines
  | [] => ["✅ No unused strings found"]
  | ids =>
      ("Found " ++ toString ids.length ++ " unused string(s):") ::
        ids.map (fun id => "  " ++ shown id) ++
        ["", "To remove them:", "  l10n remove " ++ shown (Text.joinWith [' '] ids)]

/-- A titled group of lines and a blank line, or nothing when the group is empty. -/
def group (title : Nat → String) : List Lines → Lines
  | [] => []
  | parts => [title parts.length] ++ parts.flatten ++ [""]

def namedLines (named : NamedString) : Lines :=
  ["  " ++ shown named.id ++ " = " ++ quoted named.value]

def changedLines (variant : Text) (changed : ChangedString) : Lines :=
  ["  " ++ shown changed.id, "    source:  " ++ quoted changed.source,
    "    " ++ shown variant ++ ": " ++ quoted changed.variant]

def changes (variant : Text) (found : Changes) : Lines :=
  let folder := shown (ResourceDirectory.qualifiedPrefix ++ variant)
  if found.inSync then ["✅ values/strings.xml and " ++ folder ++ " are in sync"]
  else
    group (fun count => "Changed since " ++ folder ++ " was synced (" ++ toString count ++ "):")
        (found.changed.map (changedLines variant)) ++
      group (fun count => "New in source (" ++ toString count ++ "):")
        (found.newInSource.map namedLines) ++
      group (fun count => "Only in " ++ folder ++ " (" ++ toString count ++ "):")
        (found.obsolete.map namedLines) ++
      ["Review the translations of every changed id."]

def changesJson (found : Changes) : Lines :=
  [shown found.toJson.render]

end Output
end CommandLine
end AndroidStrings
