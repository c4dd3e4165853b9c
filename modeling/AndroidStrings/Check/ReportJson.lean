import AndroidStrings.Changes
import AndroidStrings.Check.Report
import AndroidStrings.Text.Json

/-!
# Reports as JSON values

The fields of a check report are in alphabetical order on every level.
-/

namespace AndroidStrings

def namesJson (names : List Text) : Json :=
  .array (names.map Json.text)

namespace Issue

/-- The name of the sort of an issue. -/
def sortName : Issue → String
  | missing _ _ => "missing"
  | untranslated _ _ => "untranslated"
  | nearMatch _ _ _ _ => "near_match"
  | placeholderMismatch _ _ _ => "placeholder_mismatch"
  | missingPlural _ => "missing_plural"
  | untranslatedQuantity _ _ _ => "untranslated_plural_quantity"
  | pluralPlaceholderMismatch _ _ _ _ => "plural_placeholder_mismatch"
  | differsFromSource _ _ _ => "differs_from_source"
  | pluralDiffersFromSource _ _ _ _ => "plural_differs_from_source"
  | obsolete _ _ => "obsolete"

/-- The fields that come before the name of the entry. -/
def leadingFields : Issue → List (String × Json)
  | missing _ kind => [("entry_kind", .text kind.tag)]
  | obsolete _ kind => [("entry_kind", .text kind.tag)]
  | nearMatch _ distance _ _ => [("distance", .number distance)]
  | _ => []

/-- The fields that come after the sort of the issue. -/
def trailingFields : Issue → List (String × Json)
  | untranslated _ value => [("value", .text value)]
  | nearMatch _ _ source translation =>
      [("source", .text source), ("translation", .text translation)]
  | placeholderMismatch _ source translation =>
      [("source", namesJson source), ("translation", namesJson translation)]
  | untranslatedQuantity _ quantity value =>
      [("quantity", .text quantity.name), ("value", .text value)]
  | pluralPlaceholderMismatch _ quantity source translation =>
      [("quantity", .text quantity.name), ("source", namesJson source),
        ("translation", namesJson translation)]
  | differsFromSource _ source translation =>
      [("source", .text source), ("translation", .text translation)]
  | pluralDiffersFromSource _ quantity source translation =>
      [("quantity", .text quantity.name), ("source", .text source),
        ("translation", .text translation)]
  | _ => []

def toJson (issue : Issue) : Json :=
  .object (issue.leadingFields ++
    [("id", .text issue.id), ("kind", .text issue.sortName.toList)] ++ issue.trailingFields)

end Issue

namespace CheckMode

def name : CheckMode → String
  | incremental => "incremental"
  | full => "full"

end CheckMode

namespace LanguageReport

def toJson (report : LanguageReport) : Json :=
  .object [("issues", .array (report.issues.map Issue.toJson)), ("language", .text report.language)]

end LanguageReport

namespace CheckSummary

def toJson (summary : CheckSummary) : Json :=
  .object [("clean_languages", .number summary.clean),
    ("critical_issues", .number summary.critical),
    ("languages_checked", .number summary.checked),
    ("languages_with_issues", .number summary.withIssues)]

end CheckSummary

namespace CheckReport

def toJson (report : CheckReport) : Json :=
  .object [("languages", .array (report.languages.map LanguageReport.toJson)),
    ("mode", .text report.mode.name.toList), ("summary", report.summary.toJson)]

end CheckReport

namespace NamedString

def toJson (named : NamedString) : Json :=
  .object [("id", .text named.id), ("value", .text named.value)]

end NamedString

namespace ChangedString

def toJson (changed : ChangedString) : Json :=
  .object [("id", .text changed.id), ("source", .text changed.source),
    ("variant", .text changed.variant)]

end ChangedString

namespace Changes

def toJson (changes : Changes) : Json :=
  .object [("changed", .array (changes.changed.map ChangedString.toJson)),
    ("new_in_source", .array (changes.newInSource.map NamedString.toJson)),
    ("obsolete", .array (changes.obsolete.map NamedString.toJson))]

end Changes
end AndroidStrings
