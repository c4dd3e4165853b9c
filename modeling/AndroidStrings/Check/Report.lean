import AndroidStrings.Check.Language

/-!
# Check reports

The issues of every language that was checked, and their counts.
-/

namespace AndroidStrings

structure LanguageReport where
  language : Text
  issues : List Issue
  deriving DecidableEq, Repr

namespace LanguageReport

def criticalCount (report : LanguageReport) : Nat :=
  (report.issues.filter Issue.isCritical).length

def isClean (report : LanguageReport) : Bool :=
  report.issues.isEmpty

end LanguageReport

structure CheckReport where
  mode : CheckMode
  languages : List LanguageReport
  deriving DecidableEq, Repr

structure CheckSummary where
  checked : Nat
  withIssues : Nat
  clean : Nat
  critical : Nat
  deriving DecidableEq, Repr

namespace CheckReport

def totalCritical (report : CheckReport) : Nat :=
  report.languages.foldl (fun total language => total + language.criticalCount) 0

def hasCritical (report : CheckReport) : Bool :=
  decide (0 < report.totalCritical)

def summary (report : CheckReport) : CheckSummary :=
  { checked := report.languages.length
    withIssues := (report.languages.filter fun language => !language.isClean).length
    clean := (report.languages.filter LanguageReport.isClean).length
    critical := report.totalCritical }

end CheckReport

namespace Check

def checkLanguage (options : CheckOptions) (source translation : ResourceFile) :
    LanguageReport :=
  ⟨translation.language, languageIssues options source translation⟩

def checkAll (options : CheckOptions) (source : ResourceFile)
    (translations : List ResourceFile) : CheckReport :=
  ⟨options.mode, translations.map (checkLanguage options source)⟩

end Check
end AndroidStrings
