import AndroidStrings.CommandLine.Argument
import AndroidStrings.Config
import AndroidStrings.Project.Unused

/-!
# Failures of commands

Why a command did not do all that it was asked for.
-/

namespace AndroidStrings
namespace CommandLine

inductive Failure where
  | settings (cause : Config.LoadError)
  | missingDirectory (path : Text)
  | notADirectory (path : Text)
  | missingSourceFile (path : Text)
  | argument (cause : ArgumentError)
  | resource (cause : Error)
  | unknownString (id : Text) (cause : Error)
  | unusedSearch (cause : UnusedError)
  | criticalIssues (count : Nat)
  | operations (count : Nat)
  deriving DecidableEq, Repr

namespace Failure

def additionHint (id : Text) : String :=
  "\n  Use `l10n add " ++ String.ofList id ++ " \"value\"` to add new strings to all languages"

def message : Failure → String
  | settings cause => cause.message
  | missingDirectory path => "Resource directory does not exist: " ++ String.ofList path
  | notADirectory path => "Path is not a directory: " ++ String.ofList path
  | missingSourceFile path => "Source file not found: " ++ String.ofList path
  | argument cause => cause.message
  | resource cause => cause.message
  | unknownString id cause => cause.message ++ additionHint id
  | unusedSearch cause => cause.message
  | criticalIssues count => toString count ++ " critical placeholder mismatch(es) found"
  | operations count => toString count ++ " operation(s) failed"

end Failure
end CommandLine
end AndroidStrings
