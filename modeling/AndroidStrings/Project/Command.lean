import AndroidStrings.Project.Edit

/-!
# Edits of a project as commands

Every edit of the files of a project is one command with its arguments.  Performing a command
answers with a report and leaves a tree, also when it fails, so that commands can be performed one
after another.
-/

namespace AndroidStrings

inductive ProjectCommand where
  | addString (id value : Text) (mode : EscapeMode) (scope : ResourceDirectory.Scope)
  | addPlural (id : Text) (forms : List (Quantity × Text)) (mode : EscapeMode)
      (scope : ResourceDirectory.Scope)
  | remove (id : Text)
  | sort (language : Option Text)
  | setBatch (language : Text) (pairs : List (Text × Text)) (mode : EscapeMode) (create : Bool)
  | setPlurals (language id : Text) (forms : List (Quantity × Text)) (mode : EscapeMode)
  deriving DecidableEq, Repr

namespace ResourceDirectory

def perform (directory : ResourceDirectory) (tree : FileTree) :
    ProjectCommand → Edited BatchReport
  | .addString id value mode scope => addString tree directory id value mode scope
  | .addPlural id forms mode scope => addPlural tree directory id forms mode scope
  | .remove id => remove tree directory id
  | .sort language => sort tree directory language
  | .setBatch language pairs mode create => setBatch tree directory language pairs mode create
  | .setPlurals language id forms mode =>
      let (answer, edited) := setPlurals tree directory language id forms mode
      (answer.map fun _ => ⟨[⟨language, .applied⟩]⟩, edited)

/-- The tree behind a row of commands; one that fails does not stop the others. -/
def performAll (directory : ResourceDirectory) (tree : FileTree)
    (commands : List ProjectCommand) : FileTree :=
  commands.foldl (fun edited command => (directory.perform edited command).2) tree

end ResourceDirectory

/-- What became of each file, by a report.  Strings of one file are reported one by one, and the
file counts as edited when one of them was set. -/
def ProjectCommand.fileOutcomes (command : ProjectCommand) (report : BatchReport) :
    List TargetOutcome :=
  match command with
  | .setBatch language _ _ _ => if 0 < report.applied then [⟨language, .applied⟩] else []
  | _ => report.outcomes

end AndroidStrings
