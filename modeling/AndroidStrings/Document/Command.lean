import AndroidStrings.Document.Edit
import AndroidStrings.Document.Sort

/-!
# Edits as commands

Every edit of a document is one command with its arguments.  Performing a command gives the
document that is there afterwards, also when the command fails, so that commands can be performed
one after another.
-/

namespace AndroidStrings

inductive EditCommand where
  | set (id value : Text) (mode : EscapeMode)
  | setOrCreate (id value : Text) (mode : EscapeMode)
  | add (id value : Text) (mode : EscapeMode)
  | addPlural (id : Text) (forms : List (Quantity × Text)) (mode : EscapeMode)
  | setPlurals (id : Text) (forms : List (Quantity × Text)) (mode : EscapeMode)
  | remove (id : Text)
  | sort (order : List EntryKind.Key)
  deriving DecidableEq, Repr

namespace Document

/-- An edit that leaves the old document when it fails or finds nothing to do. -/
def wholeOrSkipped (document : Document) (edited : Except Error (Option Document)) :
    SteppedEdit :=
  match edited with
  | .ok (some new) => ⟨new, .ok .applied⟩
  | .ok none => ⟨document, .ok .skipped⟩
  | .error e => ⟨document, .error e⟩

def perform (document : Document) : EditCommand → SteppedEdit
  | .set id value mode => document.whole (document.set id value mode)
  | .setOrCreate id value mode => document.whole (document.setOrCreate id value mode)
  | .add id value mode => document.wholeOrSkipped (document.add? id value mode)
  | .addPlural id forms mode => document.wholeOrSkipped (document.addPlural? id forms mode)
  | .setPlurals id forms mode => document.setPlurals id forms mode
  | .remove id => document.remove id
  | .sort order => document.whole (document.sort order)

/-- The document behind a row of commands; one that fails does not stop the others. -/
def performAll (document : Document) (commands : List EditCommand) : Document :=
  commands.foldl (fun edited command => (edited.perform command).document) document

end Document
end AndroidStrings
