import AndroidStrings.Document.Edit
import AndroidStrings.Document.Sort
import AndroidStrings.Project.Batch
import AndroidStrings.Project.Directory

/-!
# Edits across the files of a project

An edit of a file loads it, edits the document and writes it back only when something was
applied.  The batches work through their targets one after another.
-/

namespace AndroidStrings
namespace ResourceDirectory

/-- An entry that is missing is reported with the path of its file. -/
def locate (path : Text) : Error → Error
  | .entryNotFound id _ => .entryNotFound id path
  | e => e

def getString (tree : FileTree) (directory : ResourceDirectory) (language id : Text)
    (raw : Bool) : Except Error Text :=
  match load tree directory language with
  | .error e => .error e
  | .ok document =>
      (if raw then document.getRaw id else document.get id).mapError
        (locate (directory.languagePath language))

def getPlurals (tree : FileTree) (directory : ResourceDirectory) (language id : Text) :
    Except Error Plural :=
  match load tree directory language with
  | .error e => .error e
  | .ok document => (document.getPlurals id).mapError (locate (directory.languagePath language))

/-!
## One file
-/

/-- An edit of a document: `none` when it finds nothing to do. -/
abbrev DocumentEdit := Document → Except Error (Option Document)

/-- A stepped edit whose steps all have to work. -/
def allSteps (edited : SteppedEdit) : Except Error (Option Document) :=
  match edited.result with
  | .error e => .error e
  | .ok .applied => .ok (some edited.document)
  | .ok .skipped => .ok none

/-- Edits the file of a language, and says what became of it. -/
def applyTo (directory : ResourceDirectory) (skipReason : Text) (edit : DocumentEdit)
    (tree : FileTree) (language : Text) : FileTree × TargetStatus :=
  match (load tree directory language).bind edit with
  | .error e => (tree, .failed e)
  | .ok none => (tree, .skipped skipReason)
  | .ok (some document) => (store tree directory language document, .applied)

/-- Edits the files of several languages in turn. -/
def applyToAll (directory : ResourceDirectory) (skipReason : Text) (edit : DocumentEdit) :
    FileTree → List Text → FileTree × List TargetOutcome
  | tree, [] => (tree, [])
  | tree, language :: rest =>
      let (edited, status) := applyTo directory skipReason edit tree language
      let (final, outcomes) := applyToAll directory skipReason edit edited rest
      (final, ⟨language, status⟩ :: outcomes)

/-- What an edit of a project answers, and the tree it leaves. -/
abbrev Edited (α : Type) := Except Error α × FileTree

def batch (directory : ResourceDirectory) (skipReason : Text) (edit : DocumentEdit)
    (tree : FileTree) (targets : Except Error (List Text)) : Edited BatchReport :=
  match targets with
  | .error e => (.error e, tree)
  | .ok languages =>
      let (edited, outcomes) := applyToAll directory skipReason edit tree languages
      (.ok ⟨outcomes⟩, edited)

/-!
## Batches
-/

/-- Whether an addition reaches the translations. -/
inductive Scope where
  | everywhere
  | sourceOnly
  deriving DecidableEq, Repr

def targets (tree : FileTree) (directory : ResourceDirectory) : Scope → Except Error (List Text)
  | .sourceOnly => .ok [Qualifier.sourceLanguage]
  | .everywhere => (languages tree directory).map (Qualifier.sourceLanguage :: ·)

def addString (tree : FileTree) (directory : ResourceDirectory) (id value : Text)
    (mode : EscapeMode) (scope : Scope) : Edited BatchReport :=
  batch directory "string already exists".toList (fun document => document.add? id value mode)
    tree (targets tree directory scope)

def addPlural (tree : FileTree) (directory : ResourceDirectory) (id : Text)
    (forms : List (Quantity × Text)) (mode : EscapeMode) (scope : Scope) : Edited BatchReport :=
  batch directory "plurals already exists".toList
    (fun document => document.addPlural? id forms mode) tree (targets tree directory scope)

def remove (tree : FileTree) (directory : ResourceDirectory) (id : Text) : Edited BatchReport :=
  batch directory "not found".toList (fun document => allSteps (document.remove id))
    tree (targets tree directory .everywhere)

/-- The files that a sort goes to: one, which has to be there, or every translation. -/
def sortTargets (tree : FileTree) (directory : ResourceDirectory) :
    Option Text → Except Error (List Text)
  | none => languages tree directory
  | some language =>
      let path := directory.languagePath language
      if tree.isFileAt path then .ok [language] else .error (.fileNotFound path)

/-- Sorts files by the order of the source file. -/
def sort (tree : FileTree) (directory : ResourceDirectory) (language : Option Text) :
    Edited BatchReport :=
  match sourceOrder tree directory with
  | .error e => (.error e, tree)
  | .ok order =>
      batch directory [] (fun document => (document.sort order).map some) tree
        (sortTargets tree directory language)

/-!
## Strings of one file
-/

/-- The source file that a translation is held to; the source file itself is held to none. -/
def reference (tree : FileTree) (directory : ResourceDirectory) (language : Text) :
    Except Error (Option ResourceFile) :=
  if Qualifier.isSource language then .ok none
  else (loadSourceResource tree directory).map some

/-- A translation may only hold strings that the source has. -/
def isKnown (source : Option ResourceFile) (id : Text) : Bool :=
  match source with
  | some file => file.contains .string id
  | none => true

def setOne (mode : EscapeMode) (create : Bool) (document : Document) (id value : Text) :
    Except Error Document :=
  if create then document.setOrCreate id value mode else document.set id value mode

/-- Sets strings one after another; one that fails does not stop the others. -/
def setStrings (directory : ResourceDirectory) (path : Text) (source : Option ResourceFile)
    (mode : EscapeMode) (create : Bool) :
    Document → List (Text × Text) → Document × List TargetOutcome
  | document, [] => (document, [])
  | document, (id, value) :: rest =>
      let edited : Except Error Document :=
        if isKnown source id then (setOne mode create document id value).mapError (locate path)
        else .error (.entryNotFound id directory.sourcePath)
      match edited with
      | .error e =>
          let (final, outcomes) := setStrings directory path source mode create document rest
          (final, ⟨id, .failed e⟩ :: outcomes)
      | .ok new =>
          let (final, outcomes) := setStrings directory path source mode create new rest
          (final, ⟨id, .applied⟩ :: outcomes)

/-- Sets strings of one file, which is written once if at least one was set. -/
def setBatch (tree : FileTree) (directory : ResourceDirectory) (language : Text)
    (pairs : List (Text × Text)) (mode : EscapeMode) (create : Bool) : Edited BatchReport :=
  match load tree directory language with
  | .error e => (.error e, tree)
  | .ok document =>
      match reference tree directory language with
      | .error e => (.error e, tree)
      | .ok source =>
          let (edited, outcomes) := setStrings directory (directory.languagePath language)
            source mode create document pairs
          let report : BatchReport := ⟨outcomes⟩
          let final := if 0 < report.applied then store tree directory language edited else tree
          (.ok report, final)

def setPlurals (tree : FileTree) (directory : ResourceDirectory) (language id : Text)
    (forms : List (Quantity × Text)) (mode : EscapeMode) : Edited Unit :=
  match load tree directory language with
  | .error e => (.error e, tree)
  | .ok document =>
      let edited := document.setPlurals id forms mode
      match edited.result with
      | .error e => (.error (locate (directory.languagePath language) e), tree)
      | .ok _ => (.ok (), store tree directory language edited.document)

end ResourceDirectory
end AndroidStrings
