import AndroidStrings.CommandLine.Failure
import AndroidStrings.CommandLine.Output
import AndroidStrings.Project.Check

/-!
# Running a request

A request is run on a file tree.  The result is what is printed, why it failed if it did, and
the tree that it leaves.
-/

namespace AndroidStrings
namespace CommandLine

/-- What became of a request. -/
structure Outcome where
  lines : Lines
  failure : Option Failure
  tree : FileTree
  deriving DecidableEq, Repr

namespace Outcome

def failed (tree : FileTree) (cause : Failure) : Outcome :=
  ⟨[], some cause, tree⟩

def done (tree : FileTree) (lines : Lines) : Outcome :=
  ⟨lines, none, tree⟩

/-- Puts lines in front of those of an outcome. -/
def after (lines : Lines) (outcome : Outcome) : Outcome :=
  { outcome with lines := lines ++ outcome.lines }

/-- The printed text: every line ends with a line feed. -/
def text (outcome : Outcome) : Text :=
  outcome.lines.flatMap fun line => line.toList ++ ['\n']

def succeeded (outcome : Outcome) : Bool :=
  outcome.failure.isNone

end Outcome

namespace Run

/-!
## Arguments
-/

/-- Goes on with a value, or fails on it. -/
def withValue {α ε : Type} (tree : FileTree) (cause : ε → Failure) (value : Except ε α)
    (next : α → Outcome) : Outcome :=
  match value with
  | .ok found => next found
  | .error e => .failed tree (cause e)

def withLanguage (tree : FileTree) (language : Text) (next : Outcome) : Outcome :=
  withValue tree .argument (validateLanguage language) fun _ => next

def withOptionalLanguage (tree : FileTree) (language : Option Text) (next : Outcome) : Outcome :=
  match language with
  | some given => withLanguage tree given next
  | none => next

/-!
## Reports
-/

def operationsFailure (failed : Nat) : Option Failure :=
  if 0 < failed then some (.operations failed) else none

/-- The outcome of an edit that reports on its targets. -/
def ofBatch (verb : String) (edited : ResourceDirectory.Edited BatchReport) : Outcome :=
  match edited with
  | (.error e, tree) => .failed tree (.resource e)
  | (.ok report, tree) => ⟨Output.batch verb report, operationsFailure report.failed, tree⟩

def strictFailure (strict : Bool) (report : CheckReport) : Option Failure :=
  if strict && report.hasCritical then some (.criticalIssues report.totalCritical) else none

/-!
## Commands
-/

def check (tree : FileTree) (directory : ResourceDirectory) (language : Option Text)
    (options : CheckOptions) (style : ReportStyle) (strict : Bool) : Outcome :=
  withOptionalLanguage tree language <|
    withValue tree .resource (directory.check tree language options) fun report =>
      ⟨Output.check report language options style, strictFailure strict report, tree⟩

def list (tree : FileTree) (directory : ResourceDirectory) : Outcome :=
  withValue tree .resource (directory.languages tree) fun found =>
    .done tree (Output.languages found)

def get (tree : FileTree) (directory : ResourceDirectory) (language id : Text) (raw : Bool) :
    Outcome :=
  withLanguage tree language <|
    withValue tree .resource (directory.getString tree language id raw) fun value =>
      .done tree (Output.string language id value)

def getPlurals (tree : FileTree) (directory : ResourceDirectory) (language id : Text) : Outcome :=
  withLanguage tree language <|
    withValue tree .resource (directory.getPlurals tree language id) fun plural =>
      .done tree (Output.plurals language id plural)

/-- Shows the stored form of a string that has been set. -/
def showStored (tree : FileTree) (directory : ResourceDirectory) (language id : Text) : Outcome :=
  withValue tree .resource (directory.getString tree language id true) fun stored =>
    .done tree (Output.setOne language id stored)

/-- Why a single string was not set. -/
def setFailure (id : Text) (cause : Error) : Failure :=
  if FailureKind.ofError cause = .notFound then .unknownString id cause else .resource cause

def setOne (tree : FileTree) (directory : ResourceDirectory) (language id value : Text)
    (mode : EscapeMode) (create : Bool) : Outcome :=
  match directory.setBatch tree language [(id, value)] mode create with
  | (.error e, edited) => .failed edited (.resource e)
  | (.ok report, edited) =>
      match report.statusOf? id with
      | some (.failed cause) => .failed edited (setFailure id cause)
      | _ => showStored edited directory language id

def setMany (tree : FileTree) (directory : ResourceDirectory) (language : Text)
    (pairs : List (Text × Text)) (mode : EscapeMode) (create : Bool) : Outcome :=
  .after (Output.setManyHeader language pairs.length)
    (ofBatch "Updated" (directory.setBatch tree language pairs mode create))

def set (tree : FileTree) (directory : ResourceDirectory) (language : Text)
    (arguments : List Text) (mode : EscapeMode) (create : Bool) : Outcome :=
  withLanguage tree language <|
    withValue tree .argument (parseIdPairs arguments) fun pairs =>
      match pairs with
      | [(id, value)] => setOne tree directory language id value mode create
      | _ => setMany tree directory language pairs mode create

def setPlurals (tree : FileTree) (directory : ResourceDirectory) (language id : Text)
    (arguments : List Text) (mode : EscapeMode) : Outcome :=
  withLanguage tree language <|
    withValue tree .argument (parseQuantityPairs arguments) fun forms =>
      .after (Output.setPluralsHeader id forms.length)
        (match directory.setPlurals tree language id forms mode with
        | (.error e, edited) => .failed edited (.resource e)
        | (.ok (), edited) => .done edited (Output.setPlurals language id (forms.map Prod.fst)))

def add (tree : FileTree) (directory : ResourceDirectory) (id value : Text) (mode : EscapeMode)
    (scope : ResourceDirectory.Scope) : Outcome :=
  withValue tree .argument (validateId id) fun _ =>
    .after (Output.addHeader id value)
      (ofBatch "Added to" (directory.addString tree id value mode scope))

def addPlural (tree : FileTree) (directory : ResourceDirectory) (id : Text)
    (arguments : List Text) (mode : EscapeMode) (scope : ResourceDirectory.Scope) : Outcome :=
  withValue tree .argument (validateId id) fun _ =>
    withValue tree .argument (parseQuantityPairs arguments) fun forms =>
      .after (Output.addPluralHeader id forms)
        (ofBatch "Added to" (directory.addPlural tree id forms mode scope))

/-- Removes names one after another; the failures so far are counted. -/
def removeAll (directory : ResourceDirectory) (failed : Nat) : FileTree → List Text → Outcome
  | tree, [] => ⟨[], operationsFailure failed, tree⟩
  | tree, id :: rest =>
      .after (Output.removeHeader id)
        (match directory.remove tree id with
        | (.error e, edited) => .failed edited (.resource e)
        | (.ok report, edited) =>
            .after (Output.batch "Removed from" report)
              (removeAll directory (failed + report.failed) edited rest))

def sort (tree : FileTree) (directory : ResourceDirectory) (language : Option Text) : Outcome :=
  withOptionalLanguage tree language (ofBatch "Sorted" (directory.sort tree language))

def unused (tree : FileTree) (directory : ResourceDirectory) (sources : Text) : Outcome :=
  withValue tree .unusedSearch (directory.unused tree sources) fun ids =>
    .done tree (Output.unused ids)

def changed (tree : FileTree) (directory : ResourceDirectory) (variant : Text) (json : Bool) :
    Outcome :=
  withLanguage tree variant <|
    withValue tree .resource (directory.changesAgainst tree variant) fun found =>
      .done tree (if json then Output.changesJson found else Output.changes variant found)

def command (config : Config) (tree : FileTree) (directory : ResourceDirectory) :
    Command → Outcome
  | .check language mode near style strict =>
      check tree directory language (config.checkOptions mode near) style strict
  | .list => list tree directory
  | .get language id raw => get tree directory language id raw
  | .getPlurals language id => getPlurals tree directory language id
  | .set language pairs mode create => set tree directory language pairs mode create
  | .setPlurals language id pairs mode => setPlurals tree directory language id pairs mode
  | .add id value mode scope => add tree directory id value mode scope
  | .addPlural id pairs mode scope => addPlural tree directory id pairs mode scope
  | .remove ids => removeAll directory 0 tree ids
  | .sort language => sort tree directory language
  | .unused sources => unused tree directory (sources.getD config.sourceDirectory)
  | .changed variant json => changed tree directory (variant.getD config.referenceVariant) json

/-- A resource directory is there and holds a source file. -/
def validateDirectory (tree : FileTree) (directory : ResourceDirectory) : Except Failure Unit :=
  if !tree.existsAt directory.root then .error (.missingDirectory directory.root)
  else if !tree.isDirectoryAt directory.root then .error (.notADirectory directory.root)
  else if !tree.isFileAt directory.sourcePath then .error (.missingSourceFile directory.sourcePath)
  else .ok ()

end Run

namespace Request

def directory (request : Request) (config : Config) : ResourceDirectory :=
  ⟨request.resourceDirectory.getD config.resourceDirectory⟩

/-- The directories that a request looks into. -/
def roots (request : Request) (config : Config) : List Text :=
  (request.directory config).root ::
    match request.command with
    | .unused sources => [sources.getD config.sourceDirectory]
    | _ => []

def run (tree : FileTree) (request : Request) : Outcome :=
  match Config.load tree request.config with
  | .error e => .failed tree (.settings e)
  | .ok config =>
      let directory := request.directory config
      match Run.validateDirectory tree directory with
      | .error cause => .failed tree cause
      | .ok () => Run.command config tree directory request.command

end Request

/-!
## Help and version
-/

def usage : Lines :=
  ["Maintains the translated strings of an Android project.", "",
    "Usage: l10n [--res-dir DIR] [--config FILE] [-v] COMMAND",
    "       l10n --help | --version", "", "Commands:",
    "  check [--full] [--near N] [--summary | --json] [--strict] [LANG]", "  list",
    "  get [--raw] LANG ID", "  get-plurals LANG ID",
    "  set [--raw] [--create] LANG ID VALUE [ID VALUE ...]",
    "  set-plurals [--raw] LANG ID QUANTITY VALUE [QUANTITY VALUE ...]",
    "  add [--raw] [--source-only] ID VALUE",
    "  add-plural [--raw] [--source-only] ID QUANTITY VALUE [QUANTITY VALUE ...]",
    "  remove ID [ID ...]", "  sort [LANG]", "  unused [--src DIR]",
    "  changed [--variant LANG] [--json]"]

def version : Lines :=
  ["l10n 0.1.0"]

namespace Invocation

def run (tree : FileTree) : Invocation → Outcome
  | help => .done tree usage
  | version => .done tree CommandLine.version
  | request given => given.run tree

end Invocation
end CommandLine
end AndroidStrings
