import AndroidStrings.Check.Language
import AndroidStrings.CommandLine.Level
import AndroidStrings.Project.Edit
import AndroidStrings.Value.Escape

/-!
# Requests

A command line that can be understood is a request: a command with its arguments, and perhaps a
resource directory and a settings file in place of the usual ones.
-/

namespace AndroidStrings
namespace CommandLine

/-- How a check report is shown. -/
inductive ReportStyle where
  | issues
  | summary
  | json
  deriving DecidableEq, Repr

inductive Command where
  | check (language : Option Text) (mode : CheckMode) (near : Option Nat) (style : ReportStyle)
      (strict : Bool)
  | list
  | get (language id : Text) (raw : Bool)
  | getPlurals (language id : Text)
  | set (language : Text) (pairs : List Text) (mode : EscapeMode) (create : Bool)
  | setPlurals (language id : Text) (pairs : List Text) (mode : EscapeMode)
  | add (id value : Text) (mode : EscapeMode) (scope : ResourceDirectory.Scope)
  | addPlural (id : Text) (pairs : List Text) (mode : EscapeMode)
      (scope : ResourceDirectory.Scope)
  | remove (ids : List Text)
  | sort (language : Option Text)
  | unused (sources : Option Text)
  | changed (variant : Option Text) (json : Bool)
  deriving DecidableEq, Repr

structure Request where
  resourceDirectory : Option Text
  config : Option Text
  command : Command
  deriving DecidableEq, Repr

/-!
## Commands and their levels
-/

inductive CommandName where
  | check
  | list
  | get
  | getPlurals
  | set
  | setPlurals
  | add
  | addPlural
  | remove
  | sort
  | unused
  | changed
  deriving DecidableEq, Repr

namespace CommandName

def all : List CommandName :=
  [check, list, get, getPlurals, set, setPlurals, add, addPlural, remove, sort, unused, changed]

def text : CommandName → Text
  | check => "check".toList
  | list => "list".toList
  | get => "get".toList
  | getPlurals => "get-plurals".toList
  | set => "set".toList
  | setPlurals => "set-plurals".toList
  | add => "add".toList
  | addPlural => "add-plural".toList
  | remove => "remove".toList
  | sort => "sort".toList
  | unused => "unused".toList
  | changed => "changed".toList

def ofText? (t : Text) : Option CommandName :=
  all.find? fun name => name.text == t

/-- The flags of a command besides those that stand everywhere. -/
def flags : CommandName → List Flag
  | check => [.full, .near, .summary, .json, .strict]
  | get => [.raw]
  | set => [.raw, .create]
  | setPlurals => [.raw]
  | add => [.raw, .sourceOnly]
  | addPlural => [.raw, .sourceOnly]
  | unused => [.sources]
  | changed => [.variant, .json]
  | _ => []

def slots : CommandName → List Slot
  | check => [.word false]
  | get => [.word false, .word false]
  | getPlurals => [.word false, .word false]
  | set => [.word false, .verbatim]
  | setPlurals => [.word false, .word false, .verbatim]
  | add => [.word false, .word true]
  | addPlural => [.word false, .verbatim]
  | remove => [.words]
  | sort => [.word false]
  | _ => []

end CommandName

/-- What a command line asks for. -/
inductive Invocation where
  | help
  | version
  | request (request : Request)
  deriving DecidableEq, Repr

/-!
## Values of flags
-/

/-- The value of a flag that may be left out, if it can be read. -/
def readValue {α : Type} (level : Level) (flag : Flag) (read : Text → Option α) :
    Option (Option α) :=
  match level.value? flag with
  | none => some none
  | some value => (read value).map some

namespace Level

def isReadable (level : Level) : Bool :=
  level.flags.all fun given => given.1.accepts given.2

def mode (level : Level) : EscapeMode :=
  EscapeMode.ofRawFlag (level.has .raw)

def scope (level : Level) : ResourceDirectory.Scope :=
  if level.has .sourceOnly then .sourceOnly else .everywhere

def reportStyle (level : Level) : ReportStyle :=
  if level.has .json then .json else if level.has .summary then .summary else .issues

/-- A summary and a report for other programs exclude each other. -/
def isStyleClear (level : Level) : Bool :=
  !(level.has .summary && level.has .json)

/-- At most one word. -/
def optionalWord? (level : Level) : Option (Option Text) :=
  match level.words with
  | [] => some none
  | [word] => some (some word)
  | _ => none

end Level

namespace CommandName

/-- The command that a level spells out; a list of pairs has two words at least. -/
def command? (name : CommandName) (level : Level) : Option Command :=
  match name, level.words with
  | check, _ => do
      let language ← level.optionalWord?
      let near ← readValue level .near parseNat?
      if level.isStyleClear then
        return .check language (if level.has .full then .full else .incremental) near
          level.reportStyle (level.has .strict)
      else none
  | list, [] => some .list
  | get, [language, id] => some (.get language id (level.has .raw))
  | getPlurals, [language, id] => some (.getPlurals language id)
  | set, language :: first :: second :: rest =>
      some (.set language (first :: second :: rest) level.mode (level.has .create))
  | setPlurals, language :: id :: first :: second :: rest =>
      some (.setPlurals language id (first :: second :: rest) level.mode)
  | add, [id, value] => some (.add id value level.mode level.scope)
  | addPlural, id :: first :: second :: rest =>
      some (.addPlural id (first :: second :: rest) level.mode level.scope)
  | remove, id :: rest => some (.remove (id :: rest))
  | sort, _ => level.optionalWord?.map Command.sort
  | unused, [] => (readValue level .sources parsePath?).map Command.unused
  | changed, [] => some (.changed (level.value? .variant) (level.has .json))
  | _, _ => none

end CommandName

/-!
## Reading a command line
-/

/-- A path given behind the name of the command counts before one given in front of it. -/
def pathOf? (outer inner : Level) (flag : Flag) : Option (Option Text) := do
  let front ← readValue outer flag parsePath?
  let back ← readValue inner flag parsePath?
  return back.or front

/-- Help or the version, where the flags before can be read. -/
def readEnding? (level : Level) (ending : Flag) : Option Invocation :=
  if level.isReadable then some (if ending = .version then .version else .help) else none

def readCommand? (outer : Level) (name : CommandName) (arguments : List Text) :
    Option Invocation := do
  let inner ← Level.read? (name.flags ++ Flag.everywhere) name.slots arguments
  match inner.ending? with
  | some ending => readEnding? inner ending
  | none =>
      let command ← name.command? inner
      let resourceDirectory ← pathOf? outer inner .resourceDirectory
      let config ← pathOf? outer inner .config
      return .request ⟨resourceDirectory, config, command⟩

def helpName : Text :=
  "help".toList

/-- Help on everything or on one command. -/
def readHelp? : List Text → Option Invocation
  | [] => some .help
  | [topic] =>
      if topic = helpName then some .help else (CommandName.ofText? topic).map fun _ => .help
  | _ => none

/-- Reads a command line; `none` when it is not used as it should be. -/
def read? (arguments : List Text) : Option Invocation := do
  let outer ← Level.read? Flag.before [.command] arguments
  match outer.ending?, outer.words with
  | some ending, _ => readEnding? outer ending
  | none, [] => none
  | none, first :: rest =>
      if first = helpName then readHelp? rest
      else
        let name ← CommandName.ofText? first
        readCommand? outer name rest

end CommandLine
end AndroidStrings
