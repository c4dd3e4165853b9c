import AndroidStrings.Check.Language
import AndroidStrings.File.Tree
import AndroidStrings.Toml.Parse

/-!
# Project settings

Settings are read from `l10n.toml`: where the resources and the sources are, the variant that
follows the source file, and how checks are made.  Every key may be left out, and unknown keys
do not matter.
-/

namespace AndroidStrings

structure Config where
  resourceDirectory : Text
  sourceDirectory : Text
  referenceVariant : Text
  nearThreshold : Nat
  exemptions : Exemptions
  deriving DecidableEq, Repr

namespace Config

def standard : Config :=
  { resourceDirectory := "app/src/main/res".toList
    sourceDirectory := "app/src".toList
    referenceVariant := "en-rUS".toList
    nearThreshold := CheckOptions.standard.nearThreshold
    exemptions := .standard }

/-- The options of a check; a threshold given for this check counts before the settings. -/
def checkOptions (config : Config) (mode : CheckMode) (near : Option Nat) : CheckOptions :=
  ⟨mode, near.getD config.nearThreshold, config.exemptions⟩

/-!
## Reading settings
-/

/-- A field of a record.  A record is a table with named fields or an array with the fields in
their order; a time counts as a record without fields. -/
def field? (record : Toml.Value) (position : Nat) (name : Text) : Option Toml.Value :=
  match record with
  | .table _ entries => Toml.Entries.get? entries name
  | .array items => items[position]?
  | .tables items => items[position]?.map (Toml.Value.table .header)
  | _ => none

def isRecord : Toml.Value → Bool
  | .table _ _ => true
  | .array _ => true
  | .tables _ => true
  | .time => true
  | _ => false

def asText? : Toml.Value → Option Text
  | .text content => some content
  | _ => none

def asNat? : Toml.Value → Option Nat
  | .integer (.ofNat number) => some number
  | _ => none

def asTexts? : Toml.Value → Option (List Text)
  | .array items => items.mapM asText?
  | _ => none

/-- A field that may be left out, but must be of the right sort when it is there. -/
def readField {α : Type} (record : Toml.Value) (position : Nat) (name : String)
    (read : Toml.Value → Option α) (default : α) : Option α :=
  match field? record position name.toList with
  | none => some default
  | some value => read value

def readExemptions (record : Toml.Value) : Option Exemptions :=
  if isRecord record then do
    let standard := Exemptions.standard
    let terms ← readField record 0 "terms" asTexts? standard.terms
    let idPrefixes ← readField record 1 "id_prefixes" asTexts? standard.idPrefixes
    let ids ← readField record 2 "ids" asTexts? standard.ids
    let maxExemptLength ← readField record 3 "max_exempt_length" asNat? standard.maxExemptLength
    return ⟨terms, idPrefixes, ids, maxExemptLength⟩
  else none

def readCheck (record : Toml.Value) : Option (Nat × Exemptions) :=
  if isRecord record then do
    let nearThreshold ← readField record 0 "near_threshold" asNat? standard.nearThreshold
    let exemptions ← readField record 1 "exemptions" readExemptions .standard
    return (nearThreshold, exemptions)
  else none

def ofEntries? (entries : Toml.Entries) : Option Config := do
  let record := Toml.Value.table .header entries
  let resourceDirectory ← readField record 0 "res_dir" asText? standard.resourceDirectory
  let sourceDirectory ← readField record 1 "source_dir" asText? standard.sourceDirectory
  let referenceVariant ← readField record 2 "reference_variant" asText? standard.referenceVariant
  let (nearThreshold, exemptions) ←
    readField record 3 "check" readCheck (standard.nearThreshold, standard.exemptions)
  return ⟨resourceDirectory, sourceDirectory, referenceVariant, nearThreshold, exemptions⟩

/-- Reads settings; `none` when the text is no settings text or a value is of the wrong sort. -/
def parse? (t : Text) : Option Config :=
  (Toml.parse? t).bind ofEntries?

/-!
## Finding the settings
-/

inductive LoadError where
  | unreachable (path : Text) (cause : FileTree.PathError)
  | isDirectory (path : Text)
  | notText (path : Text)
  | invalid (path : Text)
  deriving DecidableEq, Repr

namespace LoadError

def unreadable (path : Text) (cause : String) : String :=
  "Cannot read config file " ++ String.ofList path ++ ": " ++ cause

def pathProblem : FileTree.PathError → String
  | .notFound => "No such file or directory (os error 2)"
  | .notADirectory => "Not a directory (os error 20)"
  | .tooLong => "File name too long (os error 36)"
  | .nullCharacter => "file name contained an unexpected NUL byte"

def message : LoadError → String
  | unreachable path cause => unreadable path (pathProblem cause)
  | isDirectory path => unreadable path "Is a directory (os error 21)"
  | notText path => unreadable path "stream did not contain valid UTF-8"
  | invalid path => String.ofList path ++ ": toml parse error: invalid settings"

end LoadError

def fileName : Text :=
  "l10n.toml".toList

def loadFile (tree : FileTree) (path : Text) : Except LoadError Config :=
  match tree.resolve path with
  | .error cause => .error (.unreachable path cause)
  | .ok names =>
      match tree.read? names with
      | none =>
          if tree.isDirectory names then .error (.isDirectory path)
          else .error (.unreachable path .notFound)
      | some bytes =>
          match Encoding.decodeStrict? bytes with
          | none => .error (.notText path)
          | some text =>
              match parse? text with
              | some config => .ok config
              | none => .error (.invalid path)

/-- The settings in a given file, else those in `l10n.toml` when it is there, else the standard
ones. -/
def load (tree : FileTree) (path : Option Text) : Except LoadError Config :=
  match path with
  | some given => loadFile tree given
  | none => if tree.isFileAt fileName then loadFile tree fileName else .ok standard

end Config
end AndroidStrings
