import AndroidStrings.Resource.Kind
import AndroidStrings.Resource.Quantity

/-!
# Entries and resource files

An entry has a name, a value of one of the three kinds, and a flag that says whether it is to be
translated.  A resource file is the list of the entries of one language; an entry is found by its
kind and name, and of several the first counts.
-/

namespace AndroidStrings

inductive EntryValue where
  | singular (text : Text)
  | plural (forms : Plural)
  | array (items : List Text)
  deriving DecidableEq, Repr

namespace EntryValue

def kind : EntryValue → EntryKind
  | singular _ => .string
  | plural _ => .plurals
  | array _ => .stringArray

def render : EntryValue → Text
  | singular text => text
  | plural forms =>
      let parts := forms.forms.map fun form => form.1.name ++ '=' :: form.2
      '{' :: Text.joinWith " | ".toList parts ++ ['}']
  | array items => '[' :: Text.joinWith ", ".toList items ++ [']']

end EntryValue

structure Entry where
  id : Text
  value : EntryValue
  translatable : Bool
  deriving DecidableEq, Repr

namespace Entry

def kind (entry : Entry) : EntryKind :=
  entry.value.kind

def key (entry : Entry) : EntryKind.Key :=
  (entry.kind, entry.id)

/-- The entry as one line of text, such as `string hello = Hello`. -/
def render (entry : Entry) : Text :=
  entry.kind.tag ++ ' ' :: entry.id ++ " = ".toList ++ entry.value.render

end Entry

structure ResourceFile where
  language : Text
  entries : List Entry
  deriving DecidableEq, Repr

namespace ResourceFile

def find? (file : ResourceFile) (kind : EntryKind) (id : Text) : Option Entry :=
  file.entries.find? fun entry => entry.kind == kind && entry.id == id

def contains (file : ResourceFile) (kind : EntryKind) (id : Text) : Bool :=
  (file.find? kind id).isSome

def string? (file : ResourceFile) (id : Text) : Option Text :=
  match (file.find? .string id).map Entry.value with
  | some (.singular text) => some text
  | _ => none

def plural? (file : ResourceFile) (id : Text) : Option Plural :=
  match (file.find? .plurals id).map Entry.value with
  | some (.plural forms) => some forms
  | _ => none

/-- The names and values of the strings, in file order. -/
def strings (file : ResourceFile) : List (Text × Text) :=
  file.entries.filterMap fun entry =>
    match entry.value with
    | .singular text => some (entry.id, text)
    | _ => none

def order (file : ResourceFile) : List EntryKind.Key :=
  file.entries.map Entry.key

end ResourceFile
end AndroidStrings
