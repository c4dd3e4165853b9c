import AndroidStrings.Markup.Attribute
import AndroidStrings.Resource.Kind
import AndroidStrings.Value.Validation

/-!
# Failures of reading and editing

Every failure names its cause; the wording is in one place, `Error.message`.
-/

namespace AndroidStrings

/-- Faults in the shape of a resource file. -/
inductive StructureError where
  | unexpectedRoot (name : Text)
  | unterminatedString (id : Text)
  | unterminatedItem (id : Text)
  | unterminatedElement (kind : EntryKind) (id : Text)
  | noRootEnd
  deriving DecidableEq, Repr

namespace StructureError

def message : StructureError → String
  | unexpectedRoot name => "unexpected root element <" ++ String.ofList name ++ ">"
  | unterminatedString id => "unterminated <string> `" ++ String.ofList id ++ "`"
  | unterminatedItem id => "unterminated <item> in `" ++ String.ofList id ++ "`"
  | unterminatedElement kind id =>
      "unterminated <" ++ String.ofList kind.tag ++ "> `" ++ String.ofList id ++ "`"
  | noRootEnd => "no closing </resources> tag found"

end StructureError

/-- Faults in a single entry. -/
inductive EntryError where
  | badAttribute (fault : Markup.AttributeError)
  | missingName (kind : EntryKind)
  | missingQuantity (id : Text)
  | unknownQuantity (id quantity : Text)
  deriving DecidableEq, Repr

def unknownQuantityMessage (quantity : Text) : String :=
  "Unknown plural quantity: " ++ String.ofList quantity

namespace EntryError

def message : EntryError → String
  | badAttribute fault => fault.message
  | missingName kind => String.ofList kind.tag ++ " tag missing 'name'"
  | missingQuantity id => "plurals `" ++ String.ofList id ++ "` has an item without 'quantity'"
  | unknownQuantity id quantity =>
      "plurals `" ++ String.ofList id ++ "`: " ++ unknownQuantityMessage quantity

end EntryError

inductive Error where
  | fileNotFound (path : Text)
  | entryNotFound (id file : Text)
  | invalidValue (target : Text) (issue : ValueIssue)
  | misshapen (fault : StructureError)
  | malformed (fault : Markup.Error)
  | invalidEntry (fault : EntryError)
  /-- A span that ends before it starts is no place to cut a text at: the program stops there. -/
  | reversedSpan (span : Span)
  deriving DecidableEq, Repr

namespace Error

def message : Error → String
  | fileNotFound path => "resource file not found: " ++ String.ofList path
  | entryNotFound id file =>
      "entry `" ++ String.ofList id ++ "` not found in " ++ String.ofList file
  | invalidValue target issue =>
      "invalid value for `" ++ String.ofList target ++ "`: " ++ issue.message
  | misshapen fault => "structural error: " ++ fault.message
  | malformed fault => "XML parse error: " ++ fault.message
  | invalidEntry fault => "invalid resource: " ++ fault.message
  | reversedSpan span =>
      "begin <= end (" ++ toString span.start ++ " <= " ++ toString span.stop ++ ")"

/-- Failures that the user mends by giving another name or value. -/
def isUserError : Error → Bool
  | entryNotFound _ _ => true
  | invalidValue _ _ => true
  | _ => false

end Error
end AndroidStrings
