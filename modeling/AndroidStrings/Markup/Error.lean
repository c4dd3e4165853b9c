import AndroidStrings.Text.Basic

/-!
# What can be wrong with a text as markup

A construct that never ends, tags that do not match, and references that stand for no character.
-/

namespace AndroidStrings
namespace Markup

/-- Why a reference in an attribute value stands for no character. -/
inductive ReferenceError where
  | unterminated (start stop : Nat)
  | unknown (name : Text) (start stop : Nat)
  | signInNumber
  | noDigits
  | notADigit
  | tooLarge
  | zero
  | notACodePoint (number : Nat)
  deriving DecidableEq, Repr

inductive Error where
  | unknownDeclaration
  | unclosedInstruction
  | unclosedComment
  | unclosedDoctype
  | unclosedCData
  | unclosedTag
  | mismatchedEndTag (expected found : Text)
  | unmatchedEndTag (name : Text)
  | missingEndTag (name : Text)
  | namelessDoctype
  | reference (cause : ReferenceError)
  deriving DecidableEq, Repr

namespace ReferenceError

def invalidNumber (cause : String) : String :=
  "invalid character reference: " ++ cause

def message : ReferenceError → String
  | unterminated start stop =>
      "Error while escaping character at range " ++ toString start ++ ".." ++ toString stop ++
        ": Cannot find ';' after '&'"
  | unknown name start stop =>
      "at " ++ toString start ++ ".." ++ toString stop ++ ": unrecognized entity `" ++
        String.ofList name ++ "`"
  | signInNumber => invalidNumber "unexpected number sign"
  | noDigits => invalidNumber "cannot parse integer from empty string"
  | notADigit => invalidNumber "invalid digit found in string"
  | tooLarge => invalidNumber "number too large to fit in target type"
  | zero => invalidNumber "0x0 character is not permitted in XML"
  | notACodePoint number =>
      invalidNumber ("`" ++ toString number ++ "` is not a valid codepoint")

end ReferenceError

namespace Error

def endTag (name : Text) : String :=
  "`</" ++ String.ofList name ++ ">`"

def notClosed (what closing : String) : String :=
  "syntax error: " ++ what ++ " not closed: `" ++ closing ++ "` not found before end of input"

def message : Error → String
  | unknownDeclaration => "syntax error: unknown or missed symbol in markup"
  | unclosedInstruction => notClosed "processing instruction or xml declaration" "?>"
  | unclosedComment => notClosed "comment" "-->"
  | unclosedDoctype => notClosed "DOCTYPE" ">"
  | unclosedCData => notClosed "CDATA" "]]>"
  | unclosedTag => notClosed "tag" ">"
  | mismatchedEndTag expected found =>
      "ill-formed document: expected " ++ endTag expected ++ ", but " ++ endTag found ++
        " was found"
  | unmatchedEndTag name =>
      "ill-formed document: close tag " ++ endTag name ++ " does not match any open tag"
  | missingEndTag name =>
      "ill-formed document: start tag not closed: " ++ endTag name ++
        " not found before end of input"
  | namelessDoctype =>
      "ill-formed document: `<!DOCTYPE>` declaration does not contain a name of a document type"
  | reference cause => cause.message

end Error
end Markup
end AndroidStrings
