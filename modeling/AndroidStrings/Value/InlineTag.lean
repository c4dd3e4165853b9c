import AndroidStrings.Text.Search
import AndroidStrings.Text.CharClass

/-!
# Inline markup in a value

A value may hold tags such as `<b>` or `<xliff:g id="n">`.  An inline tag has a name that begins
with an ASCII letter, and between the name and the closing `>` there is nothing, a slash, or
white space followed by anything but angle brackets.
-/

namespace AndroidStrings
namespace InlineTag

open CharClass

def isNameChar (c : Char) : Bool :=
  isWord c || c == ':' || c == '.' || c == '-'

/-- What may stand behind the name of a tag, up to its end. -/
def endsTag : Text → Bool
  | '>' :: _ => true
  | '/' :: t => t.head? == some '>'
  | c :: t =>
      isWhiteSpace c && (t.dropWhile fun d => d != '<' && d != '>').head? == some '>'
  | [] => false

def isNamedTag : Text → Bool
  | c :: t => isAsciiLetter c && endsTag (t.dropWhile isNameChar)
  | [] => false

/-- Whether a tag begins at the front of the text. -/
def beginsAt : Text → Bool
  | '<' :: '/' :: t => isNamedTag t
  | '<' :: t => isNamedTag t
  | _ => false

def occursIn : Text → Bool
  | [] => false
  | c :: t => beginsAt (c :: t) || occursIn t

end InlineTag
end AndroidStrings
