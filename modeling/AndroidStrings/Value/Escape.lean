import AndroidStrings.Value.InlineTag

/-!
# Stored and displayed values

A value is typed as display text and stored in a file as XML text with backslashes before
quotes.  A value that already carries `&amp;`, `&lt;` or `&gt;` counts as escaped and keeps its
entities; inline tags are never escaped, and quotes inside a tag delimit attributes.
-/

namespace AndroidStrings

open CharClass

namespace Text

/-- `&apos;` and `&quot;` become plain quotes. -/
def plainQuotes (t : Text) : Text :=
  replaceAll "&quot;".toList ['"'] (replaceAll "&apos;".toList ['\''] t)

def hasEscapes (t : Text) : Bool :=
  t.contains "&amp;".toList || t.contains "&lt;".toList || t.contains "&gt;".toList

/-!
## Ampersands

An ampersand is left alone where it begins a reference: a name that begins with an ASCII letter,
or a decimal or hexadecimal number behind `#`, closed by a semicolon.
-/

def isRunThenSemicolon (digit : Char → Bool) : Text → Bool
  | c :: t => digit c && (t.dropWhile digit).head? == some ';'
  | [] => false

/-- Whether what follows an ampersand completes a reference. -/
def completesReference : Text → Bool
  | '#' :: 'x' :: t => isRunThenSemicolon isHexDigit t
  | '#' :: 'X' :: t => isRunThenSemicolon isHexDigit t
  | '#' :: t => isRunThenSemicolon isAsciiDigit t
  | c :: t => isAsciiLetter c && (t.dropWhile isWord).head? == some ';'
  | [] => false

def escapeBareAmpersands : Text → Text
  | [] => []
  | c :: t =>
      if c = '&' ∧ completesReference t = false then
        "&amp;".toList ++ escapeBareAmpersands t
      else
        c :: escapeBareAmpersands t

def escapeAngles : Text → Text
  | [] => []
  | '<' :: t => "&lt;".toList ++ escapeAngles t
  | '>' :: t => "&gt;".toList ++ escapeAngles t
  | c :: t => c :: escapeAngles t

/-!
## Quotes

The writer remembers the last character read and what it wrote since the last `<` that no `>`
followed.
-/

def isQuote (c : Char) : Bool :=
  c == '\'' || c == '"'

/-- Whether a `>` would now end an inline tag. -/
def insideTag : Option Text → Bool
  | some opened => InlineTag.occursIn (opened ++ ['>'])
  | none => false

/-- The text written since the last unclosed `<`, after one more character. -/
def trackOpen (opened : Option Text) (c : Char) : Option Text :=
  if c = '<' then some ['<'] else if c = '>' then none else opened.map (· ++ [c])

def escapeQuotesFrom (previous : Option Char) (opened : Option Text) : Text → Text
  | [] => []
  | c :: t =>
      if isQuote c ∧ previous ≠ some '\\' ∧ insideTag opened = false then
        '\\' :: c :: escapeQuotesFrom (some c) (trackOpen (trackOpen opened '\\') c) t
      else
        c :: escapeQuotesFrom (some c) (trackOpen opened c) t

def escapeQuotes (t : Text) : Text :=
  escapeQuotesFrom none none t

end Text

/-!
## Escaping and its inverse
-/

/-- The stored form of a display text. -/
def escapeValue (value : Text) : Text :=
  let plain := value.plainQuotes
  let amps := plain.escapeBareAmpersands
  if plain.hasEscapes || InlineTag.occursIn amps then
    amps.escapeQuotes
  else
    amps.escapeAngles.escapeQuotes

/-- The display text of a stored value. -/
def unescapeValue (stored : Text) : Text :=
  let quotes := Text.replaceAll "\\\"".toList ['"'] (Text.replaceAll "\\'".toList ['\''] stored)
  let angles := Text.replaceAll "&gt;".toList ['>'] (Text.replaceAll "&lt;".toList ['<'] quotes)
  Text.replaceAll "&amp;".toList ['&'] angles

/-- How an edit stores the value that it is given. -/
inductive EscapeMode where
  | escaped
  | raw
  deriving DecidableEq, Repr

namespace EscapeMode

def ofRawFlag (raw : Bool) : EscapeMode :=
  if raw then .raw else .escaped

def apply : EscapeMode → Text → Text
  | .escaped, value => escapeValue value
  | .raw, value => value

end EscapeMode
end AndroidStrings
