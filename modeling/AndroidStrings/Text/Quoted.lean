import AndroidStrings.Text.Search
import AndroidStrings.Text.CharClass

/-!
# Quoted texts

Reports show a list of texts in brackets, each text between double quotes.  Quotes, backslashes
and the common controls are written with a backslash, and a character without a visible form of
its own is written by its number in hexadecimal digits between braces.
-/

namespace AndroidStrings
namespace Quoted

def hexDigit (n : Nat) : Char :=
  if n < 10 then Char.ofNat ('0'.toNat + n) else Char.ofNat ('a'.toNat + (n - 10))

/-- Hexadecimal digits without padding. -/
def hex (n : Nat) : Text :=
  if n < 16 then [hexDigit n] else hex (n / 16) ++ [hexDigit (n % 16)]

def ofChar (c : Char) : Text :=
  if c == '"' then ['\\', '"']
  else if c == '\\' then ['\\', '\\']
  else if c == '\n' then ['\\', 'n']
  else if c == '\t' then ['\\', 't']
  else if c == '\r' then ['\\', 'r']
  else if c == '\x00' then ['\\', '0']
  else if CharClass.isPrintable c then [c]
  else ['\\', 'u', '{'] ++ hex c.toNat ++ ['}']

def ofText (t : Text) : Text :=
  '"' :: t.flatMap ofChar ++ ['"']

def ofList (texts : List Text) : Text :=
  '[' :: Text.joinWith [',', ' '] (texts.map ofText) ++ [']']

end Quoted
end AndroidStrings
