import AndroidStrings.Text.CharClass.AlphabeticTable
import AndroidStrings.Text.CharClass.MarkTable
import AndroidStrings.Text.CharClass.NumberTable
import AndroidStrings.Text.CharClass.RecentTable
import AndroidStrings.Text.CharClass.UnprintableTable

/-!
# Classes of characters

The Unicode classes that values, ids and references are read with.  Word characters are the
alphabetic characters, marks, decimal digits, connectors and the two join controls of Unicode 16;
the alphanumeric ones are the alphabetic characters and all numbers of Unicode 17.
-/

namespace AndroidStrings
namespace CharClass

def inRanges (ranges : List (Nat × Nat)) (c : Char) : Bool :=
  ranges.any fun range => decide (range.1 ≤ c.toNat ∧ c.toNat ≤ range.2)

def isAsciiLetter (c : Char) : Bool :=
  ('a' ≤ c && c ≤ 'z') || ('A' ≤ c && c ≤ 'Z')

def isAsciiDigit (c : Char) : Bool :=
  '0' ≤ c && c ≤ '9'

def isAsciiAlphanumeric (c : Char) : Bool :=
  isAsciiLetter c || isAsciiDigit c

def isHexDigit (c : Char) : Bool :=
  isAsciiDigit c || ('a' ≤ c && c ≤ 'f') || ('A' ≤ c && c ≤ 'F')

def isAscii (c : Char) : Bool :=
  c.toNat < 0x80

/-- Letters and what is used like letters. -/
def isAlphabetic (c : Char) : Bool :=
  if isAscii c then isAsciiLetter c else inRanges alphabeticRanges c

/-- Whether a character is new in Unicode 17. -/
def isRecent (c : Char) : Bool :=
  !isAscii c && inRanges recentRanges c

def isDecimalDigit (c : Char) : Bool :=
  if isAscii c then isAsciiDigit c else inRanges decimalDigitRanges c && !isRecent c

def isNumeric (c : Char) : Bool :=
  if isAscii c then isAsciiDigit c else inRanges numberRanges c

def isAlphanumeric (c : Char) : Bool :=
  isAlphabetic c || isNumeric c

def isMark (c : Char) : Bool :=
  !isAscii c && inRanges markRanges c

def isConnector (c : Char) : Bool :=
  inRanges connectorRanges c

def isJoinControl (c : Char) : Bool :=
  c == '\u200c' || c == '\u200d'

def isWord (c : Char) : Bool :=
  (isAlphabetic c || isMark c || isDecimalDigit c || isConnector c || isJoinControl c) &&
    !isRecent c

def whiteSpaceRanges : List (Nat × Nat) :=
  [(0x9, 0xD), (0x20, 0x20), (0x85, 0x85), (0xA0, 0xA0), (0x1680, 0x1680), (0x2000, 0x200A),
   (0x2028, 0x2029), (0x202F, 0x202F), (0x205F, 0x205F), (0x3000, 0x3000)]

def isWhiteSpace (c : Char) : Bool :=
  inRanges whiteSpaceRanges c

/-- The voice marks of halfwidth katakana. -/
def isHalfwidthVoiceMark (c : Char) : Bool :=
  c == '\uff9e' || c == '\uff9f'

/-- Whether a character is drawn onto the one before it.  Halfwidth voice marks have a place of
their own. -/
def isAttached (c : Char) : Bool :=
  inRanges graphemeExtendRanges c && !isHalfwidthVoiceMark c

/-- Whether a character is shown as itself in a quoted text, not by its number. -/
def isPrintable (c : Char) : Bool :=
  !inRanges unprintableRanges c && !isAttached c && !inRanges fillerRanges c

end CharClass
end AndroidStrings
