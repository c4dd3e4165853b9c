import AndroidStrings.Text.CharClass
import AndroidStrings.Toml.Value

/-!
# Texts, numbers and times of a settings text

Every reader takes what it can from the front of a text and returns the value and the rest.
-/

namespace AndroidStrings
namespace Toml

open CharClass

abbrev Reader (α : Type) := Text → Option (α × Text)

def isBlankChar (c : Char) : Bool :=
  c == ' ' || c == '\t'

def skipBlank (t : Text) : Text :=
  t.dropWhile isBlankChar

/-- Characters that may stand in a comment: everything but controls, and the tab. -/
def isPlain (c : Char) : Bool :=
  c == '\t' || (0x20 ≤ c.toNat && c.toNat ≤ 0x7E) || 0x80 ≤ c.toNat

/-- What follows a line break at the front. -/
def lineBreak? : Text → Option Text
  | '\n' :: t => some t
  | '\r' :: '\n' :: t => some t
  | _ => none

/-!
## Texts
-/

def digitOf (c : Char) : Nat :=
  if '0' ≤ c ∧ c ≤ '9' then c.toNat - '0'.toNat
  else if 'a' ≤ c ∧ c ≤ 'f' then c.toNat - 'a'.toNat + 10
  else c.toNat - 'A'.toNat + 10

def numberOf (radix : Nat) (digits : Text) : Nat :=
  digits.foldl (fun number c => number * radix + digitOf c) 0

/-- A character given by a fixed number of hexadecimal digits. -/
def readCodePoint (length : Nat) : Reader Char := fun t =>
  let digits := t.take length
  let code := numberOf 16 digits
  if digits.length = length ∧ digits.all isHexDigit ∧ code.isValidChar then
    some (Char.ofNat code, t.drop length)
  else none

/-- What follows a backslash in a text. -/
def readEscape : Reader Char
  | 'b' :: t => some ('\x08', t)
  | 't' :: t => some ('\t', t)
  | 'n' :: t => some ('\n', t)
  | 'f' :: t => some ('\x0c', t)
  | 'r' :: t => some ('\r', t)
  | '"' :: t => some ('"', t)
  | '\\' :: t => some ('\\', t)
  | 'u' :: t => readCodePoint 4 t
  | 'U' :: t => readCodePoint 8 t
  | _ => none

theorem length_le_of_readCodePoint {length : Nat} {t rest : Text} {c : Char}
    (h : readCodePoint length t = some (c, rest)) : rest.length ≤ t.length := by
  simp only [readCodePoint] at h
  split at h
  · simp only [Option.some.injEq, Prod.mk.injEq] at h
    rw [← h.2, List.length_drop]
    omega
  · simp at h

theorem length_le_of_readEscape {t rest : Text} {c : Char}
    (h : readEscape t = some (c, rest)) : rest.length ≤ t.length := by
  have single : ∀ {named d : Char} {u : Text}, some (d, u) = some (c, rest) →
      rest.length ≤ (named :: u).length := by
    intro named d u hu
    simp only [Option.some.injEq, Prod.mk.injEq] at hu
    simp [hu.2]
  unfold readEscape at h
  split at h
  · exact single h
  · exact single h
  · exact single h
  · exact single h
  · exact single h
  · exact single h
  · exact single h
  · exact Nat.le_succ_of_le (length_le_of_readCodePoint h)
  · exact Nat.le_succ_of_le (length_le_of_readCodePoint h)
  · simp at h

/-- The rest of a text in double quotes. -/
def readBasic (t : Text) : Option (Text × Text) :=
  match t with
  | [] => none
  | '"' :: rest => some ([], rest)
  | '\\' :: rest =>
      match _h : readEscape rest with
      | some (c, after) => (readBasic after).map fun found => (c :: found.1, found.2)
      | none => none
  | c :: rest =>
      if isPlain c then (readBasic rest).map fun found => (c :: found.1, found.2) else none
termination_by t.length
decreasing_by
  · have h := length_le_of_readEscape _h
    simp only [List.length_cons]
    omega
  · simp

def readLiteral : Text → Option (Text × Text)
  | [] => none
  | '\'' :: rest => some ([], rest)
  | c :: rest =>
      if isPlain c then (readLiteral rest).map fun found => (c :: found.1, found.2) else none

/-- Up to two more quotes right behind a closing run of three belong to the text. -/
def closingQuotes (quote : Char) (t : Text) : Text × Text :=
  let extra := (t.take 2).takeWhile (· == quote)
  (extra, t.drop extra.length)

/-- Drops blanks and line breaks. -/
def skipBlankLines : Text → Text
  | '\r' :: '\n' :: t => skipBlankLines t
  | c :: t => if isBlankChar c || c == '\n' then skipBlankLines t else c :: t
  | [] => []

theorem length_skipBlankLines_le (t : Text) : (skipBlankLines t).length ≤ t.length := by
  fun_induction skipBlankLines t with
  | case1 t ih =>
      simp only [List.length_cons]
      omega
  | case2 c t _ _ ih =>
      simp only [List.length_cons]
      omega
  | case3 => simp
  | case4 => simp

/-- What follows a backslash at the end of a line: the line break, and all blanks and line
breaks behind it, are left out. -/
def skipContinuation? (t : Text) : Option Text :=
  (lineBreak? (skipBlank t)).map skipBlankLines

theorem length_le_of_lineBreak? {t rest : Text} (h : lineBreak? t = some rest) :
    rest.length ≤ t.length := by
  unfold lineBreak? at h
  split at h
  · simp only [Option.some.injEq] at h
    simp [h]
  · simp only [Option.some.injEq] at h
    simp only [h, List.length_cons]
    omega
  · simp at h

theorem length_le_of_skipContinuation? {t rest : Text} (h : skipContinuation? t = some rest) :
    rest.length ≤ t.length := by
  obtain ⟨after, hafter, heq⟩ := Option.map_eq_some_iff.mp h
  have hbreak := length_le_of_lineBreak? hafter
  have hlines := length_skipBlankLines_le after
  have hblank := (List.dropWhile_sublist (l := t) isBlankChar).length_le
  rw [← heq]
  simp only [skipBlank] at hbreak
  omega

/-- The rest of a text between runs of three double quotes. -/
def readBasicLines (t : Text) : Option (Text × Text) :=
  match t with
  | [] => none
  | '"' :: '"' :: '"' :: rest => some (closingQuotes '"' rest)
  | '"' :: rest => (readBasicLines rest).map fun found => ('"' :: found.1, found.2)
  | '\\' :: rest =>
      match _hskip : skipContinuation? rest with
      | some after => readBasicLines after
      | none =>
          match _hescape : readEscape rest with
          | some (c, after) => (readBasicLines after).map fun found => (c :: found.1, found.2)
          | none => none
  | '\r' :: '\n' :: rest => (readBasicLines rest).map fun found => ('\n' :: found.1, found.2)
  | c :: rest =>
      if c == '\n' || isPlain c then
        (readBasicLines rest).map fun found => (c :: found.1, found.2)
      else none
termination_by t.length
decreasing_by
  · simp
  · have h := length_le_of_skipContinuation? _hskip
    simp only [List.length_cons]
    omega
  · have h := length_le_of_readEscape _hescape
    simp only [List.length_cons]
    omega
  · simp only [List.length_cons]
    omega
  · simp

/-- The rest of a text between runs of three single quotes. -/
def readLiteralLines : Text → Option (Text × Text)
  | [] => none
  | '\'' :: '\'' :: '\'' :: rest => some (closingQuotes '\'' rest)
  | '\'' :: rest => (readLiteralLines rest).map fun found => ('\'' :: found.1, found.2)
  | '\r' :: '\n' :: rest => (readLiteralLines rest).map fun found => ('\n' :: found.1, found.2)
  | c :: rest =>
      if c == '\n' || isPlain c then
        (readLiteralLines rest).map fun found => (c :: found.1, found.2)
      else none

/-- A line break right behind the opening quotes does not count. -/
def skipFirstBreak (t : Text) : Text :=
  (lineBreak? t).getD t

/-- A text in quotes, which stand at the front. -/
def readText : Reader Text
  | '"' :: '"' :: '"' :: t => readBasicLines (skipFirstBreak t)
  | '"' :: t => readBasic t
  | '\'' :: '\'' :: '\'' :: t => readLiteralLines (skipFirstBreak t)
  | '\'' :: t => readLiteral t
  | _ => none

/-!
## Numbers

Digits may have single underscores between them.
-/

/-- Digits behind the first one, without the underscores. -/
def moreDigits (digit : Char → Bool) : Text → Text × Text
  | '_' :: c :: t =>
      if digit c then
        let found := moreDigits digit t
        (c :: found.1, found.2)
      else ([], '_' :: c :: t)
  | c :: t =>
      if digit c then
        let found := moreDigits digit t
        (c :: found.1, found.2)
      else ([], c :: t)
  | [] => ([], [])

def readDigits (digit : Char → Bool) : Reader Text
  | [] => none
  | c :: t =>
      if digit c then
        let found := moreDigits digit t
        some (c :: found.1, found.2)
      else none

def readSign : Text → Bool × Text
  | '-' :: t => (true, t)
  | '+' :: t => (false, t)
  | t => (false, t)

/-- Decimal digits without a leading zero. -/
def readDecimal : Reader Text
  | '0' :: t => some (['0'], t)
  | t => readDigits isAsciiDigit t

def signed (negative : Bool) (magnitude : Nat) : Int :=
  if negative then -(magnitude : Int) else magnitude

/-- Integers fit in 64 bits with a sign. -/
def integerValue? (negative : Bool) (magnitude : Nat) : Option Value :=
  if magnitude < Nat.pow 2 63 ∨ (negative ∧ magnitude = Nat.pow 2 63) then
    some (.integer (signed negative magnitude))
  else none

def readRadix (radix : Nat) (digit : Char → Bool) : Reader Value := fun t =>
  match readDigits digit t with
  | some (digits, rest) =>
      (integerValue? false (numberOf radix digits)).map fun value => (value, rest)
  | none => none

def isOctalDigit (c : Char) : Bool :=
  '0' ≤ c && c ≤ '7'

def isBinaryDigit (c : Char) : Bool :=
  c == '0' || c == '1'

/-- The exponent of a number; zero when there is none. -/
def readExponent : Reader Int
  | 'e' :: t => exponentDigits t
  | 'E' :: t => exponentDigits t
  | t => some (0, t)
where
  exponentDigits (t : Text) : Option (Int × Text) :=
    let (negative, digits) := readSign t
    (readDigits isAsciiDigit digits).map fun found =>
      (signed negative (numberOf 10 found.1), found.2)

def readFraction : Reader Text
  | '.' :: t => readDigits isAsciiDigit t
  | t => some ([], t)

/-- The least number that is rounded to an infinite one: half a step above the greatest finite
one. -/
def overflowBound : Nat :=
  Nat.pow 2 1024 - Nat.pow 2 970

/-- Whether digits followed by a number of zeros, or shifted behind the point, overflow. -/
def overflows (digits : Text) (shift : Int) : Bool :=
  let mantissa := numberOf 10 digits
  let magnitude := (Nat.toDigits 10 mantissa).length + shift
  if mantissa = 0 ∨ magnitude < 300 then false
  else if 320 < magnitude then true
  else if 0 ≤ shift then decide (overflowBound ≤ mantissa * Nat.pow 10 shift.toNat)
  else decide (overflowBound * Nat.pow 10 (-shift).toNat ≤ mantissa)

/-- A decimal number: an integer unless it has a fraction or an exponent. -/
def readDecimalNumber (negative : Bool) : Reader Value := fun t =>
  match readDecimal t with
  | none => none
  | some (whole, afterWhole) =>
      match readFraction afterWhole with
      | none => none
      | some (fraction, afterFraction) =>
          match readExponent afterFraction with
          | none => none
          | some (exponent, rest) =>
              if rest.length = afterWhole.length then
                (integerValue? negative (numberOf 10 whole)).map fun value => (value, rest)
              else if !negative && overflows (whole ++ fraction) (exponent - fraction.length) then
                none
              else some (.float, rest)

def readNumber : Reader Value
  | '0' :: 'x' :: t => readRadix 16 isHexDigit t
  | '0' :: 'o' :: t => readRadix 8 isOctalDigit t
  | '0' :: 'b' :: t => readRadix 2 isBinaryDigit t
  | t =>
      match readSign t with
      | (_, 'i' :: 'n' :: 'f' :: rest) => some (.float, rest)
      | (_, 'n' :: 'a' :: 'n' :: rest) => some (.float, rest)
      | (negative, digits) => readDecimalNumber negative digits

/-!
## Times
-/

/-- A fixed number of digits whose number lies in a range. -/
def readField (length low high : Nat) : Reader Nat := fun t =>
  let digits := t.take length
  let number := numberOf 10 digits
  if digits.length = length ∧ digits.all isAsciiDigit ∧ low ≤ number ∧ number ≤ high then
    some (number, t.drop length)
  else none

/-- A separator and a field behind it. -/
def readFieldAfter (separator : Char) (length low high : Nat) : Reader Nat
  | [] => none
  | c :: t => if c = separator then readField length low high t else none

def daysIn (year month : Nat) : Nat :=
  if month = 2 then
    if year % 4 = 0 ∧ (year % 100 ≠ 0 ∨ year % 400 = 0) then 29 else 28
  else if month = 4 ∨ month = 6 ∨ month = 9 ∨ month = 11 then 30
  else 31

def readDate : Reader Unit := fun t => do
  let (year, afterYear) ← readField 4 0 9999 t
  let (month, afterMonth) ← readFieldAfter '-' 2 1 12 afterYear
  let (day, rest) ← readFieldAfter '-' 2 1 31 afterMonth
  if day ≤ daysIn year month then some ((), rest) else none

def readSecondFraction : Reader Unit
  | '.' :: t =>
      match t.takeWhile isAsciiDigit with
      | [] => none
      | _ => some ((), t.dropWhile isAsciiDigit)
  | t => some ((), t)

def readClock : Reader Unit := fun t => do
  let (_, afterHour) ← readField 2 0 23 t
  let (_, afterMinute) ← readFieldAfter ':' 2 0 59 afterHour
  let (_, afterSecond) ← readFieldAfter ':' 2 0 60 afterMinute
  readSecondFraction afterSecond

def readOffset (t : Text) : Option (Unit × Text) :=
  match t with
  | 'Z' :: rest => some ((), rest)
  | 'z' :: rest => some ((), rest)
  | c :: rest =>
      if c = '+' ∨ c = '-' then do
        let (_, afterHour) ← readField 2 0 23 rest
        let (_, after) ← readFieldAfter ':' 2 0 59 afterHour
        some ((), after)
      else some ((), t)
  | [] => some ((), t)

/-- Whether a clock time begins here: an hour and a colon. -/
def beginsClock (t : Text) : Bool :=
  match readField 2 0 23 t with
  | some (_, ':' :: _) => true
  | _ => false

/-- A time of day behind a date; without one the date stands alone. -/
def readClockAfterDate (t : Text) : Option (Unit × Text) :=
  match t with
  | [] => some ((), t)
  | c :: rest =>
      if (c = 'T' ∨ c = 't' ∨ c = ' ') ∧ beginsClock rest then do
        let (_, after) ← readClock rest
        readOffset after
      else some ((), t)

/-- Whether a date begins here: a year and a hyphen. -/
def beginsDate (t : Text) : Bool :=
  match readField 4 0 9999 t with
  | some (_, '-' :: _) => true
  | _ => false

def readTime : Reader Value := fun t =>
  if beginsDate t then do
    let (_, afterDate) ← readDate t
    let (_, rest) ← readClockAfterDate afterDate
    some (.time, rest)
  else do
    let (_, rest) ← readClock t
    some (.time, rest)

/-- A time or a number. -/
def readTimeOrNumber : Reader Value := fun t =>
  if beginsDate t || beginsClock t then readTime t else readNumber t

end Toml
end AndroidStrings
