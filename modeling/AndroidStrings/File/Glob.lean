import AndroidStrings.Text.Encoding

/-!
# Glob patterns

Patterns for paths, which they are held against byte by byte.  A question mark is one byte and a
star any number of them, but neither crosses a slash.  Two stars between slashes stand for any
number of directories, brackets for a class of bytes, and braces for a choice; a backslash takes
the next character as it is.
-/

namespace AndroidStrings

inductive GlobToken where
  | literal (c : Char)
  | anyByte
  | anyRun
  | anyDirectoriesFirst
  | anyDirectoriesBetween
  | anythingBelow
  | byteClass (negated : Bool) (ranges : List (UInt8 × UInt8))
  /-- One of the choices, or nothing if there is none. -/
  | oneOf (choices : List (List GlobToken))

structure Glob where
  tokens : List GlobToken

namespace GlobToken

def slash : UInt8 :=
  0x2F

/-- Whether a condition holds of some end of a path right behind a slash. -/
def someBehindSlash (holds : Bytes → Bool) : Bytes → Bool
  | [] => false
  | b :: rest => (b == slash && holds rest) || someBehindSlash holds rest

/-- Whether a condition holds of some end of a path. -/
def someEnd (holds : Bytes → Bool) : Bytes → Bool
  | [] => holds []
  | b :: rest => holds (b :: rest) || someEnd holds rest

/-- Whether a condition holds behind some number of bytes other than slashes. -/
def someBehindRun (holds : Bytes → Bool) : Bytes → Bool
  | [] => holds []
  | b :: rest => holds (b :: rest) || (b != slash && someBehindRun holds rest)

/-- Whether a condition holds behind the given bytes. -/
def holdsBehind (front : Bytes) (holds : Bytes → Bool) (path : Bytes) : Bool :=
  front.isPrefixOf path && holds (path.drop front.length)

/-- Whether a condition holds behind one byte of a class. -/
def holdsBehindByte (inClass : UInt8 → Bool) (holds : Bytes → Bool) : Bytes → Bool
  | [] => false
  | b :: rest => inClass b && holds rest

def inRanges (ranges : List (UInt8 × UInt8)) (b : UInt8) : Bool :=
  ranges.any fun range => decide (range.1 ≤ b ∧ b ≤ range.2)

mutual

/-- Whether a token takes a front part of a path such that a condition holds of the rest. -/
def accepts : GlobToken → (Bytes → Bool) → Bytes → Bool
  | literal c, holds, path => holdsBehind (Encoding.encode [c]) holds path
  | anyByte, holds, path => holdsBehindByte (· != slash) holds path
  | anyRun, holds, path => someBehindRun holds path
  | anyDirectoriesFirst, holds, path => holds path || someBehindSlash holds path
  | anyDirectoriesBetween, holds, path =>
      holdsBehindByte (· == slash) (fun rest => holds rest || someBehindSlash holds rest) path
  | anythingBelow, holds, path => holdsBehindByte (· == slash) (someEnd holds) path
  | byteClass negated ranges, holds, path =>
      holdsBehindByte (fun b => inRanges ranges b != negated) holds path
  | oneOf choices, holds, path => (choices.isEmpty && holds path) || acceptsOne choices holds path

/-- Whether tokens take a front part of a path, one after the other. -/
def acceptsAll : List GlobToken → (Bytes → Bool) → Bytes → Bool
  | [], holds, path => holds path
  | token :: rest, holds, path => accepts token (acceptsAll rest holds) path

/-- Whether one of several choices takes a front part of a path. -/
def acceptsOne : List (List GlobToken) → (Bytes → Bool) → Bytes → Bool
  | [], _, _ => false
  | choice :: rest, holds, path => acceptsAll choice holds path || acceptsOne rest holds path

end

/-- Whether a token takes nothing from any path. -/
def isBlank : GlobToken → Bool
  | oneOf [] => true
  | _ => false

end GlobToken

namespace Glob

/-- Two stars alone are every path. -/
def accepts (glob : Glob) (path : Text) : Bool :=
  match glob.tokens with
  | [.anyDirectoriesFirst] => true
  | tokens => GlobToken.acceptsAll tokens List.isEmpty (Encoding.encode path)

/-!
## Reading a pattern
-/

/-- One level of braces: the choices that are complete, and the tokens of the one being read. -/
structure Level where
  complete : List (List GlobToken)
  current : List GlobToken

namespace Level

def start : Level :=
  ⟨[], []⟩

def push (level : Level) (token : GlobToken) : Level :=
  { level with current := level.current ++ [token] }

def nextChoice (level : Level) : Level :=
  ⟨level.complete ++ [level.current], []⟩

/-- A closed level as one token; choices that take nothing do not count. -/
def close (level : Level) : GlobToken :=
  .oneOf ((level.complete ++ [level.current]).filter fun tokens => !tokens.all GlobToken.isBlank)

/-- Two stars after a slash take the place of the slash, or go with the stars before it. -/
def pushDirectories (level : Level) (token : GlobToken) : Level :=
  match level.current.getLast? with
  | some .anyDirectoriesFirst => level
  | some .anythingBelow => level
  | _ => { level with current := level.current.dropLast ++ [token] }

end Level

/-- The bytes of a range of characters: the range goes from the last byte of the first character
to the first byte of the last one, and all other bytes stand for themselves. -/
def byteRanges (range : Char × Char) : List (UInt8 × UInt8) :=
  let low := Encoding.encode [range.1]
  if range.1 = range.2 then low.map fun b => (b, b)
  else
    match low.getLast?, Encoding.encode [range.2] with
    | some b, first :: rest =>
        low.dropLast.map (fun b => (b, b)) ++ (b, first) :: rest.map fun b => (b, b)
    | _, _ => []

/-- What follows an opening bracket. -/
inductive ClassReading where
  | closed (ranges : List (Char × Char)) (rest : Text)
  /-- The pattern ends before the class does. -/
  | unclosed
  /-- A range whose ends are out of order. -/
  | reversed

/-- Reads the rest of a class; the range read last comes first. -/
def readClass (first inRange : Bool) (ranges : List (Char × Char)) : Text → ClassReading
  | [] => .unclosed
  | c :: t =>
      if c = ']' ∧ first = false then
        .closed (if inRange then ('-', '-') :: ranges else ranges) t
      else if c = '-' ∧ first = false ∧ inRange = false then readClass false true ranges t
      else
        match inRange, ranges with
        | true, (low, _) :: others =>
            if low ≤ c then readClass false false ((low, c) :: others) t else .reversed
        | _, _ => readClass false false ((c, c) :: ranges) t

theorem length_lt_of_readClass {first inRange : Bool} {ranges found : List (Char × Char)}
    {t rest : Text} (h : readClass first inRange ranges t = .closed found rest) :
    rest.length < t.length := by
  induction t generalizing first inRange ranges with
  | nil => simp [readClass] at h
  | cons c t ih =>
      unfold readClass at h
      split at h
      · simp only [ClassReading.closed.injEq] at h
        simp [h.2]
      · split at h
        · exact Nat.lt_succ_of_lt (ih h)
        · split at h
          · split at h
            · exact Nat.lt_succ_of_lt (ih h)
            · simp at h
          · exact Nat.lt_succ_of_lt (ih h)

def readNegation : Text → Bool × Text
  | '!' :: t => (true, t)
  | '^' :: t => (true, t)
  | t => (false, t)

theorem length_readNegation_le (t : Text) : (readNegation t).2.length ≤ t.length := by
  unfold readNegation
  split <;> simp

/-- What is being read: the character before, whether a bracket can open a class, the level and
the levels around it. -/
structure Reading where
  previous : Option Char
  hasClasses : Bool
  level : Level
  outer : List Level

namespace Reading

def start : Reading :=
  ⟨none, true, .start, []⟩

def isNested (reading : Reading) : Bool :=
  !reading.outer.isEmpty

def pass (reading : Reading) (c : Char) (level : Level) : Reading :=
  { reading with previous := some c, level := level }

def push (reading : Reading) (c : Char) (token : GlobToken) : Reading :=
  reading.pass c (reading.level.push token)

/-- A bracket that is never closed stands for itself, and so does every one behind it. -/
def passUnclosed (reading : Reading) : Reading :=
  { reading.push '[' (.literal '[') with hasClasses := false }

def passClass (reading : Reading) (negated : Bool) (ranges : List (Char × Char)) : Reading :=
  reading.push ']' (.byteClass negated (ranges.flatMap byteRanges))

def enter (reading : Reading) : Reading :=
  { reading with previous := some '{', level := .start, outer := reading.level :: reading.outer }

def leave? (reading : Reading) : Option Reading :=
  match reading.outer with
  | [] => none
  | around :: others =>
      some { reading with
        previous := some '}', level := around.push reading.level.close, outer := others }

def passComma (reading : Reading) : Reading :=
  if reading.isNested then reading.pass ',' reading.level.nextChoice
  else reading.push ',' (.literal ',')

/-- What two stars mean, given the text behind them: the reading after them and what is left to
read.  They take a slash behind them along. -/
def readStars (reading : Reading) (t : Text) : Reading × Text :=
  let level := reading.level
  let plain := (reading.pass '*' ((level.push .anyRun).push .anyRun), t)
  let atStart :=
    reading.isNested && (reading.previous == some ',' || reading.previous == some '{')
  if level.current.isEmpty then
    match t with
    | [] => (reading.push '*' .anyDirectoriesFirst, [])
    | '/' :: rest => (reading.push '/' .anyDirectoriesFirst, rest)
    | _ => plain
  else if reading.previous != some '/' && !atStart then plain
  else
    match t with
    | [] => (reading.pass '*' (level.pushDirectories .anythingBelow), [])
    | '/' :: rest => (reading.pass '/' (level.pushDirectories .anyDirectoriesBetween), rest)
    | c :: _ =>
        if reading.isNested && (c == ',' || c == '}') then
          (reading.pass '*' (level.pushDirectories .anythingBelow), t)
        else plain

theorem length_readStars_le (reading : Reading) (t : Text) :
    (reading.readStars t).2.length ≤ t.length := by
  unfold readStars
  simp only
  repeat' split
  all_goals simp

end Reading

def readFrom (reading : Reading) (t : Text) : Option (List GlobToken) :=
  match t with
  | [] => if reading.isNested then none else some reading.level.current
  | '?' :: rest => readFrom (reading.push '?' .anyByte) rest
  | '*' :: '*' :: rest =>
      readFrom (reading.readStars rest).1 (reading.readStars rest).2
  | '*' :: rest => readFrom (reading.push '*' .anyRun) rest
  | '[' :: rest =>
      if reading.hasClasses then
        match _h : readClass true false [] (readNegation rest).2 with
        | .closed ranges after =>
            readFrom (reading.passClass (readNegation rest).1 ranges) after
        | .unclosed => readFrom reading.passUnclosed rest
        | .reversed => none
      else readFrom (reading.push '[' (.literal '[')) rest
  | '{' :: rest => readFrom reading.enter rest
  | '}' :: rest =>
      match reading.leave? with
      | some next => readFrom next rest
      | none => none
  | ',' :: rest => readFrom reading.passComma rest
  | '\\' :: c :: rest => readFrom (reading.push c (.literal c)) rest
  | ['\\'] => none
  | c :: rest => readFrom (reading.push c (.literal c)) rest
termination_by t.length
decreasing_by
  all_goals simp only [List.length_cons]
  all_goals try omega
  · have h := reading.length_readStars_le rest
    omega
  · have hclass := length_lt_of_readClass _h
    have hnegation := length_readNegation_le rest
    omega

/-- Reads a pattern; `none` when a brace or a backslash is left open, or a range is reversed. -/
def parse? (pattern : Text) : Option Glob :=
  (readFrom .start pattern).map Glob.mk

end Glob
end AndroidStrings
