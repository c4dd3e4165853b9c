import AndroidStrings.Toml.Scalar

/-!
# Reading a settings text

A settings text is a list of lines: comments, headers, and keys with their values.  Arrays may
run over several lines, and values nest to a fixed depth.
-/

namespace AndroidStrings
namespace Toml

open CharClass

/-!
## Keys
-/

def isBareKeyChar (c : Char) : Bool :=
  isAsciiAlphanumeric c || c == '_' || c == '-'

def readSimpleKey : Reader Text
  | '"' :: t => readBasic t
  | '\'' :: t => readLiteral t
  | t =>
      match t.takeWhile isBareKeyChar with
      | [] => none
      | key => some (key, t.dropWhile isBareKeyChar)

/-- Keys with dots between them, blanks around the dots allowed. -/
def readDottedKey (t : Text) : Option (List Text × Text) :=
  match readSimpleKey t with
  | none => none
  | some (key, rest) =>
      match skipBlank rest with
      | '.' :: after =>
          let next := skipBlank after
          if next.length < t.length then
            (readDottedKey next).map fun found => (key :: found.1, found.2)
          else none
      | _ => some ([key], rest)
termination_by t.length

/-- A key leads this deep. -/
def maxKeyDepth : Nat :=
  79

def readKey (t : Text) : Option (List Text × Text) :=
  (readDottedKey t).filter fun found => found.1.length ≤ maxKeyDepth

/-- A dotted key as the keys on the way and the last one. -/
def splitKey? (keys : List Text) : Option (List Text × Text) :=
  keys.getLast?.map fun last => (keys.dropLast, last)

/-!
## Values
-/

/-- Drops blanks, line breaks and comments; a comment must not hold control characters. -/
def skipAllBlank (t : Text) : Option Text :=
  match t with
  | [] => some []
  | '#' :: rest =>
      match _h : lineBreak? (rest.dropWhile isPlain) with
      | some next => skipAllBlank next
      | none => if (rest.dropWhile isPlain).isEmpty then some [] else none
  | '\r' :: '\n' :: rest => skipAllBlank rest
  | c :: rest => if isBlankChar c || c == '\n' then skipAllBlank rest else some (c :: rest)
termination_by t.length
decreasing_by
  · have hplain := (List.dropWhile_sublist (l := rest) isPlain).length_le
    have hbreak := length_le_of_lineBreak? _h
    simp only [List.length_cons]
    omega
  · simp only [List.length_cons]
    omega
  · simp

/-- The rest of an array, given how an item is read. -/
def readItems (item : Reader Value) (t : Text) : Option (List Value × Text) :=
  match skipAllBlank t with
  | none => none
  | some (']' :: rest) => some ([], rest)
  | some next =>
      match item next with
      | none => none
      | some (value, after) =>
          match skipAllBlank after with
          | some (']' :: rest) => some ([value], rest)
          | some (',' :: rest) =>
              if rest.length < t.length then
                (readItems item rest).map fun found => (value :: found.1, found.2)
              else none
          | _ => none
termination_by t.length

/-- A key and its value, given how a value is read. -/
def readPair (item : Reader Value) (t : Text) : Option ((List Text × Value) × Text) :=
  match readKey t with
  | none => none
  | some (keys, afterKey) =>
      match skipBlank afterKey with
      | '=' :: rest => (item (skipBlank rest)).map fun found => ((keys, found.1), found.2)
      | _ => none

def addPair (origin : Origin) (entries : Entries) (keys : List Text) (value : Value) :
    Option Entries :=
  match splitKey? keys with
  | some (path, key) => setKey path key value origin entries
  | none => none

/-- The rest of an inline table behind an opening brace or a comma. -/
def readInline (item : Reader Value) (entries : Entries) (t : Text) : Option (Entries × Text) :=
  match readPair item (skipBlank t) with
  | none => none
  | some ((keys, value), after) =>
      match addPair .inline entries keys value with
      | none => none
      | some extended =>
          match skipBlank after with
          | '}' :: rest => some (extended, rest)
          | ',' :: rest =>
              if rest.length < t.length then readInline item extended rest else none
          | _ => none
termination_by t.length

def readInlineTable (item : Reader Value) : Reader Value := fun t =>
  match skipBlank t with
  | '}' :: rest => some (.table .inline [], rest)
  | _ => (readInline item [] t).map fun found => (.table .inline found.1, found.2)

def isTextQuote (c : Char) : Bool :=
  c == '"' || c == '\''

/-- A value, with arrays and inline tables to a given depth. -/
def readValue : Nat → Reader Value
  | depth, t =>
      match t with
      | [] => none
      | '[' :: rest =>
          match depth with
          | 0 => none
          | shallower + 1 =>
              (readItems (readValue shallower) rest).map fun found => (.array found.1, found.2)
      | '{' :: rest =>
          match depth with
          | 0 => none
          | shallower + 1 => readInlineTable (readValue shallower) rest
      | 't' :: 'r' :: 'u' :: 'e' :: rest => some (.boolean true, rest)
      | 'f' :: 'a' :: 'l' :: 's' :: 'e' :: rest => some (.boolean false, rest)
      | c :: _ =>
          if isTextQuote c then (readText t).map fun found => (.text found.1, found.2)
          else readTimeOrNumber t

/-- Arrays and inline tables nest this deep. -/
def maxDepth : Nat :=
  79

/-!
## Lines
-/

/-- The table that lines are read into, and the path of the last header. -/
structure Settings where
  entries : Entries
  header : List Text

/-- Two closing brackets behind a header for one more table of an array, otherwise one. -/
def readHeaderEnd (isArray : Bool) (t : Text) : Option Text :=
  match isArray, t with
  | true, ']' :: ']' :: rest => some rest
  | false, ']' :: rest => some rest
  | _, _ => none

/-- A header behind its opening brackets. -/
def readHeader (settings : Settings) (isArray : Bool) (t : Text) : Option (Settings × Text) :=
  match readKey (skipBlank t) with
  | none => none
  | some (keys, afterKey) =>
      match readHeaderEnd isArray (skipBlank afterKey), splitKey? keys with
      | some rest, some (path, key) =>
          let change := if isArray then openNextTable key else openTable key
          (changeBelowHeaders change path .header settings.entries).map fun entries =>
            (⟨entries, keys⟩, rest)
      | _, _ => none

def readSetting (settings : Settings) (t : Text) : Option (Settings × Text) :=
  match readPair (readValue maxDepth) t with
  | none => none
  | some ((keys, value), rest) =>
      let change : Change := fun origin entries => addPair origin entries keys value
      (changeBelowHeaders change settings.header .header settings.entries).map fun entries =>
        ({ settings with entries := entries }, rest)

/-- What a line says, from its first character that is no blank. -/
def readLine (settings : Settings) (t : Text) : Option (Settings × Text) :=
  match t with
  | [] => some (settings, [])
  | '#' :: _ => some (settings, t)
  | '\n' :: _ => some (settings, t)
  | '\r' :: _ => some (settings, t)
  | '[' :: '[' :: rest => readHeader settings true rest
  | '[' :: rest => readHeader settings false rest
  | _ => readSetting settings t

/-- The end of a line: blanks, perhaps a comment, and a line break or the end of the text. -/
def readLineEnd (t : Text) : Option Text :=
  let afterBlank := skipBlank t
  let rest : Text := match afterBlank with
    | '#' :: comment => comment.dropWhile isPlain
    | _ => afterBlank
  match rest with
  | [] => some []
  | _ => lineBreak? rest

def readLines (settings : Settings) (t : Text) : Option Entries :=
  match readLine settings (skipBlank t) with
  | none => none
  | some (read, rest) =>
      match readLineEnd rest with
      | none => none
      | some next =>
          if next.length < t.length then readLines read next
          else if next.isEmpty then some read.entries
          else none
termination_by t.length

/-- Reads a settings text; a mark for the byte order at its front does not count. -/
def parse? (t : Text) : Option Entries :=
  match t with
  | '\ufeff' :: rest => readLines ⟨[], []⟩ rest
  | _ => readLines ⟨[], []⟩ t

end Toml
end AndroidStrings
