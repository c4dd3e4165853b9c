import AndroidStrings.Text.Quoted

/-!
# JSON texts

Reports for other programs are JSON values.  Every item and every field stands on a line of its
own, indented by two spaces for each level, and fields keep the order that they are given in.
-/

namespace AndroidStrings

inductive Json where
  | number (value : Nat)
  | text (content : Text)
  | array (items : List Json)
  | object (fields : List (String × Json))

namespace Json

/-- Quotes, backslashes and control characters are written with a backslash. -/
def ofChar (c : Char) : Text :=
  if c == '"' then ['\\', '"']
  else if c == '\\' then ['\\', '\\']
  else if c == '\n' then ['\\', 'n']
  else if c == '\r' then ['\\', 'r']
  else if c == '\t' then ['\\', 't']
  else if c == '\x08' then ['\\', 'b']
  else if c == '\x0c' then ['\\', 'f']
  else if c.toNat < 0x20 then
    ['\\', 'u', '0', '0', Quoted.hexDigit (c.toNat / 16), Quoted.hexDigit (c.toNat % 16)]
  else [c]

def ofText (t : Text) : Text :=
  '"' :: t.flatMap ofChar ++ ['"']

def newLine (depth : Nat) : Text :=
  '\n' :: List.replicate (2 * depth) ' '

/-- Parts between brackets, each on its own line one level deeper. -/
def block (opening closing : Char) (depth : Nat) : List Text → Text
  | [] => [opening, closing]
  | parts =>
      let separator := ',' :: newLine (depth + 1)
      opening :: newLine (depth + 1) ++ Text.joinWith separator parts ++ newLine depth ++ [closing]

mutual

/-- A value that stands at a depth. -/
def renderAt (depth : Nat) : Json → Text
  | .number value => (toString value).toList
  | .text content => ofText content
  | .array items => block '[' ']' depth (renderItems (depth + 1) items)
  | .object fields => block '{' '}' depth (renderFields (depth + 1) fields)

def renderItems (depth : Nat) : List Json → List Text
  | [] => []
  | item :: rest => renderAt depth item :: renderItems depth rest

def renderFields (depth : Nat) : List (String × Json) → List Text
  | [] => []
  | (key, value) :: rest =>
      (ofText key.toList ++ [':', ' '] ++ renderAt depth value) :: renderFields depth rest

end

def render (value : Json) : Text :=
  renderAt 0 value

end Json
end AndroidStrings
