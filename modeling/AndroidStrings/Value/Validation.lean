import AndroidStrings.Text.Search
import AndroidStrings.Text.CharClass

/-!
# Values that survive compilation of the resources

A value is checked as the user gave it, before any escaping.  The first problem found is the
answer: leftovers of shell quoting, entities that the resource compiler mishandles, unquoted
attributes, tags that do not nest, and references that are unknown or never end.
-/

namespace AndroidStrings

open CharClass

inductive ValueIssue where
  | backtickEscape
  | typoEntity
  | quotEntity
  | aposEntity
  | unquotedAttribute (assignment : Text)
  | unexpectedClosingTag (name : Text)
  | mismatchedTags (opened closed : Text)
  | unclosedTags (names : List Text)
  | invalidEntity (entities : List Text)
  | unterminatedEntity (entity : Text)
  deriving DecidableEq, Repr

namespace ValueIssue

def commaSeparated (parts : List Text) : String :=
  String.ofList (Text.joinWith ", ".toList parts)

def message : ValueIssue → String
  | backtickEscape =>
      "shell backtick escape detected (`\" or `'); pass the value without backticks"
  | typoEntity => "invalid entity '&pos;'; use \\' for apostrophes"
  | quotEntity => "entity '&quot;' is not supported here; use \\\" instead"
  | aposEntity => "entity '&apos;' is not supported here; use \\' instead"
  | unquotedAttribute assignment =>
      "attribute value not quoted: " ++ String.ofList assignment
  | unexpectedClosingTag name =>
      "closing tag </" ++ String.ofList name ++ "> without matching opening tag"
  | mismatchedTags opened closed =>
      "mismatched tags: <" ++ String.ofList opened ++ "> closed with </" ++
        String.ofList closed ++ ">"
  | unclosedTags names =>
      "unclosed tag(s): " ++ commaSeparated (names.map fun name => '<' :: name ++ ['>'])
  | invalidEntity entities =>
      "invalid entity reference(s): " ++ commaSeparated entities ++
        "; only &amp; &lt; &gt; and numeric entities are valid"
  | unterminatedEntity entity =>
      "unterminated entity reference '" ++ String.ofList entity ++
        "'; entities must end with ';'"

end ValueIssue

namespace Value

/-!
## Unquoted attributes

White space, a word, `=`, and then something other than a quote, up to the next white space or
`>`.
-/

def attributeAfterSpace (t : Text) : Option Text :=
  let word := t.takeWhile isWord
  match word, t.dropWhile isWord with
  | _ :: _, '=' :: c :: rest =>
      if isWhiteSpace c || c == '"' || c == '\'' || c == '>' then none
      else some (word ++ '=' :: c :: rest.takeWhile fun d => !isWhiteSpace d && d != '>')
  | _, _ => none

def unquotedAttribute? : Text → Option Text
  | [] => none
  | c :: t =>
      match if isWhiteSpace c then attributeAfterSpace (t.dropWhile isWhiteSpace) else none with
      | some assignment => some assignment
      | none => unquotedAttribute? t

/-!
## Tags

A tag is `<`, perhaps a slash, a name of word characters with at most one colon inside, and
everything up to the next `>`.  Tags that end in `/>` open nothing.
-/

inductive Tag where
  | opening (name : Text)
  | closing (name : Text)
  | empty (name : Text)
  deriving DecidableEq, Repr

/-- The name at the front of a text; empty when there is none. -/
def tagName (t : Text) : Text :=
  let first := t.takeWhile isWord
  match first, t.dropWhile isWord with
  | _ :: _, ':' :: rest =>
      match rest.takeWhile isWord with
      | [] => first
      | second => first ++ ':' :: second
  | _, _ => first

/-- The tag whose `<` stands right before the text. -/
def tagAfterBracket? (t : Text) : Option Tag :=
  let body := t.takeWhile (· != '>')
  if (t.dropWhile (· != '>')).isEmpty then none
  else
    let (isClosing, name) := match t with
      | '/' :: rest => (true, tagName rest)
      | _ => (false, tagName t)
    if name.isEmpty then none
    else if body.getLast? = some '/' then some (.empty name)
    else if isClosing then some (.closing name)
    else some (.opening name)

/-- The tags of a value from left to right; a tag takes all text up to its `>`. -/
def tags : Text → List Tag
  | [] => []
  | c :: t =>
      match if c = '<' then tagAfterBracket? t else none with
      | some tag => tag :: tags (t.dropWhile (· != '>'))
      | none => tags t
termination_by t => t.length
decreasing_by
  · have h := (List.dropWhile_sublist (l := t) (· != '>')).length_le
    simp only [List.length_cons]
    omega
  · simp

/-- Checks that tags nest, given the names that are open, innermost first. -/
def checkNesting (opened : List Text) : List Tag → Except ValueIssue Unit
  | [] => if opened.isEmpty then .ok () else .error (.unclosedTags opened.reverse)
  | .empty _ :: rest => checkNesting opened rest
  | .opening name :: rest => checkNesting (name :: opened) rest
  | .closing name :: rest =>
      match opened with
      | [] => .error (.unexpectedClosingTag name)
      | innermost :: outer =>
          if innermost = name then checkNesting outer rest
          else .error (.mismatchedTags innermost name)

def checkMarkup (value : Text) : Except ValueIssue Unit :=
  match unquotedAttribute? value with
  | some assignment => .error (.unquotedAttribute assignment)
  | none => checkNesting [] (tags value)

/-!
## Entity references
-/

def isAllowedEntity : Text → Bool
  | ['a', 'm', 'p'] => true
  | ['l', 't'] => true
  | ['g', 't'] => true
  | '#' :: 'x' :: digits => !digits.isEmpty && digits.all isHexDigit
  | '#' :: 'X' :: digits => !digits.isEmpty && digits.all isHexDigit
  | '#' :: digits => !digits.isEmpty && digits.all isAsciiDigit
  | _ => false

/-- The name between an ampersand right before the text and a semicolon, number sign included. -/
def entityName? (t : Text) : Option Text :=
  let (sign, rest) := match t with
    | '#' :: rest => (['#'], rest)
    | _ => ([], t)
  match rest.takeWhile isWord, rest.dropWhile isWord with
  | [], _ => none
  | word, ';' :: _ => some (sign ++ word)
  | _, _ => none

def entityNames : Text → List Text
  | [] => []
  | c :: t =>
      match if c = '&' then entityName? t else none with
      | some name => name :: entityNames t
      | none => entityNames t

/-- The references of a value that are not allowed, each once, in order of appearance. -/
def invalidEntities (value : Text) : List Text :=
  let names := (entityNames value).filter fun name => !isAllowedEntity name
  (names.foldl (fun seen name => if seen.contains name then seen else seen ++ [name]) []).map
    fun name => '&' :: name ++ [';']

def isEntityChar (c : Char) : Bool :=
  isAlphanumeric c || c == '_' || c == '#'

/-- The first ampersand with a word behind it that no semicolon ends. -/
def unterminatedEntity? : Text → Option Text
  | [] => none
  | c :: t =>
      let word := t.takeWhile isEntityChar
      if c = '&' ∧ word ≠ [] ∧ (t.dropWhile isEntityChar).head? ≠ some ';' then
        some ('&' :: word)
      else
        unterminatedEntity? t

def checkEntities (value : Text) : Except ValueIssue Unit :=
  match invalidEntities value with
  | [] =>
      match unterminatedEntity? value with
      | some entity => .error (.unterminatedEntity entity)
      | none => .ok ()
  | entities => .error (.invalidEntity entities)

/-!
## The whole check
-/

def hasBacktickEscape (value : Text) : Bool :=
  value.contains ['`', '"'] || value.contains ['"', '`'] ||
    value.contains ['`', '\''] || value.contains ['\'', '`']

def validate (value : Text) : Except ValueIssue Unit :=
  if hasBacktickEscape value then .error .backtickEscape
  else if value.contains "&pos;".toList then .error .typoEntity
  else if value.contains "&quot;".toList then .error .quotEntity
  else if value.contains "&apos;".toList then .error .aposEntity
  else if List.contains value '<' && List.contains value '>' then
    match checkMarkup value with
    | .error issue => .error issue
    | .ok () => checkEntities value
  else checkEntities value

end Value
end AndroidStrings
