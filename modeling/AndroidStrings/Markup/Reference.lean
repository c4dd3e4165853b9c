import AndroidStrings.Text.Search
import AndroidStrings.Markup.Error

/-!
# References in attribute values

An ampersand and the next semicolon enclose the name of one of five characters, or the number of
a character behind `#`.
-/

namespace AndroidStrings
namespace Markup

def digitValue? (radix : Nat) (c : Char) : Option Nat :=
  let value :=
    if '0' ≤ c ∧ c ≤ '9' then some (c.toNat - '0'.toNat)
    else if 'a' ≤ c ∧ c ≤ 'f' then some (c.toNat - 'a'.toNat + 10)
    else if 'A' ≤ c ∧ c ≤ 'F' then some (c.toNat - 'A'.toNat + 10)
    else none
  value.filter (· < radix)

/-- Reads digits behind those that make up `number`; a number fits in 32 bits. -/
def readDigits (radix number : Nat) : Text → Except ReferenceError Nat
  | [] => .ok number
  | c :: t =>
      match digitValue? radix c with
      | none => .error .notADigit
      | some digit =>
          let extended := number * radix + digit
          if extended < 2 ^ 32 then readDigits radix extended t else .error .tooLarge

def readNumber (radix : Nat) : Text → Except ReferenceError Nat
  | [] => .error .noDigits
  | '+' :: _ => .error .signInNumber
  | '-' :: _ => .error .signInNumber
  | digits => readDigits radix 0 digits

/-- The character with this number. -/
def characterOf (number : Nat) : Except ReferenceError Char :=
  if number = 0 then .error .zero
  else if number.isValidChar then .ok (Char.ofNat number)
  else .error (.notACodePoint number)

def numberedCharacter (digits : Text) : Except ReferenceError Char :=
  match digits with
  | 'x' :: hex => (readNumber 16 hex).bind characterOf
  | _ => (readNumber 10 digits).bind characterOf

def namedCharacter? (name : Text) : Option Char :=
  if name = ['l', 't'] then some '<'
  else if name = ['g', 't'] then some '>'
  else if name = ['a', 'm', 'p'] then some '&'
  else if name = ['a', 'p', 'o', 's'] then some '\''
  else if name = ['q', 'u', 'o', 't'] then some '"'
  else none

/-- The character that a reference stands for, whose name begins at a position. -/
def referenced (position : Nat) (name : Text) : Except ReferenceError Char :=
  match name with
  | '#' :: digits => numberedCharacter digits
  | _ =>
      match namedCharacter? name with
      | some c => .ok c
      | none => .error (.unknown name position (position + name.size))

def unescapeFrom (position total : Nat) : Text → Except ReferenceError Text
  | [] => .ok []
  | c :: t =>
      if c = '&' then
        let name : Text := t.takeWhile fun d => d != '&' && d != ';'
        match _hrest : t.dropWhile fun d => d != '&' && d != ';' with
        | ';' :: rest =>
            match referenced (position + 1) name with
            | .error e => .error e
            | .ok d => (unescapeFrom (position + name.size + 2) total rest).map (d :: ·)
        | _ => .error (.unterminated position total)
      else
        (unescapeFrom (position + c.utf8Size) total t).map (c :: ·)
termination_by t => t.length
decreasing_by
  · have h := (List.dropWhile_sublist (l := t) fun d => d != '&' && d != ';').length_le
    rw [_hrest, List.length_cons] at h
    rw [List.length_cons]
    omega
  · simp

/-- A value with its references replaced by the characters they stand for. -/
def unescape (value : Text) : Except ReferenceError Text :=
  unescapeFrom 0 value.size value

end Markup
end AndroidStrings
