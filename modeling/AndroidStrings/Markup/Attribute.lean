import AndroidStrings.Markup.Event

/-!
# Attributes of a tag

Attributes are read one after another behind the name of a tag.  Positions in faults count bytes
from the start of the name.
-/

namespace AndroidStrings
namespace Markup

structure Attribute where
  key : Text
  value : Text
  deriving DecidableEq, Repr

inductive AttributeError where
  | keyAlone (position : Nat)
  | missingValue (position : Nat)
  | unquotedValue (position : Nat)
  | unclosedValue (position : Nat) (quote : Char)
  deriving DecidableEq, Repr

namespace AttributeError

def located (position : Nat) (problem : String) : String :=
  "position " ++ toString position ++ ": " ++ problem

def message : AttributeError → String
  | keyAlone position =>
      located position "attribute key must be directly followed by `=` or space"
  | missingValue position => located position "`=` must be followed by an attribute value"
  | unquotedValue position =>
      located position "attribute value must be enclosed in `\"` or `'`"
  | unclosedValue position quote =>
      located position ("missing closing quote `" ++ String.singleton quote ++
        "` in attribute value")

end AttributeError

/-- The attributes up to the end or the first fault. -/
structure AttributeList where
  attributes : List Attribute
  failure : Option AttributeError
  deriving DecidableEq, Repr

/-- A key ends at white space or an equals sign, but not at its first character. -/
def isKeyChar (c : Char) : Bool :=
  c != '=' && !isSpace c

/-- Reads the quoted value at the front of a text, and what follows it; `total` is the size of
the whole tag. -/
def readValue (total : Nat) : Text → Except AttributeError (Text × Text)
  | [] => .error (.missingValue total)
  | q :: t =>
      if q = '"' ∨ q = '\'' then
        match t.dropWhile (· != q) with
        | [] => .error (.unclosedValue total q)
        | _ :: rest => .ok (t.takeWhile (· != q), rest)
      else .error (.unquotedValue (total - Text.size (q :: t)))

/-- Reads one attribute, whose key begins with the given character. -/
def readAttribute (total : Nat) (first : Char) (t : Text) :
    Except AttributeError (Attribute × Text) :=
  let key := first :: t.takeWhile isKeyChar
  match (t.dropWhile isKeyChar).dropWhile isSpace with
  | [] => .error (.keyAlone total)
  | c :: rest =>
      if c = '=' then
        match readValue total (rest.dropWhile isSpace) with
        | .error e => .error e
        | .ok (value, after) => .ok (⟨key, value⟩, after)
      else .error (.keyAlone (total - Text.size (c :: rest)))

theorem length_dropWhile_le (p : Char → Bool) (t : Text) :
    (t.dropWhile p).length ≤ t.length :=
  (List.dropWhile_sublist p).length_le

theorem length_le_of_readValue {total : Nat} {t value rest : Text}
    (h : readValue total t = .ok (value, rest)) : rest.length ≤ t.length := by
  cases t with
  | nil => simp [readValue] at h
  | cons q t =>
      simp only [readValue] at h
      split at h
      · split at h
        · simp at h
        · rename_i hdrop
          simp only [Except.ok.injEq, Prod.mk.injEq] at h
          have hle := length_dropWhile_le (· != q) t
          rw [hdrop, h.2] at hle
          simp only [List.length_cons] at hle ⊢
          omega
      · simp at h

theorem length_le_of_readAttribute {total : Nat} {first : Char} {t rest : Text}
    {found : Attribute} (h : readAttribute total first t = .ok (found, rest)) :
    rest.length ≤ t.length := by
  simp only [readAttribute] at h
  split at h
  · simp at h
  · rename_i c after hdrop
    split at h
    · split at h
      · simp at h
      · rename_i value remaining hvalue
        simp only [Except.ok.injEq, Prod.mk.injEq] at h
        have hkey := length_dropWhile_le isKeyChar t
        have hspace := length_dropWhile_le isSpace (t.dropWhile isKeyChar)
        have hafter := length_dropWhile_le isSpace after
        have hread := length_le_of_readValue hvalue
        rw [hdrop, List.length_cons] at hspace
        rw [← h.2]
        omega
    · simp at h

def attributesFrom (total : Nat) (t : Text) : AttributeList :=
  match _hspace : t.dropWhile isSpace with
  | [] => ⟨[], none⟩
  | first :: rest =>
      match _h : readAttribute total first rest with
      | .error e => ⟨[], some e⟩
      | .ok (found, after) =>
          let others := attributesFrom total after
          ⟨found :: others.attributes, others.failure⟩
termination_by t.length
decreasing_by
  have hle := length_dropWhile_le isSpace t
  have hread := length_le_of_readAttribute _h
  rw [_hspace, List.length_cons] at hle
  omega

/-- The attributes in the content of a tag. -/
def attributesOf (content : Text) : AttributeList :=
  attributesFrom content.size (content.dropWhile fun c => !isSpace c)

end Markup
end AndroidStrings
