import AndroidStrings.Text.Search
import AndroidStrings.Text.CharClass

/-!
# References to strings

Code refers to a string as `R.string.name`, resources as `@string/name`, and preferences as
`"pref_key_name"`.
-/

namespace AndroidStrings

/-- A reference: the text it takes up, and the name of the string. -/
structure StringReference where
  token : Text
  id : Text
  deriving DecidableEq, Repr

namespace StringReference

def codeMark : Text :=
  "R.string.".toList

def resourceMark : Text :=
  "@string/".toList

def preferenceMark : Text :=
  "\"pref_key_".toList

/-- A mark and a name of word characters behind it. -/
def marked? (mark t : Text) : Option StringReference :=
  match Text.stripPrefix? mark t with
  | none => none
  | some rest =>
      match rest.takeWhile CharClass.isWord with
      | [] => none
      | id => some ⟨mark ++ id, id⟩

/-- A preference key ends with its quote. -/
def preference? (t : Text) : Option StringReference :=
  match marked? preferenceMark t with
  | none => none
  | some reference =>
      if (t.drop reference.token.length).head? = some '"' then
        some ⟨reference.token ++ ['"'], reference.id⟩
      else none

/-- The reference at the front of a text. -/
def at? (t : Text) : Option StringReference :=
  match marked? codeMark t with
  | some reference => some reference
  | none =>
      match marked? resourceMark t with
      | some reference => some reference
      | none => preference? t

/-- The names referred to, from left to right; references do not overlap. -/
def scan : Text → List Text
  | [] => []
  | c :: t =>
      match at? (c :: t) with
      | some reference => reference.id :: scan (t.drop (reference.token.length - 1))
      | none => scan t
termination_by t => t.length
decreasing_by
  · simp only [List.length_drop, List.length_cons]
    omega
  · simp

end StringReference
end AndroidStrings
