import AndroidStrings.Text.Search
import AndroidStrings.Text.CharClass

/-!
# Placeholders

A placeholder is what the app substitutes when it runs: a specifier such as `%s` or `%1$d`, a
brace token such as `{count}`, or a whole `<xliff:g>` span.  A doubled percent sign stands for a
percent sign and is taken out first.
-/

namespace AndroidStrings
namespace Placeholder

open CharClass

/-- A percent specifier: digits, perhaps a dollar sign, and one of `s`, `d`, `i`, `f`. -/
def specifierAt? : Text → Option Text
  | '%' :: t =>
      let digits := t.takeWhile isDecimalDigit
      let (dollar, rest) := match t.dropWhile isDecimalDigit with
        | '$' :: rest => (['$'], rest)
        | rest => ([], rest)
      match rest with
      | c :: _ =>
          if c == 's' || c == 'd' || c == 'i' || c == 'f' then
            some ('%' :: digits ++ dollar ++ [c])
          else none
      | [] => none
  | _ => none

def braceTokenAt? : Text → Option Text
  | '{' :: t =>
      match t.takeWhile (· != '}'), t.dropWhile (· != '}') with
      | [], _ => none
      | _, [] => none
      | name, _ => some ('{' :: name ++ ['}'])
  | _ => none

def spanOpening : Text :=
  "<xliff:g".toList

def spanClosing : Text :=
  "</xliff:g>".toList

def spanAt? (t : Text) : Option Text :=
  match Text.stripPrefix? spanOpening t with
  | none => none
  | some rest =>
      match rest.dropWhile (· != '>') with
      | '>' :: content =>
          (Text.cutAt? spanClosing content).map fun parts =>
            spanOpening ++ rest.takeWhile (· != '>') ++ '>' :: parts.1 ++ spanClosing
      | _ => none

/-- The placeholder that begins at the front of a text. -/
def at? (t : Text) : Option Text :=
  match specifierAt? t with
  | some token => some token
  | none =>
      match braceTokenAt? t with
      | some token => some token
      | none => spanAt? t

/-- The placeholders from left to right; they do not overlap. -/
def scan : Text → List Text
  | [] => []
  | c :: t =>
      match at? (c :: t) with
      | some token => token :: scan (t.drop (token.length - 1))
      | none => scan t
termination_by t => t.length
decreasing_by
  · simp only [List.length_drop, List.length_cons]
    omega
  · simp

def extract (value : Text) : List Text :=
  scan (Text.replaceAll ['%', '%'] [] value)

def count (value : Text) : Nat :=
  (extract value).length

/-- Two values carry the same number of placeholders. -/
def agree (source translation : Text) : Bool :=
  count source == count translation

end Placeholder
end AndroidStrings
