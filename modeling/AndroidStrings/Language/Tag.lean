import AndroidStrings.Text.Search
import AndroidStrings.Text.CharClass

/-!
# Language tags

A tag is a language, then at most one script, at most one region and any number of variants, in
this order, with hyphens between.  Letters are put into the usual case of each subtag; variants
are written in order and once.
-/

namespace AndroidStrings

open CharClass

structure LanguageTag where
  language : Text
  script : Option Text
  region : Option Text
  variants : List Text
  deriving DecidableEq, Repr

namespace LanguageTag

def lowerLetter (c : Char) : Char :=
  if 'A' ≤ c ∧ c ≤ 'Z' then Char.ofNat (c.toNat + 32) else c

def upperLetter (c : Char) : Char :=
  if 'a' ≤ c ∧ c ≤ 'z' then Char.ofNat (c.toNat - 32) else c

def language? (subtag : Text) : Option Text :=
  let length := subtag.length
  if 2 ≤ length ∧ length ≤ 8 ∧ length ≠ 4 ∧ subtag.all isAsciiLetter then
    some (subtag.map lowerLetter)
  else none

def script? (subtag : Text) : Option Text :=
  if subtag.length = 4 ∧ subtag.all isAsciiLetter then
    match subtag with
    | [] => none
    | c :: t => some (upperLetter c :: t.map lowerLetter)
  else none

def region? (subtag : Text) : Option Text :=
  if subtag.length = 2 ∧ subtag.all isAsciiLetter then some (subtag.map upperLetter)
  else if subtag.length = 3 ∧ subtag.all isAsciiDigit then some subtag
  else none

def variant? (subtag : Text) : Option Text :=
  if 4 ≤ subtag.length ∧ subtag.length ≤ 8 ∧ subtag.all isAsciiAlphanumeric then
    some (subtag.map lowerLetter)
  else none

/-- Takes the first subtag when it is of the wanted sort. -/
def takeFirst? (read : Text → Option Text) : List Text → Option Text × List Text
  | [] => (none, [])
  | subtag :: rest =>
      match read subtag with
      | some found => (some found, rest)
      | none => (none, subtag :: rest)

/-- Inserts a variant into an increasing list, unless it is there. -/
def insertVariant (variant : Text) : List Text → List Text
  | [] => [variant]
  | first :: rest =>
      if variant = first then first :: rest
      else if variant < first then variant :: first :: rest
      else first :: insertVariant variant rest

def parse? (tag : Text) : Option LanguageTag :=
  match Text.splitOn '-' tag with
  | [] => none
  | first :: rest =>
      match language? first with
      | none => none
      | some language =>
          let (script, afterScript) := takeFirst? script? rest
          let (region, afterRegion) := takeFirst? region? afterScript
          (afterRegion.mapM variant?).map fun variants =>
            ⟨language, script, region, variants.foldr insertVariant []⟩

def render (tag : LanguageTag) : Text :=
  Text.joinWith ['-'] (tag.language :: tag.script.toList ++ tag.region.toList ++ tag.variants)

end LanguageTag
end AndroidStrings
