import AndroidStrings.Error
import AndroidStrings.Language.Qualifier
import AndroidStrings.Resource.Quantity

/-!
# Arguments of commands

Languages, names of resources, and lists of pairs, as they are accepted on the command line.
-/

namespace AndroidStrings
namespace CommandLine

inductive ArgumentError where
  | emptyLanguage
  | invalidLanguage (language : Text)
  | invalidId (id : Text)
  | unpairedIds
  | unpairedQuantities
  | unknownQuantity (word : Text)
  deriving DecidableEq, Repr

namespace ArgumentError

def message : ArgumentError → String
  | emptyLanguage => "Language code cannot be empty"
  | invalidLanguage language =>
      "Invalid language code format: " ++ String.ofList language ++
        ". Expected a resource qualifier like fr, pt-rBR or b+sr+Latn"
  | invalidId id => "Invalid resource id: '" ++ String.ofList id ++ "'"
  | unpairedIds => "Expected <ID> <VALUE> pairs"
  | unpairedQuantities => "Expected <QUANTITY> <VALUE> pairs"
  | unknownQuantity word => unknownQuantityMessage word

end ArgumentError

/-- A language is the source file or a qualifier that stands for a language tag. -/
def validateLanguage (language : Text) : Except ArgumentError Unit :=
  if language.isEmpty then .error .emptyLanguage
  else if Qualifier.isSource language then .ok ()
  else if (Qualifier.languageTag? language).isSome then .ok ()
  else .error (.invalidLanguage language)

def isIdStart (c : Char) : Bool :=
  CharClass.isAsciiLetter c || c == '_'

def isIdChar (c : Char) : Bool :=
  CharClass.isAsciiAlphanumeric c || c == '_' || c == '.'

def isValidId : Text → Bool
  | [] => false
  | c :: t => isIdStart c && t.all isIdChar

theorem isIdChar_of_isIdStart {c : Char} (h : isIdStart c = true) : isIdChar c = true := by
  rw [isIdStart, Bool.or_eq_true] at h
  rw [isIdChar, CharClass.isAsciiAlphanumeric]
  rcases h with hletter | hline
  · simp only [hletter, Bool.true_or]
  · simp only [hline, Bool.or_true, Bool.true_or]

theorem forall_isIdChar_of_isValidId
    {id : Text}
    (h : isValidId id = true) :
    forall c : Char, c ∈ id -> isIdChar c = true := by
  cases id with
  | nil => cases h
  | cons c t =>
      rw [isValidId, Bool.and_eq_true, List.all_eq_true] at h
      rw [List.forall_mem_cons]
      exact ⟨isIdChar_of_isIdStart h.1, h.2⟩

def validateId (id : Text) : Except ArgumentError Unit :=
  if isValidId id then .ok () else .error (.invalidId id)

/-- Groups arguments in twos; `none` when one is left over. -/
def pairs? : List Text → Option (List (Text × Text))
  | [] => some []
  | [_] => none
  | first :: second :: rest => (pairs? rest).map ((first, second) :: ·)

def idPair (pair : Text × Text) : Except ArgumentError (Text × Text) :=
  (validateId pair.1).map fun () => pair

def parseIdPairs (arguments : List Text) : Except ArgumentError (List (Text × Text)) :=
  match pairs? arguments with
  | some (first :: rest) => (first :: rest).mapM idPair
  | _ => .error .unpairedIds

def quantityPair (pair : Text × Text) : Except ArgumentError (Quantity × Text) :=
  match Quantity.ofText? pair.1 with
  | some quantity => .ok (quantity, pair.2)
  | none => .error (.unknownQuantity pair.1)

def parseQuantityPairs (arguments : List Text) :
    Except ArgumentError (List (Quantity × Text)) :=
  match pairs? arguments with
  | some (first :: rest) => (first :: rest).mapM quantityPair
  | _ => .error .unpairedQuantities

end CommandLine
end AndroidStrings
