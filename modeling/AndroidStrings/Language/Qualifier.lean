import AndroidStrings.Language.Tag

/-!
# Resource qualifiers

The directory `values-fr` holds the resources for the qualifier `fr`.  A qualifier names a
language when it is two or three small letters, perhaps with `-r` and two capital letters, or
`b+` with letters, digits and plus signs.  The source file goes by the names `source` and
`values`.
-/

namespace AndroidStrings
namespace Qualifier

open CharClass

def isSmallLetter (c : Char) : Bool :=
  'a' ≤ c && c ≤ 'z'

def isCapitalLetter (c : Char) : Bool :=
  'A' ≤ c && c ≤ 'Z'

def sourceLanguage : Text :=
  "source".toList

def isSource (language : Text) : Bool :=
  language == sourceLanguage || language == "values".toList

/-- The short form: a language and perhaps a region. -/
def isShortForm (qualifier : Text) : Bool :=
  let language := qualifier.takeWhile isSmallLetter
  let region := qualifier.dropWhile isSmallLetter
  (language.length == 2 || language.length == 3) &&
    match region with
    | [] => true
    | ['-', 'r', c, d] => isCapitalLetter c && isCapitalLetter d
    | _ => false

def isLongForm : Text → Bool
  | 'b' :: '+' :: rest =>
      !rest.isEmpty && rest.all fun c => isAsciiAlphanumeric c || c == '+'
  | _ => false

def isLanguage (qualifier : Text) : Bool :=
  isShortForm qualifier || isLongForm qualifier

/-- The language tag that a qualifier stands for. -/
def languageTag? (qualifier : Text) : Option LanguageTag :=
  if isLanguage qualifier then
    match qualifier with
    | 'b' :: '+' :: rest => LanguageTag.parse? (Text.replaceAll ['+'] ['-'] rest)
    | _ => LanguageTag.parse? (Text.replaceAll ['-', 'r'] ['-'] qualifier)
  else none

/-- English and its regional variants. -/
def isEnglish (qualifier : Text) : Bool :=
  match languageTag? qualifier with
  | some tag => tag.language == ['e', 'n']
  | none => false

end Qualifier
end AndroidStrings
