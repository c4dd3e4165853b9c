import AndroidStrings.Resource.Entry
import AndroidStrings.Text.Quoted

/-!
# Issues of a translation

What a check finds, how grave it is, and how it is worded.
-/

namespace AndroidStrings

inductive Severity where
  | critical
  | warning
  | info
  deriving DecidableEq, Repr

inductive Issue where
  | missing (id : Text) (kind : EntryKind)
  | untranslated (id value : Text)
  | nearMatch (id : Text) (distance : Nat) (source translation : Text)
  | placeholderMismatch (id : Text) (source translation : List Text)
  | missingPlural (id : Text)
  | untranslatedQuantity (id : Text) (quantity : Quantity) (value : Text)
  | pluralPlaceholderMismatch (id : Text) (quantity : Quantity) (source translation : List Text)
  | differsFromSource (id source translation : Text)
  | pluralDiffersFromSource (id : Text) (quantity : Quantity) (source translation : Text)
  | obsolete (id : Text) (kind : EntryKind)
  deriving DecidableEq, Repr

namespace Issue

def id : Issue → Text
  | missing id _ => id
  | untranslated id _ => id
  | nearMatch id _ _ _ => id
  | placeholderMismatch id _ _ => id
  | missingPlural id => id
  | untranslatedQuantity id _ _ => id
  | pluralPlaceholderMismatch id _ _ _ => id
  | differsFromSource id _ _ => id
  | pluralDiffersFromSource id _ _ _ => id
  | obsolete id _ => id

/-- A wrong number of placeholders crashes the app. -/
def severity : Issue → Severity
  | placeholderMismatch _ _ _ => .critical
  | pluralPlaceholderMismatch _ _ _ _ => .critical
  | differsFromSource _ _ _ => .info
  | pluralDiffersFromSource _ _ _ _ => .info
  | obsolete _ _ => .info
  | _ => .warning

def isCritical (issue : Issue) : Bool :=
  issue.severity == .critical

/-!
## Wording
-/

def shown (t : Text) : String :=
  String.ofList t

def quoted (t : Text) : String :=
  "'" ++ shown t ++ "'"

def quantityName (quantity : Quantity) : String :=
  shown quantity.name

def sideBySide (source translation : Text) : String :=
  "\n    EN: " ++ quoted source ++ "\n    TR: " ++ quoted translation

def tokensSideBySide (source translation : List Text) : String :=
  "\n    English: " ++ shown (Quoted.ofList source) ++
    "\n    Translation: " ++ shown (Quoted.ofList translation)

def message : Issue → String
  | missing id kind => "Missing " ++ shown kind.tag ++ ": " ++ shown id
  | untranslated id value => "Untranslated: " ++ shown id ++ " = " ++ quoted value
  | nearMatch id distance source translation =>
      "Near match (" ++ toString distance ++ " chars): " ++ shown id ++
        sideBySide source translation
  | placeholderMismatch id source translation =>
      "[CRITICAL] Placeholder mismatch: " ++ shown id ++ tokensSideBySide source translation
  | missingPlural id => "Missing plurals: " ++ shown id
  | untranslatedQuantity id quantity value =>
      "Plurals " ++ quoted id ++ " untranslated: " ++ quantityName quantity ++ ": " ++
        quoted value
  | pluralPlaceholderMismatch id quantity source translation =>
      "[CRITICAL] Plural placeholder mismatch: " ++ shown id ++ " (" ++ quantityName quantity ++
        ")" ++ tokensSideBySide source translation
  | differsFromSource id source translation =>
      "Differs from source: " ++ shown id ++ sideBySide source translation
  | pluralDiffersFromSource id quantity source translation =>
      "Plurals " ++ quoted id ++ " differ from source: " ++ quantityName quantity ++ ": " ++
        quoted source ++ " vs " ++ quoted translation
  | obsolete id kind => "Obsolete " ++ shown kind.tag ++ ": " ++ shown id

end Issue
end AndroidStrings
