import AndroidStrings.Check.Exemption
import AndroidStrings.Check.Issue
import AndroidStrings.Check.Difference
import AndroidStrings.Language.Qualifier
import AndroidStrings.Value.Placeholder

/-!
# Checking one translation

A translation is compared with the source file entry by entry, in source order.  The incremental
mode looks for gaps and for placeholders that do not agree.  The full mode also looks for values
that were copied, nearly copied or left over; a variant of English is expected to repeat the
source, so there the differences are reported.
-/

namespace AndroidStrings

inductive CheckMode where
  | incremental
  | full
  deriving DecidableEq, Repr

structure CheckOptions where
  mode : CheckMode
  /-- The greatest difference that counts as nearly copied; at zero nothing does. -/
  nearThreshold : Nat
  exemptions : Exemptions
  deriving DecidableEq, Repr

namespace CheckOptions

def standard : CheckOptions :=
  ⟨.incremental, 1, .standard⟩

def isFull (options : CheckOptions) : Bool :=
  options.mode == .full

end CheckOptions

namespace Check

/-- A copied, nearly copied or differing string. -/
def copyIssues (options : CheckOptions) (english : Bool) (id source translation : Text) :
    List Issue :=
  if options.exemptions.allowsCopy id source translation then []
  else if english then
    if source = translation then [] else [.differsFromSource id source translation]
  else if source = translation then [.untranslated id source]
  else
    let distance := Text.difference translation source
    if 0 < options.nearThreshold ∧ distance ≤ options.nearThreshold then
      [.nearMatch id distance source translation]
    else []

def placeholderIssues (id source translation : Text) : List Issue :=
  if Placeholder.agree source translation then []
  else [.placeholderMismatch id (Placeholder.extract source) (Placeholder.extract translation)]

def stringIssues (options : CheckOptions) (english : Bool) (id source : Text) :
    Option Text → List Issue
  | none =>
      if options.exemptions.coversEntry id source then [] else [.missing id .string]
  | some translation =>
      (if options.isFull then copyIssues options english id source translation else []) ++
        placeholderIssues id source translation

/-- Values of at most this many characters may be the same in both languages. -/
def shortForm : Nat :=
  3

def formCopyIssues (english : Bool) (id : Text) (quantity : Quantity)
    (source translation : Text) : List Issue :=
  if english then
    if source = translation then []
    else [.pluralDiffersFromSource id quantity source translation]
  else if source = translation ∧ shortForm < source.length then
    [.untranslatedQuantity id quantity translation]
  else []

def formPlaceholderIssues (id : Text) (quantity : Quantity) (source translation : Text) :
    List Issue :=
  if Placeholder.agree source translation then []
  else
    [.pluralPlaceholderMismatch id quantity (Placeholder.extract source)
      (Placeholder.extract translation)]

/-- A form is compared with the source form of its quantity; where the source has none, its
placeholders are compared with those of the form for `other`. -/
def formIssues (options : CheckOptions) (english : Bool) (id : Text) (source : Plural)
    (quantity : Quantity) (translation : Text) : List Issue :=
  let copies := match source.get? quantity with
    | some form =>
        if options.isFull then formCopyIssues english id quantity form translation else []
    | none => []
  let placeholders := match (source.get? quantity).or (source.get? .other) with
    | some form => formPlaceholderIssues id quantity form translation
    | none => []
  copies ++ placeholders

def pluralIssues (options : CheckOptions) (english : Bool) (id : Text) (source : Plural) :
    Option Plural → List Issue
  | none => [.missingPlural id]
  | some translation =>
      translation.forms.flatMap fun form =>
        formIssues options english id source form.1 form.2

def arrayIssues (options : CheckOptions) (id : Text) (present : Bool) : List Issue :=
  if present || options.exemptions.coversId id then [] else [.missing id .stringArray]

def entryIssues (options : CheckOptions) (english : Bool) (translation : ResourceFile)
    (entry : Entry) : List Issue :=
  match entry.value with
  | .singular source =>
      stringIssues options english entry.id source (translation.string? entry.id)
  | .plural source =>
      pluralIssues options english entry.id source (translation.plural? entry.id)
  | .array _ => arrayIssues options entry.id (translation.contains .stringArray entry.id)

def obsoleteIssues (source translation : ResourceFile) : List Issue :=
  (translation.entries.filter fun entry => !source.contains entry.kind entry.id).map
    fun entry => .obsolete entry.id entry.kind

/-- The issues of a translation: those of the translatable entries in source order, and in full
mode the entries that the source does not have. -/
def languageIssues (options : CheckOptions) (source translation : ResourceFile) : List Issue :=
  let english := Qualifier.isEnglish translation.language
  let found := (source.entries.filter Entry.translatable).flatMap
    (entryIssues options english translation)
  if options.isFull then found ++ obsoleteIssues source translation else found

end Check
end AndroidStrings
