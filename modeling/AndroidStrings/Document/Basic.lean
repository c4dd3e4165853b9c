import AndroidStrings.Resource.Entry
import AndroidStrings.Error

/-!
# Documents

A document is the text of a resource file with the places of its parts: the declaration, the tags
of the root element, the entries, the comments and the elements of other types.  Everything but
the text is read off the text.
-/

namespace AndroidStrings

inductive LineEnding where
  | lf
  | crlf
  deriving DecidableEq, Repr

namespace LineEnding

/-- The line ending that a text is continued with. -/
def detect (t : Text) : LineEnding :=
  if t.contains ['\r', '\n'] then .crlf else .lf

def text : LineEnding → Text
  | lf => ['\n']
  | crlf => ['\r', '\n']

end LineEnding

/-- An item of a plurals or array element; items of arrays have no quantity. -/
structure ItemNode where
  quantity : Option Quantity
  outer : Span
  inner : Span
  deriving DecidableEq, Repr

/-- An entry with its place: `outer` from `<` to the final `>`, `inner` between the tags.  A
self-closing element has an empty `inner` at its end. -/
structure Node where
  entry : Entry
  outer : Span
  inner : Span
  selfClosing : Bool
  items : List ItemNode
  deriving DecidableEq, Repr

namespace Node

def kind (node : Node) : EntryKind :=
  node.entry.kind

def id (node : Node) : Text :=
  node.entry.id

def item? (node : Node) (quantity : Quantity) : Option ItemNode :=
  node.items.find? fun item => item.quantity == some quantity

end Node

/-- The places of the parts of a document, in file order. -/
structure Layout where
  declaration : Option Span := none
  rootOpen : Option Span := none
  rootClose : Option Span := none
  nodes : List Node := []
  comments : List Span := []
  others : List Span := []
  deriving DecidableEq, Repr

structure Document where
  text : Text
  layout : Layout
  deriving DecidableEq, Repr

namespace Document

/-- The indentation of an element inside the root element. -/
def entryIndent : Text :=
  "    ".toList

/-- The indentation of an item. -/
def itemIndent : Text :=
  "        ".toList

def nodes (document : Document) : List Node :=
  document.layout.nodes

def lineEnding (document : Document) : LineEnding :=
  LineEnding.detect document.text

def slice (document : Document) (span : Span) : Text :=
  document.text.slice span

def find? (document : Document) (kind : EntryKind) (id : Text) : Option Node :=
  document.nodes.find? fun node => node.kind == kind && node.id == id

def contains (document : Document) (kind : EntryKind) (id : Text) : Bool :=
  (document.find? kind id).isSome

def entries (document : Document) : List Entry :=
  document.nodes.map Node.entry

def resource (document : Document) (language : Text) : ResourceFile :=
  ⟨language, document.entries⟩

/-- The keys of the entries in file order. -/
def order (document : Document) : List EntryKind.Key :=
  document.entries.map Entry.key

def declaration? (document : Document) : Option Text :=
  document.layout.declaration.map document.slice

def rootOpenTag? (document : Document) : Option Text :=
  document.layout.rootOpen.map document.slice

/-- The place between the declaration and the root element.  It stops before it starts when a
declaration follows the opening tag; such a document cannot be sorted. -/
def prologSpan (document : Document) : Span :=
  let start := match document.layout.declaration with
    | some span => span.stop
    | none => 0
  let stop := match document.layout.rootOpen with
    | some span => span.start
    | none => start
  ⟨start, stop⟩

/-- What stands between the declaration and the root element, trimmed. -/
def prolog (document : Document) : Text :=
  (document.slice document.prologSpan).trim CharClass.isWhiteSpace

/-- The place of `</resources>`. -/
def rootCloseStart (document : Document) : Except Error Nat :=
  match document.layout.rootClose with
  | some span => .ok span.start
  | none => .error (.misshapen .noRootEnd)

end Document
end AndroidStrings
