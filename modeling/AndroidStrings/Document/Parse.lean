import AndroidStrings.Document.Basic
import AndroidStrings.Markup.Scan
import AndroidStrings.Markup.Reference

/-!
# Reading a document

A document is read in one pass over the events of its text.  The reader knows the place it is in:
outside the root element, directly inside it, inside an entry, or inside an element of another
type.  A fault of an event comes before any fault of the markup behind it.
-/

namespace AndroidStrings

open Markup

/-!
## Attributes of entries and items
-/

structure EntryAttributes where
  name : Option Text := none
  translatable : Bool := true
  quantity : Option Text := none
  deriving DecidableEq, Repr

namespace EntryAttributes

def unescaped (value : Text) : Except Error Text :=
  match Markup.unescape value with
  | .ok t => .ok t
  | .error fault => .error (.malformed (.reference fault))

/-- Takes in one more attribute; of several with one key the last counts. -/
def add (known : EntryAttributes) (found : Attribute) : Except Error EntryAttributes :=
  if found.key = "name".toList then
    (unescaped found.value).map fun value => { known with name := some value }
  else if found.key = "translatable".toList then
    (unescaped found.value).map fun value =>
      { known with translatable := value != "false".toList }
  else if found.key = "quantity".toList then
    (unescaped found.value).map fun value => { known with quantity := some value }
  else .ok known

def ofTag (content : Text) : Except Error EntryAttributes :=
  let found := attributesOf content
  match found.attributes.foldlM add {} with
  | .error e => .error e
  | .ok known =>
      match found.failure with
      | some fault => .error (.invalidEntry (.badAttribute fault))
      | none => .ok known

end EntryAttributes

/-- What the tag of an entry says. -/
structure Heading where
  kind : EntryKind
  id : Text
  translatable : Bool
  deriving DecidableEq, Repr

def Heading.ofTag (kind : EntryKind) (content : Text) : Except Error Heading :=
  match EntryAttributes.ofTag content with
  | .error e => .error e
  | .ok known =>
      match known.name with
      | some id => .ok ⟨kind, id, known.translatable⟩
      | none => .error (.invalidEntry (.missingName kind))

/-- The quantity of an item; the items of an array have none, and their tags are not read. -/
def itemQuantity (heading : Heading) (content : Text) : Except Error (Option Quantity) :=
  match heading.kind with
  | .plurals =>
      match EntryAttributes.ofTag content with
      | .error e => .error e
      | .ok known =>
          match known.quantity with
          | none => .error (.invalidEntry (.missingQuantity heading.id))
          | some word =>
              match Quantity.ofText? word with
              | some quantity => .ok (some quantity)
              | none => .error (.invalidEntry (.unknownQuantity heading.id word))
  | _ => .ok none

/-!
## The reader
-/

/-- An entry whose end tag has not come yet. -/
structure OpenEntry where
  heading : Heading
  outerStart : Nat
  innerStart : Nat
  deriving DecidableEq, Repr

structure OpenItem where
  quantity : Option Quantity
  outerStart : Nat
  innerStart : Nat
  deriving DecidableEq, Repr

/-- Where the reader is.  Inside a body, `depth` counts the elements open in it. -/
inductive Place where
  | outside
  | root
  | other (name : Text) (start depth : Nat)
  | string (entry : OpenEntry) (depth : Nat)
  | items (entry : OpenEntry) (found : List ItemNode)
  | item (entry : OpenEntry) (found : List ItemNode) (current : OpenItem) (depth : Nat)
  | foreign (entry : OpenEntry) (found : List ItemNode) (name : Text) (depth : Nat)
  deriving DecidableEq, Repr

structure Reader where
  place : Place := .outside
  layout : Layout := {}
  deriving DecidableEq, Repr

namespace Reader

def rootName : Text :=
  "resources".toList

def itemName : Text :=
  "item".toList

def addNode (reader : Reader) (node : Node) : Reader :=
  ⟨.root, { reader.layout with nodes := reader.layout.nodes ++ [node] }⟩

def addOther (reader : Reader) (span : Span) : Reader :=
  ⟨.root, { reader.layout with others := reader.layout.others ++ [span] }⟩

def addComment (reader : Reader) (span : Span) : Reader :=
  { reader with layout := { reader.layout with comments := reader.layout.comments ++ [span] } }

def moveTo (reader : Reader) (place : Place) : Reader :=
  { reader with place := place }

/-- The value of an element with items, taken from the text between their tags. -/
def itemsValue (text : Text) (kind : EntryKind) (items : List ItemNode) : EntryValue :=
  match kind with
  | .plurals =>
      .plural (.ofList (items.filterMap fun item =>
        item.quantity.map fun quantity => (quantity, text.slice item.inner)))
  | _ => .array (items.map fun item => text.slice item.inner)

def emptyValue : EntryKind → EntryValue
  | .string => .singular []
  | .plurals => .plural .empty
  | .stringArray => .array []

def Node.ofString (text : Text) (entry : OpenEntry) (closing : Span) : Node :=
  let inner : Span := ⟨entry.innerStart, closing.start⟩
  { entry := ⟨entry.heading.id, .singular (text.slice inner), entry.heading.translatable⟩
    outer := ⟨entry.outerStart, closing.stop⟩
    inner := inner
    selfClosing := false
    items := [] }

def Node.ofItems (text : Text) (entry : OpenEntry) (items : List ItemNode) (closing : Span) :
    Node :=
  let value := itemsValue text entry.heading.kind items
  { entry := ⟨entry.heading.id, value, entry.heading.translatable⟩
    outer := ⟨entry.outerStart, closing.stop⟩
    inner := ⟨entry.innerStart, closing.start⟩
    selfClosing := false
    items := items }

def Node.ofEmptyTag (heading : Heading) (span : Span) : Node :=
  { entry := ⟨heading.id, emptyValue heading.kind, heading.translatable⟩
    outer := span
    inner := ⟨span.stop, span.stop⟩
    selfClosing := true
    items := [] }

/-- An event before, after or between root elements. -/
def stepOutside (reader : Reader) (event : Event) (span : Span) : Except Error Reader :=
  match event with
  | .declaration _ =>
      .ok { reader with layout := { reader.layout with declaration := some span } }
  | .startTag content =>
      if tagName content = rootName then
        .ok ⟨.root, { reader.layout with rootOpen := some span }⟩
      else .error (.misshapen (.unexpectedRoot (tagName content)))
  | .emptyTag content =>
      if tagName content = rootName then
        .ok { reader with layout := { reader.layout with rootOpen := some span } }
      else .ok reader
  | _ => .ok reader

/-- An event directly inside the root element. -/
def stepRoot (reader : Reader) (event : Event) (span : Span) : Except Error Reader :=
  match event with
  | .declaration _ =>
      .ok { reader with layout := { reader.layout with declaration := some span } }
  | .startTag content =>
      match EntryKind.ofTag? (tagName content) with
      | none => .ok (reader.moveTo (.other (tagName content) span.start 0))
      | some kind =>
          match Heading.ofTag kind content with
          | .error e => .error e
          | .ok heading =>
              let entry : OpenEntry := ⟨heading, span.start, span.stop⟩
              match kind with
              | .string => .ok (reader.moveTo (.string entry 0))
              | _ => .ok (reader.moveTo (.items entry []))
  | .emptyTag content =>
      match EntryKind.ofTag? (tagName content) with
      | none => .ok (reader.addOther span)
      | some kind =>
          match Heading.ofTag kind content with
          | .error e => .error e
          | .ok heading => .ok (reader.addNode (Node.ofEmptyTag heading span))
  | .comment _ => .ok (reader.addComment span)
  | .endTag _ => .ok ⟨.outside, { reader.layout with rootClose := some span }⟩
  | _ => .ok reader

/-- An event between the items of an element. -/
def stepItems (text : Text) (reader : Reader) (entry : OpenEntry) (found : List ItemNode)
    (event : Event) (span : Span) : Except Error Reader :=
  match event with
  | .startTag content =>
      if tagName content = itemName then
        match itemQuantity entry.heading content with
        | .error e => .error e
        | .ok quantity =>
            .ok (reader.moveTo (.item entry found ⟨quantity, span.start, span.stop⟩ 0))
      else .ok (reader.moveTo (.foreign entry found (tagName content) 0))
  | .emptyTag content =>
      if tagName content = itemName then
        match itemQuantity entry.heading content with
        | .error e => .error e
        | .ok quantity =>
            let item : ItemNode := ⟨quantity, span, ⟨span.stop, span.stop⟩⟩
            .ok (reader.moveTo (.items entry (found ++ [item])))
      else .ok reader
  | .endTag _ => .ok (reader.addNode (Node.ofItems text entry found span))
  | _ => .ok reader

def closeItem (current : OpenItem) (closing : Span) : ItemNode :=
  { quantity := current.quantity
    outer := ⟨current.outerStart, closing.stop⟩
    inner := ⟨current.innerStart, closing.start⟩ }

/-- One event inside a body: either the body goes on, at a new depth, or its end tag has come. -/
def bodyDepth? (depth : Nat) : Event → Option Nat
  | .startTag _ => some (depth + 1)
  | .endTag _ =>
      match depth with
      | 0 => none
      | outer + 1 => some outer
  | _ => some depth

def step (text : Text) (reader : Reader) (located : Located) : Except Error Reader :=
  let event := located.event
  let span := located.span
  match reader.place with
  | .outside => stepOutside reader event span
  | .root => stepRoot reader event span
  | .other name start depth =>
      match bodyDepth? depth event with
      | some deeper => .ok (reader.moveTo (.other name start deeper))
      | none => .ok (reader.addOther ⟨start, span.stop⟩)
  | .string entry depth =>
      match bodyDepth? depth event with
      | some deeper => .ok (reader.moveTo (.string entry deeper))
      | none => .ok (reader.addNode (Node.ofString text entry span))
  | .items entry found => stepItems text reader entry found event span
  | .item entry found current depth =>
      match bodyDepth? depth event with
      | some deeper => .ok (reader.moveTo (.item entry found current deeper))
      | none => .ok (reader.moveTo (.items entry (found ++ [closeItem current span])))
  | .foreign entry found name depth =>
      match bodyDepth? depth event with
      | some deeper => .ok (reader.moveTo (.foreign entry found name deeper))
      | none => .ok (reader.moveTo (.items entry found))

/-- The end of the text: nothing but the root element may be left open. -/
def finish (reader : Reader) : Except Error Layout :=
  match reader.place with
  | .outside => .ok reader.layout
  | .root => .ok reader.layout
  | .other name _ _ => .error (.malformed (.missingEndTag name))
  | .string entry _ => .error (.misshapen (.unterminatedString entry.heading.id))
  | .items entry _ =>
      .error (.misshapen (.unterminatedElement entry.heading.kind entry.heading.id))
  | .item entry _ _ _ => .error (.misshapen (.unterminatedItem entry.heading.id))
  | .foreign _ _ name _ => .error (.malformed (.missingEndTag name))

end Reader

namespace Document

/-- Reads the events of a scan of a text. -/
def layoutOf (text : Text) (scan : Scan) : Except Error Layout :=
  match scan.events.foldlM (Reader.step text) {} with
  | .error e => .error e
  | .ok reader =>
      match scan.failure with
      | some fault => .error (.malformed fault)
      | none => reader.finish

def parse (text : Text) : Except Error Document :=
  (layoutOf text (Markup.scan text)).map fun layout => ⟨text, layout⟩

theorem text_of_parse {text : Text} {document : Document} (h : parse text = .ok document) :
    document.text = text := by
  unfold parse at h
  cases hlayout : layoutOf text (Markup.scan text) with
  | error e => simp [hlayout, Except.map] at h
  | ok layout =>
      simp only [hlayout, Except.map, Except.ok.injEq] at h
      rw [← h]

end Document
end AndroidStrings
