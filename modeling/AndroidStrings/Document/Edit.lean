import AndroidStrings.Document.Parse
import AndroidStrings.Document.Line
import AndroidStrings.Value.Escape

/-!
# Edits in place

An edit replaces the bytes that it needs and reads the new text again; if the new text is no
document, the edit fails and the old document stays.  Values go between the tags of their
element, new elements right before `</resources>`, and a removed element takes its line with it.
-/

namespace AndroidStrings

/-- What an edit answers that may find nothing to do. -/
inductive EditOutcome where
  | applied
  | skipped
  deriving DecidableEq, Repr

/-- An edit of several steps: the document after the last step that worked, and what stopped
the next one. -/
structure SteppedEdit where
  document : Document
  result : Except Error EditOutcome

namespace Document

/-!
## Element texts
-/

def fileLabel : Text :=
  "strings.xml".toList

def stringElement (id stored : Text) : Text :=
  "<string name=\"".toList ++ id ++ "\">".toList ++ stored ++ "</string>".toList

def itemElement (quantity : Quantity) (stored : Text) : Text :=
  "<item quantity=\"".toList ++ quantity.name ++ "\">".toList ++ stored ++ "</item>".toList

def pluralsElement (id : Text) (items : List (Quantity × Text)) (ending : LineEnding) : Text :=
  "<plurals name=\"".toList ++ id ++ "\">".toList ++
    items.flatMap (fun item => ending.text ++ itemIndent ++ itemElement item.1 item.2) ++
    ending.text ++ entryIndent ++ "</plurals>".toList

/-- Turns a self-closing `<string …/>` into `<string …>stored</string>`. -/
def expandedString (tagText stored : Text) : Text :=
  let cut := Text.trimEnd (· == '/') (Text.trimEnd (· == '>') tagText)
  Text.trimEnd CharClass.isWhiteSpace cut ++ '>' :: stored ++ "</string>".toList

/-!
## Values to store
-/

def storedValue (target value : Text) (mode : EscapeMode) : Except Error Text :=
  match Value.validate value with
  | .ok () => .ok (mode.apply value)
  | .error issue => .error (.invalidValue target issue)

def quantityTarget (id : Text) (quantity : Quantity) : Text :=
  id ++ '[' :: quantity.name ++ [']']

def storedForms (id : Text) (mode : EscapeMode) :
    List (Quantity × Text) → Except Error (List (Quantity × Text))
  | [] => .ok []
  | (quantity, value) :: rest =>
      match storedValue (quantityTarget id quantity) value mode with
      | .error e => .error e
      | .ok stored => (storedForms id mode rest).map ((quantity, stored) :: ·)

/-!
## Reading values
-/

def notFound (id : Text) : Error :=
  .entryNotFound id fileLabel

/-- The stored value of a string. -/
def getRaw (document : Document) (id : Text) : Except Error Text :=
  match document.find? .string id with
  | some node => .ok (document.slice node.inner)
  | none => .error (notFound id)

/-- The value of a string as it is displayed. -/
def get (document : Document) (id : Text) : Except Error Text :=
  (document.getRaw id).map unescapeValue

def getPlurals (document : Document) (id : Text) : Except Error Plural :=
  match document.find? .plurals id with
  | some node =>
      match node.entry.value with
      | .plural forms => .ok forms
      | _ => .error (notFound id)
  | none => .error (notFound id)

/-!
## Edits
-/

def splice (document : Document) (span : Span) (replacement : Text) : Except Error Document :=
  parse (document.text.splice span replacement)

def insertAt (document : Document) (position : Nat) (element : Text) : Except Error Document :=
  document.splice ⟨position, position⟩ element

/-- Puts an element on a line of its own before `</resources>`. -/
def insertEntry (document : Document) (element : Text) : Except Error Document :=
  match document.rootCloseStart with
  | .error e => .error e
  | .ok close =>
      let ending := document.lineEnding.text
      if document.text.startsLine close then
        document.insertAt (document.text.lineStart close) (entryIndent ++ element ++ ending)
      else
        document.insertAt close (ending ++ entryIndent ++ element ++ ending)

def replaceString (document : Document) (id stored : Text) : Except Error Document :=
  match document.find? .string id with
  | none => .error (notFound id)
  | some node =>
      if node.selfClosing then
        document.splice node.outer (expandedString (document.slice node.outer) stored)
      else
        document.splice node.inner stored

/-- Replaces the value of a string. -/
def set (document : Document) (id value : Text) (mode : EscapeMode) : Except Error Document :=
  match storedValue id value mode with
  | .error e => .error e
  | .ok stored => document.replaceString id stored

/-- Replaces the value of a string, or appends the string. -/
def setOrCreate (document : Document) (id value : Text) (mode : EscapeMode) :
    Except Error Document :=
  match storedValue id value mode with
  | .error e => .error e
  | .ok stored =>
      if document.contains .string id then document.replaceString id stored
      else document.insertEntry (stringElement id stored)

/-- Appends a string; `none` when there is one already. -/
def add? (document : Document) (id value : Text) (mode : EscapeMode) :
    Except Error (Option Document) :=
  match storedValue id value mode with
  | .error e => .error e
  | .ok stored =>
      if document.contains .string id then .ok none
      else (document.insertEntry (stringElement id stored)).map some

/-- Appends a plurals element; `none` when there is one already. -/
def addPlural? (document : Document) (id : Text) (forms : List (Quantity × Text))
    (mode : EscapeMode) : Except Error (Option Document) :=
  match storedForms id mode forms with
  | .error e => .error e
  | .ok items =>
      if document.contains .plurals id then .ok none
      else (document.insertEntry (pluralsElement id items document.lineEnding)).map some

/-- Stores the form of one quantity in an existing plurals element. -/
def setQuantity (document : Document) (id : Text) (quantity : Quantity) (stored : Text) :
    Except Error Document :=
  match document.find? .plurals id with
  | none => .error (notFound id)
  | some node =>
      match node.item? quantity with
      | some item =>
          if item.inner.start = item.inner.stop ∧ item.inner.start = item.outer.stop then
            document.splice item.outer (itemElement quantity stored)
          else document.splice item.inner stored
      | none =>
          let close := node.inner.stop
          let element := itemElement quantity stored
          if document.text.startsLine close then
            document.insertAt (document.text.lineStart close)
              (itemIndent ++ element ++ document.lineEnding.text)
          else document.insertAt close element

def setQuantities (document : Document) (id : Text) : List (Quantity × Text) → SteppedEdit
  | [] => ⟨document, .ok .applied⟩
  | (quantity, stored) :: rest =>
      match document.setQuantity id quantity stored with
      | .error e => ⟨document, .error e⟩
      | .ok edited => edited.setQuantities id rest

/-- An edit that leaves the old document when it fails. -/
def whole (document : Document) (edited : Except Error Document) : SteppedEdit :=
  match edited with
  | .ok new => ⟨new, .ok .applied⟩
  | .error e => ⟨document, .error e⟩

/-- Stores forms of a plurals element one by one, and makes the element when there is none. -/
def setPlurals (document : Document) (id : Text) (forms : List (Quantity × Text))
    (mode : EscapeMode) : SteppedEdit :=
  match storedForms id mode forms with
  | .error e => ⟨document, .error e⟩
  | .ok items =>
      let element := pluralsElement id items document.lineEnding
      match document.find? .plurals id with
      | none => document.whole (document.insertEntry element)
      | some node =>
          if node.selfClosing then document.whole (document.splice node.outer element)
          else document.setQuantities id items

/-- Removes the elements with a name one after another, each with its line if it has the line to
itself.  Every removal makes the text shorter. -/
def removeNext (outcome : EditOutcome) (document : Document) (id : Text) : SteppedEdit :=
  match document.nodes.find? fun node => node.id == id with
  | none => ⟨document, .ok outcome⟩
  | some node =>
      match document.splice (document.text.lineExtent node.outer) [] with
      | .error e => ⟨document, .error e⟩
      | .ok edited =>
          if edited.text.length < document.text.length then removeNext .applied edited id
          else ⟨edited, .ok .applied⟩
termination_by document.text.length

/-- Removes every element with a name, of whatever kind. -/
def remove (document : Document) (id : Text) : SteppedEdit :=
  document.removeNext .skipped id

end Document
end AndroidStrings
