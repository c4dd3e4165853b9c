import AndroidStrings.Document.Parse

/-!
# Sorting

Sorting writes the whole file anew: its entries in a given order of keys, each with the comments
right above it, and then the entries and other elements that the order does not name.  Elements
are indented by four spaces, and the items in them by eight.
-/

namespace AndroidStrings

/-- Takes, for each key of an order in turn, the first item left that has the key; the items
left over follow in their old order. -/
def arrange {α : Type} (key : α → Option EntryKind.Key) :
    List EntryKind.Key → List α → List α
  | [], items => items
  | wanted :: order, items =>
      match items.find? fun item => key item == some wanted with
      | some item => item :: arrange key order (items.eraseP fun other => key other == some wanted)
      | none => arrange key order items

namespace Document

/-!
## Blocks
-/

/-- An element directly inside the root element; elements of other types have no key. -/
structure Block where
  key : Option EntryKind.Key
  span : Span
  deriving DecidableEq, Repr

/-- The elements directly inside the root element, in file order. -/
def blocks (document : Document) : List Block :=
  let nodes := document.nodes.map fun node => (⟨some node.entry.key, node.outer⟩ : Block)
  let others := document.layout.others.map fun span => (⟨none, span⟩ : Block)
  (nodes ++ others).mergeSort fun left right => left.span.start ≤ right.span.start

def writeComment (ending comment : Text) : Text :=
  comment.lines.flatMap fun line => entryIndent ++ line.trim CharClass.isWhiteSpace ++ ending

/-- A line of an element behind its first one.  In elements with items, the lines that begin an
item or end the element are indented anew; every other line stays. -/
def writeElementLine (hasItems : Bool) (line : Text) : Text :=
  let trimmed := line.trim CharClass.isWhiteSpace
  if hasItems && trimmed.startsWith "<item".toList then itemIndent ++ trimmed
  else if hasItems && trimmed.startsWith "</".toList && !trimmed.startsWith "</item".toList then
    entryIndent ++ trimmed
  else line

def writeElement (hasItems : Bool) (ending element : Text) : Text :=
  match element.lines with
  | [] => ending
  | first :: rest =>
      entryIndent ++ first.trimStart CharClass.isWhiteSpace ++
        rest.flatMap (fun line => ending ++ writeElementLine hasItems line) ++ ending

def Block.hasItems (block : Block) : Bool :=
  match block.key with
  | some (.plurals, _) => true
  | some (.stringArray, _) => true
  | _ => false

/-- A block as it is written: the comments since the block before it, and the element. -/
structure WrittenBlock where
  key : Option EntryKind.Key
  text : Text
  deriving DecidableEq, Repr

def writeBlock (document : Document) (ending : Text) (previousStop : Nat) (block : Block) :
    WrittenBlock :=
  let above := document.layout.comments.filter fun comment =>
    previousStop ≤ comment.start && comment.stop ≤ block.span.start
  ⟨block.key,
    above.flatMap (fun comment => writeComment ending (document.slice comment)) ++
      writeElement block.hasItems ending (document.slice block.span)⟩

def writeBlocks (document : Document) (ending : Text) (previousStop : Nat) :
    List Block → List WrittenBlock
  | [] => []
  | block :: rest =>
      document.writeBlock ending previousStop block ::
        document.writeBlocks ending block.span.stop rest

def lastStop (blocks : List Block) : Nat :=
  match blocks.getLast? with
  | some block => block.span.stop
  | none => 0

/-!
## The file around the blocks
-/

def defaultDeclaration : Text :=
  "<?xml version=\"1.0\" encoding=\"utf-8\"?>".toList

def defaultRootTag : Text :=
  "<resources>".toList

/-- Drops the end of a self-closing tag, as often as it stands there. -/
def trimSelfClosing (tag : Text) : Text :=
  match tag with
  | [] => []
  | c :: t =>
      let rest := trimSelfClosing t
      if c = '/' ∧ rest = ['>'] then [] else c :: rest

/-- The opening tag of the root element; a self-closing one is opened. -/
def sortedRootTag (document : Document) : Text :=
  let tag := document.rootOpenTag?.getD defaultRootTag
  if tag.endsWith "/>".toList then
    (trimSelfClosing tag).trimEnd CharClass.isWhiteSpace ++ ['>']
  else tag

def sortedText (document : Document) (order : List EntryKind.Key) : Text :=
  let ending := document.lineEnding.text
  let blocks := document.blocks
  let written := arrange WrittenBlock.key order (document.writeBlocks ending 0 blocks)
  let below := document.layout.comments.filter fun comment => lastStop blocks ≤ comment.start
  document.declaration?.getD defaultDeclaration ++ ending ++
    (if document.prolog.isEmpty then [] else document.prolog ++ ending) ++
    document.sortedRootTag ++ ending ++
    written.flatMap WrittenBlock.text ++
    below.flatMap (fun comment => writeComment ending (document.slice comment)) ++
    "</resources>".toList ++ ending

/-- Writes a document anew with its entries in an order, if the place of its prolog is one. -/
def sort (document : Document) (order : List EntryKind.Key) : Except Error Document :=
  match document.rootCloseStart with
  | .error e => .error e
  | .ok _ =>
      if document.prologSpan.stop < document.prologSpan.start then
        .error (.reversedSpan document.prologSpan)
      else parse (document.sortedText order)

theorem sort_eq_parse {document : Document} {close : Span} (order : List EntryKind.Key)
    (hclose : document.layout.rootClose = some close)
    (hprolog : document.prologSpan.start ≤ document.prologSpan.stop) :
    document.sort order = parse (document.sortedText order) := by
  simp only [sort, rootCloseStart, hclose, if_neg (Nat.not_lt.mpr hprolog)]

theorem parse_of_sort {document sorted : Document} {order : List EntryKind.Key}
    (h : document.sort order = .ok sorted) : parse (document.sortedText order) = .ok sorted := by
  unfold sort at h
  split at h
  · simp at h
  · split at h
    · simp at h
    · exact h

end Document
end AndroidStrings
