import AndroidStrings.CommandLine.Argument
import AndroidStrings.Document.Edit
import AndroidStrings.Proofs.Document.LaidOut
import AndroidStrings.Proofs.Markup.Attribute

/-!
# New elements

The elements that edits write have tags with one attribute.  A name or a quantity without quotes
and ampersands is read back from such a tag as it was written, so a new element makes up the entry
that it was written for.

## Main statements

- `EntryAttributes.ofTag_nameTag`, `EntryAttributes.ofTag_quantityTag` : what is read from a tag
  with one attribute.
- `Segment.entries_newString`, `Segment.entries_newPlurals` : the entries of new elements.
-/

namespace AndroidStrings

open Markup

namespace Markup

/-!
# Tags with one attribute
-/

/-- What follows the name of a tag with one attribute. -/
def oneAttribute (key value : Text) : Text :=
  ' ' :: key ++ "=\"".toList ++ value ++ ['"']

/-- A value that is written as it is. -/
structure IsVerbatim (value : Text) : Prop where
  noQuote : '"' ∉ value
  noReference : '&' ∉ value

theorem isNameChar_of_mem {name : Text} (h : IsName name) {c : Char} (hc : c ∈ name) :
    isNameChar c = true :=
  List.all_eq_true.mp h.2 c hc

theorem isKeyChar_of_isNameChar {c : Char} (h : isNameChar c = true) : isKeyChar c = true := by
  simp only [isNameChar, Bool.and_eq_true, Bool.not_eq_true'] at h
  simp only [isKeyChar, Bool.and_eq_true, bne_iff_ne, ne_eq, h.1, Bool.not_false, and_true]
  rintro rfl
  simp at h

theorem isTagContent_quoted
    {value : Text}
    (h : '"' ∉ value) :
    isTagContent (some '"') (value ++ ['"']) = true := by
  induction value with
  | nil => rfl
  | cons c value ih =>
      rw [List.mem_cons, not_or] at h
      rw [List.cons_append, isTagContent, if_neg (Ne.symm h.1)]
      exact ih h.2

section OneAttribute

variable {name key value : Text}

theorem areAttributes_oneAttribute
    (hkey : IsName key)
    (hvalue : '"' ∉ value) :
    AreAttributes (oneAttribute key value) := by
  constructor
  · intro c hc
    simp only [oneAttribute, List.cons_append, List.head?_cons, Option.some.injEq] at hc
    rw [← hc]
    rfl
  · have hplain : List.all (' ' :: key ++ ['=']) isPlain = true := by
      rw [List.cons_append, List.all_cons, List.all_append, all_isPlain_of_isName hkey]
      rfl
    have hsplit : oneAttribute key value = (' ' :: key ++ ['=']) ++ '"' :: (value ++ ['"']) := by
      simp [oneAttribute]
    rw [hsplit, isTagContent_plain_append (.inl rfl) hplain]
    exact isTagContent_quoted hvalue

theorem getLast?_oneAttribute (key value : Text) :
    (oneAttribute key value).getLast? = some '"' := by
  rw [oneAttribute, List.getLast?_concat]

theorem raw_startTag_oneAttribute (name key value : Text) :
    (Event.startTag (name ++ oneAttribute key value)).raw =
      ('<' :: name ++ ' ' :: key ++ "=\"".toList) ++ value ++ "\">".toList := by
  simp [Event.raw, oneAttribute]

theorem readValue_quoted
    (total : Nat)
    (hvalue : '"' ∉ value) :
    readValue total ('"' :: (value ++ ['"'])) = .ok (value, []) := by
  have hfront : forall c, c ∈ value -> (c != '"') = true := by
    intro c hc
    rw [bne_iff_ne]
    rintro rfl
    exact hvalue hc
  simp only [readValue, true_or, if_true, dropWhile_append_cons hfront (rfl : ('"' != '"') = false),
    takeWhile_append_cons hfront (rfl : ('"' != '"') = false)]

/-- A tag with one attribute has this one attribute. -/
theorem attributesOf_oneAttribute
    (hname : IsName name)
    (hkey : IsName key)
    (hvalue : '"' ∉ value) :
    attributesOf (name ++ oneAttribute key value) = ⟨[⟨key, value⟩], none⟩ := by
  have hnameChars : forall c, c ∈ name -> (!isSpace c) = true := by
    intro c hc
    have hchar := isNameChar_of_mem hname hc
    rw [isNameChar, Bool.and_eq_true] at hchar
    exact hchar.1
  cases key with
  | nil => exact absurd rfl hkey.1
  | cons first key =>
      have hkeyChars : forall c, c ∈ first :: key -> isKeyChar c = true := by
        intro c hc
        exact isKeyChar_of_isNameChar (isNameChar_of_mem hkey hc)
      have hfirst : isSpace first = false := by
        have hchar := hkeyChars first (by simp)
        rw [isKeyChar, Bool.and_eq_true, Bool.not_eq_true'] at hchar
        exact hchar.2
      have htext : oneAttribute (first :: key) value =
          ' ' :: first :: (key ++ '=' :: '"' :: (value ++ ['"'])) := by
        simp [oneAttribute]
      have hread : forall total : Nat,
          readAttribute total first (key ++ '=' :: '"' :: (value ++ ['"'])) =
            .ok (⟨first :: key, value⟩, []) := by
        intro total
        have hrest : forall c, c ∈ key -> isKeyChar c = true :=
          fun c hc => hkeyChars c (List.mem_cons_of_mem _ hc)
        have hequals : isKeyChar '=' = false := rfl
        have hblank : ('=' :: '"' :: (value ++ ['"'])).dropWhile isSpace =
            '=' :: '"' :: (value ++ ['"']) := rfl
        have hquote : ('"' :: (value ++ ['"'])).dropWhile isSpace = '"' :: (value ++ ['"']) := rfl
        simp only [readAttribute, takeWhile_append_cons hrest hequals,
          dropWhile_append_cons hrest hequals, hblank, if_true, hquote,
          readValue_quoted total hvalue]
      have hstart : (' ' :: first :: (key ++ '=' :: '"' :: (value ++ ['"']))).dropWhile isSpace =
          first :: (key ++ '=' :: '"' :: (value ++ ['"'])) := by
        rw [List.dropWhile_cons_of_pos (rfl : isSpace ' ' = true),
          List.dropWhile_cons_of_neg (by simp [hfirst])]
      rw [attributesOf, htext, dropWhile_append_cons hnameChars (rfl : (!isSpace ' ') = false),
        attributesFrom_of_readAttribute hstart (hread _), attributesFrom_of_dropWhile_nil _ rfl]

end OneAttribute

/-- A value without ampersands stands for itself. -/
theorem unescapeFrom_eq_self
    {value : Text}
    (h : '&' ∉ value)
    (position total : Nat) :
    unescapeFrom position total value = .ok value := by
  induction value generalizing position with
  | nil => rw [unescapeFrom]
  | cons c value ih =>
      rw [List.mem_cons, not_or] at h
      rw [unescapeFrom, if_neg (Ne.symm h.1), ih h.2]
      rfl

theorem unescape_eq_self
    {value : Text}
    (h : '&' ∉ value) :
    unescape value = .ok value :=
  unescapeFrom_eq_self h 0 value.size

end Markup

/-!
# Tags of new elements
-/

/-- The content of the opening tag of a new entry. -/
def nameTag (kind : EntryKind) (id : Text) : Text :=
  kind.tag ++ oneAttribute "name".toList id

/-- The content of the opening tag of a new item. -/
def quantityTag (quantity : Quantity) : Text :=
  Reader.itemName ++ oneAttribute "quantity".toList quantity.name

theorem isName_tag (kind : EntryKind) : IsName kind.tag := by
  cases kind <;> exact ⟨by decide, by decide⟩

theorem isName_itemName : IsName Reader.itemName :=
  ⟨by decide, by decide⟩

theorem isVerbatim_quantity (quantity : Quantity) : IsVerbatim quantity.name := by
  cases quantity <;> exact ⟨by decide, by decide⟩

theorem isVerbatim_of_isValidId
    {id : Text}
    (h : CommandLine.isValidId id = true) :
    IsVerbatim id := by
  have hchars := CommandLine.forall_isIdChar_of_isValidId h
  constructor
  · intro hquote
    exact absurd (hchars '"' hquote) (by decide)
  · intro hreference
    exact absurd (hchars '&' hreference) (by decide)

namespace EntryAttributes

section Tags

variable {name value : Text}

/-- What is read from a tag whose one attribute is a name. -/
theorem ofTag_nameTag
    (hname : IsName name)
    (hvalue : IsVerbatim value) :
    ofTag (name ++ oneAttribute "name".toList value) = .ok { name := some value } := by
  have hkey : IsName "name".toList := ⟨by decide, by decide⟩
  rw [ofTag, attributesOf_oneAttribute hname hkey hvalue.noQuote]
  simp [add, unescaped, unescape_eq_self hvalue.noReference, Except.map, pure, Except.pure, bind,
    Except.bind]

/-- What is read from a tag whose one attribute is a quantity. -/
theorem ofTag_quantityTag
    (hname : IsName name)
    (hvalue : IsVerbatim value) :
    ofTag (name ++ oneAttribute "quantity".toList value) = .ok { quantity := some value } := by
  have hkey : IsName "quantity".toList := ⟨by decide, by decide⟩
  rw [ofTag, attributesOf_oneAttribute hname hkey hvalue.noQuote]
  simp [add, unescaped, unescape_eq_self hvalue.noReference, Except.map, pure, Except.pure, bind,
    Except.bind]

end Tags

end EntryAttributes

theorem heading_nameTag
    {id : Text}
    (kind : EntryKind)
    (h : IsVerbatim id) :
    Heading.ofTag kind (nameTag kind id) = .ok ⟨kind, id, true⟩ := by
  rw [Heading.ofTag, nameTag, EntryAttributes.ofTag_nameTag (isName_tag kind) h]

theorem ofText?_name (quantity : Quantity) : Quantity.ofText? quantity.name = some quantity := by
  cases quantity <;> decide +kernel

theorem itemQuantity_quantityTag
    {heading : Heading}
    (h : heading.kind = .plurals)
    (quantity : Quantity) :
    itemQuantity heading (quantityTag quantity) = .ok (some quantity) := by
  rw [itemQuantity, h, quantityTag,
    EntryAttributes.ofTag_quantityTag isName_itemName (isVerbatim_quantity quantity)]
  simp [ofText?_name]

theorem tagName_nameTag
    {id : Text}
    (kind : EntryKind)
    (h : '"' ∉ id) :
    tagName (nameTag kind id) = kind.tag :=
  tagName_append (isName_tag kind)
    (areAttributes_oneAttribute ⟨by decide, by decide⟩ h)

theorem tagName_quantityTag (quantity : Quantity) :
    tagName (quantityTag quantity) = Reader.itemName :=
  tagName_append isName_itemName
    (areAttributes_oneAttribute ⟨by decide, by decide⟩ (isVerbatim_quantity quantity).noQuote)

theorem spelled_oneAttribute
    {name key value : Text}
    (hname : IsName name)
    (hkey : IsName key)
    (hvalue : '"' ∉ value) :
    (Event.startTag (name ++ oneAttribute key value)).Spelled := by
  refine spelled_startTag hname (areAttributes_oneAttribute hkey hvalue) ?_
  rw [getLast?_oneAttribute]
  decide

theorem spelled_nameTag
    {id : Text}
    (kind : EntryKind)
    (h : '"' ∉ id) :
    (Event.startTag (nameTag kind id)).Spelled :=
  spelled_oneAttribute (isName_tag kind) ⟨by decide, by decide⟩ h

/-- An element whose opening tag has one attribute, and whose end tag has only a name. -/
theorem wellFormed_oneAttribute
    {name key value : Text} {inside rest : Forest}
    (hname : IsName name)
    (hkey : IsName key)
    (hvalue : '"' ∉ value)
    (hinside : inside.WellFormed)
    (hrest : rest.WellFormed) :
    (Forest.element (name ++ oneAttribute key value) inside name rest).WellFormed := by
  have hend := endTagName_append hname (rfl : List.all [] isSpace = true)
  rw [List.append_nil] at hend
  refine ⟨⟨spelled_oneAttribute hname hkey hvalue, spelled_endTag_of_isName hname, ?_⟩,
    hinside, hrest⟩
  rw [tagName_append hname (areAttributes_oneAttribute hkey hvalue), hend]

/-!
# Items
-/

/-- An item with a form of a plural, and what follows it. -/
def Markup.Forest.item (quantity : Quantity) (inside rest : Forest) : Forest :=
  .element (quantityTag quantity) inside Reader.itemName rest

/-- The items of a new plurals element, each on a line of its own. -/
def itemsForest (ending : LineEnding) : List (Quantity × Forest) -> Forest
  | [] => .leaf (.text (ending.text ++ Document.entryIndent)) .nil
  | (quantity, inside) :: rest =>
      .leaf (.text (ending.text ++ Document.itemIndent))
        (.item quantity inside (itemsForest ending rest))

theorem wellFormed_item
    {inside rest : Forest}
    (quantity : Quantity)
    (hinside : inside.WellFormed)
    (hrest : rest.WellFormed) :
    (Forest.item quantity inside rest).WellFormed :=
  wellFormed_oneAttribute isName_itemName ⟨by decide, by decide⟩
    (isVerbatim_quantity quantity).noQuote hinside hrest

theorem raw_item (quantity : Quantity) (inside rest : Forest) :
    (Forest.item quantity inside rest).raw =
      Document.itemElement quantity inside.raw ++ rest.raw := by
  rw [Forest.item, Forest.raw_element]
  have hopen : (Event.startTag (quantityTag quantity)).raw =
      "<item quantity=\"".toList ++ quantity.name ++ "\">".toList :=
    raw_startTag_oneAttribute _ _ _
  have hclose : (Event.endTag Reader.itemName).raw = "</item>".toList := rfl
  rw [hopen, hclose]
  rfl

/-- The quantity of an item, with the text between its tags. -/
def ReadItem.form (item : ReadItem) : Option Quantity × Text :=
  (item.node.quantity, item.value)

/-- The forms of a plurals element are those of its items. -/
theorem itemsEntryValue_of_forms
    {items : List ReadItem} {forms : List (Quantity × Text)}
    (h : items.map ReadItem.form = forms.map fun form => (some form.1, form.2)) :
    itemsEntryValue .plurals items = .plural (.ofList forms) := by
  have hforms : items.filterMap (fun item =>
      item.node.quantity.map fun quantity => (quantity, item.value)) = forms := by
    have hsame : items.filterMap (fun item =>
        item.node.quantity.map fun quantity => (quantity, item.value)) =
          (items.map ReadItem.form).filterMap fun form =>
            form.1.map fun quantity => (quantity, form.2) := by
      rw [List.filterMap_map]
      rfl
    rw [hsame, h, List.filterMap_map]
    exact List.filterMap_some
  rw [itemsEntryValue, hforms]

/-- An item is read with its quantity and its value. -/
theorem exists_itemsFrom_item
    {heading : Heading}
    (hkind : heading.kind = .plurals)
    (start : Nat) (quantity : Quantity) (inside rest : Forest) :
    exists item : ReadItem,
      item.node.quantity = some quantity ∧ item.value = inside.raw ∧
        itemsFrom heading start (.item quantity inside rest) =
          (itemsFrom heading (start + (Document.itemElement quantity inside.raw).size) rest).map
            (item :: ·) := by
  have hsize : start + (Event.startTag (quantityTag quantity)).raw.size + inside.raw.size +
      (Event.endTag Reader.itemName).raw.size =
        start + (Document.itemElement quantity inside.raw).size := by
    have hraw := raw_item quantity inside .nil
    rw [Forest.item, Forest.raw_element] at hraw
    have hsizes := congrArg Text.size hraw
    simp only [Text.size_append] at hsizes
    omega
  rw [Forest.item, itemsFrom]
  simp only [tagName_quantityTag, if_true, itemQuantity_quantityTag hkind, hsize]
  exact ⟨_, rfl, rfl, rfl⟩

section Items

variable {ending : LineEnding} {items : List (Quantity × Forest)}

theorem wellFormed_itemsForest
    (ending : LineEnding)
    (h : forall item, item ∈ items -> item.2.WellFormed) :
    (itemsForest ending items).WellFormed := by
  induction items with
  | nil => exact ⟨rfl, List.not_mem_append (Header.not_mem_ending ending) (by decide), trivial⟩
  | cons item items ih =>
      have hitems := List.forall_mem_cons.mp h
      exact ⟨rfl, List.not_mem_append (Header.not_mem_ending ending) (by decide),
        wellFormed_item item.1 hitems.1 (ih hitems.2)⟩

theorem raw_itemsForest (ending : LineEnding) (items : List (Quantity × Forest)) :
    (itemsForest ending items).raw =
      items.flatMap (fun item => ending.text ++ Document.itemIndent ++
        Document.itemElement item.1 item.2.raw) ++ ending.text ++ Document.entryIndent := by
  induction items with
  | nil => simp [itemsForest, Event.raw, Forest.raw]
  | cons item items ih =>
      rw [itemsForest, Forest.raw_leaf, raw_item, ih]
      simp [Event.raw]

/-- The items of a new element are read as they were written. -/
theorem exists_itemsFrom_itemsForest
    {heading : Heading}
    (hkind : heading.kind = .plurals)
    (start : Nat) (ending : LineEnding) (items : List (Quantity × Forest)) :
    exists found : List ReadItem,
      itemsFrom heading start (itemsForest ending items) = .ok found ∧
        found.map ReadItem.form = items.map fun item => (some item.1, item.2.raw) := by
  induction items generalizing start with
  | nil => exact ⟨[], rfl, rfl⟩
  | cons item items ih =>
      rcases exists_itemsFrom_item hkind
        (start + (Event.text (ending.text ++ Document.itemIndent)).raw.size) item.1 item.2
        (itemsForest ending items) with ⟨first, hquantity, hvalue, hread⟩
      rcases ih (start + (Event.text (ending.text ++ Document.itemIndent)).raw.size +
        (Document.itemElement item.1 item.2.raw).size) with ⟨found, hfound, hmap⟩
      refine ⟨first :: found, ?_, ?_⟩
      · simp only [itemsForest, itemsFrom, hread, hfound, Except.map]
      · rw [List.map_cons, List.map_cons, hmap, ReadItem.form, hquantity, hvalue]

end Items

/-!
# New elements
-/

namespace Segment

def newString (id : Text) (inside : Forest) : Segment :=
  .element (nameTag .string id) inside EntryKind.string.tag

def newPlurals (id : Text) (ending : LineEnding) (items : List (Quantity × Forest)) : Segment :=
  .element (nameTag .plurals id) (itemsForest ending items) EntryKind.plurals.tag

theorem raw_newString (id : Text) (inside : Forest) :
    (newString id inside).raw = Document.stringElement id inside.raw := by
  have hopen : (Event.startTag (nameTag .string id)).raw =
      "<string name=\"".toList ++ id ++ "\">".toList :=
    raw_startTag_oneAttribute _ _ _
  have hclose : (Event.endTag EntryKind.string.tag).raw = "</string>".toList := rfl
  unfold Document.stringElement
  rw [← hopen, ← hclose]
  exact raw_element _ _ _

theorem raw_newPlurals (id : Text) (ending : LineEnding) (items : List (Quantity × Forest)) :
    (newPlurals id ending items).raw =
      Document.pluralsElement id (items.map fun item => (item.1, item.2.raw)) ending := by
  have hopen : (Event.startTag (nameTag .plurals id)).raw =
      "<plurals name=\"".toList ++ id ++ "\">".toList :=
    raw_startTag_oneAttribute _ _ _
  have hclose : (Event.endTag EntryKind.plurals.tag).raw = "</plurals>".toList := rfl
  unfold Document.pluralsElement
  rw [← hopen, ← hclose, List.flatMap_map, newPlurals, raw_element, raw_itemsForest]
  simp only [List.append_assoc]

section New

variable {id : Text} {inside : Forest} {ending : LineEnding} {items : List (Quantity × Forest)}

theorem fits_newString
    (hid : '"' ∉ id)
    (hinside : inside.WellFormed) :
    (newString id inside).Fits true :=
  ⟨rfl, wellFormed_oneAttribute (isName_tag .string) ⟨by decide, by decide⟩ hid hinside trivial⟩

theorem fits_newPlurals
    (hid : '"' ∉ id)
    (hitems : forall item, item ∈ items -> item.2.WellFormed) :
    (newPlurals id ending items).Fits true :=
  ⟨rfl, wellFormed_oneAttribute (isName_tag .plurals) ⟨by decide, by decide⟩ hid
    (wellFormed_itemsForest ending hitems) trivial⟩

theorem entries_newString
    (inside : Forest)
    (hid : IsVerbatim id) :
    (newString id inside).entries = [⟨id, .singular inside.raw, true⟩] := by
  rw [entries, newString]
  simp only [layoutAt, tagName_nameTag .string hid.noQuote, EntryKind.ofTag?_tag, elementNode,
    heading_nameTag .string hid, Except.map, List.map_singleton]

theorem entries_newPlurals
    (ending : LineEnding) (items : List (Quantity × Forest))
    (hid : IsVerbatim id) :
    (newPlurals id ending items).entries =
      [⟨id, .plural (.ofList (items.map fun item => (item.1, item.2.raw))), true⟩] := by
  have hkind : (⟨.plurals, id, true⟩ : Heading).kind = .plurals := rfl
  rcases exists_itemsFrom_itemsForest hkind
    (0 + (Event.startTag (nameTag .plurals id)).raw.size) ending items with ⟨found, hread, hfound⟩
  have hvalue : itemsEntryValue .plurals found =
      .plural (.ofList (items.map fun item => (item.1, item.2.raw))) :=
    itemsEntryValue_of_forms (by rw [hfound, List.map_map]; rfl)
  rw [entries, newPlurals]
  simp only [layoutAt, tagName_nameTag .plurals hid.noQuote, EntryKind.ofTag?_tag, elementNode,
    heading_nameTag .plurals hid, hread, Except.map, hvalue, List.map_singleton]

theorem readable_of_entries
    {segment : Segment}
    (h : segment.entries ≠ []) :
    segment.Readable := by
  unfold entries at h
  split at h
  · rename_i found hfound
    exact ⟨found, hfound⟩
  · exact absurd rfl h

end New

end Segment

/-- Balanced forms are the texts of forests. -/
theorem exists_forests
    {forms : List (Quantity × Text)}
    (h : forall form, form ∈ forms -> Balanced form.2) :
    exists items : List (Quantity × Forest),
      (items.map fun item => (item.1, item.2.raw)) = forms ∧
        forall item, item ∈ items -> item.2.WellFormed := by
  induction forms with
  | nil => exact ⟨[], rfl, by simp⟩
  | cons form forms ih =>
      rcases h form (by simp) with ⟨forest, hwell, hraw⟩
      rcases ih (List.forall_mem_cons.mp h).2 with ⟨items, hitems, hall⟩
      refine ⟨(form.1, forest) :: items, by rw [List.map_cons, hitems, hraw], ?_⟩
      intro item hitem
      rcases List.mem_cons.mp hitem with heq | hmem
      · rw [heq]
        exact hwell
      · exact hall item hmem

end AndroidStrings
