import AndroidStrings.Proofs.Document.Failure
import AndroidStrings.Proofs.Document.KeptKeys
import AndroidStrings.Proofs.Document.Places

/-!
# Entries that have been opened

Once the reader has passed the opening tag of an entry, a text that can be read to its end has the
entry: whatever follows the tag, the reader stays in the entry until it adds it, and what it has
added stays.  So a new element is found again under its key in every document that it makes, with
any value, however the rest of the file is read then.

## Main statements

- `Reader.Owes.step`, `Cursor.owes_of_foldlM` : the reader stays in the entry or has it.
- `contains_of_insertEntry` : a new element is in the document.
- `contains_of_add?`, `contains_of_addPlural?` : what an addition leaves has the entry.
- `contains_of_setQuantities`, `contains_replaceString` : so has what storing something in it
  leaves.
-/

namespace AndroidStrings

open Markup

/-!
# The entry that the reader is in
-/

/-- The kind that an element with items has in the end. -/
def EntryKind.ofItems : EntryKind -> EntryKind
  | .plurals => .plurals
  | _ => .stringArray

/-- The key of the entry that is being read. -/
def Place.key? : Place -> Option EntryKind.Key
  | .string entry _ => some (.string, entry.heading.id)
  | .items entry _ | .item entry _ _ _ | .foreign entry _ _ _ =>
      some (entry.heading.kind.ofItems, entry.heading.id)
  | _ => none

namespace Reader

/-- The reader is in the entry with a key, or has read one. -/
def Owes (key : EntryKind.Key) (reader : Reader) : Prop :=
  reader.place.key? = some key ∨
    exists node : Node, node ∈ reader.layout.nodes ∧ node.entry.key = key

theorem key_ofString (text : Text) (entry : OpenEntry) (closing : Span) :
    (Node.ofString text entry closing).entry.key = (.string, entry.heading.id) :=
  rfl

theorem key_ofItems (text : Text) (entry : OpenEntry) (items : List ItemNode) (closing : Span) :
    (Node.ofItems text entry items closing).entry.key =
      (entry.heading.kind.ofItems, entry.heading.id) := by
  cases hkind : entry.heading.kind <;>
    simp [Node.ofItems, Entry.key, Entry.kind, itemsValue, EntryKind.ofItems, EntryValue.kind,
      hkind]

theorem owes_addNode
    {key : EntryKind.Key} {node : Node}
    (h : node.entry.key = key)
    (reader : Reader) :
    (reader.addNode node).Owes key :=
  .inr ⟨node, List.mem_append_right _ (List.mem_singleton_self node), h⟩

/-- The reader stays in the entry, or adds it. -/
theorem owes_of_key?
    {key : EntryKind.Key} {text : Text} {reader moved : Reader} {located : Located}
    (hplace : reader.place.key? = some key)
    (h : reader.step text located = .ok moved) :
    moved.Owes key := by
  unfold step at h
  cases hat : reader.place with
  | outside => simp [hat, Place.key?] at hplace
  | root => simp [hat, Place.key?] at hplace
  | other name start depth => simp [hat, Place.key?] at hplace
  | string entry depth =>
      rw [hat, Place.key?, Option.some.injEq] at hplace
      simp only [hat] at h
      split at h
      · rw [Except.ok.injEq] at h
        rw [← h, ← hplace]
        exact .inl rfl
      · rw [Except.ok.injEq] at h
        rw [← h]
        exact owes_addNode ((key_ofString _ _ _).trans hplace) reader
  | items entry found =>
      have hkey := hplace
      rw [hat, Place.key?, Option.some.injEq] at hkey
      simp only [hat, stepItems] at h
      repeat' split at h
      all_goals simp only [Except.ok.injEq, reduceCtorEq] at h
      all_goals rw [← h]
      all_goals first
        | exact .inl (congrArg some hkey)
        | exact .inl hplace
        | exact owes_addNode ((key_ofItems _ _ _ _).trans hkey) reader
  | item entry found current depth =>
      rw [hat, Place.key?, Option.some.injEq] at hplace
      simp only [hat] at h
      split at h
      all_goals rw [Except.ok.injEq] at h
      all_goals rw [← h, ← hplace]
      all_goals exact .inl rfl
  | foreign entry found name depth =>
      rw [hat, Place.key?, Option.some.injEq] at hplace
      simp only [hat] at h
      split at h
      all_goals rw [Except.ok.injEq] at h
      all_goals rw [← h, ← hplace]
      all_goals exact .inl rfl

theorem Owes.step
    {key : EntryKind.Key} {text : Text} {reader moved : Reader} {located : Located}
    (howes : reader.Owes key)
    (h : reader.step text located = .ok moved) :
    moved.Owes key := by
  rcases howes with hplace | ⟨node, hnode, hkey⟩
  · exact owes_of_key? hplace h
  · exact .inr ⟨node, (Cursor.nodes_prefix_of_step h).subset hnode, hkey⟩

/-- At the end of a text no entry is open, so the reader has it. -/
theorem Owes.finish
    {key : EntryKind.Key} {reader : Reader} {layout : Layout}
    (howes : reader.Owes key)
    (h : reader.finish = .ok layout) :
    exists node : Node, node ∈ layout.nodes ∧ node.entry.key = key := by
  unfold Reader.finish at h
  rcases howes with hplace | hread
  · cases hat : reader.place with
    | outside => simp [hat, Place.key?] at hplace
    | root => simp [hat, Place.key?] at hplace
    | _ => simp [hat] at h
  · split at h
    · rwa [← Except.ok.inj h]
    · rwa [← Except.ok.inj h]
    all_goals cases h

end Reader

namespace Cursor

theorem owes_of_foldlM
    {key : EntryKind.Key} {text : Text} {cursor moved : Cursor} {events : List Event}
    (howes : cursor.reader.Owes key)
    (h : events.foldlM (advance text) cursor = .ok moved) :
    moved.reader.Owes key := by
  induction events generalizing cursor with
  | nil =>
      simp only [List.foldlM_nil, pure, Except.pure, Except.ok.injEq] at h
      rwa [← h]
  | cons event events ih =>
      rw [List.foldlM_cons] at h
      rcases Success.bind_eq_ok_iff.mp h with ⟨next, hadvance, hrest⟩
      refine ih ?_ hrest
      unfold advance at hadvance
      split at hadvance
      · cases hadvance
      · rcases Success.map_eq_ok_iff.mp hadvance with ⟨reader, hstep, heq⟩
        rw [← heq]
        exact howes.step hstep

/-- An event that brings the reader from the root element into an entry with a key, or past it. -/
def Opens (key : EntryKind.Key) (event : Event) : Prop :=
  forall {text : Text} {position : Nat} {layout : Layout} {moved : Cursor},
    (atRoot true position layout).advance text event = .ok moved -> moved.reader.Owes key

section Opens

variable {kind : EntryKind} {content : Text} {heading : Heading}

/-- Behind its opening tag, the reader is in an entry. -/
theorem opens_startTag
    (hname : tagName content = kind.tag)
    (hheading : Heading.ofTag kind content = .ok heading) :
    Opens (kind, heading.id) (.startTag content) := by
  intro text position layout moved h
  have hkind : heading.kind = kind := Segment.kind_of_heading hheading
  rw [atRoot, if_pos rfl, advance_of_openNames text _ _ (rfl :
    openNames [Reader.rootName] (.startTag content) = _)] at h
  simp only [Reader.step, Reader.stepRoot, hname, EntryKind.ofTag?_tag, hheading] at h
  cases kind with
  | string =>
      rw [← Except.ok.inj h]
      exact .inl rfl
  | plurals =>
      rw [← Except.ok.inj h]
      exact .inl (by simp [Reader.moveTo, Place.key?, hkind, EntryKind.ofItems])
  | stringArray =>
      rw [← Except.ok.inj h]
      exact .inl (by simp [Reader.moveTo, Place.key?, hkind, EntryKind.ofItems])

/-- Behind a tag that closes itself, the reader has the entry. -/
theorem opens_emptyTag
    (hname : tagName content = kind.tag)
    (hheading : Heading.ofTag kind content = .ok heading) :
    Opens (kind, heading.id) (.emptyTag content) := by
  intro text position layout moved h
  have hkind : heading.kind = kind := Segment.kind_of_heading hheading
  rw [atRoot, if_pos rfl, advance_of_openNames text _ _ (rfl :
    openNames [Reader.rootName] (.emptyTag content) = _)] at h
  simp only [Reader.step, Reader.stepRoot, hname, EntryKind.ofTag?_tag, hheading] at h
  rw [← Except.ok.inj h]
  refine Reader.owes_addNode ?_ _
  rw [Segment.key_ofEmptyTag, hkind]

end Opens

end Cursor

/-!
# New elements
-/

namespace Document

/-- A text that can be read has the entry of a tag that stands inside the root element, whatever
follows the tag. -/
theorem contains_of_opening
    {front : List Segment} {lead tail : Text} {event : Event} {key : EntryKind.Key}
    {document : Document}
    (hplain : PlainStart (Segments.raw front ++ (lead ++ (event.raw ++ tail))))
    (hfit : Segments.Fit false front)
    (hleads : Segments.leads false front = true)
    (hlead : '<' ∉ lead)
    (hspelled : event.Spelled)
    (hopens : Cursor.Opens key event)
    (h : parse (Segments.raw front ++ (lead ++ (event.raw ++ tail))) = .ok document) :
    document.contains key.1 key.2 = true := by
  generalize htext : Segments.raw front ++ (lead ++ (event.raw ++ tail)) = text at hplain h
  rw [parse_eq_readRest hplain] at h
  rcases Success.map_eq_ok_iff.mp h with ⟨layout, hread, rfl⟩
  rcases Success.bind_eq_ok_iff.mp hread with ⟨reader, hreader, hfinish⟩
  have hfront : text = [] ++ Segments.raw front ++ (lead ++ (event.raw ++ tail)) := by
    rw [← htext]
    rfl
  have hfold := Cursor.foldlM_advance_segments {} hfit hfront (rfl : 0 = Text.size [])
  have hsplit : text = spell (Segments.events front) ++ (lead ++ (event.raw ++ tail)) := by
    rw [Segments.spell_events, htext]
  have hstart : Cursor.start.readRest text text = Cursor.start.readRest text
      (spell (Segments.events front) ++ (lead ++ (event.raw ++ tail))) :=
    congrArg _ hsplit
  rw [hstart, Cursor.readRest_spell text Cursor.start hfit.spelled,
    show Cursor.start = Cursor.atRoot false 0 {} from rfl, hfold] at hreader
  rcases Success.bind_eq_ok_iff.mp hreader with ⟨cursor, hcursor, hrest⟩
  rcases Success.map_eq_ok_iff.mp hcursor with ⟨found, _, rfl⟩
  rw [hleads, Cursor.readRest_text text _ hlead, Cursor.readRest_raw text _ hspelled] at hrest
  rcases Success.bind_eq_ok_iff.mp hrest with ⟨moved, hmoved, hbehind⟩
  rcases Cursor.exists_spelled_of_readRest hbehind with ⟨events, last, _, _, hlast, rfl⟩
  rcases (Cursor.owes_of_foldlM (hopens hmoved) hlast).finish hfinish with ⟨node, hnode, hkey⟩
  exact mem_order_iff.mp (hkey ▸ List.mem_map_of_mem (List.mem_map_of_mem hnode))

/-- A new element is in the document that it makes, which begins like the old one. -/
theorem contains_of_insertEntry
    {document edited : Document} {id tail : Text} {kind : EntryKind}
    (hplain : PlainStart document.text)
    (hread : document.IsRead)
    (hid : IsVerbatim id)
    (h : document.insertEntry ((Event.startTag (nameTag kind id)).raw ++ tail) = .ok edited) :
    edited.contains kind id = true ∧ PlainStart edited.text := by
  rcases exists_laidOut hplain hread with ⟨row, hlaid⟩
  cases hclose : document.rootCloseStart with
  | error fault =>
      rw [insertEntry, hclose] at h
      cases h
  | ok close =>
      rcases hlaid.exists_insertionSite hclose with ⟨site⟩
      rw [site.insertEntry_eq, List.append_assoc site.lead, List.append_assoc,
        List.append_assoc site.lead, List.append_assoc (Event.startTag _).raw,
        List.append_assoc (Event.startTag _).raw] at h
      constructor
      · exact contains_of_opening (site.plain _) site.fit_front site.inRoot site.lead_noMarkup
          (spelled_nameTag kind hid.noQuote)
          (Cursor.opens_startTag (tagName_nameTag kind hid.noQuote) (heading_nameTag kind hid)) h
      · rw [text_of_parse h]
        exact site.plain _

theorem stringElement_eq (id stored : Text) :
    stringElement id stored =
      (Event.startTag (nameTag .string id)).raw ++ (stored ++ "</string>".toList) := by
  have hopen : (Event.startTag (nameTag .string id)).raw =
      "<string name=\"".toList ++ id ++ "\">".toList :=
    raw_startTag_oneAttribute _ _ _
  unfold stringElement
  rw [← hopen]
  exact List.append_assoc _ _ _

theorem exists_pluralsElement_eq (id : Text) (items : List (Quantity × Text))
    (ending : LineEnding) :
    exists tail : Text,
      pluralsElement id items ending = (Event.startTag (nameTag .plurals id)).raw ++ tail := by
  have hopen : (Event.startTag (nameTag .plurals id)).raw =
      "<plurals name=\"".toList ++ id ++ "\">".toList :=
    raw_startTag_oneAttribute _ _ _
  unfold pluralsElement
  rw [← hopen]
  simp only [List.append_assoc]
  exact ⟨_, rfl⟩

/-!
# Additions
-/

section Additions

variable {document : Document} {id : Text} {answer : Option Document}

/-- After an addition that works, or that has nothing to do, the string is there. -/
theorem contains_of_add?
    {value : Text} {mode : EscapeMode}
    (hplain : PlainStart document.text)
    (hread : document.IsRead)
    (hid : IsVerbatim id)
    (h : document.add? id value mode = .ok answer) :
    (answer.getD document).contains .string id = true ∧
      PlainStart (answer.getD document).text := by
  unfold add? at h
  split at h
  · cases h
  · split at h
    · rename_i hcontains
      rw [← Except.ok.inj h]
      exact ⟨hcontains, hplain⟩
    · rcases Success.map_eq_ok_iff.mp h with ⟨new, hinsert, rfl⟩
      rw [stringElement_eq] at hinsert
      exact contains_of_insertEntry hplain hread hid hinsert

/-- After an addition that works, or that has nothing to do, the plurals element is there. -/
theorem contains_of_addPlural?
    {forms : List (Quantity × Text)} {mode : EscapeMode}
    (hplain : PlainStart document.text)
    (hread : document.IsRead)
    (hid : IsVerbatim id)
    (h : document.addPlural? id forms mode = .ok answer) :
    (answer.getD document).contains .plurals id = true ∧
      PlainStart (answer.getD document).text := by
  unfold addPlural? at h
  split at h
  · cases h
  · rename_i items _
    split at h
    · rename_i hcontains
      rw [← Except.ok.inj h]
      exact ⟨hcontains, hplain⟩
    · rcases Success.map_eq_ok_iff.mp h with ⟨new, hinsert, rfl⟩
      rcases exists_pluralsElement_eq id items document.lineEnding with ⟨tail, helement⟩
      rw [helement] at hinsert
      exact contains_of_insertEntry hplain hread hid hinsert

end Additions

end Document

/-!
# The tag of an entry
-/

/-- What the tag of an entry says. -/
def Entry.heading (entry : Entry) : Heading :=
  ⟨entry.kind, entry.id, entry.translatable⟩

namespace Segment

/-- The event that a segment begins with. -/
def opener : Segment -> Event
  | outer event | inner event => event
  | rootOpen content | element content _ _ => .startTag content
  | rootClose content => .endTag content

theorem raw_opener_isPrefix (segment : Segment) : segment.opener.raw <+: segment.raw := by
  cases segment with
  | element opening inside closing =>
      rw [raw_element, List.append_assoc]
      exact List.prefix_append _ _
  | _ => simp [opener]

theorem opener_of_isBlock
    {segment : Segment}
    (h : segment.isBlock = true) :
    segment.opener = .startTag segment.content ∨ segment.opener = .emptyTag segment.content := by
  rcases form_of_isBlock h with ⟨opening, inside, closing, rfl⟩ | ⟨content, rfl⟩
  · exact .inl rfl
  · exact .inr rfl

theorem opener_ne_text
    {segment : Segment}
    (h : segment.isBlock = true)
    (content : Text) :
    segment.opener ≠ .text content := by
  rcases opener_of_isBlock h with heq | heq <;> simp [heq]

theorem opener_mem_events (segment : Segment) : segment.opener ∈ segment.events := by
  cases segment <;> simp [opener, events]

theorem heading_of_elementNode
    {kind : EntryKind} {start : Nat} {opening closing : Text} {inside : Forest} {node : Node}
    (h : elementNode kind start opening inside closing = .ok node) :
    Heading.ofTag kind opening = .ok node.entry.heading := by
  rcases entry_of_elementNode h with ⟨_, heading, hheading, hkey⟩
  have hflag : node.entry.translatable = heading.translatable := by
    simp only [elementNode, hheading] at h
    cases kind with
    | string => rw [← Except.ok.inj h]
    | _ =>
        rcases Success.map_eq_ok_iff.mp h with ⟨items, _, heq⟩
        rw [← heq]
  rw [Entry.key, Prod.mk.injEq] at hkey
  rw [hheading, Entry.heading, hkey.1, hkey.2, hflag, ← kind_of_heading hheading]

end Segment

namespace Document

section Tag

variable {document : Document} {wanted : Node -> Bool} {node : Node} {front back : List Segment}
  {segment : Segment} {before after : Layout}

/-- The inner place of an entry begins behind the tag that the entry begins with. -/
theorem NodeSplit.inner_start
    (h : NodeSplit document wanted node front segment back before after) :
    node.inner.start = (Segments.raw front).size + segment.opener.raw.size := by
  rcases h.form with ⟨_, _, _, rfl, _, hmade⟩ | ⟨_, _, rfl, _, _, hnode⟩
  · rw [(items_of_elementNode hmade).1]
    rfl
  · rw [hnode]
    rfl

/-- An entry says what its tag says. -/
theorem NodeSplit.headed
    (h : NodeSplit document wanted node front segment back before after) :
    tagName segment.content = node.kind.tag ∧
      Heading.ofTag node.kind segment.content = .ok node.entry.heading := by
  rcases h.form with ⟨_, _, _, rfl, hname, hmade⟩ | ⟨_, heading, rfl, hname, hheading, hnode⟩
  · exact ⟨hname, Segment.heading_of_elementNode hmade⟩
  · have hkind := Segment.kind_of_heading hheading
    have hsaid : heading = node.entry.heading := by
      rw [hnode] at hkind ⊢
      exact congrArg (Heading.mk · heading.id heading.translatable) hkind
    exact ⟨hname, hsaid ▸ hheading⟩

theorem NodeSplit.opens
    (h : NodeSplit document wanted node front segment back before after) :
    Cursor.Opens node.entry.key segment.opener := by
  rcases Segment.opener_of_isBlock h.isBlock with heq | heq
  · rw [heq]
    exact Cursor.opens_startTag h.headed.1 h.headed.2
  · rw [heq]
    exact Cursor.opens_emptyTag h.headed.1 h.headed.2

end Tag

/-!
# Elements that are kept
-/

/-- A text up to the end of a tag that brings the reader into an entry, or past it: every text that
goes on from there has the entry, if it can be read. -/
structure OpensAt (document : Document) (key : EntryKind.Key) (position : Nat) (lead : Text) :
    Prop where
  isPrefix : lead <+: document.text
  size_eq : lead.size = position
  last : lead.getLast? = some '>'
  plain : forall t : Text, PlainStart (lead ++ t)
  contains : forall (t : Text) (edited : Document),
    parse (lead ++ t) = .ok edited -> edited.contains key.1 key.2 = true

section Kept

variable {document edited : Document} {row : List Segment} {kind : EntryKind} {id lead : Text}
  {key : EntryKind.Key} {node : Node} {position : Nat}

/-- Every entry is opened before its inner place. -/
theorem LaidOut.exists_opensAt
    (h : document.LaidOut row)
    (hfind : document.find? kind id = some node) :
    exists lead : Text, document.OpensAt (kind, id) node.inner.start lead := by
  have hmatch := matches_of_find? hfind
  have hkey : node.entry.key = (kind, id) := Prod.ext hmatch.1 hmatch.2
  rcases h.exists_nodeSplit hfind with ⟨front, segment, back, before, after, rfl, hsplit⟩
  rcases segment.raw_opener_isPrefix with ⟨rest, hrest⟩
  have htext := hsplit.text
  rw [← hrest, List.append_assoc, List.append_assoc] at htext
  have hplain := h.plainStart_front hsplit.inRoot htext
  rw [hsplit.inner_start]
  refine ⟨Segments.raw front ++ segment.opener.raw, ?_, Text.size_append _ _, ?_, ?_, ?_⟩
  · rw [htext, ← List.append_assoc]
    exact List.prefix_append _ _
  · rw [List.getLast?_append, getLast?_raw_of_markup (Segment.opener_ne_text hsplit.isBlock),
      Option.some_or]
  · intro t
    rw [List.append_assoc]
    exact hplain _
  · intro t edited hparse
    rw [List.append_assoc, ← List.nil_append (segment.opener.raw ++ t)] at hparse
    exact contains_of_opening (hplain _) hsplit.fit_front hsplit.inRoot List.not_mem_nil
      (hsplit.fits.spelled _ segment.opener_mem_events) (hkey ▸ hsplit.opens) hparse

/-- An edit behind the tag of an entry leaves the entry. -/
theorem OpensAt.of_splice
    {span : Span} {replacement : Text}
    (h : document.OpensAt key position lead)
    (hspan : position ≤ span.start)
    (hedit : document.splice span replacement = .ok edited) :
    edited.contains key.1 key.2 = true ∧ PlainStart edited.text := by
  rcases h.isPrefix with ⟨rest, hrest⟩
  rcases Nat.exists_eq_add_of_le (h.size_eq ▸ hspan) with ⟨count, hcount⟩
  have hnew : document.text.splice span replacement =
      lead ++ (Text.takeBytes count rest ++ replacement ++
        Text.dropBytes span.stop document.text) := by
    rw [Text.splice, hcount, ← hrest, Text.takeBytes_size_add]
    simp
  rw [splice, hnew] at hedit
  refine ⟨h.contains _ _ hedit, ?_⟩
  rw [text_of_parse hedit]
  exact h.plain _

/-- A line that begins with blanks does not begin before the end of the tag. -/
theorem OpensAt.le_lineStart
    {place : Nat}
    (h : document.OpensAt key position lead)
    (hplace : position ≤ place)
    (hline : document.text.startsLine place = true) :
    position ≤ document.text.lineStart place := by
  rcases h.isPrefix with ⟨rest, hrest⟩
  rcases Nat.exists_eq_add_of_le (h.size_eq ▸ hplace) with ⟨count, hcount⟩
  have hfront : Text.takeBytes place document.text = lead ++ Text.takeBytes count rest := by
    rw [hcount, ← hrest, Text.takeBytes_size_add]
  rcases Text.exists_append_lastLine (Text.takeBytes place document.text) with ⟨kept, hkept, _⟩
  rcases exists_append_of_getLast? h.last (hfront.symm.trans hkept)
    (Text.all_isSpace_of_isBlank hline) with ⟨kept', hkept', _⟩
  have hsize := congrArg Text.size hkept
  rw [Text.size_append, hkept', Text.size_append] at hsize
  rw [Text.lineStart, ← h.size_eq]
  omega

/-- A form is stored behind the tag of its element. -/
theorem contains_of_setQuantity
    {quantity : Quantity} {stored : Text}
    (hplain : PlainStart document.text)
    (hread : document.IsRead)
    (h : document.setQuantity id quantity stored = .ok edited) :
    edited.contains .plurals id = true ∧ PlainStart edited.text := by
  rcases exists_laidOut hplain hread with ⟨row, hlaid⟩
  unfold setQuantity at h
  split at h
  · cases h
  · rename_i node hfind
    rcases hlaid.exists_opensAt hfind with ⟨lead, hopens⟩
    have hexact := (exactIn_of_isRead hplain hread).exact_nodes node
      (List.mem_of_find?_eq_some hfind)
    split at h
    · rename_i item hitem
      have hmem := List.mem_of_find?_eq_some hitem
      have houter := (hexact.items_in.2 item.outer (List.mem_map_of_mem hmem)).1
      have hinner := (hexact.items_inner item hmem).1
      split at h
      · exact hopens.of_splice houter h
      · exact hopens.of_splice (houter.trans hinner) h
    · have hclose : node.inner.start ≤ node.inner.stop := by
        cases hclosed : node.selfClosing with
        | false => exact (hexact.tags hclosed).2.1
        | true => rw [hexact.closed hclosed]
      simp only at h
      split at h
      · rename_i hline
        exact hopens.of_splice (hopens.le_lineStart hclose hline) h
      · exact hopens.of_splice hclose h

/-- Forms that have been stored one after another are in an element that is still there. -/
theorem contains_of_setQuantities
    {items : List (Quantity × Text)} {outcome : EditOutcome}
    (hplain : PlainStart document.text)
    (hread : document.IsRead)
    (hcontains : document.contains .plurals id = true)
    (h : (document.setQuantities id items).result = .ok outcome) :
    (document.setQuantities id items).document.contains .plurals id = true := by
  induction items generalizing document with
  | nil => exact hcontains
  | cons item items ih =>
      rcases item with ⟨quantity, stored⟩
      rw [setQuantities] at h ⊢
      split at h
      · cases h
      · rename_i new hnew
        have hkept := contains_of_setQuantity hplain hread hnew
        exact ih hkept.2 (isRead_of_setQuantity hnew) hkept.1 h

/-- A value that has been stored is in a string that is still there. -/
theorem contains_replaceString
    {stored : Text}
    (hlaid : document.LaidOut row)
    (h : document.replaceString id stored = .ok edited) :
    edited.contains .string id = true := by
  rcases StringSite.exists_of_laidOut hlaid (contains_of_replaceString h) with
    ⟨site, _, hsite, _⟩
  have htext : site.textWith stored = Segments.raw site.front ++
      ([] ++ ((Event.startTag site.opening).raw ++
        (stored ++ (Event.endTag site.closing).raw ++ Segments.raw site.back))) := by
    simp [StringSite.textWith]
  have hplain := hsite.plain stored
  rw [htext] at hplain
  rw [hsite.replaceString_eq, htext] at h
  have hcontains := contains_of_opening hplain site.fit_front site.inRoot List.not_mem_nil
    site.spelled_opening (Cursor.opens_startTag site.named site.headed) h
  rwa [hsite.id_eq] at hcontains

end Kept

end Document
end AndroidStrings
