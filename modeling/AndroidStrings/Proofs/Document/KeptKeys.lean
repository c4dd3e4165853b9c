import AndroidStrings.Proofs.Document.Insertion
import AndroidStrings.Proofs.Document.PluralForms
import AndroidStrings.Proofs.Document.Store

/-!
# Keys of a row

A document has the keys of the segments of its row.  The key of an element is in its opening tag
and not in what stands behind it, so a value that is stored in an element leaves the keys of the
row.

## Main statements

- `Alike.exchange` : a block of the same key in the place of a block.
- `LaidOut.exists_store` : a value is stored in a string, in its place in the row.
- `LaidOut.exists_insertedEntry`, `LaidOut.exists_inserted` : a new element adds its entry, and its
  key.
- `LaidOut.exists_storeForms` : forms are stored in a plurals element.
-/

namespace AndroidStrings

open Markup

/-- The blocks with a key are the entries. -/
theorem Layout.filterMap_key_blocks (layout : Layout) :
    layout.blocks.filterMap Document.Block.key =
      (layout.nodes.map Node.entry).map Entry.key := by
  have hothers : layout.others.filterMap
      (Document.Block.key ∘ fun span => (⟨none, span⟩ : Document.Block)) = [] :=
    List.filterMap_eq_nil_iff.mpr fun _ _ => rfl
  rw [blocks, List.filterMap_append, List.filterMap_map, List.filterMap_map, hothers,
    List.append_nil, List.map_map, ← List.filterMap_eq_map]
  rfl

namespace Segment

theorem selfClosing_of_elementNode
    {kind : EntryKind} {start : Nat} {opening closing : Text} {inside : Forest} {node : Node}
    (h : elementNode kind start opening inside closing = .ok node) :
    node.selfClosing = false := by
  unfold elementNode at h
  split at h
  · cases h
  · cases kind with
    | string =>
        rw [Except.ok.injEq] at h
        rw [← h]
    | _ =>
        rcases Success.map_eq_ok_iff.mp h with ⟨items, _, heq⟩
        rw [← heq]

/-- A block makes up the entry that its opening tag says. -/
theorem keys_of_isBlock
    {segment : Segment}
    (hblock : segment.isBlock = true)
    (h : segment.Readable) :
    segment.entries.map Entry.key = segment.key?.toList := by
  rcases h with ⟨found, hfound⟩
  have hkeys := found.filterMap_key_blocks
  rw [(layoutAt_of_isBlock hblock hfound).1, entries_of_layoutAt hfound] at hkeys
  rw [← hkeys, blockAt]
  cases segment.key? <;> rfl

theorem isBlock_of_key?
    {segment : Segment} {key : EntryKind.Key}
    (h : segment.key? = some key) :
    segment.isBlock = true := by
  cases segment with
  | element opening inside closing => rfl
  | inner event =>
      cases event with
      | emptyTag content => rfl
      | _ => cases h
  | _ => cases h

end Segment

namespace Segments

def keys (row : List Segment) : List EntryKind.Key :=
  row.flatMap fun segment => segment.entries.map Entry.key

@[simp] theorem keys_append (front back : List Segment) :
    keys (front ++ back) = keys front ++ keys back :=
  List.flatMap_append

@[simp] theorem keys_cons (segment : Segment) (row : List Segment) :
    keys (segment :: row) = segment.entries.map Entry.key ++ keys row := rfl

/-- Rows with the same keys and the same tags of the root element. -/
structure Alike (row row' : List Segment) : Prop where
  keys : keys row' = keys row
  rootMarks : rootMarks row' = rootMarks row

/-- A block of the same key in the place of a block. -/
theorem Alike.exchange
    {front back : List Segment} {segment segment' : Segment}
    (hblock : segment.isBlock = true)
    (hblock' : segment'.isBlock = true)
    (hreadable : segment.Readable)
    (hreadable' : segment'.Readable)
    (hkey : segment'.key? = segment.key?) :
    Alike (front ++ segment :: back) (front ++ segment' :: back) where
  keys := by
    simp only [keys_append, keys_cons, Segment.keys_of_isBlock hblock hreadable,
      Segment.keys_of_isBlock hblock' hreadable', hkey]
  rootMarks := by
    simp only [rootMarks_append, rootMarks_cons, Segment.rootMarks_of_isBlock hblock,
      Segment.rootMarks_of_isBlock hblock']

/-- The row with a forest for the value of the first string of an id. -/
def store (id : Text) (inside : Forest) : List Segment -> List Segment
  | [] => []
  | segment :: rest =>
      if segment.key? = some (.string, id) then segment.withInside inside :: rest
      else segment :: store id inside rest

theorem store_append
    {id : Text} {front : List Segment} {segment : Segment}
    (hfront : forall other, other ∈ front -> other.key? ≠ some (.string, id))
    (hkey : segment.key? = some (.string, id))
    (inside : Forest) (back : List Segment) :
    store id inside (front ++ segment :: back) = front ++ segment.withInside inside :: back := by
  induction front with
  | nil => rw [List.nil_append, store, if_pos hkey, List.nil_append]
  | cons other front ih =>
      have hother := hfront other (by simp)
      have hrest := ih (List.forall_mem_cons.mp hfront).2
      rw [List.cons_append, store, if_neg hother, hrest, List.cons_append]

end Segments

namespace StringSite

/-- No segment in front of the first string of an id has its key. -/
theorem Locates.key?_ne
    {site : StringSite} {document : Document} {id : Text}
    (h : site.Locates document id) :
    forall other, other ∈ site.front -> other.key? ≠ some (.string, id) := by
  intro other hother hkey
  have hkeys := Segment.keys_of_isBlock (Segment.isBlock_of_key? hkey)
    (Segments.readable_of_layoutFrom site.reads_front other hother)
  rw [hkey] at hkeys
  have hmem : (EntryKind.string, id) ∈ (site.front.flatMap Segment.entries).map Entry.key := by
    rw [List.map_flatMap, List.mem_flatMap]
    exact ⟨other, hother, by rw [hkeys]; exact List.mem_singleton_self _⟩
  rw [← Segments.entries_of_layoutFrom site.reads_front, List.map_map] at hmem
  rcases List.mem_map.mp hmem with ⟨node, hnode, heq⟩
  rw [Function.comp_apply, Entry.key, Prod.mk.injEq] at heq
  have hnot := List.find?_eq_none.mp h.first node hnode
  exact hnot (by simp [isString, Node.kind, Node.id, heq.1, heq.2])

end StringSite

namespace Document

open Segments

theorem mem_order_iff {document : Document} {kind : EntryKind} {id : Text} :
    (kind, id) ∈ document.order ↔ document.contains kind id = true := by
  rw [order, entries, List.map_map, List.mem_map, contains, find?, List.find?_isSome]
  constructor
  · rintro ⟨node, hnode, hkey⟩
    rw [Function.comp_apply, Entry.key, Prod.mk.injEq] at hkey
    exact ⟨node, hnode, by simp [Node.kind, Node.id, hkey.1, hkey.2]⟩
  · rintro ⟨node, hnode, hsame⟩
    simp only [Bool.and_eq_true, beq_iff_eq] at hsame
    exact ⟨node, hnode, Prod.ext hsame.1 hsame.2⟩

section Row

variable {document : Document} {row : List Segment} {id : Text} {node : Node}

theorem LaidOut.order_eq (h : document.LaidOut row) : document.order = keys row := by
  rw [order, h.entries_eq, List.map_flatMap]
  rfl

/-!
# Strings
-/

theorem LaidOut.contains_of_key?
    {segment : Segment} {kind : EntryKind}
    (h : document.LaidOut row)
    (hmem : segment ∈ row)
    (hkey : segment.key? = some (kind, id)) :
    document.contains kind id = true := by
  have hkeys := Segment.keys_of_isBlock (Segment.isBlock_of_key? hkey) (h.readable segment hmem)
  rw [← mem_order_iff, h.order_eq, Segments.keys, List.mem_flatMap]
  exact ⟨segment, hmem, by rw [hkeys, hkey]; exact List.mem_singleton_self _⟩

/-- The element of a string is the first block with its key. -/
theorem LaidOut.slice_outer
    {front back : List Segment} {segment : Segment}
    (h : document.LaidOut (front ++ segment :: back))
    (hfind : document.find? .string id = some node)
    (hkey : segment.key? = some (.string, id))
    (hfront : forall other, other ∈ front -> other.key? ≠ some (.string, id)) :
    document.slice node.outer = segment.raw := by
  rcases h.exists_nodeSplit hfind with ⟨front', segment', back', before, after, hrow, hsplit⟩
  have hmatch := matches_of_find? hfind
  have hreadable : forall other, other ∈ front' ++ segment' :: back' -> other.Readable := by
    rw [← hrow]
    exact h.readable
  have hkey' : segment'.key? = some (.string, id) := by
    have hkeys := Segment.keys_of_isBlock hsplit.isBlock (hreadable segment' (by simp))
    have hnode : node.entry.key = (.string, id) := Prod.ext hmatch.1 hmatch.2
    rw [hsplit.entries_segment, List.map_singleton, hnode, eq_comm,
      Option.toList_eq_singleton_iff] at hkeys
    exact hkeys
  have hfront' : forall other, other ∈ front' -> other.key? ≠ some (.string, id) := by
    intro other hother hsame
    have hkeys := Segment.keys_of_isBlock (Segment.isBlock_of_key? hsame)
      (hreadable other (by simp [hother]))
    rw [hsame] at hkeys
    rcases List.map_eq_singleton_iff.mp hkeys with ⟨entry, hentries, hentry⟩
    let isWanted : Entry -> Bool := fun entry => entry.kind == .string && entry.id == id
    have hnot : isWanted entry = false :=
      hsplit.not_wanted (fun _ => rfl) entry
        (List.mem_flatMap.mpr ⟨other, hother, by simp [hentries]⟩)
    rw [Entry.key, Prod.mk.injEq] at hentry
    simp [isWanted, hentry] at hnot
  let free : Segment -> Bool := fun other => other.key? != some (.string, id)
  have hfree : forall other, other ∈ front -> free other = true := by
    simpa [free] using hfront
  rcases eq_of_append_cons hfree (by simp [free, hkey]) (by simpa [free] using hfront')
    (by simp [free, hkey']) hrow with ⟨rfl, rfl, rfl⟩
  rw [hsplit.outer, Document.slice, hsplit.text, Text.slice_append]

/-- A balanced value is stored in its place in the row. -/
theorem LaidOut.exists_store
    {inside : Forest}
    (h : document.LaidOut row)
    (hcontains : document.contains .string id = true)
    (hwell : inside.WellFormed) :
    exists edited : Document,
      document.replaceString id inside.raw = .ok edited ∧
        edited.LaidOut (store id inside row) ∧ Alike row (store id inside row) := by
  rcases StringSite.exists_of_laidOut h hcontains with
    ⟨site, segment, hsite, rfl, hblock, hkey, hinside⟩
  have hsegment' := hinside inside
  have hkey' := Segment.key?_withInside hkey inside
  have hfits : (segment.withInside inside).Fits true := by
    rw [hsegment']
    exact ⟨rfl, ⟨site.spelled_opening, site.spelled_closing, site.closes⟩, hwell, trivial⟩
  have hreadable : (segment.withInside inside).Readable := by
    rw [hsegment']
    exact Segment.readable_of_layoutAt (site.layoutAt_element inside)
  have hblock' : (segment.withInside inside).isBlock = true := Segment.isBlock_of_key? hkey'
  rcases h.exists_exchange hblock hblock' hfits hreadable with ⟨edited, hedited, hlaid⟩
  rw [store_append hsite.key?_ne hkey]
  refine ⟨edited, ?_, hlaid, .exchange hblock hblock' (h.readable segment (by simp)) hreadable
    (hkey'.trans hkey.symm)⟩
  rw [hsite.replaceString_eq, ← hedited, hsegment']
  simp [StringSite.textWith]

/-- A value is stored in a string. -/
theorem LaidOut.exists_replaceString
    {stored : Text}
    (h : document.LaidOut row)
    (hcontains : document.contains .string id = true)
    (hstored : Balanced stored) :
    exists (edited : Document) (row' : List Segment),
      document.replaceString id stored = .ok edited ∧ edited.LaidOut row' ∧ Alike row row' := by
  rcases hstored with ⟨forest, hwell, rfl⟩
  rcases h.exists_store hcontains hwell with ⟨edited, hedited, hlaid, halike⟩
  exact ⟨edited, _, hedited, hlaid, halike⟩

/-!
# New elements
-/

/-- A new element adds its entry, somewhere among the others. -/
theorem LaidOut.exists_insertedEntry
    {edited : Document} {segment : Segment} {entry : Entry}
    (h : document.LaidOut row)
    (hblock : segment.isBlock = true)
    (hfits : segment.Fits true)
    (hentries : segment.entries = [entry])
    (hedit : document.insertEntry segment.raw = .ok edited) :
    exists (row' : List Segment) (front back : List Entry),
      edited.LaidOut row' ∧ rootMarks row' = rootMarks row ∧ document.entries = front ++ back ∧
        edited.entries = front ++ entry :: back := by
  have hreadable : segment.Readable :=
    Segment.readable_of_entries (by rw [hentries]; exact List.cons_ne_nil _ _)
  cases hclose : document.rootCloseStart with
  | error fault =>
      rw [insertEntry, hclose] at hedit
      cases hedit
  | ok close =>
      rcases h.exists_insertEntry hclose hblock hfits hreadable with
        ⟨edited', front, back, row', hedited, hlaid, hrow, hrow'⟩
      rw [hedit, Except.ok.injEq] at hedited
      rw [← hedited] at hlaid
      have hsolid := flatMap_solid (f := Segment.entries) fun _ => Segment.entries_of_isText
      refine ⟨row', front.flatMap Segment.entries, back.flatMap Segment.entries, hlaid, ?_, ?_, ?_⟩
      · rw [← rootMarks_solid, hrow', ← rootMarks_solid row, hrow, rootMarks_append,
          rootMarks_cons, Segment.rootMarks_of_isBlock hblock, List.nil_append, rootMarks_append]
      · rw [h.entries_eq, ← hsolid row, hrow, List.flatMap_append, hsolid, hsolid]
      · rw [hlaid.entries_eq, ← hsolid row', hrow', List.flatMap_append, List.flatMap_cons, hsolid,
          hsolid, hentries, List.singleton_append]

/-- A new element adds its key, somewhere in the order. -/
theorem LaidOut.exists_inserted
    {edited : Document} {segment : Segment} {entry : Entry}
    (h : document.LaidOut row)
    (hblock : segment.isBlock = true)
    (hfits : segment.Fits true)
    (hentries : segment.entries = [entry])
    (hedit : document.insertEntry segment.raw = .ok edited) :
    exists (row' : List Segment) (front back : List EntryKind.Key),
      edited.LaidOut row' ∧ rootMarks row' = rootMarks row ∧ document.order = front ++ back ∧
        edited.order = front ++ entry.key :: back := by
  rcases h.exists_insertedEntry hblock hfits hentries hedit with
    ⟨row', front, back, hlaid, hmarks, hbefore, hafter⟩
  refine ⟨row', front.map Entry.key, back.map Entry.key, hlaid, hmarks, ?_, ?_⟩
  · rw [order, hbefore, List.map_append]
  · rw [order, hafter, List.map_append, List.map_cons]

/-!
# Forms of plurals
-/

/-- The tags of a plurals element that does not close itself. -/
theorem LaidOut.exists_pluralsSite
    (h : document.LaidOut row)
    (hfind : document.find? .plurals id = some node)
    (hopen : node.selfClosing = false) :
    exists (site : PluralsSite) (inside : Forest),
      row = site.rowWith inside ∧ site.heading.id = id := by
  have hmatch := matches_of_find? hfind
  rcases h.exists_nodeSplit hfind with ⟨front, segment, back, before, after, rfl, hsplit⟩
  rcases hsplit.form with ⟨opening, inside, closing, rfl, hname, hmade⟩ | ⟨_, _, _, _, _, hnode⟩
  · rw [hmatch.1] at hname hmade
    rcases Segment.entry_of_elementNode hmade with ⟨_, heading, hheading, hkey⟩
    have hheadingId : heading.id = id := (congrArg Prod.snd hkey).symm.trans hmatch.2
    let site : PluralsSite :=
      { front, opening, closing, back, heading
        named := hname
        headed := hheading
        first := hheadingId ▸ hsplit.not_wanted fun _ => rfl }
    exact ⟨site, inside, rfl, hheadingId⟩
  · rw [hnode] at hopen
    cases hopen

/-- A plurals element that closes itself is written anew, in its place in the row. -/
theorem LaidOut.exists_rewrittenPlurals
    {forms : List (Quantity × Text)}
    (h : document.LaidOut row)
    (hfind : document.find? .plurals id = some node)
    (hclosed : node.selfClosing = true)
    (hid : IsVerbatim id)
    (hforms : forall form, form ∈ forms -> Balanced form.2) :
    exists (edited : Document) (front : List Segment) (segment segment' : Segment)
        (back : List Segment),
      document.splice node.outer (pluralsElement id forms document.lineEnding) = .ok edited ∧
        row = front ++ segment :: back ∧ edited.LaidOut (front ++ segment' :: back) ∧
        Alike row (front ++ segment' :: back) ∧
        segment'.entries = [⟨id, .plural (.ofList forms), true⟩] ∧
        forall entry, entry ∈ front.flatMap Segment.entries ->
          (entry.kind == .plurals && entry.id == id) = false := by
  have hmatch := matches_of_find? hfind
  rcases h.exists_nodeSplit hfind with ⟨front, segment, back, before, after, rfl, hsplit⟩
  rcases hsplit.form with ⟨_, _, _, _, _, hmade⟩ |
    ⟨content, heading, rfl, hname, hheading, hnode⟩
  · rw [Segment.selfClosing_of_elementNode hmade] at hclosed
    cases hclosed
  · rw [hmatch.1] at hname hheading
    have hheadingId : heading.id = id := by
      rw [← hmatch.2, hnode]
      rfl
    rcases exists_forests hforms with ⟨items, rfl, hitems⟩
    let segment' := Segment.newPlurals id document.lineEnding items
    have hentries := Segment.entries_newPlurals document.lineEnding items hid
    have hreadable : segment'.Readable := by
      apply Segment.readable_of_entries
      simp [segment', hentries]
    have hkey : segment'.key? = (Segment.inner (.emptyTag content)).key? := by
      simp only [Segment.key?, Segment.tag, Segment.content, segment', Segment.newPlurals,
        tagName_nameTag _ hid.noQuote, hname, EntryKind.ofTag?_tag, heading_nameTag _ hid, hheading,
        hheadingId]
    rcases h.exists_exchange hsplit.isBlock rfl (Segment.fits_newPlurals hid.noQuote hitems)
      hreadable with ⟨edited, hedited, hlaid⟩
    refine ⟨edited, front, _, segment', back, ?_, rfl, hlaid,
      .exchange hsplit.isBlock rfl (h.readable _ (by simp)) hreadable hkey, hentries,
      hsplit.not_wanted fun _ => rfl⟩
    rw [← Segment.raw_newPlurals, splice, hsplit.outer, hsplit.text, Text.splice_append, hedited]

/-- Forms are stored in a plurals element, which is written anew if it closes itself. -/
theorem LaidOut.exists_storeForms
    {forms : List (Quantity × Text)}
    (h : document.LaidOut row)
    (hfind : document.find? .plurals id = some node)
    (hid : IsVerbatim id)
    (hforms : forall form, form ∈ forms -> Balanced form.2) :
    exists (edited : Document) (row' : List Segment),
      (if node.selfClosing then
        document.whole
          (document.splice node.outer (pluralsElement id forms document.lineEnding))
      else document.setQuantities id forms) = ⟨edited, .ok .applied⟩ ∧
        edited.LaidOut row' ∧ Alike row row' := by
  cases hself : node.selfClosing with
  | true =>
      rcases h.exists_rewrittenPlurals hfind hself hid hforms with
        ⟨edited, front, _, segment', back, hedited, _, hlaid, halike, _⟩
      refine ⟨edited, _, ?_, hlaid, halike⟩
      rw [if_pos rfl, hedited]
      rfl
  | false =>
      rcases h.exists_pluralsSite hfind hself with ⟨site, inside, rfl, rfl⟩
      rcases PluralsSite.exists_reads h with ⟨_, _, old, hreads⟩
      rcases PluralsSite.exists_setQuantities h (hasForms_of_itemsFrom hreads.read hreads.forms_eq)
        hforms with ⟨edited, inside', hedited, hlaid, _⟩
      rw [if_neg Bool.false_ne_true]
      refine ⟨edited, _, hedited, hlaid, ?_⟩
      exact .exchange rfl rfl (h.readable _ (by simp [PluralsSite.rowWith]))
        (hlaid.readable _ (by simp [PluralsSite.rowWith])) rfl

end Row

end Document
end AndroidStrings
