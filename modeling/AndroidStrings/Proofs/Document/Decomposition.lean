import Mathlib.Data.List.Basic
import AndroidStrings.Proofs.Document.Cursor
import AndroidStrings.Proofs.Document.ItemPlaces

/-!
# Reading a row of segments

## Main statement

`parse_raw` : the text of a row of segments that fit is read segment by segment.
-/

namespace AndroidStrings

open Markup

theorem slice_eq_of_append
    {text front middle back : Text} {start stop : Nat}
    (htext : text = front ++ middle ++ back)
    (hstart : start = front.size)
    (hstop : stop = start + middle.size) :
    text.slice ⟨start, stop⟩ = middle := by
  rw [htext, hstop, hstart]
  exact Text.slice_append front middle back

namespace Cursor

/-!
# Inside a body

The places of a body differ only in the number of elements that are open in it, so one lemma
serves them all.
-/

/-- Places that differ in their depth only, and that the events of a body lead through. -/
def IsBody (text : Text) (layout : Layout) (place : Nat -> Place) : Prop :=
  forall (depth deeper : Nat) (event : Event) (span : Span),
    Reader.bodyDepth? depth event = some deeper ->
      Reader.step text ⟨place depth, layout⟩ ⟨event, span⟩ = .ok ⟨place deeper, layout⟩

theorem isBody_string (text : Text) (layout : Layout) (entry : OpenEntry) :
    IsBody text layout (Place.string entry) := by
  intro depth deeper event span h
  simp [Reader.step, h, Reader.moveTo]

theorem isBody_other (text : Text) (layout : Layout) (name : Text) (start : Nat) :
    IsBody text layout (Place.other name start) := by
  intro depth deeper event span h
  simp [Reader.step, h, Reader.moveTo]

theorem isBody_item (text : Text) (layout : Layout) (entry : OpenEntry) (found : List ItemNode)
    (current : OpenItem) :
    IsBody text layout (Place.item entry found current) := by
  intro depth deeper event span h
  simp [Reader.step, h, Reader.moveTo]

theorem isBody_foreign (text : Text) (layout : Layout) (entry : OpenEntry)
    (found : List ItemNode) (name : Text) :
    IsBody text layout (Place.foreign entry found name) := by
  intro depth deeper event span h
  simp [Reader.step, h, Reader.moveTo]

theorem bodyDepth?_leaf {event : Event} (depth : Nat) (h : event.isLeaf = true) :
    Reader.bodyDepth? depth event = some depth := by
  cases event <;> first | rfl | simp [Event.isLeaf] at h

theorem openNames_endTag
    {opening closing : Text}
    (opened : List Text)
    (h : endTagName closing = tagName opening) :
    openNames (tagName opening :: opened) (.endTag closing) = .ok opened := by
  simp [openNames, h]

/-- A whole forest leaves the reader of a body where it was. -/
theorem foldlM_advance_body
    {text : Text} {layout : Layout} {place : Nat -> Place} {forest : Forest}
    (hplace : IsBody text layout place)
    (h : forest.WellFormed)
    (position : Nat) (opened : List Text) (depth : Nat) :
    forest.events.foldlM (advance text) ⟨position, opened, ⟨place depth, layout⟩⟩ =
      .ok ⟨position + forest.raw.size, opened, ⟨place depth, layout⟩⟩ := by
  induction forest generalizing position opened depth with
  | nil => simp [Forest.raw, pure, Except.pure]
  | leaf event rest ih =>
      have hstep := hplace depth depth event ⟨position, position + event.raw.size⟩
        (bodyDepth?_leaf depth h.1)
      simp only [Forest.events_leaf, List.foldlM_cons, advance, openNames_leaf h.1, hstep]
      simp only [Except.map, bind, Except.bind, ih h.2.2]
      simp [Forest.raw, Nat.add_assoc]
  | element opening inside closing rest ihinside ihrest =>
      have hopen := hplace depth (depth + 1) (.startTag opening)
        ⟨position, position + (Event.startTag opening).raw.size⟩ rfl
      simp only [Forest.events_element, List.foldlM_cons, advance, openNames, hopen]
      simp only [Except.map, bind, Except.bind, List.foldlM_append, ihinside h.2.1,
        List.foldlM_cons, advance, openNames_endTag opened h.1.2.2]
      have hclose := hplace (depth + 1) depth (.endTag closing)
        ⟨position + (Event.startTag opening).raw.size + inside.raw.size,
          position + (Event.startTag opening).raw.size + inside.raw.size +
            (Event.endTag closing).raw.size⟩ rfl
      simp only [hclose, ihrest h.2.2]
      simp [Forest.raw, Nat.add_assoc]

/-!
# Items and segments
-/

theorem advance_of_openNames
    {opened names : List Text} {event : Event}
    (text : Text) (position : Nat) (reader : Reader)
    (h : openNames opened event = .ok names) :
    advance text ⟨position, opened, reader⟩ event =
      (reader.step text ⟨event, ⟨position, position + event.raw.size⟩⟩).map fun moved =>
        ⟨position + event.raw.size, names, moved⟩ := by
  simp [advance, h]

/-- The forest inside an element with items is read item by item. -/
theorem foldlM_advance_items
    {forest : Forest}
    (text : Text) (layout : Layout) (entry : OpenEntry)
    (h : forest.WellFormed)
    (position : Nat) (opened : List Text) (found : List ItemNode) :
    forest.events.foldlM (advance text) ⟨position, opened, ⟨.items entry found, layout⟩⟩ =
      (itemsFrom entry.heading position forest).map fun items =>
        ⟨position + forest.raw.size, opened,
          ⟨.items entry (found ++ items.map ReadItem.node), layout⟩⟩ := by
  induction forest generalizing position found with
  | nil => simp [itemsFrom, Forest.raw, pure, Except.pure, Except.map]
  | leaf event rest ih =>
      simp only [Forest.events_leaf, List.foldlM_cons,
        advance_of_openNames text position _ (openNames_leaf h.1), Reader.step]
      cases event with
      | emptyTag content =>
          simp only [Reader.stepItems, itemsFrom]
          by_cases hname : tagName content = Reader.itemName
          · simp only [hname, if_true]
            cases itemQuantity entry.heading content with
            | error e => rfl
            | ok quantity =>
                simp only [Except.map, bind, Except.bind, Reader.moveTo, ih h.2.2]
                cases itemsFrom entry.heading _ rest with
                | error e => rfl
                | ok items => simp [Forest.raw, Nat.add_assoc]
          · simp only [hname, if_false, Except.map, bind, Except.bind, ih h.2.2]
            cases itemsFrom entry.heading _ rest with
            | error e => rfl
            | ok items => simp [Forest.raw, Nat.add_assoc]
      | startTag content => simp [Forest.WellFormed, Event.isLeaf] at h
      | endTag content => simp [Forest.WellFormed, Event.isLeaf] at h
      | _ =>
          simp only [Reader.stepItems, itemsFrom, Except.map, bind, Except.bind, ih h.2.2]
          cases itemsFrom entry.heading _ rest with
          | error e => rfl
          | ok items => simp [Forest.raw, Nat.add_assoc]
  | element opening inside closing rest _ ih =>
      have hend := openNames_endTag opened h.1.2.2
      simp only [Forest.events_element, List.foldlM_cons,
        advance_of_openNames text position _ (rfl : openNames opened (.startTag opening) = _),
        Reader.step, Reader.stepItems, itemsFrom]
      by_cases hname : tagName opening = Reader.itemName
      · simp only [hname, if_true]
        rw [hname] at hend
        cases itemQuantity entry.heading opening with
        | error e => rfl
        | ok quantity =>
            simp only [Except.map, bind, Except.bind, Reader.moveTo, List.foldlM_append,
              foldlM_advance_body (isBody_item text layout entry found _) h.2.1,
              List.foldlM_cons, advance_of_openNames text _ _ hend, Reader.step,
              Reader.bodyDepth?, ih h.2.2]
            cases itemsFrom entry.heading _ rest with
            | error e => rfl
            | ok items => simp [Forest.raw, Nat.add_assoc, Reader.closeItem]
      · simp only [hname, if_false, Except.map, bind, Except.bind, Reader.moveTo,
          List.foldlM_append, foldlM_advance_body (isBody_foreign text layout entry found _) h.2.1,
          List.foldlM_cons, advance_of_openNames text _ _ hend, Reader.step, Reader.bodyDepth?,
          ih h.2.2]
        cases itemsFrom entry.heading _ rest with
        | error e => rfl
        | ok items => simp [Forest.raw, Nat.add_assoc]

end Cursor

theorem itemsValue_eq_itemsEntryValue
    {text : Text} {items : List ReadItem}
    (kind : EntryKind)
    (h : forall item, item ∈ items -> text.slice item.node.inner = item.value) :
    Reader.itemsValue text kind (items.map ReadItem.node) = itemsEntryValue kind items := by
  have hvalues : (items.map ReadItem.node).map (fun item => text.slice item.inner) =
      items.map ReadItem.value := by
    rw [List.map_map]
    exact List.map_congr_left h
  have hforms : (items.map ReadItem.node).filterMap (fun item =>
      item.quantity.map fun quantity => (quantity, text.slice item.inner)) =
        items.filterMap fun item =>
          item.node.quantity.map fun quantity => (quantity, item.value) := by
    rw [List.filterMap_map]
    apply List.filterMap_congr
    intro item hitem
    simp [h item hitem]
  cases kind with
  | plurals => simp only [Reader.itemsValue, itemsEntryValue, hforms]
  | _ => simp only [Reader.itemsValue, itemsEntryValue, hvalues]

namespace Cursor

/-- The cursor at a place outside all elements or directly inside the root element. -/
def atRoot (inRoot : Bool) (position : Nat) (layout : Layout) : Cursor :=
  if inRoot then ⟨position, [Reader.rootName], ⟨.root, layout⟩⟩
  else ⟨position, [], ⟨.outside, layout⟩⟩

theorem advance_outer
    {event : Event}
    (text : Text) (position : Nat) (layout : Layout)
    (hleaf : event.isLeaf = true) :
    advance text ⟨position, [], ⟨.outside, layout⟩⟩ event =
      ((Segment.outer event).layoutAt position).map fun found =>
        ⟨position + event.raw.size, [], ⟨.outside, layout ++ found⟩⟩ := by
  rw [advance_of_openNames text position _ (openNames_leaf hleaf)]
  cases event with
  | emptyTag content =>
      by_cases hname : tagName content = Reader.rootName
      · simp [Reader.step, Reader.stepOutside, Segment.layoutAt, hname, Except.map,
          Layout.append_def]
      · simp [Reader.step, Reader.stepOutside, Segment.layoutAt, hname, Except.map]
  | startTag content => simp [Event.isLeaf] at hleaf
  | _ =>
      simp [Reader.step, Reader.stepOutside, Segment.layoutAt, Except.map, Layout.append_def]

theorem advance_inner
    {event : Event}
    (text : Text) (position : Nat) (layout : Layout)
    (hleaf : event.isLeaf = true) :
    advance text ⟨position, [Reader.rootName], ⟨.root, layout⟩⟩ event =
      ((Segment.inner event).layoutAt position).map fun found =>
        ⟨position + event.raw.size, [Reader.rootName], ⟨.root, layout ++ found⟩⟩ := by
  rw [advance_of_openNames text position _ (openNames_leaf hleaf)]
  cases event with
  | emptyTag content =>
      cases hkind : EntryKind.ofTag? (tagName content) with
      | none =>
          simp [Reader.step, Reader.stepRoot, Segment.layoutAt, hkind, Reader.addOther,
            Except.map, Layout.append_def]
      | some kind =>
          cases hheading : Heading.ofTag kind content with
          | error e =>
              simp [Reader.step, Reader.stepRoot, Segment.layoutAt, hkind, hheading, Except.map]
          | ok heading =>
              simp [Reader.step, Reader.stepRoot, Segment.layoutAt, hkind, hheading,
                Reader.addNode, Except.map, Layout.append_def]
  | startTag content => simp [Event.isLeaf] at hleaf
  | endTag content => simp [Event.isLeaf] at hleaf
  | _ =>
      simp [Reader.step, Reader.stepRoot, Segment.layoutAt, Reader.addComment, Except.map,
        Layout.append_def]

/-- An element directly inside the root element is read as what its kind makes of it. -/
theorem foldlM_advance_element
    {opening closing : Text} {inside : Forest} {text front back : Text} {position : Nat}
    (layout : Layout)
    (hwell : (Forest.element opening inside closing .nil).WellFormed)
    (htext : text = front ++ (Segment.element opening inside closing).raw ++ back)
    (hposition : position = front.size) :
    (Segment.element opening inside closing).events.foldlM (advance text)
        ⟨position, [Reader.rootName], ⟨.root, layout⟩⟩ =
      ((Segment.element opening inside closing).layoutAt position).map fun found =>
        ⟨position + (Segment.element opening inside closing).raw.size, [Reader.rootName],
          ⟨.root, layout ++ found⟩⟩ := by
  have hend := openNames_endTag [Reader.rootName] hwell.1.2.2
  have hsplit : text = (front ++ (Event.startTag opening).raw) ++ inside.raw ++
      ((Event.endTag closing).raw ++ back) := by
    rw [htext]
    simp
  have hinside : position + (Event.startTag opening).raw.size =
      (front ++ (Event.startTag opening).raw).size := by
    rw [hposition, Text.size_append]
  simp only [Segment.events, List.foldlM_cons,
    advance_of_openNames text position _
      (rfl : openNames [Reader.rootName] (.startTag opening) = _),
    Reader.step, Reader.stepRoot, Segment.layoutAt]
  cases hkind : EntryKind.ofTag? (tagName opening) with
  | none =>
      simp only [Except.map, bind, Except.bind, Reader.moveTo, List.foldlM_append,
        foldlM_advance_body (isBody_other text layout _ _) hwell.2.1, List.foldlM_cons,
        advance_of_openNames text _ _ hend, Reader.step, Reader.bodyDepth?,
        Reader.addOther, List.foldlM_nil, pure, Except.pure]
      simp [Nat.add_assoc, Layout.append_def]
  | some kind =>
      simp only [elementNode]
      cases hheading : Heading.ofTag kind opening with
      | error e => rfl
      | ok heading =>
          cases kind with
          | string =>
              simp only [Except.map, bind, Except.bind, Reader.moveTo, List.foldlM_append,
                foldlM_advance_body (isBody_string text layout _) hwell.2.1,
                List.foldlM_cons, advance_of_openNames text _ _ hend, Reader.step,
                Reader.bodyDepth?, Reader.addNode, Reader.Node.ofString, List.foldlM_nil,
                pure, Except.pure, slice_eq_of_append hsplit hinside rfl]
              simp [Nat.add_assoc, Layout.append_def]
          | _ =>
              simp only [Except.map, bind, Except.bind, Reader.moveTo, List.foldlM_append,
                foldlM_advance_items text layout _ hwell.2.1]
              cases hitems : itemsFrom heading
                  (position + (Event.startTag opening).raw.size) inside with
              | error e => rfl
              | ok items =>
                  have hin := itemsIn_of_itemsFrom hitems ⟨_, _, hsplit, hinside, rfl⟩
                  have hslices : forall item, item ∈ items ->
                      text.slice item.node.inner = item.value :=
                    fun item hitem => (hin.inner_at item hitem).slice
                  simp only [List.nil_append, List.foldlM_cons,
                    advance_of_openNames text _ _ hend, Reader.step, Reader.stepItems,
                    Reader.addNode, Reader.Node.ofItems,
                    itemsValue_eq_itemsEntryValue heading.kind hslices, List.foldlM_nil,
                    Except.map, bind, Except.bind, pure, Except.pure]
                  simp [Nat.add_assoc, Layout.append_def]

theorem foldlM_advance_segment
    {inRoot : Bool} {segment : Segment} {text front back : Text} {position : Nat}
    (layout : Layout)
    (h : segment.Fits inRoot)
    (htext : text = front ++ segment.raw ++ back)
    (hposition : position = front.size) :
    segment.events.foldlM (advance text) (atRoot inRoot position layout) =
      (segment.layoutAt position).map fun found =>
        atRoot (segment.leads inRoot) (position + segment.raw.size) (layout ++ found) := by
  cases segment with
  | outer event =>
      rcases h with ⟨hplace, hleaf, _⟩
      subst hplace
      simp [Segment.events, Segment.leads, atRoot, advance_outer text position layout hleaf]
  | rootOpen content =>
      rcases h with ⟨hplace, _, hname⟩
      subst hplace
      have hopen : openNames [] (.startTag content) = .ok [Reader.rootName] := by
        simp [openNames, hname]
      simp [Segment.events, atRoot, advance_of_openNames text position _ hopen, Reader.step,
        Segment.leads, Reader.stepOutside, hname, Segment.layoutAt, Except.map, bind, Except.bind,
        pure, Except.pure, Layout.append_def]
  | rootClose content =>
      rcases h with ⟨hplace, _, hname⟩
      subst hplace
      have hclose : openNames [Reader.rootName] (.endTag content) = .ok [] := by
        simp [openNames, hname]
      simp [Segment.events, atRoot, advance_of_openNames text position _ hclose, Reader.step,
        Segment.leads, Reader.stepRoot, Segment.layoutAt, Except.map, bind, Except.bind, pure,
        Except.pure, Layout.append_def]
  | inner event =>
      rcases h with ⟨hplace, hleaf, _⟩
      subst hplace
      simp [Segment.events, Segment.leads, atRoot, advance_inner text position layout hleaf]
  | element opening inside closing =>
      rcases h with ⟨hplace, hwell⟩
      subst hplace
      exact foldlM_advance_element layout hwell htext hposition

/-- A row of segments adds its layout to what was read before it. -/
theorem foldlM_advance_segments
    {inRoot : Bool} {segments : List Segment} {text front back : Text} {position : Nat}
    (layout : Layout)
    (h : Segments.Fit inRoot segments)
    (htext : text = front ++ Segments.raw segments ++ back)
    (hposition : position = front.size) :
    (Segments.events segments).foldlM (advance text) (atRoot inRoot position layout) =
      (Segments.layoutFrom position segments).map fun found =>
        atRoot (Segments.leads inRoot segments) (position + (Segments.raw segments).size)
          (layout ++ found) := by
  induction segments generalizing inRoot front position layout with
  | nil => simp [Segments.events, Segments.layoutFrom, Segments.leads, Except.map, pure,
      Except.pure]
  | cons segment segments ih =>
      have hfirst : text = front ++ segment.raw ++ (Segments.raw segments ++ back) := by
        rw [htext]
        simp
      have hrest : text = (front ++ segment.raw) ++ Segments.raw segments ++ back := by
        rw [htext]
        simp
      have hstop : position + segment.raw.size = (front ++ segment.raw).size := by
        rw [hposition, Text.size_append]
      have hsplit : Segments.events (segment :: segments) =
          segment.events ++ Segments.events segments := rfl
      rw [hsplit, List.foldlM_append, foldlM_advance_segment layout h.1 hfirst hposition]
      simp only [Segments.layoutFrom]
      cases segment.layoutAt position with
      | error e => rfl
      | ok found =>
          simp only [Except.map, bind, Except.bind, ih (layout ++ found) h.2 hrest hstop]
          cases Segments.layoutFrom (position + segment.raw.size) segments with
          | error e => rfl
          | ok others =>
              simp [Segments.leads, Layout.append_assoc, Nat.add_assoc]

end Cursor

namespace Document

/-- A text that is a row of segments is read segment by segment. -/
theorem parse_raw
    {segments : List Segment}
    (hplain : PlainStart (Segments.raw segments))
    (h : Segments.Fit false segments) :
    parse (Segments.raw segments) =
      (Segments.layoutFrom 0 segments).map fun layout => ⟨Segments.raw segments, layout⟩ := by
  have htext : Segments.raw segments = [] ++ Segments.raw segments ++ [] := by
    simp
  have hfold := Cursor.foldlM_advance_segments {} h htext (rfl : 0 = Text.size [])
  rw [parse_eq_of_spell hplain h.spelled (Segments.spell_events segments)]
  show ((Segments.events segments).foldlM (Cursor.advance _) (Cursor.atRoot false 0 {}) >>=
    _).map _ = _
  rw [hfold]
  cases Segments.layoutFrom 0 segments with
  | error e => rfl
  | ok layout =>
      cases hleads : Segments.leads false segments <;>
        simp [Except.map, bind, Except.bind, Cursor.atRoot, Reader.finish]

end Document
end AndroidStrings
