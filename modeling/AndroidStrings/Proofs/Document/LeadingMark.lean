import AndroidStrings.Document.Edit
import AndroidStrings.Proofs.Document.CheckedReading
import AndroidStrings.Proofs.Document.Shift

/-!
# A mark for the byte order in front

The scan passes over one mark for the byte order without counting its bytes, so behind it every
place is noted down three bytes too early.  The reader accepts what it accepts without the mark,
and finds the same entries at the same places, but the values that it takes out of the text are
those that stand three bytes earlier.  Of two marks the second one is counted as text.

## Main statements

- `checkedParse_eq_some_iff` : what it takes to read a text without a cut out of range.
- `checkedParse_mark_iff` : what is read behind one more mark.
- `sayTheSame_mark_iff` : when one more mark changes nothing that is read.
-/

namespace AndroidStrings

open Markup

/-!
# Places moved to another text
-/

def Markup.Located.shift (offset : Nat) (located : Located) : Located :=
  ⟨located.event, located.span.shift offset⟩

def OpenEntry.shift (offset : Nat) (entry : OpenEntry) : OpenEntry :=
  { entry with
    outerStart := entry.outerStart + offset
    innerStart := entry.innerStart + offset }

def OpenItem.shift (offset : Nat) (item : OpenItem) : OpenItem :=
  { item with
    outerStart := item.outerStart + offset
    innerStart := item.innerStart + offset }

def Place.shift (offset : Nat) : Place → Place
  | .outside => .outside
  | .root => .root
  | .other name start depth => .other name (start + offset) depth
  | .string entry depth => .string (entry.shift offset) depth
  | .items entry found => .items (entry.shift offset) (found.map (ItemNode.shift offset))
  | .item entry found current depth =>
      .item (entry.shift offset) (found.map (ItemNode.shift offset)) (current.shift offset) depth
  | .foreign entry found name depth =>
      .foreign (entry.shift offset) (found.map (ItemNode.shift offset)) name depth

namespace Node

/-- The value that stands at the places of an entry in a text. -/
def valueIn (text : Text) (node : Node) : EntryValue :=
  match node.kind with
  | .string => .singular (text.slice node.inner)
  | kind => Reader.itemsValue text kind node.items

/-- The spans that the reader takes the value from.  A self-closing element has none. -/
def cuts (node : Node) : List Span :=
  if node.selfClosing then []
  else
    match node.kind with
    | .string => [node.inner]
    | _ => node.items.map ItemNode.inner

/-- The entry at the same places moved by an offset, with the value that stands there. -/
def relocated (offset : Nat) (text : Text) (node : Node) : Node :=
  let moved := node.shift offset
  { moved with entry := { moved.entry with value := moved.valueIn text } }

end Node

namespace Layout

def relocated (offset : Nat) (text : Text) (layout : Layout) : Layout :=
  { layout.shift offset with nodes := layout.nodes.map (Node.relocated offset text) }

def cuts (layout : Layout) : List Span :=
  layout.nodes.flatMap Node.cuts

end Layout

namespace Reader

def relocated (offset : Nat) (text : Text) (reader : Reader) : Reader :=
  ⟨reader.place.shift offset, reader.layout.relocated offset text⟩

end Reader

theorem Text.slice_empty (t : Text) (position : Nat) : t.slice ⟨position, position⟩ = [] := by
  rw [slice, Nat.sub_self, takeBytes_zero]

/-!
# One event
-/

namespace Reader

theorem ofString_relocated (text text' : Text) (offset : Nat) (entry : OpenEntry)
    (closing : Span) :
    Node.ofString text' (entry.shift offset) (closing.shift offset) =
      (Node.ofString text entry closing).relocated offset text' :=
  rfl

theorem ofItems_relocated (text text' : Text) (offset : Nat) (entry : OpenEntry)
    (found : List ItemNode) (closing : Span) :
    Node.ofItems text' (entry.shift offset) (found.map (ItemNode.shift offset))
        (closing.shift offset) =
      (Node.ofItems text entry found closing).relocated offset text' := by
  rcases entry with ⟨⟨kind, id, translatable⟩, outerStart, innerStart⟩
  cases kind <;> rfl

theorem ofEmptyTag_relocated (text' : Text) (offset : Nat) (heading : Heading) (span : Span) :
    Node.ofEmptyTag heading (span.shift offset) =
      (Node.ofEmptyTag heading span).relocated offset text' := by
  rcases heading with ⟨kind, id, translatable⟩
  cases kind with
  | string =>
      have hempty : text'.slice ⟨span.stop + offset, span.stop + offset⟩ = [] :=
        Text.slice_empty text' _
      simp [Node.ofEmptyTag, Node.relocated, Node.valueIn, Node.kind, Node.shift, Span.shift,
        Entry.kind, EntryValue.kind, emptyValue, hempty]
  | _ => rfl

theorem stepOutside_relocated (text' : Text) (offset : Nat) (reader : Reader) (event : Event)
    (span : Span) (hplace : reader.place = .outside) :
    stepOutside (reader.relocated offset text') event (span.shift offset) =
      (stepOutside reader event span).map (relocated offset text') := by
  rcases reader with ⟨place, layout⟩
  subst hplace
  unfold stepOutside
  cases event with
  | startTag content =>
      simp only
      split
      · rfl
      · rfl
  | emptyTag content =>
      simp only
      split
      · rfl
      · rfl
  | _ => rfl

theorem stepRoot_relocated (text' : Text) (offset : Nat) (reader : Reader) (event : Event)
    (span : Span) (hplace : reader.place = .root) :
    stepRoot (reader.relocated offset text') event (span.shift offset) =
      (stepRoot reader event span).map (relocated offset text') := by
  rcases reader with ⟨place, layout⟩
  subst hplace
  unfold stepRoot
  cases event with
  | startTag content =>
      simp only
      cases EntryKind.ofTag? (tagName content) with
      | none => rfl
      | some kind =>
          simp only
          cases Heading.ofTag kind content with
          | error e => rfl
          | ok heading => cases kind <;> rfl
  | emptyTag content =>
      simp only
      cases EntryKind.ofTag? (tagName content) with
      | none => simp [relocated, addOther, Layout.relocated, Layout.shift, Place.shift, Except.map]
      | some kind =>
          simp only
          cases Heading.ofTag kind content with
          | error e => rfl
          | ok heading =>
              simp [relocated, addNode, Layout.relocated, Layout.shift, Place.shift, Except.map,
                ofEmptyTag_relocated text' offset]
  | comment content =>
      simp [relocated, addComment, Layout.relocated, Layout.shift, Place.shift, Except.map]
  | _ => rfl

theorem stepItems_relocated (text text' : Text) (offset : Nat) (reader : Reader)
    (entry : OpenEntry) (found : List ItemNode) (event : Event) (span : Span)
    (hplace : reader.place = .items entry found) :
    stepItems text' (reader.relocated offset text') (entry.shift offset)
        (found.map (ItemNode.shift offset)) event (span.shift offset) =
      (stepItems text reader entry found event span).map (relocated offset text') := by
  rcases reader with ⟨place, layout⟩
  subst hplace
  have hquantity : forall content : Text,
      itemQuantity (entry.shift offset).heading content = itemQuantity entry.heading content :=
    fun _ => rfl
  unfold stepItems
  cases event with
  | startTag content =>
      simp only [hquantity]
      split
      · cases itemQuantity entry.heading content <;> rfl
      · rfl
  | emptyTag content =>
      simp only [hquantity]
      split
      · cases itemQuantity entry.heading content with
        | error e => rfl
        | ok quantity =>
            simp [relocated, moveTo, Place.shift, Except.map, ItemNode.shift, Span.shift]
      · rfl
  | endTag content =>
      simp [relocated, addNode, Layout.relocated, Layout.shift, Place.shift, Except.map,
        ofItems_relocated text text' offset]
  | _ => rfl

/-- The reader does the same at the places moved into another text, where it takes other
values. -/
theorem step_relocated (text text' : Text) (offset : Nat) (reader : Reader) (located : Located) :
    (reader.relocated offset text').step text' (located.shift offset) =
      (reader.step text located).map (relocated offset text') := by
  have hevent : (located.shift offset).event = located.event := rfl
  have hspan : (located.shift offset).span = located.span.shift offset := rfl
  have hmoved : (reader.relocated offset text').place = reader.place.shift offset := rfl
  unfold step
  simp only [hevent, hspan, hmoved]
  cases hplace : reader.place with
  | outside => exact stepOutside_relocated text' offset reader _ _ hplace
  | root => exact stepRoot_relocated text' offset reader _ _ hplace
  | items entry found =>
      exact stepItems_relocated text text' offset reader entry found _ _ hplace
  | string entry depth =>
      simp only [Place.shift]
      cases bodyDepth? depth located.event with
      | some deeper => rfl
      | none =>
          simp [relocated, addNode, Layout.relocated, Layout.shift, Place.shift, Except.map,
            ofString_relocated text text' offset]
  | other name start depth =>
      simp only [Place.shift]
      cases bodyDepth? depth located.event with
      | some deeper => rfl
      | none =>
          simp [relocated, addOther, Layout.relocated, Layout.shift, Place.shift, Except.map,
            Span.shift]
  | item entry found current depth =>
      simp only [Place.shift]
      cases bodyDepth? depth located.event with
      | some deeper => rfl
      | none =>
          simp [relocated, moveTo, Place.shift, Except.map, ItemNode.shift, Span.shift, closeItem,
            OpenItem.shift]
  | foreign entry found name depth =>
      simp only [Place.shift]
      cases bodyDepth? depth located.event with
      | some deeper => rfl
      | none => rfl

theorem foldlM_relocated (text text' : Text) (offset : Nat) (reader : Reader)
    (events : List Located) :
    (events.map (Located.shift offset)).foldlM (step text') (reader.relocated offset text') =
      (events.foldlM (step text) reader).map (relocated offset text') := by
  induction events generalizing reader with
  | nil => rfl
  | cons located events ih =>
      rw [List.map_cons, List.foldlM_cons, List.foldlM_cons, step_relocated text]
      cases reader.step text located with
      | error e => rfl
      | ok moved => exact ih moved

theorem finish_relocated (text' : Text) (offset : Nat) (reader : Reader) :
    (reader.relocated offset text').finish =
      reader.finish.map (Layout.relocated offset text') := by
  rcases reader with ⟨place, layout⟩
  cases place <;> rfl

/-!
# What the reader takes
-/

theorem cuts_relocated (text' : Text) (offset : Nat) (reader : Reader) (located : Located) :
    (reader.relocated offset text').cuts (located.shift offset) =
      (reader.cuts located).map (Span.shift offset) := by
  rcases reader with ⟨place, layout⟩
  rcases located with ⟨event, span⟩
  cases place with
  | string entry depth =>
      simp only [cuts, relocated, Place.shift, Located.shift]
      cases bodyDepth? depth event <;> rfl
  | items entry found =>
      cases event <;> simp [cuts, relocated, Place.shift, Located.shift, ItemNode.shift]
  | _ => rfl

theorem cuts_addNode (reader : Reader) (node : Node) :
    (reader.addNode node).layout.cuts = reader.layout.cuts ++ node.cuts := by
  simp [addNode, Layout.cuts]

theorem cuts_ofItems (text : Text) (entry : OpenEntry) (found : List ItemNode) (closing : Span) :
    (Node.ofItems text entry found closing).cuts = found.map ItemNode.inner := by
  rcases entry with ⟨⟨kind, id, translatable⟩, outerStart, innerStart⟩
  cases kind <;> rfl

/-- What the reader takes at an event are the spans of the entry that it adds. -/
theorem cuts_of_step
    {text : Text} {reader moved : Reader} {located : Located}
    (h : reader.step text located = .ok moved) :
    moved.layout.cuts = reader.layout.cuts ++ reader.cuts located := by
  rcases reader with ⟨place, layout⟩
  rcases located with ⟨event, span⟩
  unfold step at h
  cases place with
  | outside =>
      simp only [stepOutside] at h
      repeat' split at h
      all_goals simp only [Except.ok.injEq, reduceCtorEq] at h
      all_goals rw [← h]
      all_goals simp [cuts, Layout.cuts]
  | root =>
      simp only [stepRoot] at h
      repeat' split at h
      all_goals simp only [Except.ok.injEq, reduceCtorEq] at h
      all_goals rw [← h]
      all_goals simp [cuts, Layout.cuts, addNode, addOther, addComment, moveTo, Node.cuts,
        Node.ofEmptyTag]
  | items entry found =>
      simp only [stepItems] at h
      repeat' split at h
      all_goals simp only [Except.ok.injEq, reduceCtorEq] at h
      all_goals rw [← h]
      all_goals simp [cuts, cuts_addNode, cuts_ofItems, moveTo]
  | string entry depth =>
      simp only at h
      cases hdepth : bodyDepth? depth event with
      | some deeper =>
          rw [hdepth] at h
          rw [← Except.ok.inj h]
          simp [cuts, hdepth, moveTo]
      | none =>
          rw [hdepth] at h
          rw [← Except.ok.inj h, cuts_addNode]
          simp [cuts, hdepth, Node.cuts, Node.ofString, Node.kind, Entry.kind, EntryValue.kind]
  | _ =>
      simp only at h
      split at h
      all_goals rw [← Except.ok.inj h]
      all_goals simp [cuts, addOther, moveTo, Layout.cuts]

theorem cuts_subset_of_foldlM
    {text : Text} {reader moved : Reader} {events : List Located}
    (h : events.foldlM (step text) reader = .ok moved) :
    reader.layout.cuts ⊆ moved.layout.cuts := by
  induction events generalizing reader with
  | nil =>
      simp only [List.foldlM_nil, pure, Except.pure, Except.ok.injEq] at h
      rw [h]
      exact List.Subset.refl _
  | cons located events ih =>
      rw [List.foldlM_cons] at h
      rcases Success.bind_eq_ok_iff.mp h with ⟨next, hstep, hrest⟩
      have hnext := ih hrest
      rw [cuts_of_step hstep] at hnext
      exact fun span hspan => hnext (List.mem_append_left _ hspan)

theorem checkedStep_relocated (text text' : Text) (offset : Nat) (reader : Reader)
    (located : Located) :
    (reader.relocated offset text').checkedStep text' (located.shift offset) =
      if forall span, span ∈ reader.cuts located -> text'.HasRange (span.shift offset) then
        some ((reader.step text located).map (relocated offset text'))
      else none := by
  simp only [checkedStep, cuts_relocated, List.forall_mem_map, step_relocated text]

/-- Reading on in another text comes to an end exactly when all that the entries are taken from
are ranges there. -/
theorem checkedSteps_relocated_iff
    {text' : Text} {offset : Nat} {reader : Reader}
    (text : Text) (read : Reader) (events : List Located)
    (hknown : forall span, span ∈ reader.layout.cuts -> text'.HasRange (span.shift offset)) :
    (reader.relocated offset text').checkedSteps text' (events.map (Located.shift offset)) =
        some (.ok read) ↔
      exists moved : Reader,
        events.foldlM (step text) reader = .ok moved ∧ read = moved.relocated offset text' ∧
          forall span, span ∈ moved.layout.cuts -> text'.HasRange (span.shift offset) := by
  induction events generalizing reader with
  | nil =>
      simp only [List.map_nil, checkedSteps, Option.some.injEq, Except.ok.injEq, List.foldlM_nil,
        pure, Except.pure, exists_eq_left']
      exact ⟨fun h => ⟨h.symm, hknown⟩, fun h => h.1.symm⟩
  | cons located events ih =>
      rw [List.map_cons, checkedSteps, checkedStep_relocated text, List.foldlM_cons]
      cases hstep : reader.step text located with
      | error e =>
          simp only [Except.map, bind, Except.bind, reduceCtorEq, false_and, exists_false,
            iff_false]
          split
          · simp
          · simp
          · rename_i heq
            split at heq <;> simp at heq
      | ok next =>
          have hcuts := cuts_of_step hstep
          by_cases hnow : forall span, span ∈ reader.cuts located ->
              text'.HasRange (span.shift offset)
          · rw [if_pos hnow]
            refine ih ?_
            rw [hcuts]
            exact List.forall_mem_append.mpr ⟨hknown, hnow⟩
          · rw [if_neg hnow]
            simp only [reduceCtorEq, false_iff]
            rintro ⟨moved, hrest, _, hall⟩
            apply hnow
            intro span hspan
            refine hall span (cuts_subset_of_foldlM hrest ?_)
            rw [hcuts]
            exact List.mem_append_right _ hspan

end Reader

/-!
# Scans
-/

namespace Markup

def Scan.shift (offset : Nat) (scan : Scan) : Scan :=
  ⟨scan.events.map (Located.shift offset), scan.failure⟩

theorem Scan.shift_zero (scan : Scan) : scan.shift 0 = scan := by
  have hsame : Located.shift 0 = id := rfl
  rw [Scan.shift, hsame, List.map_id]

theorem scanFrom_shift (offset position : Nat) (opened : List Text) (t : Text) :
    scanFrom (position + offset) opened t = (scanFrom position opened t).shift offset := by
  fun_induction scanFrom position opened t with
  | case1 position opened =>
      rw [scanFrom]
      rfl
  | case2 position opened t ht fault hnext =>
      rw [scanFrom, dif_neg ht]
      split <;> simp_all [Scan.shift]
  | case3 position opened t ht event rest hnext fault hnames =>
      rw [scanFrom, dif_neg ht]
      split <;> simp_all [Scan.shift]
  | case4 position opened t ht event rest hnext names hnames stop ih =>
      rw [scanFrom, dif_neg ht]
      split
      · simp_all
      · rename_i found more hfound
        rw [hnext, Except.ok.injEq, Prod.mk.injEq] at hfound
        rw [← hfound.1, ← hfound.2, hnames]
        have hstop : position + offset + event.raw.size = stop + offset :=
          Nat.add_right_comm ..
        simp only [hstop, ih]
        rfl

theorem scanFrom_of_text
    {t : Text}
    (position : Nat) (opened : List Text)
    (ht : t ≠ [])
    (hhead : t.head? ≠ some '<') :
    scanFrom position opened t =
      (scanFrom (position + Text.size (t.takeWhile (· != '<'))) opened
        (t.dropWhile (· != '<'))).prepend
          ⟨.text (t.takeWhile (· != '<')),
            ⟨position, position + Text.size (t.takeWhile (· != '<'))⟩⟩ := by
  rw [scanFrom, dif_neg ht]
  split
  · rename_i fault hnext
    rw [next_of_text hhead] at hnext
    simp at hnext
  · rename_i event rest hnext
    rw [next_of_text hhead, Except.ok.injEq, Prod.mk.injEq] at hnext
    rw [← hnext.1, ← hnext.2]
    rfl

end Markup

namespace Document

/-- Text is passed over, wherever it stands. -/
theorem checkedLayoutOf_prepend_text (text content : Text) (span : Span) (scan : Scan) :
    checkedLayoutOf text (scan.prepend ⟨.text content, span⟩) = checkedLayoutOf text scan := by
  have hstep : Reader.checkedStep text {} ⟨.text content, span⟩ = some (.ok {}) := by
    rw [Reader.checkedStep, Cursor.step_text, if_pos]
    simp [Reader.cuts]
  unfold checkedLayoutOf
  rw [Scan.prepend, Reader.checkedSteps, hstep]

/-- A character of text in front moves all that follows by its bytes. -/
theorem checkedLayoutOf_cons
    {c : Char}
    (hc : c ≠ '<')
    (text t : Text) :
    checkedLayoutOf text (scanFrom 0 [] (c :: t)) =
      checkedLayoutOf text ((scanFrom 0 [] t).shift c.utf8Size) := by
  have htake : (c :: t).takeWhile (· != '<') = c :: t.takeWhile (· != '<') :=
    List.takeWhile_cons_of_pos (by simpa using hc)
  have hdrop : (c :: t).dropWhile (· != '<') = t.dropWhile (· != '<') :=
    List.dropWhile_cons_of_pos (by simpa using hc)
  rw [← scanFrom_shift, Nat.zero_add, scanFrom_of_text 0 [] (by simp) (by simpa using hc), htake,
    hdrop, checkedLayoutOf_prepend_text, Text.size_cons, Nat.zero_add]
  by_cases hrest : t.head? = some '<' ∨ t = []
  · have hnone : t.takeWhile (· != '<') = [] ∧ t.dropWhile (· != '<') = t := by
      rcases hrest with hhead | rfl
      · rcases List.head?_eq_some_iff.mp hhead with ⟨rest, rfl⟩
        exact ⟨rfl, rfl⟩
      · exact ⟨rfl, rfl⟩
    rw [hnone.1, hnone.2, Text.size_nil, Nat.add_zero]
  · rw [not_or] at hrest
    rw [scanFrom_of_text c.utf8Size [] hrest.2 hrest.1, checkedLayoutOf_prepend_text]

theorem layoutOf_eq_ok_iff {text : Text} {scan : Scan} {layout : Layout} :
    layoutOf text scan = .ok layout ↔
      exists reader : Reader,
        scan.events.foldlM (Reader.step text) {} = .ok reader ∧ scan.failure = none ∧
          reader.finish = .ok layout := by
  unfold layoutOf
  cases scan.events.foldlM (Reader.step text) {} with
  | error e => simp
  | ok reader => cases scan.failure <;> simp

theorem checkedLayoutOf_eq_ok_iff {text : Text} {scan : Scan} {layout : Layout} :
    checkedLayoutOf text scan = some (.ok layout) ↔
      exists reader : Reader,
        Reader.checkedSteps text {} scan.events = some (.ok reader) ∧ scan.failure = none ∧
          reader.finish = .ok layout := by
  unfold checkedLayoutOf
  cases Reader.checkedSteps text {} scan.events with
  | none => simp
  | some read =>
      cases read with
      | error e => simp
      | ok reader => cases scan.failure <;> simp

theorem cuts_of_finish
    {reader : Reader} {layout : Layout}
    (h : reader.finish = .ok layout) :
    layout.cuts = reader.layout.cuts := by
  unfold Reader.finish at h
  split at h
  all_goals simp only [Except.ok.injEq, reduceCtorEq] at h
  all_goals rw [← h]

/-- What another text with the same events, moved by an offset, is read as. -/
theorem checkedLayoutOf_shift_iff (text text' : Text) (offset : Nat) (scan : Scan)
    (layout' : Layout) :
    checkedLayoutOf text' (scan.shift offset) = some (.ok layout') ↔
      exists layout : Layout,
        layoutOf text scan = .ok layout ∧ layout' = layout.relocated offset text' ∧
          forall span, span ∈ layout.cuts -> text'.HasRange (span.shift offset) := by
  have hempty : forall span, span ∈ ({} : Reader).layout.cuts ->
      text'.HasRange (span.shift offset) := by
    simp [Layout.cuts]
  have hsteps := fun read : Reader =>
    Reader.checkedSteps_relocated_iff text read scan.events hempty
  rw [checkedLayoutOf_eq_ok_iff]
  constructor
  · rintro ⟨read, hread, hfailure, hfinish⟩
    rcases (hsteps read).mp hread with ⟨reader, hfold, rfl, hranges⟩
    rw [Reader.finish_relocated] at hfinish
    rcases Success.map_eq_ok_iff.mp hfinish with ⟨layout, hlayout, heq⟩
    refine ⟨layout, layoutOf_eq_ok_iff.mpr ⟨reader, hfold, hfailure, hlayout⟩, heq.symm, ?_⟩
    rw [cuts_of_finish hlayout]
    exact hranges
  · rintro ⟨layout, hlayout, rfl, hranges⟩
    rcases layoutOf_eq_ok_iff.mp hlayout with ⟨reader, hfold, hfailure, hfinish⟩
    rw [cuts_of_finish hfinish] at hranges
    refine ⟨_, (hsteps _).mpr ⟨reader, hfold, rfl, hranges⟩, hfailure, ?_⟩
    rw [Reader.finish_relocated, hfinish]
    rfl

/-- A text that is read at its own places says what stands there. -/
theorem relocated_of_layoutOf
    {text : Text} {scan : Scan} {layout : Layout}
    (h : layoutOf text scan = .ok layout) :
    layout.relocated 0 text = layout := by
  rcases layoutOf_eq_ok_iff.mp h with ⟨reader, hfold, _, hfinish⟩
  have hsame : Located.shift 0 = id := rfl
  have hagain := Reader.foldlM_relocated text text 0 {} scan.events
  rw [hsame, List.map_id, hfold] at hagain
  have hreader : reader = reader.relocated 0 text := Except.ok.inj (hfold.symm.trans hagain)
  have hmoved := Reader.finish_relocated text 0 reader
  rw [← hreader, hfinish] at hmoved
  exact (Except.ok.inj hmoved).symm

/-!
# Reading behind one more mark
-/

/-- What it takes to read a text without a cut out of range. -/
theorem checkedParse_eq_some_iff {text : Text} {document : Document} :
    checkedParse text = some (.ok document) ↔
      parse text = .ok document ∧
        forall span, span ∈ document.layout.cuts -> text.HasRange span := by
  have hread := checkedLayoutOf_shift_iff text text 0 (Markup.scan text)
  simp only [Scan.shift_zero] at hread
  rw [checkedParse, parse, Option.map_eq_some_iff, Success.map_eq_ok_iff]
  constructor
  · rintro ⟨read, hchecked, hdocument⟩
    rcases Success.map_eq_ok_iff.mp hdocument with ⟨layout', rfl, rfl⟩
    rcases (hread layout').mp hchecked with ⟨layout, hlayout, rfl, hranges⟩
    rw [relocated_of_layoutOf hlayout]
    exact ⟨⟨layout, hlayout, rfl⟩, hranges⟩
  · rintro ⟨⟨layout, hlayout, rfl⟩, hranges⟩
    refine ⟨.ok layout, (hread layout).mpr ⟨layout, hlayout, ?_, hranges⟩, rfl⟩
    exact (relocated_of_layoutOf hlayout).symm

/-- A text behind one more mark for the byte order. -/
def withMark (text : Text) : Text :=
  Markup.byteOrderMark :: text

/-- How far one more mark moves the places that are noted down: the first mark is not counted. -/
def markOffset (text : Text) : Nat :=
  if PlainStart text then 0 else Markup.byteOrderMark.utf8Size

/-- What is read behind one more mark. -/
theorem checkedParse_mark_iff {text : Text} {document' : Document} :
    checkedParse (withMark text) = some (.ok document') ↔
      exists document : Document,
        parse text = .ok document ∧
          document' = ⟨withMark text,
            document.layout.relocated (markOffset text) (withMark text)⟩ ∧
          forall span, span ∈ document.layout.cuts ->
            (withMark text).HasRange (span.shift (markOffset text)) := by
  have hscan : checkedLayoutOf (withMark text) (Markup.scan (withMark text)) =
      checkedLayoutOf (withMark text) ((Markup.scan text).shift (markOffset text)) := by
    have hfirst : Markup.scan (withMark text) = scanFrom 0 [] text := rfl
    rw [hfirst]
    by_cases hplain : PlainStart text
    · rw [markOffset, if_pos hplain, Scan.shift_zero, Markup.scan,
        withoutByteOrderMark_of_plainStart hplain]
    · rw [markOffset, if_neg hplain]
      rcases List.head?_eq_some_iff.mp (Decidable.not_not.mp hplain) with ⟨rest, rfl⟩
      exact checkedLayoutOf_cons (by decide) _ rest
  rw [checkedParse, hscan, Option.map_eq_some_iff]
  constructor
  · rintro ⟨read, hchecked, hdocument⟩
    rcases Success.map_eq_ok_iff.mp hdocument with ⟨layout', rfl, rfl⟩
    rcases (checkedLayoutOf_shift_iff _ _ _ _ _).mp hchecked with ⟨layout, hlayout, rfl, hranges⟩
    refine ⟨⟨text, layout⟩, ?_, rfl, hranges⟩
    rw [parse, hlayout]
    rfl
  · rintro ⟨document, hparse, rfl, hranges⟩
    rcases Success.map_eq_ok_iff.mp hparse with ⟨layout, hlayout, rfl⟩
    exact ⟨.ok _, (checkedLayoutOf_shift_iff _ _ _ _ _).mpr ⟨layout, hlayout, rfl, hranges⟩, rfl⟩

end Document

/-!
# Values
-/

namespace Text

/-- Behind a mark that is not counted, a span takes what stands three bytes before it. -/
theorem slice_withMark
    {span : Span}
    (t : Text)
    (h : Markup.byteOrderMark.utf8Size ≤ span.start) :
    (Document.withMark t).slice span =
      t.slice ⟨span.start - Markup.byteOrderMark.utf8Size,
        span.stop - Markup.byteOrderMark.utf8Size⟩ := by
  have hwidth : span.stop - span.start = span.stop - Markup.byteOrderMark.utf8Size -
      (span.start - Markup.byteOrderMark.utf8Size) := by
    omega
  rw [slice, slice, Document.withMark, dropBytes, if_pos h, hwidth]

theorem slice_shift_withMark (t : Text) (span : Span) :
    (Document.withMark t).slice (span.shift Markup.byteOrderMark.utf8Size) = t.slice span := by
  rw [slice_withMark t (Nat.le_add_left _ _)]
  simp [Span.shift]

theorem isCut_shift_withMark (t : Text) (position : Nat) :
    (Document.withMark t).IsCut (position + Markup.byteOrderMark.utf8Size) ↔
      t.IsCut position := by
  rw [IsCut, Document.withMark, takeBytes, if_pos (Nat.le_add_left _ _), Nat.add_sub_cancel,
    size_cons, IsCut]
  omega

theorem hasRange_shift_withMark (t : Text) (span : Span) :
    (Document.withMark t).HasRange (span.shift Markup.byteOrderMark.utf8Size) ↔
      t.HasRange span := by
  simp only [hasRange_def, Span.shift, isCut_shift_withMark, Nat.add_le_add_iff_right]

end Text

namespace Node

theorem valueIn_shift_withMark (text : Text) (node : Node) :
    (node.shift Markup.byteOrderMark.utf8Size).valueIn (Document.withMark text) =
      node.valueIn text := by
  have hkind : (node.shift Markup.byteOrderMark.utf8Size).kind = node.kind := rfl
  unfold valueIn
  rw [hkind]
  cases node.kind with
  | string => exact congrArg EntryValue.singular (Text.slice_shift_withMark text node.inner)
  | plurals =>
      simp [Reader.itemsValue, Node.shift, ItemNode.shift, List.filterMap_map, Function.comp_def,
        Text.slice_shift_withMark]
  | stringArray =>
      simp [Reader.itemsValue, Node.shift, ItemNode.shift, Text.slice_shift_withMark]

theorem shift_zero (node : Node) : node.shift 0 = node := by
  have hitems : node.items.map (ItemNode.shift 0) = node.items := List.map_id node.items
  rw [shift, hitems]
  rfl

end Node

namespace Document

section

variable {text : Text} {document : Document}

/-- The values of a document are what stands at its places, also behind a mark. -/
theorem valueIn_of_parse
    (h : parse text = .ok document) :
    forall node, node ∈ document.nodes -> node.valueIn text = node.entry.value := by
  rcases Success.map_eq_ok_iff.mp h with ⟨layout, hlayout, rfl⟩
  have hnodes : layout.nodes.map (Node.relocated 0 text) = layout.nodes :=
    congrArg Layout.nodes (relocated_of_layoutOf hlayout)
  intro node hnode
  have hsame : node.relocated 0 text = id node :=
    List.map_inj_left.mp (hnodes.trans (List.map_id layout.nodes).symm) node hnode
  have hvalue : (node.relocated 0 text).entry.value = node.entry.value :=
    congrArg (fun found : Node => found.entry.value) hsame
  rwa [Node.relocated, Node.shift_zero] at hvalue

/-- The stored value of a string is the value of its entry. -/
theorem getRaw_eq_string?
    (h : parse text = .ok document)
    (language id : Text) :
    document.getRaw id =
      match (document.resource language).string? id with
      | some stored => .ok stored
      | none => .error (notFound id) := by
  have hvalues := valueIn_of_parse h
  rw [← text_of_parse h] at hvalues
  have hentry : (document.resource language).find? .string id =
      (document.find? .string id).map Node.entry := by
    simp only [ResourceFile.find?, resource, entries, Document.find?, List.find?_map]
    rfl
  rw [getRaw, ResourceFile.string?, hentry]
  cases hfind : document.find? .string id with
  | none => rfl
  | some node =>
      have hkind : node.kind = .string := by
        have hkey := List.find?_some hfind
        simp only [Bool.and_eq_true, beq_iff_eq] at hkey
        exact hkey.1
      have hvalue := hvalues node (List.mem_of_find?_eq_some hfind)
      rw [Node.valueIn, hkind] at hvalue
      simp only [Option.map_some, ← hvalue]
      rfl

theorem getPlurals_eq_plural? (document : Document) (language id : Text) :
    document.getPlurals id =
      match (document.resource language).plural? id with
      | some forms => .ok forms
      | none => .error (notFound id) := by
  have hentry : (document.resource language).find? .plurals id =
      (document.find? .plurals id).map Node.entry := by
    simp only [ResourceFile.find?, resource, entries, Document.find?, List.find?_map]
    rfl
  rw [getPlurals, ResourceFile.plural?, hentry]
  cases document.find? .plurals id with
  | none => rfl
  | some node =>
      simp only [Option.map_some]
      cases node.entry.value <;> rfl

end

/-- Two texts are both read or both not, and as documents they say the same. -/
structure SayTheSame (left right : Option (Except Error Document)) : Prop where
  accepted : (exists document : Document, left = some (.ok document)) ↔
    exists document : Document, right = some (.ok document)
  entries : forall document document' : Document, left = some (.ok document) ->
    right = some (.ok document') -> document.entries = document'.entries
  getRaw : forall document document' : Document, left = some (.ok document) ->
    right = some (.ok document') -> forall id : Text, document.getRaw id = document'.getRaw id
  getPlurals : forall document document' : Document, left = some (.ok document) ->
    right = some (.ok document') ->
      forall id : Text, document.getPlurals id = document'.getPlurals id

/-- Documents with the same entries give the same answers. -/
theorem sayTheSame_of_entries
    {text text' : Text}
    (haccepted : (exists document : Document, checkedParse text = some (.ok document)) ↔
      exists document : Document, checkedParse text' = some (.ok document))
    (hentries : forall document document' : Document, checkedParse text = some (.ok document) ->
      checkedParse text' = some (.ok document') -> document.entries = document'.entries) :
    SayTheSame (checkedParse text) (checkedParse text') := by
  refine ⟨haccepted, hentries, ?_, ?_⟩
  · intro document document' h h' id
    have hfile : document.resource [] = document'.resource [] := by
      rw [resource, resource, hentries document document' h h']
    rw [getRaw_eq_string? (checkedParse_eq_some_iff.mp h).1 [] id,
      getRaw_eq_string? (checkedParse_eq_some_iff.mp h').1 [] id, hfile]
  · intro document document' h h' id
    have hfile : document.resource [] = document'.resource [] := by
      rw [resource, resource, hentries document document' h h']
    rw [getPlurals_eq_plural? document [] id, getPlurals_eq_plural? document' [] id, hfile]

end Document

namespace Node

/-- At the places of an entry another text has ranges, and its value stands there. -/
def StandsIn (text : Text) (node : Node) : Prop :=
  (forall span, span ∈ node.cuts -> text.HasRange span) ∧ node.valueIn text = node.entry.value

end Node

namespace Document

section

variable {text : Text}

theorem entries_relocated_iff {layout : Layout} {offset : Nat} :
    (Document.mk text (layout.relocated offset text)).entries = layout.nodes.map Node.entry ↔
      forall node, node ∈ layout.nodes ->
        (node.shift offset).valueIn text = node.entry.value := by
  rw [entries, nodes, Layout.relocated, List.map_map, List.map_inj_left]
  constructor
  · intro h node hnode
    exact congrArg Entry.value (h node hnode)
  · intro h node hnode
    have hvalue := h node hnode
    simp only [Function.comp_apply, Node.relocated, Node.entry_shift, hvalue]

theorem sayTheSame_mark_of_forall
    (hvalues : forall document : Document, parse text = .ok document ->
      forall node, node ∈ document.nodes ->
        (node.shift (markOffset text)).valueIn (withMark text) = node.entry.value)
    (hranges : forall document : Document, parse text = .ok document ->
      ((forall span, span ∈ document.layout.cuts ->
          (withMark text).HasRange (span.shift (markOffset text))) ↔
        forall span, span ∈ document.layout.cuts -> text.HasRange span)) :
    SayTheSame (checkedParse (withMark text)) (checkedParse text) := by
  apply sayTheSame_of_entries
  · constructor
    · rintro ⟨document', h'⟩
      rcases checkedParse_mark_iff.mp h' with ⟨document, hparse, _, hmoved⟩
      exact ⟨document,
        checkedParse_eq_some_iff.mpr ⟨hparse, (hranges document hparse).mp hmoved⟩⟩
    · rintro ⟨document, hread⟩
      rcases checkedParse_eq_some_iff.mp hread with ⟨hparse, hcuts⟩
      exact ⟨_, checkedParse_mark_iff.mpr
        ⟨document, hparse, rfl, (hranges document hparse).mpr hcuts⟩⟩
  · intro document' document h' hread
    rcases checkedParse_mark_iff.mp h' with ⟨other, hother, rfl, _⟩
    have hparse := (checkedParse_eq_some_iff.mp hread).1
    rw [hparse, Except.ok.injEq] at hother
    rw [← hother]
    exact entries_relocated_iff.mpr (hvalues document hparse)

/-- Of two marks the second one is counted, so a third changes nothing. -/
theorem sayTheSame_mark_of_not_plainStart
    (h : ¬ PlainStart text) :
    SayTheSame (checkedParse (withMark text)) (checkedParse text) := by
  have hoffset : markOffset text = Markup.byteOrderMark.utf8Size := if_neg h
  apply sayTheSame_mark_of_forall
  · intro document hparse node hnode
    rw [hoffset, Node.valueIn_shift_withMark]
    exact valueIn_of_parse hparse node hnode
  · intro document _
    simp only [hoffset, Text.hasRange_shift_withMark]

theorem standsIn_of_sayTheSame
    {document : Document}
    (hplain : PlainStart text)
    (h : SayTheSame (checkedParse (withMark text)) (checkedParse text))
    (hparse : parse text = .ok document) :
    forall node, node ∈ document.nodes -> node.StandsIn (withMark text) := by
  have hread : checkedParse text = some (.ok document) := by
    rw [checkedParse_eq hplain, hparse]
  rcases h.accepted.mpr ⟨document, hread⟩ with ⟨document', h'⟩
  have hentries := h.entries document' document h' hread
  rcases checkedParse_mark_iff.mp h' with ⟨other, hother, rfl, hranges⟩
  rw [hparse, Except.ok.injEq] at hother
  rw [← hother, markOffset, if_pos hplain] at hentries hranges
  intro node hnode
  have hvalue := entries_relocated_iff.mp hentries node hnode
  rw [Node.shift_zero] at hvalue
  exact ⟨fun span hspan => hranges span (List.mem_flatMap.mpr ⟨node, hnode, hspan⟩), hvalue⟩

/-- One more mark changes nothing that is read exactly when there is a mark already, or when at
the place of every value, counted without the mark, the same value stands behind it. -/
theorem sayTheSame_mark_iff (text : Text) :
    SayTheSame (checkedParse (withMark text)) (checkedParse text) ↔
      (PlainStart text -> forall document : Document, parse text = .ok document ->
        forall node, node ∈ document.nodes -> node.StandsIn (withMark text)) := by
  by_cases hplain : PlainStart text
  · constructor
    · intro h _ document hparse
      exact standsIn_of_sayTheSame hplain h hparse
    · intro h
      have hoffset : markOffset text = 0 := if_pos hplain
      apply sayTheSame_mark_of_forall
      · intro document hparse node hnode
        rw [hoffset, Node.shift_zero]
        exact (h hplain document hparse node hnode).2
      · intro document hparse
        have hread : checkedParse text = some (.ok document) := by
          rw [checkedParse_eq hplain, hparse]
        refine ⟨fun _ => (checkedParse_eq_some_iff.mp hread).2, fun _ => ?_⟩
        intro span hspan
        rcases List.mem_flatMap.mp hspan with ⟨node, hnode, hmem⟩
        rw [hoffset]
        exact (h hplain document hparse node hnode).1 span hmem
  · exact ⟨fun _ h => absurd h hplain, fun _ => sayTheSame_mark_of_not_plainStart hplain⟩

end

def letters : Text :=
  "<resources><string name=\"a\">abc</string></resources>".toList

/-- The value is taken three bytes before the place where it stands. -/
theorem not_sayTheSame_mark_letters :
    (checkedParse letters).map (Except.map fun document => document.getRaw "a".toList) =
        some (.ok (.ok "abc".toList)) ∧
      (checkedParse (withMark letters)).map
          (Except.map fun document => document.getRaw "a".toList) =
        some (.ok (.ok "a\">".toList)) ∧
      ¬ SayTheSame (checkedParse (withMark letters)) (checkedParse letters) := by
  have hplain : (checkedParse letters).map
      (Except.map fun document => document.getRaw "a".toList) =
        some (.ok (.ok "abc".toList)) := by
    decide +kernel
  have hmarked : (checkedParse (withMark letters)).map
      (Except.map fun document => document.getRaw "a".toList) =
        some (.ok (.ok "a\">".toList)) := by
    decide +kernel
  refine ⟨hplain, hmarked, fun h => ?_⟩
  rcases Option.map_eq_some_iff.mp hplain with ⟨read, hread, hraw⟩
  rcases Success.map_eq_ok_iff.mp hraw with ⟨document, rfl, hvalue⟩
  rcases Option.map_eq_some_iff.mp hmarked with ⟨read', hread', hraw'⟩
  rcases Success.map_eq_ok_iff.mp hraw' with ⟨document', rfl, hvalue'⟩
  have hsame := h.getRaw document' document hread' hread "a".toList
  rw [hvalue, hvalue'] at hsame
  exact absurd hsame (by decide)

end Document
end AndroidStrings
