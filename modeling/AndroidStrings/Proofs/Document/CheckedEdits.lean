import AndroidStrings.Proofs.Document.CheckedReading
import AndroidStrings.Proofs.Document.LineEnding

/-!
# Edits take ranges only

The edits of this module are those of a document, with every cut checked: they answer nothing
where a program would be stopped because a span is no range of the text, or would not come to an
end.  On a document that has been read from a text without a mark for the byte order they answer
what the edits answer.  The one exception is sorting: what stands between the declaration and the
opening tag is no range when the declaration comes second.

## Main statements

- `checkedRemoveNext_eq` : the loop of a removal ends, and takes ranges only.
- `checkedSort_eq` : sorting stops exactly when the place of its prolog is no range.
- `checkedPerform_eq` : one command.
-/

namespace AndroidStrings

namespace Document

/-!
# Checked edits
-/

def checkedSplice (document : Document) (span : Span) (replacement : Text) :
    Option (Except Error Document) := do
  let text ← document.text.splice? span replacement
  checkedParse text

def checkedInsertAt (document : Document) (position : Nat) (element : Text) :
    Option (Except Error Document) :=
  document.checkedSplice ⟨position, position⟩ element

def checkedInsertEntry (document : Document) (element : Text) :
    Option (Except Error Document) :=
  match document.rootCloseStart with
  | .error e => some (.error e)
  | .ok close => do
      let ending := document.lineEnding.text
      let startsLine ← document.text.startsLine? close
      if startsLine then
        let lineStart ← document.text.lineStart? close
        document.checkedInsertAt lineStart (entryIndent ++ element ++ ending)
      else
        document.checkedInsertAt close (ending ++ entryIndent ++ element ++ ending)

def checkedReplaceString (document : Document) (id stored : Text) :
    Option (Except Error Document) :=
  match document.find? .string id with
  | none => some (.error (notFound id))
  | some node =>
      if node.selfClosing then do
        let tagText ← document.text.slice? node.outer
        document.checkedSplice node.outer (expandedString tagText stored)
      else
        document.checkedSplice node.inner stored

def checkedSet (document : Document) (id value : Text) (mode : EscapeMode) :
    Option (Except Error Document) :=
  match storedValue id value mode with
  | .error e => some (.error e)
  | .ok stored => document.checkedReplaceString id stored

def checkedSetOrCreate (document : Document) (id value : Text) (mode : EscapeMode) :
    Option (Except Error Document) :=
  match storedValue id value mode with
  | .error e => some (.error e)
  | .ok stored =>
      if document.contains .string id then document.checkedReplaceString id stored
      else document.checkedInsertEntry (stringElement id stored)

def checkedAdd (document : Document) (id value : Text) (mode : EscapeMode) :
    Option (Except Error (Option Document)) :=
  match storedValue id value mode with
  | .error e => some (.error e)
  | .ok stored =>
      if document.contains .string id then some (.ok none)
      else (document.checkedInsertEntry (stringElement id stored)).map (Except.map some)

def checkedAddPlural (document : Document) (id : Text) (forms : List (Quantity × Text))
    (mode : EscapeMode) : Option (Except Error (Option Document)) :=
  match storedForms id mode forms with
  | .error e => some (.error e)
  | .ok items =>
      if document.contains .plurals id then some (.ok none)
      else
        (document.checkedInsertEntry (pluralsElement id items document.lineEnding)).map
          (Except.map some)

def checkedSetQuantity (document : Document) (id : Text) (quantity : Quantity)
    (stored : Text) : Option (Except Error Document) :=
  match document.find? .plurals id with
  | none => some (.error (notFound id))
  | some node =>
      match node.item? quantity with
      | some item =>
          if item.inner.start = item.inner.stop ∧ item.inner.start = item.outer.stop then
            document.checkedSplice item.outer (itemElement quantity stored)
          else document.checkedSplice item.inner stored
      | none => do
          let close := node.inner.stop
          let element := itemElement quantity stored
          let startsLine ← document.text.startsLine? close
          if startsLine then
            let lineStart ← document.text.lineStart? close
            document.checkedInsertAt lineStart (itemIndent ++ element ++ document.lineEnding.text)
          else document.checkedInsertAt close element

def checkedSetQuantities (document : Document) (id : Text) :
    List (Quantity × Text) → Option SteppedEdit
  | [] => some ⟨document, .ok .applied⟩
  | (quantity, stored) :: rest =>
      match document.checkedSetQuantity id quantity stored with
      | none => none
      | some (.error e) => some ⟨document, .error e⟩
      | some (.ok edited) => edited.checkedSetQuantities id rest

def checkedSetPlurals (document : Document) (id : Text) (forms : List (Quantity × Text))
    (mode : EscapeMode) : Option SteppedEdit :=
  match storedForms id mode forms with
  | .error e => some ⟨document, .error e⟩
  | .ok items =>
      let element := pluralsElement id items document.lineEnding
      match document.find? .plurals id with
      | none => (document.checkedInsertEntry element).map document.whole
      | some node =>
          if node.selfClosing then
            (document.checkedSplice node.outer element).map document.whole
          else document.checkedSetQuantities id items

/-- A removal that leaves the text as long as it was would find the same element again. -/
def checkedRemoveNext (outcome : EditOutcome) (document : Document) (id : Text) :
    Option SteppedEdit :=
  match document.nodes.find? fun node => node.id == id with
  | none => some ⟨document, .ok outcome⟩
  | some node =>
      match document.text.lineExtent? node.outer with
      | none => none
      | some extent =>
          match document.checkedSplice extent [] with
          | none => none
          | some (.error e) => some ⟨document, .error e⟩
          | some (.ok edited) =>
              if edited.text.length < document.text.length then
                checkedRemoveNext .applied edited id
              else none
termination_by document.text.length

/-- The spans that sorting takes out of the text. -/
def sortCuts (document : Document) : List Span :=
  document.blocks.map Block.span ++ document.layout.comments ++
    document.layout.declaration.toList ++ [document.prologSpan] ++
    document.layout.rootOpen.toList

def checkedSort (document : Document) (order : List EntryKind.Key) :
    Option (Except Error Document) :=
  match document.rootCloseStart with
  | .error e => some (.error e)
  | .ok _ =>
      if forall span, span ∈ document.sortCuts -> document.text.HasRange span then
        checkedParse (document.sortedText order)
      else none

def checkedPerform (document : Document) : EditCommand → Option SteppedEdit
  | .set id value mode => (document.checkedSet id value mode).map document.whole
  | .setOrCreate id value mode => (document.checkedSetOrCreate id value mode).map document.whole
  | .add id value mode => (document.checkedAdd id value mode).map document.wholeOrSkipped
  | .addPlural id forms mode =>
      (document.checkedAddPlural id forms mode).map document.wholeOrSkipped
  | .setPlurals id forms mode => document.checkedSetPlurals id forms mode
  | .remove id => document.checkedRemoveNext .skipped id
  | .sort order => (document.checkedSort order).map document.whole

/-!
# One splice
-/

/-- A checked edit answers what the edit answers, and leaves a document that has been read from a
text without a mark in front. -/
def Agrees (checked : Option (Except Error Document)) (edited : Except Error Document) : Prop :=
  checked = some edited ∧
    forall new : Document, edited = .ok new -> PlainStart new.text ∧ new.IsRead

theorem agrees_error (e : Error) : Agrees (some (.error e)) (.error e) :=
  ⟨rfl, by simp⟩

section

variable {document : Document}

theorem agrees_splice
    {span : Span} {replacement : Text}
    (hplain : PlainStart document.text)
    (hrange : document.text.HasRange span)
    (hfront : 0 < span.start ∨ MayBegin replacement) :
    Agrees (document.checkedSplice span replacement) (document.splice span replacement) := by
  have hnew : PlainStart (document.text.splice span replacement) :=
    plainStart_splice hplain (Text.takeBytes_append_dropBytes span.start document.text).symm
      hrange.start.symm hfront
  constructor
  · rw [checkedSplice, Text.splice?_eq hrange]
    exact checkedParse_eq hnew
  · intro new hedit
    refine ⟨?_, isRead_of_parse hedit⟩
    rw [text_of_parse hedit]
    exact hnew

theorem agrees_insertAt
    {position : Nat} {element : Text}
    (hplain : PlainStart document.text)
    (hcut : document.text.IsCut position)
    (helement : MayBegin element) :
    Agrees (document.checkedInsertAt position element) (document.insertAt position element) :=
  agrees_splice hplain (Text.hasRange_nil hcut) (.inr helement)

theorem isCut_lineStart
    {t : Text} {position : Nat}
    (h : t.IsCut position) :
    t.IsCut (t.lineStart position) :=
  (Text.hasAt_lastLine h).hasRange.start

/-!
# Edits in place
-/

section

variable (hplain : PlainStart document.text) (hread : document.IsRead)
include hplain hread

theorem hasRange_of_mem_places
    {place : Span}
    (h : place ∈ document.layout.places) :
    document.text.HasRange place :=
  ((exactIn_of_isRead hplain hread).places_at place h).hasRange

theorem hasRange_of_mem_nodes
    {node : Node} {place : Span}
    (hnode : node ∈ document.nodes)
    (hplace : place ∈ node.places) :
    document.text.HasRange place :=
  hasRange_of_mem_places hplain hread (mem_places_of_mem_nodes hnode hplace)

theorem agrees_insertEntry (element : Text) :
    Agrees (document.checkedInsertEntry element) (document.insertEntry element) := by
  unfold checkedInsertEntry insertEntry rootCloseStart
  cases hclose : document.layout.rootClose with
  | none => exact agrees_error _
  | some span =>
      have hplace : span ∈ document.layout.places := by
        simp [Layout.places, hclose]
      have hcut : document.text.IsCut span.start :=
        (hasRange_of_mem_places hplain hread hplace).start
      have hending : MayBegin (document.lineEnding.text ++ entryIndent ++ element ++
          document.lineEnding.text) := by
        cases document.lineEnding with
        | lf => exact mayBegin_of_cons (by decide)
        | crlf => exact mayBegin_of_cons (by decide)
      simp only [Text.startsLine?_eq hcut, Text.lineStart?_eq hcut, Option.bind_eq_bind,
        Option.bind_some]
      split
      · exact agrees_insertAt hplain (isCut_lineStart hcut) (mayBegin_of_cons (by decide))
      · exact agrees_insertAt hplain hcut hending

theorem agrees_replaceString (id stored : Text) :
    Agrees (document.checkedReplaceString id stored) (document.replaceString id stored) := by
  have hexact := exactIn_of_isRead hplain hread
  unfold checkedReplaceString replaceString
  cases hfind : document.find? .string id with
  | none => exact agrees_error _
  | some node =>
      have hnode : node ∈ document.nodes := List.mem_of_find?_eq_some hfind
      have houter := hasRange_of_mem_nodes hplain hread hnode node.outer_mem_places
      have hinner := hasRange_of_mem_nodes hplain hread hnode node.inner_mem_places
      simp only [Text.slice?_eq houter, Option.bind_eq_bind, Option.bind_some]
      split
      · have hends := (hexact.exact_nodes node hnode).ends
        have hbegins : (document.slice node.outer).head? = some '<' := by
          rcases (hexact.exact_nodes node hnode).begins with ⟨rest, hrest⟩
          rw [Document.slice, ← hrest]
          rfl
        exact agrees_splice hplain houter
          (.inr (mayBegin_expandedString ⟨hbegins, hends⟩ stored))
      · exact agrees_splice hplain hinner (.inl (hexact.inner_pos hnode))

theorem agrees_set (id value : Text) (mode : EscapeMode) :
    Agrees (document.checkedSet id value mode) (document.set id value mode) := by
  unfold checkedSet set
  cases storedValue id value mode with
  | error e => exact agrees_error e
  | ok stored => exact agrees_replaceString hplain hread id stored

theorem agrees_setOrCreate (id value : Text) (mode : EscapeMode) :
    Agrees (document.checkedSetOrCreate id value mode) (document.setOrCreate id value mode) := by
  unfold checkedSetOrCreate setOrCreate
  cases storedValue id value mode with
  | error e => exact agrees_error e
  | ok stored =>
      simp only
      split
      · exact agrees_replaceString hplain hread id stored
      · exact agrees_insertEntry hplain hread _

theorem checkedAdd_eq (id value : Text) (mode : EscapeMode) :
    document.checkedAdd id value mode = some (document.add? id value mode) := by
  unfold checkedAdd add?
  cases storedValue id value mode with
  | error e => rfl
  | ok stored =>
      simp only [(agrees_insertEntry hplain hread _).1, Option.map_some]
      split
      · rfl
      · rfl

theorem checkedAddPlural_eq (id : Text) (forms : List (Quantity × Text)) (mode : EscapeMode) :
    document.checkedAddPlural id forms mode = some (document.addPlural? id forms mode) := by
  unfold checkedAddPlural addPlural?
  cases storedForms id mode forms with
  | error e => rfl
  | ok items =>
      simp only [(agrees_insertEntry hplain hread _).1, Option.map_some]
      split
      · rfl
      · rfl

/-!
# Plurals
-/

theorem agrees_setQuantity (id : Text) (quantity : Quantity) (stored : Text) :
    Agrees (document.checkedSetQuantity id quantity stored)
      (document.setQuantity id quantity stored) := by
  have hexact := exactIn_of_isRead hplain hread
  unfold checkedSetQuantity setQuantity
  cases hfind : document.find? .plurals id with
  | none => exact agrees_error _
  | some node =>
      have hnode : node ∈ document.nodes := List.mem_of_find?_eq_some hfind
      have hinner := hasRange_of_mem_nodes hplain hread hnode node.inner_mem_places
      simp only
      cases hitem : node.item? quantity with
      | some item =>
          have hmem : item ∈ node.items := List.mem_of_find?_eq_some hitem
          rcases mem_places_of_mem_items hmem with ⟨houterPlace, hinnerPlace⟩
          simp only
          split
          · exact agrees_splice hplain (hasRange_of_mem_nodes hplain hread hnode houterPlace)
              (.inr (mayBegin_of_cons (by decide)))
          · exact agrees_splice hplain (hasRange_of_mem_nodes hplain hread hnode hinnerPlace)
              (.inl (hexact.item_inner_pos hnode hmem))
      | none =>
          simp only [Text.startsLine?_eq hinner.stop, Text.lineStart?_eq hinner.stop,
            Option.bind_eq_bind, Option.bind_some]
          split
          · exact agrees_insertAt hplain (isCut_lineStart hinner.stop)
              (mayBegin_of_cons (by decide))
          · exact agrees_insertAt hplain hinner.stop (mayBegin_of_cons (by decide))

theorem checkedSetQuantities_eq (id : Text) (items : List (Quantity × Text)) :
    document.checkedSetQuantities id items = some (document.setQuantities id items) := by
  induction items generalizing document with
  | nil => rfl
  | cons item items ih =>
      rcases item with ⟨quantity, stored⟩
      rcases agrees_setQuantity hplain hread id quantity stored with ⟨hchecked, hsound⟩
      rw [checkedSetQuantities, setQuantities, hchecked]
      cases hedit : document.setQuantity id quantity stored with
      | error e => rfl
      | ok edited =>
          rcases hsound edited hedit with ⟨hplain, hread⟩
          exact ih hplain hread

theorem checkedSetPlurals_eq (id : Text) (forms : List (Quantity × Text)) (mode : EscapeMode) :
    document.checkedSetPlurals id forms mode = some (document.setPlurals id forms mode) := by
  unfold checkedSetPlurals setPlurals
  cases storedForms id mode forms with
  | error e => rfl
  | ok items =>
      simp only
      cases hfind : document.find? .plurals id with
      | none => simp only [(agrees_insertEntry hplain hread _).1, Option.map_some]
      | some node =>
          have hnode : node ∈ document.nodes := List.mem_of_find?_eq_some hfind
          have houter := hasRange_of_mem_nodes hplain hread hnode node.outer_mem_places
          have hbegin : MayBegin (pluralsElement id items document.lineEnding) :=
            mayBegin_of_cons (by decide)
          have hsplice := agrees_splice hplain houter (.inr hbegin)
          simp only [hsplice.1, Option.map_some, checkedSetQuantities_eq hplain hread]
          split
          · rfl
          · rfl

end

/-!
# Removal
-/

/-- The loop of a removal ends, and takes ranges only. -/
theorem checkedRemoveNext_eq
    (hplain : PlainStart document.text)
    (hread : document.IsRead)
    (outcome : EditOutcome) (id : Text) :
    document.checkedRemoveNext outcome id = some (document.removeNext outcome id) := by
  induction hlength : document.text.length using Nat.strongRecOn generalizing document outcome with
  | ind length ih =>
      rw [checkedRemoveNext, removeNext]
      cases hfind : document.nodes.find? fun node => node.id == id with
      | none => rfl
      | some node =>
          have hnode : node ∈ document.nodes := List.mem_of_find?_eq_some hfind
          have houter := hasRange_of_mem_nodes hplain hread hnode node.outer_mem_places
          rcases exists_laidOut hplain hread with ⟨row, hrow⟩
          rcases hrow.exists_removed hfind with ⟨edited, kept, hsplice, hkept, hless, _⟩
          have htext := text_of_parse hsplice
          have hchecked : document.checkedSplice (document.text.lineExtent node.outer) [] =
              some (.ok edited) := by
            rw [checkedSplice, Text.splice?_eq (Text.hasRange_lineExtent houter)]
            show checkedParse _ = _
            rw [← htext, checkedParse_eq hkept.plain, hkept.read]
          simp only [Text.lineExtent?_eq houter, hchecked, hsplice, if_pos hless]
          exact ih edited.text.length (hlength ▸ hless) hkept.plain hkept.read .applied rfl

/-!
# Sorting
-/

theorem isCut_prologSpan
    (hplain : PlainStart document.text)
    (hread : document.IsRead) :
    document.text.IsCut document.prologSpan.start ∧
      document.text.IsCut document.prologSpan.stop := by
  have hstart : document.text.IsCut document.prologSpan.start := by
    unfold prologSpan
    cases hplace : document.layout.declaration with
    | none => exact Text.isCut_zero _
    | some span =>
        exact (hasRange_of_mem_places hplain hread (by simp [Layout.places, hplace])).stop
  refine ⟨hstart, ?_⟩
  cases hopen : document.layout.rootOpen with
  | none =>
      have hsame : document.prologSpan.stop = document.prologSpan.start := by
        simp only [prologSpan, hopen]
      rw [hsame]
      exact hstart
  | some span =>
      have hsame : document.prologSpan.stop = span.start := by
        simp only [prologSpan, hopen]
      rw [hsame]
      exact (hasRange_of_mem_places hplain hread (by simp [Layout.places, hopen])).start

theorem mem_places_of_mem_blocks
    {block : Block}
    (h : block ∈ document.blocks) :
    block.span ∈ document.layout.places := by
  rcases List.mem_append.mp (List.mem_mergeSort.mp h) with hnode | hother
  · rcases List.mem_map.mp hnode with ⟨node, hmem, rfl⟩
    exact mem_places_of_mem_nodes hmem node.outer_mem_places
  · rcases List.mem_map.mp hother with ⟨span, hmem, rfl⟩
    simp only [Layout.places, List.mem_append]
    exact .inl (.inr hmem)

/-- Of all that sorting takes, only the prolog may be no range. -/
theorem hasRange_sortCuts_iff
    (hplain : PlainStart document.text)
    (hread : document.IsRead) :
    (forall span, span ∈ document.sortCuts -> document.text.HasRange span) ↔
      document.prologSpan.start ≤ document.prologSpan.stop := by
  rcases isCut_prologSpan hplain hread with ⟨hstart, hstop⟩
  constructor
  · intro h
    exact (h document.prologSpan (by simp [sortCuts])).ordered
  · intro hordered span hspan
    simp only [sortCuts, List.mem_append, List.mem_map, List.mem_singleton] at hspan
    rcases hspan with (((⟨block, hblock, rfl⟩ | hcomment) | hdeclaration) | rfl) | hopen
    · exact hasRange_of_mem_places hplain hread (mem_places_of_mem_blocks hblock)
    · exact hasRange_of_mem_places hplain hread (by simp [Layout.places, hcomment])
    · exact hasRange_of_mem_places hplain hread (by
        simp only [Layout.places, List.mem_append, hdeclaration, true_or])
    · exact ⟨hordered, hstart, hstop⟩
    · exact hasRange_of_mem_places hplain hread (by
        simp only [Layout.places, List.mem_append, hopen, true_or, or_true])

/-- Sorting stops exactly when the place of its prolog is no range. -/
theorem checkedSort_eq
    (hplain : PlainStart document.text)
    (hread : document.IsRead)
    (order : List EntryKind.Key) :
    document.checkedSort order =
      if document.layout.rootClose.isSome ∧ document.prologSpan.stop < document.prologSpan.start
      then none
      else some (document.sort order) := by
  have hcuts := hasRange_sortCuts_iff hplain hread
  unfold checkedSort sort rootCloseStart
  cases document.layout.rootClose with
  | none => simp
  | some close =>
      by_cases hordered : document.prologSpan.start ≤ document.prologSpan.stop
      · have hnew := plainStart_sortedText (seamed_of_parse hplain hread) order
        simp only [if_pos (hcuts.mpr hordered), checkedParse_eq hnew, Option.isSome_some, true_and,
          if_neg (Nat.not_lt.mpr hordered)]
      · simp only [if_neg (mt hcuts.mp hordered), Option.isSome_some, true_and,
          if_pos (Nat.lt_of_not_le hordered)]

end

end Document

/-!
# Commands
-/

namespace EditCommand

def isSort : EditCommand -> Bool
  | sort _ => true
  | _ => false

end EditCommand

namespace Document

/-- Sorting would take the prolog between two places of which the second comes first: the
declaration stands behind the opening tag of the root element. -/
def StopsSort (document : Document) : Prop :=
  document.layout.rootClose.isSome ∧ document.prologSpan.stop < document.prologSpan.start

instance (document : Document) : Decidable document.StopsSort :=
  inferInstanceAs (Decidable (_ ∧ _))

/-- A command takes ranges of the text only and comes to an end, unless it sorts a document whose
declaration stands behind the opening tag. -/
theorem checkedPerform_eq
    {text : Text} {document : Document}
    (hplain : PlainStart text)
    (hparse : parse text = .ok document)
    (command : EditCommand) :
    document.checkedPerform command =
      if command.isSort ∧ document.StopsSort then none
      else some (document.perform command) := by
  have hread := isRead_of_parse hparse
  rw [← text_of_parse hparse] at hplain
  cases command with
  | set id value mode =>
      simp [checkedPerform, perform, EditCommand.isSort,
        (agrees_set hplain hread id value mode).1]
  | setOrCreate id value mode =>
      simp [checkedPerform, perform, EditCommand.isSort,
        (agrees_setOrCreate hplain hread id value mode).1]
  | add id value mode =>
      simp [checkedPerform, perform, EditCommand.isSort, checkedAdd_eq hplain hread]
  | addPlural id forms mode =>
      simp [checkedPerform, perform, EditCommand.isSort, checkedAddPlural_eq hplain hread]
  | setPlurals id forms mode =>
      simp [checkedPerform, perform, EditCommand.isSort, checkedSetPlurals_eq hplain hread]
  | remove id =>
      simp [checkedPerform, perform, remove, EditCommand.isSort, checkedRemoveNext_eq hplain hread]
  | sort order =>
      rw [checkedPerform, checkedSort_eq hplain hread]
      simp only [perform, EditCommand.isSort, StopsSort]
      split <;> simp_all

/-- The declaration stands in front of the opening tag, so the prolog is a range. -/
theorem checkedPerform_eq_comment :
    exists document : Document,
      parse ("<?xml version=\"1.0\"?><!-- \u00e9 --><resources>".toList ++
          "<string name=\"b\"/><string name=\"a\">\u00fc</string></resources>".toList) =
            .ok document ∧
        document.prologSpan = ⟨21, 32⟩ ∧
        document.checkedPerform (.sort [(.string, "a".toList)]) =
          some (document.perform (.sort [(.string, "a".toList)])) := by
  have hread : (parse ("<?xml version=\"1.0\"?><!-- \u00e9 --><resources>".toList ++
      "<string name=\"b\"/><string name=\"a\">\u00fc</string></resources>".toList)).map
        prologSpan = .ok ⟨21, 32⟩ := by
    decide +kernel
  rcases Success.map_eq_ok_iff.mp hread with ⟨document, hparse, hprolog⟩
  refine ⟨document, hparse, hprolog, ?_⟩
  rw [checkedPerform_eq (by decide) hparse, if_neg]
  rintro ⟨_, _, hreversed⟩
  rw [hprolog] at hreversed
  exact absurd hreversed (by decide)

/-- A declaration behind the opening tag: sorting would take the bytes from 32 to 0. -/
theorem checkedPerform_lateDeclaration :
    exists document : Document,
      PlainStart "<resources><?xml version=\"1.0\"?></resources>".toList ∧
        parse "<resources><?xml version=\"1.0\"?></resources>".toList = .ok document ∧
        document.prologSpan = ⟨32, 0⟩ ∧
        document.checkedPerform (.sort []) = none := by
  have hread : (parse "<resources><?xml version=\"1.0\"?></resources>".toList).map
      (fun document => (document.prologSpan, (document.checkedSort []).isNone)) =
        .ok (⟨32, 0⟩, true) := by
    decide +kernel
  rcases Success.map_eq_ok_iff.mp hread with ⟨document, hparse, hsort⟩
  rw [Prod.mk.injEq, Option.isNone_iff_eq_none] at hsort
  refine ⟨document, by decide, hparse, hsort.1, ?_⟩
  rw [checkedPerform, hsort.2]
  rfl

end Document
end AndroidStrings
