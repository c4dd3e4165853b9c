import AndroidStrings.Proofs.Document.Failure
import AndroidStrings.Proofs.Document.KeptKeys
import AndroidStrings.Proofs.Document.Sorting

/-!
# Distinct keys

A command that makes an element looks first whether there is one with its key, and the new element
is read with the key that it was written with.  Other commands keep the keys or take some away,
but sorting writes every element anew, and there the keys may change.  So in a row of commands the
keys stay apart exactly as long as sorting keeps them apart.

## Main statements

- `Rooted.perform` : what one command does to the keys of a document.
- `Rooted.performAll` : a row of commands leaves a document with its root element.
- `nodup_performAll_iff` : when the keys stay apart.
-/

namespace AndroidStrings

open Markup

namespace EditCommand

/-- The ids of new elements are valid, and the values are balanced fragments in their stored
form. -/
def Accepted : EditCommand -> Prop
  | set _ value mode => Fragment (mode.apply value)
  | setOrCreate id value mode => CommandLine.isValidId id = true ∧ Fragment (mode.apply value)
  | add id value mode => CommandLine.isValidId id = true ∧ Fragment (mode.apply value)
  | addPlural id forms mode =>
      CommandLine.isValidId id = true ∧ forall form, form ∈ forms -> Fragment (mode.apply form.2)
  | setPlurals id forms mode =>
      CommandLine.isValidId id = true ∧ forall form, form ∈ forms -> Fragment (mode.apply form.2)
  | remove _ => True
  | sort _ => True

end EditCommand

namespace Document

open Segments

/-- The keys that the blocks have when they are read on their own, as sorting writes them. -/
def writtenKeys (document : Document) : List EntryKind.Key :=
  ((document.writeBlocks document.lineEnding.text 0 document.blocks).flatMap
    WrittenBlock.entries).map Entry.key

/-- A document laid out in a row that has one root element, if it has an end tag of one at all. -/
structure Rooted (document : Document) (row : List Segment) : Prop
    extends LaidOut document row where
  single : RootMark.closes ∈ rootMarks row -> IsSingleRoot (rootMarks row)

/-- What a command does to the keys of a document. -/
inductive KeyStep (document : Document) (command : EditCommand) (edited : Document) : Prop where
  | kept
      (after : edited.order = document.order)
  | added (front back : List EntryKind.Key) (key : EntryKind.Key)
      (before : document.order = front ++ back)
      (fresh : key ∉ document.order)
      (after : edited.order = front ++ key :: back)
  | removed (id : Text)
      (after : edited.order = document.order.filter fun key => key.2 != id)
  | sorted (order : List EntryKind.Key)
      (command_eq : command = .sort order)
      (sort : document.sort order = .ok edited)
      (after : edited.order.Perm document.writtenKeys)

/-- A command leads to a document with its root element, and does no more to the keys than a
command may. -/
def StepsTo (document : Document) (command : EditCommand) (edited : Document) : Prop :=
  (exists row : List Segment, edited.Rooted row) ∧ KeyStep document command edited

section Steps

variable {document edited : Document} {row row' : List Segment} {command : EditCommand}

theorem Rooted.of_rootMarks
    (h : document.Rooted row)
    (hlaid : edited.LaidOut row')
    (hmarks : rootMarks row' = rootMarks row) :
    edited.Rooted row' :=
  { hlaid with single := by rw [hmarks]; exact h.single }

theorem Rooted.stepsTo_self
    (h : document.Rooted row) :
    document.StepsTo command document :=
  ⟨⟨row, h⟩, .kept rfl⟩

theorem Rooted.stepsTo_alike
    (h : document.Rooted row)
    (hlaid : edited.LaidOut row')
    (halike : Alike row row') :
    document.StepsTo command edited :=
  ⟨⟨row', h.of_rootMarks hlaid halike.rootMarks⟩,
    .kept (by rw [hlaid.order_eq, h.toLaidOut.order_eq, halike.keys])⟩

/-- Keys stay apart in every step but, maybe, a sort. -/
theorem KeyStep.nodup
    (h : KeyStep document command edited)
    (hnodup : document.order.Nodup)
    (hsort : forall order : List EntryKind.Key,
      command = .sort order -> document.sort order = .ok edited -> document.writtenKeys.Nodup) :
    edited.order.Nodup := by
  cases h with
  | kept after => rwa [after]
  | added front back key before fresh after =>
      rw [after, List.perm_middle.nodup_iff]
      rw [before] at hnodup fresh
      exact List.nodup_cons.mpr ⟨fresh, hnodup⟩
  | removed id after =>
      rw [after]
      exact hnodup.filter _
  | sorted order command_eq sort after => exact after.nodup_iff.mpr (hsort order command_eq sort)

end Steps

/-!
# Edits in place
-/

section Edits

variable {document : Document} {row : List Segment} {command : EditCommand} {id stored : Text}
  {kind : EntryKind} {forms items : List (Quantity × Text)} {mode : EscapeMode}

theorem not_mem_order
    (h : document.contains kind id = false) :
    (kind, id) ∉ document.order := by
  rw [mem_order_iff, h]
  exact Bool.false_ne_true

theorem Rooted.stepsTo_replaceString
    {edited : Document}
    (h : document.Rooted row)
    (hstored : Balanced stored)
    (hedit : document.replaceString id stored = .ok edited) :
    document.StepsTo command edited := by
  rcases h.exists_replaceString (contains_of_replaceString hedit) hstored with
    ⟨edited', row', hedited, hlaid, halike⟩
  rw [hedit, Except.ok.injEq] at hedited
  exact h.stepsTo_alike (hedited ▸ hlaid) halike

/-- A new element with a key that is not there yet. -/
theorem Rooted.stepsTo_insertEntry
    {edited : Document} {segment : Segment} {entry : Entry}
    (h : document.Rooted row)
    (hblock : segment.isBlock = true)
    (hfits : segment.Fits true)
    (hentries : segment.entries = [entry])
    (hfresh : entry.key ∉ document.order)
    (hedit : document.insertEntry segment.raw = .ok edited) :
    document.StepsTo command edited := by
  rcases h.toLaidOut.exists_inserted hblock hfits hentries hedit with
    ⟨row', front, back, hlaid, hmarks, hbefore, hafter⟩
  exact ⟨⟨row', h.of_rootMarks hlaid hmarks⟩, .added _ _ _ hbefore hfresh hafter⟩

theorem Rooted.stepsTo_insertString
    {edited : Document}
    (h : document.Rooted row)
    (hid : CommandLine.isValidId id = true)
    (hstored : Balanced stored)
    (hnew : document.contains .string id = false)
    (hedit : document.insertEntry (stringElement id stored) = .ok edited) :
    document.StepsTo command edited := by
  rcases hstored with ⟨inside, hinside, rfl⟩
  have hverbatim := isVerbatim_of_isValidId hid
  rw [← Segment.raw_newString] at hedit
  exact h.stepsTo_insertEntry rfl (Segment.fits_newString hverbatim.noQuote hinside)
    (Segment.entries_newString inside hverbatim) (not_mem_order hnew) hedit

theorem Rooted.stepsTo_insertPlurals
    {edited : Document}
    (h : document.Rooted row)
    (hid : CommandLine.isValidId id = true)
    (hforms : forall form, form ∈ forms -> Balanced form.2)
    (hnew : document.contains .plurals id = false)
    (hedit : document.insertEntry (pluralsElement id forms document.lineEnding) = .ok edited) :
    document.StepsTo command edited := by
  rcases exists_forests hforms with ⟨items, rfl, hitems⟩
  have hverbatim := isVerbatim_of_isValidId hid
  rw [← Segment.raw_newPlurals] at hedit
  exact h.stepsTo_insertEntry rfl (Segment.fits_newPlurals hverbatim.noQuote hitems)
    (Segment.entries_newPlurals _ items hverbatim) (not_mem_order hnew) hedit

theorem Rooted.stepsTo_setPlurals
    (h : document.Rooted row)
    (hid : CommandLine.isValidId id = true)
    (hforms : forall form, form ∈ forms -> Balanced (mode.apply form.2)) :
    document.StepsTo command (document.setPlurals id forms mode).document := by
  unfold setPlurals
  cases hitems : storedForms id mode forms with
  | error fault => exact h.stepsTo_self
  | ok items =>
      have hbalanced := forall_storedForms hforms hitems
      cases hfind : document.find? .plurals id with
      | none =>
          have hnew : document.contains .plurals id = false := by
            rw [contains, hfind]
            rfl
          exact whole_of_forall (p := StepsTo document _) h.stepsTo_self fun new hedit =>
            h.stepsTo_insertPlurals hid hbalanced hnew hedit
      | some node =>
          rcases h.exists_storeForms hfind (isVerbatim_of_isValidId hid) hbalanced with
            ⟨edited, row', hedited, hlaid, halike⟩
          simp only [hedited]
          exact h.stepsTo_alike hlaid halike

theorem Rooted.stepsTo_remove
    (h : document.Rooted row)
    (id : Text) :
    document.StepsTo command (document.remove id).document := by
  rcases h.exists_removeNext id .skipped with
    ⟨edited, kept, hedited, hlaid, hentries, _, hmarks⟩
  rw [remove, hedited]
  refine ⟨⟨kept, h.of_rootMarks hlaid hmarks⟩, .removed id ?_⟩
  rw [order, order, hentries, List.filter_map]
  rfl

end Edits

/-!
# Sorting
-/

/-- A sorted document has one root element, and consists of the blocks as they are written. -/
theorem Rooted.exists_outline
    {document sorted : Document} {row : List Segment} {order : List EntryKind.Key}
    (h : document.Rooted row)
    (hsort : document.sort order = .ok sorted) :
    exists (rooted : RootedRow) (outline : Outline),
      rooted.Reads document ∧
        List.Forall₂ (Group.Rewritten document.lineEnding) (rooted.arranged order)
          outline.groups ∧
        RootedRow.SortsTo document order outline sorted ∧
        sorted.Rooted (outline.row document.lineEnding).segments := by
  have hclosed : RootMark.closes ∈ rootMarks row := by
    by_contra hnone
    have hclose := h.toLaidOut.rootClose_eq_none_iff.mpr hnone
    rw [sort, rootCloseStart, hclose] at hsort
    cases hsort
  rcases exists_rootedRow_of_rootMarks h.fit (h.single hclosed) with ⟨rooted, hwell, hrow⟩
  have hraw : Segments.raw rooted.segments = document.text := by
    rw [hrow, h.raw]
  have hreads : rooted.Reads document :=
    RootedRow.reads_of_parse hwell (hraw ▸ h.plain) (hraw ▸ h.read)
  rcases RootedRow.exists_outline_of_sort hwell hreads hsort with
    ⟨outline, hrewritten, _, _, hsorted⟩
  have hwellSorted := hsorted.wellFormed.row document.lineEnding
  have htext := text_of_parse hsorted.parse
  have hrooted : sorted.Rooted (outline.row document.lineEnding).segments :=
    { plain := by
        rw [htext]
        exact Outline.plainStart_row _ _
      read := by
        rw [htext]
        exact hsorted.parse
      fit := hwellSorted.fit
      raw := htext.symm
      single := fun _ => hwellSorted.isSingleRoot }
  exact ⟨rooted, outline, hreads, hrewritten, hsorted, hrooted⟩

/-- A sorted document has the keys of the blocks as they are written. -/
theorem Rooted.exists_sorted
    {document sorted : Document} {row : List Segment} {order : List EntryKind.Key}
    (h : document.Rooted row)
    (hsort : document.sort order = .ok sorted) :
    exists row' : List Segment,
      sorted.Rooted row' ∧ sorted.order.Perm document.writtenKeys := by
  rcases h.exists_outline hsort with ⟨rooted, outline, hreads, hrewritten, hsorted, hrooted⟩
  exact ⟨_, hrooted, (hsorted.perm_entries hreads hrewritten).map Entry.key⟩

/-!
# Commands
-/

section Commands

variable {document : Document} {row : List Segment} {command : EditCommand}
  {commands : List EditCommand}

/-- One command, whatever comes of it. -/
theorem Rooted.perform
    (h : document.Rooted row)
    (haccepted : command.Accepted) :
    document.StepsTo command (document.perform command).document := by
  cases command with
  | set id value mode =>
      have hstored := balanced_of_fragment haccepted
      exact whole_of_forall (p := StepsTo document _) h.stepsTo_self fun new hedit =>
        h.stepsTo_replaceString hstored (set_eq_ok_iff.mp hedit).2
  | setOrCreate id value mode =>
      have hstored := balanced_of_fragment haccepted.2
      refine whole_of_forall (p := StepsTo document _) h.stepsTo_self fun new hedit => ?_
      unfold setOrCreate at hedit
      split at hedit
      · cases hedit
      · rename_i stored hvalue
        rw [eq_of_storedValue hvalue] at hedit
        split at hedit
        · exact h.stepsTo_replaceString hstored hedit
        · rename_i hnew
          exact h.stepsTo_insertString haccepted.1 hstored (Bool.not_eq_true _ ▸ hnew) hedit
  | add id value mode =>
      have hstored := balanced_of_fragment haccepted.2
      refine wholeOrSkipped_of_forall (p := StepsTo document _) h.stepsTo_self fun new hedit => ?_
      rcases add?_eq_some_iff.mp hedit with ⟨_, hnew, hinsert⟩
      exact h.stepsTo_insertString haccepted.1 hstored hnew hinsert
  | addPlural id forms mode =>
      refine wholeOrSkipped_of_forall (p := StepsTo document _) h.stepsTo_self fun new hedit => ?_
      rcases addPlural?_eq_some_iff.mp hedit with ⟨items, hitems, hnew, hinsert⟩
      have hforms := forall_storedForms
        (fun form hform => balanced_of_fragment (haccepted.2 form hform)) hitems
      exact h.stepsTo_insertPlurals haccepted.1 hforms hnew hinsert
  | setPlurals id forms mode =>
      exact h.stepsTo_setPlurals haccepted.1 fun form hform =>
        balanced_of_fragment (haccepted.2 form hform)
  | remove id => exact h.stepsTo_remove id
  | sort order =>
      refine whole_of_forall (p := StepsTo document _) h.stepsTo_self fun new hsort => ?_
      rcases h.exists_sorted hsort with ⟨row', hrow', hperm⟩
      exact ⟨⟨row', hrow'⟩, .sorted order rfl hsort hperm⟩

/-- A row of commands leaves a document with its root element. -/
theorem Rooted.performAll
    (h : document.Rooted row)
    (haccepted : forall command, command ∈ commands -> command.Accepted) :
    exists row' : List Segment, (document.performAll commands).Rooted row' := by
  induction commands generalizing document row with
  | nil => exact ⟨row, h⟩
  | cons command commands ih =>
      rw [List.forall_mem_cons] at haccepted
      rcases (h.perform haccepted.1).1 with ⟨row', hrow'⟩
      exact ih hrow' haccepted.2

theorem exists_rooted
    {text : Text}
    (hplain : PlainStart text)
    (hparse : parse text = .ok document)
    (hroot : SingleRoot text ∨ document.layout.rootClose = none) :
    exists row : List Segment, document.Rooted row := by
  have htext := text_of_parse hparse
  rcases hroot with hsingle | hnone
  · rcases exists_rootedRow hplain hparse hsingle with ⟨rooted, hwell, hraw⟩
    refine ⟨rooted.segments, ⟨htext ▸ hplain, htext ▸ hparse, hwell.fit, ?_⟩,
      fun _ => hwell.isSingleRoot⟩
    rw [htext, hraw]
  · rcases exists_laidOut (htext ▸ hplain) (htext ▸ hparse) with ⟨row, hlaid⟩
    exact ⟨row, hlaid, fun hmem => absurd hmem (hlaid.rootClose_eq_none_iff.mp hnone)⟩

theorem performAll_take_succ
    {count : Nat}
    (h : commands[count]? = some command) :
    document.performAll (commands.take (count + 1)) =
      ((document.performAll (commands.take count)).perform command).document := by
  rw [List.take_add_one, h, performAll, List.foldl_append]
  rfl

end Commands

/-!
# Main statement
-/

/-- Whatever comes of the commands, the keys stay apart exactly if every sort that succeeds writes
blocks whose keys, as they are read on their own, are apart. -/
theorem nodup_performAll_iff
    {text : Text} {document : Document} {commands : List EditCommand}
    (hplain : PlainStart text)
    (hparse : parse text = .ok document)
    (hroot : SingleRoot text ∨ document.layout.rootClose = none)
    (hnodup : document.order.Nodup)
    (haccepted : forall command, command ∈ commands -> command.Accepted) :
    (forall count : Nat, (document.performAll (commands.take count)).order.Nodup) ↔
      forall (count : Nat) (order : List EntryKind.Key) (sorted : Document),
        commands[count]? = some (.sort order) ->
          (document.performAll (commands.take count)).sort order = .ok sorted ->
            (document.performAll (commands.take count)).writtenKeys.Nodup := by
  rcases exists_rooted hplain hparse hroot with ⟨row, hrow⟩
  have hrooted : forall count : Nat, exists row' : List Segment,
      (document.performAll (commands.take count)).Rooted row' := by
    intro count
    exact hrow.performAll fun command hcommand => haccepted command (List.mem_of_mem_take hcommand)
  constructor
  · intro h count order sorted hcommand hsort
    have hnext := h (count + 1)
    rw [performAll_take_succ hcommand, perform, hsort] at hnext
    rcases hrooted count with ⟨row', hrow'⟩
    rcases hrow'.exists_sorted hsort with ⟨_, _, hperm⟩
    exact hperm.nodup_iff.mp hnext
  · intro h count
    induction count with
    | zero => exact hnodup
    | succ count ih =>
        cases hcommand : commands[count]? with
        | none =>
            rw [List.take_add_one, hcommand]
            simpa using ih
        | some command =>
            rcases hrooted count with ⟨row', hrow'⟩
            have hmem := List.mem_of_getElem? hcommand
            rw [performAll_take_succ hcommand]
            apply (hrow'.perform (haccepted command hmem)).2.nodup ih
            intro order heq hsort
            exact h count order _ (heq ▸ hcommand) hsort

/-- A value is replaced, the file is sorted, and a string is added. -/
def setSortAdd : List EditCommand :=
  [.set "a".toList "y".toList .raw, .sort [], .add "b".toList "z".toList .raw]

theorem nodup_performAll_iff_setSortAdd :
    exists document : Document,
      parse "<resources><string name=\"a\">x</string></resources>".toList = .ok document ∧
        (document.performAll setSortAdd).order =
          [(.string, "a".toList), (.string, "b".toList)] ∧
        forall count : Nat, (document.performAll (setSortAdd.take count)).order.Nodup := by
  let text := "<resources><string name=\"a\">x</string></resources>".toList
  have hrun : (parse text).map (fun document => ((document.performAll setSortAdd).order,
      decide (document.order.Nodup ∧
        (document.performAll (setSortAdd.take 1)).writtenKeys.Nodup))) =
          .ok ([(.string, "a".toList), (.string, "b".toList)], true) := by
    decide +kernel
  rcases Success.map_eq_ok_iff.mp hrun with ⟨document, hparse, hread⟩
  rw [Prod.mk.injEq, decide_eq_true_eq] at hread
  have hsingle : SingleRoot text :=
    ⟨[], [.startTag "string name=\"a\"".toList, .text "x".toList, .endTag "string".toList], [],
      "resources".toList, "resources".toList, by decide +kernel, by decide, by decide +kernel,
      by decide⟩
  have hfirst : Fragment (EscapeMode.raw.apply "y".toList) :=
    @Fragment.text "y".toList [] (by decide) .empty
  have hlast : Fragment (EscapeMode.raw.apply "z".toList) :=
    @Fragment.text "z".toList [] (by decide) .empty
  have haccepted : forall command, command ∈ setSortAdd -> command.Accepted := by
    simp only [setSortAdd, List.forall_mem_cons, List.not_mem_nil, false_implies, implies_true,
      and_true]
    exact ⟨hfirst, trivial, by decide, hlast⟩
  refine ⟨document, hparse, hread.1, ?_⟩
  apply (nodup_performAll_iff (by decide) hparse (.inl hsingle) hread.2.1 haccepted).mpr
  intro count order sorted hcommand _
  rcases count with _ | _ | _ | count
  · cases hcommand
  · exact hread.2.2
  · cases hcommand
  · simp [setSortAdd] at hcommand

/-- White space that is taken off a tag makes a second name of an attribute with another key, and
the element gets the key of another one. -/
theorem performAll_sort_noBreakSpace :
    exists document : Document,
      parse ("<resources>\n<plurals name=\"d\"/>\n".toList ++
          "<plurals x=\"\n</\" name=\"c\" name\u00a0\n=\"d\"/>\n</resources>\n".toList) =
            .ok document ∧
        SingleRoot ("<resources>\n<plurals name=\"d\"/>\n".toList ++
          "<plurals x=\"\n</\" name=\"c\" name\u00a0\n=\"d\"/>\n</resources>\n".toList) ∧
        (forall entry, entry ∈ document.entries ->
          CommandLine.isValidId entry.id = true) ∧
        document.order.Nodup ∧ (EditCommand.sort []).Accepted ∧
        ¬ (document.performAll [.sort []]).order.Nodup := by
  let document : Document :=
    { text := "<resources>\n<plurals name=\"d\"/>\n".toList ++
        "<plurals x=\"\n</\" name=\"c\" name\u00a0\n=\"d\"/>\n</resources>\n".toList
      layout :=
        { rootOpen := some ⟨0, 11⟩
          rootClose := some ⟨72, 84⟩
          nodes := [Reader.Node.ofEmptyTag ⟨.plurals, "d".toList, true⟩ ⟨12, 31⟩,
            Reader.Node.ofEmptyTag ⟨.plurals, "c".toList, true⟩ ⟨32, 71⟩] } }
  let sorted : Document :=
    { text := "<?xml version=\"1.0\" encoding=\"utf-8\"?>\n<resources>\n".toList ++
        "    <plurals name=\"d\"/>\n".toList ++
        "    <plurals x=\"\n    </\" name=\"c\" name\n=\"d\"/>\n</resources>\n".toList
      layout :=
        { declaration := some ⟨0, 38⟩
          rootOpen := some ⟨39, 50⟩
          rootClose := some ⟨121, 133⟩
          nodes := [Reader.Node.ofEmptyTag ⟨.plurals, "d".toList, true⟩ ⟨55, 74⟩,
            Reader.Node.ofEmptyTag ⟨.plurals, "d".toList, true⟩ ⟨79, 120⟩] } }
  have hsort : document.sort [] = parse sorted.text := by
    apply sort_of_ordered rfl (by decide) rfl (by decide)
    intro hblocks
    unfold sortedText
    rw [hblocks]
    decide +kernel
  have hread : parse sorted.text = .ok sorted := by
    decide +kernel
  refine ⟨document, by decide +kernel, ?_, by decide, by decide, trivial, ?_⟩
  · exact ⟨[], [.text "\n".toList, .emptyTag "plurals name=\"d\"".toList, .text "\n".toList,
      .emptyTag "plurals x=\"\n</\" name=\"c\" name\u00a0\n=\"d\"".toList,
      .text "\n".toList], [.text "\n".toList], "resources".toList, "resources".toList,
      by decide +kernel, by decide, by decide +kernel, by decide⟩
  · have hedited : (document.perform (.sort [])).document = sorted := by
      rw [perform, hsort, hread]
      rfl
    rw [performAll, List.foldl_cons, List.foldl_nil, hedited]
    decide

end Document
end AndroidStrings
