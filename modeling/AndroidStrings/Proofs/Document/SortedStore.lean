import Mathlib.Data.List.Find
import AndroidStrings.Proofs.Document.BlockExchange

/-!
# A value before sorting, and after it

A value is stored in the first string of its id.  Before sorting and after sorting this is the
same element, unless another one is read with the id once it was written, and comes first.  That
takes a name over several lines whose line endings are not those of its file.

## Main statements

- `keepsFirst_of_uniform` : with line endings of one sort the first string stays the first one.
- `set_sort_iff` : when a value may be stored before sorting or after it.
-/

namespace AndroidStrings

open Markup

/-!
# The first block with a key
-/

namespace Document

/-- Written in an order, the first block that is read with a key is the first one that had it. -/
def KeepsFirst (document : Document) (order : List EntryKind.Key) (key : EntryKind.Key) : Prop :=
  ((document.written order).find? fun written => written.reread.key == some key) =
    (document.written order).find? fun written => written.key == some key

instance (document : Document) (order : List EntryKind.Key) (key : EntryKind.Key) :
    Decidable (document.KeepsFirst order key) :=
  inferInstanceAs (Decidable (_ = _))

end Document

/-- Of two properties that an item has, the first item with the one is the first item with the
other, unless an item in front has the other. -/
theorem find?_eq_find?_iff
    {α : Type} {p q : α -> Bool} {front back : List α} {item : α}
    (hfront : forall other, other ∈ front -> p other = false)
    (hp : p item = true)
    (hq : q item = true) :
    (front ++ item :: back).find? q = (front ++ item :: back).find? p ↔
      forall other, other ∈ front -> q other = false := by
  have hnone : front.find? p = none := by simpa using hfront
  rw [List.find?_append, List.find?_append, hnone, List.find?_cons_of_pos hp,
    List.find?_cons_of_pos hq, Option.none_or]
  cases hfind : front.find? q with
  | none => simpa using hfind
  | some other =>
      have hmem := List.mem_of_find?_eq_some hfind
      have hother := List.find?_some hfind
      constructor
      · intro heq
        rw [Option.some_or, Option.some.injEq] at heq
        rw [heq] at hmem
        rw [hfront item hmem] at hp
        simp at hp
      · intro hall
        rw [hall other hmem] at hother
        simp at hother

namespace LineExchange

section Keys

variable {row : RootedRow} {document document' sorted : Document} {segment segment' : Segment}
  {order : List EntryKind.Key}

/-- The block is the first one of its key in the sorted document, if no block before it is read
with this key. -/
theorem SortsBoth.keepsFirst_iff
    {key : EntryKind.Key}
    (both : SortsBoth row document document' segment segment' order sorted)
    (hreads : row.Reads document)
    (hkey : segment.key? = some key) :
    document.KeepsFirst order key ↔
      forall other, other ∈ both.front -> other.block.key? ≠ some key := by
  let write := Group.write document.lineEnding
  have hold : forall written, written ∈ both.before.map write ->
      (written.key == some key) = false := by
    rw [List.forall_mem_map]
    intro other hother
    rw [beq_eq_false_iff_ne, ← hkey]
    exact both.first other hother
  have hnew : both.before.map (fun group => (write group).reread.key) =
      both.front.map fun group => group.block.key? := by
    rw [← List.forall₂_eq_eq_eq, List.forall₂_map_left_iff, List.forall₂_map_right_iff]
    exact both.rewritten.imp fun _ _ => Group.Rewritten.key_reread
  have hreread : ((write ⟨both.above, segment⟩).reread.key == some key) = true := by
    rw [both.kept.key_reread]
    exact beq_iff_eq.mpr hkey
  unfold Document.KeepsFirst
  rw [hreads.written_eq, both.arranged, List.map_append, List.map_cons,
    find?_eq_find?_iff hold (beq_iff_eq.mpr hkey) hreread, List.forall_mem_map]
  have hkeys := List.forall_mem_map (f := fun group => (write group).reread.key)
    (l := both.before) (P := fun found => found ≠ some key)
  rw [hnew, List.forall_mem_map] at hkeys
  rw [hkeys]
  exact forall₂_congr fun _ _ => beq_eq_false_iff_ne

end Keys
end LineExchange

/-!
# Line endings of one sort
-/

namespace Document

/-- A string with the line endings of its file is written as it is. -/
theorem elementText_of_inStyle
    {ending : LineEnding} {element : Text}
    (hmarkup : Text.IsMarkup element)
    (hstyle : Text.InStyle ending element) :
    elementText false ending element = element := by
  rcases hstyle.exists_withLines hmarkup with ⟨first, rest, hlines, heq⟩
  have hfirst : Text.trimStart CharClass.isWhiteSpace first = first := by
    apply trimStart_of_markup
    have hhead := hmarkup.1
    rw [← heq] at hhead
    cases first with
    | nil => cases rest <;> cases ending <;> simp [Text.withLines, LineEnding.text] at hhead
    | cons c first => exact hhead
  have hrest : rest.map (writeElementLine false) = rest := by
    conv_rhs => rw [← List.map_id rest]
    rfl
  rw [elementText, Text.rewriteLines_of_lines hlines, hfirst, hrest, heq]

end Document

/-- With the line endings of its file a string is read with its key, and nothing else is read as
a string. -/
theorem Group.WellFormed.key_reread_iff
    {ending : LineEnding} {group : Group} {id : Text}
    (h : group.WellFormed)
    (hstyle : Text.InStyle ending group.block.raw) :
    (group.write ending).reread.key = some (.string, id) ↔
      group.block.key? = some (.string, id) := by
  by_cases htag : EntryKind.ofTag? group.block.tag = some .string
  · rcases exists_rewrittenComments ending h.above with ⟨above, habove, hspelled⟩
    have hkept := Document.elementText_of_inStyle (Segment.isMarkup_raw h.isBlock) hstyle
    rw [← Segment.hasItems_of_tag h.isBlock h.readable htag] at hkept
    rw [(h.rewritten_of_kept hkept habove hspelled).key_reread]
  · have hnone : forall segment : Segment, segment.isBlock = true -> segment.Readable ->
        segment.tag = group.block.tag -> segment.key? ≠ some (.string, id) := by
      intro segment hblock hreadable hsame hkey
      rcases hreadable.key?_eq hblock with ⟨other, hother⟩
      rw [hkey, hsame, eq_comm, Option.map_eq_some_iff] at hother
      rcases hother with ⟨kind, hkind, heq⟩
      rw [Prod.mk.injEq] at heq
      exact htag (heq.1 ▸ hkind)
    refine iff_of_false ?_ (hnone group.block h.isBlock h.readable rfl)
    intro hkey
    cases halone : (group.write ending).alone with
    | error e => simp [Document.WrittenBlock.reread, halone] at hkey
    | ok document =>
        rcases exists_rewritten_of_alone h halone with ⟨group', hgroup'⟩
        rw [hgroup'.key_reread] at hkey
        exact hnone group'.block hgroup'.wellFormed.isBlock hgroup'.wellFormed.readable
          hgroup'.tag hkey

theorem RootedRow.Reads.block_isInfix
    {row : RootedRow} {document : Document} {group : Group}
    (h : row.Reads document)
    (hgroup : group ∈ Segments.groups [] row.inside) :
    group.block.raw <:+: document.text := by
  rcases List.append_of_mem (Segments.block_mem_of_groups hgroup) with ⟨front, back, heq⟩
  rw [h.text_inside, heq, Segments.raw_append, Segments.raw_cons]
  exact ⟨spell row.front ++ (Event.startTag row.opening).raw ++ Segments.raw front,
    Segments.raw back ++ ((Event.endTag row.closing).raw ++ spell row.back), by simp⟩

namespace Document

/-- With line endings of one sort no string gets another key. -/
theorem keepsFirst_of_uniform
    {text : Text} {document : Document}
    (hplain : PlainStart text)
    (hparse : parse text = .ok document)
    (hsingle : SingleRoot text)
    (huniform : Text.Uniform text)
    (order : List EntryKind.Key) (id : Text) :
    document.KeepsFirst order (.string, id) := by
  rcases exists_rootedRow hplain hparse hsingle with ⟨row, hrow, rfl⟩
  have hreads := RootedRow.reads_of_parse hrow hplain hparse
  rw [← hreads.text] at huniform
  have hgroups := hreads.forall_arranged hrow order
  have hsame : forall group, group ∈ row.arranged order ->
      ((group.write document.lineEnding).reread.key == some (.string, id)) =
        ((group.write document.lineEnding).key == some (.string, id)) := by
    intro group hgroup
    have hwell := (hgroups group hgroup).1
    have hmem := (arrange_perm _ order _).mem_iff.mp hgroup
    have hstyle := Text.InStyle.of_isMarkup ((Text.uniform_iff_inStyle _).mp huniform)
      (hreads.block_isInfix hmem) (Segment.isMarkup_raw hwell.isBlock)
    rw [Bool.eq_iff_iff, beq_iff_eq, beq_iff_eq]
    exact hwell.key_reread_iff hstyle
  unfold KeepsFirst
  rw [hreads.written_eq, List.find?_map, List.find?_map]
  exact congrArg _ (List.find?_congr hsame)

end Document

/-!
# Storing and sorting
-/

/-- In a sorted document a value is stored in the first group with the key. -/
theorem RootedRow.SortsTo.exists_set
    {document sorted : Document} {order : List EntryKind.Key} {outline : Outline}
    {front back : List Group} {above : List Text} {segment : Segment} {id value : Text}
    {mode : EscapeMode} {inside : Forest}
    (h : SortsTo document order outline sorted)
    (hgroups : outline.groups = front ++ ⟨above, segment⟩ :: back)
    (hfront : forall other, other ∈ front -> other.block.key? ≠ some (.string, id))
    (hkey : segment.key? = some (.string, id))
    (hstored : Document.storedValue id value mode = .ok inside.raw)
    (hinside : inside.WellFormed) :
    (outline.withGroups (front ++ ⟨above, segment.withInside inside⟩ :: back)).WellFormed ∧
      exists edited : Document,
        sorted.set id value mode = .ok edited ∧
          edited.text = Segments.raw ((outline.withGroups
            (front ++ ⟨above, segment.withInside inside⟩ :: back)).row
              document.lineEnding).segments ∧
          (edited.text = sorted.text ↔ (segment.withInside inside).raw = segment.raw) := by
  have hlaid := Outline.laidOut h.wellFormed h.parse
  have hmem : forall (groups : List Group) (group : Group), group ∈ groups ->
      group.block ∈ ((outline.withGroups groups).row document.lineEnding).segments := by
    intro groups group hgroup
    simp only [RootedRow.segments, Outline.row, Outline.withGroups, List.mem_append, List.mem_cons,
      List.mem_flatMap]
    refine .inr (.inr (.inl (.inr (.inl ⟨group, hgroup, ?_⟩))))
    simp [Group.row, Segments.line]
  have hcontains : sorted.contains .string id :=
    hlaid.contains_of_key? (hmem outline.groups ⟨above, segment⟩ (by simp [hgroups])) hkey
  rcases hlaid.exists_store hcontains hinside with ⟨edited, hedit, hnew, _⟩
  rw [Outline.store_row hgroups hfront hkey] at hnew
  have hmem' := hmem (front ++ ⟨above, segment.withInside inside⟩ :: back)
    ⟨above, segment.withInside inside⟩ (by simp)
  have hblock := Segment.isBlock_of_key? (Segment.key?_withInside hkey inside)
  have hold := h.wellFormed.groups ⟨above, segment⟩ (by simp [hgroups])
  have hgroup : (Group.mk above (segment.withInside inside)).WellFormed :=
    ⟨hold.above, hblock, hnew.fits_of_isBlock hmem' hblock, hnew.readable _ hmem'⟩
  have hsame : outline = outline.withGroups (front ++ ⟨above, segment⟩ :: back) := by
    rw [← hgroups]
    rfl
  refine ⟨h.wellFormed.exchange hgroups hgroup, edited, ?_, hnew.raw.symm, ?_⟩
  · rw [Document.set, hstored]
    exact hedit
  · rw [← hnew.raw, ← hlaid.raw]
    conv_lhs => rhs; rw [hsame]
    exact Outline.raw_withGroups_iff outline front back above segment _ _

namespace Document

section

variable {text id value stored : Text} {mode : EscapeMode} {document : Document} {node : Node}

/-- A value without markup, on one line, is stored in a string on one line.  Whether this is done
before sorting or after it, the text is the same exactly when the string stays the first one of its
id, or the value changes nothing either way. -/
theorem set_sort_iff
    (hplain : PlainStart text)
    (hparse : parse text = .ok document)
    (hsingle : SingleRoot text)
    (hfind : document.find? .string id = some node)
    (hline : '\n' ∉ document.slice node.outer)
    (hstored : storedValue id value mode = .ok stored)
    (hmarkup : '<' ∉ stored)
    (hfeed : '\n' ∉ stored)
    (order : List EntryKind.Key) :
    exists edited : Document,
      document.set id value mode = .ok edited ∧
        ((exists sorted : Document, document.sort order = .ok sorted) ↔
          exists setSorted : Document, edited.sort order = .ok setSorted) ∧
        forall sorted : Document, document.sort order = .ok sorted ->
          exists setSorted sortedSet : Document,
            edited.sort order = .ok setSorted ∧ sorted.set id value mode = .ok sortedSet ∧
              (setSorted.text = sortedSet.text ↔
                document.KeepsFirst order (.string, id) ∨
                  edited.text = document.text ∧ sortedSet.text = sorted.text) := by
  rcases balanced_of_fragment (Fragment.of_text hmarkup) with ⟨inside, hinside, rfl⟩
  rcases exists_lineExchange hplain hparse hsingle hfind hline hinside hfeed with
    ⟨edited, row, row', segment, hedit, hkey, hexchange⟩
  refine ⟨edited, ?_, ⟨?_, ?_⟩, ?_⟩
  · rw [set, hstored]
    exact hedit
  · rintro ⟨sorted, hsort⟩
    rcases hexchange.nonempty_sortsBoth hsort with ⟨both⟩
    exact ⟨both.sorted', both.sort'⟩
  · rintro ⟨setSorted, hsort⟩
    rcases hexchange.symm.nonempty_sortsBoth hsort with ⟨both⟩
    exact ⟨both.sorted', both.sort'⟩
  intro sorted hsort
  rcases hexchange.nonempty_sortsBoth hsort with ⟨both⟩
  rw [both.keepsFirst_iff hexchange.reads hkey]
  cases hfirst : both.front.find? fun other => other.block.key? == some (.string, id) with
  | none =>
      have hnone : forall other, other ∈ both.front -> other.block.key? ≠ some (.string, id) := by
        simpa using hfirst
      rcases both.sorts.exists_set both.groups hnone hkey hstored hinside with
        ⟨_, sortedSet, hset, htext, _⟩
      refine ⟨both.sorted', sortedSet, both.sort', hset, iff_of_true ?_ (.inl hnone)⟩
      rw [both.text', htext]
  | some other =>
      rcases List.find?_eq_some_iff_append.mp hfirst with
        ⟨hother, early, middle, hsplit, hearly⟩
      have hne : ¬ forall group, group ∈ both.front -> group.block.key? ≠ some (.string, id) :=
        fun hall => hall other (by simp [hsplit]) (beq_iff_eq.mp hother)
      have hgroups := both.groups
      rw [hsplit, List.append_assoc, List.cons_append] at hgroups
      rcases both.sorts.exists_set hgroups (by simpa using hearly) (beq_iff_eq.mp hother) hstored
        hinside with ⟨hwell, sortedSet, hset, htext, hsame⟩
      refine ⟨both.sorted', sortedSet, both.sort', hset, ?_⟩
      have hwell' := both.wellFormed'
      have htext' := both.text'
      rw [hsplit, List.append_assoc, List.cons_append] at hwell' htext'
      -- The texts differ in two places, the first string's and the other one's.
      rw [or_iff_right hne, hexchange.text_eq_iff, hsame, htext', htext, eq_comm,
        Outline.raw_withGroups_two_iff hwell hwell', and_comm]

end

/-- A string that closes itself moves in front of another one, with its comment. -/
theorem set_sort_iff_selfClosing :
    exists document edited setSorted sorted sortedSet : Document,
      parse ("<resources><string name=\"b\">1</string><!-- c -->".toList ++
          "<string name=\"a\" /></resources>".toList) = .ok document ∧
        document.set "a".toList "x".toList .raw = .ok edited ∧
        edited.sort [(.string, "a".toList)] = .ok setSorted ∧
        document.sort [(.string, "a".toList)] = .ok sorted ∧
        sorted.set "a".toList "x".toList .raw = .ok sortedSet ∧
        setSorted.text = sortedSet.text := by
  let document : Document :=
    { text := "<resources><string name=\"b\">1</string><!-- c -->".toList ++
        "<string name=\"a\" /></resources>".toList
      layout :=
        { rootOpen := some ⟨0, 11⟩
          rootClose := some ⟨67, 79⟩
          nodes := [⟨⟨"b".toList, .singular "1".toList, true⟩, ⟨11, 38⟩, ⟨28, 29⟩, false, []⟩,
            Reader.Node.ofEmptyTag ⟨.string, "a".toList, true⟩ ⟨48, 67⟩]
          comments := [⟨38, 48⟩] } }
  have hparse : parse document.text = .ok document := by decide +kernel
  have hsingle : SingleRoot document.text :=
    ⟨[], [.startTag "string name=\"b\"".toList, .text "1".toList, .endTag "string".toList,
      .comment "-- c --".toList, .emptyTag "string name=\"a\" ".toList], [], "resources".toList,
      "resources".toList, by decide +kernel, by decide, by decide +kernel, by decide⟩
  have hsort : document.sort [(.string, "a".toList)] =
      parse ("<?xml version=\"1.0\" encoding=\"utf-8\"?>\n<resources>\n    <!-- c -->\n".toList ++
        "    <string name=\"a\" />\n    <string name=\"b\">1</string>\n</resources>\n".toList) := by
    apply sort_of_ordered rfl (by decide) rfl (by decide)
    intro hblocks
    unfold sortedText
    rw [hblocks]
    decide +kernel
  have hok : (document.sort [(.string, "a".toList)]).isOk = true := by
    rw [hsort]
    decide +kernel
  rcases Success.isOk_iff.mp hok with ⟨sorted, hsorted⟩
  have hstored : storedValue "a".toList "x".toList .raw = .ok "x".toList := by decide +kernel
  have hkeeps := keepsFirst_of_uniform (by decide) hparse hsingle (.inl (by decide))
    [(.string, "a".toList)] "a".toList
  have hfind : document.find? .string "a".toList =
      some (Reader.Node.ofEmptyTag ⟨.string, "a".toList, true⟩ ⟨48, 67⟩) := by decide
  rcases set_sort_iff (by decide) hparse hsingle hfind (by decide +kernel) hstored (by decide)
    (by decide) [(.string, "a".toList)] with ⟨edited, hset, _, hboth⟩
  rcases hboth sorted hsorted with ⟨setSorted, sortedSet, hsetSorted, hsortedSet, hiff⟩
  exact ⟨document, edited, setSorted, sorted, sortedSet, hparse, hset, hsetSorted, hsorted,
    hsortedSet, hiff.mpr (.inl hkeeps)⟩

/-- A string whose name holds a line feed in a file with other line endings, and one whose name
is written with references. -/
def lineFeedName (second : Char) : Document where
  text := "<resources>\r\n<string name=\"x\ny\">1</string>\r\n".toList ++
    "<string name=\"x&#13;&#10;y\">".toList ++ second :: "</string>\r\n</resources>".toList
  layout :=
    { rootOpen := some ⟨0, 11⟩
      rootClose := some ⟨84, 96⟩
      nodes := [⟨⟨"x\ny".toList, .singular "1".toList, true⟩, ⟨13, 42⟩, ⟨32, 33⟩, false, []⟩,
        ⟨⟨"x\r\ny".toList, .singular [second], true⟩, ⟨44, 82⟩, ⟨72, 73⟩, false, []⟩] }

/-- What sorting makes of it. -/
def lineFeedNameSorted (first second : Char) : Document where
  text := "<?xml version=\"1.0\" encoding=\"utf-8\"?>\r\n<resources>\r\n".toList ++
    "    <string name=\"x\r\ny\">".toList ++ first :: "</string>\r\n".toList ++
    "    <string name=\"x&#13;&#10;y\">".toList ++ second :: "</string>\r\n</resources>\r\n".toList
  layout :=
    { declaration := some ⟨0, 38⟩
      rootOpen := some ⟨40, 51⟩
      rootClose := some ⟨133, 145⟩
      nodes := [⟨⟨"x\r\ny".toList, .singular [first], true⟩, ⟨57, 87⟩, ⟨77, 78⟩, false, []⟩,
        ⟨⟨"x\r\ny".toList, .singular [second], true⟩, ⟨93, 131⟩, ⟨121, 122⟩, false, []⟩] }

/-- Written with the line ending of the file, the name of another string becomes the name of the
one that is set. -/
theorem set_sort_lineFeedName :
    parse (lineFeedName '2').text = .ok (lineFeedName '2') ∧
      SingleRoot (lineFeedName '2').text ∧
      ((lineFeedName '2').find? .string "x\r\ny".toList).map
          (fun node => (lineFeedName '2').slice node.outer) =
        some "<string name=\"x&#13;&#10;y\">2</string>".toList ∧
      (lineFeedName '2').set "x\r\ny".toList "z".toList .raw = .ok (lineFeedName 'z') ∧
      (lineFeedName 'z').sort [] = .ok (lineFeedNameSorted '1' 'z') ∧
      (lineFeedName '2').sort [] = .ok (lineFeedNameSorted '1' '2') ∧
      (lineFeedNameSorted '1' '2').set "x\r\ny".toList "z".toList .raw =
        .ok (lineFeedNameSorted 'z' '2') ∧
      (lineFeedNameSorted '1' 'z').text ≠ (lineFeedNameSorted 'z' '2').text := by
  have hsort : (lineFeedName '2').sort [] = parse (lineFeedNameSorted '1' '2').text := by
    apply sort_of_ordered rfl (by decide) rfl (by decide)
    intro hblocks
    unfold sortedText
    rw [hblocks]
    decide +kernel
  have hsetSort : (lineFeedName 'z').sort [] = parse (lineFeedNameSorted '1' 'z').text := by
    apply sort_of_ordered rfl (by decide) rfl (by decide)
    intro hblocks
    unfold sortedText
    rw [hblocks]
    decide +kernel
  refine ⟨by decide +kernel, ?_, by decide +kernel, by decide +kernel, ?_, ?_, by decide +kernel,
    by decide⟩
  · exact ⟨[], [.text "\r\n".toList, .startTag "string name=\"x\ny\"".toList, .text "1".toList,
      .endTag "string".toList, .text "\r\n".toList,
      .startTag "string name=\"x&#13;&#10;y\"".toList, .text "2".toList,
      .endTag "string".toList, .text "\r\n".toList], [], "resources".toList,
      "resources".toList, by decide +kernel, by decide, by decide +kernel, by decide⟩
  · rw [hsetSort]
    decide +kernel
  · rw [hsort]
    decide +kernel

end Document
end AndroidStrings
