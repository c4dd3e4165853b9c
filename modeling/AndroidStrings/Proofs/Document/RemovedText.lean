import AndroidStrings.Proofs.Document.Failure

/-!
# The text that a removal leaves

Every element of a name goes, and with it no more than the blanks around it and the end of its line,
where the line held nothing else when its turn came.  The elements that go are those of the name, as
they stood in the text before the first of them went, and whatever else stood between them stays.

## Main statements

- `Removal.exists_kept` : the elements of a name are cut out of the text one after another.
- `remove_named` : what a removal takes out of a document, and what it leaves.
-/

namespace AndroidStrings

open Markup

namespace Segment

/-- Whether a segment makes up an entry of a wanted name. -/
def isWanted (wanted : Text -> Bool) (segment : Segment) : Bool :=
  segment.entries.any fun entry => wanted entry.id

theorem isWanted_of_entries_eq_nil
    {segment : Segment}
    (h : segment.entries = [])
    (wanted : Text -> Bool) :
    segment.isWanted wanted = false := by
  rw [isWanted, h]
  rfl

theorem isWanted_of_isText
    {segment : Segment}
    (h : segment.isText = true)
    (wanted : Text -> Bool) :
    segment.isWanted wanted = false :=
  isWanted_of_entries_eq_nil (entries_of_isText h) wanted

theorem comment?_of_isText
    {segment : Segment}
    (h : segment.isText = true) :
    segment.comment? = none := by
  rcases exists_text_of_isText h with ⟨content, rfl | rfl⟩ <;> rfl

/-- An element that makes up no entry makes up none of a wanted name. -/
theorem isWanted_of_isForeign
    {segment : Segment}
    (hreadable : segment.Readable)
    (hforeign : segment.isForeign = true)
    (wanted : Text -> Bool) :
    segment.isWanted wanted = false := by
  apply isWanted_of_entries_eq_nil
  by_contra hentries
  rw [isForeign_of_entries hreadable hentries] at hforeign
  cases hforeign

theorem isWanted_of_comment?
    {segment : Segment}
    (h : segment.comment?.isSome = true)
    (wanted : Text -> Bool) :
    segment.isWanted wanted = false := by
  apply isWanted_of_entries_eq_nil
  unfold comment? at h
  split at h
  · rfl
  · cases h

/-- A segment makes up an entry of a name that is not wanted, or an entry of one that is. -/
theorem isWanted_not
    {segment : Segment}
    (hreadable : segment.Readable)
    (wanted : Text -> Bool) :
    (segment.isWanted (fun _ => true) && !segment.isWanted wanted) =
      segment.isWanted fun name => !wanted name := by
  rcases hreadable with ⟨found, hfound⟩
  simp only [isWanted, ← entries_of_layoutAt hfound]
  rcases nodes_of_layoutAt hfound with hnone | ⟨node, hone⟩
  · rw [hnone]
    rfl
  · simp [hone]

end Segment

namespace Segments

theorem takenUp_comments :
    TakenUp Layout.comments fun segment => segment.comment?.isSome where
  empty := rfl
  append _ _ := rfl
  layoutAt := by
    intro start segment found h
    cases hblock : segment.isBlock with
    | true =>
        rw [(Segment.layoutAt_of_isBlock hblock h).2.1, comment?_of_isBlock hblock]
        rfl
    | false =>
        rw [Segment.comments_of_layoutAt hblock h]
        cases segment.comment? <;> rfl

theorem takenUp_elements (wanted : Text -> Bool) :
    TakenUp
      (fun layout => (layout.nodes.filter fun node => wanted node.id).map Node.outer)
      (Segment.isWanted wanted) where
  empty := rfl
  append front back := by
    rw [Layout.nodes_append, List.filter_append, List.map_append]
  layoutAt := by
    intro start segment found h
    have hentries := Segment.entries_of_layoutAt h
    rcases Segment.nodes_of_layoutAt h with hnone | ⟨node, hone⟩
    · rw [hnone, List.map_nil] at hentries
      rw [hnone, Segment.isWanted_of_entries_eq_nil hentries.symm]
      rfl
    · rw [hone, List.map_singleton] at hentries
      have hwanted : segment.isWanted wanted = wanted node.id := by
        rw [Segment.isWanted, ← hentries, List.any_cons, List.any_nil, Bool.or_false]
        rfl
      rw [hone, hwanted, List.filter_cons]
      split
      · exact congrArg (fun span => [span]) (Segment.outer_of_layoutAt h hone).2
      · rfl

end Segments

namespace Document

/-- The elements of wanted names, as they stand in the text. -/
def elements (document : Document) (wanted : Text -> Bool) : List Text :=
  (document.nodes.filter fun node => wanted node.id).map fun node => document.slice node.outer

/-- The comments directly in the root element, as they stand in the text. -/
def commentTexts (document : Document) : List Text :=
  document.layout.comments.map document.slice

section Row

variable {document edited : Document} {row kept : List Segment}

/-- What segments that are no plain text take up, as it stands in the text. -/
theorem LaidOut.slice_solid
    {spans : Layout -> List Span} {sort : Segment -> Bool}
    (h : document.LaidOut row)
    (htaken : Segments.TakenUp spans sort)
    (hsort : forall segment : Segment, segment.isText = true -> sort segment = false) :
    (spans document.layout).map document.slice =
      ((Segments.solid row).filter sort).map Segment.raw := by
  rw [h.slice_eq htaken, Segments.filter_solid hsort]

theorem LaidOut.elements_eq (h : document.LaidOut row) (wanted : Text -> Bool) :
    document.elements wanted =
      ((Segments.solid row).filter (Segment.isWanted wanted)).map Segment.raw := by
  rw [← h.slice_solid (Segments.takenUp_elements wanted)
    fun _ htext => Segment.isWanted_of_isText htext wanted, List.map_map]
  rfl

/-- One element is cut out, the first one of its name. -/
theorem LaidOut.exists_cut
    {id : Text} {node : Node}
    (h : document.LaidOut row)
    (hfind : document.nodes.find? (fun node => node.id == id) = some node)
    (hsplice : document.splice (document.text.lineExtent node.outer) [] = .ok edited) :
    exists kept : List Segment,
      edited.LaidOut kept ∧
        Segments.solid kept =
          (Segments.solid row).eraseP (Segment.isWanted (· == id)) ∧
        document.elements (· == id) =
          document.slice node.outer :: edited.elements (· == id) ∧
        Text.CutsOut (document.slice node.outer) document.text edited.text := by
  rcases h.exists_splice_lineExtent hfind with
    ⟨next, front, segment, back, kept, hnext, hkept, _, hrow, hblock, hentries, hfront, hsolid,
      hcut⟩
  rw [hsplice, Except.ok.injEq] at hnext
  subst hnext
  have hwanted : segment.isWanted (· == id) = true := by
    have hid := List.find?_some (p := fun node : Node => node.id == id) hfind
    rw [Segment.isWanted, hentries, List.any_cons, List.any_nil, Bool.or_false]
    exact hid
  have hnone : forall other, other ∈ Segments.solid front ->
      ¬ other.isWanted (· == id) = true := by
    intro other hother hname
    rcases List.any_eq_true.mp hname with ⟨entry, hentry, hid⟩
    have hmem := List.mem_flatMap.mpr ⟨other, List.mem_of_mem_filter hother, hentry⟩
    exact absurd ((hfront entry hmem).symm.trans hid) Bool.false_ne_true
  have hsplit : Segments.solid row =
      Segments.solid front ++ segment :: Segments.solid back := by
    rw [hrow, Segments.solid_append,
      Segments.solid_cons_of_not_isText (Segment.isText_of_isBlock hblock)]
  have herase : Segments.solid kept =
      (Segments.solid row).eraseP (Segment.isWanted (· == id)) := by
    rw [hsolid, Segments.solid_append, hsplit, List.eraseP_append_right _ hnone,
      List.eraseP_cons_of_pos hwanted]
  have hlist : document.elements (· == id) = segment.raw :: edited.elements (· == id) := by
    rw [h.elements_eq, hkept.elements_eq, hsolid, hsplit, Segments.solid_append,
      List.filter_append, List.filter_append, List.filter_eq_nil_iff.mpr hnone,
      List.filter_cons_of_pos hwanted]
    rfl
  have hslice : document.slice node.outer = segment.raw := by
    have hhead := congrArg List.head? hlist
    rw [elements, List.head?_map, List.head?_filter, hfind] at hhead
    exact Option.some.inj hhead
  exact ⟨kept, hkept, herase, hslice ▸ hlist, hslice ▸ hcut⟩

end Row

/-!
# The pieces of a removal
-/

/-- Pieces are cut out of a text one after another. -/
inductive CutsOutAll : List Text -> Text -> Text -> Prop where
  | nil (text : Text) :
      CutsOutAll [] text text
  | cons {piece old next new : Text} {pieces : List Text} :
      Text.CutsOut piece old next ->
      CutsOutAll pieces next new ->
      CutsOutAll (piece :: pieces) old new

/-- What is cut out are the elements of the name, and all else stays, in its order. -/
theorem Removal.exists_kept
    {id : Text} {document edited : Document} {removed : List Text} {row : List Segment}
    (hremoval : Removal id document removed edited)
    (h : document.LaidOut row) :
    exists kept : List Segment,
      edited.LaidOut kept ∧
        Segments.solid kept =
          (Segments.solid row).filter (fun segment => !segment.isWanted (· == id)) ∧
        removed = document.elements (· == id) ∧
        CutsOutAll removed document.text edited.text := by
  induction hremoval generalizing row with
  | done hnone =>
      rw [← List.head?_filter, List.head?_eq_none_iff] at hnone
      rename_i document
      have helements : document.elements (· == id) = [] := by
        rw [elements, hnone, List.map_nil]
      refine ⟨row, h, ?_, helements.symm, .nil _⟩
      rw [h.elements_eq, List.map_eq_nil_iff, List.filter_eq_nil_iff] at helements
      symm
      rw [List.filter_eq_self]
      intro segment hsegment
      rw [Bool.not_eq_true', Bool.eq_false_iff]
      exact helements segment hsegment
  | next hfind hsplice _ _ ih =>
      rcases h.exists_cut hfind hsplice with ⟨next, hnext, hsolid, hnamed, hcut⟩
      rcases ih hnext with ⟨kept, hkept, hrest, hremoved, hcuts⟩
      refine ⟨kept, hkept, ?_, by rw [hnamed, hremoved], .cons hcut hcuts⟩
      rw [hrest, hsolid, filter_eraseP]

/-!
# Main statement
-/

/-- A removal ends and succeeds: it takes out the elements of the name, of whatever kind, and
nothing else.  The other entries, the other elements and the comments are what they were, and so is
all else but the plain text between them; the new text is the old one with the elements of the name
cut out. -/
theorem remove_named
    {text : Text} {document : Document}
    (hplain : PlainStart text)
    (hparse : parse text = .ok document)
    (id : Text) :
    exists (edited : Document) (row kept : List Segment),
      document.remove id =
          ⟨edited, .ok (if document.entries.any (isNamed id) then .applied else .skipped)⟩ ∧
        Removal id document (document.elements (· == id)) edited ∧
        CutsOutAll (document.elements (· == id)) text edited.text ∧
        edited.entries = (document.entries.filter fun entry => !isNamed id entry) ∧
        edited.elements (fun _ => true) = document.elements (· != id) ∧
        edited.foreign = document.foreign ∧
        edited.commentTexts = document.commentTexts ∧
        document.LaidOut row ∧ edited.LaidOut kept ∧
        Segments.solid kept =
          (Segments.solid row).filter fun segment => !segment.isWanted (· == id) := by
  have htext := text_of_parse hparse
  rcases exists_laidOut (htext ▸ hplain) (isRead_of_parse hparse) with ⟨row, hlaid⟩
  rcases hlaid.exists_removal id with ⟨removed, edited, hremoval⟩
  rcases hremoval.exists_laidOut hlaid with ⟨_, _, hentries, _⟩
  rcases hremoval.exists_kept hlaid with ⟨kept, hkept, hsolid, rfl, hcuts⟩
  have hreadable : forall segment, segment ∈ Segments.solid row -> segment.Readable :=
    fun segment hmem => hlaid.readable segment (List.mem_of_mem_filter hmem)
  have hstays : forall {sort : Segment -> Bool},
      (forall segment, segment ∈ Segments.solid row -> sort segment = true ->
        segment.isWanted (· == id) = false) ->
      (Segments.solid kept).filter sort = (Segments.solid row).filter sort := by
    intro sort hsort
    rw [hsolid, List.filter_filter]
    apply List.filter_congr
    intro segment hmem
    cases hsegment : sort segment with
    | false => rfl
    | true => rw [hsort segment hmem hsegment]; rfl
  refine ⟨edited, row, kept, hremoval.removeNext_eq_any .skipped, hremoval, htext ▸ hcuts, hentries,
    ?_, ?_, ?_, hlaid, hkept, hsolid⟩
  · rw [hkept.elements_eq, hlaid.elements_eq, hsolid, List.filter_filter]
    refine congrArg _ (List.filter_congr fun segment hmem => ?_)
    exact Segment.isWanted_not (hreadable segment hmem) _
  · rw [hkept.foreign_eq, hlaid.foreign_eq, ← Segments.foreign_solid kept,
      ← Segments.foreign_solid row, Segments.foreign, Segments.foreign, hstays]
    intro segment hmem hforeign
    exact Segment.isWanted_of_isForeign (hreadable segment hmem) hforeign _
  · have hcomment : forall segment : Segment, segment.isText = true ->
        segment.comment?.isSome = false := by
      intro segment htext
      rw [Segment.comment?_of_isText htext]
      rfl
    rw [commentTexts, commentTexts, hkept.slice_solid Segments.takenUp_comments hcomment,
      hlaid.slice_solid Segments.takenUp_comments hcomment, hstays]
    intro segment _ hsome
    exact Segment.isWanted_of_comment? hsome _

/-- A string of two lines, one that shares its line with a comment and a string of another name, an
array and plurals, in a file with both line endings and none at its end. -/
theorem remove_named_array :
    exists document edited : Document,
      parse ("<resources>\r\n  <string name=\"a\">x\ny</string>\t\r\n  <!-- c -->".toList ++
          "<string name=\"a\"/> <string name=\"b\">z</string>\n".toList ++
          "<string-array name=\"a\" /><dimen name=\"a\">1</dimen>\n".toList ++
          "  <plurals name=\"a\"><item quantity=\"one\">q</item></plurals></resources>".toList) =
        .ok document ∧
        document.remove "a".toList = ⟨edited, .ok .applied⟩ ∧
        CutsOutAll
          ["<string name=\"a\">x\ny</string>".toList, "<string name=\"a\"/>".toList,
            "<string-array name=\"a\" />".toList,
            "<plurals name=\"a\"><item quantity=\"one\">q</item></plurals>".toList]
          document.text edited.text ∧
        edited.entries = [⟨"b".toList, .singular "z".toList, true⟩] ∧
        edited.elements (fun _ => true) = ["<string name=\"b\">z</string>".toList] ∧
        edited.foreign = ["<dimen name=\"a\">1</dimen>".toList] ∧
        edited.commentTexts = ["<!-- c -->".toList] := by
  have hread : (parse
      ("<resources>\r\n  <string name=\"a\">x\ny</string>\t\r\n  <!-- c -->".toList ++
        "<string name=\"a\"/> <string name=\"b\">z</string>\n".toList ++
        "<string-array name=\"a\" /><dimen name=\"a\">1</dimen>\n".toList ++
        "  <plurals name=\"a\"><item quantity=\"one\">q</item></plurals></resources>".toList)).map
        (fun document =>
          (document.entries.any (isNamed "a".toList),
            document.entries.filter (fun entry => !isNamed "a".toList entry),
            [document.elements (· == "a".toList), document.elements (· != "a".toList),
              document.foreign, document.commentTexts])) =
      .ok (true, [⟨"b".toList, .singular "z".toList, true⟩],
        [["<string name=\"a\">x\ny</string>".toList, "<string name=\"a\"/>".toList,
            "<string-array name=\"a\" />".toList,
            "<plurals name=\"a\"><item quantity=\"one\">q</item></plurals>".toList],
          ["<string name=\"b\">z</string>".toList], ["<dimen name=\"a\">1</dimen>".toList],
          ["<!-- c -->".toList]]) := by
    decide +kernel
  rcases Success.map_eq_ok_iff.mp hread with ⟨document, hparse, hfacts⟩
  simp only [Prod.mk.injEq, List.cons.injEq] at hfacts
  rcases hfacts with ⟨hany, hrest, hnamed, hothers, hforeign, hcomments, -⟩
  rcases remove_named (by decide) hparse "a".toList with
    ⟨edited, _, _, hedited, _, hcuts, hentries, helements, hforeign', hcomments', _⟩
  rw [hany] at hedited
  rw [hnamed, ← text_of_parse hparse] at hcuts
  exact ⟨document, edited, hparse, hedited, hcuts, hentries.trans hrest, helements.trans hothers,
    hforeign'.trans hforeign, hcomments'.trans hcomments⟩

end Document
end AndroidStrings
