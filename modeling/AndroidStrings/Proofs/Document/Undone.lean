import AndroidStrings.Proofs.Document.Addition

/-!
# Additions undone

An element that is inserted on a line of its own has the line to itself, whatever its value spans,
and a removal takes an element with its line.  So what an addition inserts before a last end tag
that starts its line, a removal takes away to the byte.

## Main statements

- `LaidOut.exists_insertedLine` : the line of a new element.
- `LaidOut.remove_of_insertEntry` : an element that is inserted and removed.
- `remove_of_added` : an addition that is undone by the removal of its name.
-/

namespace AndroidStrings

open Markup

/-- Two splits of a list at its first item of some sort are the same split. -/
theorem eq_of_split_first
    {α : Type} {p : α -> Bool} {front front' back back' : List α} {item item' : α}
    (h : front ++ item :: back = front' ++ item' :: back')
    (hfront : forall other, other ∈ front -> p other = false)
    (hfront' : forall other, other ∈ front' -> p other = false)
    (hitem : p item = true)
    (hitem' : p item' = true) :
    front = front' ∧ item = item' := by
  have htake := congrArg (List.takeWhile fun other => !p other) h
  rw [takeWhile_append_cons (by simpa using hfront) (by simp [hitem]),
    takeWhile_append_cons (by simpa using hfront') (by simp [hitem'])] at htake
  rw [htake, List.append_cancel_left_eq, List.cons.injEq] at h
  exact ⟨htake, h.1⟩

namespace Document

section Inserted

variable {document edited : Document} {row : List Segment} {segment : Segment} {entry : Entry}

/-- The only element of a name is the first one that is looked for. -/
theorem LaidOut.exists_find?_of_alone
    {front back : List Segment}
    (h : document.LaidOut (front ++ segment :: back))
    (hentries : segment.entries = [entry])
    (hfront : forall other, other ∈ front.flatMap Segment.entries -> other.id ≠ entry.id) :
    exists node : Node,
      document.nodes.find? (fun node => node.id == entry.id) = some node ∧
        node.outer =
          ⟨(Segments.raw front).size, (Segments.raw front).size + segment.raw.size⟩ := by
  let named : Segment -> Bool := fun segment => segment.entries.any (isNamed entry.id)
  have hmem : entry ∈ document.entries := by
    rw [h.entries_eq, List.flatMap_append, List.flatMap_cons, hentries]
    simp
  have hfound : (document.nodes.find? fun node => node.id == entry.id).isSome = true := by
    rcases List.mem_map.mp hmem with ⟨node, hnode, heq⟩
    exact List.find?_isSome.mpr ⟨node, hnode, by rw [← heq, Node.id, beq_self_eq_true]⟩
  rcases Option.isSome_iff_exists.mp hfound with ⟨node, hfind⟩
  rcases h.exists_nodeSplit hfind with ⟨front', segment', back', _, _, hrow, hsplit⟩
  have hnamed : named segment = true := by
    simp [named, hentries, isNamed]
  have hnamed' : named segment' = true := by
    have hid := List.find?_some (p := fun node : Node => node.id == entry.id) hfind
    simpa [named, hsplit.entries_segment, isNamed, Node.id] using hid
  have hnone : forall other, other ∈ front -> named other = false := by
    intro other hother
    rw [List.any_eq_false]
    intro made hmade
    rw [isNamed, beq_iff_eq]
    exact hfront made (List.mem_flatMap.mpr ⟨other, hother, hmade⟩)
  have hbefore : forall made, made ∈ front'.flatMap Segment.entries ->
      isNamed entry.id made = false :=
    hsplit.not_wanted fun _ => rfl
  have hnone' : forall other, other ∈ front' -> named other = false := by
    intro other hother
    rw [List.any_eq_false]
    intro made hmade
    rw [hbefore made (List.mem_flatMap.mpr ⟨other, hother, hmade⟩)]
    exact Bool.false_ne_true
  rcases eq_of_split_first hrow hnone hnone' hnamed hnamed' with ⟨rfl, rfl⟩
  exact ⟨node, hfind, hsplit.outer⟩

section Fresh

variable {close : Nat}
  (h : document.LaidOut row)
  (hclose : document.rootCloseStart = .ok close)
  (hline : document.text.startsLine close = true)
  (hmakes : segment.Makes entry)
  (hfresh : forall other, other ∈ document.entries -> other.id ≠ entry.id)
  (hedit : document.insertEntry segment.raw = .ok edited)

include h hclose hline hmakes hfresh hedit

/-- A new element stands on a line of its own, and is the first of its name there. -/
theorem LaidOut.exists_insertedLine :
    exists (kept behind : Text) (node : Node),
      kept.lastLine = [] ∧ document.text = kept ++ behind ∧
        edited.text =
          kept ++ entryIndent ++ segment.raw ++ (document.lineEnding.text ++ behind) ∧
        edited.nodes.find? (fun node => node.id == entry.id) = some node ∧
        node.outer =
          ⟨(kept ++ entryIndent).size, (kept ++ entryIndent).size + segment.raw.size⟩ := by
  rcases h.exists_ownLine hclose hline with ⟨site, blank, hlead, hfollow, hlast, htext⟩
  rcases site.exists_laidOut h hmakes.isBlock hmakes.fits hmakes.readable with
    ⟨edited', hedited, hlaid⟩
  rw [hedit, Except.ok.injEq] at hedited
  subst hedited
  let front := site.front ++ [.inner (.text site.lead)]
  let rest : List Segment := .rootClose site.content :: site.back
  have hrow : site.front ++ .inner (.text site.lead) :: segment ::
      .inner (.text site.follow) :: rest =
        front ++ segment :: .inner (.text site.follow) :: rest := by
    simp [front]
  rw [hrow] at hlaid
  have hsolid := Segments.flatMap_solid (f := Segment.entries) fun _ => Segment.entries_of_isText
  have hnone : forall other, other ∈ front.flatMap Segment.entries -> other.id ≠ entry.id := by
    intro other hother
    apply hfresh other
    rw [← hsolid, Segments.solid_append, Segments.solid_cons_of_isText rfl] at hother
    rw [h.entries_eq, ← hsolid, site.solid_row, List.flatMap_append, List.mem_append]
    left
    simpa [Segments.solid] using hother
  rcases hlaid.exists_find?_of_alone hmakes.entries hnone with ⟨node, hfind, houter⟩
  have hfront : Segments.raw front = Segments.raw site.front ++ entryIndent := by
    simp [front, hlead, Event.raw]
  refine ⟨Segments.raw site.front, blank ++ Segments.raw rest, node, hlast, htext, ?_, hfind, ?_⟩
  · rw [← hlaid.raw, Segments.raw_append, hfront]
    simp [hfollow, Event.raw]
  · rw [houter, hfront]

/-- An element that is inserted on a line of its own is removed with the line. -/
theorem LaidOut.remove_of_insertEntry :
    edited.remove entry.id = ⟨document, .ok .applied⟩ := by
  rcases h.exists_insertedLine hclose hline hmakes hfresh hedit with
    ⟨kept, behind, node, hlast, htext, hedited, hfind, houter⟩
  have hcut : edited.text.splice (edited.text.lineExtent node.outer) [] = document.text := by
    have hsplice := Text.splice_append kept
      (entryIndent ++ segment.raw ++ document.lineEnding.text) behind []
    rw [houter, hedited, Text.lineExtent_ownLine hlast (by decide), htext]
    simpa only [List.append_assoc, List.nil_append] using hsplice
  have hshorter : document.text.length < edited.text.length := by
    have hindent : 0 < entryIndent.length := by
      decide
    rw [hedited, htext]
    simp only [List.length_append]
    omega
  have hgone : document.nodes.find? (fun node => node.id == entry.id) = none := by
    rw [List.find?_eq_none]
    intro other hother
    rw [beq_iff_eq]
    exact hfresh other.entry (List.mem_map_of_mem hother)
  have hread : parse document.text = .ok document := h.read
  rw [remove, removeNext]
  simp only [hfind, splice, hcut, hread, hshorter, if_true]
  rw [removeNext, hgone]

end Fresh

end Inserted

/-!
# Main statement
-/

/-- The last end tag of the root element, if there is one, has only blanks before it on its
line. -/
def ClosesOwnLine (document : Document) : Prop :=
  forall close : Nat, document.rootCloseStart = .ok close -> document.text.startsLine close = true

instance (document : Document) : Decidable document.ClosesOwnLine :=
  decidable_of_iff (forall close, close ∈ document.rootCloseStart.toOption.toList ->
      document.text.startsLine close = true) <| by
    simp only [Success.mem_toList_toOption]
    exact Iff.rfl

/-- Where the last end tag of the root element starts its line, an addition under a new name is
undone, to the byte, by the removal of the name. -/
theorem remove_of_added
    {text : Text} {document : Document} {command : EditCommand} {entry : Entry}
    (hplain : PlainStart text)
    (hparse : parse text = .ok document)
    (hline : document.ClosesOwnLine)
    (hadded : command.added? = some entry)
    (haccepted : command.Accepted)
    (hfresh : forall other, other ∈ document.entries -> other.id ≠ entry.id)
    (happlied : (document.perform command).result = .ok .applied) :
    (document.perform command).document.remove entry.id = ⟨document, .ok .applied⟩ ∧
      document.text = text := by
  have htext := text_of_parse hparse
  rcases exists_laidOut (htext ▸ hplain) (isRead_of_parse hparse) with ⟨row, hlaid⟩
  rcases exists_element_of_added hadded haccepted happlied with ⟨segment, hmakes, _, hinsert⟩
  refine ⟨?_, htext⟩
  cases hclose : document.rootCloseStart with
  | error fault =>
      rw [insertEntry, hclose] at hinsert
      cases hinsert
  | ok close =>
      exact hlaid.remove_of_insertEntry hclose (hline close hclose) hmakes hfresh hinsert

/-- Forms with a tag pair and with a line end of another sort. -/
def addFiles : EditCommand :=
  .addPlural "a".toList [(.one, "<b>one</b>".toList), (.other, "%d\nfiles".toList)] .raw

theorem remove_of_added_files :
    exists (document : Document) (entry : Entry),
      parse "<resources>\r\n<string name=\"b\">x</string>\r\n \t</resources>\r\n".toList =
          .ok document ∧
        document.ClosesOwnLine ∧ addFiles.added? = some entry ∧ addFiles.Accepted ∧
        (forall other, other ∈ document.entries -> other.id ≠ entry.id) ∧
        (document.perform addFiles).result = .ok .applied ∧
        (document.perform addFiles).document.remove "a".toList = ⟨document, .ok .applied⟩ := by
  let text := "<resources>\r\n<string name=\"b\">x</string>\r\n \t</resources>\r\n".toList
  have hrun : (parse text).map (fun document =>
      decide (document.ClosesOwnLine ∧
        (forall other, other ∈ document.entries -> other.id ≠ "a".toList) ∧
        (document.perform addFiles).result = .ok .applied)) = .ok true := by
    decide +kernel
  rcases Success.map_eq_ok_iff.mp hrun with ⟨document, hparse, hfacts⟩
  rcases of_decide_eq_true hfacts with ⟨hline, hfresh, happlied⟩
  have haccepted : addFiles.Accepted := by
    refine ⟨by decide, List.forall_mem_cons.mpr ⟨?_, List.forall_mem_singleton.mpr ?_⟩⟩
    · have hinside : Fragment "one".toList :=
        @Fragment.text "one".toList [] (by decide) .empty
      exact @Fragment.element "b".toList [] "one".toList [] [] ⟨by decide, by decide⟩
        ⟨by simp, rfl⟩ (by simp) hinside rfl .empty
    · exact @Fragment.text "%d\nfiles".toList [] (by decide) .empty
  refine ⟨document, _, hparse, hline, rfl, haccepted, hfresh, happlied, ?_⟩
  exact (remove_of_added (by decide) hparse hline rfl haccepted hfresh happlied).1

end Document
end AndroidStrings
