import Mathlib.Data.List.DropRight
import AndroidStrings.Proofs.Document.Sorting
import AndroidStrings.Proofs.Markup.Unique

/-!
# Comments and instructions

Sorting writes a file from the parts that the reader notes down.  Of the comments and processing
instructions these are the ones between the last declaration and the root element, and the
comments directly in the root element.

## Main statement

`remarks_sort` : these are the comments and instructions of a sorted document, and no others.
-/

namespace AndroidStrings

open Markup

namespace Markup

namespace Event

def isComment : Event -> Bool
  | .comment _ => true
  | _ => false

/-- Comments and processing instructions. -/
def isRemark : Event -> Bool
  | .comment _ => true
  | .instruction _ => true
  | _ => false

def isStartTag : Event -> Bool
  | .startTag _ => true
  | _ => false

/-- The number of elements that are open behind an event. -/
def depthBehind (depth : Nat) : Event -> Nat
  | .startTag _ => depth + 1
  | .endTag _ => depth - 1
  | _ => depth

/-- The lines of an event without the white space around them. -/
def trimmedLines (event : Event) : List Text :=
  event.raw.lines.map fun line => line.trim CharClass.isWhiteSpace

end Event

/-- The comments and instructions outside the root element and directly in it, each with the
number of elements that it stands in. -/
def remarksFrom (depth : Nat) : List Event -> List (Nat × Event)
  | [] => []
  | event :: events =>
      (if event.isRemark && decide (depth ≤ 1) then [(depth, event)] else []) ++
        remarksFrom (event.depthBehind depth) events

/-- The comments and instructions between the last declaration and the first start tag. -/
def prologRemarks (events : List Event) : List Event :=
  let front := events.takeWhile fun event => !event.isStartTag
  (front.rtakeWhile fun event => !event.isDeclaration).filter Event.isRemark

def rootComments (events : List Event) : List Event :=
  ((remarksFrom 0 events).filter fun found => found.1 == 1 && found.2.isComment).map Prod.snd

/-- The comments and instructions of a text, but for those inside the elements that stand in the
root element. -/
def remarks (text : Text) : List Event :=
  (remarksFrom 0 ((scan text).events.map Located.event)).map Prod.snd

/-- The comments and instructions that sorting writes again. -/
def keptRemarks (text : Text) : List Event :=
  prologRemarks ((scan text).events.map Located.event) ++
    rootComments ((scan text).events.map Located.event)

/-!
# Lists of events
-/

theorem remarksFrom_append (depth : Nat) (front back : List Event) :
    remarksFrom depth (front ++ back) =
      remarksFrom depth front ++ remarksFrom (front.foldl Event.depthBehind depth) back := by
  induction front generalizing depth with
  | nil => rfl
  | cons event front ih =>
      rw [List.cons_append, remarksFrom, ih, remarksFrom, List.append_assoc]
      rfl

/-- Plain text is no remark and does not lead into an element. -/
theorem remarksFrom_markup (depth : Nat) (events : List Event) :
    remarksFrom depth (markup events) = remarksFrom depth events := by
  induction events generalizing depth with
  | nil => rfl
  | cons event events ih =>
      cases htext : event.isText with
      | false =>
          rw [markup_cons htext, remarksFrom, remarksFrom, ih]
      | true =>
          rcases exists_text_of_isText htext with ⟨content, rfl⟩
          exact ih depth

theorem depthBehind_of_isLeaf
    {event : Event}
    (h : event.isLeaf = true)
    (depth : Nat) :
    event.depthBehind depth = depth := by
  cases event <;> first | rfl | simp [Event.isLeaf] at h

/-- Events that close the elements that they open, with the comments and instructions among
them. -/
structure Closed (depth : Nat) (events : List Event) (found : List (Nat × Event)) : Prop where
  remarks : remarksFrom depth events = found
  depth : events.foldl Event.depthBehind depth = depth

theorem closed_nil (depth : Nat) : Closed depth [] [] :=
  ⟨rfl, rfl⟩

theorem Closed.append
    {depth : Nat} {front back : List Event} {found found' : List (Nat × Event)}
    (hfront : Closed depth front found)
    (hback : Closed depth back found') :
    Closed depth (front ++ back) (found ++ found') := by
  constructor
  · rw [remarksFrom_append, hfront.depth, hfront.remarks, hback.remarks]
  · rw [List.foldl_append, hfront.depth, hback.depth]

theorem closed_leaf
    {event : Event}
    (h : event.isLeaf = true)
    (depth : Nat) :
    Closed depth [event]
      (if event.isRemark && decide (depth ≤ 1) then [(depth, event)] else []) := by
  constructor
  · rw [remarksFrom, remarksFrom, List.append_nil]
  · exact depthBehind_of_isLeaf h depth

theorem closed_element
    {depth : Nat} {inside : List Event} {found : List (Nat × Event)}
    (h : Closed (depth + 1) inside found)
    (opening closing : Text) :
    Closed depth (.startTag opening :: (inside ++ [.endTag closing])) found := by
  constructor
  · rw [remarksFrom, Event.depthBehind, remarksFrom_append, h.remarks, h.depth]
    simp [remarksFrom, Event.isRemark]
  · rw [List.foldl_cons, Event.depthBehind, List.foldl_append, h.depth]
    rfl

theorem closed_leaves
    {depth : Nat} {events : List Event}
    (h : forall event, event ∈ events -> event.isLeaf = true)
    (hdepth : depth ≤ 1) :
    Closed depth events ((events.filter Event.isRemark).map fun event => (depth, event)) := by
  induction events with
  | nil => exact closed_nil depth
  | cons event events ih =>
      have hleaf := List.forall_mem_cons.mp h
      have hall := (closed_leaf hleaf.1 depth).append (ih hleaf.2)
      cases hremark : event.isRemark with
      | true =>
          rw [List.filter_cons_of_pos hremark]
          simpa [hremark, hdepth] using hall
      | false =>
          rw [List.filter_cons_of_neg (by simp [hremark])]
          simpa [hremark] using hall

/-- Nothing in an element inside the root element counts. -/
theorem closed_forest
    {depth : Nat} {forest : Forest}
    (h : forest.WellFormed)
    (hdepth : 1 < depth) :
    Closed depth forest.events [] := by
  induction forest generalizing depth with
  | nil => exact closed_nil depth
  | leaf event rest ih =>
      have hfirst := closed_leaf h.1 depth
      rw [decide_eq_false (Nat.not_le.mpr hdepth), Bool.and_false] at hfirst
      exact hfirst.append (ih h.2.2 hdepth)
  | element opening inside closing rest ihinside ihrest =>
      have hinside := ihinside h.2.1 (Nat.lt_succ_of_lt hdepth)
      have hall := (closed_element hinside opening closing).append (ihrest h.2.2 hdepth)
      simpa using hall

end Markup

/-!
# Rows of segments
-/

namespace Segment

/-- The comment or instruction that a segment of the root element is. -/
def remarks : Segment -> List Event
  | inner event => [event].filter Event.isRemark
  | _ => []

theorem IsContent.closed
    {segment : Segment}
    (h : segment.IsContent) :
    Closed 1 segment.events (segment.remarks.map fun event => (1, event)) := by
  cases segment with
  | inner event =>
      apply closed_leaves _ (Nat.le_refl 1)
      intro other hother
      rw [List.mem_singleton.mp hother]
      exact h.1
  | element opening inside closing =>
      have hforest : inside.WellFormed := h.2.1
      exact closed_element (closed_forest hforest (Nat.lt_succ_self 1)) opening closing
  | _ => exact h.elim

theorem filter_remarks (segment : Segment) :
    segment.remarks.filter Event.isComment = segment.comment?.toList.map Event.comment := by
  cases segment with
  | inner event => cases event <;> rfl
  | _ => rfl

theorem remarks_of_isBlock
    {segment : Segment}
    (h : segment.isBlock = true) :
    segment.remarks = [] := by
  rcases form_of_isBlock h with ⟨_, _, _, rfl⟩ | ⟨_, rfl⟩ <;> rfl

end Segment

namespace Segments

theorem closed_content
    {row : List Segment}
    (h : forall segment, segment ∈ row -> segment.IsContent) :
    Closed 1 (events row) ((row.flatMap Segment.remarks).map fun event => (1, event)) := by
  induction row with
  | nil => exact closed_nil 1
  | cons segment row ih =>
      have hcontent := List.forall_mem_cons.mp h
      rw [List.flatMap_cons, List.map_append]
      exact hcontent.1.closed.append (ih hcontent.2)

/-- The comments of a row stand above its groups and below them. -/
theorem flatMap_groups (above : List Text) (row : List Segment) :
    (groups above row).flatMap Group.above ++ below above row =
      above ++ row.flatMap fun segment => segment.comment?.toList := by
  induction row generalizing above with
  | nil => simp [groups, below]
  | cons segment row ih =>
      rw [groups, below, List.flatMap_cons]
      cases hblock : segment.isBlock with
      | true =>
          have hrest := ih []
          rw [List.nil_append] at hrest
          simp only [if_true, List.flatMap_cons, List.append_assoc, hrest]
          rw [comment?_of_isBlock hblock]
          rfl
      | false =>
          have hrest := ih (above ++ segment.comment?.toList)
          rw [List.append_assoc] at hrest
          exact hrest

end Segments

namespace RootedRow

variable {row : RootedRow}

theorem WellFormed.closed
    (h : row.WellFormed) :
    Closed 0 (Segments.events row.segments)
      ((row.front.filter Event.isRemark).map (fun event => (0, event)) ++
        ((row.inside.flatMap Segment.remarks).map (fun event => (1, event)) ++
          (row.back.filter Event.isRemark).map fun event => (0, event))) := by
  have hfront := closed_leaves (fun event hevent => (h.front event hevent).leaf) (Nat.zero_le 1)
  have hback := closed_leaves (fun event hevent => (h.back event hevent).1.leaf) (Nat.zero_le 1)
  have hinside := closed_element (Segments.closed_content h.inside) row.opening row.closing
  have hall := hfront.append (hinside.append hback)
  rw [events_segments]
  simpa using hall

theorem WellFormed.rootComments_eq
    (h : row.WellFormed) :
    rootComments (Segments.events row.segments) =
      ((Segments.groups [] row.inside).flatMap Group.above ++
        Segments.below [] row.inside).map Event.comment := by
  have hcomments : (row.inside.flatMap Segment.remarks).filter Event.isComment =
      (row.inside.flatMap fun segment => segment.comment?.toList).map Event.comment := by
    rw [List.filter_flatMap, List.map_flatMap]
    simp only [Segment.filter_remarks]
  rw [Segments.flatMap_groups, List.nil_append, ← hcomments, rootComments, h.closed.remarks]
  simp [List.filter_map, Function.comp_def]

theorem WellFormed.prologRemarks_eq
    (h : row.WellFormed) :
    prologRemarks (Segments.events row.segments) =
      (row.front.rtakeWhile fun event => !event.isDeclaration).filter Event.isRemark := by
  have hfront : forall event, event ∈ row.front -> (!event.isStartTag) = true := by
    intro event hevent
    have hleaf := (h.front event hevent).leaf
    cases event <;> first | rfl | simp [Event.isLeaf] at hleaf
  rw [prologRemarks, events_segments, List.takeWhile_append_of_pos hfront,
    List.takeWhile_cons_of_neg (by simp [Event.isStartTag]), List.append_nil]

/-- The prolog of a document is what stands between the last declaration and the root element. -/
theorem Reads.prolog_eq
    {document : Document}
    (h : row.Reads document) :
    document.prolog = Text.trim CharClass.isWhiteSpace
      (spell (row.front.rtakeWhile fun event => !event.isDeclaration)) := by
  rcases exists_last_declaration row.front with hnone | ⟨before, after, content, hfront, hafter⟩
  · have hall : row.front.rtakeWhile (fun event => !event.isDeclaration) = row.front := by
      rw [List.rtakeWhile_eq_self_iff]
      intro event hevent
      rw [hnone event hevent]
      rfl
    rw [hall]
    exact (h.prolog_of_none hnone).2
  · have hbehind : row.front.rtakeWhile (fun event => !event.isDeclaration) = after := by
      have hback : forall event, event ∈ after.reverse -> (!event.isDeclaration) = true := by
        intro event hevent
        rw [hafter event (List.mem_reverse.mp hevent)]
        rfl
      rw [List.rtakeWhile, hfront, List.reverse_append, List.reverse_cons, List.append_assoc,
        List.takeWhile_append_of_pos hback, List.singleton_append,
        List.takeWhile_cons_of_neg (by simp [Event.isDeclaration]), List.append_nil,
        List.reverse_reverse]
    rw [hbehind]
    exact (h.prolog_of_declaration hfront hafter).2

end RootedRow

/-!
# Headers and outlines
-/

namespace Markup

theorem filter_markup (events : List Event) :
    (markup events).filter Event.isRemark = events.filter Event.isRemark := by
  rw [markup, List.filter_filter]
  apply List.filter_congr
  intro event _
  cases event <;> rfl

/-- Trimming takes plain text away only. -/
theorem markup_of_trim
    {events trimmed : List Event}
    (hevents : forall event, event ∈ events -> event.Spelled)
    (htrimmed : forall event, event ∈ trimmed -> event.Spelled)
    (h : spell trimmed = Text.trim CharClass.isWhiteSpace (spell events)) :
    markup trimmed = markup events := by
  have hplain : forall {t : Text}, (forall c, c ∈ t -> CharClass.isWhiteSpace c = true) ->
      (Event.text t).Spelled := by
    intro t ht hmem
    exact absurd (ht _ hmem) (by decide)
  rcases Text.exists_trim_append CharClass.isWhiteSpace (spell events) with
    ⟨lead, tail, heq, hlead, htail, _⟩
  have hspelled : forall event, event ∈ .text lead :: (trimmed ++ [.text tail]) ->
      event.Spelled := by
    intro event hevent
    rcases List.mem_cons.mp hevent with hfirst | hevent
    · rw [hfirst]
      exact hplain hlead
    · rcases List.mem_append.mp hevent with hmem | hlast
      · exact htrimmed event hmem
      · rw [List.mem_singleton.mp hlast]
        exact hplain htail
  have hspell : spell (.text lead :: (trimmed ++ [.text tail])) = spell events := by
    rw [heq, ← h]
    simp [Event.raw]
  rw [← markup_eq_of_spell_eq hspelled hevents hspell]
  simp [markup, List.filter_append, Event.isText]

end Markup

theorem Header.filter_front (ending : LineEnding) (header : Header) :
    (header.front ending).filter Event.isRemark = header.prolog.filter Event.isRemark := by
  have hbehind : (header.behind ending).filter Event.isRemark =
      header.prolog.filter Event.isRemark := by
    rw [Header.behind, List.filter_cons_of_neg (by simp [Event.isRemark])]
    split
    · rename_i hnil
      symm
      rw [List.filter_nil, List.filter_eq_nil_iff]
      intro event hevent hremark
      have hraw : event.raw = [] := by
        rw [List.isEmpty_iff, spell, List.flatMap_eq_nil_iff] at hnil
        exact hnil event hevent
      cases event <;> simp [Event.isRemark, Event.raw] at hremark hraw
    · rw [List.filter_append]
      simp [Event.isRemark]
  rw [Header.front, List.filter_cons_of_neg (by simp [Event.isRemark]), hbehind]

namespace Segments

theorem remarks_line (ending : LineEnding) (segment : Segment) :
    (line ending segment).flatMap Segment.remarks = segment.remarks := by
  have htext : forall content : Text, (Segment.inner (.text content)).remarks = [] :=
    fun _ => rfl
  simp [line, htext]

theorem remarks_commentLines (ending : LineEnding) (contents : List Text) :
    (commentLines ending contents).flatMap Segment.remarks = contents.map Event.comment := by
  rw [commentLines, List.flatMap_assoc]
  simp only [remarks_line]
  exact List.flatMap_pure_eq_map _ _

end Segments

theorem remarks_outline
    {outline : Outline}
    (h : outline.WellFormed)
    (ending : LineEnding) :
    (outline.row ending).inside.flatMap Segment.remarks =
      (outline.groups.flatMap Group.above ++ outline.below).map Event.comment := by
  have hgroup : forall group, group ∈ outline.groups ->
      (group.row ending).flatMap Segment.remarks = group.above.map Event.comment := by
    intro group hgroup
    rw [Group.row, List.flatMap_append, Segments.remarks_commentLines, Segments.remarks_line,
      Segment.remarks_of_isBlock (h.groups group hgroup).isBlock, List.append_nil]
  have hgroups : (outline.groups.flatMap (Group.row ending)).flatMap Segment.remarks =
      (outline.groups.flatMap Group.above).map Event.comment := by
    rw [List.flatMap_assoc, List.map_flatMap]
    exact List.flatMap_congr hgroup
  show [] ++ List.flatMap Segment.remarks (_ ++ _) = _
  rw [List.nil_append, List.flatMap_append, hgroups, Segments.remarks_commentLines,
    List.map_append]

/-!
# Lines of comments
-/

theorem lines_commentText
    {ending : LineEnding} {comment : Text}
    (hmarkup : Text.IsMarkup comment)
    (hsuits : Text.Suits ending comment) :
    (Document.commentText ending comment).lines.map (Text.trim CharClass.isWhiteSpace) =
      comment.lines.map (Text.trim CharClass.isWhiteSpace) := by
  rcases Text.lines_spec hmarkup hsuits with ⟨first, rest, hlines, _⟩
  have hwrite : forall line : Text, (Document.writeCommentLine line).trim CharClass.isWhiteSpace =
      line.trim CharClass.isWhiteSpace := by
    intro line
    rw [Document.writeCommentLine, Text.trim_append_of_white Document.isWhite_entryIndent,
      Text.trim_trim]
  rw [Document.commentText, Text.lines_rewriteLines hmarkup hsuits Document.writesOnce_trim
    Document.writesOnce_writeCommentLine hlines, hlines]
  simp [Text.trim_trim, hwrite]

theorem trimmedLines_of_rewrittenComments
    {ending : LineEnding} {contents contents' : List Text}
    (h : RewrittenComments ending contents contents')
    (hsuits : forall content, content ∈ contents ->
      Text.Suits ending (Event.comment content).raw) :
    (contents'.map Event.comment).map Event.trimmedLines =
      (contents.map Event.comment).map Event.trimmedLines := by
  have hlines := congrArg (List.map fun raw : Text =>
    raw.lines.map (Text.trim CharClass.isWhiteSpace)) h
  rw [List.map_map, List.map_map] at hlines
  rw [List.map_map, List.map_map]
  refine hlines.trans ?_
  apply List.map_congr_left
  intro content hcontent
  exact lines_commentText (isMarkup_comment content) (hsuits content hcontent)

/-- Groups keep the lines of the comments above them. -/
theorem trimmedLines_of_rewritten
    {ending : LineEnding} {groups groups' : List Group}
    (hsuits : forall group, group ∈ groups -> group.Suits ending)
    (h : List.Forall₂ (Group.Rewritten ending) groups groups') :
    ((groups'.flatMap Group.above).map Event.comment).map Event.trimmedLines =
      ((groups.flatMap Group.above).map Event.comment).map Event.trimmedLines := by
  induction h with
  | nil => rfl
  | cons hfirst _ ih =>
      have hall := List.forall_mem_cons.mp hsuits
      rw [List.flatMap_cons, List.flatMap_cons, List.map_append, List.map_append, List.map_append,
        List.map_append, ih hall.2, trimmedLines_of_rewrittenComments hfirst.above hall.1.above]

/-!
# Main statement
-/

namespace RootedRow

variable {row : RootedRow} {document sorted : Document} {order : List EntryKind.Key}
  {outline : Outline}

/-- The comments and instructions of a sorted document. -/
theorem SortsTo.remarks_eq
    (h : SortsTo document order outline sorted) :
    remarks sorted.text = outline.header.prolog.filter Event.isRemark ++
      (outline.groups.flatMap Group.above ++ outline.below).map Event.comment := by
  have hrow := h.wellFormed.row document.lineEnding
  have hscan := Document.spelled_of_parse (Outline.plainStart_row _ _) h.parse
  have hmarkup := markup_eq_of_spell_eq hscan.1 hrow.fit.spelled
    (hscan.2.trans (Segments.spell_events _).symm)
  rw [h.reads.text, remarks, ← remarksFrom_markup, hmarkup, remarksFrom_markup,
    hrow.closed.remarks, remarks_outline h.wellFormed]
  have hfront : (outline.row document.lineEnding).front.filter Event.isRemark =
      outline.header.prolog.filter Event.isRemark :=
    Header.filter_front _ _
  have hback : (outline.row document.lineEnding).back.filter Event.isRemark = [] := rfl
  rw [hfront, hback]
  simp [Function.comp_def]

/-- The comments and instructions before the root element of a sorted document are those that
stood behind the last declaration. -/
theorem Reads.filter_prolog
    {header : Header}
    (hrow : row.WellFormed)
    (h : row.Reads document)
    (hheader : header.WellFormed)
    (hheads : header.Heads document) :
    header.prolog.filter Event.isRemark =
      (row.front.rtakeWhile fun event => !event.isDeclaration).filter Event.isRemark := by
  have hafter : forall event,
      event ∈ row.front.rtakeWhile (fun event => !event.isDeclaration) -> event.Spelled := by
    intro event hevent
    exact (hrow.front event ((List.rtakeWhile_suffix _ _).subset hevent)).spelled
  have hprolog : forall event, event ∈ header.prolog -> event.Spelled := by
    intro event hevent
    exact (hheader.prolog event hevent).1.spelled
  rw [← filter_markup, markup_of_trim hafter hprolog (hheads.prolog.symm.trans h.prolog_eq),
    filter_markup]

end RootedRow

namespace Document

/-- The comments and instructions of a sorted document are, up to the white space around their
lines, those that stood between the last declaration and the root element and the comments that
stood directly in the root element. -/
theorem remarks_sort
    {text : Text} {document sorted : Document} {order : List EntryKind.Key}
    (hplain : PlainStart text)
    (hparse : parse text = .ok document)
    (hsingle : SingleRoot text)
    (hsort : document.sort order = .ok sorted) :
    ((remarks sorted.text).map Event.trimmedLines).Perm
      ((keptRemarks text).map Event.trimmedLines) := by
  rcases exists_rootedRow_events hplain hparse hsingle with ⟨row, hrow, hevents⟩
  have hkept : keptRemarks text =
      (row.front.rtakeWhile fun event => !event.isDeclaration).filter Event.isRemark ++
        ((Segments.groups [] row.inside).flatMap Group.above ++
          Segments.below [] row.inside).map Event.comment := by
    rw [keptRemarks, ← hevents, hrow.prologRemarks_eq, hrow.rootComments_eq]
  have hraw : Segments.raw row.segments = text := by
    rw [← Segments.spell_events, hevents, (spelled_of_parse hplain hparse).2]
  rw [hkept]
  subst hraw
  have hreads := RootedRow.reads_of_parse hrow hplain hparse
  have hsuits := hreads.forall_arranged hrow order
  rcases RootedRow.exists_outline_of_sort hrow hreads hsort with
    ⟨outline, hrewritten, hheads, hbelow, hsorted⟩
  have habove := trimmedLines_of_rewritten
    (fun group hgroup => (hsuits group hgroup).2) hrewritten
  have hlast := trimmedLines_of_rewrittenComments hbelow
    (Segments.suits_of_groups hreads.suits_inside).2
  rw [hsorted.remarks_eq, hreads.filter_prolog hrow hsorted.wellFormed.header hheads]
  simp only [List.map_append, habove, hlast]
  apply List.Perm.append_left
  apply List.Perm.append_right
  exact (((arrange_perm _ order _).flatMap_right _).map _).map _

theorem remarks_sort_prolog :
    exists document sorted : Document,
      parse "<!-- a --><resources><!-- c --><string name=\"a\">1</string></resources>".toList =
          .ok document ∧
        document.sort [] = .ok sorted ∧
        ((remarks sorted.text).map Event.trimmedLines).Perm
          [["<!-- a -->".toList], ["<!-- c -->".toList]] := by
  let text := "<!-- a --><resources><!-- c --><string name=\"a\">1</string></resources>".toList
  have hrun : (parse text >>= fun document => (document.sort []).map fun _ => ()) = .ok () := by
    decide +kernel
  rcases Success.bind_eq_ok_iff.mp hrun with ⟨document, hparse, hread⟩
  rcases Success.map_eq_ok_iff.mp hread with ⟨sorted, hsort, _⟩
  have hsingle : SingleRoot text :=
    ⟨[.comment "-- a --".toList], [.comment "-- c --".toList,
      .startTag "string name=\"a\"".toList, .text "1".toList, .endTag "string".toList], [],
      "resources".toList, "resources".toList, by decide +kernel, by decide, by decide +kernel,
      by decide⟩
  have hkept : (keptRemarks text).map Event.trimmedLines =
      [["<!-- a -->".toList], ["<!-- c -->".toList]] := by
    decide +kernel
  have hperm := remarks_sort (by decide) hparse hsingle hsort
  rw [hkept] at hperm
  exact ⟨document, sorted, hparse, hsort, hperm⟩

/-- A comment behind the root element is gone once the document is sorted. -/
theorem remarks_sort_behindRoot :
    exists document sorted : Document,
      parse ("<resources>\n<string name=\"b\">B</string>\n</resources>\n".toList ++
          "<!-- end -->\n".toList) = .ok document ∧
        SingleRoot ("<resources>\n<string name=\"b\">B</string>\n</resources>\n".toList ++
          "<!-- end -->\n".toList) ∧
        document.sort [] = .ok sorted ∧
        Event.comment "-- end --".toList ∈ remarks
          ("<resources>\n<string name=\"b\">B</string>\n</resources>\n".toList ++
            "<!-- end -->\n".toList) ∧
        Text.contains sorted.text "<!-- end -->".toList = false := by
  have hrun : (parse ("<resources>\n<string name=\"b\">B</string>\n</resources>\n".toList ++
      "<!-- end -->\n".toList) >>= fun document => (document.sort []).map fun sorted =>
        Text.contains sorted.text "<!-- end -->".toList) = .ok false := by
    decide +kernel
  rcases Success.bind_eq_ok_iff.mp hrun with ⟨document, hparse, hread⟩
  rcases Success.map_eq_ok_iff.mp hread with ⟨sorted, hsort, hgone⟩
  refine ⟨document, sorted, hparse, ?_, hsort, by decide +kernel, hgone⟩
  exact ⟨[], [.text "\n".toList, .startTag "string name=\"b\"".toList, .text "B".toList,
    .endTag "string".toList, .text "\n".toList], [.text "\n".toList,
    .comment "-- end --".toList, .text "\n".toList], "resources".toList, "resources".toList,
    by decide +kernel, by decide, by decide +kernel, by decide⟩

end Document
end AndroidStrings
