import Mathlib.Data.List.Forall2
import AndroidStrings.Proofs.Document.Rereading
import AndroidStrings.Proofs.Document.SingleRoot

/-!
# Groups as they are written

What sorting writes for a group is a row of lines.  Read where the content of the root element
may stand, it is a group again, rewritten, and rewriting it once more changes nothing.

## Main statements

- `exists_rewritten_of_readRest` : groups that are written and can be read are groups rewritten.
- `text_write` : what is written is the row of the rewritten group.
- `Group.Rewritten.self` : a rewritten group is rewritten to itself.
-/

namespace AndroidStrings

open Markup

/-!
# Groups of a row
-/

namespace Segment

theorem isContent_of_isBlock
    {segment : Segment}
    (hblock : segment.isBlock = true)
    (hfits : segment.Fits true) :
    segment.IsContent := by
  cases segment with
  | element opening inside closing => exact hfits.2
  | inner event =>
      cases event with
      | emptyTag content => exact ⟨rfl, hfits.2.2, rfl⟩
      | _ => simp [isBlock] at hblock
  | _ => simp [isBlock] at hblock

end Segment

namespace Group

/-- A group that can stand in a document. -/
structure WellFormed (group : Group) : Prop where
  above : forall content, content ∈ group.above -> (Event.comment content).Spelled
  isBlock : group.block.isBlock = true
  fits : group.block.Fits true
  readable : group.block.Readable

/-- The line breaks of a group suit an ending. -/
structure Suits (ending : LineEnding) (group : Group) : Prop where
  above : forall content, content ∈ group.above -> Text.Suits ending (Event.comment content).raw
  block : Text.Suits ending group.block.raw

end Group

namespace Segments

theorem readable_of_layoutFrom
    {start : Nat} {row : List Segment} {found : Layout}
    (h : layoutFrom start row = .ok found) :
    forall segment, segment ∈ row -> segment.Readable := by
  induction row generalizing start found with
  | nil => simp
  | cons segment row ih =>
      rcases exists_layouts_of_cons h with ⟨first, others, hfirst, hothers, _⟩
      intro other hother
      rcases List.mem_cons.mp hother with heq | hrest
      · rw [heq]
        exact Segment.readable_of_layoutAt hfirst
      · exact ih hothers other hrest

theorem exists_layoutFrom_of_readable
    {row : List Segment}
    (h : forall segment, segment ∈ row -> segment.Readable)
    (start : Nat) :
    exists found : Layout, layoutFrom start row = .ok found := by
  induction row generalizing start with
  | nil => exact ⟨{}, rfl⟩
  | cons segment row ih =>
      rcases (h segment (by simp)).layoutAt start with ⟨first, hfirst⟩
      rcases ih (List.forall_mem_cons.mp h).2
        (start + segment.raw.size) with ⟨others, hothers⟩
      rw [layoutFrom, hfirst]
      simp only [hothers]
      exact ⟨_, rfl⟩

/-- Properties of the comments and blocks of a row are properties of its groups. -/
theorem forall_groups
    {P : Text -> Prop} {Q : Segment -> Prop} {above : List Text} {row : List Segment}
    (habove : forall content, content ∈ above -> P content)
    (hcomment : forall content, .inner (.comment content) ∈ row -> P content)
    (hblock : forall segment, segment ∈ row -> segment.isBlock = true -> Q segment) :
    (forall group, group ∈ groups above row ->
      (forall content, content ∈ group.above -> P content) ∧ group.block.isBlock = true ∧
        Q group.block) ∧
      forall content, content ∈ below above row -> P content := by
  induction row generalizing above with
  | nil => exact ⟨by simp [groups], habove⟩
  | cons segment row ih =>
      have hcomment' : forall content, .inner (.comment content) ∈ row -> P content := by
        intro content hcontent
        exact hcomment content (List.mem_cons_of_mem _ hcontent)
      have hblock' := (List.forall_mem_cons.mp hblock).2
      rw [groups, below]
      split
      · rename_i hfirst
        have hnone : forall content, content ∈ ([] : List Text) -> P content := by simp
        have hrest := ih hnone hcomment' hblock'
        refine ⟨?_, hrest.2⟩
        intro group hgroup
        rcases List.mem_cons.mp hgroup with heq | hgroup
        · rw [heq]
          exact ⟨habove, hfirst, hblock segment (by simp) hfirst⟩
        · exact hrest.1 group hgroup
      · apply ih _ hcomment' hblock'
        intro content hcontent
        rcases List.mem_append.mp hcontent with hold | hnew
        · exact habove content hold
        · apply hcomment content
          cases segment with
          | inner event =>
              cases event with
              | comment other =>
                  simp only [Segment.comment?, Option.toList_some, List.mem_singleton] at hnew
                  rw [hnew]
                  simp
              | _ => simp [Segment.comment?] at hnew
          | _ => simp [Segment.comment?] at hnew

theorem wellFormed_of_groups
    {start : Nat} {row : List Segment} {found : Layout}
    (h : forall segment, segment ∈ row -> segment.IsContent)
    (hfound : layoutFrom start row = .ok found) :
    (forall group, group ∈ groups [] row -> group.WellFormed) ∧
      forall content, content ∈ below [] row -> (Event.comment content).Spelled := by
  have hreadable := readable_of_layoutFrom hfound
  have hnone : forall content, content ∈ ([] : List Text) -> (Event.comment content).Spelled := by
    simp
  have hcomment : forall content, .inner (.comment content) ∈ row ->
      (Event.comment content).Spelled :=
    fun content hcontent => (h _ hcontent).2.1
  have hblock : forall segment, segment ∈ row -> segment.isBlock = true ->
      segment.Fits true ∧ segment.Readable :=
    fun segment hsegment _ => ⟨(h segment hsegment).fits, hreadable segment hsegment⟩
  have hall := forall_groups hnone hcomment hblock
  refine ⟨?_, hall.2⟩
  intro group hgroup
  have hparts := hall.1 group hgroup
  exact ⟨hparts.1, hparts.2.1, hparts.2.2.1, hparts.2.2.2⟩

/-- The blocks of the groups stand in the row. -/
theorem block_mem_of_groups
    {row : List Segment} {group : Group}
    (h : group ∈ groups [] row) :
    group.block ∈ row :=
  ((forall_groups (P := fun _ => True) (Q := (· ∈ row)) (by simp) (by simp)
    fun _ hsegment _ => hsegment).1 group h).2.2

theorem suits_of_groups
    {ending : LineEnding} {row : List Segment}
    (h : Text.Suits ending (raw row)) :
    (forall group, group ∈ groups [] row -> group.Suits ending) ∧
      forall content, content ∈ below [] row ->
        Text.Suits ending (Event.comment content).raw := by
  have hsegment : forall segment, segment ∈ row -> Text.Suits ending segment.raw := by
    intro segment hmem
    apply h.of_isInfix
    rcases List.append_of_mem hmem with ⟨front, back, heq⟩
    exact ⟨raw front, raw back, by rw [heq]; simp⟩
  have hnone : forall content, content ∈ ([] : List Text) ->
      Text.Suits ending (Event.comment content).raw := by
    simp
  have hcomment : forall content, .inner (.comment content) ∈ row ->
      Text.Suits ending (Event.comment content).raw := by
    intro content hcontent
    have hraw : (Segment.inner (.comment content)).raw = (Event.comment content).raw :=
      Segment.raw_of_comment? rfl
    rw [← hraw]
    exact hsegment _ hcontent
  have hall := forall_groups hnone hcomment (fun segment hmem _ => hsegment segment hmem)
  refine ⟨?_, hall.2⟩
  intro group hgroup
  have hparts := hall.1 group hgroup
  exact ⟨hparts.1, hparts.2.2⟩

/-!
# Lines
-/

/-- A segment on a line of its own. -/
def line (ending : LineEnding) (segment : Segment) : List Segment :=
  [.inner (.text Document.entryIndent), segment, .inner (.text ending.text)]

def commentLines (ending : LineEnding) (contents : List Text) : List Segment :=
  contents.flatMap fun content => line ending (.inner (.comment content))

theorem raw_text (content : Text) : (Segment.inner (.text content)).raw = content := by
  simp [Event.raw]

theorem raw_line (ending : LineEnding) (segment : Segment) :
    raw (line ending segment) = Document.entryIndent ++ segment.raw ++ ending.text := by
  simp [line, Event.raw]

theorem raw_commentLines (ending : LineEnding) (contents : List Text) :
    raw (commentLines ending contents) =
      (contents.map fun content => (Event.comment content).raw).flatMap fun comment =>
        Document.entryIndent ++ comment ++ ending.text := by
  induction contents with
  | nil => rfl
  | cons content contents ih =>
      have hraw : (Segment.inner (.comment content)).raw = (Event.comment content).raw :=
        Segment.raw_of_comment? rfl
      rw [commentLines, List.flatMap_cons, raw_append, raw_line, hraw, List.map_cons,
        List.flatMap_cons, ← ih]
      rfl

theorem isContent_text
    {content : Text}
    (h : '<' ∉ content) :
    (Segment.inner (.text content)).IsContent :=
  ⟨rfl, h, rfl⟩

theorem isContent_line
    {segment : Segment}
    (ending : LineEnding)
    (h : segment.IsContent) :
    forall other, other ∈ line ending segment -> other.IsContent := by
  intro other hother
  simp only [line, List.mem_cons, List.not_mem_nil, or_false] at hother
  rcases hother with heq | heq | heq
  · rw [heq]
    exact isContent_text (by decide)
  · rw [heq]
    exact h
  · rw [heq]
    exact isContent_text (by cases ending <;> decide)

theorem isContent_commentLines
    {contents : List Text}
    (ending : LineEnding)
    (h : forall content, content ∈ contents -> (Event.comment content).Spelled) :
    forall segment, segment ∈ commentLines ending contents -> segment.IsContent := by
  intro segment hsegment
  rcases List.mem_flatMap.mp hsegment with ⟨content, hcontent, hline⟩
  have hcomment : (Segment.inner (.comment content)).IsContent := ⟨rfl, h content hcontent, rfl⟩
  exact isContent_line ending hcomment segment hline

/-- What stands before a block that comments belong to. -/
def lead (ending : LineEnding) (contents : List Text) : List Segment :=
  commentLines ending contents ++ [.inner (.text Document.entryIndent)]

theorem isContent_lead
    {contents : List Text}
    (ending : LineEnding)
    (h : forall content, content ∈ contents -> (Event.comment content).Spelled) :
    forall segment, segment ∈ lead ending contents -> segment.IsContent := by
  intro segment hsegment
  rcases List.mem_append.mp hsegment with hcomment | hindent
  · exact isContent_commentLines ending h segment hcomment
  · rw [List.mem_singleton.mp hindent]
    exact isContent_text (by decide)

theorem readable_text (content : Text) : (Segment.inner (.text content)).Readable :=
  ⟨{}, rfl⟩

theorem readable_line
    {segment : Segment}
    (ending : LineEnding)
    (h : segment.Readable) :
    forall other, other ∈ line ending segment -> other.Readable := by
  intro other hother
  simp only [line, List.mem_cons, List.not_mem_nil, or_false] at hother
  rcases hother with heq | heq | heq
  · rw [heq]
    exact readable_text _
  · rw [heq]
    exact h
  · rw [heq]
    exact readable_text _

theorem readable_commentLines (ending : LineEnding) (contents : List Text) :
    forall segment, segment ∈ commentLines ending contents -> segment.Readable := by
  intro segment hsegment
  rcases List.mem_flatMap.mp hsegment with ⟨content, _, hline⟩
  have hcomment : (Segment.inner (.comment content)).Readable := ⟨_, rfl⟩
  exact readable_line ending hcomment segment hline

end Segments

/-- A group on lines of its own. -/
def Group.row (ending : LineEnding) (group : Group) : List Segment :=
  Segments.commentLines ending group.above ++ Segments.line ending group.block

theorem Group.WellFormed.row
    {group : Group}
    (h : group.WellFormed)
    (ending : LineEnding) :
    forall segment, segment ∈ group.row ending -> segment.IsContent := by
  intro segment hsegment
  rcases List.mem_append.mp hsegment with hcomment | hblock
  · exact Segments.isContent_commentLines ending h.above segment hcomment
  · exact Segments.isContent_line ending (Segment.isContent_of_isBlock h.isBlock h.fits) segment
      hblock

theorem Group.WellFormed.readable_row
    {group : Group}
    (h : group.WellFormed)
    (ending : LineEnding) :
    forall segment, segment ∈ group.row ending -> segment.Readable := by
  intro segment hsegment
  rcases List.mem_append.mp hsegment with hcomment | hblock
  · exact Segments.readable_commentLines ending group.above segment hcomment
  · exact Segments.readable_line ending h.readable segment hblock

/-!
# Rewritten groups
-/

/-- The comments of a sorted document, for those of the document before. -/
def RewrittenComments (ending : LineEnding) (contents contents' : List Text) : Prop :=
  (contents'.map fun content => (Event.comment content).raw) =
    contents.map fun content => Document.commentText ending (Event.comment content).raw

/-- A group of a sorted document, for a group of the document before. -/
structure Group.Rewritten (ending : LineEnding) (group group' : Group) : Prop where
  wellFormed : group'.WellFormed
  above : RewrittenComments ending group.above group'.above
  raw : group'.block.raw = Document.elementText group.block.hasItems ending group.block.raw
  tag : group'.block.tag = group.block.tag

theorem isMarkup_comment (content : Text) : Text.IsMarkup (Event.comment content).raw := by
  constructor
  · rfl
  · simp [Event.raw, List.getLast?_cons, List.getLast?_append]

theorem RewrittenComments.self
    {ending : LineEnding} {contents contents' : List Text}
    (h : RewrittenComments ending contents contents')
    (hsuits : forall content, content ∈ contents ->
      Text.Suits ending (Event.comment content).raw) :
    RewrittenComments ending contents' contents' := by
  have hagain := congrArg (List.map (Document.commentText ending)) h
  rw [List.map_map, List.map_map] at hagain
  unfold RewrittenComments at h ⊢
  rw [h]
  refine Eq.trans ?_ hagain.symm
  apply List.map_congr_left
  intro content hcontent
  exact (Document.commentText_commentText (isMarkup_comment content)
    (hsuits content hcontent)).symm

theorem exists_rewrittenComments
    {contents : List Text}
    (ending : LineEnding)
    (h : forall content, content ∈ contents -> (Event.comment content).Spelled) :
    exists contents' : List Text,
      RewrittenComments ending contents contents' ∧
        forall content, content ∈ contents' -> (Event.comment content).Spelled := by
  induction contents with
  | nil => exact ⟨[], rfl, by simp⟩
  | cons content contents ih =>
      rcases ih (List.forall_mem_cons.mp h).2 with
        ⟨contents', hrest, hspelled⟩
      rcases exists_comment_of_relaid (h content (by simp))
        (Document.relaid_commentText ending (isMarkup_comment content)) with
        ⟨content', hraw, hspelled'⟩
      refine ⟨content' :: contents', ?_, ?_⟩
      · unfold RewrittenComments at hrest ⊢
        rw [List.map_cons, List.map_cons, hrest, hraw]
      · intro other hother
        rcases List.mem_cons.mp hother with heq | hmem
        · rw [heq]
          exact hspelled'
        · exact hspelled other hmem

theorem text_writeComments
    {ending : LineEnding} {contents contents' : List Text}
    (h : RewrittenComments ending contents contents') :
    contents.flatMap (fun content =>
      Document.writeComment ending.text (Event.comment content).raw) =
        Segments.raw (Segments.commentLines ending contents') := by
  rw [Segments.raw_commentLines, h, List.flatMap_map]
  simp only [Document.writeComment_eq]

section Rewritten

variable {ending : LineEnding} {group group' : Group}

theorem Group.Rewritten.hasItems_eq
    (h : group.Rewritten ending group')
    (hwell : group.WellFormed) :
    group'.block.hasItems = group.block.hasItems :=
  Segment.hasItems_eq_of_tag hwell.isBlock h.wellFormed.isBlock hwell.readable
    h.wellFormed.readable h.tag

/-- A rewritten group is rewritten to itself. -/
theorem Group.Rewritten.self
    (h : group.Rewritten ending group')
    (hwell : group.WellFormed)
    (hsuits : group.Suits ending) :
    group'.Rewritten ending group' where
  wellFormed := h.wellFormed
  above := h.above.self hsuits.above
  raw := by
    rw [h.hasItems_eq hwell, h.raw, Document.elementText_elementText _
      (Segment.isMarkup_raw hwell.isBlock) hsuits.block]
  tag := rfl

/-- What is written for a group is the row of the rewritten group. -/
theorem text_write
    (h : group.Rewritten ending group') :
    (group.write ending).text = Segments.raw (group'.row ending) := by
  rw [Group.row, Segments.raw_append, Segments.raw_line, h.raw, ← text_writeComments h.above,
    ← Document.writeElement_eq]
  rfl

theorem text_write_lead
    {group : Group} {above : List Text}
    (h : RewrittenComments ending group.above above) :
    (group.write ending).text = Segments.raw (Segments.lead ending above) ++
      (Document.elementText group.block.hasItems ending group.block.raw ++ ending.text) := by
  rw [Segments.lead, Segments.raw_append, ← text_writeComments h, Segments.raw_cons,
    Segments.raw_nil, List.append_nil, Segments.raw_text, List.append_assoc, ← List.append_assoc
    Document.entryIndent, ← Document.writeElement_eq]
  rfl

theorem exists_mem_of_rewritten
    {groups groups' : List Group} {group' : Group}
    (h : List.Forall₂ (Group.Rewritten ending) groups groups')
    (hmem : group' ∈ groups') :
    exists group : Group, group ∈ groups ∧ group.Rewritten ending group' := by
  induction h with
  | nil => cases hmem
  | cons hfirst _ ih =>
      rcases List.mem_cons.mp hmem with heq | hother
      · rw [heq]
        exact ⟨_, List.mem_cons_self, hfirst⟩
      · rcases ih hother with ⟨group, hgroup, hrewritten⟩
        exact ⟨group, List.mem_cons_of_mem _ hgroup, hrewritten⟩

theorem text_writes
    {groups groups' : List Group}
    (h : List.Forall₂ (Group.Rewritten ending) groups groups') :
    (groups.map (Group.write ending)).flatMap Document.WrittenBlock.text =
      Segments.raw (groups'.flatMap (Group.row ending)) := by
  induction h with
  | nil => rfl
  | cons hfirst _ ih =>
      rw [List.map_cons, List.flatMap_cons, List.flatMap_cons, Segments.raw_append, ih,
        text_write hfirst]

end Rewritten

/-!
# Reading groups that were written
-/

namespace Cursor

theorem readRest_segments
    {inRoot : Bool} {row : List Segment} {text front rest : Text} {position : Nat}
    (layout : Layout)
    (h : Segments.Fit inRoot row)
    (htext : text = front ++ Segments.raw row ++ rest)
    (hposition : position = front.size) :
    (atRoot inRoot position layout).readRest text (Segments.raw row ++ rest) =
      Segments.layoutFrom position row >>= fun found =>
        (atRoot (Segments.leads inRoot row) (position + (Segments.raw row).size)
          (layout ++ found)).readRest text rest := by
  have hread := readRest_spell text (atRoot inRoot position layout) h.spelled rest
  rw [Segments.spell_events, foldlM_advance_segments layout h htext hposition] at hread
  rw [hread]
  cases Segments.layoutFrom position row <;> rfl

/-- Content of the root element is read, and the reader stays in it. -/
theorem exists_readRest_of_content
    {row : List Segment} {text front rest : Text} {position : Nat} {layout : Layout}
    {reader : Reader}
    (hcontent : forall segment, segment ∈ row -> segment.IsContent)
    (htext : text = front ++ Segments.raw row ++ rest)
    (hposition : position = front.size)
    (h : (atRoot true position layout).readRest text (Segments.raw row ++ rest) = .ok reader) :
    exists layout' : Layout,
      (atRoot true (position + (Segments.raw row).size) layout').readRest text rest =
        .ok reader := by
  have hfit := Segments.fit_content hcontent
  rw [readRest_segments layout hfit.1 htext hposition, hfit.2] at h
  rcases Success.bind_eq_ok_iff.mp h with ⟨found, _, hrest⟩
  exact ⟨_, hrest⟩

/-- A document that begins with segments leading into the root element. -/
theorem exists_readRest_of_parse
    {head : List Segment} {rest : Text} {document : Document}
    (hplain : Document.PlainStart (Segments.raw head ++ rest))
    (hfit : Segments.Fit false head)
    (hleads : Segments.leads false head = true)
    (h : Document.parse (Segments.raw head ++ rest) = .ok document) :
    exists (layout : Layout) (reader : Reader),
      (atRoot true (Segments.raw head).size layout).readRest (Segments.raw head ++ rest) rest =
        .ok reader := by
  rw [Document.parse_eq_readRest hplain] at h
  rcases Success.map_eq_ok_iff.mp h with ⟨_, hread, _⟩
  rcases Success.bind_eq_ok_iff.mp hread with ⟨reader, hreader, _⟩
  have htext : Segments.raw head ++ rest = [] ++ Segments.raw head ++ rest := rfl
  have hstart := readRest_segments {} hfit htext (rfl : 0 = Text.size [])
  rw [show start = atRoot false 0 {} from rfl, hstart, hleads, Nat.zero_add] at hreader
  rcases Success.bind_eq_ok_iff.mp hreader with ⟨found, _, hrest⟩
  exact ⟨_, reader, hrest⟩

theorem exists_readRest_of_lineEnd
    {ending : LineEnding} {text front rest : Text} {position : Nat} {layout : Layout}
    {reader : Reader}
    (htext : text = front ++ ending.text ++ rest)
    (hposition : position = front.size)
    (h : (atRoot true position layout).readRest text (ending.text ++ rest) = .ok reader) :
    exists layout' : Layout,
      (atRoot true (position + ending.text.size) layout').readRest text rest = .ok reader := by
  have hraw : Segments.raw [Segment.inner (.text ending.text)] = ending.text := by
    rw [Segments.raw_cons, Segments.raw_nil, List.append_nil, Segments.raw_text]
  have hcontent : forall segment, segment ∈ [Segment.inner (.text ending.text)] ->
      segment.IsContent := by
    intro segment hsegment
    rw [List.mem_singleton.mp hsegment]
    exact Segments.isContent_text (by cases ending <;> decide)
  rw [← hraw] at htext h ⊢
  exact exists_readRest_of_content hcontent htext hposition h

/-- A group that is written and can be read is a group rewritten. -/
theorem exists_rewrittenGroup_of_readRest
    {group : Group} {ending : LineEnding} {text front rest : Text} {position : Nat}
    {layout : Layout} {reader : Reader}
    (hgroup : group.WellFormed)
    (htext : text = front ++ (group.write ending).text ++ rest)
    (hposition : position = front.size)
    (h : (atRoot true position layout).readRest text ((group.write ending).text ++ rest) =
      .ok reader) :
    exists (group' : Group) (layout' : Layout),
      group.Rewritten ending group' ∧
        (atRoot true (position + (group.write ending).text.size) layout').readRest text rest =
          .ok reader := by
  rcases exists_rewrittenComments ending hgroup.above with ⟨above', habove, hspelled⟩
  let element := Document.elementText group.block.hasItems ending group.block.raw
  let lead := Segments.lead ending above'
  rw [text_write_lead habove] at htext h ⊢
  -- The comments and the indentation come first.
  have htextLead : text = front ++ Segments.raw lead ++ (element ++ (ending.text ++ rest)) := by
    rw [htext]
    simp [lead, element]
  rw [List.append_assoc, List.append_assoc] at h
  rcases exists_readRest_of_content (Segments.isContent_lead ending hspelled) htextLead hposition
    h with ⟨layout₁, h₁⟩
  -- Then the block is read.
  have htextBlock : text = (front ++ Segments.raw lead) ++ element ++ (ending.text ++ rest) := by
    rw [htextLead]
    simp
  have hposition₁ : position + (Segments.raw lead).size = (front ++ Segments.raw lead).size := by
    rw [hposition, Text.size_append]
  rcases exists_block_of_readRest hgroup.isBlock hgroup.fits htextBlock hposition₁ h₁ with
    ⟨block', found, hblock', hfits', hraw', htag', hfound, h₂⟩
  -- The line ends behind it.
  have htextEnd : text = (front ++ Segments.raw lead ++ element) ++ ending.text ++ rest := by
    rw [htextLead]
    simp
  have hposition₂ : position + (Segments.raw lead).size + block'.raw.size =
      (front ++ Segments.raw lead ++ element).size := by
    rw [hraw', hposition₁, ← Text.size_append]
  rcases exists_readRest_of_lineEnd htextEnd hposition₂ h₂ with ⟨layout₂, h₃⟩
  refine ⟨⟨above', block'⟩, layout₂, ⟨⟨hspelled, hblock', hfits',
    Segment.readable_of_layoutAt hfound⟩, habove, hraw', htag'⟩, ?_⟩
  rw [Text.size_append, Text.size_append, ← Nat.add_assoc, ← Nat.add_assoc]
  rw [hraw'] at h₃
  exact h₃

/-- Groups that are written and can be read are groups rewritten. -/
theorem exists_rewritten_of_readRest
    {groups : List Group} {ending : LineEnding} {text front rest : Text} {position : Nat}
    {layout : Layout} {reader : Reader}
    (hgroups : forall group, group ∈ groups -> group.WellFormed)
    (htext : text = front ++
      (groups.map (Group.write ending)).flatMap Document.WrittenBlock.text ++ rest)
    (hposition : position = front.size)
    (h : (atRoot true position layout).readRest text
      ((groups.map (Group.write ending)).flatMap Document.WrittenBlock.text ++ rest) =
        .ok reader) :
    exists groups' : List Group, List.Forall₂ (Group.Rewritten ending) groups groups' := by
  induction groups generalizing position front layout with
  | nil => exact ⟨[], .nil⟩
  | cons group groups ih =>
      rw [List.map_cons, List.flatMap_cons, List.append_assoc] at h
      have hfirst : text = front ++ (group.write ending).text ++
          ((groups.map (Group.write ending)).flatMap Document.WrittenBlock.text ++ rest) := by
        rw [htext]
        simp
      have hrest : text = (front ++ (group.write ending).text) ++
          (groups.map (Group.write ending)).flatMap Document.WrittenBlock.text ++ rest := by
        rw [hfirst]
        simp
      rcases exists_rewrittenGroup_of_readRest (hgroups group (by simp)) hfirst hposition h with
        ⟨group', layout', hgroup', h'⟩
      rcases ih (List.forall_mem_cons.mp hgroups).2 hrest
        (by rw [hposition, Text.size_append]) h' with ⟨groups', hgroups'⟩
      exact ⟨group' :: groups', .cons hgroup' hgroups'⟩

end Cursor
end AndroidStrings
