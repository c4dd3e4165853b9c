import Mathlib.Data.List.Induction
import AndroidStrings.Document.Edit
import AndroidStrings.Proofs.Document.NodeSplit
import AndroidStrings.Proofs.Document.RootMark
import AndroidStrings.Proofs.Text.LineExtent

/-!
# Removal

An element that is removed takes white space on both sides with it.  White space at the end of a
row of segments is the end of a text or a few texts, which say nothing, so the rows around the
element stay rows and say the same, and the document can be read without the element.

## Main statements

- `exists_dropFront`, `exists_dropBack` : rows without the white space at one end.
- `LaidOut.foreign_eq` : the elements of other types are the segments that make up no entry.
- `LaidOut.exists_splice_lineExtent` : a document without one element.
- `LaidOut.exists_removal` : the loop of a removal ends.
- `LaidOut.exists_removeNext` : removal ends, cannot fail, and leaves every entry of another name
  and every element of another type.
-/

namespace AndroidStrings

open Markup

/-!
# White space at the ends of a row
-/

namespace Segment

/-- A text that stands inside the root element or outside of it. -/
def ofText (inRoot : Bool) (content : Text) : Segment :=
  if inRoot then inner (.text content) else outer (.text content)

@[simp] theorem raw_ofText (inRoot : Bool) (content : Text) :
    (ofText inRoot content).raw = content := by
  cases inRoot <;> simp [ofText, Event.raw]

@[simp] theorem layoutAt_ofText (inRoot : Bool) (content : Text) (start : Nat) :
    (ofText inRoot content).layoutAt start = .ok {} := by
  cases inRoot <;> rfl

theorem isText_ofText (inRoot : Bool) (content : Text) :
    (ofText inRoot content).isText = true := by
  cases inRoot <;> rfl

@[simp] theorem leads_ofText (inRoot place : Bool) (content : Text) :
    (ofText inRoot content).leads place = place := by
  cases inRoot <;> rfl

theorem fits_ofText {content : Text} (inRoot : Bool) (h : '<' ∉ content) :
    (ofText inRoot content).Fits inRoot := by
  cases inRoot <;> exact ⟨rfl, rfl, h⟩

theorem isMarkup_raw_of_leaf
    {event : Event}
    (hleaf : event.isLeaf = true)
    (h : forall content : Text, event ≠ .text content) :
    Text.IsMarkup event.raw := by
  cases event with
  | text content => exact absurd rfl (h content)
  | startTag content => simp [Event.isLeaf] at hleaf
  | endTag content => simp [Event.isLeaf] at hleaf
  | _ => constructor <;> simp [Event.raw, List.getLast?_append, List.getLast?_cons]

/-- Every segment but a text begins and ends with markup. -/
theorem isMarkup_or_text
    {inRoot : Bool} {segment : Segment}
    (h : segment.Fits inRoot) :
    Text.IsMarkup segment.raw ∨
      exists content : Text, '<' ∉ content ∧ segment = ofText inRoot content := by
  have hleaf : forall {event : Event}, event.isLeaf = true -> event.Spelled ->
      Text.IsMarkup event.raw ∨ exists content : Text, '<' ∉ content ∧ event = .text content := by
    intro event hleaf hspelled
    by_cases htext : exists content : Text, event = .text content
    · rcases htext with ⟨content, rfl⟩
      exact .inr ⟨content, hspelled, rfl⟩
    · left
      apply isMarkup_raw_of_leaf hleaf
      intro content heq
      exact htext ⟨content, heq⟩
  cases segment with
  | outer event =>
      rcases h with ⟨hroot, hevent, hspelled⟩
      rcases hleaf hevent hspelled with hmarkup | ⟨content, hcontent, heq⟩
      · exact .inl (by simpa using hmarkup)
      · exact .inr ⟨content, hcontent, by simp [ofText, hroot, heq]⟩
  | inner event =>
      rcases h with ⟨hroot, hevent, hspelled⟩
      rcases hleaf hevent hspelled with hmarkup | ⟨content, hcontent, heq⟩
      · exact .inl (by simpa using hmarkup)
      · exact .inr ⟨content, hcontent, by simp [ofText, hroot, heq]⟩
  | element opening inside closing => exact .inl (isMarkup_raw rfl)
  | _ =>
      left
      constructor <;> simp [Event.raw, List.getLast?_cons]

end Segment

namespace Segments

theorem solid_ofText_cons (inRoot : Bool) (content : Text) (row : List Segment) :
    solid (.ofText inRoot content :: row) = solid row :=
  solid_cons_of_isText (Segment.isText_ofText inRoot content) row

theorem solid_append_ofText (inRoot : Bool) (content : Text) (row : List Segment) :
    solid (row ++ [.ofText inRoot content]) = solid row := by
  rw [solid_append, solid_ofText_cons]
  exact List.append_nil _

/-- A row without white space that it begins with is a row of the same segments, but for text. -/
theorem exists_dropFront
    {inRoot : Bool} {row : List Segment} {blank rest : Text}
    (hfit : Fit inRoot row)
    (hraw : raw row = blank ++ rest)
    (hblank : blank.all isSpace = true) :
    exists kept : List Segment, raw kept = rest ∧ Fit inRoot kept ∧ solid kept = solid row := by
  induction row generalizing inRoot blank with
  | nil =>
      rcases List.append_eq_nil_iff.mp hraw.symm with ⟨hnil, hrest⟩
      exact ⟨[], hrest.symm, trivial, rfl⟩
  | cons segment row ih =>
      cases blank with
      | nil => exact ⟨segment :: row, hraw, hfit, rfl⟩
      | cons c blank =>
          rcases Segment.isMarkup_or_text hfit.1 with hmarkup | ⟨content, hcontent, hsegment⟩
          · have hhead := congrArg List.head? hraw
            rw [raw_cons, List.head?_append, hmarkup.1] at hhead
            simp only [Option.some_or, List.cons_append, List.head?_cons,
              Option.some.injEq] at hhead
            rw [← hhead] at hblank
            simp [isSpace] at hblank
          · subst hsegment
            have hrow : Fit inRoot row := by
              simpa using hfit.2
            rw [raw_cons, Segment.raw_ofText] at hraw
            rcases List.append_eq_append_iff.mp hraw with
              ⟨more, hmore, hrest⟩ | ⟨more, hmore, hrest⟩
            · rw [hmore, List.all_append, Bool.and_eq_true] at hblank
              rcases ih hrow hrest hblank.2 with ⟨kept, hkept, hfitKept, hsame⟩
              exact ⟨kept, hkept, hfitKept, by rw [hsame, solid_ofText_cons]⟩
            · have hmark : '<' ∉ more := by
                intro hmem
                exact hcontent (hmore ▸ List.mem_append_right _ hmem)
              refine ⟨.ofText inRoot more :: row, ?_, ⟨Segment.fits_ofText inRoot hmark, ?_⟩, ?_⟩
              · rw [raw_cons, Segment.raw_ofText, hrest]
              · simpa using hrow
              · rw [solid_ofText_cons, solid_ofText_cons]

/-- A row without white space that it ends with is a row of the same segments, but for text. -/
theorem exists_dropBack
    {inRoot : Bool} {row : List Segment} {blank rest : Text}
    (hfit : Fit inRoot row)
    (hraw : raw row = rest ++ blank)
    (hblank : blank.all isSpace = true) :
    exists kept : List Segment,
      raw kept = rest ∧ Fit inRoot kept ∧ leads inRoot kept = leads inRoot row ∧
        solid kept = solid row := by
  -- The white space is at the end, so the row is taken apart from there.
  induction row using List.reverseRecOn generalizing blank with
  | nil =>
      rcases List.append_eq_nil_iff.mp hraw.symm with ⟨hrest, _⟩
      exact ⟨[], hrest.symm, trivial, rfl, rfl⟩
  | append_singleton row segment ih =>
      rcases (fit_append inRoot row [segment]).mp hfit with ⟨hrow, hsegment, _⟩
      rcases List.eq_nil_or_concat blank with hnil | ⟨front, c, hconcat⟩
      · rw [hnil, List.append_nil] at hraw
        exact ⟨row ++ [segment], hraw, hfit, rfl, rfl⟩
      · rcases Segment.isMarkup_or_text hsegment with hmarkup | ⟨content, hcontent, hsegment⟩
        · have hlast := congrArg List.getLast? hraw
          rw [raw_append, raw_cons, raw_nil, List.append_nil, List.getLast?_append, hmarkup.2,
            hconcat, List.concat_eq_append, ← List.append_assoc, List.getLast?_concat,
            Option.some_or, Option.some.injEq] at hlast
          rw [hconcat, ← hlast] at hblank
          simp [isSpace] at hblank
        · subst hsegment
          have hleads : leads inRoot (row ++ [.ofText (leads inRoot row) content]) =
              leads inRoot row := by
            simp [leads]
          rw [raw_append, raw_cons, raw_nil, List.append_nil, Segment.raw_ofText] at hraw
          rcases List.append_eq_append_iff.mp hraw with
            ⟨more, hmore, hrest⟩ | ⟨more, hmore, hrest⟩
          · have hmark : '<' ∉ more := by
              intro hmem
              exact hcontent (hrest ▸ List.mem_append_left _ hmem)
            refine ⟨row ++ [.ofText (leads inRoot row) more], ?_, ?_, ?_, ?_⟩
            · rw [raw_append, raw_cons, raw_nil, List.append_nil, Segment.raw_ofText, hmore]
            · rw [fit_append]
              exact ⟨hrow, Segment.fits_ofText _ hmark, trivial⟩
            · simp [leads]
            · rw [solid_append_ofText, solid_append_ofText]
          · rw [hrest, List.all_append, Bool.and_eq_true] at hblank
            rcases ih hrow hmore hblank.1 with ⟨kept, hkept, hfitKept, hleadsKept, hsame⟩
            refine ⟨kept, hkept, hfitKept, hleadsKept.trans hleads.symm, ?_⟩
            rw [hsame, solid_append_ofText]

end Segments

/-!
# Elements of other types
-/

namespace Segment

/-- An element that makes up no entry. -/
def isForeign (segment : Segment) : Bool :=
  segment.isBlock && (EntryKind.ofTag? segment.tag).isNone

theorem isBlock_of_isForeign
    {segment : Segment}
    (h : segment.isForeign = true) :
    segment.isBlock = true :=
  (Bool.and_eq_true _ _ ▸ h).1

theorem others_of_layoutAt
    {start : Nat} {segment : Segment} {found : Layout}
    (h : segment.layoutAt start = .ok found) :
    found.others =
      if segment.isForeign then [⟨start, start + segment.raw.size⟩] else [] := by
  cases hblock : segment.isBlock with
  | false =>
      rw [(layoutAt_of_not_isBlock hblock h).2, isForeign, hblock]
      rfl
  | true =>
      have hblocks := (layoutAt_of_isBlock hblock h).1
      cases segment with
      | element opening inside closing =>
          simp only [layoutAt] at h
          split at h
          · rename_i hkind
            rw [Except.ok.injEq] at h
            rw [← h]
            simp [isForeign, isBlock, tag, content, hkind]
          · rename_i kind hkind
            rcases Success.map_eq_ok_iff.mp h with ⟨node, _, heq⟩
            rw [← heq]
            simp [isForeign, tag, content, hkind]
      | inner event =>
          cases event with
          | emptyTag content =>
              simp only [layoutAt] at h
              split at h
              · rename_i hkind
                rw [Except.ok.injEq] at h
                rw [← h]
                simp [isForeign, isBlock, tag, Segment.content, hkind]
              · rename_i kind hkind
                rcases Success.map_eq_ok_iff.mp h with ⟨heading, _, heq⟩
                rw [← heq]
                simp [isForeign, tag, Segment.content, hkind]
          | _ => simp [isBlock] at hblock
      | _ => simp [isBlock] at hblock

end Segment

namespace Segments

/-- The elements of a row that make up no entry, as they stand in it. -/
def foreign (row : List Segment) : List Text :=
  (row.filter Segment.isForeign).map Segment.raw

theorem foreign_append (front back : List Segment) :
    foreign (front ++ back) = foreign front ++ foreign back := by
  rw [foreign, List.filter_append, List.map_append]
  rfl

/-- Spans of a layout that are taken up by the segments of some sort, one by each. -/
structure TakenUp (spans : Layout -> List Span) (sort : Segment -> Bool) : Prop where
  empty : spans {} = []
  append : forall front back : Layout, spans (front ++ back) = spans front ++ spans back
  layoutAt : forall {start : Nat} {segment : Segment} {found : Layout},
    segment.layoutAt start = .ok found ->
      spans found = if sort segment then [⟨start, start + segment.raw.size⟩] else []

theorem TakenUp.slice_eq
    {spans : Layout -> List Span} {sort : Segment -> Bool} {row : List Segment} {start : Nat}
    {front : Text} {layout : Layout}
    (htaken : TakenUp spans sort)
    (h : layoutFrom start row = .ok layout)
    (hstart : start = front.size)
    (back : Text) :
    (spans layout).map (front ++ raw row ++ back).slice = (row.filter sort).map Segment.raw := by
  induction row generalizing start front layout with
  | nil =>
      rw [layoutFrom, Except.ok.injEq] at h
      rw [← h, htaken.empty]
      rfl
  | cons segment row ih =>
      rcases exists_layouts_of_cons h with ⟨found, rest, hfound, hrest, heq⟩
      have hrow := ih hrest (hstart ▸ (Text.size_append front segment.raw).symm)
      have htext : front ++ raw (segment :: row) ++ back =
          front ++ segment.raw ++ raw row ++ back := by
        simp
      rw [← heq, htaken.append, List.map_append, htext, hrow, htaken.layoutAt hfound, hstart,
        List.filter_cons]
      cases sort segment with
      | false => rfl
      | true =>
          have hslice : (front ++ segment.raw ++ raw row ++ back).slice
              ⟨front.size, front.size + segment.raw.size⟩ = segment.raw := by
            rw [List.append_assoc (front ++ segment.raw), Text.slice_append]
          rw [if_pos rfl, if_pos rfl, List.map_singleton, hslice, List.map_cons]
          rfl

theorem takenUp_others : TakenUp Layout.others Segment.isForeign where
  empty := rfl
  append _ _ := rfl
  layoutAt := Segment.others_of_layoutAt

/-- Segments that are no plain text are told off from a row without its plain text. -/
theorem filter_solid
    {sort : Segment -> Bool}
    (h : forall segment : Segment, segment.isText = true -> sort segment = false)
    (row : List Segment) :
    (solid row).filter sort = row.filter sort := by
  rw [solid, List.filter_filter]
  apply List.filter_congr
  intro segment _
  cases htext : segment.isText with
  | true => rw [h segment htext]; rfl
  | false => rw [Bool.not_false, Bool.and_true]

theorem foreign_solid (row : List Segment) : foreign (solid row) = foreign row := by
  rw [foreign, filter_solid, foreign]
  intro segment htext
  cases hforeign : segment.isForeign with
  | false => rfl
  | true =>
      rw [Segment.isText_of_isBlock (Segment.isBlock_of_isForeign hforeign)] at htext
      cases htext

end Segments

namespace Document

/-- The elements of other types, as they stand in the text. -/
def foreign (document : Document) : List Text :=
  document.layout.others.map document.slice

/-- What segments of a row take up, as it stands in the text. -/
theorem LaidOut.slice_eq
    {document : Document} {row : List Segment} {spans : Layout -> List Span}
    {sort : Segment -> Bool}
    (h : document.LaidOut row)
    (htaken : Segments.TakenUp spans sort) :
    (spans document.layout).map document.slice = (row.filter sort).map Segment.raw := by
  rcases h.exists_layoutFrom with ⟨layout, hlayout, heq⟩
  have hspans := htaken.slice_eq hlayout Text.size_nil.symm []
  rw [List.nil_append, List.append_nil, h.raw] at hspans
  rw [heq]
  exact hspans

/-- The elements of other types are the segments that make up no entry. -/
theorem LaidOut.foreign_eq
    {document : Document} {row : List Segment}
    (h : document.LaidOut row) :
    document.foreign = Segments.foreign row :=
  h.slice_eq Segments.takenUp_others

end Document

/-!
# One element less
-/

namespace Segment

/-- An element that makes up an entry is of no other type. -/
theorem isForeign_of_entries
    {segment : Segment}
    (hreadable : segment.Readable)
    (hentries : segment.entries ≠ []) :
    segment.isForeign = false := by
  cases hforeign : segment.isForeign with
  | false => rfl
  | true =>
      rcases hreadable with ⟨found, hfound⟩
      have hblocks := (layoutAt_of_isBlock (isBlock_of_isForeign hforeign) hfound).1
      have hothers := others_of_layoutAt hfound
      rw [hforeign, if_pos rfl] at hothers
      rw [← entries_of_layoutAt hfound] at hentries
      have hnodes : found.nodes = [] := by
        rw [Layout.blocks, hothers, List.map_singleton] at hblocks
        have hlength := congrArg List.length hblocks
        simp only [List.length_append, List.length_map, List.length_singleton] at hlength
        apply List.eq_nil_of_length_eq_zero
        omega
      exact absurd (by rw [hnodes]; rfl) hentries

end Segment

namespace Document

def isNamed (id : Text) (entry : Entry) : Bool :=
  entry.id == id

section Row

variable {document : Document} {row : List Segment} {id : Text} {node : Node}

/-- The first element of a name can be taken out of a document, with the line that it had to
itself. -/
theorem LaidOut.exists_splice_lineExtent
    (h : document.LaidOut row)
    (hfind : document.nodes.find? (fun node => node.id == id) = some node) :
    exists (edited : Document) (front : List Segment) (segment : Segment)
        (back kept : List Segment),
      document.splice (document.text.lineExtent node.outer) [] = .ok edited ∧
        edited.LaidOut kept ∧ edited.text.length < document.text.length ∧
        row = front ++ segment :: back ∧ segment.isBlock = true ∧
        segment.entries = [node.entry] ∧
        (forall entry, entry ∈ front.flatMap Segment.entries -> isNamed id entry = false) ∧
        Segments.solid kept = Segments.solid (front ++ back) ∧
        Text.CutsOut segment.raw document.text edited.text := by
  rcases h.exists_nodeSplit hfind with ⟨front, segment, back, before, after, hrow, hsplit⟩
  rcases Text.exists_lineExtent (Segments.raw front) segment.raw (Segments.raw back) with
    ⟨kept, blank, blank', rest, hkept, hrest, hmargin, hextent⟩
  rcases Segments.exists_dropBack hsplit.fit_front hkept hmargin.all_isSpace.1 with
    ⟨front', hfrontRaw, hfrontFit, hfrontLeads, hfrontSame⟩
  rcases Segments.exists_dropFront hsplit.fit_back hrest hmargin.all_isSpace.2 with
    ⟨back', hbackRaw, hbackFit, hbackSame⟩
  have hcut : document.text.splice (document.text.lineExtent node.outer) [] =
      Segments.raw front' ++ Segments.raw back' := by
    have hsplice := Text.splice_append kept (blank ++ segment.raw ++ blank') rest []
    rw [hsplit.outer, hsplit.text, hextent, hkept, hrest, hfrontRaw, hbackRaw]
    simpa using hsplice
  have hplain : PlainStart
      (Segments.raw front' ++ (blank ++ (segment.raw ++ Segments.raw back))) := by
    have hplain := h.plain
    rw [hsplit.text, hkept] at hplain
    simpa [hfrontRaw] using hplain
  have hsolid : Segments.solid (front' ++ back') = Segments.solid (front ++ back) := by
    rw [Segments.solid_append, Segments.solid_append, hfrontSame, hbackSame]
  have hreadable : forall other, other ∈ front ++ back -> other.Readable := by
    intro other hother
    apply h.readable other
    rw [hrow]
    rcases List.mem_append.mp hother with hmem | hmem <;> simp [hmem]
  rcases exists_laidOut_append hplain hfrontFit (hfrontLeads.trans hsplit.inRoot) hbackFit
    (Segments.readable_of_solid hsolid hreadable) with ⟨edited, hedited, hlaid⟩
  refine ⟨edited, front, segment, back, front' ++ back', ?_, hlaid, ?_, hrow, hsplit.isBlock,
    hsplit.entries_segment, hsplit.not_wanted fun _ => rfl, hsolid,
    kept, blank, blank', rest, ?_, ?_, hmargin⟩
  · rw [splice, hcut]
    exact hedited
  · have hpos : 0 < segment.raw.length := by
      apply List.length_pos_of_ne_nil
      intro hnil
      have hhead := (Segment.isMarkup_raw hsplit.isBlock).1
      simp [hnil] at hhead
    have hlength := congrArg List.length hsplit.text
    rw [← hlaid.raw]
    simp only [hkept, hrest, Segments.raw_append, hfrontRaw, hbackRaw,
      List.length_append] at hlength ⊢
    omega
  · rw [hsplit.text, hkept, hrest]
    simp only [List.append_assoc]
  · rw [← hlaid.raw, Segments.raw_append, hfrontRaw, hbackRaw]

/-- Without the first element of a name, a document has every other entry and element, and the
tags of its root element. -/
theorem LaidOut.exists_removed
    (h : document.LaidOut row)
    (hfind : document.nodes.find? (fun node => node.id == id) = some node) :
    exists (edited : Document) (kept : List Segment),
      document.splice (document.text.lineExtent node.outer) [] = .ok edited ∧
        edited.LaidOut kept ∧ edited.text.length < document.text.length ∧
        edited.entries = document.entries.eraseP (isNamed id) ∧
        Segments.foreign kept = Segments.foreign row ∧
        Segments.rootMarks kept = Segments.rootMarks row := by
  rcases h.exists_splice_lineExtent hfind with
    ⟨edited, front, segment, back, kept, hsplice, hlaid, hless, hrow, hblock, hentries, hfront,
      hsolid, _⟩
  refine ⟨edited, kept, hsplice, hlaid, hless, ?_, ?_, ?_⟩
  · have hnone : forall entry, entry ∈ front.flatMap Segment.entries ->
        ¬ isNamed id entry = true := by
      intro entry hentry
      rw [hfront entry hentry]
      exact Bool.false_ne_true
    have hnamed : isNamed id node.entry = true :=
      List.find?_some (p := fun node : Node => node.id == id) hfind
    rw [hlaid.entries_eq, h.entries_eq, hrow, List.flatMap_append, List.flatMap_cons, hentries,
      List.singleton_append, List.eraseP_append_right _ hnone, List.eraseP_cons_of_pos hnamed,
      ← Segments.flatMap_solid (fun _ htext => Segment.entries_of_isText htext), hsolid,
      Segments.flatMap_solid (fun _ htext => Segment.entries_of_isText htext),
      List.flatMap_append]
  · have hreadable : segment.Readable := h.readable segment (by simp [hrow])
    have hforeign := Segment.isForeign_of_entries hreadable (by simp [hentries])
    rw [← Segments.foreign_solid, hsolid, Segments.foreign_solid, hrow, Segments.foreign_append,
      Segments.foreign_append, Segments.foreign, Segments.foreign, Segments.foreign,
      List.filter_cons, hforeign]
    rfl
  · rw [← Segments.rootMarks_solid, hsolid, Segments.rootMarks_solid, hrow]
    simp [Segment.rootMarks_of_isBlock hblock]

end Row

/-!
# All elements of a name
-/

theorem filter_eraseP {α : Type} (p : α -> Bool) (items : List α) :
    (items.eraseP p).filter (fun item => !p item) = items.filter fun item => !p item := by
  induction items with
  | nil => rfl
  | cons item items ih =>
      cases hp : p item with
      | true => simp [hp]
      | false => simp [hp, ih]

/-- The loop of a removal: as long as there is an element of the name, the first one is taken out,
with its line if it has the line to itself.  The texts are those of the elements. -/
inductive Removal (id : Text) : Document -> List Text -> Document -> Prop where
  | done {document : Document} :
      document.nodes.find? (fun node => node.id == id) = none ->
      Removal id document [] document
  | next {document next edited : Document} {node : Node} {removed : List Text} :
      document.nodes.find? (fun node => node.id == id) = some node ->
      document.splice (document.text.lineExtent node.outer) [] = .ok next ->
      next.text.length < document.text.length ->
      Removal id next removed edited ->
      Removal id document (document.slice node.outer :: removed) edited

/-- The loop ends and cannot fail. -/
theorem LaidOut.exists_removal
    {document : Document} {row : List Segment}
    (h : document.LaidOut row)
    (id : Text) :
    exists (removed : List Text) (edited : Document), Removal id document removed edited := by
  -- Every removal makes the text shorter.
  induction hlength : document.text.length using Nat.strongRecOn generalizing document row with
  | ind length ih =>
      cases hfind : document.nodes.find? (fun node => node.id == id) with
      | none => exact ⟨[], document, .done hfind⟩
      | some node =>
          rcases h.exists_removed hfind with ⟨next, kept, hsplice, hkept, hless, _⟩
          rcases ih next.text.length (hlength ▸ hless) hkept rfl with ⟨removed, edited, hrest⟩
          exact ⟨_, edited, .next hfind hsplice hless hrest⟩

namespace Removal

variable {id : Text} {document edited : Document} {removed : List Text} {row : List Segment}

theorem removeNext_eq
    (h : Removal id document removed edited)
    (outcome : EditOutcome) :
    document.removeNext outcome id =
      ⟨edited, .ok (if removed = [] then outcome else .applied)⟩ := by
  induction h generalizing outcome with
  | done hnone => rw [removeNext, hnone, if_pos rfl]
  | next hfind hsplice hless _ ih =>
      rw [removeNext, hfind]
      simp only [hsplice, hless, if_true, ih, ite_self, reduceCtorEq, if_false]

/-- Something is removed if and only if some entry has the name. -/
theorem eq_nil_iff (h : Removal id document removed edited) :
    removed = [] ↔ document.entries.any (isNamed id) = false := by
  have hany : document.entries.any (isNamed id) =
      (document.nodes.find? fun node => node.id == id).isSome := by
    rw [entries, List.any_map, List.isSome_find?]
    rfl
  rw [hany]
  cases h with
  | done hnone => simp [hnone]
  | next hfind _ _ _ => simp [hfind]

/-- What was taken out is told by the outcome. -/
theorem removeNext_eq_any
    (h : Removal id document removed edited)
    (outcome : EditOutcome) :
    document.removeNext outcome id =
      ⟨edited, .ok (if document.entries.any (isNamed id) then .applied else outcome)⟩ := by
  rw [h.removeNext_eq outcome]
  by_cases hnil : removed = []
  · rw [if_pos hnil, h.eq_nil_iff.mp hnil]
    rfl
  · rw [if_neg hnil, if_pos (Bool.not_eq_false _ ▸ mt h.eq_nil_iff.mpr hnil)]

/-- The entries of other names stay, with every element of another type and the tags of the root
element. -/
theorem exists_laidOut
    (hremoval : Removal id document removed edited)
    (h : document.LaidOut row) :
    exists kept : List Segment,
      edited.LaidOut kept ∧
        edited.entries = (document.entries.filter fun entry => !isNamed id entry) ∧
        Segments.foreign kept = Segments.foreign row ∧
        Segments.rootMarks kept = Segments.rootMarks row := by
  induction hremoval generalizing row with
  | done hnone =>
      rename_i document
      refine ⟨row, h, ?_, rfl, rfl⟩
      symm
      rw [List.filter_eq_self]
      intro entry hentry
      rcases List.mem_map.mp hentry with ⟨node, hnode, heq⟩
      rw [Bool.not_eq_true', Bool.eq_false_iff, ← heq]
      exact List.find?_eq_none.mp hnone node hnode
  | next hfind hsplice _ _ ih =>
      rcases h.exists_removed hfind with
        ⟨next, kept, hnext, hkept, _, hentries, hforeign, hmarks⟩
      rw [hsplice, Except.ok.injEq] at hnext
      rw [← hnext] at hkept hentries
      rcases ih hkept with ⟨last, hlast, hrest, hforeignLast, hmarksLast⟩
      refine ⟨last, hlast, ?_, hforeignLast.trans hforeign, hmarksLast.trans hmarks⟩
      rw [hrest, hentries, filter_eraseP]

end Removal

/-- Removal ends, it cannot fail, and the entries of other names stay, with every element of
another type and the tags of the root element. -/
theorem LaidOut.exists_removeNext
    {document : Document} {row : List Segment}
    (h : document.LaidOut row)
    (id : Text) (outcome : EditOutcome) :
    exists (edited : Document) (kept : List Segment),
      document.removeNext outcome id =
          ⟨edited, .ok (if document.entries.any (isNamed id) then .applied else outcome)⟩ ∧
        edited.LaidOut kept ∧
        edited.entries = (document.entries.filter fun entry => !isNamed id entry) ∧
        Segments.foreign kept = Segments.foreign row ∧
        Segments.rootMarks kept = Segments.rootMarks row := by
  rcases h.exists_removal id with ⟨removed, edited, hremoval⟩
  rcases hremoval.exists_laidOut h with ⟨kept, hkept, hfacts⟩
  exact ⟨edited, kept, hremoval.removeNext_eq_any outcome, hkept, hfacts⟩

theorem exists_removeNext
    {document : Document}
    (hplain : PlainStart document.text)
    (hparse : parse document.text = .ok document)
    (id : Text) (outcome : EditOutcome) :
    exists edited : Document,
      document.removeNext outcome id =
          ⟨edited, .ok (if document.entries.any (isNamed id) then .applied else outcome)⟩ ∧
        PlainStart edited.text ∧ parse edited.text = .ok edited ∧
        edited.entries = (document.entries.filter fun entry => !isNamed id entry) ∧
        edited.foreign = document.foreign := by
  rcases exists_laidOut hplain hparse with ⟨row, h⟩
  rcases h.exists_removeNext id outcome with ⟨edited, kept, hedited, hkept, hentries, hforeign, _⟩
  refine ⟨edited, hedited, hkept.plain, hkept.read, hentries, ?_⟩
  rw [hkept.foreign_eq, hforeign, h.foreign_eq]

end Document
end AndroidStrings
