import AndroidStrings.Proofs.Document.Arrange
import AndroidStrings.Proofs.Document.Failure
import AndroidStrings.Proofs.Document.Seam
import AndroidStrings.Proofs.Text.Uniform
import AndroidStrings.Proofs.Value.Escape

/-!
# Edits keep the line endings uniform

Every edit cuts the text next to markup or where a line begins or ends, so no pair of a carriage
return and a line feed is torn, and what it writes has the line ending that it finds.  After an
edit the text may have no line break left; it is uniform all the same.

## Main statements

- `Settled.of_splice` : a cut next to markup, filled with text of the same line endings.
- `Settled.perform` : one command.
- `uniform_performAll` : every document along a row of commands.
-/

namespace AndroidStrings

open Markup

namespace Text

theorem Seam.cutAt
    {t : Text} {position : Nat}
    (h : t.Seam position) :
    CutAt t position := by
  rcases h with ⟨front, back, htext, hposition, hmarkup⟩
  exact ⟨front, back, htext, hposition, mayCut_of_markup hmarkup⟩

theorem Seam.cutAt_lineStart
    {t : Text} {position : Nat}
    (h : t.Seam position) :
    CutAt t (t.lineStart position) := by
  rcases h with ⟨front, back, rfl, rfl, _⟩
  exact Text.cutAt_lineStart front back

end Text

namespace Document

open Text

/-- A document that has been read from a text with uniform line endings. -/
structure Settled (document : Document) : Prop where
  read : document.IsRead
  plain : PlainStart document.text
  uniform : Uniform document.text

/-- A text that may stand at the front of a document. -/
def MayBegin (t : Text) : Prop :=
  t ≠ [] ∧ PlainStart t

theorem plainStart_splice
    {text front back replacement : Text} {span : Span}
    (h : PlainStart text)
    (htext : text = front ++ back)
    (hstart : span.start = front.size)
    (hfront : 0 < span.start ∨ MayBegin replacement) :
    PlainStart (text.splice span replacement) := by
  have hnew : text.splice span replacement =
      front ++ (replacement ++ dropBytes span.stop text) := by
    rw [Text.splice, hstart, htext, takeBytes_size, List.append_assoc]
  rw [hnew]
  cases front with
  | cons c front => exact fun heq => h (by rw [htext]; exact heq)
  | nil =>
      rcases hfront with hpos | ⟨hne, hbegins⟩
      · rw [hstart] at hpos
        exact absurd hpos (Nat.lt_irrefl 0)
      · have hplain : PlainStart (replacement ++ []) := by
          rwa [List.append_nil]
        rw [List.nil_append]
        exact plainStart_append hne hplain

section

variable {document edited : Document} {id : Text}

theorem Settled.inStyle (h : document.Settled) : InStyle document.lineEnding document.text :=
  (uniform_iff_inStyle _).mp h.uniform

theorem Settled.seamed (h : document.Settled) : document.layout.Seamed document.text :=
  seamed_of_parse h.plain h.read

/-- A cut next to markup, filled with text of the same line endings. -/
theorem Settled.of_splice
    {start stop : Nat} {replacement : Text}
    (h : document.Settled)
    (hstart : CutAt document.text start)
    (hstop : CutAt document.text stop)
    (hreplacement : InStyle document.lineEnding replacement)
    (hfront : 0 < start ∨ MayBegin replacement)
    (hedit : document.splice ⟨start, stop⟩ replacement = .ok edited) :
    edited.Settled := by
  have htext := text_of_parse hedit
  refine ⟨isRead_of_parse hedit, ?_, ?_⟩
  · rw [htext]
    rcases hstart with ⟨front, back, hsplit, hsize, _⟩
    exact plainStart_splice h.plain hsplit hsize hfront
  · rw [htext]
    exact (h.inStyle.splice hstart hstop hreplacement).uniform

/-!
# Places
-/

theorem mem_places_of_mem_nodes
    {node : Node} {place : Span}
    (hnode : node ∈ document.nodes)
    (hplace : place ∈ node.places) :
    place ∈ document.layout.places := by
  have hmem : place ∈ document.layout.nodes.flatMap Node.places :=
    List.mem_flatMap.mpr ⟨node, hnode, hplace⟩
  simp only [Layout.places, List.mem_append]
  exact .inl (.inl (.inr hmem))

theorem Settled.seamedAt
    {node : Node} {place : Span}
    (h : document.Settled)
    (hnode : node ∈ document.nodes)
    (hplace : place ∈ node.places) :
    document.text.SeamedAt place :=
  h.seamed.seams place (mem_places_of_mem_nodes hnode hplace)

theorem Settled.isMarkup_outer
    {node : Node}
    (h : document.Settled)
    (hnode : node ∈ document.nodes) :
    IsMarkup (document.slice node.outer) := by
  apply h.seamed.markup
  simp only [Layout.markupPlaces, Layout.rootPlaces, List.mem_append]
  exact .inr (.inl (.inl (List.mem_map_of_mem hnode)))

theorem Settled.exactIn
    (h : document.Settled) :
    document.layout.ExactIn document.text ⟨0, document.text.size⟩ :=
  exactIn_of_isRead h.plain h.read

theorem mem_places_of_mem_items
    {node : Node} {item : ItemNode}
    (hitem : item ∈ node.items) :
    item.outer ∈ node.places ∧ item.inner ∈ node.places := by
  have hends : forall place, place ∈ [item.outer, item.inner] -> place ∈ node.places := by
    intro place hplace
    exact List.mem_cons_of_mem _ (List.mem_cons_of_mem _
      (List.mem_flatMap.mpr ⟨item, hitem, hplace⟩))
  exact ⟨hends _ (by simp), hends _ (by simp)⟩

/-!
# Entries put in
-/

theorem oneLine_entryIndent : OneLine entryIndent := by
  decide

theorem oneLine_itemIndent : OneLine itemIndent := by
  decide

theorem mayBegin_of_cons
    {c : Char} {t : Text}
    (h : c ≠ Markup.byteOrderMark) :
    MayBegin (c :: t) :=
  ⟨List.cons_ne_nil c t, fun heq => h (Option.some.inj heq)⟩

/-- An element of one line, or of lines with the line ending of the document, is put in before
the end of the root element. -/
theorem Settled.of_insertEntry
    {element : Text}
    (h : document.Settled)
    (helement : InStyle document.lineEnding element)
    (hedit : document.insertEntry element = .ok edited) :
    edited.Settled := by
  unfold insertEntry at hedit
  split at hedit
  · simp at hedit
  · rename_i close hclose
    have hplace : exists span : Span,
        document.layout.rootClose = some span ∧ close = span.start := by
      unfold rootCloseStart at hclose
      split at hclose
      · rename_i span hspan
        exact ⟨span, hspan, (Except.ok.inj hclose).symm⟩
      · simp at hclose
    rcases hplace with ⟨span, hspan, rfl⟩
    have hseam : document.text.Seam span.start := by
      refine (h.seamed.seams span ?_).1
      simp [Layout.places, hspan]
    have hindent := oneLine_entryIndent.inStyle document.lineEnding
    have hending := inStyle_ending document.lineEnding
    simp only at hedit
    split at hedit
    · exact h.of_splice hseam.cutAt_lineStart hseam.cutAt_lineStart
        ((hindent.append helement).append hending) (.inr (mayBegin_of_cons (by decide))) hedit
    · refine h.of_splice hseam.cutAt hseam.cutAt
        (((hending.append hindent).append helement).append hending) (.inr ?_) hedit
      cases document.lineEnding with
      | lf => exact mayBegin_of_cons (by decide)
      | crlf => exact mayBegin_of_cons (by decide)

theorem oneLine_stringElement
    {stored : Text}
    (hid : OneLine id)
    (hstored : OneLine stored) :
    OneLine (stringElement id stored) := by
  have hopen : OneLine "<string name=\"".toList := by decide
  have hmiddle : OneLine "\">".toList := by decide
  have hclose : OneLine "</string>".toList := by decide
  exact (((hopen.append hid).append hmiddle).append hstored).append hclose

theorem oneLine_itemElement
    {stored : Text}
    (quantity : Quantity)
    (hstored : OneLine stored) :
    OneLine (itemElement quantity stored) := by
  have hopen : OneLine "<item quantity=\"".toList := by decide
  have hname : OneLine quantity.name := by cases quantity <;> decide
  have hmiddle : OneLine "\">".toList := by decide
  have hclose : OneLine "</item>".toList := by decide
  exact (((hopen.append hname).append hmiddle).append hstored).append hclose

theorem inStyle_pluralsElement
    {items : List (Quantity × Text)}
    (hid : OneLine id)
    (hitems : forall item, item ∈ items -> OneLine item.2)
    (ending : LineEnding) :
    InStyle ending (pluralsElement id items ending) := by
  have hfront : OneLine "<plurals name=\"".toList := by decide
  have hmiddle : OneLine "\">".toList := by decide
  have hback : OneLine "</plurals>".toList := by decide
  have hopen := ((hfront.append hid).append hmiddle).inStyle ending
  have hlines : InStyle ending (items.flatMap fun item =>
      ending.text ++ itemIndent ++ itemElement item.1 item.2) := by
    apply InStyle.flatMap
    intro item hitem
    exact ((inStyle_ending ending).append (oneLine_itemIndent.inStyle ending)).append
      ((oneLine_itemElement item.1 (hitems item hitem)).inStyle ending)
  exact (((hopen.append hlines).append (inStyle_ending ending)).append
    (oneLine_entryIndent.inStyle ending)).append (hback.inStyle ending)

/-!
# Values stored
-/

theorem inStyle_expandedString
    {ending : LineEnding} {tagText stored : Text}
    (htag : InStyle ending tagText)
    (hstored : OneLine stored) :
    InStyle ending (expandedString tagText stored) := by
  have hcut : InStyle ending (trimEnd CharClass.isWhiteSpace
      (trimEnd (· == '/') (trimEnd (· == '>') tagText))) :=
    ((htag.trimEnd rfl).trimEnd rfl).trimEnd (by decide)
  have hclose : OneLine ['>'] := by decide
  have hend : OneLine "</string>".toList := by decide
  exact (hcut.append ((hclose.append hstored).inStyle ending)).append (hend.inStyle ending)

theorem mayBegin_expandedString
    {tagText : Text}
    (htag : IsMarkup tagText)
    (stored : Text) :
    MayBegin (expandedString tagText stored) := by
  unfold expandedString
  cases hcut : trimEnd CharClass.isWhiteSpace
      (trimEnd (· == '/') (trimEnd (· == '>') tagText)) with
  | nil =>
      simp only [hcut]
      exact mayBegin_of_cons (by decide)
  | cons c rest =>
      have hlast : (trimEnd CharClass.isWhiteSpace
          (trimEnd (· == '/') (trimEnd (· == '>') tagText))).head? = some c := by
        rw [hcut]
        rfl
      have hhead : tagText.head? = some c := head?_trimEnd (head?_trimEnd (head?_trimEnd hlast))
      rw [htag.1, Option.some.injEq] at hhead
      simp only [hcut, ← hhead]
      exact mayBegin_of_cons (by decide)

theorem Settled.of_replaceString
    {stored : Text}
    (h : document.Settled)
    (hstored : OneLine stored)
    (hedit : document.replaceString id stored = .ok edited) :
    edited.Settled := by
  unfold replaceString at hedit
  split at hedit
  · simp at hedit
  · rename_i node hfind
    have hnode : node ∈ document.nodes := List.mem_of_find?_eq_some hfind
    have houter := h.seamedAt hnode node.outer_mem_places
    have hinner := h.seamedAt hnode node.inner_mem_places
    split at hedit
    · have hmarkup := h.isMarkup_outer hnode
      have htag := h.inStyle.of_isMarkup (slice_isInfix _ _) hmarkup
      refine h.of_splice houter.1.cutAt houter.2.cutAt (inStyle_expandedString htag hstored)
        (.inr (mayBegin_expandedString hmarkup stored)) hedit
    · exact h.of_splice hinner.1.cutAt hinner.2.cutAt (hstored.inStyle _)
        (.inl (h.exactIn.inner_pos hnode)) hedit

theorem Settled.of_setQuantity
    {quantity : Quantity} {stored : Text}
    (h : document.Settled)
    (hstored : OneLine stored)
    (hedit : document.setQuantity id quantity stored = .ok edited) :
    edited.Settled := by
  have helement := (oneLine_itemElement quantity hstored).inStyle document.lineEnding
  unfold setQuantity at hedit
  split at hedit
  · simp at hedit
  · rename_i node hfind
    have hnode : node ∈ document.nodes := List.mem_of_find?_eq_some hfind
    split at hedit
    · rename_i item hitem
      have hitem := List.mem_of_find?_eq_some hitem
      rcases mem_places_of_mem_items hitem with ⟨houterPlace, hinnerPlace⟩
      have houter := h.seamedAt hnode houterPlace
      have hinner := h.seamedAt hnode hinnerPlace
      split at hedit
      · exact h.of_splice houter.1.cutAt houter.2.cutAt helement
          (.inr (mayBegin_of_cons (by decide))) hedit
      · exact h.of_splice hinner.1.cutAt hinner.2.cutAt (hstored.inStyle _)
          (.inl (h.exactIn.item_inner_pos hnode hitem)) hedit
    · have hseam := (h.seamedAt hnode node.inner_mem_places).2
      simp only at hedit
      split at hedit
      · exact h.of_splice hseam.cutAt_lineStart hseam.cutAt_lineStart
          (((oneLine_itemIndent.inStyle _).append helement).append (inStyle_ending _))
          (.inr (mayBegin_of_cons (by decide))) hedit
      · exact h.of_splice hseam.cutAt hseam.cutAt helement
          (.inr (mayBegin_of_cons (by decide))) hedit

theorem Settled.setQuantities
    {items : List (Quantity × Text)}
    (h : document.Settled)
    (hitems : forall item, item ∈ items -> OneLine item.2)
    (id : Text) :
    (document.setQuantities id items).document.Settled := by
  induction items generalizing document with
  | nil => exact h
  | cons item items ih =>
      rcases item with ⟨quantity, stored⟩
      rw [List.forall_mem_cons] at hitems
      rw [Document.setQuantities]
      split
      · exact h
      · rename_i new hnew
        exact ih (h.of_setQuantity hitems.1 hnew) hitems.2

/-!
# Elements removed
-/

/-- One element is removed, with its line if it has the line to itself. -/
theorem Settled.of_lineExtent
    {node : Node}
    (h : document.Settled)
    (hfind : document.nodes.find? (fun node => node.id == id) = some node)
    (hedit : document.splice (document.text.lineExtent node.outer) [] = .ok edited) :
    edited.Settled := by
  rcases exists_laidOut h.plain h.read with ⟨row, hrow⟩
  rcases hrow.exists_removed hfind with ⟨new, kept, hnew, hkept, _⟩
  rcases hrow.exists_nodeSplit hfind with ⟨front, segment, back, _, _, _, hsplit⟩
  have hcuts : CutAt document.text (document.text.lineExtent node.outer).start ∧
      CutAt document.text (document.text.lineExtent node.outer).stop := by
    rw [hsplit.text, hsplit.outer]
    exact cutAt_lineExtent (Segment.isMarkup_raw hsplit.isBlock)
  rw [hnew, Except.ok.injEq] at hedit
  rw [hedit] at hkept hnew
  refine ⟨hkept.read, hkept.plain, ?_⟩
  rw [text_of_parse hnew]
  exact (h.inStyle.splice hcuts.1 hcuts.2 (inStyle_nil _)).uniform

theorem Settled.removeNext
    (h : document.Settled)
    (outcome : EditOutcome) (id : Text) :
    (document.removeNext outcome id).document.Settled := by
  induction hlength : document.text.length using Nat.strongRecOn generalizing document outcome with
  | ind length ih =>
      rw [Document.removeNext]
      split
      · exact h
      · rename_i node hfind
        split
        · exact h
        · rename_i shorter hsplice
          have hshorter := h.of_lineExtent hfind hsplice
          split
          · rename_i hless
            exact ih shorter.text.length (hlength ▸ hless) hshorter .applied rfl
          · exact hshorter

/-!
# Elements written anew
-/

section Written

variable {ending : LineEnding} {element : Text}

theorem inStyle_writeComment
    (h : InStyle ending element) :
    InStyle ending (writeComment ending.text element) := by
  apply InStyle.flatMap
  intro line hline
  have htrim : OneLine (line.trim CharClass.isWhiteSpace) :=
    (h.oneLine_of_lines hline).of_subset (trim_isInfix _ _).subset
  exact ((oneLine_entryIndent.append htrim).inStyle ending).append (inStyle_ending ending)

theorem oneLine_writeElementLine
    {line : Text}
    (h : OneLine line)
    (hasItems : Bool) :
    OneLine (writeElementLine hasItems line) := by
  have htrim : OneLine (line.trim CharClass.isWhiteSpace) :=
    h.of_subset (trim_isInfix _ _).subset
  unfold writeElementLine
  simp only
  split
  · exact oneLine_itemIndent.append htrim
  · split
    · exact oneLine_entryIndent.append htrim
    · exact h

theorem inStyle_writeElement
    (h : InStyle ending element)
    (hasItems : Bool) :
    InStyle ending (writeElement hasItems ending.text element) := by
  have hlines : forall line : Text, line ∈ element.lines -> OneLine line :=
    fun _ => h.oneLine_of_lines
  unfold writeElement
  cases hcase : element.lines with
  | nil => exact inStyle_ending ending
  | cons first rest =>
      rw [hcase] at hlines
      have hfirst : OneLine (first.trimStart CharClass.isWhiteSpace) :=
        (hlines first List.mem_cons_self).of_subset (List.dropWhile_suffix _).subset
      have hrest : InStyle ending (rest.flatMap fun line =>
          ending.text ++ writeElementLine hasItems line) := by
        apply InStyle.flatMap
        intro line hline
        have hline := hlines line (List.mem_cons_of_mem first hline)
        exact (inStyle_ending ending).append
          ((oneLine_writeElementLine hline hasItems).inStyle ending)
      exact (((oneLine_entryIndent.append hfirst).inStyle ending).append hrest).append
        (inStyle_ending ending)

end Written

theorem Settled.inStyle_slice
    {place : Span}
    (h : document.Settled)
    (hplace : place ∈ document.layout.markupPlaces) :
    InStyle document.lineEnding (document.slice place) :=
  h.inStyle.of_isMarkup (slice_isInfix _ _) (h.seamed.markup place hplace)

theorem Settled.inStyle_comments
    {comments : List Span}
    (h : document.Settled)
    (hcomments : comments ⊆ document.layout.comments) :
    InStyle document.lineEnding (comments.flatMap fun comment =>
      writeComment document.lineEnding.text (document.slice comment)) := by
  apply InStyle.flatMap
  intro comment hcomment
  refine inStyle_writeComment (h.inStyle_slice ?_)
  simp only [Layout.markupPlaces, Layout.rootPlaces, List.mem_append]
  exact .inr (.inr (hcomments hcomment))

theorem mem_markupPlaces_of_mem_blocks
    {block : Block}
    (h : block ∈ document.blocks) :
    block.span ∈ document.layout.markupPlaces := by
  simp only [Layout.markupPlaces, Layout.rootPlaces, List.mem_append]
  rcases List.mem_append.mp (List.mem_mergeSort.mp h) with hnode | hother
  · rcases List.mem_map.mp hnode with ⟨node, hmem, rfl⟩
    exact .inr (.inl (.inl (List.mem_map_of_mem hmem)))
  · rcases List.mem_map.mp hother with ⟨span, hmem, rfl⟩
    exact .inr (.inl (.inr hmem))

theorem Settled.inStyle_writeBlocks
    {blocks : List Block} {previousStop : Nat}
    (h : document.Settled)
    (hblocks : blocks ⊆ document.blocks) :
    forall written, written ∈ document.writeBlocks document.lineEnding.text previousStop blocks ->
      InStyle document.lineEnding written.text := by
  induction blocks generalizing previousStop with
  | nil => simp [writeBlocks]
  | cons block blocks ih =>
      rw [writeBlocks, List.forall_mem_cons]
      constructor
      · have helement := h.inStyle_slice
          (mem_markupPlaces_of_mem_blocks (hblocks List.mem_cons_self))
        exact (h.inStyle_comments List.filter_sublist.subset).append
          (inStyle_writeElement helement _)
      · exact ih fun other hother => hblocks (List.mem_cons_of_mem block hother)

theorem Settled.inStyle_prolog
    (h : document.Settled) :
    InStyle document.lineEnding document.prolog := by
  have hstart : CutAt document.text document.prologSpan.start := by
    unfold prologSpan
    simp only
    split
    · rename_i span hspan
      exact (h.seamed.seams span (by simp [Layout.places, hspan])).2.cutAt
    · exact cutAt_zero _
  have hstop : CutAt document.text document.prologSpan.stop := by
    cases hopen : document.layout.rootOpen with
    | none =>
        have hsame : document.prologSpan.stop = document.prologSpan.start := by
          simp only [prologSpan, hopen]
        rw [hsame]
        exact hstart
    | some span =>
        have hsame : document.prologSpan.stop = span.start := by
          simp only [prologSpan, hopen]
        rw [hsame]
        exact (h.seamed.seams span (by simp [Layout.places, hopen])).1.cutAt
  exact (h.inStyle.slice hstart hstop).trim (by decide)

theorem exists_trimSelfClosing_append (tag : Text) :
    exists back : Text, tag = trimSelfClosing tag ++ back ∧ back.head? ≠ some '\n' := by
  induction tag with
  | nil => exact ⟨[], rfl, by simp⟩
  | cons c tag ih =>
      rw [trimSelfClosing]
      split
      · rename_i hslash
        exact ⟨c :: tag, rfl, by simp [hslash.1]⟩
      · rcases ih with ⟨back, heq, hback⟩
        exact ⟨back, by rw [List.cons_append, ← heq], hback⟩

theorem oneLine_defaultRootTag : OneLine defaultRootTag := by
  decide

theorem oneLine_defaultDeclaration : OneLine defaultDeclaration := by
  decide

theorem Settled.inStyle_sortedRootTag
    (h : document.Settled) :
    InStyle document.lineEnding document.sortedRootTag := by
  have htag : InStyle document.lineEnding (document.rootOpenTag?.getD defaultRootTag) := by
    unfold rootOpenTag?
    cases hopen : document.layout.rootOpen with
    | none => exact oneLine_defaultRootTag.inStyle _
    | some span => exact h.inStyle_slice (by simp [Layout.markupPlaces, hopen])
  unfold sortedRootTag
  simp only
  split
  · rcases exists_trimSelfClosing_append (document.rootOpenTag?.getD defaultRootTag) with
      ⟨back, heq, hback⟩
    rw [heq] at htag
    exact ((htag.split (.inr hback)).1.trimEnd (by decide)).append (OneLine.inStyle _ (by decide))
  · exact htag

theorem Settled.inStyle_sortedText
    (h : document.Settled)
    (order : List EntryKind.Key) :
    InStyle document.lineEnding (document.sortedText order) := by
  have hending := inStyle_ending document.lineEnding
  have hdeclaration : InStyle document.lineEnding
      (document.declaration?.getD defaultDeclaration) := by
    unfold declaration?
    cases hplace : document.layout.declaration with
    | none => exact oneLine_defaultDeclaration.inStyle _
    | some span => exact h.inStyle_slice (by simp [Layout.markupPlaces, hplace])
  have hprolog : InStyle document.lineEnding
      (if document.prolog.isEmpty then []
        else document.prolog ++ document.lineEnding.text) := by
    split
    · exact inStyle_nil _
    · exact h.inStyle_prolog.append hending
  have hwritten : InStyle document.lineEnding ((arrange WrittenBlock.key order
      (document.writeBlocks document.lineEnding.text 0 document.blocks)).flatMap
        WrittenBlock.text) := by
    apply InStyle.flatMap
    intro written hmem
    exact h.inStyle_writeBlocks (List.Subset.refl _) written
      ((arrange_perm _ _ _).mem_iff.mp hmem)
  have hbelow := h.inStyle_comments (List.filter_sublist
    (p := fun comment : Span => lastStop document.blocks ≤ comment.start)
    (l := document.layout.comments)).subset
  have hclose : InStyle document.lineEnding "</resources>".toList :=
    OneLine.inStyle _ (by decide)
  exact ((((((((hdeclaration.append hending).append hprolog).append
    h.inStyle_sortedRootTag).append hending).append hwritten).append hbelow).append
      hclose).append hending)

theorem plainStart_sortedText
    (h : document.layout.Seamed document.text)
    (order : List EntryKind.Key) :
    PlainStart (document.sortedText order) := by
  have hhead : (document.declaration?.getD defaultDeclaration).head? = some '<' := by
    unfold declaration?
    cases hplace : document.layout.declaration with
    | none => rfl
    | some span => exact (h.markup span (by simp [Layout.markupPlaces, hplace])).1
  rcases List.head?_eq_some_iff.mp hhead with ⟨rest, hrest⟩
  unfold sortedText
  rw [hrest]
  intro heq
  simp [Markup.byteOrderMark] at heq

theorem Settled.of_sort
    {order : List EntryKind.Key}
    (h : document.Settled)
    (hedit : document.sort order = .ok edited) :
    edited.Settled := by
  have hparse := parse_of_sort hedit
  refine ⟨isRead_of_parse hparse, ?_, ?_⟩
  · rw [text_of_parse hparse]
    exact plainStart_sortedText h.seamed order
  · rw [text_of_parse hparse]
    exact (h.inStyle_sortedText order).uniform

/-!
# Commands
-/

theorem oneLine_storedValue
    {target value stored : Text} {mode : EscapeMode}
    (hvalue : OneLine value)
    (h : storedValue target value mode = .ok stored) :
    OneLine stored := by
  rw [eq_of_storedValue h]
  exact oneLine_apply hvalue mode

theorem oneLine_storedForms
    {forms items : List (Quantity × Text)} {mode : EscapeMode}
    (hforms : forall form, form ∈ forms -> OneLine form.2)
    (h : storedForms id mode forms = .ok items) :
    forall item, item ∈ items -> OneLine item.2 :=
  forall_storedForms (fun form hform => oneLine_apply (hforms form hform) mode) h

end

end Document

namespace EditCommand

/-- The ids and values of a command.  Sorting writes none. -/
def texts : EditCommand -> List Text
  | set id value _ => [id, value]
  | setOrCreate id value _ => [id, value]
  | add id value _ => [id, value]
  | addPlural id forms _ => id :: forms.map Prod.snd
  | setPlurals id forms _ => id :: forms.map Prod.snd
  | remove id => [id]
  | sort _ => []

end EditCommand

namespace Document

open Text

variable {document : Document}

/-- One command, whatever comes of it. -/
theorem Settled.perform
    {command : EditCommand}
    (h : document.Settled)
    (htexts : forall t, t ∈ command.texts -> OneLine t) :
    (document.perform command).document.Settled := by
  cases command with
  | set id value mode =>
      have hvalue := htexts value (by simp [EditCommand.texts])
      refine whole_of_forall (p := Settled) h fun new hnew => ?_
      unfold set at hnew
      split at hnew
      · simp at hnew
      · rename_i stored hstored
        exact h.of_replaceString (oneLine_storedValue hvalue hstored) hnew
  | setOrCreate id value mode =>
      have hid := htexts id (by simp [EditCommand.texts])
      have hvalue := htexts value (by simp [EditCommand.texts])
      refine whole_of_forall (p := Settled) h fun new hnew => ?_
      unfold setOrCreate at hnew
      split at hnew
      · simp at hnew
      · rename_i stored hstored
        have hstored := oneLine_storedValue hvalue hstored
        split at hnew
        · exact h.of_replaceString hstored hnew
        · exact h.of_insertEntry ((oneLine_stringElement hid hstored).inStyle _) hnew
  | add id value mode =>
      have hid := htexts id (by simp [EditCommand.texts])
      have hvalue := htexts value (by simp [EditCommand.texts])
      refine wholeOrSkipped_of_forall (p := Settled) h fun new hnew => ?_
      have hstored := oneLine_apply hvalue mode
      exact h.of_insertEntry ((oneLine_stringElement hid hstored).inStyle _)
        (add?_eq_some_iff.mp hnew).2.2
  | addPlural id forms mode =>
      have hid := htexts id (by simp [EditCommand.texts])
      have hforms : forall form, form ∈ forms -> OneLine form.2 := fun form hform =>
        htexts form.2 (List.mem_cons_of_mem id (List.mem_map_of_mem hform))
      refine wholeOrSkipped_of_forall (p := Settled) h fun new hnew => ?_
      rcases addPlural?_eq_some_iff.mp hnew with ⟨items, hitems, _, hinsert⟩
      have hitems := oneLine_storedForms hforms hitems
      exact h.of_insertEntry (inStyle_pluralsElement hid hitems _) hinsert
  | setPlurals id forms mode =>
      have hid := htexts id (by simp [EditCommand.texts])
      have hforms : forall form, form ∈ forms -> OneLine form.2 := fun form hform =>
        htexts form.2 (List.mem_cons_of_mem id (List.mem_map_of_mem hform))
      show (document.setPlurals id forms mode).document.Settled
      unfold setPlurals
      split
      · exact h
      · rename_i items hitems
        have hitems := oneLine_storedForms hforms hitems
        have helement := inStyle_pluralsElement hid hitems document.lineEnding
        simp only
        split
        · exact whole_of_forall (p := Settled) h fun new hnew => h.of_insertEntry helement hnew
        · rename_i node hfind
          split
          · have hnode : node ∈ document.nodes := List.mem_of_find?_eq_some hfind
            have houter := h.seamedAt hnode node.outer_mem_places
            exact whole_of_forall (p := Settled) h fun new hnew =>
              h.of_splice houter.1.cutAt houter.2.cutAt helement
                (.inr (mayBegin_of_cons (by decide))) hnew
          · exact h.setQuantities hitems id
  | remove id => exact h.removeNext .skipped id
  | sort order => exact whole_of_forall (p := Settled) h fun new hnew => h.of_sort hnew

theorem Settled.performAll
    {commands : List EditCommand}
    (h : document.Settled)
    (htexts : forall command, command ∈ commands -> forall t, t ∈ command.texts -> OneLine t) :
    (document.performAll commands).Settled := by
  induction commands generalizing document with
  | nil => exact h
  | cons command commands ih =>
      rw [List.forall_mem_cons] at htexts
      exact ih (h.perform htexts.1) htexts.2

/-- Edits with ids and values of one line keep the line endings of a document uniform. -/
theorem uniform_performAll
    {text : Text} {commands : List EditCommand}
    (hplain : PlainStart text)
    (hparse : parse text = .ok document)
    (huniform : Uniform text)
    (htexts : forall command, command ∈ commands -> forall t, t ∈ command.texts -> OneLine t)
    (count : Nat) :
    Uniform (document.performAll (commands.take count)).text := by
  have htext := text_of_parse hparse
  rw [← htext] at hplain huniform
  have hsettled : document.Settled := ⟨isRead_of_parse hparse, hplain, huniform⟩
  exact (hsettled.performAll fun command hcommand =>
    htexts command (List.mem_of_mem_take hcommand)).uniform

/-- The only pair goes with the old value, and the new element brings in line feeds. -/
def replaceAndAdd : List EditCommand :=
  [.set "a".toList "z".toList .raw, .add "b".toList "y".toList .raw]

theorem uniform_performAll_replaceAndAdd :
    exists document : Document,
      parse ("<resources><string name=\"a\">x".toList ++ "\r\n".toList ++
          "</string></resources>".toList) = .ok document ∧
        (document.performAll replaceAndAdd).text =
          "<resources><string name=\"a\">z</string>\n".toList ++
            "    <string name=\"b\">y</string>\n</resources>".toList ∧
        forall count : Nat, Uniform (document.performAll (replaceAndAdd.take count)).text := by
  have hrun : (parse ("<resources><string name=\"a\">x".toList ++ "\r\n".toList ++
      "</string></resources>".toList)).map (fun document =>
        (document.performAll replaceAndAdd).text) =
      .ok ("<resources><string name=\"a\">z</string>\n".toList ++
        "    <string name=\"b\">y</string>\n</resources>".toList) := by
    decide +kernel
  have hfront : OneLine "<resources><string name=\"a\">x".toList := by decide
  have hback : OneLine "</string></resources>".toList := by decide
  rcases Success.map_eq_ok_iff.mp hrun with ⟨document, hparse, htext⟩
  exact ⟨document, hparse, htext, uniform_performAll (by decide) hparse
    (.inr ((hfront.paired.append paired_crlf).append hback.paired)) (by decide)⟩

end Document
end AndroidStrings
