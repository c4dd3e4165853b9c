import AndroidStrings.Proofs.Document.StringSite

/-!
# Storing a value

A value that is stored in a string goes between the tags of its element, and the whole file is
read again.  If the stored text is balanced, the reader comes out of it where it went in, so only
the value of this one string is new.  If it is not, the element ends somewhere else than where it
was written to end.

## Main statements

- `set_of_fragment` : a balanced fragment is stored, and nothing else changes.
- `entries_set_iff` : of the edits that succeed, these are all that keep to their entry.
-/

namespace AndroidStrings

open Markup

/-- The entries with another value for the first string of an id. -/
def storeString (id stored : Text) : List Entry -> List Entry
  | [] => []
  | entry :: rest =>
      if entry.kind = .string ∧ entry.id = id then
        { entry with value := .singular stored } :: rest
      else entry :: storeString id stored rest

theorem storeString_append
    {id : Text} {front : List Entry} {entry : Entry}
    (hfront : forall other, other ∈ front -> ¬ (other.kind = .string ∧ other.id = id))
    (hentry : entry.kind = .string ∧ entry.id = id)
    (stored : Text) (back : List Entry) :
    storeString id stored (front ++ entry :: back) =
      front ++ { entry with value := .singular stored } :: back := by
  induction front with
  | nil => simp [storeString, hentry]
  | cons other front ih =>
      have hother := hfront other (by simp)
      have hrest := ih (List.forall_mem_cons.mp hfront).2
      simp [storeString, hother, hrest]

namespace StringSite

namespace Locates

variable {site : StringSite} {document : Document} {id : Text}

theorem storeString_entries
    (h : site.Locates document id)
    (stored : Text) :
    storeString id stored document.entries =
      site.before.nodes.map Node.entry ++
        site.entryWith stored :: site.after.nodes.map Node.entry := by
  rcases h.entries with ⟨value, hentries⟩
  rw [hentries, storeString_append]
  · rfl
  · intro other hother
    rcases List.mem_map.mp hother with ⟨node, hnode, heq⟩
    have hnot := List.find?_eq_none.mp h.first node hnode
    rw [← heq]
    simpa [isString, Node.kind, Node.id] using hnot
  · exact ⟨rfl, h.id_eq⟩

end Locates

/-!
# A balanced text
-/

/-- The segments of the file with a forest at the place. -/
def segmentsWith (site : StringSite) (forest : Forest) : List Segment :=
  site.front ++ .element site.opening forest site.closing :: site.back

theorem raw_segmentsWith (site : StringSite) (forest : Forest) :
    Segments.raw (site.segmentsWith forest) = site.textWith forest.raw := by
  simp [segmentsWith, textWith]

theorem fit_segmentsWith
    (site : StringSite) {forest : Forest}
    (h : forest.WellFormed) :
    Segments.Fit false (site.segmentsWith forest) := by
  rw [segmentsWith, Segments.fit_append, site.inRoot]
  exact ⟨site.fit_front, ⟨rfl, ⟨site.spelled_opening, site.spelled_closing, site.closes⟩, h,
    trivial⟩, site.fit_back⟩

/-- What is read at the place, when a forest stands there. -/
def nodeWith (site : StringSite) (forest : Forest) : Node :=
  let start := (Segments.raw site.front).size
  let innerStart := start + (Event.startTag site.opening).raw.size
  let innerStop := innerStart + forest.raw.size
  { entry := site.entryWith forest.raw
    outer := ⟨start, innerStop + (Event.endTag site.closing).raw.size⟩
    inner := ⟨innerStart, innerStop⟩
    selfClosing := false
    items := [] }

theorem layoutAt_element (site : StringSite) (forest : Forest) :
    (Segment.element site.opening forest site.closing).layoutAt (Segments.raw site.front).size =
      .ok { nodes := [site.nodeWith forest] } := by
  simp only [Segment.layoutAt, site.named, EntryKind.ofTag?_tag, elementNode, site.headed,
    Except.map]
  rfl

theorem exists_parse_textWith
    {site : StringSite} {forest : Forest}
    (hplain : Document.PlainStart (site.textWith forest.raw))
    (hwell : forest.WellFormed) :
    exists after : Layout,
      after.nodes.map Node.entry = site.after.nodes.map Node.entry ∧
        Document.parse (site.textWith forest.raw) = .ok
          ⟨site.textWith forest.raw,
            site.before ++ ({ nodes := [site.nodeWith forest] } ++ after)⟩ := by
  rcases Segments.exists_layoutFrom site.reads_back ((Segments.raw site.front).size +
    (Segment.element site.opening forest site.closing).raw.size) with ⟨after, hafter, hsame⟩
  refine ⟨after, hsame, ?_⟩
  have hlayout : Segments.layoutFrom 0 (site.segmentsWith forest) = .ok
      (site.before ++ ({ nodes := [site.nodeWith forest] } ++ after)) := by
    rw [segmentsWith, Segments.layoutFrom_append, site.reads_front]
    simp only [Nat.zero_add, Segments.layoutFrom, layoutAt_element, hafter, Except.map]
  rw [← raw_segmentsWith] at hplain ⊢
  rw [Document.parse_raw hplain (site.fit_segmentsWith hwell), hlayout]
  rfl

/-- With a balanced text at the place, one value is new. -/
theorem Locates.exists_replaceString
    {site : StringSite} {document : Document} {id stored : Text}
    (h : site.Locates document id)
    (hbalanced : Balanced stored) :
    exists edited : Document,
      document.replaceString id stored = .ok edited ∧
        edited.entries = storeString id stored document.entries ∧
        edited.getRaw id = .ok stored := by
  rcases hbalanced with ⟨forest, hwell, rfl⟩
  rcases exists_parse_textWith (h.plain forest.raw) hwell with ⟨after, hafter, hparse⟩
  refine ⟨_, (h.replaceString_eq forest.raw).trans hparse, ?_, ?_⟩
  · rw [h.storeString_entries]
    simp [Document.entries, Document.nodes, hafter, nodeWith]
  · have hmatch : isString id (site.nodeWith forest) = true := by
      rw [← h.id_eq]
      simp [isString, nodeWith, Node.kind, Node.id, entryWith, Entry.kind, EntryValue.kind]
    have hfind : Document.find? ⟨site.textWith forest.raw,
        site.before ++ ({ nodes := [site.nodeWith forest] } ++ after)⟩ .string id =
          some (site.nodeWith forest) := by
      show List.find? (isString id) _ = _
      simp [Document.nodes, h.first, hmatch]
    have hslice : (site.textWith forest.raw).slice (site.nodeWith forest).inner = forest.raw := by
      have htext : site.textWith forest.raw =
          (Segments.raw site.front ++ (Event.startTag site.opening).raw) ++ forest.raw ++
            ((Event.endTag site.closing).raw ++ Segments.raw site.back) := by
        simp [textWith]
      apply slice_eq_of_append htext
      · simp
      · rfl
    rw [Document.getRaw, hfind]
    exact congrArg Except.ok hslice

/-!
# A text that is read as the value
-/

/-- The cursor behind the start tag at the place. -/
def cursorInside (site : StringSite) : Cursor :=
  let start := (Segments.raw site.front).size
  let innerStart := start + (Event.startTag site.opening).raw.size
  { position := innerStart
    opened := [tagName site.opening, Reader.rootName]
    reader := ⟨.string ⟨site.heading, start, innerStart⟩ 0, site.before⟩ }

theorem readRest_textWith (site : StringSite) (stored : Text) :
    Cursor.start.readRest (site.textWith stored) (site.textWith stored) =
      site.cursorInside.readRest (site.textWith stored)
        (stored ++ (Event.endTag site.closing).raw ++ Segments.raw site.back) := by
  have hsplit : site.textWith stored = spell (Segments.events site.front) ++
      ((Event.startTag site.opening).raw ++
        (stored ++ (Event.endTag site.closing).raw ++ Segments.raw site.back)) := by
    rw [Segments.spell_events]
    simp [textWith]
  have htext : site.textWith stored = [] ++ Segments.raw site.front ++
      ((Event.startTag site.opening).raw ++
        (stored ++ (Event.endTag site.closing).raw ++ Segments.raw site.back)) := by
    simp [textWith]
  have hfront := Cursor.foldlM_advance_segments {} site.fit_front htext
    (rfl : 0 = Text.size [])
  have hopen : (Cursor.atRoot true (0 + (Segments.raw site.front).size)
      ({} ++ site.before)).advance (site.textWith stored) (.startTag site.opening) =
        .ok site.cursorInside := by
    simp only [Cursor.atRoot, if_true, Cursor.advance_of_openNames (site.textWith stored) _ _
      (rfl : openNames [Reader.rootName] (.startTag site.opening) = _), Reader.step,
      Reader.stepRoot, site.named, EntryKind.ofTag?_tag, site.headed, Except.map]
    simp [cursorInside, site.named, Reader.moveTo]
  rw [site.reads_front, site.inRoot] at hfront
  generalize site.textWith stored = text at hsplit hfront hopen ⊢
  calc Cursor.start.readRest text text
    _ = Cursor.start.readRest text (spell (Segments.events site.front) ++
          ((Event.startTag site.opening).raw ++
            (stored ++ (Event.endTag site.closing).raw ++ Segments.raw site.back))) :=
        congrArg _ hsplit
    _ = (Cursor.atRoot true (0 + (Segments.raw site.front).size) ({} ++ site.before)).readRest
          text ((Event.startTag site.opening).raw ++
            (stored ++ (Event.endTag site.closing).raw ++ Segments.raw site.back)) := by
        rw [Cursor.readRest_spell text Cursor.start site.fit_front.spelled,
          show Cursor.start = Cursor.atRoot false 0 {} from rfl, hfront]
        rfl
    _ = _ := by
        rw [Cursor.readRest_raw text _ site.spelled_opening, hopen]
        rfl

/-- What a document has at the place: a string whose value is a forest, up to an end tag that is
not always the one that stood there. -/
structure Reread (site : StringSite) (edited : Document) where
  inside : Forest
  closing : Text
  back : Text
  outer : Span
  more : List Node
  wellFormed : inside.WellFormed
  text_eq : edited.text = Segments.raw site.front ++ (Event.startTag site.opening).raw ++
    inside.raw ++ (Event.endTag closing).raw ++ back
  nodes_eq : edited.nodes = site.before.nodes ++ { site.nodeWith inside with outer } :: more

/-- Whatever follows the start tag, a file that can be read has a string at the place. -/
theorem nonempty_reread
    {site : StringSite} {stored : Text} {edited : Document}
    (hplain : Document.PlainStart (site.textWith stored))
    (h : Document.parse (site.textWith stored) = .ok edited) :
    Nonempty (site.Reread edited) := by
  rw [Document.parse_eq_readRest hplain] at h
  rcases Success.map_eq_ok_iff.mp h with ⟨layout, hread, hedited⟩
  rcases Success.bind_eq_ok_iff.mp hread with ⟨reader, hreader, hfinish⟩
  rw [readRest_textWith] at hreader
  rcases Cursor.exists_spelled_of_readRest hreader with
    ⟨events, moved, hspelled, hspell, hfold, hmoved⟩
  have hlevel := Cursor.level_of_foldlM_advance (show site.cursorInside.Level from rfl) hfold
  have hopens := Cursor.openNames_of_foldlM_advance hfold
  have hshort : moved.opened.length ≤ [Reader.rootName].length := by
    rw [← hlevel, hmoved]
    exact Cursor.depthOf_of_finish hfinish
  rcases exists_closing_of_openNames hspelled hopens hshort with
    ⟨inside, closing, rest, hevents, hwell, hname, _⟩
  have htext : site.textWith stored =
      Segments.raw site.front ++ (Event.startTag site.opening).raw ++ inside.raw ++
        (Event.endTag closing).raw ++ spell rest := by
    have hinside : spell events = inside.raw ++ ((Event.endTag closing).raw ++ spell rest) := by
      rw [hevents]
      simp [Forest.raw]
    rw [List.append_assoc _ _ (spell rest), List.append_assoc _ inside.raw, ← hinside, hspell]
    simp [textWith]
  have hslice : (site.textWith stored).slice ⟨site.cursorInside.position,
      site.cursorInside.position + inside.raw.size⟩ = inside.raw := by
    rw [List.append_assoc _ _ (spell rest)] at htext
    apply slice_eq_of_append htext
    · simp [cursorInside]
    · rfl
  rw [hevents, List.foldlM_append] at hfold
  simp only [cursorInside] at hfold hslice
  rw [Cursor.foldlM_advance_body (Cursor.isBody_string _ _ _) hwell] at hfold
  simp only [bind, Except.bind, List.foldlM_cons, Cursor.advance_of_openNames _ _ _
    (Cursor.openNames_endTag [Reader.rootName] hname), Reader.step, Reader.bodyDepth?, Except.map,
    Reader.addNode, Reader.Node.ofString, hslice] at hfold
  rcases Cursor.nodes_prefix_of_foldlM hfold with ⟨more, hmore⟩
  have hlayout : layout = reader.layout := by
    unfold Reader.finish at hfinish
    split at hfinish
    all_goals simp only [Except.ok.injEq, reduceCtorEq] at hfinish
    all_goals exact hfinish.symm
  rw [← hedited]
  refine ⟨inside, closing, spell rest, ⟨(Segments.raw site.front).size,
    (site.nodeWith inside).inner.stop + (Event.endTag closing).raw.size⟩, more, hwell, htext, ?_⟩
  show layout.nodes = _
  rw [hlayout, ← hmoved, ← hmore, List.append_assoc, List.singleton_append]
  rfl

theorem Reread.entries_eq
    {site : StringSite} {edited : Document}
    (found : site.Reread edited) :
    edited.entries = site.before.nodes.map Node.entry ++
      site.entryWith found.inside.raw :: found.more.map Node.entry := by
  rw [Document.entries, found.nodes_eq, List.map_append, List.map_cons]
  rfl

theorem Locates.balanced_of_entries
    {site : StringSite} {document edited : Document} {id stored : Text}
    (h : site.Locates document id)
    (hreplace : document.replaceString id stored = .ok edited)
    (hentries : edited.entries = storeString id stored document.entries) :
    Balanced stored := by
  rw [h.replaceString_eq] at hreplace
  rcases nonempty_reread (h.plain stored) hreplace with ⟨found⟩
  rw [found.entries_eq, h.storeString_entries] at hentries
  have hentry := (List.cons.inj (List.append_cancel_left hentries)).1
  simp only [entryWith, Entry.mk.injEq, EntryValue.singular.injEq, true_and, and_true] at hentry
  exact ⟨found.inside, found.wellFormed, hentry⟩

end StringSite

namespace Document

theorem set_eq_ok_iff {document edited : Document} {id value : Text} {mode : EscapeMode} :
    document.set id value mode = .ok edited ↔
      Value.validate value = .ok () ∧
        document.replaceString id (mode.apply value) = .ok edited := by
  unfold set storedValue
  cases Value.validate value with
  | ok done => simp
  | error issue => simp

theorem add?_eq_some_iff {document edited : Document} {id value : Text} {mode : EscapeMode} :
    document.add? id value mode = .ok (some edited) ↔
      Value.validate value = .ok () ∧ document.contains .string id = false ∧
        document.insertEntry (stringElement id (mode.apply value)) = .ok edited := by
  unfold add? storedValue
  cases Value.validate value with
  | error issue => simp
  | ok done =>
      cases hnew : document.contains .string id with
      | true => simp
      | false => simp [Success.map_eq_ok_iff]

theorem addPlural?_eq_some_iff
    {document edited : Document} {id : Text} {forms : List (Quantity × Text)} {mode : EscapeMode} :
    document.addPlural? id forms mode = .ok (some edited) ↔
      exists items : List (Quantity × Text),
        storedForms id mode forms = .ok items ∧ document.contains .plurals id = false ∧
          document.insertEntry (pluralsElement id items document.lineEnding) = .ok edited := by
  unfold addPlural?
  cases storedForms id mode forms with
  | error fault => simp
  | ok items =>
      cases hnew : document.contains .plurals id with
      | true => simp
      | false => simp [Success.map_eq_ok_iff]

theorem contains_of_replaceString
    {document edited : Document} {id stored : Text}
    (h : document.replaceString id stored = .ok edited) :
    document.contains .string id = true := by
  unfold replaceString at h
  split at h
  · simp at h
  · rename_i node hfind
    rw [contains, hfind]
    rfl

/-- A value whose stored form is a balanced fragment is stored, its string has that value, and no
other entry is new. -/
theorem set_of_fragment
    {text id value : Text} {mode : EscapeMode} {document : Document}
    (hplain : PlainStart text)
    (hparse : parse text = .ok document)
    (hcontains : document.contains .string id = true)
    (hvalid : Value.validate value = .ok ())
    (hfragment : Fragment (mode.apply value)) :
    exists edited : Document,
      document.set id value mode = .ok edited ∧
        edited.entries = storeString id (mode.apply value) document.entries ∧
        edited.getRaw id = .ok (mode.apply value) ∧
        edited.get id = .ok (unescapeValue (mode.apply value)) := by
  rcases StringSite.exists_of_contains hplain hparse hcontains with ⟨site, hsite⟩
  rcases hsite.exists_replaceString (balanced_of_fragment hfragment) with
    ⟨edited, hreplace, hentries, hraw⟩
  refine ⟨edited, set_eq_ok_iff.mpr ⟨hvalid, hreplace⟩, hentries, hraw, ?_⟩
  rw [get, hraw]
  rfl

theorem set_of_fragment_bold :
    exists document edited : Document,
      parse "<resources><string name=\"a\" /><string name=\"b\">y</string></resources>".toList =
          .ok document ∧
        document.set "a".toList "<b>x</b>".toList .escaped = .ok edited ∧
        edited.entries = storeString "a".toList "<b>x</b>".toList document.entries ∧
        edited.getRaw "a".toList = .ok "<b>x</b>".toList := by
  have hread : (parse
      "<resources><string name=\"a\" /><string name=\"b\">y</string></resources>".toList).map
        (contains · .string "a".toList) = .ok true := by
    decide +kernel
  rcases Success.map_eq_ok_iff.mp hread with ⟨document, hparse, hcontains⟩
  have happly : EscapeMode.escaped.apply "<b>x</b>".toList = "<b>x</b>".toList := by
    decide +kernel
  have hinside : Fragment "x".toList :=
    @Fragment.text "x".toList [] (by decide) .empty
  have hfragment : Fragment (EscapeMode.escaped.apply "<b>x</b>".toList) := by
    rw [happly]
    exact @Fragment.element "b".toList [] "x".toList [] [] ⟨by decide, by decide⟩
      ⟨by simp, rfl⟩ (by simp) hinside rfl .empty
  rcases set_of_fragment (by decide) hparse hcontains (by decide +kernel) hfragment with
    ⟨edited, hset, hentries, hraw, _⟩
  rw [happly] at hentries hraw
  exact ⟨document, edited, hparse, hset, hentries, hraw⟩

/-- An edit that succeeds keeps to its entry exactly when the stored text is balanced. -/
theorem entries_set_iff
    {text id value : Text} {mode : EscapeMode} {document edited : Document}
    (hplain : PlainStart text)
    (hparse : parse text = .ok document)
    (hset : document.set id value mode = .ok edited) :
    edited.entries = storeString id (mode.apply value) document.entries ↔
      Balanced (mode.apply value) := by
  have hreplace := (set_eq_ok_iff.mp hset).2
  rcases StringSite.exists_of_contains hplain hparse (contains_of_replaceString hreplace) with
    ⟨site, hsite⟩
  constructor
  · intro hentries
    exact hsite.balanced_of_entries hreplace hentries
  · intro hbalanced
    rcases hsite.exists_replaceString hbalanced with ⟨new, hnew, hentries, _⟩
    rw [hreplace, Except.ok.injEq] at hnew
    rw [hnew]
    exact hentries

theorem entries_set_iff_comment :
    exists document edited : Document,
      parse "<resources><string name=\"a\">x</string></resources>".toList = .ok document ∧
        document.set "a".toList "<!-- c -->".toList .raw = .ok edited ∧
        (edited.entries = storeString "a".toList "<!-- c -->".toList document.entries ↔
          Balanced "<!-- c -->".toList) := by
  have hrun : (parse "<resources><string name=\"a\">x</string></resources>".toList >>=
      fun document => (document.set "a".toList "<!-- c -->".toList .raw).map order) =
        .ok [(.string, "a".toList)] := by
    decide +kernel
  rcases Success.bind_eq_ok_iff.mp hrun with ⟨document, hparse, hread⟩
  rcases Success.map_eq_ok_iff.mp hread with ⟨edited, hset, _⟩
  exact ⟨document, edited, hparse, hset, entries_set_iff (by decide) hparse hset⟩

/-- A comment that is opened in one string and closed by a comment in the next one swallows the
next one. -/
theorem set_unclosed_comment :
    exists document edited : Document,
      parse ("<resources><string name=\"a\">x</string>".toList ++
          "<string name=\"b\">y<!-- c -->z</string></resources>".toList) = .ok document ∧
        document.set "a".toList "<!--".toList .raw = .ok edited ∧
        document.order = [(.string, "a".toList), (.string, "b".toList)] ∧
        edited.order = [(.string, "a".toList)] := by
  have hrun : (parse ("<resources><string name=\"a\">x</string>".toList ++
      "<string name=\"b\">y<!-- c -->z</string></resources>".toList) >>= fun document =>
        (document.set "a".toList "<!--".toList .raw).map fun edited =>
          (document.order, edited.order)) =
        .ok ([(.string, "a".toList), (.string, "b".toList)], [(.string, "a".toList)]) := by
    decide +kernel
  rcases Success.bind_eq_ok_iff.mp hrun with ⟨document, hparse, hread⟩
  rcases Success.map_eq_ok_iff.mp hread with ⟨edited, hset, horders⟩
  rw [Prod.mk.injEq] at horders
  exact ⟨document, edited, hparse, hset, horders⟩

end Document
end AndroidStrings
