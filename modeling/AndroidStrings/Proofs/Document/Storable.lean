import AndroidStrings.Proofs.Document.AlikePlace
import AndroidStrings.Proofs.Document.Store
import AndroidStrings.Proofs.Markup.Crossing

/-!
# Values that can be stored

A value is stored between the tags of an element, and the file is read again.  Whether this
succeeds is known from one file: there the element is the only one of the root element, and what
follows the root element could not stand in it.  A value that can be stored there takes its
readers to no other place than its own end tag, or to one directly inside a root element, and from
there every other file can be read too.

## Main statement

`Document.set_succeeds_iff` : a value can be stored in every file if it can be stored in that one.
-/

namespace AndroidStrings

open Markup

/-!
# Reading to the end
-/

theorem Reader.step_sameTag
    {reader : Reader} {event event' : Event}
    (h : SameTag event event')
    (hplace : (exists content : Text, event = .startTag content) -> reader.place = .outside)
    (text : Text) (span : Span) :
    reader.step text ⟨event, span⟩ = reader.step text ⟨event', span⟩ := by
  rcases reader with ⟨place, layout⟩
  cases h with
  | endTag hname => cases place <;> rfl
  | startTag hname =>
      have houtside : place = .outside := hplace ⟨_, rfl⟩
      subst houtside
      simp only [Reader.step, Reader.stepOutside, hname]

namespace Cursor

variable {cursor cursor' moved : Cursor} {text text' rest : Text} {event event' : Event}

/-- The rest of a file can be read. -/
def Reads (cursor : Cursor) (text rest : Text) : Prop :=
  exists (reader : Reader) (layout : Layout),
    cursor.readRest text rest = .ok reader ∧ reader.finish = .ok layout

theorem reads_raw_iff (h : event.Spelled) :
    cursor.Reads text (event.raw ++ rest) ↔
      exists moved : Cursor, cursor.advance text event = .ok moved ∧ moved.Reads text rest := by
  unfold Reads
  rw [readRest_raw text cursor h]
  constructor
  · rintro ⟨reader, layout, hread, hfinish⟩
    rcases Success.bind_eq_ok_iff.mp hread with ⟨moved, hadvance, hrest⟩
    exact ⟨moved, hadvance, reader, layout, hrest, hfinish⟩
  · rintro ⟨moved, hadvance, reader, layout, hrest, hfinish⟩
    exact ⟨reader, layout, Success.bind_eq_ok_iff.mpr ⟨moved, hadvance, hrest⟩, hfinish⟩

theorem exists_next_of_reads (h : cursor.Reads text rest) :
    exists (event : Event) (after : Text), next rest = .ok (event, after) := by
  rcases h with ⟨reader, layout, hread, _⟩
  cases hnext : next rest with
  | error fault =>
      rw [readRest_of_next_error text cursor hnext] at hread
      cases hread
  | ok found => exact ⟨found.1, found.2, rfl⟩

/-- From alike places, a row of segments can be read or not. -/
theorem Alike.reads_segments
    {segments : List Segment} {inRoot : Bool} {found : Layout} {position : Nat} {layout : Layout}
    (h : (atRoot inRoot position layout).Alike cursor)
    (hfit : Segments.Fit inRoot segments)
    (hfound : Segments.layoutFrom 0 segments = .ok found)
    (text : Text) :
    cursor.Reads text (Segments.raw segments) := by
  have hfold := foldlM_advance_segments {} hfit
    (show Segments.raw segments = [] ++ Segments.raw segments ++ [] by simp) rfl
  have hstart : (atRoot inRoot 0 {}).Alike cursor := by
    cases inRoot <;> exact ⟨h.opened, h.place⟩
  rw [Text.size_nil, hfound] at hfold
  rcases hstart.exists_foldlM hfold text with ⟨moved, hmoved, halike⟩
  have hread := readRest_spell text cursor hfit.spelled []
  rw [List.append_nil, Segments.spell_events, hmoved] at hread
  have hfinish : moved.reader.finish = .ok moved.reader.layout := by
    cases hleads : Segments.leads inRoot segments with
    | true =>
        rw [hleads] at halike
        exact Reader.exists_finish halike.place rfl
    | false =>
        rw [hleads] at halike
        exact Reader.exists_finish halike.place rfl
  exact ⟨moved.reader, _, hread.trans (readRest_nil text moved), hfinish⟩

theorem place_of_level_one
    (h : cursor.Level)
    (hopened : cursor.opened.length = 1) :
    cursor.reader.place = .root := by
  unfold Level at h
  rw [hopened] at h
  cases hplace : cursor.reader.place <;> simp [hplace, depthOf] at h
  rfl

/-!
# The end of the file
-/

/-- Directly inside a root element, a string without a name is not read. -/
theorem not_root_of_advance
    (h : cursor.advance text (.emptyTag EntryKind.string.tag) = .ok moved) :
    cursor.reader.place ≠ .root := by
  intro hplace
  have hkind : EntryKind.ofTag? (tagName EntryKind.string.tag) = some .string := by
    decide
  have hheading : Heading.ofTag .string EntryKind.string.tag =
      .error (.invalidEntry (.missingName .string)) := by
    decide +kernel
  have hstep := step_of_advance h
  simp only [Reader.step, hplace, Reader.stepRoot, hkind, hheading] at hstep
  cases hstep

/-- What follows the string can be read only from inside of a root element. -/
theorem opened_of_reads_frameBack
    (hlevel : cursor.Level)
    (h : cursor.Reads text frameBack) :
    cursor.opened = [Reader.rootName] ∧ cursor.reader.place = .root := by
  have hend : (Event.endTag Reader.rootName).Spelled :=
    spelled_endTag_of_isName ⟨by decide, by decide⟩
  have hempty : (Event.emptyTag EntryKind.string.tag).Spelled := by
    have hspelled := @spelled_emptyTag EntryKind.string.tag []
      ⟨by decide, by decide⟩ ⟨by simp, rfl⟩
    rwa [List.append_nil] at hspelled
  have hback : frameBack = (Event.endTag Reader.rootName).raw ++
      ((Event.emptyTag EntryKind.string.tag).raw ++ []) := by
    decide
  rw [hback, reads_raw_iff hend] at h
  rcases h with ⟨outer, houter, hrest⟩
  rcases (reads_raw_iff hempty).mp hrest with ⟨last, hlast, reader, layout, hread, hfinish⟩
  have houterLevel := level_of_advance hlevel houter
  have hlastLevel := level_of_advance houterLevel hlast
  have hshort : last.opened.length ≤ 1 := by
    rw [readRest_nil, Except.ok.injEq] at hread
    rw [← hlastLevel, hread]
    exact depthOf_of_finish hfinish
  have hlength : last.opened.length = outer.opened.length :=
    length_of_openNames (openNames_of_advance hlast)
  have hnone : outer.opened = [] := by
    by_contra hne
    have hpositive := List.length_pos_iff.mpr hne
    exact not_root_of_advance hlast (place_of_level_one houterLevel (by omega))
  have hopened : cursor.opened = [Reader.rootName] := by
    rw [eq_cons_of_openNames_endTag (openNames_of_advance houter), hnone]
    rfl
  exact ⟨hopened, place_of_level_one hlevel (by rw [hopened]; rfl)⟩

/-- The tag that closes the string leads to alike places, whatever stands behind its name. -/
theorem Alike.exists_sameTag
    (h : cursor.Alike cursor')
    (hlevel : cursor.Level)
    (hsame : SameTag event event')
    (hadvance : cursor.advance text event = .ok moved)
    (hopened : moved.opened = [Reader.rootName])
    (text' : Text) :
    exists moved' : Cursor, cursor'.advance text' event' = .ok moved' ∧ moved.Alike moved' := by
  have hnames := openNames_of_advance hadvance
  have hplace : (exists content : Text, event = .startTag content) ->
      cursor'.reader.place = .outside := by
    rintro ⟨content, rfl⟩
    have hnil : cursor.opened = [] := by
      rw [hopened] at hnames
      exact (List.cons.inj (Except.ok.inj hnames)).2
    have halike := h.place
    rw [place_of_level_nil hlevel hnil] at halike
    exact halike.eq_outside
  let span : Span := ⟨cursor'.position, cursor'.position + event'.raw.size⟩
  rcases Reader.exists_step h.place (step_of_advance hadvance) text' span with
    ⟨reader', hstep', hmoved⟩
  rw [Reader.step_sameTag hsame hplace] at hstep'
  rw [h.opened, openNames_sameTag hsame] at hnames
  have hadvance' := advance_of_openNames text' cursor'.position cursor'.reader hnames
  rw [hstep'] at hadvance'
  exact ⟨_, hadvance', rfl, hmoved⟩

/-- An event that is read from the stored text on is one of the stored text, or reaches into what
follows it. -/
theorem inside_or_crossing
    {stored after : Text}
    (h : stored ++ frameEnd = event.raw ++ after) :
    (exists inside : Text, stored = event.raw ++ inside ∧ after = inside ++ frameEnd) ∨
      exists ending : Text,
        ending ≠ [] ∧ event.raw = stored ++ ending ∧ frameEnd = ending ++ after := by
  rcases List.append_eq_append_iff.mp h with ⟨ending, hevent, hend⟩ | ⟨inside, hstored, hafter⟩
  · by_cases hne : ending = []
    · subst hne
      rw [List.append_nil] at hevent
      exact .inl ⟨[], by rw [hevent, List.append_nil], hend.symm⟩
    · exact .inr ⟨ending, hne, hevent, hend⟩
  · exact .inl ⟨inside, hstored, hafter⟩

theorem Alike.reads_of_crossing
    {stored ending blank back : Text}
    (h : cursor.Alike cursor')
    (hlevel : cursor.Level)
    (hblank : blank.all isSpace = true)
    (hback : forall moved : Cursor, moved.opened = [Reader.rootName] ->
      moved.reader.place = .root -> moved.Reads text' back)
    (hspelled : event.Spelled)
    (hne : ending ≠ [])
    (hevent : event.raw = stored ++ ending)
    (hend : frameEnd = ending ++ rest)
    (hadvance : cursor.advance text event = .ok moved)
    (hrest : moved.Reads text rest) :
    cursor'.Reads text'
      (stored ++ (Event.endTag ("string".toList ++ blank)).raw ++ back) := by
  have hmarkup : forall content : Text, event ≠ .text content := by
    rintro content rfl
    have hopen : '<' ∈ ending := by
      cases ending with
      | nil => exact absurd rfl hne
      | cons c ending =>
          rw [← (List.cons.inj hend).1]
          exact List.mem_cons_self
    apply hspelled
    rw [show content = stored ++ ending from hevent]
    exact List.mem_append_right stored hopen
  rcases (construct_of_spelled hspelled hmarkup).exists_content_of_crossing hevent hend hne with
    ⟨content, rfl, hbang, hmark, hcontent, hraw, rfl⟩
  rcases Markup.exists_sameTag hbang hmark hcontent hraw hblank with
    ⟨event', hspelled', hraw', hsame⟩
  have hroot := opened_of_reads_frameBack (level_of_advance hlevel hadvance) hrest
  rcases h.exists_sameTag hlevel hsame hadvance hroot.1 text' with ⟨moved', hadvance', hmoved⟩
  have hplace' : moved'.reader.place = .root := by
    have halike := hmoved.place
    rw [hroot.2] at halike
    exact halike.eq_root
  rw [← hraw']
  exact (reads_raw_iff hspelled').mpr
    ⟨moved', hadvance', hback moved' (by rw [← hmoved.opened, hroot.1]) hplace'⟩

/-- What can be read before the one end can be read before any other one. -/
theorem Alike.reads_of_frame
    {stored blank back : Text}
    (h : cursor.Alike cursor')
    (hlevel : cursor.Level)
    (hblank : blank.all isSpace = true)
    (hback : forall moved : Cursor, moved.opened = [Reader.rootName] ->
      moved.reader.place = .root -> moved.Reads text' back)
    (hreads : cursor.Reads text (stored ++ frameEnd)) :
    cursor'.Reads text'
      (stored ++ (Event.endTag ("string".toList ++ blank)).raw ++ back) := by
  -- By induction on the length of what is still to be read of the stored text.
  induction hlength : stored.length using Nat.strong_induction_on
    generalizing stored cursor cursor' with
  | _ length ih =>
      rcases exists_next_of_reads hreads with ⟨event, after, hnext⟩
      have hspelled := spelled_of_next hnext
      have hsplit := eq_raw_append_of_next hnext
      have hraw : 0 < event.raw.length := List.length_pos_iff.mpr
        (raw_ne_nil_of_next (List.append_ne_nil_of_right_ne_nil stored (by decide)) hnext)
      rw [hsplit, reads_raw_iff hspelled] at hreads
      rcases hreads with ⟨moved, hadvance, hrest⟩
      rcases inside_or_crossing hsplit with ⟨inside, rfl, rfl⟩ | ⟨ending, hne, hevent, hend⟩
      · have hshorter : inside.length < length := by
          rw [← hlength, List.length_append]
          omega
        rcases h.exists_advance hadvance text' with ⟨moved', hadvance', hmoved⟩
        have hlevel' := level_of_advance hlevel hadvance
        have hinside := ih inside.length hshorter hmoved hlevel' hrest rfl
        rw [List.append_assoc, List.append_assoc, reads_raw_iff hspelled, ← List.append_assoc]
        exact ⟨moved', hadvance', hinside⟩
      · exact h.reads_of_crossing hlevel hblank hback hspelled hne hevent hend hadvance hrest

end Cursor

/-!
# One file for all
-/

namespace Document

/-- The stored text in the file that is enough to look at. -/
def framed (stored : Text) : Text :=
  "<resources><string name=\"a\">".toList ++ stored ++ "</string></resources><string/>".toList

theorem plainStart_framed (stored : Text) : PlainStart (framed stored) := by
  have hfront : "<resources><string name=\"a\">".toList.head? = some '<' := by
    decide
  have hhead : (framed stored).head? = some '<' := by
    unfold framed
    rw [List.append_assoc, List.head?_append, hfront]
    rfl
  unfold PlainStart
  rw [hhead]
  decide

end Document

namespace StringSite

theorem exists_parse_iff
    {site : StringSite} {stored : Text}
    (hplain : Document.PlainStart (site.textWith stored)) :
    (exists edited : Document, Document.parse (site.textWith stored) = .ok edited) ↔
      site.cursorInside.Reads (site.textWith stored)
        (stored ++ (Event.endTag site.closing).raw ++ Segments.raw site.back) := by
  unfold Cursor.Reads
  rw [Document.parse_eq_readRest hplain, readRest_textWith]
  constructor
  · rintro ⟨edited, h⟩
    rcases Success.map_eq_ok_iff.mp h with ⟨layout, hread, _⟩
    rcases Success.bind_eq_ok_iff.mp hread with ⟨reader, hreader, hfinish⟩
    exact ⟨reader, layout, hreader, hfinish⟩
  · rintro ⟨reader, layout, hreader, hfinish⟩
    exact ⟨_, Success.map_eq_ok_iff.mpr
      ⟨layout, Success.bind_eq_ok_iff.mpr ⟨reader, hreader, hfinish⟩, rfl⟩⟩

/-- A string that is read where it stands. -/
theorem exists_locates
    {site : StringSite} {forest : Forest}
    (hplain : Document.PlainStart (site.textWith forest.raw))
    (hwell : forest.WellFormed)
    (hfirst : site.before.nodes.find? (isString site.heading.id) = none) :
    exists document : Document,
      Document.parse (site.textWith forest.raw) = .ok document ∧
        document.contains .string site.heading.id = true ∧
        site.Locates document site.heading.id := by
  rcases exists_parse_textWith hplain hwell with ⟨after, hafter, hparse⟩
  have hfind : Document.find? ⟨site.textWith forest.raw,
      site.before ++ ({ nodes := [site.nodeWith forest] } ++ after)⟩ .string site.heading.id =
        some (site.nodeWith forest) := by
    show List.find? (isString site.heading.id) _ = _
    simp [Document.nodes, hfirst, isString, nodeWith, Node.kind, Node.id, entryWith, Entry.kind,
      EntryValue.kind]
  refine ⟨_, hparse, ?_, rfl, hfirst, ⟨forest.raw, ?_⟩, ?_, ?_⟩
  · rw [Document.contains, hfind]
    rfl
  · simp [Document.entries, Document.nodes, hafter, nodeWith]
  · intro stored
    simp only [textWith, Event.raw, List.cons_append, List.append_assoc] at hplain ⊢
    exact plainStart_exchange hplain
  · intro stored
    exact replaceString_of_element hfind rfl rfl rfl stored

/-- The only string of a root element, before an element that could not stand in it. -/
def frame : StringSite where
  front := [.rootOpen Reader.rootName]
  opening := "string name=\"a\"".toList
  closing := "string".toList
  back := [.rootClose Reader.rootName, .outer (.emptyTag "string".toList)]
  heading := ⟨.string, "a".toList, true⟩
  before := { rootOpen := some ⟨0, 11⟩ }
  after := { rootClose := some ⟨0, 12⟩ }
  fit_front := ⟨⟨rfl, @spelled_of_next "<resources>".toList [] _ (by decide +kernel), rfl⟩, trivial⟩
  inRoot := rfl
  fit_back := ⟨⟨rfl, @spelled_of_next "</resources>".toList [] _ (by decide +kernel), rfl⟩,
    ⟨rfl, rfl, @spelled_of_next "<string/>".toList [] _ (by decide +kernel)⟩, trivial⟩
  spelled_opening := @spelled_of_next "<string name=\"a\">".toList [] _ (by decide +kernel)
  spelled_closing := @spelled_of_next "</string>".toList [] _ (by decide +kernel)
  closes := by decide
  named := by decide
  headed := by decide +kernel
  reads_front := by decide +kernel
  reads_back := by decide +kernel

theorem closing_append_back_frame :
    (Event.endTag frame.closing).raw ++ Segments.raw frame.back = frameEnd := by
  decide

theorem textWith_frame (stored : Text) : frame.textWith stored = Document.framed stored := by
  have hfront : Segments.raw frame.front ++ (Event.startTag frame.opening).raw =
      "<resources><string name=\"a\">".toList := by
    decide
  rw [textWith, hfront, List.append_assoc, closing_append_back_frame]
  rfl

/-- What can be read in the one file can be read in all. -/
theorem exists_parse_of_frame
    {site : StringSite} {stored : Text}
    (hplain : Document.PlainStart (site.textWith stored))
    (h : exists framed : Document, Document.parse (Document.framed stored) = .ok framed) :
    exists edited : Document, Document.parse (site.textWith stored) = .ok edited := by
  rw [← textWith_frame] at h
  rw [exists_parse_iff (textWith_frame stored ▸ Document.plainStart_framed stored),
    List.append_assoc, closing_append_back_frame] at h
  rcases exists_blank_of_endTagName (site.closes.trans site.named) with ⟨blank, hclosing, hblank⟩
  have halike : frame.cursorInside.Alike site.cursorInside := by
    refine ⟨?_, .string⟩
    show [tagName frame.opening, Reader.rootName] = [tagName site.opening, Reader.rootName]
    rw [frame.named, site.named]
  rw [exists_parse_iff hplain, hclosing]
  refine halike.reads_of_frame rfl hblank ?_ h
  intro moved hopened hplace
  have hroot : (Cursor.atRoot true 0 {}).Alike moved := by
    refine ⟨hopened.symm, ?_⟩
    rw [hplace]
    exact .root
  exact hroot.reads_segments site.fit_back site.reads_back _

end StringSite

namespace Document

/-- The file with an empty value, and where its string stands. -/
theorem exists_locates_framed :
    exists document : Document,
      parse (framed []) = .ok document ∧ document.contains .string "a".toList = true ∧
        StringSite.frame.Locates document "a".toList := by
  have hplain : PlainStart (framed []) := plainStart_framed []
  rw [← StringSite.textWith_frame] at hplain ⊢
  exact @StringSite.exists_locates StringSite.frame .nil hplain trivial (by decide)

theorem exists_set_of_framed
    {text id value : Text} {document : Document}
    (hvalid : Value.validate value = .ok ())
    (hplain : PlainStart text)
    (hparse : parse text = .ok document)
    (hcontains : document.contains .string id = true)
    (h : exists edited : Document, parse (framed (escapeValue value)) = .ok edited) :
    exists edited : Document, document.set id value .escaped = .ok edited := by
  rcases StringSite.exists_of_contains hplain hparse hcontains with ⟨site, hsite⟩
  rcases StringSite.exists_parse_of_frame (hsite.plain (escapeValue value)) h with ⟨edited, hedited⟩
  exact ⟨edited, set_eq_ok_iff.mpr ⟨hvalid, (hsite.replaceString_eq _).trans hedited⟩⟩

/-- A value that passes its check can be stored in every file exactly when its stored form can be
read in one. -/
theorem set_succeeds_iff
    {value : Text}
    (hvalid : Value.validate value = .ok ()) :
    ((forall (text id : Text) (document : Document),
        PlainStart text -> parse text = .ok document -> document.contains .string id = true ->
          exists edited : Document, document.set id value .escaped = .ok edited) ↔
      exists edited : Document, parse (framed (escapeValue value)) = .ok edited) ∧
    ('<' ∉ escapeValue value ∨ Balanced (escapeValue value) ->
      exists edited : Document, parse (framed (escapeValue value)) = .ok edited) := by
  rcases exists_locates_framed with ⟨document, hparse, hcontains, hsite⟩
  have hreplace := hsite.replaceString_eq (escapeValue value)
  rw [StringSite.textWith_frame] at hreplace
  refine ⟨⟨?_, ?_⟩, ?_⟩
  · intro h
    rcases h _ _ document (by decide) hparse hcontains with ⟨edited, hset⟩
    exact ⟨edited, hreplace.symm.trans (set_eq_ok_iff.mp hset).2⟩
  · intro h text id other hplain hother hid
    exact exists_set_of_framed hvalid hplain hother hid h
  · intro h
    have hbalanced : Balanced (escapeValue value) := by
      rcases h with hplain | hbalanced
      · have hfragment := Fragment.text hplain .empty
        rw [List.append_nil] at hfragment
        exact balanced_of_fragment hfragment
      · exact hbalanced
    rcases hsite.exists_replaceString hbalanced with ⟨edited, hedited, _⟩
    exact ⟨edited, hreplace.symm.trans hedited⟩

theorem set_succeeds_iff_bold :
    Value.validate "Tom <b>Jerry</b>".toList = .ok () ∧
      forall (text id : Text) (document : Document),
        PlainStart text -> parse text = .ok document -> document.contains .string id = true ->
          exists edited : Document,
            document.set id "Tom <b>Jerry</b>".toList .escaped = .ok edited := by
  have hvalid : Value.validate "Tom <b>Jerry</b>".toList = .ok () := by
    decide +kernel
  have hread : (parse (framed (escapeValue "Tom <b>Jerry</b>".toList))).map order =
      .ok [(.string, "a".toList)] := by
    decide +kernel
  rcases Success.map_eq_ok_iff.mp hread with ⟨edited, hedited, _⟩
  exact ⟨hvalid, (set_succeeds_iff hvalid).1.mpr ⟨edited, hedited⟩⟩

/-- An angle bracket beside a tag is not escaped, and it is not what the check takes for a tag. -/
theorem set_bracket_beside_tag :
    exists document : Document,
      parse "<resources><string name=\"a\">x</string></resources>".toList = .ok document ∧
        document.contains .string "a".toList = true ∧
        Value.validate "1 < 2 is <b>true</b>".toList = .ok () ∧
        document.set "a".toList "1 < 2 is <b>true</b>".toList .escaped =
          .error (.malformed (.mismatchedEndTag [] "b".toList)) := by
  have hread : (parse "<resources><string name=\"a\">x</string></resources>".toList).map
      (fun document => (document.contains .string "a".toList,
        document.set "a".toList "1 < 2 is <b>true</b>".toList .escaped)) =
        .ok (true, .error (.malformed (.mismatchedEndTag [] "b".toList))) := by
    decide +kernel
  rcases Success.map_eq_ok_iff.mp hread with ⟨document, hparse, hpair⟩
  rw [Prod.mk.injEq] at hpair
  exact ⟨document, hparse, hpair.1, by decide +kernel, hpair.2⟩

end Document
end AndroidStrings
