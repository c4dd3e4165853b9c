import AndroidStrings.Proofs.Document.WrittenName

/-!
# Attributes that are kept

Forms are stored between the tags of their plurals element, so its opening tag stays as it is.  An
element that closes itself is written anew, from its id alone: what its tag says besides is lost.

## Main statements

- `openingTag_of_setQuantities` : the opening tag of an element with tags of its own.
- `setPlurals_keeps_iff` : when storing forms keeps the attributes of the element, and what the
  tags of all entries say.
-/

namespace AndroidStrings

open Markup

namespace Document

/-!
# Opening tags
-/

/-- The opening tag of an entry, or the tag of one that closes itself. -/
def openingTag (document : Document) (node : Node) : Text :=
  document.slice ⟨node.outer.start, node.inner.start⟩

/-- The attributes in the opening tag of an entry. -/
def openingAttributes (document : Document) (node : Node) : List Attribute :=
  match Markup.next (document.openingTag node) with
  | .ok (.startTag content, _) | .ok (.emptyTag content, _) => (attributesOf content).attributes
  | _ => []

section Tag

variable {document : Document} {wanted : Node -> Bool} {node : Node} {front back : List Segment}
  {segment : Segment} {before after : Layout}

theorem NodeSplit.openingTag_eq
    (h : NodeSplit document wanted node front segment back before after) :
    document.openingTag node = segment.opener.raw := by
  rcases segment.raw_opener_isPrefix with ⟨rest, hrest⟩
  have htext : document.text =
      Segments.raw front ++ segment.opener.raw ++ (rest ++ Segments.raw back) := by
    rw [h.text, ← hrest]
    simp
  rw [openingTag, h.inner_start, h.outer, slice, htext, Text.slice_append]

theorem NodeSplit.openingAttributes_eq
    (h : NodeSplit document wanted node front segment back before after) :
    document.openingAttributes node = (attributesOf segment.content).attributes := by
  have hnext := (h.fits.spelled _ segment.opener_mem_events).next_raw
    (Segment.opener_ne_text h.isBlock) []
  rw [List.append_nil] at hnext
  rw [openingAttributes, h.openingTag_eq, hnext]
  rcases Segment.opener_of_isBlock h.isBlock with heq | heq <;> rw [heq]

end Tag

end Document

/-!
# Flags
-/

namespace EntryAttributes

/-- Without an attribute for it, the flag stays. -/
theorem translatable_of_foldlM
    {attributes : List Attribute} {known found : EntryAttributes}
    (hnone : forall given, given ∈ attributes -> given.key ≠ "translatable".toList)
    (h : attributes.foldlM add known = .ok found) :
    found.translatable = known.translatable := by
  induction attributes generalizing known with
  | nil =>
      rw [← Except.ok.inj h]
  | cons given attributes ih =>
      rw [List.forall_mem_cons] at hnone
      rw [List.foldlM_cons] at h
      rcases Success.bind_eq_ok_iff.mp h with ⟨next, hnext, hrest⟩
      rw [ih hnone.2 hrest]
      unfold add at hnext
      split at hnext
      · rcases Success.map_eq_ok_iff.mp hnext with ⟨_, _, rfl⟩
        rfl
      · rw [if_neg hnone.1] at hnext
        split at hnext
        · rcases Success.map_eq_ok_iff.mp hnext with ⟨_, _, rfl⟩
          rfl
        · rw [← Except.ok.inj hnext]

end EntryAttributes

theorem Heading.translatable_of_ofTag
    {kind : EntryKind} {content : Text} {heading : Heading}
    (hnone : forall given, given ∈ (attributesOf content).attributes ->
      given.key ≠ "translatable".toList)
    (h : Heading.ofTag kind content = .ok heading) :
    heading.translatable = true := by
  unfold Heading.ofTag EntryAttributes.ofTag at h
  split at h
  · cases h
  · rename_i known hknown
    simp only at hknown
    split at hknown
    · cases hknown
    · rename_i found hfound
      have hflag := EntryAttributes.translatable_of_foldlM hnone hfound
      split at hknown
      · cases hknown
      · rw [Except.ok.inj hknown] at hflag
        split at h
        · rw [← Except.ok.inj h]
          exact hflag
        · cases h

namespace Document

/-!
# Elements with tags of their own
-/

/-- The opening tag of a plurals element with tags of its own. -/
theorem openingTag_of_reads
    {site : PluralsSite} {document : Document} {inside : Forest} {node : Node}
    {items : List ReadItem} {forms : List (Quantity × Text)}
    (h : site.Reads document inside node items forms)
    (hlaid : document.LaidOut (site.rowWith inside)) :
    document.openingTag node = (Event.startTag site.opening).raw := by
  have hkind : node.entry.kind = .plurals := by
    rw [h.entry]
    rfl
  have hid : node.entry.id = site.heading.id := by rw [h.entry]
  rcases hlaid.exists_nodeSplit_of_row h.entries (by rw [hkind, hid]; exact site.first) with
    ⟨found, before, after, hfound, _, hsplit⟩
  rw [hkind, hid, h.find, Option.some.injEq] at hfound
  rw [hfound, hsplit.openingTag_eq]
  rfl

section Open

variable {document : Document} {row : List Segment} {id : Text} {node : Node}
  {items : List (Quantity × Text)}

/-- The element keeps its opening tag, and the entries keep what their tags say. -/
theorem LaidOut.openingTag_of_setQuantities
    (h : document.LaidOut row)
    (hfind : document.find? .plurals id = some node)
    (hopen : node.selfClosing = false)
    (hitems : forall item, item ∈ items -> Balanced item.2) :
    exists (edited : Document) (node' : Node),
      document.setQuantities id items = ⟨edited, .ok .applied⟩ ∧
        edited.entries.map Entry.heading = document.entries.map Entry.heading ∧
        edited.find? .plurals id = some node' ∧
        edited.openingTag node' = document.openingTag node := by
  rcases h.exists_pluralsSite hfind hopen with ⟨site, inside, rfl, rfl⟩
  rcases PluralsSite.exists_reads h with ⟨found, read, forms, hreads⟩
  obtain rfl : found = node := Option.some.inj (hreads.find.symm.trans hfind)
  rcases PluralsSite.exists_setQuantities h (hasForms_of_itemsFrom hreads.read hreads.forms_eq)
    hitems with ⟨edited, inside', hedited, hlaid, _⟩
  rcases PluralsSite.exists_reads hlaid with ⟨node', read', forms', hreads'⟩
  refine ⟨edited, node', hedited, ?_, hreads'.find, ?_⟩
  · have hheading : node'.entry.heading = found.entry.heading := by
      rw [hreads'.entry, hreads.entry]
      rfl
    rw [hreads'.entries_eq hlaid, hreads.entries_eq h, List.map_append, List.map_append,
      List.map_cons, List.map_cons, hheading]
  · rw [openingTag_of_reads hreads' hlaid, openingTag_of_reads hreads h]

theorem LaidOut.openingTag_of_setPlurals
    {forms : List (Quantity × Text)} {mode : EscapeMode} {outcome : EditOutcome}
    (h : document.LaidOut row)
    (hfind : document.find? .plurals id = some node)
    (hopen : node.selfClosing = false)
    (hok : (document.setPlurals id forms mode).result = .ok outcome)
    (hfragments : forall form, form ∈ forms -> Fragment (mode.apply form.2)) :
    (document.setPlurals id forms mode).document.entries.map Entry.heading =
        document.entries.map Entry.heading ∧
      exists node' : Node,
        (document.setPlurals id forms mode).document.find? .plurals id = some node' ∧
          (document.setPlurals id forms mode).document.openingTag node' =
            document.openingTag node := by
  cases hitems : storedForms id mode forms with
  | error fault =>
      rw [setPlurals, hitems] at hok
      cases hok
  | ok items =>
      rcases h.openingTag_of_setQuantities hfind hopen (balanced_storedForms hfragments hitems) with
        ⟨edited, node', hstore, hsame, hfind', htag⟩
      have hedited : document.setPlurals id forms mode = ⟨edited, .ok .applied⟩ := by
        rw [setPlurals_of_stored hitems, hfind]
        simp only [hopen, Bool.false_eq_true, if_false, hstore]
      rw [hedited]
      exact ⟨hsame, node', hfind', htag⟩

end Open

/-!
# Elements that close themselves
-/

section Closed

variable {document edited : Document} {id : Text} {node : Node}

/-- An element that closes itself is written anew. -/
theorem exists_writes_of_setPlurals
    {forms : List (Quantity × Text)} {mode : EscapeMode} {outcome : EditOutcome}
    (hfind : document.find? .plurals id = some node)
    (hclosed : node.selfClosing = true)
    (hok : (document.setPlurals id forms mode).result = .ok outcome)
    (hfragments : forall form, form ∈ forms -> Fragment (mode.apply form.2)) :
    exists inside : Forest,
      inside.WellFormed ∧
        document.Writes (.plurals, id) (Segment.named .plurals id inside).raw
          (document.setPlurals id forms mode).document := by
  let command : EditCommand := .setPlurals id forms mode
  have hwritten : document.writesElement command = true := by
    simp [command, writesElement, hfind, hclosed]
  have hstored : forall stored, stored ∈ command.stored -> Fragment stored :=
    List.forall_mem_map.mpr hfragments
  rcases EditCommand.exists_inside_of_stored (rfl : command.creates? = some (.plurals, id))
    hstored document.lineEnding with ⟨inside, hinside, hraw⟩
  refine ⟨inside, hinside, ?_⟩
  rcases writes_or_keeps (rfl : command.creates? = some _) hok with hnew | hkept
  · rw [hraw]
    exact hnew.2
  · rw [hkept.1] at hwritten
    cases hwritten

/-- An element that has been written anew has its name and nothing else. -/
theorem Writes.exists_named
    {row : List Segment} {inside : Forest}
    (h : document.Writes (.plurals, id) (Segment.named .plurals id inside).raw edited)
    (hlaid : document.LaidOut row)
    (hfind : document.find? .plurals id = some node)
    (hinside : inside.WellFormed)
    (hid : IsVerbatim id) :
    exists (node' : Node) (front back : List Heading),
      edited.find? .plurals id = some node' ∧
        edited.openingAttributes node' = [⟨"name".toList, id⟩] ∧
        document.entries.map Entry.heading = front ++ node.entry.heading :: back ∧
        edited.entries.map Entry.heading = front ++ ⟨.plurals, id, true⟩ :: back := by
  cases h with
  | among hnew _ =>
      cases (contains_of_find? hfind).symm.trans hnew
  | inPlace other hother hclosed hsplice =>
      obtain rfl : other = node := Option.some.inj (hother.symm.trans hfind)
      rcases hlaid.exists_nodeSplit hfind with ⟨front, segment, back, before, after, rfl, hsplit⟩
      have hlaid' := hsplit.laidOut_of_splice hlaid.plain rfl
        (Segment.fits_named hid.noQuote hinside) hsplice
      have hreadable : (Segment.named .plurals id inside).Readable :=
        hlaid'.readable _ (by simp)
      have hkeys := Segment.keys_of_isBlock rfl hreadable
      rw [Segment.key?_named inside hid, Option.toList_some, List.map_eq_singleton_iff] at hkeys
      rcases hkeys with ⟨entry, hentries, hkey⟩
      rw [Entry.key, Prod.mk.injEq] at hkey
      rcases hlaid'.exists_nodeSplit_of_row hentries
        (by rw [hkey.1, hkey.2]; exact hsplit.not_wanted fun _ => rfl) with
        ⟨node', before', after', hfind', rfl, hsplit'⟩
      have hheaded := hsplit'.headed.2
      rw [show node'.kind = .plurals from hkey.1,
        show (Segment.named .plurals id inside).content = nameTag .plurals id from rfl,
        heading_nameTag .plurals hid, Except.ok.injEq] at hheaded
      refine ⟨node', (front.flatMap Segment.entries).map Entry.heading,
        (back.flatMap Segment.entries).map Entry.heading, ?_, ?_, ?_, ?_⟩
      · rwa [hkey.1, hkey.2] at hfind'
      · rw [hsplit'.openingAttributes_eq,
          show (Segment.named .plurals id inside).content = nameTag .plurals id from rfl,
          nameTag, attributesOf_oneAttribute (isName_tag .plurals) ⟨by decide, by decide⟩
            hid.noQuote]
      · rw [hlaid.entries_eq]
        simp [hsplit.entries_segment]
      · rw [hlaid'.entries_eq]
        simp [hentries, ← hheaded]

end Closed

/-!
# Main statement
-/

/-- Every attribute has one of its key that means the same. -/
def KeepsAttributes (before after : List Attribute) : Prop :=
  forall given, given ∈ before ->
    exists kept, kept ∈ after ∧ kept.key = given.key ∧ unescape kept.value = unescape given.value

/-- An attribute says that the name is an id. -/
def Names (id : Text) (given : Attribute) : Prop :=
  given.key = "name".toList ∧ unescape given.value = .ok id

theorem keepsAttributes_name_iff
    {id : Text} {before : List Attribute}
    (hid : '&' ∉ id) :
    KeepsAttributes before [⟨"name".toList, id⟩] ↔
      forall given, given ∈ before -> Names id given := by
  have hself := unescape_eq_self hid
  refine forall₂_congr fun given hgiven => ?_
  simp only [List.mem_singleton, exists_eq_left, hself, Names]
  exact and_congr eq_comm eq_comm

/-- A tag that says nothing but a name leaves the entry to be translated. -/
theorem LaidOut.heading_of_names
    {document : Document} {row : List Segment} {kind : EntryKind} {id : Text} {node : Node}
    (h : document.LaidOut row)
    (hfind : document.find? kind id = some node)
    (hnames : forall given, given ∈ document.openingAttributes node -> Names id given) :
    node.entry.heading = ⟨kind, id, true⟩ := by
  have hmatch := matches_of_find? hfind
  rcases h.exists_nodeSplit hfind with ⟨front, segment, back, before, after, _, hsplit⟩
  rw [hsplit.openingAttributes_eq] at hnames
  have hflag : node.entry.translatable = true :=
    Heading.translatable_of_ofTag
      (fun given hgiven => by rw [(hnames given hgiven).1]; decide) hsplit.headed.2
  rw [Entry.heading, hflag]
  exact congrArg₂ (Heading.mk · · true) hmatch.1 hmatch.2

theorem order_eq_of_headings
    {document edited : Document}
    (h : edited.entries.map Entry.heading = document.entries.map Entry.heading) :
    edited.order = document.order := by
  have horder : forall entries : List Entry, entries.map Entry.key =
      (entries.map Entry.heading).map fun heading => (heading.kind, heading.id) := by
    intro entries
    rw [List.map_map]
    rfl
  rw [order, order, horder, horder, h]

/-- An element that has been written anew has all that its tag said exactly if that was its name,
without references. -/
theorem Writes.keeps_iff
    {document edited : Document} {row : List Segment} {id : Text} {node : Node} {inside : Forest}
    (h : document.Writes (.plurals, id) (Segment.named .plurals id inside).raw edited)
    (hlaid : document.LaidOut row)
    (hfind : document.find? .plurals id = some node)
    (hinside : inside.WellFormed)
    (hquote : '"' ∉ id) :
    (edited.entries.map Entry.heading = document.entries.map Entry.heading ∧
        exists node' : Node,
          edited.find? .plurals id = some node' ∧
            KeepsAttributes (document.openingAttributes node) (edited.openingAttributes node')) ↔
      '&' ∉ id ∧ forall given, given ∈ document.openingAttributes node -> Names id given := by
  by_cases hreference : '&' ∈ id
  · refine iff_of_false ?_ (fun h => h.1 hreference)
    rintro ⟨hsame, _⟩
    have hcount := h.count_order hlaid hinside hquote hreference
    have hpos := List.count_pos_iff.mpr (mem_order_iff.mpr (contains_of_find? hfind))
    rw [order_eq_of_headings hsame] at hcount
    omega
  · rcases h.exists_named hlaid hfind hinside ⟨hquote, hreference⟩ with
      ⟨node', front, back, hfind', hattributes, hbefore, hafter⟩
    rw [hbefore, hafter]
    constructor
    · rintro ⟨_, other, hother, hkeeps⟩
      obtain rfl : other = node' := Option.some.inj (hother.symm.trans hfind')
      rw [hattributes] at hkeeps
      exact ⟨hreference, (keepsAttributes_name_iff hreference).mp hkeeps⟩
    · rintro ⟨_, hnames⟩
      rw [hlaid.heading_of_names hfind hnames]
      refine ⟨rfl, node', hfind', ?_⟩
      rw [hattributes]
      exact (keepsAttributes_name_iff hreference).mpr hnames

/-- After forms have been stored in a plurals element, its opening tag has all its attributes, and
all entries are there with the flags that they had, exactly when the element has tags of its own,
or its tag says nothing but its name, and that without references.  With tags of its own, the
element keeps its opening tag as it stands. -/
theorem setPlurals_keeps_iff
    {text id : Text} {document : Document} {node : Node} {forms : List (Quantity × Text)}
    {mode : EscapeMode} {outcome : EditOutcome}
    (hplain : PlainStart text)
    (hparse : parse text = .ok document)
    (hfind : document.find? .plurals id = some node)
    (hok : (document.setPlurals id forms mode).result = .ok outcome)
    (hfragments : forall form, form ∈ forms -> Fragment (mode.apply form.2))
    (hquote : node.selfClosing = true -> '"' ∉ id) :
    let edited := (document.setPlurals id forms mode).document
    (edited.entries.map Entry.heading = document.entries.map Entry.heading ∧
        (exists node' : Node,
          edited.find? .plurals id = some node' ∧
            KeepsAttributes (document.openingAttributes node) (edited.openingAttributes node')) ↔
      (node.selfClosing = true ->
        '&' ∉ id ∧
          forall given, given ∈ document.openingAttributes node -> Names id given)) ∧
      (node.selfClosing = false ->
        exists node' : Node,
          edited.find? .plurals id = some node' ∧
            edited.openingTag node' = document.openingTag node) := by
  intro edited
  have hread := isRead_of_parse hparse
  rw [← text_of_parse hparse] at hplain
  rcases exists_laidOut hplain hread with ⟨row, hlaid⟩
  cases hclosed : node.selfClosing with
  | false =>
      rcases hlaid.openingTag_of_setPlurals hfind hclosed hok hfragments with
        ⟨hsame, node', hfind', htag⟩
      refine ⟨iff_of_true ⟨hsame, node', hfind', ?_⟩ (fun h => absurd h Bool.false_ne_true),
        fun _ => ⟨node', hfind', htag⟩⟩
      rw [openingAttributes, openingAttributes, htag]
      exact fun given hgiven => ⟨given, hgiven, rfl, rfl⟩
  | true =>
      rcases exists_writes_of_setPlurals hfind hclosed hok hfragments with
        ⟨inside, hinside, hwrites⟩
      refine ⟨?_, fun h => absurd h (by simp)⟩
      simp only [forall_const]
      exact hwrites.keeps_iff hlaid hfind hinside (hquote hclosed)

/-- The name of the element is written with a reference. -/
theorem setPlurals_keeps_reference :
    exists (document edited : Document) (node node' : Node),
      parse ("<resources><plurals translatable=\"false\" name='a&amp;b' note=\"1\">".toList ++
          "</plurals></resources>".toList) = .ok document ∧
        document.find? .plurals "a&b".toList = some node ∧
        document.setPlurals "a&b".toList [(.one, "<b>x</b>".toList)] .raw =
          ⟨edited, .ok .applied⟩ ∧
        edited.find? .plurals "a&b".toList = some node' ∧
        edited.openingTag node' =
          "<plurals translatable=\"false\" name='a&amp;b' note=\"1\">".toList ∧
        edited.entries.map Entry.heading = document.entries.map Entry.heading := by
  let forms : List (Quantity × Text) := [(.one, "<b>x</b>".toList)]
  let tag : Text := "<plurals translatable=\"false\" name='a&amp;b' note=\"1\">".toList
  have hread : (parse ("<resources>".toList ++ tag ++ "</plurals></resources>".toList)).map
      (fun document => (document.find? .plurals "a&b".toList).map fun node =>
        decide (node.selfClosing = false ∧ document.openingTag node = tag ∧
          (document.setPlurals "a&b".toList forms .raw).result = .ok .applied)) =
        .ok (some true) := by
    decide +kernel
  rcases Success.map_eq_ok_iff.mp hread with ⟨document, hparse, hfacts⟩
  rcases Option.map_eq_some_iff.mp hfacts with ⟨node, hfind, hnode⟩
  rcases of_decide_eq_true hnode with ⟨hopen, htag, hok⟩
  have hbold : Fragment "<b>x</b>".toList :=
    @Fragment.of_element "b".toList "x".toList ⟨by decide, by decide⟩ (.of_text (by decide))
  have hfragments : forall form, form ∈ forms -> Fragment (EscapeMode.raw.apply form.2) := by
    intro form hform
    rw [List.mem_singleton.mp hform]
    exact hbold
  have hkeeps := setPlurals_keeps_iff (by decide) hparse hfind hok hfragments
    (fun h => absurd (h.symm.trans hopen) (by simp))
  rcases hkeeps.2 hopen with ⟨node', hfind', htag'⟩
  exact ⟨document, _, node, node', hparse, hfind, congrArg (SteppedEdit.mk _) hok, hfind',
    htag'.trans htag, (hkeeps.1.mpr fun h => absurd (h.symm.trans hopen) (by simp)).1⟩

/-- The tag closes itself, and says that the entry is not to be translated. -/
theorem not_setPlurals_keeps_translatable :
    exists (document : Document) (node : Node),
      parse "<resources><plurals name=\"a\" translatable=\"false\"/></resources>".toList =
          .ok document ∧
        document.find? .plurals "a".toList = some node ∧
        let stored := document.setPlurals "a".toList [(.one, "x".toList)] .escaped
        stored.result = .ok .applied ∧
          document.entries.map Entry.heading = [⟨.plurals, "a".toList, false⟩] ∧
          stored.document.entries.map Entry.heading = [⟨.plurals, "a".toList, true⟩] ∧
          forall node' : Node,
            stored.document.find? .plurals "a".toList = some node' ->
              ¬ KeepsAttributes (document.openingAttributes node)
                (stored.document.openingAttributes node') := by
  let name : Attribute := ⟨"name".toList, "a".toList⟩
  let flag : Attribute := ⟨"translatable".toList, "false".toList⟩
  let text : Text := "<resources><plurals name=\"a\" translatable=\"false\"/></resources>".toList
  have hread : (parse text).map
      (fun document => (document.find? .plurals "a".toList).map fun node =>
        let stored := document.setPlurals "a".toList [(.one, "x".toList)] .escaped
        decide (stored.result = .ok .applied ∧
          document.entries.map Entry.heading = [⟨.plurals, "a".toList, false⟩] ∧
          stored.document.entries.map Entry.heading = [⟨.plurals, "a".toList, true⟩] ∧
          document.openingAttributes node = [name, flag] ∧
          (stored.document.find? .plurals "a".toList).map stored.document.openingAttributes =
            some [name])) = .ok (some true) := by
    decide +kernel
  rcases Success.map_eq_ok_iff.mp hread with ⟨document, hparse, hfacts⟩
  rcases Option.map_eq_some_iff.mp hfacts with ⟨node, hfind, hnode⟩
  rcases of_decide_eq_true hnode with ⟨hok, hbefore, hafter, hold, hnew⟩
  refine ⟨document, node, hparse, hfind, hok, hbefore, hafter, ?_⟩
  intro node' hfind' hkeeps
  rw [hfind', Option.map_some, Option.some.injEq] at hnew
  rw [hold, hnew] at hkeeps
  rcases hkeeps flag (by simp) with ⟨kept, hkept, hkey, _⟩
  rw [List.mem_singleton.mp hkept] at hkey
  exact absurd hkey (by decide)

end Document
end AndroidStrings
