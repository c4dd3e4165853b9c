import AndroidStrings.Proofs.Document.MergedForms
import AndroidStrings.Proofs.Document.OpenedEntry

/-!
# Names that are written

A new element has its id between two quotes as it is, while the reader replaces the references of
a name.  So an element that is made for an id with a reference is read under another key, and an
element for an id without one is found again, whatever is stored in it.

## Main statements

- `Markup.length_of_unescapeFrom` : a value with references is longer than what it stands for.
- `Writes.contains`, `Writes.count_order` : what becomes of the key of a new element.
- `writes_or_keeps` : what a command that makes entries does.
- `contains_perform_iff` : when an entry that has been made is there.
-/

namespace AndroidStrings

open Markup

namespace Markup

/-!
# References
-/

/-- Every reference stands for one character, and is longer than that. -/
theorem length_of_unescapeFrom
    {position total : Nat} {value unescaped : Text}
    (h : unescapeFrom position total value = .ok unescaped) :
    unescaped.length + value.count '&' ≤ value.length := by
  fun_induction unescapeFrom position total value generalizing unescaped with
  | case1 position =>
      rw [← Except.ok.inj h]
      exact Nat.le_refl 0
  | case2 => cases h
  | case3 position t name rest hrest d hd =>
      rename_i ih
      rcases Success.map_eq_ok_iff.mp h with ⟨others, hothers, rfl⟩
      have hcount : name.count '&' = 0 := by
        rw [List.count_eq_zero]
        intro hmem
        exact absurd (List.mem_takeWhile_imp hmem) (by decide)
      have ht : t = name ++ ';' :: rest := by
        rw [← hrest, List.takeWhile_append_dropWhile]
      have hle := ih hothers
      rw [ht, List.count_cons_self, List.count_append, hcount, List.count_cons_of_ne (by decide)]
      simp only [List.length_cons, List.length_append]
      omega
  | case4 => cases h
  | case5 position c t hc ih =>
      rcases Success.map_eq_ok_iff.mp h with ⟨others, hothers, rfl⟩
      have hle := ih hothers
      rw [List.count_cons_of_ne hc, List.length_cons, List.length_cons]
      omega

/-- A value with a reference is not what it stands for. -/
theorem ne_of_unescape
    {value unescaped : Text}
    (h : unescape value = .ok unescaped)
    (hreference : '&' ∈ value) :
    unescaped ≠ value := by
  rintro rfl
  have hle := length_of_unescapeFrom h
  have hpos := List.count_pos_iff.mpr hreference
  omega

end Markup

/-!
# Elements with one attribute
-/

/-- What is read from the tag of a new entry. -/
theorem heading_nameTag_eq
    {id : Text}
    (kind : EntryKind)
    (hid : '"' ∉ id) :
    Heading.ofTag kind (nameTag kind id) =
      (EntryAttributes.unescaped id).map fun name => ⟨kind, name, true⟩ := by
  rw [Heading.ofTag, nameTag, EntryAttributes.ofTag,
    attributesOf_oneAttribute (isName_tag kind) ⟨by decide, by decide⟩ hid]
  simp only [List.foldlM_cons, List.foldlM_nil, EntryAttributes.add, if_true]
  cases EntryAttributes.unescaped id <;> rfl

namespace Segment

/-- An element whose one attribute is its name. -/
def named (kind : EntryKind) (id : Text) (inside : Forest) : Segment :=
  .element (nameTag kind id) inside kind.tag

section Named

variable {kind : EntryKind} {id : Text} {inside : Forest}

theorem fits_named
    (hid : '"' ∉ id)
    (hinside : inside.WellFormed) :
    (named kind id inside).Fits true :=
  ⟨rfl, wellFormed_oneAttribute (isName_tag kind) ⟨by decide, by decide⟩ hid hinside trivial⟩

theorem key?_named
    (inside : Forest)
    (hid : IsVerbatim id) :
    (named kind id inside).key? = some (kind, id) := by
  have htag : (named kind id inside).tag = kind.tag := tagName_nameTag kind hid.noQuote
  have hcontent : (named kind id inside).content = nameTag kind id := rfl
  rw [key?, htag, EntryKind.ofTag?_tag, hcontent]
  simp only [heading_nameTag kind hid]

/-- An element for an id with a reference is the element of another key. -/
theorem key?_named_ne
    (inside : Forest)
    (hid : '"' ∉ id)
    (hreference : '&' ∈ id) :
    (named kind id inside).key? ≠ some (kind, id) := by
  have htag : (named kind id inside).tag = kind.tag := tagName_nameTag kind hid
  have hcontent : (named kind id inside).content = nameTag kind id := rfl
  rw [key?, htag, EntryKind.ofTag?_tag, hcontent]
  simp only [heading_nameTag_eq kind hid, EntryAttributes.unescaped]
  cases hname : unescape id with
  | error fault => simp [Except.map]
  | ok name =>
      have hne := ne_of_unescape hname hreference
      simpa [Except.map] using hne

end Named

end Segment

namespace Segments

theorem keys_solid (row : List Segment) : keys (solid row) = keys row :=
  flatMap_solid (fun _ h => by rw [Segment.entries_of_isText h, List.map_nil]) row

end Segments

namespace EditCommand

/-- What a command stores. -/
def stored : EditCommand -> List Text
  | set _ value mode | setOrCreate _ value mode | add _ value mode => [mode.apply value]
  | addPlural _ forms mode | setPlurals _ forms mode => forms.map fun form => mode.apply form.2
  | remove _ | sort _ => []

/-- The element that a command makes. -/
def element (ending : LineEnding) : EditCommand -> Text
  | setOrCreate id value mode | add id value mode =>
      Document.stringElement id (mode.apply value)
  | addPlural id forms mode | setPlurals id forms mode =>
      Document.pluralsElement id (forms.map fun form => (form.1, mode.apply form.2)) ending
  | _ => []

section Element

variable {command : EditCommand} {key : EntryKind.Key}

/-- The element of a command begins with the tag of its entry. -/
theorem exists_element_eq
    (h : command.creates? = some key)
    (ending : LineEnding) :
    exists tail : Text,
      command.element ending = (Event.startTag (nameTag key.1 key.2)).raw ++ tail := by
  cases command with
  | setOrCreate id value mode =>
      cases h
      exact ⟨_, Document.stringElement_eq id (mode.apply value)⟩
  | add id value mode =>
      cases h
      exact ⟨_, Document.stringElement_eq id (mode.apply value)⟩
  | addPlural id forms mode =>
      cases h
      exact Document.exists_pluralsElement_eq id _ ending
  | setPlurals id forms mode =>
      cases h
      exact Document.exists_pluralsElement_eq id _ ending
  | _ => cases h

theorem exists_storedForests
    {forms : List (Quantity × Text)} {mode : EscapeMode}
    (h : forall form, form ∈ forms -> Fragment (mode.apply form.2)) :
    exists items : List (Quantity × Forest),
      (items.map fun item => (item.1, item.2.raw)) =
          forms.map (fun form => (form.1, mode.apply form.2)) ∧
        forall item, item ∈ items -> item.2.WellFormed :=
  exists_forests (List.forall_mem_map.mpr fun form hform => balanced_of_fragment (h form hform))

theorem exists_inside_plurals
    {forms : List (Quantity × Text)} {mode : EscapeMode}
    (h : forall form, form ∈ forms -> Fragment (mode.apply form.2))
    (id : Text) (ending : LineEnding) :
    exists inside : Forest,
      inside.WellFormed ∧
        (Segment.named .plurals id inside).raw =
          Document.pluralsElement id (forms.map fun form => (form.1, mode.apply form.2))
            ending := by
  rcases exists_storedForests h with ⟨items, hitems, hwell⟩
  refine ⟨itemsForest ending items, wellFormed_itemsForest ending hwell, ?_⟩
  rw [← hitems]
  exact Segment.raw_newPlurals id ending items

/-- With fragments for its values, it is one element. -/
theorem exists_inside_of_stored
    (h : command.creates? = some key)
    (hstored : forall stored, stored ∈ command.stored -> Fragment stored)
    (ending : LineEnding) :
    exists inside : Forest,
      inside.WellFormed ∧
        (Segment.named key.1 key.2 inside).raw = command.element ending := by
  have hone : forall {id stored : Text}, Fragment stored ->
      exists inside : Forest,
        inside.WellFormed ∧
          (Segment.named .string id inside).raw = Document.stringElement id stored := by
    intro id stored hfragment
    rcases balanced_of_fragment hfragment with ⟨inside, hwell, rfl⟩
    exact ⟨inside, hwell, Segment.raw_newString id inside⟩
  cases command with
  | setOrCreate id value mode =>
      cases h
      exact hone (hstored _ List.mem_cons_self)
  | add id value mode =>
      cases h
      exact hone (hstored _ List.mem_cons_self)
  | addPlural id forms mode =>
      cases h
      exact exists_inside_plurals (fun form hform => hstored _ (List.mem_map_of_mem hform)) id
        ending
  | setPlurals id forms mode =>
      cases h
      exact exists_inside_plurals (fun form hform => hstored _ (List.mem_map_of_mem hform)) id
        ending
  | _ => cases h

end Element

end EditCommand

namespace Document

open Segments

/-!
# Elements that are written
-/

/-- A document that is made by writing the element of a key: before the end of the root element,
or in the place of one that closes itself. -/
inductive Writes (document : Document) (key : EntryKind.Key) (element : Text)
    (edited : Document) : Prop where
  | among
      (hnew : document.contains key.1 key.2 = false)
      (hinsert : document.insertEntry element = .ok edited)
  | inPlace
      (node : Node)
      (hfind : document.find? key.1 key.2 = some node)
      (hclosed : node.selfClosing = true)
      (hsplice : document.splice node.outer element = .ok edited)

/-- What has been read of a row that leads into the root element, and of one that goes on there,
is laid out in both. -/
theorem laidOut_append_of_parse
    {front back : List Segment} {edited : Document} {tail : Text}
    (hplain : PlainStart (Segments.raw front ++ tail))
    (hfront : Segments.Fit false front)
    (hleads : Segments.leads false front = true)
    (hback : Segments.Fit true back)
    (hparse : parse (Segments.raw front ++ Segments.raw back) = .ok edited) :
    edited.LaidOut (front ++ back) := by
  have htext := text_of_parse hparse
  refine ⟨?_, ?_, ?_, ?_⟩
  · rw [htext]
    exact plainStart_append (List.ne_nil_of_mem (Segments.mem_raw_of_leads hleads)) hplain
  · rw [htext, hparse]
  · rw [Segments.fit_append, hleads]
    exact ⟨hfront, hback⟩
  · rw [htext, Segments.raw_append]

section Row

variable {document edited : Document} {row : List Segment} {segment : Segment}

/-- A new element, with the texts around it. -/
theorem InsertionSite.laidOut_of_insertEntry
    (site : InsertionSite document row)
    (hblock : segment.isBlock = true)
    (hfits : segment.Fits true)
    (h : document.insertEntry segment.raw = .ok edited) :
    edited.LaidOut (site.front ++ .inner (.text site.lead) :: segment ::
      .inner (.text site.follow) :: .rootClose site.content :: site.back) := by
  apply laidOut_append_of_parse (site.plain []) site.fit_front site.inRoot
  · refine ⟨⟨rfl, rfl, site.lead_noMarkup⟩, hfits, ?_⟩
    rw [show (Segment.inner (.text site.lead)).leads true = true from rfl,
      Segment.leads_of_isBlock hblock]
    exact ⟨⟨rfl, rfl, site.follow_noMarkup⟩, site.fit_back⟩
  · rw [← h, site.insertEntry_eq]
    simp [Event.raw]

/-- An element in the place of another one. -/
theorem NodeSplit.laidOut_of_splice
    {wanted : Node -> Bool} {node : Node} {front back : List Segment} {segment' : Segment}
    {before after : Layout}
    (hsplit : NodeSplit document wanted node front segment back before after)
    (hplain : PlainStart document.text)
    (hblock : segment'.isBlock = true)
    (hfits : segment'.Fits true)
    (h : document.splice node.outer segment'.raw = .ok edited) :
    edited.LaidOut (front ++ segment' :: back) := by
  rw [splice, hsplit.outer, hsplit.text, Text.splice_append, List.append_assoc, ← raw_cons] at h
  rw [hsplit.text, List.append_assoc] at hplain
  refine laidOut_append_of_parse hplain hsplit.fit_front hsplit.inRoot ⟨hfits, ?_⟩ h
  rw [Segment.leads_of_isBlock hblock]
  exact hsplit.fit_back

end Row

section Writes

variable {document edited : Document} {row : List Segment} {key : EntryKind.Key}

/-- An element for an id that is written as it is, is found again. -/
theorem Writes.contains
    {tail : Text}
    (h : document.Writes key ((Event.startTag (nameTag key.1 key.2)).raw ++ tail) edited)
    (hlaid : document.LaidOut row)
    (hid : IsVerbatim key.2) :
    edited.contains key.1 key.2 = true := by
  cases h with
  | among hnew hinsert => exact (contains_of_insertEntry hlaid.plain hlaid.read hid hinsert).1
  | inPlace node hfind hclosed hsplice =>
      rcases hlaid.exists_nodeSplit hfind with ⟨front, segment, back, before, after, rfl, hsplit⟩
      have hplain : forall t : Text, PlainStart (raw front ++ t) :=
        hlaid.plainStart_front hsplit.inRoot (by rw [hsplit.text, List.append_assoc])
      rw [splice, hsplit.outer, hsplit.text, Text.splice_append, List.append_assoc,
        List.append_assoc] at hsplice
      rw [← List.nil_append ((Event.startTag _).raw ++ _)] at hsplice
      exact contains_of_opening (hplain _) hsplit.fit_front hsplit.inRoot
        List.not_mem_nil (spelled_nameTag key.1 hid.noQuote)
        (Cursor.opens_startTag (tagName_nameTag key.1 hid.noQuote) (heading_nameTag key.1 hid))
        hsplice

/-- Apart from plain text, an element that is written is one segment more, or stands in the place
of the one with its key. -/
theorem Writes.exists_row
    {segment : Segment}
    (h : document.Writes key segment.raw edited)
    (hlaid : document.LaidOut row)
    (hblock : segment.isBlock = true)
    (hfits : segment.Fits true) :
    exists row' front old back : List Segment,
      edited.LaidOut row' ∧ solid row = front ++ old ++ back ∧
        solid row' = front ++ segment :: back ∧
        (old = [] ∧ key ∉ document.order ∨ keys old = [key]) := by
  have htext := Segment.isText_of_isBlock hblock
  cases h with
  | among hnew hinsert =>
      cases hclose : document.rootCloseStart with
      | error fault =>
          rw [insertEntry, hclose] at hinsert
          cases hinsert
      | ok close =>
          rcases hlaid.exists_insertionSite hclose with ⟨site⟩
          refine ⟨_, solid site.front, [], solid (.rootClose site.content :: site.back),
            site.laidOut_of_insertEntry hblock hfits hinsert, ?_, ?_,
            .inl ⟨rfl, not_mem_order hnew⟩⟩
          · rw [List.append_nil]
            exact site.solid_row
          · rw [solid_append, solid_cons_of_isText rfl, solid_cons_of_not_isText htext,
              solid_cons_of_isText rfl]
  | inPlace node hfind hclosed hsplice =>
      rcases hlaid.exists_nodeSplit hfind with ⟨front, old, back, before, after, rfl, hsplit⟩
      have hmatch := matches_of_find? hfind
      refine ⟨_, solid front, [old], solid back,
        hsplit.laidOut_of_splice hlaid.plain hblock hfits hsplice, ?_, ?_, .inr ?_⟩
      · rw [solid_append, solid_cons_of_not_isText (Segment.isText_of_isBlock hsplit.isBlock),
          List.append_assoc, List.singleton_append]
      · rw [solid_append, solid_cons_of_not_isText htext]
      · rw [keys_cons, hsplit.entries_segment]
        exact congrArg (· :: []) (Prod.ext hmatch.1 hmatch.2)

/-- An element for an id with a reference is not found, and the element in whose place it has been
written is gone. -/
theorem Writes.count_order
    {inside : Forest}
    (h : document.Writes key (Segment.named key.1 key.2 inside).raw edited)
    (hlaid : document.LaidOut row)
    (hinside : inside.WellFormed)
    (hid : '"' ∉ key.2)
    (hreference : '&' ∈ key.2) :
    edited.order.count key = document.order.count key - 1 := by
  have hfits : (Segment.named key.1 key.2 inside).Fits true := Segment.fits_named hid hinside
  rcases h.exists_row hlaid rfl hfits with ⟨row', front, old, back, hlaid', hrow, hrow', hold⟩
  have hreadable : (Segment.named key.1 key.2 inside).Readable := by
    have hmem : Segment.named key.1 key.2 inside ∈ solid row' := by
      rw [hrow']
      simp
    exact hlaid'.readable _ (List.mem_of_mem_filter hmem)
  have hnone : ((Segment.named key.1 key.2 inside).entries.map Entry.key).count key = 0 := by
    rw [Segment.keys_of_isBlock rfl hreadable, List.count_eq_zero, Option.mem_toList]
    exact Segment.key?_named_ne inside hid hreference
  have hbefore : document.order.count key =
      (keys front).count key + (keys old).count key + (keys back).count key := by
    rw [hlaid.order_eq, ← keys_solid, hrow, keys_append, keys_append, List.count_append,
      List.count_append]
  have hafter : edited.order.count key = (keys front).count key + (keys back).count key := by
    rw [hlaid'.order_eq, ← keys_solid, hrow', keys_append, keys_cons, List.count_append,
      List.count_append, hnone, Nat.zero_add]
  rcases hold with ⟨rfl, hfresh⟩ | hone
  · have hzero := List.count_eq_zero.mpr hfresh
    omega
  · rw [hone, List.count_singleton_self] at hbefore
    omega

end Writes

/-!
# Commands that make entries
-/

/-- A command writes the element of its entry: there is no such entry, or forms are to be stored in
a plurals element that closes itself. -/
def writesElement (document : Document) : EditCommand -> Bool
  | .setOrCreate id _ _ | .add id _ _ => !document.contains .string id
  | .addPlural id _ _ => !document.contains .plurals id
  | .setPlurals id _ _ => (document.find? .plurals id).all Node.selfClosing
  | _ => false

/-- A document in which an entry stays, with some of the values stored in it or without a
change. -/
inductive Keeps (document : Document) (key : EntryKind.Key) (values : List Text)
    (edited : Document) : Prop where
  | skipped
      (hcontains : document.contains key.1 key.2 = true)
      (heq : edited = document)
  | string
      (hkind : key.1 = .string)
      (stored : Text)
      (hstored : stored ∈ values)
      (hreplace : document.replaceString key.2 stored = .ok edited)
  | plurals
      (hkind : key.1 = .plurals)
      (node : Node)
      (hfind : document.find? .plurals key.2 = some node)
      (hopen : node.selfClosing = false)
      (items : List (Quantity × Text))
      (hitems : forall item, item ∈ items -> item.2 ∈ values)
      (outcome : EditOutcome)
      (hstore : document.setQuantities key.2 items = ⟨edited, .ok outcome⟩)

section Commands

variable {document edited : Document} {command : EditCommand} {key : EntryKind.Key}
  {outcome : EditOutcome}

theorem Keeps.contains
    {values : List Text}
    (h : document.Keeps key values edited)
    (hplain : PlainStart document.text)
    (hread : document.IsRead) :
    edited.contains key.1 key.2 = true := by
  cases h with
  | skipped hcontains heq => rwa [heq]
  | string hkind stored _ hreplace =>
      rcases exists_laidOut hplain hread with ⟨row, hlaid⟩
      rw [hkind]
      exact contains_replaceString hlaid hreplace
  | plurals hkind node hfind _ items _ outcome hstore =>
      rw [hkind]
      have hkept := contains_of_setQuantities hplain hread (contains_of_find? hfind)
        (congrArg _ hstore)
      rwa [hstore] at hkept

theorem eq_of_whole
    {result : Except Error Document}
    (h : (document.whole result).result = .ok outcome) :
    result = .ok (document.whole result).document := by
  cases result with
  | error fault => cases h
  | ok new => rfl

/-- An addition that succeeds inserts its element, or finds an entry. -/
theorem eq_or_eq_of_wholeOrSkipped
    {result : Except Error (Option Document)}
    (h : (document.wholeOrSkipped result).result = .ok outcome) :
    result = .ok (some (document.wholeOrSkipped result).document) ∨
      result = .ok none ∧ (document.wholeOrSkipped result).document = document := by
  cases result with
  | error fault => cases h
  | ok made =>
      cases made with
      | none => exact .inr ⟨rfl, rfl⟩
      | some new => exact .inl rfl

theorem contains_of_add?_eq_none
    {id value : Text} {mode : EscapeMode}
    (h : document.add? id value mode = .ok none) :
    document.contains .string id = true := by
  unfold add? at h
  split at h
  · cases h
  · split at h
    · assumption
    · rcases Success.map_eq_ok_iff.mp h with ⟨_, _, hsome⟩
      cases hsome

theorem contains_of_addPlural?_eq_none
    {id : Text} {forms : List (Quantity × Text)} {mode : EscapeMode}
    (h : document.addPlural? id forms mode = .ok none) :
    document.contains .plurals id = true := by
  unfold addPlural? at h
  split at h
  · cases h
  · split at h
    · assumption
    · rcases Success.map_eq_ok_iff.mp h with ⟨_, _, hsome⟩
      cases hsome

/-- A command that succeeds writes the element of its entry, or keeps the entry that is there. -/
theorem writes_or_keeps
    (hcreates : command.creates? = some key)
    (hok : (document.perform command).result = .ok outcome) :
    (document.writesElement command = true ∧
      document.Writes key (command.element document.lineEnding)
        (document.perform command).document) ∨
      document.writesElement command = false ∧
        document.Keeps key command.stored (document.perform command).document := by
  cases command with
  | setOrCreate id value mode =>
      cases hcreates
      have hedit : document.setOrCreate id value mode =
          .ok (document.perform (.setOrCreate id value mode)).document := eq_of_whole hok
      generalize (document.perform (.setOrCreate id value mode)).document = edited at hedit ⊢
      unfold setOrCreate at hedit
      split at hedit
      · cases hedit
      · rename_i stored hstored
        rw [eq_of_storedValue hstored] at hedit
        split at hedit
        · rename_i hcontains
          exact .inr ⟨by simp [writesElement, hcontains], .string rfl _ List.mem_cons_self hedit⟩
        · rename_i hnew
          rw [Bool.not_eq_true] at hnew
          exact .inl ⟨by simp [writesElement, hnew], .among hnew hedit⟩
  | add id value mode =>
      cases hcreates
      rcases eq_or_eq_of_wholeOrSkipped hok with hedit | ⟨hnone, hsame⟩
      · rcases add?_eq_some_iff.mp hedit with ⟨_, hnew, hinsert⟩
        exact .inl ⟨by simp [writesElement, hnew], .among hnew hinsert⟩
      · have hcontains := contains_of_add?_eq_none hnone
        exact .inr ⟨by simp [writesElement, hcontains], .skipped hcontains hsame⟩
  | addPlural id forms mode =>
      cases hcreates
      rcases eq_or_eq_of_wholeOrSkipped hok with hedit | ⟨hnone, hsame⟩
      · rcases addPlural?_eq_some_iff.mp hedit with ⟨items, hitems, hnew, hinsert⟩
        rw [eq_of_storedForms hitems] at hinsert
        exact .inl ⟨by simp [writesElement, hnew], .among hnew hinsert⟩
      · have hcontains := contains_of_addPlural?_eq_none hnone
        exact .inr ⟨by simp [writesElement, hcontains], .skipped hcontains hsame⟩
  | setPlurals id forms mode =>
      cases hcreates
      cases hitems : storedForms id mode forms with
      | error fault =>
          rw [perform, setPlurals, hitems] at hok
          cases hok
      | ok items =>
          have hperform : document.setPlurals id forms mode = _ := setPlurals_of_stored hitems
          rw [eq_of_storedForms hitems] at hperform
          rw [perform, hperform] at hok ⊢
          cases hfind : document.find? .plurals id with
          | none =>
              have hnew : document.contains .plurals id = false := by rw [contains, hfind]; rfl
              rw [hfind] at hok
              exact .inl ⟨by simp [writesElement, hfind], .among hnew (eq_of_whole hok)⟩
          | some node =>
              rw [hfind] at hok
              cases hclosed : node.selfClosing with
              | true =>
                  simp only [hclosed, if_true] at hok ⊢
                  exact .inl ⟨by simp [writesElement, hfind, hclosed],
                    .inPlace node hfind hclosed (eq_of_whole hok)⟩
              | false =>
                  simp only [hclosed, Bool.false_eq_true, if_false] at hok ⊢
                  refine .inr ⟨by simp [writesElement, hfind, hclosed],
                    .plurals rfl node hfind hclosed _ ?_ outcome
                      (congrArg (SteppedEdit.mk _) hok)⟩
                  rw [List.forall_mem_map]
                  exact fun form hform => List.mem_map_of_mem hform
  | _ => cases hcreates

/-- An addition that may store its values finds nothing to do exactly where there is its entry. -/
theorem perform_eq_skipped_iff
    {entry : Entry}
    (hadded : command.added? = some entry)
    (hvalid : forall value, value ∈ command.values -> Value.validate value = .ok ()) :
    document.perform command = ⟨document, .ok .skipped⟩ ↔
      document.contains entry.key.1 entry.key.2 = true := by
  constructor
  · intro hskipped
    have hnone : forall {result : Except Error (Option Document)},
        document.wholeOrSkipped result = ⟨document, .ok .skipped⟩ -> result = .ok none := by
      intro result h
      cases result with
      | error fault => cases congrArg SteppedEdit.result h
      | ok made =>
          cases made with
          | none => rfl
          | some new => cases congrArg SteppedEdit.result h
    cases command with
    | add id value mode =>
        rw [← Option.some.inj hadded]
        exact contains_of_add?_eq_none (hnone hskipped)
    | addPlural id forms mode =>
        rw [← Option.some.inj hadded]
        exact contains_of_addPlural?_eq_none (hnone hskipped)
    | _ => cases hadded
  · intro hcontains
    cases command with
    | add id value mode =>
        rw [← Option.some.inj hadded] at hcontains
        replace hcontains : document.contains .string id = true := hcontains
        rw [perform, add?, storedValue_of_valid (hvalid value List.mem_cons_self)]
        simp only [hcontains, if_true]
        rfl
    | addPlural id forms mode =>
        rw [← Option.some.inj hadded] at hcontains
        replace hcontains : document.contains .plurals id = true := hcontains
        rw [perform, addPlural?, storedForms_of_valid hvalid]
        simp only [hcontains, if_true]
        rfl
    | _ => cases hadded

end Commands

/-!
# Main statement
-/

/-- An entry that a command has made, or has stored something in, is there, unless its element has
been written for an id with a reference: then there is what was there besides.  Only where the
entry is there does an addition for it have nothing to do. -/
theorem contains_perform_iff
    {text : Text} {document : Document} {command : EditCommand} {key : EntryKind.Key}
    {outcome : EditOutcome}
    (hplain : PlainStart text)
    (hparse : parse text = .ok document)
    (hcreates : command.creates? = some key)
    (hok : (document.perform command).result = .ok outcome)
    (hquote : document.writesElement command = true -> '"' ∉ key.2)
    (hstored : document.writesElement command = true -> '&' ∈ key.2 ->
      forall stored, stored ∈ command.stored -> Fragment stored) :
    ((document.perform command).document.contains key.1 key.2 = true ↔
      (document.writesElement command = true ->
        '&' ∉ key.2 ∨ 1 < document.order.count key)) ∧
      forall (again : EditCommand) (entry : Entry),
        again.added? = some entry -> entry.key = key ->
          (forall value, value ∈ again.values -> Value.validate value = .ok ()) ->
            ((document.perform command).document.perform again =
                ⟨(document.perform command).document, .ok .skipped⟩ ↔
              (document.perform command).document.contains key.1 key.2 = true) := by
  have htext := text_of_parse hparse
  rw [← htext] at hplain
  have hread := isRead_of_parse hparse
  constructor
  · rcases writes_or_keeps hcreates hok with ⟨hwritten, hwrites⟩ | ⟨hkept, hkeeps⟩
    · rcases exists_laidOut hplain hread with ⟨row, hlaid⟩
      have hid := hquote hwritten
      simp only [hwritten, forall_const]
      by_cases hreference : '&' ∈ key.2
      · rcases EditCommand.exists_inside_of_stored hcreates (hstored hwritten hreference)
          document.lineEnding with ⟨inside, hinside, hraw⟩
        rw [← hraw] at hwrites
        have hcount := hwrites.count_order hlaid hinside hid hreference
        rw [← mem_order_iff, ← List.count_pos_iff, hcount]
        simp only [hreference, not_true_eq_false, false_or]
        omega
      · rcases EditCommand.exists_element_eq hcreates document.lineEnding with ⟨tail, helement⟩
        rw [helement] at hwrites
        exact iff_of_true (hwrites.contains hlaid ⟨hid, hreference⟩) (.inl hreference)
    · refine iff_of_true (hkeeps.contains hplain hread) ?_
      rw [hkept]
      exact fun hwritten => absurd hwritten Bool.false_ne_true
  · intro again entry hadded hkey hvalid
    rw [← hkey]
    exact perform_eq_skipped_iff hadded hvalid

/-- The element closes itself, and its id has a quote of the other kind. -/
theorem contains_perform_iff_apostrophe :
    exists document edited : Document,
      parse "<resources><plurals name=\"it's\"/></resources>".toList = .ok document ∧
        document.perform (.setPlurals "it's".toList [(.one, "<b>x</b>".toList)] .raw) =
          ⟨edited, .ok .applied⟩ ∧
        edited.contains .plurals "it's".toList = true ∧
        edited.perform (.addPlural "it's".toList [] .raw) = ⟨edited, .ok .skipped⟩ := by
  let command : EditCommand := .setPlurals "it's".toList [(.one, "<b>x</b>".toList)] .raw
  have hread : (parse "<resources><plurals name=\"it's\"/></resources>".toList).map
      (fun document => (document.perform command).result) = .ok (.ok .applied) := by
    decide +kernel
  rcases Success.map_eq_ok_iff.mp hread with ⟨document, hparse, hok⟩
  have hiff := contains_perform_iff (by decide) hparse (rfl : command.creates? = some _) hok
    (fun _ => by decide) (fun _ hreference => absurd hreference (by decide))
  have hcontains := hiff.1.mpr fun _ => .inl (by decide)
  have hskipped := hiff.2 (.addPlural "it's".toList [] .raw) _ rfl rfl
    (by simp [EditCommand.values])
  exact ⟨document, _, hparse, congrArg (SteppedEdit.mk _) hok, hcontains,
    hskipped.mpr hcontains⟩

/-- An id that stands for another one. -/
def referenceAddition : EditCommand :=
  .add "a&amp;b".toList "x".toList .escaped

/-- The entry gets the other id, time and again. -/
theorem not_contains_perform_reference :
    exists document : Document,
      parse "<resources></resources>".toList = .ok document ∧
        (document.perform referenceAddition).result = .ok .applied ∧
        (document.perform referenceAddition).document.contains .string "a&amp;b".toList = false ∧
        ((document.perform referenceAddition).document.perform referenceAddition).result =
          .ok .applied ∧
        (document.performAll [referenceAddition, referenceAddition]).order =
          [(.string, "a&b".toList), (.string, "a&b".toList)] := by
  have hread : (parse "<resources></resources>".toList).map (fun document => decide
      ((document.perform referenceAddition).result = .ok .applied ∧
        (document.perform referenceAddition).document.contains .string "a&amp;b".toList = false ∧
        ((document.perform referenceAddition).document.perform referenceAddition).result =
          .ok .applied ∧
        (document.performAll [referenceAddition, referenceAddition]).order =
          [(.string, "a&b".toList), (.string, "a&b".toList)])) = .ok true := by
    decide +kernel
  rcases Success.map_eq_ok_iff.mp hread with ⟨document, hparse, hfacts⟩
  exact ⟨document, hparse, of_decide_eq_true hfacts⟩

end Document
end AndroidStrings
