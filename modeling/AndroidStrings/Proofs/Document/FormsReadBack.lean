import AndroidStrings.Proofs.Document.MergedForms

/-!
# Forms that are read back

The writer takes the first item of a quantity, and the reader the last one.  So what has been stored
is read again unless the element has had several items of the quantity, and the last of them says
something else.

## Main statements

- `getPlurals_of_entries` : the first plurals entry of an id is what is read.
- `readsBack_setPlurals_iff` : when the forms that have been stored are read.
- `setPlurals_secondItem` : a form that is not.
-/

namespace AndroidStrings

open Markup

namespace Document

/-- What is stored last of each quantity among forms is read in a document. -/
def ReadsBack (document : Document) (id : Text) (forms : List (Quantity × Text))
    (mode : EscapeMode) : Prop :=
  exists plural : Plural,
    document.getPlurals id = .ok plural ∧
      forall quantity, quantity ∈ forms.map Prod.fst ->
        plural.get? quantity = (lastForm? quantity forms).map mode.apply

theorem getPlurals_of_find?
    {document : Document} {id : Text} {node : Node} {plural : Plural}
    (hfind : document.find? .plurals id = some node)
    (hvalue : node.entry.value = .plural plural) :
    document.getPlurals id = .ok plural := by
  simp only [getPlurals, hfind, hvalue]

theorem exists_plural_of_find?
    {document : Document} {id : Text} {node : Node}
    (hfind : document.find? .plurals id = some node) :
    exists plural : Plural, node.entry.value = .plural plural := by
  have hkind : node.entry.value.kind = .plurals := (matches_of_find? hfind).1
  cases hvalue : node.entry.value with
  | plural plural => exact ⟨plural, rfl⟩
  | _ => simp [hvalue, EntryValue.kind] at hkind

/-- The first plurals entry of an id is what is read. -/
theorem getPlurals_of_entries
    {document : Document} {id : Text} {plural : Plural} {translatable : Bool}
    {front back : List Entry}
    (h : document.entries = front ++ ⟨id, .plural plural, translatable⟩ :: back)
    (hfront : forall entry, entry ∈ front -> (entry.kind == .plurals && entry.id == id) = false) :
    document.getPlurals id = .ok plural := by
  rcases List.map_eq_append_iff.mp h with ⟨before, rest, hnodes, hbefore, hrest⟩
  rcases List.map_eq_cons_iff.mp hrest with ⟨node, after, rfl, hentry, _⟩
  have hkind : node.kind = .plurals := by
    rw [Node.kind, hentry]
    rfl
  have hid : node.id = id := by
    rw [Node.id, hentry]
  have hfind := find?_of_nodes hnodes (by rwa [hbefore, hkind, hid])
  rw [hkind, hid] at hfind
  exact getPlurals_of_find? hfind (by rw [hentry])

/-- A new element, or one that is written anew, has the forms that are stored. -/
theorem readsBack_of_entries
    {document : Document} {id : Text} {forms : List (Quantity × Text)} {mode : EscapeMode}
    {front back : List Entry}
    (h : document.entries = front ++
      ⟨id, .plural (.ofList (forms.map fun form => (form.1, mode.apply form.2))), true⟩ :: back)
    (hfront : forall entry, entry ∈ front -> (entry.kind == .plurals && entry.id == id) = false) :
    document.ReadsBack id forms mode :=
  ⟨_, getPlurals_of_entries h hfront, fun quantity _ => get?_ofList_stored mode forms quantity⟩

section SetPlurals

variable {document : Document} {row : List Segment} {id : Text} {node : Node}
  {forms : List (Quantity × Text)} {mode : EscapeMode} {outcome : EditOutcome}

theorem storedForms_of_result
    (h : (document.setPlurals id forms mode).result = .ok outcome) :
    storedForms id mode forms = .ok (forms.map fun form => (form.1, mode.apply form.2)) := by
  cases hitems : storedForms id mode forms with
  | error fault =>
      rw [setPlurals, hitems] at h
      cases h
  | ok items => rw [eq_of_storedForms hitems]

/-- Where there was no element, what has been stored is read. -/
theorem LaidOut.readsBack_of_absent
    (h : document.LaidOut row)
    (hid : CommandLine.isValidId id = true)
    (hfragments : forall form, form ∈ forms -> Fragment (mode.apply form.2))
    (hfind : document.find? .plurals id = none)
    (hresult : (document.setPlurals id forms mode).result = .ok outcome) :
    (document.setPlurals id forms mode).document.ReadsBack id forms mode := by
  have hitems := storedForms_of_result hresult
  rcases exists_newPlurals hid (forall_storedForms hfragments hitems) document.lineEnding with
    ⟨segment, hraw, hmakes⟩
  simp only [setPlurals_of_stored hitems, hfind, ← hraw] at hresult ⊢
  cases hinsert : document.insertEntry segment.raw with
  | error fault =>
      rw [hinsert] at hresult
      cases hresult
  | ok edited =>
      rcases h.exists_insertedEntry hmakes.isBlock hmakes.fits hmakes.entries hinsert with
        ⟨_, front, back, _, _, hbefore, hafter⟩
      refine readsBack_of_entries hafter ?_
      intro entry hentry
      have hmem : entry ∈ document.entries := hbefore ▸ List.mem_append_left back hentry
      rcases List.mem_map.mp hmem with ⟨node, hnode, rfl⟩
      exact Bool.not_eq_true _ ▸ List.find?_eq_none.mp hfind node hnode

theorem LaidOut.quantities_of_selfClosing
    (h : document.LaidOut row)
    (hfind : document.find? .plurals id = some node)
    (hclosed : node.selfClosing = true) :
    node.quantities = [] := by
  rcases h.exists_nodeSplit hfind with ⟨front, segment, back, before, after, rfl, hsplit⟩
  rcases hsplit.form with ⟨_, _, _, _, _, hmade⟩ | ⟨_, _, _, _, _, hnode⟩
  · rw [Segment.selfClosing_of_elementNode hmade] at hclosed
    cases hclosed
  · rw [hnode]
    rfl

/-- Where the element closed itself, what has been stored is read. -/
theorem LaidOut.readsBack_of_selfClosing
    (h : document.LaidOut row)
    (hid : CommandLine.isValidId id = true)
    (hfragments : forall form, form ∈ forms -> Fragment (mode.apply form.2))
    (hfind : document.find? .plurals id = some node)
    (hclosed : node.selfClosing = true)
    (hresult : (document.setPlurals id forms mode).result = .ok outcome) :
    (document.setPlurals id forms mode).document.ReadsBack id forms mode := by
  have hitems := storedForms_of_result hresult
  have hbalanced := balanced_storedForms hfragments hitems
  rcases h.exists_rewrittenPlurals hfind hclosed (isVerbatim_of_isValidId hid) hbalanced with
    ⟨edited, front, _, segment, back, hedited, _, hlaid, _, hentries, hfront⟩
  simp only [setPlurals_of_stored hitems, hfind, hclosed, if_true, hedited]
  have hread := hlaid.entries_eq
  rw [List.flatMap_append, List.flatMap_cons, hentries, List.singleton_append] at hread
  exact readsBack_of_entries hread hfront

/-- Where the element had items, what has been stored of a quantity is read unless the element has
had several items of it, and the last of them says something else. -/
theorem LaidOut.readsBack_iff_of_open
    {plural : Plural}
    (h : document.LaidOut row)
    (hfragments : forall form, form ∈ forms -> Fragment (mode.apply form.2))
    (hfind : document.find? .plurals id = some node)
    (hopen : node.selfClosing = false)
    (hvalue : node.entry.value = .plural plural)
    (hresult : (document.setPlurals id forms mode).result = .ok outcome) :
    (document.setPlurals id forms mode).document.ReadsBack id forms mode ↔
      forall quantity, quantity ∈ forms.map Prod.fst ->
        node.quantities.count quantity ≤ 1 ∨
          plural.get? quantity = (lastForm? quantity forms).map mode.apply := by
  have hitems := storedForms_of_result hresult
  have hbalanced := balanced_storedForms hfragments hitems
  rcases h.exists_storedItems hfind hopen hbalanced with
    ⟨edited, node', old, _, _, hedited, hfind', hold, hnew, _⟩
  have hget : edited.getPlurals id = .ok (.ofList (storeForms _ old)) :=
    getPlurals_of_find? hfind' hnew.value
  have hplural : plural = .ofList old := EntryValue.plural.inj (hvalue.symm.trans hold.value)
  simp only [setPlurals_of_stored hitems, hfind, hopen, Bool.false_eq_true, if_false, hedited]
  -- One quantity on its own.
  have hquantity : forall quantity, quantity ∈ forms.map Prod.fst ->
      ((Plural.ofList (storeForms (forms.map fun form => (form.1, mode.apply form.2)) old)).get?
          quantity = (lastForm? quantity forms).map mode.apply ↔
        node.quantities.count quantity ≤ 1 ∨
          plural.get? quantity = (lastForm? quantity forms).map mode.apply) := by
    intro quantity hmem
    rcases exists_lastForm? hmem with ⟨value, hlast⟩
    have hstored : lastForm? quantity (forms.map fun form => (form.1, mode.apply form.2)) =
        some (mode.apply value) := by
      rw [lastForm?_map, hlast, Option.map_some]
    rw [hlast, Option.map_some, hold.quantities_eq, hplural, Plural.get?_ofList,
      Plural.get?_ofList, lastForm?_storeForms_of_some hstored]
  constructor
  · rintro ⟨found, hfound, hforms⟩ quantity hmem
    rw [hget, Except.ok.injEq] at hfound
    exact (hquantity quantity hmem).mp (hfound ▸ hforms quantity hmem)
  · intro hforms
    exact ⟨_, hget, fun quantity hmem => (hquantity quantity hmem).mpr (hforms quantity hmem)⟩

end SetPlurals

/-!
# Main statement
-/

/-- What has been stored of each quantity is read exactly if the element, where there was one, had
no second item of the quantity, or said the same of the quantity before. -/
theorem readsBack_setPlurals_iff
    {text id : Text} {document : Document} {forms : List (Quantity × Text)} {mode : EscapeMode}
    {outcome : EditOutcome}
    (hplain : PlainStart text)
    (hparse : parse text = .ok document)
    (hid : CommandLine.isValidId id = true)
    (hfragments : forall form, form ∈ forms -> Fragment (mode.apply form.2))
    (hresult : (document.setPlurals id forms mode).result = .ok outcome) :
    (document.setPlurals id forms mode).document.ReadsBack id forms mode ↔
      forall (node : Node) (plural : Plural),
        document.find? .plurals id = some node -> node.entry.value = .plural plural ->
          forall quantity, quantity ∈ forms.map Prod.fst ->
            node.quantities.count quantity ≤ 1 ∨
              plural.get? quantity = (lastForm? quantity forms).map mode.apply := by
  have htext := text_of_parse hparse
  rcases exists_laidOut (htext ▸ hplain) (isRead_of_parse hparse) with ⟨row, hlaid⟩
  cases hfind : document.find? .plurals id with
  | none =>
      refine iff_of_true (hlaid.readsBack_of_absent hid hfragments hfind hresult) ?_
      intro node plural hnode
      cases hnode
  | some node =>
      rw [forall_comm]
      cases hclosed : node.selfClosing with
      | true =>
          refine iff_of_true
            (hlaid.readsBack_of_selfClosing hid hfragments hfind hclosed hresult) ?_
          rintro plural _ ⟨⟩ _ quantity _
          rw [hlaid.quantities_of_selfClosing hfind hclosed]
          exact .inl (Nat.zero_le 1)
      | false =>
          rcases exists_plural_of_find? hfind with ⟨plural, hvalue⟩
          rw [hlaid.readsBack_iff_of_open hfragments hfind hclosed hvalue hresult]
          constructor
          · rintro hforms other _ ⟨⟩ hother
            rw [hvalue, EntryValue.plural.injEq] at hother
            exact hother ▸ hforms
          · intro hforms
            exact hforms plural node rfl hvalue

/-- An element with two items of a quantity of which nothing is stored, and one of another. -/
theorem readsBack_setPlurals_iff_twoItems :
    exists document : Document,
      parse ("<resources><plurals name=\"a\"><item quantity=\"one\">x</item>".toList ++
          "<item quantity=\"one\">y</item><item quantity=\"few\"/></plurals></resources>".toList) =
        .ok document ∧
        (document.setPlurals "a".toList [(.few, "u".toList), (.other, "v".toList),
          (.few, "w".toList)] .raw).document.ReadsBack "a".toList
            [(.few, "u".toList), (.other, "v".toList), (.few, "w".toList)] .raw := by
  let forms : List (Quantity × Text) :=
    [(.few, "u".toList), (.other, "v".toList), (.few, "w".toList)]
  have hread : (parse
      ("<resources><plurals name=\"a\"><item quantity=\"one\">x</item>".toList ++
        "<item quantity=\"one\">y</item><item quantity=\"few\"/></plurals></resources>".toList)).map
      (fun document => ((document.find? .plurals "a".toList).map Node.quantities,
        (document.setPlurals "a".toList forms .raw).result)) =
      .ok (some [.one, .one, .few], .ok .applied) := by
    decide +kernel
  rcases Success.map_eq_ok_iff.mp hread with ⟨document, hparse, hfacts⟩
  rw [Prod.mk.injEq] at hfacts
  have hfragments : forall form, form ∈ forms -> Fragment (EscapeMode.raw.apply form.2) := by
    intro form hform
    simp only [forms, List.mem_cons, List.not_mem_nil, or_false] at hform
    rcases hform with rfl | rfl | rfl
    · exact Fragment.of_text (by decide)
    · exact Fragment.of_text (by decide)
    · exact Fragment.of_text (by decide)
  refine ⟨document, hparse,
    (readsBack_setPlurals_iff (by decide) hparse (by decide) hfragments hfacts.2).mpr ?_⟩
  intro node plural hfind _ quantity hquantity
  rw [hfind, Option.map_some, Option.some.injEq] at hfacts
  rw [hfacts.1]
  left
  revert quantity
  decide

/-- The first item of the quantity takes the form, and the second one is read. -/
theorem setPlurals_secondItem :
    exists document edited : Document,
      parse ("<resources><plurals name=\"a\"><item quantity=\"one\">x</item>".toList ++
          "<item quantity=\"one\">y</item></plurals></resources>".toList) = .ok document ∧
        CommandLine.isValidId "a".toList = true ∧
        Fragment (EscapeMode.raw.apply "z".toList) ∧
        document.setPlurals "a".toList [(.one, "z".toList)] .raw = ⟨edited, .ok .applied⟩ ∧
        edited.getPlurals "a".toList = .ok { one := some "y".toList } ∧
        ¬ edited.ReadsBack "a".toList [(.one, "z".toList)] .raw := by
  have hrun : (parse ("<resources><plurals name=\"a\"><item quantity=\"one\">x</item>".toList ++
      "<item quantity=\"one\">y</item></plurals></resources>".toList)).map (fun document =>
        let left := document.setPlurals "a".toList [(.one, "z".toList)] .raw
        (left.result, left.document.getPlurals "a".toList)) =
      .ok (.ok .applied, .ok { one := some "y".toList }) := by
    decide +kernel
  rcases Success.map_eq_ok_iff.mp hrun with ⟨document, hparse, hleft⟩
  simp only [Prod.mk.injEq] at hleft
  refine ⟨document, _, hparse, by decide, Fragment.of_text (by decide), ?_,
    hleft.2, ?_⟩
  · rw [← hleft.1]
  · rintro ⟨plural, hplural, hforms⟩
    rw [hleft.2, Except.ok.injEq] at hplural
    have hone := hforms .one (by decide)
    rw [← hplural] at hone
    exact absurd hone (by decide)

end Document
end AndroidStrings
