import AndroidStrings.Proofs.Document.CreatedEntry

/-!
# Forms that are merged

Forms that are stored in a plurals element change the one element.  Its items stay where they are,
the first item of a quantity takes what is stored of the quantity last, and new items follow behind
them in the order in which their quantities come up.

## Main statements

- `LaidOut.exists_storedItems` : the forms of an element in which forms have been stored.
- `setPlurals_merges` : where no quantity has two items, the new forms override the old ones.
-/

namespace AndroidStrings

open Markup

namespace Node

/-- The quantities of the items of a plurals element. -/
def quantities (node : Node) : List Quantity :=
  node.items.filterMap ItemNode.quantity

/-- The items of a plurals element have the quantities of forms, and the entry is read from them. -/
structure HasForms (node : Node) (forms : List (Quantity × Text)) : Prop where
  items : node.items.map ItemNode.quantity = forms.map fun form => some form.1
  value : node.entry.value = .plural (.ofList forms)

theorem HasForms.quantities_eq
    {node : Node} {forms : List (Quantity × Text)}
    (h : node.HasForms forms) :
    node.quantities = forms.map Prod.fst := by
  have hsome : node.quantities =
      (node.items.map ItemNode.quantity).filterMap fun quantity => quantity := by
    rw [List.filterMap_map]
    rfl
  rw [hsome, h.items, List.filterMap_map, ← List.filterMap_eq_map]
  rfl

end Node

theorem PluralsSite.Reads.hasForms
    {site : PluralsSite} {document : Document} {inside : Forest} {node : Node}
    {items : List ReadItem} {forms : List (Quantity × Text)}
    (h : site.Reads document inside node items forms) :
    node.HasForms forms where
  items := by
    have hquantities := congrArg (List.map Prod.fst) h.forms_eq
    rw [List.map_map, List.map_map] at hquantities
    rw [h.items_eq, List.map_map]
    exact hquantities
  value := by rw [h.entry]

/-- The entries of a document around those of one element. -/
theorem PluralsSite.Reads.entries_eq
    {site : PluralsSite} {document : Document} {inside : Forest} {node : Node}
    {items : List ReadItem} {forms : List (Quantity × Text)}
    (h : site.Reads document inside node items forms)
    (hlaid : document.LaidOut (site.rowWith inside)) :
    document.entries = site.front.flatMap Segment.entries ++
      node.entry :: site.back.flatMap Segment.entries := by
  rw [hlaid.entries_eq, rowWith, List.flatMap_append, List.flatMap_cons, h.entries,
    List.singleton_append]

namespace Document

/-- What is done with forms whose values are accepted. -/
theorem setPlurals_of_stored
    {document : Document} {id : Text} {forms items : List (Quantity × Text)} {mode : EscapeMode}
    (h : storedForms id mode forms = .ok items) :
    document.setPlurals id forms mode =
      match document.find? .plurals id with
      | none => document.whole
          (document.insertEntry (pluralsElement id items document.lineEnding))
      | some node =>
          if node.selfClosing then
            document.whole
              (document.splice node.outer (pluralsElement id items document.lineEnding))
          else document.setQuantities id items := by
  cases hfind : document.find? .plurals id <;> simp only [setPlurals, h, hfind]

/-- Items that are stored in a plurals element change its forms, and nothing else in the
document. -/
theorem LaidOut.exists_storedItems
    {document : Document} {row : List Segment} {id : Text} {node : Node}
    {items : List (Quantity × Text)}
    (h : document.LaidOut row)
    (hfind : document.find? .plurals id = some node)
    (hopen : node.selfClosing = false)
    (hitems : forall item, item ∈ items -> Balanced item.2) :
    exists (edited : Document) (node' : Node) (forms : List (Quantity × Text))
        (front back : List Entry),
      document.setQuantities id items = ⟨edited, .ok .applied⟩ ∧
        edited.find? .plurals id = some node' ∧
        node.HasForms forms ∧ node'.HasForms (storeForms items forms) ∧
        node'.entry.id = node.entry.id ∧ node'.entry.translatable = node.entry.translatable ∧
        document.entries = front ++ node.entry :: back ∧
        edited.entries = front ++ node'.entry :: back := by
  rcases h.exists_pluralsSite hfind hopen with ⟨site, inside, rfl, rfl⟩
  rcases PluralsSite.exists_reads h with ⟨found, read, forms, hreads⟩
  obtain rfl : found = node := Option.some.inj (hreads.find.symm.trans hfind)
  have hforms := hasForms_of_itemsFrom hreads.read hreads.forms_eq
  rcases PluralsSite.exists_setQuantities h hforms hitems with
    ⟨edited, inside', hedited, hlaid, hstored⟩
  rcases PluralsSite.exists_reads hlaid with ⟨node', read', forms', hreads'⟩
  obtain rfl := hstored.unique (hasForms_of_itemsFrom hreads'.read hreads'.forms_eq)
  exact ⟨edited, node', forms, _, _, hedited, hreads'.find, hreads.hasForms, hreads'.hasForms,
    by rw [hreads'.entry, hreads.entry], by rw [hreads'.entry, hreads.entry],
    hreads.entries_eq h, hreads'.entries_eq hlaid⟩

/-!
# Main statement
-/

/-- Where no quantity has two items, forms that are stored in a plurals element override its forms,
of several of one quantity the last.  No quantity has two items then, the items that are there keep
their places, and new ones follow in the order in which their quantities come up.  The other entries
stay as they are, and so does the flag of this one. -/
theorem setPlurals_merges
    {text id : Text} {document : Document} {node : Node} {forms : List (Quantity × Text)}
    {mode : EscapeMode}
    (hplain : PlainStart text)
    (hparse : parse text = .ok document)
    (hfind : document.find? .plurals id = some node)
    (hopen : node.selfClosing = false)
    (hnodup : node.quantities.Nodup)
    (hvalid : forall form, form ∈ forms -> Value.validate form.2 = .ok ())
    (hfragments : forall form, form ∈ forms -> Fragment (mode.apply form.2)) :
    exists (edited : Document) (node' : Node) (old merged : Plural) (front back : List Entry),
      document.setPlurals id forms mode = ⟨edited, .ok .applied⟩ ∧
        edited.find? .plurals id = some node' ∧
        node.entry = ⟨id, .plural old, node.entry.translatable⟩ ∧
        node'.entry = ⟨id, .plural merged, node.entry.translatable⟩ ∧
        (forall quantity : Quantity,
          merged.get? quantity =
            ((lastForm? quantity forms).map mode.apply).or (old.get? quantity)) ∧
        node'.quantities.Nodup ∧
        node'.quantities =
          node.quantities ++ newQuantities (forms.map Prod.fst) node.quantities ∧
        document.entries = front ++ node.entry :: back ∧
        edited.entries = front ++ node'.entry :: back := by
  have htext := text_of_parse hparse
  rcases exists_laidOut (htext ▸ hplain) (isRead_of_parse hparse) with ⟨row, hlaid⟩
  have hstored : storedForms id mode forms =
      .ok (forms.map fun form => (form.1, mode.apply form.2)) := by
    apply storedForms_of_valid
    intro value hvalue
    rcases List.mem_map.mp hvalue with ⟨form, hform, rfl⟩
    exact hvalid form hform
  have hbalanced := balanced_storedForms hfragments hstored
  rcases hlaid.exists_storedItems hfind hopen hbalanced with
    ⟨edited, node', old, front, back, hedited, hfind', hold, hnew, hid, htranslatable, hbefore,
      hafter⟩
  have hnamed : (forms.map fun form => (form.1, mode.apply form.2)).map Prod.fst =
      forms.map Prod.fst := by
    rw [List.map_map]
    rfl
  have hknown : (old.map Prod.fst).Nodup := hold.quantities_eq ▸ hnodup
  have hnode : node.id = id := (matches_of_find? hfind).2
  let items := forms.map fun form => (form.1, mode.apply form.2)
  refine ⟨edited, node', .ofList old, .ofList (storeForms items old), front, back, ?_, hfind', ?_,
    ?_, ?_, ?_, ?_, hbefore, hafter⟩
  · simp only [setPlurals_of_stored hstored, hfind, hopen, Bool.false_eq_true, if_false]
    exact hedited
  · rw [← hold.value, ← hnode]
    rfl
  · rw [← hnew.value, ← htranslatable, ← hnode, Node.id, ← hid]
  · intro quantity
    rw [Plural.get?_ofList, Plural.get?_ofList, lastForm?_storeForms hknown, lastForm?_map]
  · rw [hnew.quantities_eq]
    exact nodup_storeForms hknown _
  · rw [hnew.quantities_eq, map_fst_storeForms, hnamed, hold.quantities_eq]

/-- One form goes into an item that closes itself, and is replaced then; two get items of their own,
in the first of two elements of one name. -/
theorem setPlurals_merges_selfClosing :
    exists (document edited : Document) (node : Node) (merged : Plural),
      parse ("<resources>\n<plurals name=\"a\" translatable=\"false\">\n".toList ++
          "  <item quantity=\"one\">x</item><item quantity=\"few\" /><!-- c -->\n".toList ++
          "  </plurals><plurals name=\"a\"/><string name=\"a\">s</string></resources>".toList) =
        .ok document ∧
        document.setPlurals "a".toList [(.few, "u".toList), (.zero, "<b>v</b>".toList),
          (.few, "w".toList), (.other, [])] .raw = ⟨edited, .ok .applied⟩ ∧
        edited.find? .plurals "a".toList = some node ∧
        node.quantities = [.one, .few, .zero, .other] ∧
        node.entry = ⟨"a".toList, .plural merged, false⟩ ∧
        merged.get? .one = some "x".toList ∧ merged.get? .few = some "w".toList ∧
        merged.get? .zero = some "<b>v</b>".toList ∧ merged.get? .other = some [] := by
  let text := "<resources>\n<plurals name=\"a\" translatable=\"false\">\n".toList ++
    "  <item quantity=\"one\">x</item><item quantity=\"few\" /><!-- c -->\n".toList ++
    "  </plurals><plurals name=\"a\"/><string name=\"a\">s</string></resources>".toList
  have hread : (parse text).map (fun document =>
      (document.find? .plurals "a".toList).map fun node =>
        (node.selfClosing, node.quantities, node.entry)) =
      .ok (some (false, [.one, .few],
        ⟨"a".toList, .plural (.ofList [(.one, "x".toList), (.few, [])]), false⟩)) := by
    decide +kernel
  rcases Success.map_eq_ok_iff.mp hread with ⟨document, hparse, hfound⟩
  rcases Option.map_eq_some_iff.mp hfound with ⟨node, hfind, hnode⟩
  rw [Prod.mk.injEq, Prod.mk.injEq] at hnode
  rcases hnode with ⟨hopen, hquantities, hentry⟩
  have hbold : Fragment "<b>v</b>".toList :=
    @Fragment.of_element "b".toList "v".toList ⟨by decide, by decide⟩ (.of_text (by decide))
  have hfragments : forall form : Quantity × Text,
      form ∈ [(.few, "u".toList), (.zero, "<b>v</b>".toList), (.few, "w".toList), (.other, [])] ->
        Fragment (EscapeMode.raw.apply form.2) := by
    intro form hform
    simp only [List.mem_cons, List.not_mem_nil, or_false] at hform
    rcases hform with rfl | rfl | rfl | rfl
    · exact Fragment.of_text (by decide)
    · exact hbold
    · exact Fragment.of_text (by decide)
    · exact .empty
  rcases setPlurals_merges (by decide) hparse hfind hopen (by rw [hquantities]; decide)
    (by decide +kernel) hfragments with
    ⟨edited, node', old, merged, _, _, hedited, hfind', hold, hnew, hmerged, _, hall, _⟩
  rw [hentry, Entry.mk.injEq, EntryValue.plural.injEq] at hold
  rw [← hold.2.1] at hmerged
  rw [hentry] at hnew
  refine ⟨document, edited, node', merged, hparse, hedited, hfind', ?_, hnew, ?_, ?_, ?_, ?_⟩
  · rw [hall, hquantities]
    decide +kernel
  all_goals
    rw [hmerged]
    rfl

end Document
end AndroidStrings
