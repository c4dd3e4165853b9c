import AndroidStrings.Proofs.Document.FormList
import AndroidStrings.Proofs.Document.NewEntry
import AndroidStrings.Proofs.Document.Removal

/-!
# Forms of a plurals element

A form that is stored in a plurals element takes the place of the value of its item, or it goes
with an item of its own before the end tag of the element.  Either way the forest in the element
is a forest again and its items are read as the old ones with this form, so an edit of many forms
changes the one element and nothing around it.

## Main statements

- `exists_item_of_find?` : the first item of a quantity is one tree of the forest.
- `PluralsSite.exists_reads` : how a plurals element is read.
- `PluralsSite.exists_setQuantity` : one form is stored in its element.
- `PluralsSite.exists_setQuantities` : so are many forms.
-/

namespace AndroidStrings

open Markup

/-!
# Items side by side
-/

theorem Markup.Forest.wellFormed_append_iff {front back : Forest} :
    (front ++ back).WellFormed ↔ front.WellFormed ∧ back.WellFormed := by
  constructor
  · intro h
    induction front with
    | nil => exact ⟨trivial, h⟩
    | leaf event rest ih => exact ⟨⟨h.1, h.2.1, (ih h.2.2).1⟩, (ih h.2.2).2⟩
    | element opening inside closing rest _ ih =>
        exact ⟨⟨h.1, h.2.1, (ih h.2.2).1⟩, (ih h.2.2).2⟩
  · intro h
    exact h.1.append h.2

theorem Markup.Forest.append_assoc (front middle back : Forest) :
    front ++ middle ++ back = front ++ (middle ++ back) := by
  induction front with
  | nil => rfl
  | leaf event rest ih => rw [leaf_append, leaf_append, leaf_append, ih]
  | element opening inside closing rest _ ih =>
      rw [element_append, element_append, element_append, ih]

theorem itemsFrom_append (heading : Heading) (start : Nat) (front back : Forest) :
    itemsFrom heading start (front ++ back) =
      itemsFrom heading start front >>= fun items =>
        (itemsFrom heading (start + front.raw.size) back).map (items ++ ·) := by
  have hcons : forall (found : ReadItem) (result result' : Except Error (List ReadItem)),
      (result >>= fun items => result'.map (items ++ ·)).map (found :: ·) =
        result.map (found :: ·) >>= fun items => result'.map (items ++ ·) := by
    intro found result result'
    cases result with
    | error e => rfl
    | ok items => cases result' <;> rfl
  induction front generalizing start with
  | nil =>
      have hsize : start + Forest.nil.raw.size = start := rfl
      rw [Forest.nil_append, itemsFrom, hsize]
      cases itemsFrom heading start back <;> rfl
  | leaf event rest ih =>
      have hsize : start + (Forest.leaf event rest).raw.size =
          start + event.raw.size + rest.raw.size := by
        rw [Forest.raw_leaf, Text.size_append, Nat.add_assoc]
      rw [Forest.leaf_append, hsize]
      cases event with
      | emptyTag content =>
          simp only [itemsFrom, ih]
          split
          · cases itemQuantity heading content with
            | error e => rfl
            | ok quantity => exact hcons _ _ _
          · rfl
      | _ => exact ih _
  | element opening inside closing rest _ ih =>
      have hsize : start + (Forest.element opening inside closing rest).raw.size =
          start + (Event.startTag opening).raw.size + inside.raw.size +
            (Event.endTag closing).raw.size + rest.raw.size := by
        simp only [Forest.raw_element, Text.size_append, Nat.add_assoc]
      rw [Forest.element_append, hsize]
      simp only [itemsFrom, ih]
      split
      · cases itemQuantity heading opening with
        | error e => rfl
        | ok quantity => exact hcons _ _ _
      · rfl

/-!
# The forms of a forest
-/

/-- The items of a forest are read as forms. -/
def Markup.Forest.HasForms (heading : Heading) (forest : Forest)
    (forms : List (Quantity × Text)) : Prop :=
  exists items : List ReadItem,
    itemsFrom heading 0 forest = .ok items ∧
      items.map ReadItem.form = forms.map fun form => (some form.1, form.2)

section HasForms

variable {heading : Heading} {forest front back : Forest} {forms : List (Quantity × Text)}

theorem map_form_shift (offset : Nat) (items : List ReadItem) :
    (items.map (ReadItem.shift offset)).map ReadItem.form = items.map ReadItem.form := by
  rw [List.map_map]
  rfl

theorem hasForms_of_itemsFrom
    {start : Nat} {items : List ReadItem}
    (h : itemsFrom heading start forest = .ok items)
    (hforms : items.map ReadItem.form = forms.map fun form => (some form.1, form.2)) :
    forest.HasForms heading forms := by
  have hshift := itemsFrom_shift heading start 0 forest
  rw [Nat.zero_add, h] at hshift
  rcases Success.map_eq_ok_iff.mp hshift.symm with ⟨found, hfound, heq⟩
  exact ⟨found, hfound, by rw [← hforms, ← heq, map_form_shift]⟩

/-- What is read of a forest does not depend on where it stands. -/
theorem Markup.Forest.HasForms.exists_itemsFrom
    (h : forest.HasForms heading forms)
    (start : Nat) :
    exists items : List ReadItem,
      itemsFrom heading start forest = .ok items ∧
        items.map ReadItem.form = forms.map fun form => (some form.1, form.2) := by
  rcases h with ⟨items, hitems, hforms⟩
  have hshift := itemsFrom_shift heading start 0 forest
  rw [Nat.zero_add, hitems] at hshift
  exact ⟨_, hshift, by rw [map_form_shift, hforms]⟩

theorem Markup.Forest.HasForms.unique
    {forms' : List (Quantity × Text)}
    (h : forest.HasForms heading forms)
    (h' : forest.HasForms heading forms') :
    forms = forms' := by
  rcases h with ⟨items, hitems, hforms⟩
  rcases h' with ⟨items', hitems', hforms'⟩
  rw [hitems, Except.ok.injEq] at hitems'
  rw [← hitems', hforms] at hforms'
  refine List.map_injective_iff.mpr ?_ hforms'
  intro form form' heq
  rw [Prod.mk.injEq, Option.some.injEq] at heq
  exact Prod.ext heq.1 heq.2

theorem hasForms_nil (heading : Heading) : Forest.nil.HasForms heading [] :=
  ⟨[], rfl, rfl⟩

theorem Markup.Forest.HasForms.append
    {after : List (Quantity × Text)}
    (hfront : front.HasForms heading forms)
    (hback : back.HasForms heading after) :
    (front ++ back).HasForms heading (forms ++ after) := by
  rcases hfront with ⟨items, hitems, hforms⟩
  rcases hback.exists_itemsFrom (0 + front.raw.size) with ⟨others, hothers, hafter⟩
  refine ⟨items ++ others, ?_, by rw [List.map_append, List.map_append, hforms, hafter]⟩
  rw [itemsFrom_append]
  apply Success.bind_eq_ok_iff.mpr
  exact ⟨items, hitems, Success.map_eq_ok_iff.mpr ⟨others, hothers, rfl⟩⟩

theorem exists_forms_of_append
    (h : (front ++ back).HasForms heading forms) :
    exists before after : List (Quantity × Text),
      forms = before ++ after ∧ front.HasForms heading before ∧ back.HasForms heading after := by
  rcases h with ⟨items, hitems, hforms⟩
  rw [itemsFrom_append] at hitems
  rcases Success.bind_eq_ok_iff.mp hitems with ⟨found, hfound, hboth⟩
  rcases Success.map_eq_ok_iff.mp hboth with ⟨others, hothers, heq⟩
  rw [← heq, List.map_append] at hforms
  rcases List.map_eq_append_iff.mp hforms.symm with ⟨before, after, hsplit, hbefore, hafter⟩
  exact ⟨before, after, hsplit, ⟨found, hfound, hbefore.symm⟩,
    hasForms_of_itemsFrom hothers hafter.symm⟩

/-- Plain text adds no form. -/
theorem hasForms_text_iff {content : Text} :
    (Forest.leaf (.text content) forest).HasForms heading forms ↔
      forest.HasForms heading forms := by
  constructor
  · rintro ⟨items, hitems, hforms⟩
    have hread : itemsFrom heading (0 + (Event.text content).raw.size) forest = .ok items := hitems
    exact hasForms_of_itemsFrom hread hforms
  · intro h
    exact h.exists_itemsFrom (0 + (Event.text content).raw.size)

theorem Markup.Forest.HasForms.item
    (h : forest.HasForms heading forms)
    (hkind : heading.kind = .plurals)
    (quantity : Quantity) (inside : Forest) :
    (Forest.item quantity inside forest).HasForms heading ((quantity, inside.raw) :: forms) := by
  rcases exists_itemsFrom_item hkind 0 quantity inside forest with
    ⟨item, hquantity, hvalue, hread⟩
  rcases h.exists_itemsFrom (0 + (Document.itemElement quantity inside.raw).size) with
    ⟨items, hitems, hforms⟩
  refine ⟨item :: items, by rw [hread, hitems]; rfl, ?_⟩
  rw [List.map_cons, List.map_cons, hforms, ReadItem.form, hquantity, hvalue]

/-- The items of a plurals element have quantities. -/
theorem exists_quantity_of_itemQuantity
    {content : Text} {quantity : Option Quantity}
    (hkind : heading.kind = .plurals)
    (h : itemQuantity heading content = .ok quantity) :
    exists known : Quantity, quantity = some known := by
  simp only [itemQuantity, hkind] at h
  repeat' split at h
  all_goals simp only [Except.ok.injEq, reduceCtorEq] at h
  exact ⟨_, h.symm⟩

/-- What can be read of a plurals element are forms. -/
theorem exists_forms_of_itemsFrom
    {start : Nat} {items : List ReadItem}
    (hkind : heading.kind = .plurals)
    (h : itemsFrom heading start forest = .ok items) :
    exists forms : List (Quantity × Text),
      items.map ReadItem.form = forms.map fun form => (some form.1, form.2) := by
  have hcons : forall {content : Text} {item : ReadItem} {others : List ReadItem},
      itemQuantity heading content = .ok item.node.quantity ->
        (exists forms : List (Quantity × Text),
          others.map ReadItem.form = forms.map fun form => (some form.1, form.2)) ->
        exists forms : List (Quantity × Text),
          (item :: others).map ReadItem.form = forms.map fun form => (some form.1, form.2) := by
    rintro content item others hquantity ⟨forms, hforms⟩
    rcases exists_quantity_of_itemQuantity hkind hquantity with ⟨quantity, hknown⟩
    exact ⟨(quantity, item.value) :: forms, by
      rw [List.map_cons, List.map_cons, hforms, ReadItem.form, hknown]⟩
  induction forest generalizing start items with
  | nil =>
      rw [itemsFrom, Except.ok.injEq] at h
      exact ⟨[], by rw [← h]; rfl⟩
  | leaf event rest ih =>
      cases event with
      | emptyTag content =>
          simp only [itemsFrom] at h
          split at h
          · split at h
            · cases h
            · rename_i quantity hquantity
              rcases Success.map_eq_ok_iff.mp h with ⟨others, hothers, rfl⟩
              exact hcons hquantity (ih hothers)
          · exact ih h
      | _ => exact ih h
  | element opening inside closing rest _ ih =>
      simp only [itemsFrom] at h
      split at h
      · split at h
        · cases h
        · rename_i quantity hquantity
          rcases Success.map_eq_ok_iff.mp h with ⟨others, hothers, rfl⟩
          exact hcons hquantity (ih hothers)
      · exact ih h

end HasForms

/-!
# One item
-/

/-- A forest of one element or one empty tag. -/
inductive Markup.Forest.IsTree : Forest -> Prop where
  | tag (content : Text) :
      IsTree (.leaf (.emptyTag content) .nil)
  | element (opening : Text) (inside : Forest) (closing : Text) :
      IsTree (.element opening inside closing .nil)

/-- A leaf on its own makes up at most one item, and so does an element. -/
theorem items_of_leaf
    {heading : Heading} {start : Nat} {event : Event} {items : List ReadItem}
    (h : itemsFrom heading start (.leaf event .nil) = .ok items) :
    items = [] ∨
      (Forest.leaf event .nil).IsTree ∧ exists item : ReadItem, items = [item] := by
  cases event with
  | emptyTag content =>
      simp only [itemsFrom] at h
      split at h
      · split at h
        · simp at h
        · rw [Except.map, Except.ok.injEq] at h
          exact .inr ⟨.tag content, _, h.symm⟩
      · rw [Except.ok.injEq] at h
        exact .inl h.symm
  | _ =>
      simp only [itemsFrom, Except.ok.injEq] at h
      exact .inl h.symm

theorem items_of_element
    {heading : Heading} {start : Nat} {opening closing : Text} {inside : Forest}
    {items : List ReadItem}
    (h : itemsFrom heading start (.element opening inside closing .nil) = .ok items) :
    items = [] ∨
      (Forest.element opening inside closing .nil).IsTree ∧
        exists item : ReadItem, items = [item] := by
  simp only [itemsFrom] at h
  split at h
  · split at h
    · simp at h
    · rw [Except.map, Except.ok.injEq] at h
      exact .inr ⟨.element opening inside closing, _, h.symm⟩
  · rw [Except.ok.injEq] at h
    exact .inl h.symm

/-- An item that closes itself has its inside at its end. -/
theorem item_of_tag
    {heading : Heading} {start : Nat} {content : Text} {item : ReadItem}
    (h : itemsFrom heading start (.leaf (.emptyTag content) .nil) = .ok [item]) :
    item.node.outer = ⟨start, start + (Event.emptyTag content).raw.size⟩ ∧
      item.node.inner = ⟨start + (Event.emptyTag content).raw.size,
        start + (Event.emptyTag content).raw.size⟩ := by
  simp only [itemsFrom] at h
  split at h
  · split at h
    · cases h
    · simp only [Except.map, Except.ok.injEq, List.cons.injEq, and_true] at h
      rw [← h]
      exact ⟨rfl, rfl⟩
  · cases h

/-- An item with tags stays an item of its quantity, whatever stands between them. -/
theorem item_of_element
    {heading : Heading} {start : Nat} {opening closing : Text} {inside : Forest}
    {item : ReadItem} {quantity : Quantity}
    (h : itemsFrom heading start (.element opening inside closing .nil) = .ok [item])
    (hquantity : item.node.quantity = some quantity) :
    item.node.inner = ⟨start + (Event.startTag opening).raw.size,
        start + (Event.startTag opening).raw.size + inside.raw.size⟩ ∧
      item.node.inner.stop < item.node.outer.stop ∧
      forall inside' : Forest,
        (Forest.element opening inside' closing .nil).HasForms heading
          [(quantity, inside'.raw)] := by
  simp only [itemsFrom] at h
  split at h
  · rename_i hname
    split at h
    · cases h
    · rename_i known hknown
      simp only [Except.map, Except.ok.injEq, List.cons.injEq, and_true] at h
      rw [← h] at hquantity ⊢
      refine ⟨rfl, ?_, ?_⟩
      · have hclosing : 0 < (Event.endTag closing).raw.size := by
          rw [Event.raw, List.cons_append, Text.size_cons]
          have hpositive := Char.utf8Size_pos '<'
          omega
        exact Nat.lt_add_of_pos_right hclosing
      · intro inside'
        simp only [Forest.HasForms, itemsFrom, hname, if_true, hknown, Except.map]
        exact ⟨_, rfl, congrArg (fun known => [(known, inside'.raw)]) hquantity⟩
  · cases h

/-- A forest around one of its items, the first one of its quantity. -/
structure ItemSplit (heading : Heading) (start : Nat) (forest : Forest) (item : ReadItem)
    (front tree back : Forest) (before after : List (Quantity × Text)) : Prop where
  forest : forest = front ++ (tree ++ back)
  isTree : tree.IsTree
  reads_front : front.HasForms heading before
  reads_tree : itemsFrom heading (start + front.raw.size) tree = .ok [item]
  reads_back : back.HasForms heading after
  first : forall form, form ∈ before -> some form.1 ≠ item.node.quantity

section Split

variable {heading : Heading} {start : Nat} {forest : Forest} {items : List ReadItem}
  {item : ReadItem} {quantity : Quantity}

theorem quantity_ne_of_find?
    {forms : List (Quantity × Text)}
    (hforms : items.map ReadItem.form = forms.map fun form => (some form.1, form.2))
    (hfind : items.find? (fun item => item.node.quantity == some quantity) = none) :
    forall form, form ∈ forms -> form.1 ≠ quantity := by
  rintro form hform rfl
  have hmem : (some form.1, form.2) ∈ items.map ReadItem.form := by
    rw [hforms]
    exact List.mem_map_of_mem (f := fun form => (some form.1, form.2)) hform
  rcases List.mem_map.mp hmem with ⟨item, hitem, heq⟩
  have hquantity : item.node.quantity = some form.1 := congrArg Prod.fst heq
  exact List.find?_eq_none.mp hfind item hitem (by simp [hquantity])

/-- Either the item that is found is the first tree of a forest, or it stands behind that tree. -/
theorem exists_item_of_append
    {tree rest : Forest}
    (hkind : heading.kind = .plurals)
    (hone : forall found, itemsFrom heading start tree = .ok found ->
      found = [] ∨ tree.IsTree ∧ exists only : ReadItem, found = [only])
    (hrest : forall {start : Nat} {items : List ReadItem},
      itemsFrom heading start rest = .ok items ->
      items.find? (fun item => item.node.quantity == some quantity) = some item ->
        exists (front inner back : Forest) (before after : List (Quantity × Text)),
          ItemSplit heading start rest item front inner back before after)
    (h : itemsFrom heading start (tree ++ rest) = .ok items)
    (hfind : items.find? (fun item => item.node.quantity == some quantity) = some item) :
    exists (front inner back : Forest) (before after : List (Quantity × Text)),
      ItemSplit heading start (tree ++ rest) item front inner back before after := by
  have hquantity : item.node.quantity = some quantity := by
    simpa using List.find?_some hfind
  rw [itemsFrom_append] at h
  rcases Success.bind_eq_ok_iff.mp h with ⟨found, hfound, hboth⟩
  rcases Success.map_eq_ok_iff.mp hboth with ⟨others, hothers, rfl⟩
  rw [List.find?_append] at hfind
  cases hhere : found.find? fun item => item.node.quantity == some quantity with
  | some here =>
      rw [hhere, Option.some_or, Option.some.injEq] at hfind
      rcases hone found hfound with hnil | ⟨hisTree, only, honly⟩
      · rw [hnil] at hhere
        cases hhere
      · have hmem := List.mem_of_find?_eq_some hhere
        rw [honly, List.mem_singleton, hfind] at hmem
        have hsize : start + Forest.nil.raw.size = start := rfl
        rcases exists_forms_of_itemsFrom hkind hothers with ⟨after, hafter⟩
        refine ⟨.nil, tree, rest, [], after, rfl, hisTree, hasForms_nil heading, ?_,
          hasForms_of_itemsFrom hothers hafter, by simp⟩
        rw [hsize, hfound, honly, hmem]
  | none =>
      rw [hhere, Option.none_or] at hfind
      rcases exists_forms_of_itemsFrom hkind hfound with ⟨forms, hforms⟩
      rcases hrest hothers hfind with ⟨front, inner, back, before, after, hsplit⟩
      refine ⟨tree ++ front, inner, back, forms ++ before, after, ?_, hsplit.isTree,
        (hasForms_of_itemsFrom hfound hforms).append hsplit.reads_front, ?_, hsplit.reads_back, ?_⟩
      · rw [hsplit.forest, Forest.append_assoc]
      · rw [Forest.raw_append, Text.size_append, ← Nat.add_assoc]
        exact hsplit.reads_tree
      · intro form hform
        rcases List.mem_append.mp hform with hmem | hmem
        · rw [hquantity]
          exact fun hsame =>
            quantity_ne_of_find? hforms hhere form hmem (Option.some.inj hsame)
        · exact hsplit.first form hmem

/-- The first item of a quantity is one tree of the forest. -/
theorem exists_item_of_find?
    (hkind : heading.kind = .plurals)
    (h : itemsFrom heading start forest = .ok items)
    (hfind : items.find? (fun item => item.node.quantity == some quantity) = some item) :
    exists (front tree back : Forest) (before after : List (Quantity × Text)),
      ItemSplit heading start forest item front tree back before after := by
  induction forest generalizing start items with
  | nil =>
      rw [itemsFrom, Except.ok.injEq] at h
      rw [← h] at hfind
      cases hfind
  | leaf event rest ih => exact exists_item_of_append hkind (fun _ => items_of_leaf) ih h hfind
  | element opening inside closing rest _ ih =>
      exact exists_item_of_append hkind (fun _ => items_of_element) ih h hfind

/-- The forms of a forest around one of its items. -/
theorem ItemSplit.forms_eq
    {front tree back : Forest} {before after forms : List (Quantity × Text)}
    (hsplit : ItemSplit heading start forest item front tree back before after)
    (hquantity : item.node.quantity = some quantity)
    (h : forest.HasForms heading forms) :
    forms = before ++ (quantity, item.value) :: after := by
  have htree : tree.HasForms heading [(quantity, item.value)] := by
    apply hasForms_of_itemsFrom hsplit.reads_tree
    rw [List.map_singleton, List.map_singleton, ReadItem.form, hquantity]
  rw [hsplit.forest] at h
  exact h.unique (hsplit.reads_front.append (htree.append hsplit.reads_back))

end Split

/-!
# The end of a forest
-/

/-- Blanks at the end of a text stand behind the last tag in it. -/
theorem exists_append_of_getLast?
    {piece more rest blank : Text}
    (hlast : piece.getLast? = some '>')
    (h : piece ++ more = rest ++ blank)
    (hblank : blank.all isSpace = true) :
    exists rest' : Text, rest = piece ++ rest' ∧ more = rest' ++ blank := by
  rcases List.append_eq_append_iff.mp h with ⟨rest', hrest, hmore⟩ | ⟨front, hpiece, hfront⟩
  · exact ⟨rest', hrest, hmore⟩
  · rcases List.eq_nil_or_concat front with hnil | ⟨init, c, hconcat⟩
    · rw [hnil, List.append_nil] at hpiece
      rw [hnil, List.nil_append] at hfront
      exact ⟨[], by rw [hpiece, List.append_nil], by rw [hfront, List.nil_append]⟩
    · rw [hpiece, hconcat, List.concat_eq_append, ← List.append_assoc, List.getLast?_concat,
        Option.some.injEq] at hlast
      rw [hfront, hconcat, hlast] at hblank
      simp [isSpace] at hblank

section DropBack

variable {heading : Heading} {forms : List (Quantity × Text)} {blank rest : Text}

/-- A tree that ends with a tag stays before the blanks behind it. -/
theorem exists_dropBack_of_append
    {tree more : Forest}
    (hlast : tree.raw.getLast? = some '>')
    (htree : tree.WellFormed)
    (hforms : (tree ++ more).HasForms heading forms)
    (hraw : (tree ++ more).raw = rest ++ blank)
    (hblank : blank.all isSpace = true)
    (hmore : forall {rest : Text} {forms : List (Quantity × Text)},
      more.HasForms heading forms -> more.raw = rest ++ blank ->
        exists kept : Forest, kept.raw = rest ∧ kept.WellFormed ∧ kept.HasForms heading forms) :
    exists kept : Forest, kept.raw = rest ∧ kept.WellFormed ∧ kept.HasForms heading forms := by
  rcases exists_forms_of_append hforms with ⟨before, after, rfl, htreeForms, hmoreForms⟩
  rw [Forest.raw_append] at hraw
  rcases exists_append_of_getLast? hlast hraw hblank with ⟨rest', hrest, hbehind⟩
  rcases hmore hmoreForms hbehind with ⟨kept, hkept, hkeptWell, hkeptForms⟩
  refine ⟨tree ++ kept, ?_, htree.append hkeptWell, htreeForms.append hkeptForms⟩
  rw [Forest.raw_append, hkept, hrest]

/-- A forest without white space that it ends with has its forms still. -/
theorem exists_dropBack_forest
    {forest : Forest}
    (hwell : forest.WellFormed)
    (hforms : forest.HasForms heading forms)
    (hraw : forest.raw = rest ++ blank)
    (hblank : blank.all isSpace = true) :
    exists kept : Forest, kept.raw = rest ∧ kept.WellFormed ∧ kept.HasForms heading forms := by
  induction forest generalizing forms rest blank with
  | nil =>
      rcases List.append_eq_nil_iff.mp hraw.symm with ⟨hrest, _⟩
      exact ⟨.nil, hrest.symm, trivial, hforms⟩
  | leaf event more ih =>
      by_cases htext : exists content : Text, event = .text content
      · rcases htext with ⟨content, rfl⟩
        have hmoreForms := hasForms_text_iff.mp hforms
        have hcontent : '<' ∉ content := hwell.2.1
        rw [Forest.raw_leaf] at hraw
        rcases List.append_eq_append_iff.mp hraw with
          ⟨rest', hrest, hmore⟩ | ⟨cut, hfront, hbehind⟩
        · rcases ih hwell.2.2 hmoreForms hmore hblank with ⟨kept, hkept, hkeptWell, hkeptForms⟩
          refine ⟨.leaf (.text content) kept, ?_, ⟨rfl, hcontent, hkeptWell⟩,
            hasForms_text_iff.mpr hkeptForms⟩
          rw [Forest.raw_leaf, hkept, hrest]
        · -- The blanks begin in this text, and nothing but texts stands behind it.
          rw [hbehind, List.all_append, Bool.and_eq_true] at hblank
          rcases ih hwell.2.2 hmoreForms (List.nil_append _).symm hblank.2 with
            ⟨kept, hkept, hkeptWell, hkeptForms⟩
          have hcut : content = rest ++ cut := hfront
          have hrest : '<' ∉ rest := by
            intro hmem
            exact hcontent (hcut ▸ List.mem_append_left _ hmem)
          refine ⟨.leaf (.text rest) kept, ?_, ⟨rfl, hrest, hkeptWell⟩,
            hasForms_text_iff.mpr hkeptForms⟩
          rw [Forest.raw_leaf, hkept, List.append_nil]
          rfl
      · have hlast : (Forest.leaf event .nil).raw.getLast? = some '>' := by
          rw [Forest.raw_leaf, show Forest.nil.raw = [] from rfl, List.append_nil]
          exact getLast?_raw_of_markup fun content heq => htext ⟨content, heq⟩
        exact exists_dropBack_of_append hlast ⟨hwell.1, hwell.2.1, trivial⟩ hforms hraw hblank
          fun hmoreForms hmore => ih hwell.2.2 hmoreForms hmore hblank
  | element opening inside closing more _ ih =>
      have hlast : (Forest.element opening inside closing .nil).raw.getLast? = some '>' := by
        have hnothing : Forest.nil.raw = [] := rfl
        rw [Forest.raw_element, hnothing, List.append_nil, List.getLast?_append,
          getLast?_raw_of_markup (by simp), Option.some_or]
      exact exists_dropBack_of_append hlast ⟨hwell.1, hwell.2.1, trivial⟩ hforms hraw hblank
        fun hmoreForms hmore => ih hwell.2.2 hmoreForms hmore hblank

end DropBack

/-!
# Forms in their element
-/

/-- The tags of the first plurals element of an id, and what stands around them. -/
structure PluralsSite where
  front : List Segment
  opening : Text
  closing : Text
  back : List Segment
  heading : Heading
  named : tagName opening = EntryKind.plurals.tag
  headed : Heading.ofTag .plurals opening = .ok heading
  first : forall entry, entry ∈ front.flatMap Segment.entries ->
    (entry.kind == .plurals && entry.id == heading.id) = false

namespace PluralsSite

/-- The row of a document with a forest between the tags. -/
def rowWith (site : PluralsSite) (inside : Forest) : List Segment :=
  site.front ++ .element site.opening inside site.closing :: site.back

/-- The text up to the end of the opening tag. -/
def lead (site : PluralsSite) : Text :=
  Segments.raw site.front ++ (Event.startTag site.opening).raw

/-- The text from the end tag on. -/
def follow (site : PluralsSite) : Text :=
  (Event.endTag site.closing).raw ++ Segments.raw site.back

section Site

variable {site : PluralsSite} {document : Document} {inside inside' : Forest}

theorem text_of_laidOut (h : document.LaidOut (site.rowWith inside)) :
    document.text = site.lead ++ inside.raw ++ site.follow := by
  rw [← h.raw]
  simp [rowWith, lead, follow]

theorem wellFormed_of_laidOut (h : document.LaidOut (site.rowWith inside)) :
    (Forest.element site.opening inside site.closing .nil).WellFormed := by
  have hfit := h.fit
  rw [rowWith, Segments.fit_append] at hfit
  exact hfit.2.1.2

theorem kind_heading (site : PluralsSite) : site.heading.kind = .plurals :=
  Segment.kind_of_heading site.headed

/-- The plurals element is found, and its items and its forms are those of the forest. -/
structure Reads (site : PluralsSite) (document : Document) (inside : Forest) (node : Node)
    (items : List ReadItem) (forms : List (Quantity × Text)) : Prop where
  find : document.find? .plurals site.heading.id = some node
  entries : (Segment.element site.opening inside site.closing).entries = [node.entry]
  entry : node.entry = ⟨site.heading.id, .plural (.ofList forms), site.heading.translatable⟩
  inner : node.inner = ⟨site.lead.size, site.lead.size + inside.raw.size⟩
  read : itemsFrom site.heading site.lead.size inside = .ok items
  items_eq : node.items = items.map ReadItem.node
  forms_eq : items.map ReadItem.form = forms.map fun form => (some form.1, form.2)

theorem exists_reads
    (h : document.LaidOut (site.rowWith inside)) :
    exists (node : Node) (items : List ReadItem) (forms : List (Quantity × Text)),
      site.Reads document inside node items forms := by
  rcases h.exists_layoutFrom with ⟨layout, hlayout, heq⟩
  rcases Segments.exists_layouts_of_split hlayout with
    ⟨before, found, after, hbefore, hfound, _, hsum⟩
  have hentries := Segment.entries_of_layoutAt hfound
  simp only [Segment.layoutAt, site.named, EntryKind.ofTag?_tag, elementNode, site.headed]
    at hfound
  rcases Success.map_eq_ok_iff.mp hfound with ⟨node, hnode, hone⟩
  rcases Success.map_eq_ok_iff.mp hnode with ⟨items, hitems, hmade⟩
  have hstart : 0 + (Segments.raw site.front).size + (Event.startTag site.opening).raw.size =
      site.lead.size := by
    rw [lead, Text.size_append, Nat.zero_add]
  rw [hstart] at hitems hmade
  rcases exists_forms_of_itemsFrom site.kind_heading hitems with ⟨forms, hforms⟩
  have hentry : node.entry =
      ⟨site.heading.id, .plural (.ofList forms), site.heading.translatable⟩ := by
    rw [← hmade, site.kind_heading, itemsEntryValue_of_forms hforms]
  have hkind : node.kind = .plurals := by
    rw [Node.kind, hentry]
    rfl
  have hid : node.id = site.heading.id := by
    rw [Node.id, hentry]
  have hnodes : document.nodes = before.nodes ++ node :: after.nodes := by
    rw [Document.nodes, heq, ← hsum, ← hone]
    rfl
  have hfind := Document.find?_of_nodes hnodes
    (by rw [Segments.entries_of_layoutFrom hbefore, hkind, hid]; exact site.first)
  rw [hkind, hid] at hfind
  rw [← hone, List.map_singleton] at hentries
  refine ⟨node, items, forms, ?_⟩
  exact
    { find := hfind
      entries := hentries.symm
      entry := hentry
      inner := by rw [← hmade]
      read := hitems
      items_eq := by rw [← hmade]
      forms_eq := hforms }

/-- What goes between the tags can be read there, if its items can. -/
theorem exists_splice
    {front piece piece' back : Text} {forms : List (Quantity × Text)}
    (h : document.LaidOut (site.rowWith inside))
    (hraw : inside.raw = front ++ piece ++ back)
    (hraw' : inside'.raw = front ++ piece' ++ back)
    (hwell : inside'.WellFormed)
    (hforms : inside'.HasForms site.heading forms) :
    exists edited : Document,
      document.splice ⟨site.lead.size + front.size, site.lead.size + front.size + piece.size⟩
          piece' = .ok edited ∧
        edited.LaidOut (site.rowWith inside') := by
  have hfits : (Segment.element site.opening inside' site.closing).Fits true :=
    ⟨rfl, (wellFormed_of_laidOut h).1, hwell, trivial⟩
  have hreadable : (Segment.element site.opening inside' site.closing).Readable := by
    rcases hforms.exists_itemsFrom (0 + (Event.startTag site.opening).raw.size) with
      ⟨items, hread, _⟩
    simp only [Segment.Readable, Segment.layoutAt, site.named, EntryKind.ofTag?_tag, elementNode,
      site.headed, hread, Except.map]
    exact ⟨_, rfl⟩
  rcases h.exists_exchange rfl rfl hfits hreadable with ⟨edited, hedited, hlaid⟩
  refine ⟨edited, ?_, hlaid⟩
  have hsplice := Text.splice_append (site.lead ++ front) piece (back ++ site.follow) piece'
  rw [Text.size_append] at hsplice
  have htext : document.text = site.lead ++ front ++ piece ++ (back ++ site.follow) := by
    rw [text_of_laidOut h, hraw]
    simp only [List.append_assoc]
  rw [Document.splice, htext, hsplice, ← hedited]
  rw [Segment.raw_element, hraw', lead, follow]
  simp only [List.append_assoc]

end Site

/-!
# Forms one by one
-/

section Forms

variable {site : PluralsSite} {document : Document} {inside value : Forest}
  {forms : List (Quantity × Text)}

/-- A value goes between the tags of its item, and an item that closes itself is written anew. -/
theorem exists_replaceItem
    {item : ReadItem} {front tree back : Forest} {before after : List (Quantity × Text)}
    {quantity : Quantity}
    (h : document.LaidOut (site.rowWith inside))
    (hforms : inside.HasForms site.heading forms)
    (hsplit : ItemSplit site.heading site.lead.size inside item front tree back before after)
    (hquantity : item.node.quantity = some quantity)
    (hvalue : value.WellFormed) :
    exists (edited : Document) (inside' : Forest),
      (if item.node.inner.start = item.node.inner.stop ∧
          item.node.inner.start = item.node.outer.stop then
        document.splice item.node.outer (Document.itemElement quantity value.raw)
      else document.splice item.node.inner value.raw) = .ok edited ∧
        edited.LaidOut (site.rowWith inside') ∧
        inside'.HasForms site.heading (storeForm quantity value.raw forms) := by
  have hwell := (wellFormed_of_laidOut h).2.1
  rw [hsplit.forest, Forest.wellFormed_append_iff, Forest.wellFormed_append_iff] at hwell
  have hfirst : forall form, form ∈ before -> form.1 ≠ quantity := by
    intro form hform hsame
    exact hsplit.first form hform (by rw [hquantity, hsame])
  have hstored : storeForm quantity value.raw forms =
      before ++ (quantity, value.raw) :: after := by
    rw [hsplit.forms_eq hquantity hforms, storeForm_append hfirst, storeForm, if_pos rfl]
  rw [hstored]
  have hreads := hsplit.reads_tree
  have hraw := congrArg Forest.raw hsplit.forest
  rw [Forest.raw_append, Forest.raw_append] at hraw
  cases hsplit.isTree with
  | tag content =>
      rcases item_of_tag hreads with ⟨houter, hinner⟩
      let inside' := front ++ Forest.item quantity value back
      have hpiece : (Forest.leaf (.emptyTag content) .nil).raw = (Event.emptyTag content).raw :=
        List.append_nil _
      have hnew : inside'.raw =
          front.raw ++ Document.itemElement quantity value.raw ++ back.raw := by
        rw [Forest.raw_append, raw_item, List.append_assoc]
      have hforms' : inside'.HasForms site.heading (before ++ (quantity, value.raw) :: after) :=
        hsplit.reads_front.append (hsplit.reads_back.item site.kind_heading quantity value)
      rw [hpiece, ← List.append_assoc] at hraw
      rcases exists_splice h hraw hnew
        (hwell.1.append (wellFormed_item quantity hvalue hwell.2.2)) hforms' with
        ⟨edited, hedited, hlaid⟩
      refine ⟨edited, inside', ?_, hlaid, hforms'⟩
      rw [hinner, houter, if_pos ⟨rfl, rfl⟩]
      exact hedited
  | element opening old closing =>
      rcases item_of_element hreads hquantity with ⟨hinner, hbefore, hkept⟩
      let inside' := front ++ (Forest.element opening value closing .nil ++ back)
      have hpiece : inside.raw = (front.raw ++ (Event.startTag opening).raw) ++ old.raw ++
          ((Event.endTag closing).raw ++ back.raw) := by
        rw [hraw, Forest.raw_element]
        simp [Forest.raw]
      have hnew : inside'.raw = (front.raw ++ (Event.startTag opening).raw) ++ value.raw ++
          ((Event.endTag closing).raw ++ back.raw) := by
        rw [Forest.raw_append, Forest.raw_append, Forest.raw_element]
        simp [Forest.raw]
      have hwell' : inside'.WellFormed :=
        hwell.1.append (Forest.WellFormed.append ⟨hwell.2.1.1, hvalue, trivial⟩ hwell.2.2)
      have hforms' : inside'.HasForms site.heading (before ++ (quantity, value.raw) :: after) :=
        hsplit.reads_front.append ((hkept value).append hsplit.reads_back)
      rcases exists_splice h hpiece hnew hwell' hforms' with ⟨edited, hedited, hlaid⟩
      refine ⟨edited, inside', ?_, hlaid, hforms'⟩
      have hopen : ¬ (item.node.inner.start = item.node.inner.stop ∧
          item.node.inner.start = item.node.outer.stop) := by
        rintro ⟨hempty, hstop⟩
        omega
      rw [if_neg hopen, hinner, ← hedited, Text.size_append, Nat.add_assoc site.lead.size]

/-- Where nothing stands before the end tag on its line, the line begins behind a part of the
forest. -/
theorem exists_lineStart
    (h : document.LaidOut (site.rowWith inside))
    (hline : document.text.startsLine (site.lead.size + inside.raw.size) = true) :
    exists rest blank : Text,
      inside.raw = rest ++ blank ∧ blank.isBlank = true ∧
        document.text.lineStart (site.lead.size + inside.raw.size) =
          site.lead.size + rest.size := by
  rw [text_of_laidOut h, ← Text.size_append] at hline ⊢
  rcases Text.exists_lineStart_append hline with ⟨kept, blank, hkept, _, hblank, hposition⟩
  have hlast : site.lead.getLast? = some '>' := by
    rw [lead, List.getLast?_append, getLast?_raw_of_markup (by simp), Option.some_or]
  rcases exists_append_of_getLast? hlast hkept (Text.all_isSpace_of_isBlank hblank) with
    ⟨rest, hrest, hinside⟩
  exact ⟨rest, blank, hinside, hblank, by rw [hposition, hrest, Text.size_append]⟩

/-- A new item goes on a line of its own, and the blanks before the end tag behind that line. -/
theorem exists_appendLine
    {rest blank : Text}
    (h : document.LaidOut (site.rowWith inside))
    (hforms : inside.HasForms site.heading forms)
    (hraw : inside.raw = rest ++ blank)
    (hblank : blank.isBlank = true)
    (quantity : Quantity)
    (hvalue : value.WellFormed) :
    exists (edited : Document) (inside' : Forest),
      document.insertAt (site.lead.size + rest.size)
          (Document.itemIndent ++ Document.itemElement quantity value.raw ++
            document.lineEnding.text) = .ok edited ∧
        edited.LaidOut (site.rowWith inside') ∧
        inside'.HasForms site.heading (forms ++ [(quantity, value.raw)]) := by
  rcases exists_dropBack_forest (wellFormed_of_laidOut h).2.1 hforms hraw
    (Text.all_isSpace_of_isBlank hblank) with ⟨forest, hforest, hforestWell, hforestForms⟩
  let tail : Forest := .leaf (.text (document.lineEnding.text ++ blank)) .nil
  let inside' := forest ++ .leaf (.text Document.itemIndent) (.item quantity value tail)
  have htail : tail.WellFormed := by
    refine ⟨rfl, List.not_mem_append (Header.not_mem_ending _) ?_, trivial⟩
    intro hmem
    exact absurd (List.all_eq_true.mp hblank '<' hmem) (by decide)
  have hwell : inside'.WellFormed :=
    hforestWell.append ⟨rfl, (by decide : '<' ∉ Document.itemIndent),
      wellFormed_item quantity hvalue htail⟩
  have htailForms : tail.HasForms site.heading [] := hasForms_text_iff.mpr (hasForms_nil _)
  have hforms' : inside'.HasForms site.heading (forms ++ [(quantity, value.raw)]) :=
    hforestForms.append
      (hasForms_text_iff.mpr (htailForms.item site.kind_heading quantity value))
  have hnew : inside'.raw = rest ++ (Document.itemIndent ++
      Document.itemElement quantity value.raw ++ document.lineEnding.text) ++ blank := by
    rw [Forest.raw_append, Forest.raw_leaf, raw_item, hforest]
    simp [tail, Event.raw, Forest.raw]
  have hold : inside.raw = rest ++ [] ++ blank := by
    rw [hraw, List.append_nil]
  rcases exists_splice h hold hnew hwell hforms' with ⟨edited, hedited, hlaid⟩
  exact ⟨edited, inside', hedited, hlaid, hforms'⟩

/-- A new item goes before the end tag, on a line of its own if the tag has one. -/
theorem exists_appendItem
    (h : document.LaidOut (site.rowWith inside))
    (hforms : inside.HasForms site.heading forms)
    (quantity : Quantity)
    (hvalue : value.WellFormed) :
    exists (edited : Document) (inside' : Forest),
      (if document.text.startsLine (site.lead.size + inside.raw.size) then
        document.insertAt (document.text.lineStart (site.lead.size + inside.raw.size))
          (Document.itemIndent ++ Document.itemElement quantity value.raw ++
            document.lineEnding.text)
      else document.insertAt (site.lead.size + inside.raw.size)
        (Document.itemElement quantity value.raw)) = .ok edited ∧
        edited.LaidOut (site.rowWith inside') ∧
        inside'.HasForms site.heading (forms ++ [(quantity, value.raw)]) := by
  split
  · rename_i hline
    rcases exists_lineStart h hline with ⟨rest, blank, hraw, hblank, hplace⟩
    rw [hplace]
    exact exists_appendLine h hforms hraw hblank quantity hvalue
  · let inside' := inside ++ Forest.item quantity value .nil
    have hnew : inside'.raw =
        inside.raw ++ Document.itemElement quantity value.raw ++ [] := by
      rw [Forest.raw_append, raw_item, List.append_nil]
      exact congrArg _ (List.append_nil _)
    have hold : inside.raw = inside.raw ++ [] ++ [] := by
      rw [List.append_nil, List.append_nil]
    have hwell : inside'.WellFormed :=
      (wellFormed_of_laidOut h).2.1.append (wellFormed_item quantity hvalue trivial)
    have hforms' : inside'.HasForms site.heading (forms ++ [(quantity, value.raw)]) :=
      hforms.append ((hasForms_nil _).item site.kind_heading quantity value)
    rcases exists_splice h hold hnew hwell hforms' with ⟨edited, hedited, hlaid⟩
    exact ⟨edited, inside', hedited, hlaid, hforms'⟩

/-- One form is stored in its element. -/
theorem exists_setQuantity
    (h : document.LaidOut (site.rowWith inside))
    (hforms : inside.HasForms site.heading forms)
    (quantity : Quantity)
    (hvalue : value.WellFormed) :
    exists (edited : Document) (inside' : Forest),
      document.setQuantity site.heading.id quantity value.raw = .ok edited ∧
        edited.LaidOut (site.rowWith inside') ∧
        inside'.HasForms site.heading (storeForm quantity value.raw forms) := by
  rcases exists_reads h with ⟨node, items, found, hreads⟩
  obtain rfl := hforms.unique (hasForms_of_itemsFrom hreads.read hreads.forms_eq)
  simp only [Document.setQuantity, hreads.find, Node.item?, hreads.items_eq, List.find?_map,
    hreads.inner]
  cases hitem : items.find? ((fun item => item.quantity == some quantity) ∘ ReadItem.node) with
  | some item =>
      rcases exists_item_of_find? site.kind_heading hreads.read hitem with
        ⟨front, tree, back, before, after, hsplit⟩
      have hquantity : item.node.quantity = some quantity := by
        simpa using List.find?_some hitem
      exact exists_replaceItem h hforms hsplit hquantity hvalue
  | none =>
      have hstored := storeForm_append (quantity_ne_of_find? hreads.forms_eq hitem) value.raw []
      rw [List.append_nil, storeForm] at hstored
      rw [hstored]
      exact exists_appendItem h hforms quantity hvalue

/-- So are many forms. -/
theorem exists_setQuantities
    {items : List (Quantity × Text)}
    (h : document.LaidOut (site.rowWith inside))
    (hforms : inside.HasForms site.heading forms)
    (hitems : forall item, item ∈ items -> Balanced item.2) :
    exists (edited : Document) (inside' : Forest),
      document.setQuantities site.heading.id items = ⟨edited, .ok .applied⟩ ∧
        edited.LaidOut (site.rowWith inside') ∧
        inside'.HasForms site.heading (storeForms items forms) := by
  induction items generalizing document inside forms with
  | nil => exact ⟨document, inside, rfl, h, hforms⟩
  | cons item items ih =>
      rcases hitems item (by simp) with ⟨value, hvalue, hraw⟩
      rcases exists_setQuantity h hforms item.1 hvalue with ⟨next, inside', hnext, hlaid, hstored⟩
      rcases ih hlaid hstored (List.forall_mem_cons.mp hitems).2 with
        ⟨edited, final, hedited, hfinal, hall⟩
      refine ⟨edited, final, ?_, hfinal, ?_⟩
      · rw [Document.setQuantities, ← hraw, hnext]
        exact hedited
      · rw [hraw] at hall
        exact hall

end Forms

end PluralsSite
end AndroidStrings
