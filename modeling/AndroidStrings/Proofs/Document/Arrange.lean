import AndroidStrings.Document.Sort

/-!
# Arranging by keys

An order of keys says which item comes first, but no item is lost or made up, and nothing but the
keys of the items counts.

## Main statements

- `arrange_perm` : arranging keeps every item.
- `arrange_map` : items are arranged by their keys alone.
- `arranged_iff` : arranging takes, key by key, the first item left that has the key.
- `filter_arrange` : items that arranging leaves in their order.
- `exists_arrange_exchange` : an item in the place of another one with its key.
-/

namespace AndroidStrings

section Arrange

variable {α β : Type}

theorem find?_cons_eraseP_perm
    {p : α -> Bool} {items : List α} {item : α}
    (h : items.find? p = some item) :
    (item :: items.eraseP p).Perm items := by
  induction items with
  | nil => simp at h
  | cons first items ih =>
      by_cases hfirst : p first = true
      · rw [List.find?_cons_of_pos hfirst, Option.some.injEq] at h
        rw [List.eraseP_cons_of_pos hfirst, h]
      · rw [List.find?_cons_of_neg hfirst] at h
        rw [List.eraseP_cons_of_neg hfirst]
        exact (List.Perm.swap first item _).trans ((ih h).cons first)

/-- Arranging keeps every item. -/
theorem arrange_perm (key : α -> Option EntryKind.Key) (order : List EntryKind.Key)
    (items : List α) :
    (arrange key order items).Perm items := by
  induction order generalizing items with
  | nil => exact List.Perm.refl _
  | cons wanted order ih =>
      rw [arrange]
      split
      · rename_i item hitem
        exact ((ih _).cons item).trans (find?_cons_eraseP_perm hitem)
      · exact ih items

/-- Items are arranged by their keys alone. -/
theorem arrange_map (key : β -> Option EntryKind.Key) (f : α -> β) (order : List EntryKind.Key)
    (items : List α) :
    arrange key order (items.map f) = (arrange (key ∘ f) order items).map f := by
  induction order generalizing items with
  | nil => rfl
  | cons wanted order ih =>
      rw [arrange, arrange, List.find?_map]
      rw [show (fun item => key item == some wanted) ∘ f =
        fun item => (key ∘ f) item == some wanted from rfl]
      cases items.find? fun item => (key ∘ f) item == some wanted with
      | none => exact ih items
      | some item =>
          simp only [Option.map_some, List.map_cons, List.eraseP_map, ih]
          rfl

/-- The result of taking the first item left for each key of an order in turn, with the items left
over behind them. -/
inductive Arranged (key : α -> Option EntryKind.Key) :
    List EntryKind.Key -> List α -> List α -> Prop where
  | done (items : List α) : Arranged key [] items items
  | take {wanted : EntryKind.Key} {order : List EntryKind.Key} {front back result : List α}
      {item : α} :
      (forall other, other ∈ front -> key other ≠ some wanted) ->
      key item = some wanted ->
      Arranged key order (front ++ back) result ->
      Arranged key (wanted :: order) (front ++ item :: back) (item :: result)
  | skip {wanted : EntryKind.Key} {order : List EntryKind.Key} {items result : List α} :
      (forall item, item ∈ items -> key item ≠ some wanted) ->
      Arranged key order items result ->
      Arranged key (wanted :: order) items result

section Arranged

variable {key : α -> Option EntryKind.Key} {wanted : EntryKind.Key} {order : List EntryKind.Key}

theorem arrange_cons_of_take
    {front back : List α} {item : α}
    (hfront : forall other, other ∈ front -> key other ≠ some wanted)
    (hitem : key item = some wanted) :
    arrange key (wanted :: order) (front ++ item :: back) =
      item :: arrange key order (front ++ back) := by
  let wants : α -> Bool := fun other => key other == some wanted
  have hfalse : forall other, other ∈ front -> ¬wants other = true := by
    intro other hother
    rw [beq_iff_eq]
    exact hfront other hother
  have htrue : wants item = true := beq_iff_eq.mpr hitem
  have hfind : (front ++ item :: back).find? wants = some item := by
    rw [List.find?_append, List.find?_eq_none.mpr hfalse, Option.none_or,
      List.find?_cons_of_pos htrue]
  have herase : (front ++ item :: back).eraseP wants = front ++ back := by
    rw [List.eraseP_append_right _ hfalse, List.eraseP_cons_of_pos htrue]
  rw [arrange, hfind]
  exact congrArg (fun rest => item :: arrange key order rest) herase

theorem arrange_cons_of_skip
    {items : List α}
    (h : forall item, item ∈ items -> key item ≠ some wanted) :
    arrange key (wanted :: order) items = arrange key order items := by
  have hnone : items.find? (fun item => key item == some wanted) = none := by
    rw [List.find?_eq_none]
    intro item hitem
    rw [beq_iff_eq]
    exact h item hitem
  rw [arrange, hnone]

theorem arranged_arrange (key : α -> Option EntryKind.Key) (order : List EntryKind.Key)
    (items : List α) :
    Arranged key order items (arrange key order items) := by
  induction order generalizing items with
  | nil => exact .done items
  | cons wanted order ih =>
      cases hfind : items.find? fun item => key item == some wanted with
      | none =>
          have hskip : forall item, item ∈ items -> key item ≠ some wanted := by
            intro item hitem hkey
            exact List.find?_eq_none.mp hfind item hitem (beq_iff_eq.mpr hkey)
          rw [arrange_cons_of_skip hskip]
          exact .skip hskip (ih items)
      | some item =>
          rcases List.find?_eq_some_iff_append.mp hfind with ⟨hitem, front, back, rfl, hfront⟩
          have hkey : key item = some wanted := beq_iff_eq.mp hitem
          have hbefore : forall other, other ∈ front -> key other ≠ some wanted := by
            intro other hother
            simpa using hfront other hother
          rw [arrange_cons_of_take hbefore hkey]
          exact .take hbefore hkey (ih _)

/-- Arranging takes, key by key, the first item left that has the key. -/
theorem arranged_iff
    {items result : List α} :
    Arranged key order items result ↔ arrange key order items = result := by
  constructor
  · intro h
    induction h with
    | done items => rfl
    | take hfront hitem _ ih => rw [arrange_cons_of_take hfront hitem, ih]
    | skip hskip _ ih => rw [arrange_cons_of_skip hskip, ih]
  · intro h
    rw [← h]
    exact arranged_arrange key order items

theorem Arranged.filter_eq
    {kept : α -> Bool} {items result : List α}
    (h : Arranged key order items result)
    (hkept : forall wanted item, wanted ∈ order -> key item = some wanted -> kept item = true ->
      forall other, kept other = true -> key other = some wanted) :
    result.filter kept = items.filter kept := by
  induction h with
  | done items => rfl
  | @take wanted order front back result item hfront hitem _ ih =>
      have hrest := ih fun other item hother => hkept other item (List.mem_cons_of_mem _ hother)
      rw [List.filter_append] at hrest
      rw [List.filter_append]
      cases hcase : kept item with
      | false =>
          rw [List.filter_cons_of_neg (by simp [hcase]), List.filter_cons_of_neg (by simp [hcase])]
          exact hrest
      | true =>
          -- The items kept have the key that is taken, so none of them stands before this one.
          have hnone : front.filter kept = [] := by
            rw [List.filter_eq_nil_iff]
            intro other hother hmem
            exact hfront other hother
              (hkept wanted item List.mem_cons_self hitem hcase other hmem)
          rw [hnone, List.nil_append] at hrest ⊢
          rw [List.filter_cons_of_pos hcase, List.filter_cons_of_pos hcase, hrest]
  | skip _ _ ih =>
      exact ih fun other item hother => hkept other item (List.mem_cons_of_mem _ hother)

/-- Items stay in their order if, as soon as the order names one of them, all of them have this
key. -/
theorem filter_arrange
    {kept : α -> Bool}
    (items : List α)
    (hkept : forall wanted item, wanted ∈ order -> key item = some wanted -> kept item = true ->
      forall other, kept other = true -> key other = some wanted) :
    (arrange key order items).filter kept = items.filter kept :=
  (arranged_arrange key order items).filter_eq hkept

/-- An item with the same key takes the place of an item, and the first item with its key stays
the first one. -/
theorem exists_arrange_exchange
    {front : List α} {item item' : α}
    (hfront : forall other, other ∈ front -> key other ≠ key item)
    (hkey : key item' = key item)
    (order : List EntryKind.Key) (back : List α) :
    exists before after : List α,
      arrange key order (front ++ item :: back) = before ++ item :: after ∧
        arrange key order (front ++ item' :: back) = before ++ item' :: after ∧
        forall other, other ∈ before -> key other ≠ key item := by
  induction order generalizing front back with
  | nil => exact ⟨front, back, rfl, rfl, hfront⟩
  | cons wanted order ih =>
      by_cases hitem : key item = some wanted
      · rw [hitem] at hfront
        exact ⟨[], arrange key order (front ++ back), arrange_cons_of_take hfront hitem,
          arrange_cons_of_take hfront (hkey.trans hitem), by simp⟩
      -- Another item is taken, or none at all, whichever of the two stands here.
      let wants : α -> Bool := fun other => key other == some wanted
      have hskip : forall same : α, key same = key item -> ¬wants same = true := by
        intro same hsame
        rw [beq_iff_eq, hsame]
        exact hitem
      have hfind : forall same : α, key same = key item ->
          (front ++ same :: back).find? wants = (front ++ back).find? wants := by
        intro same hsame
        rw [List.find?_append, List.find?_append, List.find?_cons_of_neg (hskip same hsame)]
      have herase : exists front' back' : List α, front' ⊆ front ∧
          forall same : α, key same = key item ->
            (front ++ same :: back).eraseP wants = front' ++ same :: back' := by
        by_cases hany : front.any wants = true
        · refine ⟨front.eraseP wants, back, fun _ => List.mem_of_mem_eraseP, fun same _ => ?_⟩
          rw [List.eraseP_append, if_pos hany]
        · refine ⟨front, back.eraseP wants, fun _ => id, fun same hsame => ?_⟩
          rw [List.eraseP_append, if_neg hany, List.eraseP_cons_of_neg (hskip same hsame)]
      rcases herase with ⟨front', back', hsubset, herase⟩
      rw [arrange, arrange, hfind item rfl, hfind item' hkey]
      cases htaken : (front ++ back).find? wants with
      | none => exact ih hfront back
      | some other =>
          have hother : wants other = true := List.find?_some htaken
          rcases ih (fun another hmem => hfront another (hsubset hmem)) back' with
            ⟨before, after, hold, hnew, hbefore⟩
          refine ⟨other :: before, after, ?_, ?_, List.forall_mem_cons.mpr ⟨?_, hbefore⟩⟩
          · exact congrArg (other :: ·) ((congrArg _ (herase item rfl)).trans hold)
          · exact congrArg (other :: ·) ((congrArg _ (herase item' hkey)).trans hnew)
          · exact fun hsame => hskip other hsame hother

end Arranged

end Arrange

end AndroidStrings
