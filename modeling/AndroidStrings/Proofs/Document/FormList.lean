import Mathlib.Data.List.Induction
import Mathlib.Data.List.Nodup
import AndroidStrings.Resource.Quantity

/-!
# Lists of forms

A form that is stored in a list takes the place of the first form of its quantity, or goes to the
end of the list when there is none.  A list is read the other way round: the last form of a quantity
counts.

## Main statements

- `filter_storeForms` : the forms of one quantity in a list in which forms have been stored.
- `map_fst_storeForms` : its quantities.
- `lastForm?_storeForms` : what is read of it, where no quantity stands twice.
-/

namespace AndroidStrings

/-- The form of a quantity: of several the last counts. -/
def lastForm? (quantity : Quantity) (forms : List (Quantity × Text)) : Option Text :=
  ((forms.filter fun form => form.1 == quantity).getLast?).map Prod.snd

/-- A quantity that is named has a form. -/
theorem exists_lastForm?
    {quantity : Quantity} {forms : List (Quantity × Text)}
    (h : quantity ∈ forms.map Prod.fst) :
    exists value : Text, lastForm? quantity forms = some value := by
  rcases List.mem_map.mp h with ⟨form, hform, rfl⟩
  have hmem : form ∈ forms.filter fun other => other.1 == form.1 :=
    List.mem_filter.mpr ⟨hform, beq_self_eq_true _⟩
  exact ⟨_, by rw [lastForm?, List.getLast?_eq_some_getLast (List.ne_nil_of_mem hmem)]; rfl⟩

theorem Plural.get?_ofList (forms : List (Quantity × Text)) (quantity : Quantity) :
    (ofList forms).get? quantity = lastForm? quantity forms := by
  induction forms using List.reverseRecOn with
  | nil => cases quantity <;> rfl
  | append_singleton forms form ih =>
      have hlast : ofList (forms ++ [form]) = (ofList forms).insert form.1 form.2 := by
        simp [ofList]
      rw [hlast, get?_insert, lastForm?, List.filter_append]
      by_cases hform : quantity = form.1
      · simp [hform]
      · simp [hform, Ne.symm hform, ih, lastForm?]

/-- The list with a form in the place of the first one of its quantity, or at the end. -/
def storeForm (quantity : Quantity) (value : Text) :
    List (Quantity × Text) -> List (Quantity × Text)
  | [] => [(quantity, value)]
  | form :: forms =>
      if form.1 = quantity then (quantity, value) :: forms
      else form :: storeForm quantity value forms

/-- Forms are stored one after another. -/
def storeForms (items forms : List (Quantity × Text)) : List (Quantity × Text) :=
  items.foldl (fun stored item => storeForm item.1 item.2 stored) forms

/-- The quantities that are not known yet, each once, in the order in which they come up. -/
def newQuantities (named known : List Quantity) : List Quantity :=
  (named.filter fun quantity => !known.contains quantity).eraseDups

section Store

variable {quantity quantity' : Quantity} {value : Text} {items forms : List (Quantity × Text)}

theorem storeForm_append
    {front : List (Quantity × Text)}
    (h : forall form, form ∈ front -> form.1 ≠ quantity)
    (value : Text) (back : List (Quantity × Text)) :
    storeForm quantity value (front ++ back) = front ++ storeForm quantity value back := by
  induction front with
  | nil => rfl
  | cons form front ih =>
      rw [List.forall_mem_cons] at h
      rw [List.cons_append, storeForm, if_neg h.1, ih h.2, List.cons_append]

theorem filter_storeForm_self :
    (storeForm quantity value forms).filter (fun form => form.1 == quantity) =
      (quantity, value) :: (forms.filter fun form => form.1 == quantity).tail := by
  induction forms with
  | nil => simp [storeForm]
  | cons form forms ih =>
      rw [storeForm]
      by_cases hform : form.1 = quantity
      · simp [hform]
      · simp [hform, ih]

theorem filter_storeForm_of_ne
    (h : quantity ≠ quantity') :
    (storeForm quantity value forms).filter (fun form => form.1 == quantity') =
      forms.filter fun form => form.1 == quantity' := by
  induction forms with
  | nil => simp [storeForm, h]
  | cons form forms ih =>
      rw [storeForm]
      by_cases hform : form.1 = quantity
      · simp [hform, h]
      · simp [hform, List.filter_cons, ih]

/-- Of the forms of one quantity the first one is replaced by what is stored last. -/
theorem filter_storeForms (items forms : List (Quantity × Text)) (quantity : Quantity) :
    (storeForms items forms).filter (fun form => form.1 == quantity) =
      match lastForm? quantity items with
      | none => forms.filter fun form => form.1 == quantity
      | some value => (quantity, value) :: (forms.filter fun form => form.1 == quantity).tail := by
  induction items using List.reverseRecOn with
  | nil => rfl
  | append_singleton items item ih =>
      have hstep : storeForms (items ++ [item]) forms =
          storeForm item.1 item.2 (storeForms items forms) := by
        simp [storeForms]
      rw [hstep]
      by_cases hitem : item.1 = quantity
      · have hlast : lastForm? quantity (items ++ [item]) = some item.2 := by
          simp [lastForm?, List.filter_append, hitem]
        rw [hlast, hitem, filter_storeForm_self, ih]
        cases lastForm? quantity items <;> rfl
      · have hlast : lastForm? quantity (items ++ [item]) = lastForm? quantity items := by
          simp [lastForm?, List.filter_append, hitem]
        rw [hlast, filter_storeForm_of_ne hitem, ih]

theorem map_fst_storeForm :
    (storeForm quantity value forms).map Prod.fst =
      if quantity ∈ forms.map Prod.fst then forms.map Prod.fst
      else forms.map Prod.fst ++ [quantity] := by
  induction forms with
  | nil => rfl
  | cons form forms ih =>
      rw [storeForm]
      by_cases hform : form.1 = quantity
      · simp [hform]
      · rw [if_neg hform, List.map_cons, ih]
        simp only [List.map_cons, List.mem_cons, Ne.symm hform, false_or]
        split <;> rfl

/-- Stored forms keep the quantities of a list, and the new ones follow. -/
theorem map_fst_storeForms (items forms : List (Quantity × Text)) :
    (storeForms items forms).map Prod.fst =
      forms.map Prod.fst ++ newQuantities (items.map Prod.fst) (forms.map Prod.fst) := by
  induction items generalizing forms with
  | nil => simp [storeForms, newQuantities]
  | cons item items ih =>
      have hstep : storeForms (item :: items) forms =
          storeForms items (storeForm item.1 item.2 forms) := rfl
      rw [hstep, ih, newQuantities, newQuantities, map_fst_storeForm]
      by_cases hitem : item.1 ∈ forms.map Prod.fst
      · simp [hitem]
      · have hrest : (items.map Prod.fst).filter
              (fun quantity => !(forms.map Prod.fst ++ [item.1]).contains quantity) =
            (items.map Prod.fst).filter
              fun quantity => !quantity == item.1 && !(forms.map Prod.fst).contains quantity := by
          apply List.filter_congr
          intro quantity _
          rw [Bool.eq_iff_iff]
          simp [and_comm]
        rw [if_neg hitem, List.map_cons, List.filter_cons_of_pos (by simpa using hitem),
          List.eraseDups_cons, List.filter_filter, List.append_assoc, hrest]
        rfl

/-- Where no quantity stands twice, none does when forms have been stored. -/
theorem nodup_storeForms
    (h : (forms.map Prod.fst).Nodup)
    (items : List (Quantity × Text)) :
    ((storeForms items forms).map Prod.fst).Nodup := by
  induction items generalizing forms with
  | nil => exact h
  | cons item items ih =>
      apply ih
      rw [map_fst_storeForm]
      split
      · exact h
      · rename_i hitem
        refine List.nodup_append.mpr ⟨h, List.nodup_singleton _, ?_⟩
        rintro quantity hmem _ hsame rfl
        exact hitem (List.mem_singleton.mp hsame ▸ hmem)

/-!
# What is read
-/

theorem tail_filter_eq_nil_iff :
    (forms.filter fun form => form.1 == quantity).tail = [] ↔
      (forms.map Prod.fst).count quantity ≤ 1 := by
  have hcount : (forms.map Prod.fst).count quantity =
      (forms.filter fun form => form.1 == quantity).length := by
    rw [List.count, List.countP_map, List.countP_eq_length_filter]
    rfl
  rw [hcount, ← List.length_eq_zero_iff, List.length_tail]
  omega

/-- A quantity of which nothing is stored has the form that it had. -/
theorem lastForm?_storeForms_of_none
    (h : lastForm? quantity items = none) :
    lastForm? quantity (storeForms items forms) = lastForm? quantity forms := by
  rw [lastForm?, filter_storeForms, h, lastForm?]

/-- What is stored last of a quantity is its form, unless other forms of it stand behind. -/
theorem lastForm?_storeForms_of_some
    (h : lastForm? quantity items = some value) :
    lastForm? quantity (storeForms items forms) = some value ↔
      (forms.map Prod.fst).count quantity ≤ 1 ∨ lastForm? quantity forms = some value := by
  rw [lastForm?, filter_storeForms, h, ← tail_filter_eq_nil_iff, lastForm?]
  cases hold : forms.filter fun form => form.1 == quantity with
  | nil => simp
  | cons first rest =>
      cases rest with
      | nil => simp
      | cons second rest => simp [List.getLast?_cons_cons]

/-- Where no quantity stands twice, what is stored overrides what was there. -/
theorem lastForm?_storeForms
    (h : (forms.map Prod.fst).Nodup)
    (items : List (Quantity × Text)) (quantity : Quantity) :
    lastForm? quantity (storeForms items forms) =
      (lastForm? quantity items).or (lastForm? quantity forms) := by
  cases hlast : lastForm? quantity items with
  | none => rw [lastForm?_storeForms_of_none hlast, Option.none_or]
  | some value =>
      rw [Option.some_or, lastForm?_storeForms_of_some hlast]
      exact .inl (List.nodup_iff_count_le_one.mp h quantity)

end Store
end AndroidStrings
