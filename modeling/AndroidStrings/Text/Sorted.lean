import AndroidStrings.Text.Basic

/-!
# Increasing lists of names

Names are listed in the order of their characters.  Sorting keeps every name, and one that keeps
each name once loses none.
-/

namespace AndroidStrings
namespace Text

/-- Puts a name into an increasing list. -/
def insertSorted (name : Text) : List Text → List Text
  | [] => [name]
  | first :: rest => if name < first then name :: first :: rest else first :: insertSorted name rest

def sortNames (names : List Text) : List Text :=
  names.foldr insertSorted []

theorem mem_insertSorted {name other : Text} {names : List Text} :
    other ∈ insertSorted name names ↔ other = name ∨ other ∈ names := by
  induction names with
  | nil => simp [insertSorted]
  | cons first rest ih =>
      simp only [insertSorted]
      split
      · simp
      · simp only [List.mem_cons, ih]
        constructor
        · rintro (hfirst | hname | hrest)
          · exact Or.inr (Or.inl hfirst)
          · exact Or.inl hname
          · exact Or.inr (Or.inr hrest)
        · rintro (hname | hfirst | hrest)
          · exact Or.inr (Or.inl hname)
          · exact Or.inl hfirst
          · exact Or.inr (Or.inr hrest)

theorem mem_sortNames {name : Text} {names : List Text} :
    name ∈ sortNames names ↔ name ∈ names := by
  induction names with
  | nil => simp [sortNames]
  | cons first rest ih =>
      show name ∈ insertSorted first (sortNames rest) ↔ name ∈ first :: rest
      rw [mem_insertSorted, ih, List.mem_cons]

/-- The names of a list in increasing order, each once. -/
def distinctSorted (names : List Text) : List Text :=
  names.foldr (fun name sorted => if sorted.contains name then sorted else insertSorted name sorted)
    []

theorem mem_distinctSorted {name : Text} {names : List Text} :
    name ∈ distinctSorted names ↔ name ∈ names := by
  induction names with
  | nil => simp [distinctSorted]
  | cons first rest ih =>
      have hstep : distinctSorted (first :: rest) =
          if (distinctSorted rest).contains first then distinctSorted rest
          else insertSorted first (distinctSorted rest) := rfl
      rw [hstep, List.mem_cons]
      split
      · rename_i hfirst
        constructor
        · intro h
          exact Or.inr (ih.mp h)
        · rintro (rfl | h)
          · simpa using hfirst
          · exact ih.mpr h
      · rw [mem_insertSorted, ih]

end Text
end AndroidStrings
