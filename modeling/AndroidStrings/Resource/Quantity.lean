import AndroidStrings.Text.Search
import AndroidStrings.Text.CharClass

/-!
# Plural quantities

The six quantities of the plural rules, in their fixed order, and the forms of a plural: a text
for some of them.
-/

namespace AndroidStrings

inductive Quantity where
  | zero
  | one
  | two
  | few
  | many
  | other
  deriving DecidableEq, Repr

namespace Quantity

def all : List Quantity :=
  [zero, one, two, few, many, other]

def name : Quantity → Text
  | zero => "zero".toList
  | one => "one".toList
  | two => "two".toList
  | few => "few".toList
  | many => "many".toList
  | other => "other".toList

def lower (c : Char) : Char :=
  if 'A' ≤ c ∧ c ≤ 'Z' then Char.ofNat (c.toNat + 32) else c

/-- Reads a quantity; white space around the name and the case of its letters do not matter. -/
def ofText? (t : Text) : Option Quantity :=
  let word := (Text.trim CharClass.isWhiteSpace t).map lower
  all.find? fun quantity => quantity.name == word

theorem mem_all (quantity : Quantity) : quantity ∈ all := by
  cases quantity <;> simp [all]

end Quantity

structure Plural where
  zero : Option Text := none
  one : Option Text := none
  two : Option Text := none
  few : Option Text := none
  many : Option Text := none
  other : Option Text := none
  deriving DecidableEq, Repr

namespace Plural

def empty : Plural :=
  {}

def get? (plural : Plural) : Quantity → Option Text
  | .zero => plural.zero
  | .one => plural.one
  | .two => plural.two
  | .few => plural.few
  | .many => plural.many
  | .other => plural.other

def insert (plural : Plural) (quantity : Quantity) (form : Text) : Plural :=
  match quantity with
  | .zero => { plural with zero := some form }
  | .one => { plural with one := some form }
  | .two => { plural with two := some form }
  | .few => { plural with few := some form }
  | .many => { plural with many := some form }
  | .other => { plural with other := some form }

/-- The last form given for a quantity counts. -/
def ofList (forms : List (Quantity × Text)) : Plural :=
  forms.foldl (fun plural form => plural.insert form.1 form.2) empty

/-- The forms that are there, in the order of the quantities. -/
def forms (plural : Plural) : List (Quantity × Text) :=
  Quantity.all.filterMap fun quantity => (plural.get? quantity).map fun form => (quantity, form)

theorem get?_insert (plural : Plural) (quantity wanted : Quantity) (form : Text) :
    (plural.insert quantity form).get? wanted =
      if wanted = quantity then some form else plural.get? wanted := by
  cases quantity <;> cases wanted <;> rfl

@[ext] theorem ext {left right : Plural}
    (h : ∀ quantity, left.get? quantity = right.get? quantity) : left = right := by
  have hzero := h .zero
  have hone := h .one
  have htwo := h .two
  have hfew := h .few
  have hmany := h .many
  have hother := h .other
  cases left
  cases right
  simp_all [get?]

end Plural
end AndroidStrings
