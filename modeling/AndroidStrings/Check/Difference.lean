import AndroidStrings.Text.Basic

/-!
# Difference of two texts

The number of positions at which two texts have different characters, and the characters that
one text has beyond the end of the other.
-/

namespace AndroidStrings
namespace Text

def difference : Text → Text → Nat
  | [], right => right.length
  | left, [] => left.length
  | c :: left, d :: right => (if c = d then 0 else 1) + difference left right

end Text
end AndroidStrings
