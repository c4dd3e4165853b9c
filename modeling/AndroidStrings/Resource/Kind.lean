import AndroidStrings.Text.Basic

/-!
# Kinds of entries

A resource file defines strings, plurals and string arrays; each kind has its own element.
-/

namespace AndroidStrings

inductive EntryKind where
  | string
  | plurals
  | stringArray
  deriving DecidableEq, Repr

namespace EntryKind

def tag : EntryKind → Text
  | string => "string".toList
  | plurals => "plurals".toList
  | stringArray => "string-array".toList

def ofTag? (name : Text) : Option EntryKind :=
  if name = tag string then some string
  else if name = tag plurals then some plurals
  else if name = tag stringArray then some stringArray
  else none

theorem ofTag?_tag (kind : EntryKind) : ofTag? kind.tag = some kind := by
  cases kind <;> rfl

theorem ofTag?_eq_some_iff {name : Text} {kind : EntryKind} :
    ofTag? name = some kind ↔ name = kind.tag := by
  constructor
  · intro h
    unfold ofTag? at h
    split at h
    · simp_all
    · split at h
      · simp_all
      · split at h
        · simp_all
        · simp at h
  · rintro rfl
    exact ofTag?_tag kind

/-- A kind with the name of an entry: what an entry is found by. -/
abbrev Key :=
  EntryKind × Text

end EntryKind
end AndroidStrings
