import AndroidStrings.Resource.Entry

/-!
# Changes since a variant was synchronised

The strings of the source file against those of a reference variant, by name.
-/

namespace AndroidStrings

structure ChangedString where
  id : Text
  source : Text
  variant : Text
  deriving DecidableEq, Repr

structure NamedString where
  id : Text
  value : Text
  deriving DecidableEq, Repr

/-- The strings with different values, those of the source only, and those of the variant
only. -/
structure Changes where
  changed : List ChangedString
  newInSource : List NamedString
  obsolete : List NamedString
  deriving DecidableEq, Repr

namespace Changes

def inSync (changes : Changes) : Bool :=
  changes.changed.isEmpty && changes.newInSource.isEmpty && changes.obsolete.isEmpty

/-- The strings of a file whose names another file does not define as strings. -/
def missingFrom (other file : ResourceFile) : List NamedString :=
  (file.strings.filter fun entry => (other.string? entry.1).isNone).map
    fun entry => ⟨entry.1, entry.2⟩

def between (source variant : ResourceFile) : Changes :=
  { changed := source.strings.filterMap fun entry =>
      match variant.string? entry.1 with
      | some other => if other = entry.2 then none else some ⟨entry.1, entry.2, other⟩
      | none => none
    newInSource := missingFrom variant source
    obsolete := missingFrom source variant }

end Changes
end AndroidStrings
