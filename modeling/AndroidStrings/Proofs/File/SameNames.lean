import AndroidStrings.File.Tree

/-!
# Trees with the same names

Where a path leads, and which names a directory holds, does not depend on the bytes of the files.
A file that is there can be written again without changing either.

## Main statements

- `SameNames.resolve` : written paths lead to the same places.
- `sameNames_write` : writing a file that is there keeps all names.
- `read?_write` : the bytes of every file after a write.
-/

namespace AndroidStrings
namespace FileTree

/-- The trees have the same files, perhaps with other bytes, and the same directories. -/
structure SameNames (left right : FileTree) : Prop where
  files : left.files.map Prod.fst = right.files.map Prod.fst
  directories : left.directories = right.directories

theorem isFile_iff_mem (tree : FileTree) (path : Path) :
    tree.isFile path = true ↔ path ∈ tree.files.map Prod.fst := by
  rw [isFile, read?, Option.isSome_map, List.find?_isSome, List.mem_map]
  constructor
  · rintro ⟨file, hfile, heq⟩
    exact ⟨file, hfile, beq_iff_eq.mp heq⟩
  · rintro ⟨file, hfile, heq⟩
    exact ⟨file, hfile, beq_iff_eq.mpr heq⟩

theorem isFile_of_read?
    {tree : FileTree} {path : Path} {bytes : Bytes}
    (h : tree.read? path = some bytes) :
    tree.isFile path = true := by
  rw [isFile, h]
  rfl

namespace SameNames

variable {left middle right : FileTree}

theorem refl (tree : FileTree) : SameNames tree tree :=
  ⟨rfl, rfl⟩

theorem symm (h : SameNames left right) : SameNames right left :=
  ⟨h.files.symm, h.directories.symm⟩

theorem trans (hleft : SameNames left middle) (hright : SameNames middle right) :
    SameNames left right :=
  ⟨hleft.files.trans hright.files, hleft.directories.trans hright.directories⟩

theorem isFile (h : SameNames left right) (path : Path) :
    left.isFile path = right.isFile path := by
  rw [Bool.eq_iff_iff, isFile_iff_mem, isFile_iff_mem, h.files]

theorem isDirectory (h : SameNames left right) (path : Path) :
    left.isDirectory path = right.isDirectory path := by
  have hany : forall tree : FileTree,
      (tree.files.any fun file => path.isPrefixOf file.1 && path != file.1) =
        (tree.files.map Prod.fst).any fun name => path.isPrefixOf name && path != name := by
    intro tree
    rw [List.any_map]
    rfl
  unfold FileTree.isDirectory
  rw [hany, hany, h.files, h.directories]

theorem children (h : SameNames left right) (directory : Path) :
    left.children directory = right.children directory := by
  unfold FileTree.children
  rw [h.files, h.directories]

theorem follow (h : SameNames left right) (reached : Path) (names : List Text) :
    left.follow reached names = right.follow reached names := by
  induction names generalizing reached with
  | nil => rfl
  | cons name rest ih =>
      simp only [FileTree.follow]
      rw [h.isDirectory, h.isFile, ih]

/-- Written paths lead to the same places. -/
theorem resolve (h : SameNames left right) (path : Text) :
    left.resolve path = right.resolve path := by
  unfold FileTree.resolve
  rw [h.follow]

theorem isFileAt (h : SameNames left right) (path : Text) :
    left.isFileAt path = right.isFileAt path := by
  unfold FileTree.isFileAt
  rw [h.resolve]
  cases right.resolve path with
  | ok names => exact h.isFile names
  | error e => rfl

end SameNames

/-!
# Writing
-/

/-- Writing a file that is there keeps all names. -/
theorem sameNames_write
    {tree : FileTree} {path : Path}
    (h : tree.isFile path = true)
    (bytes : Bytes) :
    SameNames (tree.write path bytes) tree := by
  unfold write
  rw [if_pos h]
  constructor
  · rw [List.map_map]
    apply List.map_congr_left
    intro file _
    by_cases hpath : file.1 = path
    · simp [hpath]
    · simp [hpath]
  · rfl

theorem read?_write (tree : FileTree) (path other : Path) (bytes : Bytes) :
    (tree.write path bytes).read? other =
      if other = path then some bytes else tree.read? other := by
  by_cases hother : other = path
  · rw [if_pos hother, hother, read?_write_self]
  · rw [if_neg hother, read?_write_of_ne tree bytes hother]

theorem SameNames.readAt?
    {left right : FileTree} {path : Text}
    (h : SameNames left right)
    (hread : left.read? (placeOf path) = right.read? (placeOf path)) :
    left.readAt? path = right.readAt? path := by
  unfold FileTree.readAt?
  rw [h.resolve]
  cases hresolve : right.resolve path with
  | error fault => rfl
  | ok place =>
      rw [eq_placeOf_of_resolve hresolve]
      exact hread

/-- A path that leads to a file leads to the place that it stands for. -/
theorem readAt?_eq_some_iff (tree : FileTree) (path : Text) (bytes : Bytes) :
    tree.readAt? path = some bytes ↔
      tree.resolve path = .ok (placeOf path) ∧ tree.read? (placeOf path) = some bytes := by
  unfold readAt?
  cases hresolve : tree.resolve path with
  | error e => simp
  | ok place =>
      rw [eq_placeOf_of_resolve hresolve]
      simp

theorem writeAt_eq_write
    {tree : FileTree} {path : Text}
    (h : tree.resolve path = .ok (placeOf path))
    (bytes : Bytes) :
    tree.writeAt path bytes = tree.write (placeOf path) bytes := by
  rw [writeAt, h]

end FileTree
end AndroidStrings
