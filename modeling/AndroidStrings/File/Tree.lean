import AndroidStrings.Text.Encoding
import AndroidStrings.Text.Search

/-!
# File trees

A tree holds files below a working directory, and directories that may be empty.  A path is the
list of the names on the way; it is written with slashes, where empty names and single dots stay
in place and two dots go up.
-/

namespace AndroidStrings

abbrev Path := List Text

structure FileTree where
  files : List (Path × Bytes)
  directories : List Path
  deriving DecidableEq, Repr

namespace FileTree

def empty : FileTree :=
  ⟨[], []⟩

/-- The bytes of a file. -/
def read? (tree : FileTree) (path : Path) : Option Bytes :=
  (tree.files.find? fun file => file.1 == path).map Prod.snd

def isFile (tree : FileTree) (path : Path) : Bool :=
  (tree.read? path).isSome

/-- The names of an absolute path begin with the name of the root, which is a slash. -/
def rootName : Text :=
  ['/']

/-- The name of the directory around a directory. -/
def parentName : Text :=
  ['.', '.']

/-- A directory is the working directory or one around it, the root, one that is listed, or one
on the way to something. -/
def isDirectory (tree : FileTree) (path : Path) : Bool :=
  path.all (· == parentName) || path == [rootName] ||
    tree.directories.any (fun directory => path.isPrefixOf directory) ||
    tree.files.any fun file => path.isPrefixOf file.1 && path != file.1

def exists? (tree : FileTree) (path : Path) : Bool :=
  tree.isFile path || tree.isDirectory path

/-- Replaces the bytes of a file, or adds the file. -/
def write (tree : FileTree) (path : Path) (bytes : Bytes) : FileTree :=
  if tree.isFile path then
    { tree with files := tree.files.map fun file =>
        if file.1 = path then (path, bytes) else file }
  else { tree with files := tree.files ++ [(path, bytes)] }

def addDirectory (tree : FileTree) (path : Path) : FileTree :=
  { tree with directories := tree.directories ++ [path] }

/-- The name that a path has directly below a directory. -/
def childName? (directory path : Path) : Option Text :=
  if directory.isPrefixOf path then (path.drop directory.length).head? else none

def insertName (names : List Text) (name : Text) : List Text :=
  if names.contains name then names else names ++ [name]

/-- The names directly inside a directory, each once. -/
def children (tree : FileTree) (directory : Path) : List Text :=
  ((tree.files.map Prod.fst ++ tree.directories).filterMap (childName? directory)).foldl
    insertName []

theorem read?_write_self (tree : FileTree) (path : Path) (bytes : Bytes) :
    (tree.write path bytes).read? path = some bytes := by
  unfold write
  split
  · rename_i h
    have hfind : ∀ files : List (Path × Bytes),
        (files.find? fun file => file.1 == path).isSome →
          ((files.map fun file => if file.1 = path then (path, bytes) else file).find?
            fun file => file.1 == path) = some (path, bytes) := by
      intro files hsome
      induction files with
      | nil => simp at hsome
      | cons file files ih =>
          by_cases hp : file.1 = path
          · simp [hp]
          · have hrest : (files.find? fun file => file.1 == path).isSome := by
              simpa [List.find?_cons, hp] using hsome
            simp [hp, ih hrest]
    have hsome : (tree.files.find? fun file => file.1 == path).isSome := by
      simpa [isFile, read?] using h
    simp [read?, hfind tree.files hsome]
  · rename_i h
    have hnone : (tree.files.find? fun file => file.1 == path) = none := by
      cases hfile : tree.files.find? fun file => file.1 == path with
      | none => rfl
      | some file => exact absurd (by simp [isFile, read?, hfile]) h
    simp [read?, List.find?_append, hnone]

theorem read?_write_of_ne (tree : FileTree) {path other : Path} (bytes : Bytes)
    (hne : other ≠ path) : (tree.write path bytes).read? other = tree.read? other := by
  unfold write
  split
  · have hfind : ∀ files : List (Path × Bytes),
        ((files.map fun file => if file.1 = path then (path, bytes) else file).find?
          fun file => file.1 == other) = files.find? fun file => file.1 == other := by
      intro files
      induction files with
      | nil => rfl
      | cons file files ih =>
          by_cases hp : file.1 = path
          · have hother : file.1 ≠ other := fun heq => hne (heq.symm.trans hp)
            have hpath : path ≠ other := fun heq => hne heq.symm
            simp only [List.map_cons, hp, if_true, List.find?_cons]
            rw [beq_false_of_ne hpath]
            exact ih
          · by_cases ho : file.1 = other
            · simp [ho, hne]
            · simp [hp, ho, ih]
    simp [read?, hfind]
  · have hpath : path ≠ other := fun heq => hne heq.symm
    simp [read?, List.find?_append, hpath]

/-!
## Written paths
-/

inductive PathError where
  | notFound
  | notADirectory
  | tooLong
  | nullCharacter
  deriving DecidableEq, Repr

/-- Appends a name to a written path. -/
def joinPath (base name : Text) : Text :=
  if base.isEmpty || base.getLast? == some '/' then base ++ name else base ++ '/' :: name

/-- A path below a written path, written out. -/
def writtenBelow (base : Text) (below : Path) : Text :=
  below.foldl joinPath base

/-- Whether a written path is a name alone; slashes and dots behind the name do not count. -/
def isNameAlone (name path : Text) : Bool :=
  match Text.splitOn '/' path with
  | first :: rest => first == name && rest.all fun other => other.isEmpty || other == ['.']
  | [] => false

/-- The path that one more name leads to. -/
def step (reached : Path) (name : Text) : Path :=
  if name = [] ∨ name = ['.'] then reached
  else if name = parentName ∧ reached = [rootName] then reached
  else if name = parentName ∧ reached ≠ [] ∧ reached.getLast? ≠ some parentName then
    reached.dropLast
  else reached ++ [name]

/-- Where a written path begins, and the names from there. -/
def startOf : Text → Path × List Text
  | '/' :: rest => ([rootName], Text.splitOn '/' rest)
  | path => ([], Text.splitOn '/' path)

/-- The path that a written path stands for, whatever is there. -/
def placeOf (path : Text) : Path :=
  (startOf path).2.foldl step (startOf path).1

/-- A path written out. -/
def written : Path → Text
  | [] => ['.']
  | first :: rest =>
      if first = rootName then '/' :: Text.joinWith ['/'] rest
      else Text.joinWith ['/'] (first :: rest)

/-- The bytes that a name may have. -/
def maxNameSize : Nat :=
  255

/-- The bytes that a written path may have. -/
def maxPathSize : Nat :=
  4095

/-- Goes on from a directory by one name after another; what a name is looked up in has to be a
directory. -/
def follow (tree : FileTree) (reached : Path) : List Text → Except PathError Path
  | [] => .ok reached
  | name :: rest =>
      if tree.isDirectory reached then
        if name.size ≤ maxNameSize then tree.follow (step reached name) rest else .error .tooLong
      else if tree.isFile reached then .error .notADirectory
      else .error .notFound

theorem eq_foldl_step_of_follow {tree : FileTree} {reached found : Path} {names : List Text}
    (h : tree.follow reached names = .ok found) : found = names.foldl step reached := by
  induction names generalizing reached with
  | nil => simpa [follow] using h.symm
  | cons name rest ih =>
      simp only [follow] at h
      split at h
      · split at h
        · simpa using ih h
        · simp at h
      · split at h <;> simp at h

/-- The path that a written path leads to, if every directory on the way is there. -/
def resolve (tree : FileTree) (path : Text) : Except PathError Path :=
  if List.contains path '\x00' then .error .nullCharacter
  else if path.isEmpty then .error .notFound
  else if maxPathSize < path.size then .error .tooLong
  else tree.follow (startOf path).1 (startOf path).2

theorem eq_placeOf_of_resolve {tree : FileTree} {path : Text} {found : Path}
    (h : tree.resolve path = .ok found) : found = placeOf path := by
  unfold resolve at h
  split at h
  · simp at h
  · split at h
    · simp at h
    · split at h
      · simp at h
      · exact eq_foldl_step_of_follow h

def isFileAt (tree : FileTree) (path : Text) : Bool :=
  match tree.resolve path with
  | .ok names => tree.isFile names
  | .error _ => false

def isDirectoryAt (tree : FileTree) (path : Text) : Bool :=
  match tree.resolve path with
  | .ok names => tree.isDirectory names
  | .error _ => false

def existsAt (tree : FileTree) (path : Text) : Bool :=
  tree.isFileAt path || tree.isDirectoryAt path

def readAt? (tree : FileTree) (path : Text) : Option Bytes :=
  match tree.resolve path with
  | .ok names => tree.read? names
  | .error _ => none

def writeAt (tree : FileTree) (path : Text) (bytes : Bytes) : FileTree :=
  match tree.resolve path with
  | .ok names => tree.write names bytes
  | .error _ => tree

end FileTree
end AndroidStrings
