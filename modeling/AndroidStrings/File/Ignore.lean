import AndroidStrings.File.Glob
import AndroidStrings.File.Tree
import AndroidStrings.Text.CharClass

/-!
# Ignore files

A file named `.ignore` lists patterns for what lies below its directory.  Of its rules the last
one that matches decides, and of the ignore files above a path the nearest one that decides.
What lies in an ignored directory is ignored with it.
-/

namespace AndroidStrings

structure IgnoreRule where
  glob : Glob
  /-- The rule takes back what other rules ignore. -/
  isException : Bool
  directoriesOnly : Bool

namespace IgnoreRule

/-- A rule without a slash inside matches at every depth, and one that ends in two stars matches
what is inside a directory but not the directory. -/
def anchoredPattern (pattern : Text) (anchored : Bool) : Text :=
  let deep :=
    if anchored || List.contains pattern '/' || pattern == ['*', '*'] then pattern
    else "**/".toList ++ pattern
  if deep.endsWith "/**".toList then deep ++ "/*".toList else deep

/-- Cuts the slash that restricts a rule to directories, and a backslash before it. -/
def cutDirectoryMark (pattern : Text) : Bool × Text :=
  if pattern.getLast? = some '/' then
    let cut := pattern.dropLast
    (true, if cut.getLast? = some '\\' then cut.dropLast else cut)
  else (false, pattern)

def ofPattern? (isException anchored : Bool) (pattern : Text) : Option IgnoreRule :=
  let (directoriesOnly, body) := cutDirectoryMark pattern
  (Glob.parse? (anchoredPattern body anchored)).map fun glob =>
    ⟨glob, isException, directoriesOnly⟩

/-- A rule whose exception mark has been read. -/
def ofAnchored? (isException : Bool) : Text → Option IgnoreRule
  | '/' :: pattern => ofPattern? isException true pattern
  | pattern => ofPattern? isException false pattern

/-- A line as a rule: nothing for comments, empty lines and faulty patterns. -/
def ofLine? (line : Text) : Option IgnoreRule :=
  let trimmed :=
    if line.endsWith "\\ ".toList then line else line.trimEnd CharClass.isWhiteSpace
  match line, trimmed with
  | '#' :: _, _ => none
  | _, [] => none
  | _, '\\' :: '!' :: rest => ofPattern? false false ('!' :: rest)
  | _, '\\' :: '#' :: rest => ofPattern? false false ('#' :: rest)
  | _, '!' :: rest => ofAnchored? true rest
  | _, pattern => ofAnchored? false pattern

def concerns (rule : IgnoreRule) (path : Text) (isDirectory : Bool) : Bool :=
  rule.glob.accepts path && (isDirectory || !rule.directoriesOnly)

/-!
## Reading ignore files
-/

def lineFeed : UInt8 :=
  0x0A

def carriageReturn : UInt8 :=
  0x0D

/-- The lines of an ignore file as bytes.  A carriage return before a line feed goes with it, but
one at the end of the file stays. -/
def byteLines (bytes : Bytes) : List Bytes :=
  let segments := Text.splitOn lineFeed bytes
  let strip (line : Bytes) :=
    if line.getLast? = some carriageReturn then line.dropLast else line
  segments.dropLast.map strip ++ segments.getLast?.toList

/-- The lines up to the first one that is no UTF-8, without a mark in front of the first. -/
def readableLines (bytes : Bytes) : List Text :=
  match ((byteLines bytes).map Encoding.decodeStrict?).takeWhile Option.isSome with
  | some first :: rest => Text.trimStart (· == '\ufeff') first :: rest.filterMap id
  | _ => []

def rulesOf (bytes : Bytes) : List IgnoreRule :=
  (readableLines bytes).filterMap ofLine?

/-- What rules say on a path, if any of them concerns it: whether it is ignored. -/
def verdict? (rules : List IgnoreRule) (path : Text) (isDirectory : Bool) : Option Bool :=
  (rules.reverse.find? fun rule => rule.concerns path isDirectory).map
    fun rule => !rule.isException

end IgnoreRule

namespace FileTree

def ignoreFileName : Text :=
  ".ignore".toList

/-- The rules of the ignore file in a directory. -/
def ignoreRules (tree : FileTree) (directory : Path) : List IgnoreRule :=
  match tree.read? (directory ++ [ignoreFileName]) with
  | some bytes => IgnoreRule.rulesOf bytes
  | none => []

/-- A written path without a dot and a slash in front. -/
def dropDotSlash : Text → Text
  | '.' :: '/' :: path => path
  | path => path

/-- What rules of a written directory are held against for a written path in it: the path without
the text of the directory and a slash.  A path without a slash stays as it is, and so does every
path if the directory is a dot. -/
def pathInside (directory path : Text) : Text :=
  let shown := dropDotSlash (dropDotSlash path)
  let around := dropDotSlash directory
  if isNameAlone ['.'] around || !List.contains shown '/' then shown
  else
    match Text.stripPrefix? around shown with
    | some ('/' :: rest) => rest
    | some rest => rest
    | none => shown

/-- The depths at which a path has a directory around it. -/
def depthsAround (path : Path) : List Nat :=
  (List.range path.length).filter fun depth =>
    match path[depth]? with
    | some name => name != parentName && name != rootName
    | none => false

/-- Whether a path below the root of a walk is ignored by itself: the ignore files above it are
asked from the nearest one up. -/
def isIgnoredAlone (tree : FileTree) (root : Text) (place below : Path) (isDirectory : Bool) :
    Bool :=
  let inside :=
    (List.range below.length).reverse.map fun depth =>
      (place ++ below.take depth,
        pathInside (writtenBelow root (below.take depth)) (writtenBelow root below))
  let around :=
    (depthsAround place).reverse.map fun depth =>
      (place.take depth, Text.joinWith ['/'] (place.drop depth ++ below))
  ((inside ++ around).findSome? fun (directory, path) =>
    IgnoreRule.verdict? (tree.ignoreRules directory) path isDirectory).getD false

/-- Whether a walk leaves out a file below its root, for itself or for a directory on the way. -/
def isIgnored (tree : FileTree) (root : Text) (place below : Path) : Bool :=
  (List.range below.length).any fun depth =>
    tree.isIgnoredAlone root place (below.take (depth + 1)) (depth + 1 < below.length)

/-- The files that a walk meets, by their paths below its root; the root as it is written and the
place where it is. -/
def walk (tree : FileTree) (root : Text) (place : Path) : List Path :=
  let below := (tree.files.map Prod.fst).filterMap fun path =>
    if place.isPrefixOf path then some (path.drop place.length) else none
  below.filter fun path => !tree.isIgnored root place path

end FileTree
end AndroidStrings
