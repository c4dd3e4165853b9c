import AndroidStrings.CommandLine.Run

/-!
# The program

The files that a request looks into are read into a tree, the request is run on it, and the files
that it changed are written back.  The program ends with status 2 when it is not used as it
should be, and with status 1 when the request failed.
-/

namespace AndroidStrings
namespace Program

open CommandLine

/-- A path of the file system, seen from the working directory. -/
def located (path : Path) : IO.FS.DirEntry :=
  ⟨".", String.ofList (FileTree.written path)⟩

/-- Adds a file to a tree, if it can be read. -/
def readFile (tree : FileTree) (path : Path) : IO FileTree := do
  match ← (IO.FS.readBinFile (located path).path).toBaseIO with
  | .ok bytes => return ⟨(path, bytes.toList) :: tree.files, tree.directories⟩
  | .error _ => return tree

def isLink (path : Path) : IO Bool := do
  match ← (located path).path.symlinkMetadata.toBaseIO with
  | .ok found => return found.type == .symlink
  | .error _ => return false

/-- Adds all that lies below a path; directories behind links are left out. -/
partial def readBelow (tree : FileTree) (path : Path) : IO FileTree := do
  if ← (located path).path.isDir then
    let mut found := tree.addDirectory path
    for entry in ← (located path).path.readDir do
      let inner := path ++ [entry.fileName.toList]
      let isDirectory ← (located inner).path.isDir
      if !(isDirectory && (← isLink inner)) then
        found ← readBelow found inner
    return found
  else readFile tree path

/-- Adds the ignore files of the directories around a path. -/
def readIgnoreFiles (tree : FileTree) (path : Path) : IO FileTree :=
  (List.range path.length).foldlM
    (fun found depth => readFile found (path.take depth ++ [FileTree.ignoreFileName])) tree

def readRoot (tree : FileTree) (root : Text) : IO FileTree := do
  let path := FileTree.placeOf root
  readBelow (← readIgnoreFiles tree path) path

/-- The part of the file system that a request looks into. -/
def readTree (request : Request) : IO FileTree := do
  let settings ← readBelow .empty (FileTree.placeOf (request.config.getD Config.fileName))
  match Config.load settings request.config with
  | .ok config => (request.roots config).foldlM readRoot settings
  | .error _ => return settings

def writeChanges (old new : FileTree) : IO Unit :=
  new.files.forM fun file => do
    if old.read? file.1 != some file.2 then
      IO.FS.writeBinFile (located file.1).path ⟨file.2.toArray⟩

def runRequest (request : Request) : IO UInt32 := do
  let tree ← readTree request
  let outcome := request.run tree
  writeChanges tree outcome.tree
  IO.print (String.ofList outcome.text)
  match outcome.failure with
  | none => return 0
  | some cause =>
      IO.eprintln ("❌ Error: " ++ cause.message)
      return 1

def run (arguments : List String) : IO UInt32 := do
  match read? (arguments.map String.toList) with
  | none =>
      IO.eprintln (String.intercalate "\n" usage)
      return 2
  | some (.request request) => runRequest request
  | some invocation =>
      IO.print (String.ofList (invocation.run .empty).text)
      return 0

end Program
end AndroidStrings

def main (arguments : List String) : IO UInt32 :=
  AndroidStrings.Program.run arguments
