import AndroidStrings.File.Ignore
import AndroidStrings.Project.Directory
import AndroidStrings.Project.Reference

/-!
# Unused strings

A string of the source file is unused when no file of the source tree refers to it.  The source
files are Kotlin, Java and XML files; translations refer to nothing.
-/

namespace AndroidStrings

inductive UnusedError where
  | unreadableSource (cause : Error)
  | missingSourceTree (path : Text)
  deriving DecidableEq, Repr

namespace UnusedError

def message : UnusedError → String
  | unreadableSource cause => cause.message
  | missingSourceTree path => "Source directory does not exist: " ++ String.ofList path

end UnusedError

namespace SourceTree

def extensions : List Text :=
  [".kt".toList, ".java".toList, ".xml".toList]

def isSourceName (name : Text) : Bool :=
  extensions.any fun ending => name.endsWith ending

/-- Names between slashes or backslashes. -/
def pathNames : Text → List Text
  | path => (Text.splitOn '/' path).flatMap (Text.splitOn '\\')

/-- A `strings.xml` in a folder for some qualifier, which has a folder around it. -/
def isTranslationPath (path : Text) : Bool :=
  match (pathNames path).reverse with
  | name :: folder :: _ :: _ =>
      name == ResourceDirectory.fileName &&
        match Text.stripPrefix? ResourceDirectory.qualifiedPrefix folder with
        | some qualifier => !qualifier.isEmpty
        | none => false
  | _ => false

def isSourceFile (root : Text) (below : Path) : Bool :=
  match below.getLast? with
  | some name => isSourceName name && !isTranslationPath (FileTree.writtenBelow root below)
  | none => false

/-- The name that stands for the standard input, where no files are. -/
def standardInput : Text :=
  ['-']

/-- The source files below a directory. -/
def files (tree : FileTree) (root : Text) : Except UnusedError (List Path) :=
  match tree.resolve root with
  | .error _ => .error (.missingSourceTree root)
  | .ok directory =>
      if tree.isDirectory directory then
        if FileTree.isNameAlone standardInput root then .ok []
        else .ok (((tree.walk root directory).filter (isSourceFile root)).map (directory ++ ·))
      else .error (.missingSourceTree root)

/-- The names that a file refers to; a file that is no UTF-8 refers to nothing. -/
def references (tree : FileTree) (file : Path) : List Text :=
  match (tree.read? file).bind Encoding.decodeStrict? with
  | some text => StringReference.scan text
  | none => []

end SourceTree

namespace ResourceDirectory

/-- The names of the source strings that nothing under a directory refers to, in order. -/
def unused (tree : FileTree) (directory : ResourceDirectory) (sourceRoot : Text) :
    Except UnusedError (List Text) :=
  match loadSourceResource tree directory with
  | .error e => .error (.unreadableSource e)
  | .ok source =>
      match SourceTree.files tree sourceRoot with
      | .error e => .error e
      | .ok files =>
          let used := files.flatMap (SourceTree.references tree)
          let ids := source.strings.map Prod.fst
          .ok (Text.distinctSorted (ids.filter fun id => !used.contains id))

end ResourceDirectory
end AndroidStrings
