import AndroidStrings.Document.Parse
import AndroidStrings.File.Tree
import AndroidStrings.Language.Qualifier
import AndroidStrings.Text.Sorted

/-!
# Resource directories

A resource directory holds `values/strings.xml`, the source file, and a translation in
`values-…/strings.xml` for every qualifier that names a language.  Other qualifiers are
configurations and no languages.
-/

namespace AndroidStrings

/-- A resource directory, by its written path. -/
structure ResourceDirectory where
  root : Text
  deriving DecidableEq, Repr

namespace ResourceDirectory

def fileName : Text :=
  "strings.xml".toList

def sourceFolder : Text :=
  "values".toList

def qualifiedPrefix : Text :=
  "values-".toList

def pathIn (directory : ResourceDirectory) (folder : Text) : Text :=
  FileTree.joinPath (FileTree.joinPath directory.root folder) fileName

def sourcePath (directory : ResourceDirectory) : Text :=
  directory.pathIn sourceFolder

def languagePath (directory : ResourceDirectory) (language : Text) : Text :=
  if Qualifier.isSource language then directory.sourcePath
  else directory.pathIn (qualifiedPrefix ++ language)

/-- The language that a folder name stands for, when the folder holds a translation. -/
def translationIn? (tree : FileTree) (root : Path) (folder : Text) : Option Text :=
  match Text.stripPrefix? qualifiedPrefix folder with
  | none => none
  | some qualifier =>
      if Qualifier.isLanguage qualifier && tree.isFile (root ++ [folder, fileName]) then
        some qualifier
      else none

/-- The qualifiers of all translations, in order. -/
def languages (tree : FileTree) (directory : ResourceDirectory) : Except Error (List Text) :=
  match tree.resolve directory.root with
  | .error _ => .error (.fileNotFound directory.root)
  | .ok root =>
      if tree.isDirectory root then
        .ok (Text.sortNames ((tree.children root).filterMap (translationIn? tree root)))
      else .error (.fileNotFound directory.root)

def load (tree : FileTree) (directory : ResourceDirectory) (language : Text) :
    Except Error Document :=
  let path := directory.languagePath language
  match tree.readAt? path with
  | some bytes => Document.parse (Encoding.decode bytes)
  | none => .error (.fileNotFound path)

def loadSource (tree : FileTree) (directory : ResourceDirectory) : Except Error Document :=
  load tree directory Qualifier.sourceLanguage

def loadResource (tree : FileTree) (directory : ResourceDirectory) (language : Text) :
    Except Error ResourceFile :=
  (load tree directory language).map fun document => document.resource language

def loadSourceResource (tree : FileTree) (directory : ResourceDirectory) :
    Except Error ResourceFile :=
  loadResource tree directory Qualifier.sourceLanguage

def store (tree : FileTree) (directory : ResourceDirectory) (language : Text)
    (document : Document) : FileTree :=
  tree.writeAt (directory.languagePath language) (Encoding.encode document.text)

/-- The keys of the source file, in order. -/
def sourceOrder (tree : FileTree) (directory : ResourceDirectory) :
    Except Error (List EntryKind.Key) :=
  (loadSource tree directory).map Document.order

end ResourceDirectory
end AndroidStrings
