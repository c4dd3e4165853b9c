import AndroidStrings.Changes
import AndroidStrings.Check.Report
import AndroidStrings.Project.Directory

/-!
# Checks of a project

One translation or all of them are checked against the source file.  When all are checked, files
that cannot be read are left out.
-/

namespace AndroidStrings
namespace ResourceDirectory

/-- The translations that can be read. -/
def readable (tree : FileTree) (directory : ResourceDirectory) (languages : List Text) :
    List ResourceFile :=
  languages.filterMap fun language => (loadResource tree directory language).toOption

def translations (tree : FileTree) (directory : ResourceDirectory) :
    Option Text → Except Error (List ResourceFile)
  | some language => (loadResource tree directory language).map fun file => [file]
  | none => (languages tree directory).map (readable tree directory)

def check (tree : FileTree) (directory : ResourceDirectory) (language : Option Text)
    (options : CheckOptions) : Except Error CheckReport :=
  match loadSourceResource tree directory with
  | .error e => .error e
  | .ok source =>
      (translations tree directory language).map (Check.checkAll options source)

/-- How the source file and a reference variant differ. -/
def changesAgainst (tree : FileTree) (directory : ResourceDirectory) (variant : Text) :
    Except Error Changes :=
  match loadSourceResource tree directory with
  | .error e => .error e
  | .ok source => (loadResource tree directory variant).map (Changes.between source)

end ResourceDirectory
end AndroidStrings
