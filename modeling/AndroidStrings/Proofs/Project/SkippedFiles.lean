import Mathlib.Data.List.Basic
import AndroidStrings.Project.Unused
import AndroidStrings.Proofs.File.Place

/-!
# Files that the search for references skips

The search skips a `strings.xml` by the folder that it is in, and the folder is read from the
written path: the part behind its last slash or backslash counts.  A folder for any qualifier is
skipped, where only the qualifiers that name a language are listed as translations.

## Main statements

- `FileTree.mem_walk_iff` : the files that a walk meets.
- `ResourceDirectory.exists_languages` : the translations that are listed.
- `SourceTree.isTranslationPath_iff` : the folders that are taken for those of translations.
- `SourceTree.skips_iff_listed` : where the search skips exactly the translations.
-/

namespace AndroidStrings

/-!
# Files of a tree
-/

namespace FileTree

variable {tree : FileTree} {place below : Path}

/-- What has a file in it is a directory. -/
theorem isDirectory_of_isFile
    (h : tree.isFile (place ++ below) = true)
    (hbelow : below ≠ []) :
    tree.isDirectory place = true := by
  rw [isFile_iff_mem, List.mem_map] at h
  rcases h with ⟨file, hfile, hpath⟩
  have hinside : (place.isPrefixOf file.1 && place != file.1) = true := by
    rw [hpath, Bool.and_eq_true, List.isPrefixOf_iff_prefix, bne_iff_ne]
    refine ⟨List.prefix_append place below, ?_⟩
    intro heq
    exact hbelow (List.self_eq_append_right.mp heq)
  rw [isDirectory, List.any_eq_true.mpr ⟨file, hfile, hinside⟩, Bool.or_true]

theorem mem_insertName {names : List Text} {name other : Text} :
    other ∈ insertName names name ↔ other ∈ names ∨ other = name := by
  rw [insertName]
  split
  · rename_i hknown
    rw [List.contains_iff_mem] at hknown
    constructor
    · exact .inl
    · rintro (hmem | rfl)
      · exact hmem
      · exact hknown
  · rw [List.mem_append, List.mem_singleton]

theorem mem_foldl_insertName {names known : List Text} {name : Text} :
    name ∈ names.foldl insertName known ↔ name ∈ known ∨ name ∈ names := by
  induction names generalizing known with
  | nil => simp
  | cons first names ih => rw [List.foldl_cons, ih, mem_insertName, List.mem_cons, or_assoc]

/-- A directory has the names on the way to its files. -/
theorem mem_children_of_isFile
    {name : Text}
    (h : tree.isFile (place ++ name :: below) = true) :
    name ∈ tree.children place := by
  rw [isFile_iff_mem] at h
  rw [children, mem_foldl_insertName, List.mem_filterMap]
  refine .inr ⟨place ++ name :: below, List.mem_append_left _ h, ?_⟩
  rw [childName?, if_pos (List.isPrefixOf_iff_prefix.mpr (List.prefix_append place _)),
    List.drop_left, List.head?_cons]

/-- A walk meets the files below its root that it does not ignore. -/
theorem mem_walk_iff {root : Text} :
    below ∈ tree.walk root place ↔
      tree.isFile (place ++ below) = true ∧ tree.isIgnored root place below = false := by
  have hbelow : below ∈ (tree.files.map Prod.fst).filterMap (fun path =>
      if place.isPrefixOf path then some (path.drop place.length) else none) ↔
        tree.isFile (place ++ below) = true := by
    rw [isFile_iff_mem, List.mem_filterMap]
    constructor
    · rintro ⟨path, hpath, hsome⟩
      rw [Option.ite_none_right_eq_some, Option.some.injEq, List.isPrefixOf_iff_prefix] at hsome
      rcases hsome with ⟨⟨rest, rfl⟩, hrest⟩
      rw [List.drop_left] at hrest
      rwa [← hrest]
    · intro hfile
      refine ⟨place ++ below, hfile, ?_⟩
      rw [if_pos (List.isPrefixOf_iff_prefix.mpr (List.prefix_append place below)), List.drop_left]
  rw [walk, List.mem_filter, hbelow, Bool.not_eq_true']

/-!
# Written paths
-/

theorem joinPath_ne_nil {base name : Text} (h : base ≠ []) : joinPath base name ≠ [] := by
  rw [joinPath]
  split
  · exact List.append_ne_nil_of_left_ne_nil h name
  · exact List.append_ne_nil_of_left_ne_nil h _

theorem writtenBelow_ne_nil
    {base : Text}
    (h : base ≠ [])
    (below : Path) :
    writtenBelow base below ≠ [] := by
  induction below generalizing base with
  | nil => exact h
  | cons name below ih => exact ih (joinPath_ne_nil h)

/-- A name is appended behind a slash. -/
theorem exists_joinPath
    {base : Text}
    (h : base ≠ [])
    (name : Text) :
    exists front : Text, joinPath base name = front ++ '/' :: name := by
  rw [joinPath]
  split
  · rename_i hends
    rw [Bool.or_eq_true, List.isEmpty_iff, beq_iff_eq] at hends
    rcases List.getLast?_eq_some_iff.mp (hends.resolve_left h) with ⟨front, rfl⟩
    exact ⟨front, by rw [List.append_assoc, List.singleton_append]⟩
  · exact ⟨base, rfl⟩

theorem joinPath_append
    {front folder : Text}
    (hfolder : folder ≠ [])
    (hslash : '/' ∉ folder)
    (name : Text) :
    joinPath (front ++ '/' :: folder) name = front ++ '/' :: (folder ++ '/' :: name) := by
  have hlast : (front ++ '/' :: folder).getLast? ≠ some '/' := by
    rw [List.getLast?_append_cons, List.getLast?_cons_of_ne_nil hfolder]
    exact fun heq => hslash (List.mem_of_getLast? heq)
  rw [joinPath, if_neg]
  · rw [List.append_assoc, List.cons_append]
  · rw [Bool.or_eq_true, List.isEmpty_iff, beq_iff_eq, not_or]
    exact ⟨List.append_ne_nil_of_right_ne_nil front (List.cons_ne_nil '/' folder), hlast⟩

/-- A file in a folder below some directory, written out. -/
theorem exists_writtenBelow
    {base folder : Text}
    (hbase : base ≠ [])
    (hfolder : folder ≠ [])
    (hslash : '/' ∉ folder)
    (inner : Path) (name : Text) :
    exists front : Text,
      writtenBelow base (inner ++ [folder, name]) = front ++ '/' :: (folder ++ '/' :: name) := by
  rcases exists_joinPath (writtenBelow_ne_nil hbase inner) folder with ⟨front, hfront⟩
  refine ⟨front, ?_⟩
  have hsplit : writtenBelow base (inner ++ [folder, name]) =
      joinPath (joinPath (writtenBelow base inner) folder) name :=
    List.foldl_append
  rw [hsplit, hfront, joinPath_append hfolder hslash]

end FileTree

/-!
# Translations that are listed
-/

namespace ResourceDirectory

variable {tree : FileTree} {directory : ResourceDirectory} {place : Path}

theorem translationIn?_eq_some_iff {folder language : Text} :
    translationIn? tree place folder = some language ↔
      folder = qualifiedPrefix ++ language ∧ Qualifier.isLanguage language = true ∧
        tree.isFile (place ++ [folder, fileName]) = true := by
  rw [translationIn?]
  cases hstrip : Text.stripPrefix? qualifiedPrefix folder with
  | none =>
      refine iff_of_false (by simp) ?_
      rintro ⟨hfolder, _⟩
      rw [Text.stripPrefix?_eq_some_iff.mpr hfolder] at hstrip
      cases hstrip
  | some qualifier =>
      have hfolder := Text.stripPrefix?_eq_some_iff.mp hstrip
      simp only [Option.ite_none_right_eq_some, Option.some.injEq, Bool.and_eq_true]
      constructor
      · rintro ⟨htranslation, rfl⟩
        exact ⟨hfolder, htranslation⟩
      · rintro ⟨hlanguage, htranslation⟩
        have hsame : qualifier = language := List.append_cancel_left (hfolder.symm.trans hlanguage)
        exact ⟨hsame ▸ htranslation, hsame⟩

/-- The translations of a directory that is there are listed: a language when its qualifier names
one and its folder holds the file. -/
theorem exists_languages
    (hplace : tree.resolve directory.root = .ok place)
    (hdirectory : tree.isDirectory place = true) :
    exists found : List Text, directory.languages tree = .ok found ∧
      forall language : Text, language ∈ found ↔
        Qualifier.isLanguage language = true ∧
          tree.isFile (place ++ [qualifiedPrefix ++ language, fileName]) = true := by
  refine ⟨Text.sortNames ((tree.children place).filterMap (translationIn? tree place)), ?_, ?_⟩
  · simp only [languages, hplace, if_pos hdirectory]
  · intro language
    rw [Text.mem_sortNames, List.mem_filterMap]
    simp only [translationIn?_eq_some_iff]
    constructor
    · rintro ⟨_, _, rfl, htranslation⟩
      exact htranslation
    · intro htranslation
      exact ⟨_, FileTree.mem_children_of_isFile htranslation.2, rfl, htranslation⟩

end ResourceDirectory

/-!
# Folders as they are read from a path
-/

namespace Text

/-- The part behind the last separator. -/
theorem notMem_or_exists_last (separator : Char) (t : Text) :
    separator ∉ t ∨
      exists front last : Text, t = front ++ separator :: last ∧ separator ∉ last := by
  by_cases h : separator ∈ t
  · rcases List.eq_append_cons_of_mem (List.mem_reverse.mpr h) with ⟨last, front, heq, hlast⟩
    refine .inr ⟨front.reverse, last.reverse, ?_, fun hmem => hlast (List.mem_reverse.mp hmem)⟩
    rw [← List.reverse_reverse t, heq]
    simp
  · exact .inl h

end Text

namespace SourceTree

open ResourceDirectory FileTree

/-- A folder that is read as one for some qualifier, from its last backslash on. -/
def LooksQualified (folder : Text) : Prop :=
  exists qualifier : Text, qualifier ≠ [] ∧ '\\' ∉ qualifier ∧
    (folder = qualifiedPrefix ++ qualifier ∨
      exists front : Text, folder = front ++ '\\' :: (qualifiedPrefix ++ qualifier))

theorem notMem_backslash
    {qualifier : Text}
    (h : '\\' ∉ qualifier) :
    '\\' ∉ qualifiedPrefix ++ qualifier := by
  rw [List.mem_append, not_or]
  exact ⟨by decide, h⟩

theorem pathNames_ne_nil (path : Text) : pathNames path ≠ [] := by
  rcases Text.exists_splitOn_eq_cons '/' path with ⟨first, rest, hfirst⟩
  rcases Text.exists_splitOn_eq_cons '\\' first with ⟨part, parts, hpart⟩
  rw [pathNames, hfirst, List.flatMap_cons, hpart]
  exact List.cons_ne_nil part _

theorem reverse_pathNames
    {folder : Text}
    (hslash : '/' ∉ folder)
    (front : Text) :
    (pathNames (front ++ '/' :: (folder ++ '/' :: fileName))).reverse =
      fileName :: ((Text.splitOn '\\' folder).reverse ++ (pathNames front).reverse) := by
  have hname : Text.splitOn '/' fileName = [fileName] := Text.splitOn_of_notMem (by decide)
  have hparts : Text.splitOn '\\' fileName = [fileName] := Text.splitOn_of_notMem (by decide)
  rw [pathNames, Text.splitOn_separator, Text.splitOn_separator, Text.splitOn_of_notMem hslash,
    hname, List.flatMap_append, List.flatMap_append, List.flatMap_singleton,
    List.flatMap_singleton, hparts, pathNames]
  simp

/-- The path of a `strings.xml` is one of a translation by the last part of its folder. -/
theorem isTranslationPath_of_reverse
    {path last : Text} {rest : List Text}
    (hpath : (pathNames path).reverse = fileName :: last :: rest)
    (hrest : rest ≠ []) :
    isTranslationPath path = true ↔
      exists qualifier : Text, qualifier ≠ [] ∧ last = qualifiedPrefix ++ qualifier := by
  cases rest with
  | nil => exact absurd rfl hrest
  | cons outer rest =>
      rw [isTranslationPath, hpath]
      simp only [beq_self_eq_true, Bool.true_and]
      constructor
      · intro h
        split at h
        · rename_i qualifier hstrip
          exact ⟨qualifier, by simpa using h, Text.stripPrefix?_eq_some_iff.mp hstrip⟩
        · cases h
      · rintro ⟨qualifier, hqualifier, hlast⟩
        rw [Text.stripPrefix?_eq_some_iff.mpr hlast]
        simpa using hqualifier

/-- A `strings.xml` in a folder below some directory is taken for a translation by the name of the
folder. -/
theorem isTranslationPath_iff
    {root folder : Text}
    (hroot : root ≠ [])
    (hfolder : folder ≠ [])
    (hslash : '/' ∉ folder)
    (inner : Path) :
    isTranslationPath (writtenBelow root (inner ++ [folder, fileName])) = true ↔
      LooksQualified folder := by
  rcases exists_writtenBelow hroot hfolder hslash inner fileName with ⟨outer, hwritten⟩
  have hpath := reverse_pathNames hslash outer
  have houter : (pathNames outer).reverse ≠ [] :=
    fun h => pathNames_ne_nil outer (List.reverse_eq_nil_iff.mp h)
  rw [hwritten]
  rcases Text.notMem_or_exists_last '\\' folder with hplain | ⟨front, last, rfl, hlast⟩
  · rw [Text.splitOn_of_notMem hplain, List.reverse_singleton, List.singleton_append] at hpath
    rw [isTranslationPath_of_reverse hpath houter]
    constructor
    · rintro ⟨qualifier, hqualifier, rfl⟩
      exact ⟨qualifier, hqualifier, fun h => hplain (List.mem_append_right _ h), .inl rfl⟩
    · rintro ⟨qualifier, hqualifier, _, rfl | ⟨front, rfl⟩⟩
      · exact ⟨qualifier, hqualifier, rfl⟩
      · exact absurd (List.mem_append_right front List.mem_cons_self) hplain
  · rw [Text.splitOn_separator, Text.splitOn_of_notMem hlast, List.reverse_append,
      List.reverse_singleton, List.singleton_append, List.cons_append] at hpath
    have hrest : (Text.splitOn '\\' front).reverse ++ (pathNames outer).reverse ≠ [] :=
      List.append_ne_nil_of_right_ne_nil _ houter
    rw [isTranslationPath_of_reverse hpath hrest]
    constructor
    · rintro ⟨qualifier, hqualifier, rfl⟩
      exact ⟨qualifier, hqualifier, fun h => hlast (List.mem_append_right _ h), .inr ⟨front, rfl⟩⟩
    · rintro ⟨qualifier, hqualifier, hnone, hsame | ⟨front', hsame⟩⟩
      · have hmem : '\\' ∈ qualifiedPrefix ++ qualifier :=
          hsame ▸ List.mem_append_right front List.mem_cons_self
        exact absurd hmem (notMem_backslash hnone)
      · have hparts := congrArg (Text.splitOn '\\') hsame
        rw [Text.splitOn_separator, Text.splitOn_separator, Text.splitOn_of_notMem hlast,
          Text.splitOn_of_notMem (notMem_backslash hnone)] at hparts
        exact ⟨qualifier, hqualifier, (List.cons.inj (List.append_inj' hparts rfl).2).1⟩

/-- A qualifier that names a language makes a folder that is read as one for a qualifier. -/
theorem looksQualified_of_isLanguage
    {language : Text}
    (h : Qualifier.isLanguage language = true) :
    LooksQualified (qualifiedPrefix ++ language) :=
  ⟨language, Qualifier.ne_nil_of_isLanguage h, Qualifier.notMem_of_isLanguage h (by decide),
    .inl rfl⟩

/-!
# Main statement
-/

/-- The files of a tree are listed when their root is there; there are none if its name stands for
the standard input. -/
theorem exists_files
    {tree : FileTree} {sources : Text} {around : Path}
    (hsources : tree.resolve sources = .ok around)
    (hdirectory : tree.isDirectory around = true) :
    exists files : List Path, SourceTree.files tree sources = .ok files ∧
      forall below : Path, around ++ below ∈ files ↔
        isNameAlone standardInput sources = false ∧ below ∈ tree.walk sources around ∧
          isSourceFile sources below = true := by
  cases hinput : isNameAlone standardInput sources with
  | true =>
      refine ⟨[], ?_, by simp⟩
      simp only [SourceTree.files, hsources, if_pos hdirectory, if_pos hinput]
  | false =>
      refine ⟨((tree.walk sources around).filter (isSourceFile sources)).map (around ++ ·), ?_, ?_⟩
      · simp only [SourceTree.files, hsources, if_pos hdirectory, hinput]
        rfl
      · intro below
        rw [List.mem_map_of_injective (List.append_right_injective around), List.mem_filter]
        simp

/-- A `strings.xml` that nothing hides is read unless its folder is taken for one of a
translation. -/
theorem isSourceFile_iff
    {root folder : Text}
    (hroot : root ≠ [])
    (hfolder : folder ≠ [])
    (hslash : '/' ∉ folder)
    (inner : Path) :
    isSourceFile root (inner ++ [folder, fileName]) = true ↔ ¬ LooksQualified folder := by
  have hlast : (inner ++ [folder, fileName]).getLast? = some fileName := by simp
  have hname : isSourceName fileName = true := by decide
  rw [← isTranslationPath_iff hroot hfolder hslash inner, isSourceFile, hlast]
  simp only [hname, Bool.true_and, Bool.not_eq_true']
  exact Bool.eq_false_iff

/-- In a resource directory inside the source tree, a file that nothing hides is skipped exactly
when its qualifier is listed, provided that the qualifier names a language, or that the folder is
not taken for one of a translation and the root is not the name of the standard input. -/
theorem skips_iff_listed
    {tree : FileTree} {directory : ResourceDirectory} {sources qualifier : Text}
    {around inner : Path}
    (hsources : tree.resolve sources = .ok around)
    (hinside : tree.resolve directory.root = .ok (around ++ inner))
    (hslash : '/' ∉ qualifier)
    (hfile : tree.isFile (around ++ inner ++ [qualifiedPrefix ++ qualifier, fileName]) = true)
    (hseen : tree.isIgnored sources around (inner ++ [qualifiedPrefix ++ qualifier, fileName]) =
      false) :
    exists (files : List Path) (found : List Text),
      SourceTree.files tree sources = .ok files ∧ directory.languages tree = .ok found ∧
        ((around ++ inner ++ [qualifiedPrefix ++ qualifier, fileName] ∉ files ↔
            qualifier ∈ found) ↔
          Qualifier.isLanguage qualifier = true ∨
            (isNameAlone standardInput sources = false ∧
              ¬ LooksQualified (qualifiedPrefix ++ qualifier))) := by
  have hroot : sources ≠ [] := by
    rintro rfl
    cases hsources
  have hfolder : qualifiedPrefix ++ qualifier ≠ [] := List.cons_ne_nil 'v' _
  have hname : '/' ∉ qualifiedPrefix ++ qualifier := by
    rw [List.mem_append, not_or]
    exact ⟨by decide, hslash⟩
  have hbelow : tree.isFile
      (around ++ (inner ++ [qualifiedPrefix ++ qualifier, fileName])) = true := by
    rwa [← List.append_assoc]
  rcases exists_files hsources (isDirectory_of_isFile hbelow (by simp)) with ⟨files, hfiles, hmem⟩
  rcases exists_languages hinside (isDirectory_of_isFile hfile (List.cons_ne_nil _ _)) with
    ⟨found, hfound, hlisted⟩
  have hskipped : around ++ inner ++ [qualifiedPrefix ++ qualifier, fileName] ∉ files ↔
      ¬ (isNameAlone standardInput sources = false ∧
        ¬ LooksQualified (qualifiedPrefix ++ qualifier)) := by
    rw [List.append_assoc, hmem, mem_walk_iff, isSourceFile_iff hroot hfolder hname]
    simp only [hbelow, hseen, true_and]
  have hlanguage : qualifier ∈ found ↔ Qualifier.isLanguage qualifier = true := by
    rw [hlisted, hfile, and_iff_left rfl]
  have hlooks : Qualifier.isLanguage qualifier = true ->
      LooksQualified (qualifiedPrefix ++ qualifier) :=
    looksQualified_of_isLanguage
  refine ⟨files, found, hfiles, hfound, ?_⟩
  rw [hskipped, hlanguage]
  constructor
  · intro hagree
    by_cases h : Qualifier.isLanguage qualifier = true
    · exact .inl h
    · exact .inr (not_not.mp (mt hagree.mp h))
  · rintro (h | hread)
    · exact iff_of_true (fun hread => hread.2 (hlooks h)) h
    · exact iff_of_false (not_not_intro hread) fun h => hread.2 (hlooks h)

/-- Folders for a language, for a dark screen, and for a name with a backslash. -/
def configurations : FileTree :=
  let file := fun (folder text : String) =>
    (["app".toList, "src".toList, "main".toList, "res".toList, folder.toList, fileName],
      Encoding.encode text.toList)
  ⟨[file "values" "<resources><string name=\"x\">a</string></resources>",
    file "values-fr" "<resources/>",
    file "values-night" "<resources><string name=\"y\">@string/x</string></resources>",
    file "values-a\\b" "<resources/>"], []⟩

theorem skips_iff_listed_backslash :
    let around : Path := ["app".toList, "src".toList]
    let inner : Path := ["main".toList, "res".toList]
    let directory : ResourceDirectory := ⟨"app/src/main/res".toList⟩
    configurations.resolve "app/src".toList = .ok around ∧
      configurations.resolve directory.root = .ok (around ++ inner) ∧
      exists (files : List Path) (found : List Text),
        SourceTree.files configurations "app/src".toList = .ok files ∧
          directory.languages configurations = .ok found ∧
          (around ++ inner ++ ["values-a\\b".toList, fileName] ∉ files ↔
            "a\\b".toList ∈ found) := by
  intro around inner directory
  have hsources : configurations.resolve "app/src".toList = .ok around := by decide +kernel
  have hinside : configurations.resolve directory.root = .ok (around ++ inner) := by
    decide +kernel
  have hslash : '/' ∉ "a\\b".toList := by decide
  have hpath : ¬ isTranslationPath (writtenBelow ['r'] ["values-a\\b".toList, fileName]) = true := by
    decide
  have hplain : ¬ LooksQualified "values-a\\b".toList := fun h =>
    hpath ((isTranslationPath_iff (by decide) (by decide) (by decide) []).mpr h)
  rcases skips_iff_listed hsources hinside hslash (by decide +kernel) (by decide +kernel) with
    ⟨files, found, hfiles, hfound, hskips⟩
  exact ⟨hsources, hinside, files, found, hfiles, hfound, hskips.mpr (.inr ⟨by decide, hplain⟩)⟩

/-- The file in a folder for a dark screen is skipped as that of a translation, which it is not,
so the reference in it is missed. -/
theorem skips_night :
    let directory : ResourceDirectory := ⟨"app/src/main/res".toList⟩
    let file := fun (folder : String) =>
      ["app".toList, "src".toList, "main".toList, "res".toList, folder.toList, fileName]
    SourceTree.files configurations "app/src".toList =
        .ok [file "values", file "values-a\\b"] ∧
      directory.languages configurations = .ok ["fr".toList] ∧
      configurations.isIgnored "app/src".toList ["app".toList, "src".toList]
        ["main".toList, "res".toList, "values-night".toList, fileName] = false ∧
      directory.unused configurations "app/src".toList = .ok ["x".toList] := by
  decide +kernel

end SourceTree
end AndroidStrings
