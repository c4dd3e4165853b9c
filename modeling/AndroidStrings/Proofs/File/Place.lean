import Mathlib.Data.List.Nodup
import Mathlib.Data.List.TakeWhile
import AndroidStrings.Project.Edit
import AndroidStrings.Proofs.File.SameNames
import AndroidStrings.Proofs.Language.Qualifier
import AndroidStrings.Proofs.Success

/-!
# The files of a resource directory

Every language has a file of its own: a name without a slash that is appended to a written path
adds itself to the place that the path stands for, and folders of two languages differ in their
names.

## Main statements

- `placeOf_joinPath` : where an appended name leads.
- `placeOf_languagePath` : the place of the file of a language.
- `nodup_places_of_targets`, `nodup_places_of_sortTargets` : the source file and the translations
  are different files.
-/

namespace AndroidStrings

/-!
# Appended names
-/

namespace Text

variable {α : Type} [DecidableEq α]

theorem exists_splitOn_eq_cons (separator : α) (t : List α) :
    exists (part : List α) (parts : List (List α)), splitOn separator t = part :: parts := by
  cases t with
  | nil => exact ⟨[], [], rfl⟩
  | cons c t =>
      rw [splitOn]
      split
      · exact ⟨_, _, rfl⟩
      · split
        · exact ⟨_, _, rfl⟩
        · exact ⟨_, _, rfl⟩

theorem splitOn_separator (separator : α) (front back : List α) :
    splitOn separator (front ++ separator :: back) =
      splitOn separator front ++ splitOn separator back := by
  induction front with
  | nil => simp [splitOn]
  | cons c front ih =>
      simp only [List.cons_append, splitOn]
      by_cases hc : c = separator
      · simp [hc, ih]
      · rcases exists_splitOn_eq_cons separator front with ⟨part, parts, hfront⟩
        rw [if_neg hc, if_neg hc, ih, hfront]
        rfl

theorem splitOn_of_notMem
    {separator : α} {t : List α}
    (h : separator ∉ t) :
    splitOn separator t = [t] := by
  induction t with
  | nil => rfl
  | cons c t ih =>
      have hc : c ≠ separator := fun heq => h (heq ▸ List.mem_cons_self)
      rw [splitOn, if_neg hc, ih fun hmem => h (List.mem_cons_of_mem c hmem)]

end Text

namespace FileTree

theorem startOf_slash
    {base : Text}
    (hbase : base ≠ [])
    (rest : Text) :
    startOf (base ++ '/' :: rest) =
      ((startOf base).1, (startOf base).2 ++ Text.splitOn '/' rest) := by
  cases base with
  | nil => exact absurd rfl hbase
  | cons c base =>
      by_cases hc : c = '/'
      · rw [hc, List.cons_append, startOf, startOf, Text.splitOn_separator]
      · have hstart : forall t : Text, startOf (c :: t) = ([], Text.splitOn '/' (c :: t)) := by
          intro t
          rw [startOf]
          intro rest heq
          exact hc (List.cons.inj heq).1
        rw [List.cons_append, hstart, hstart, ← List.cons_append, Text.splitOn_separator]

theorem placeOf_slash
    {base : Text}
    (hbase : base ≠ [])
    {name : Text}
    (hname : '/' ∉ name) :
    placeOf (base ++ '/' :: name) = step (placeOf base) name := by
  rw [placeOf, startOf_slash hbase, Text.splitOn_of_notMem hname, List.foldl_append]
  rfl

/-- A name that is appended to a path is the next name on the way. -/
theorem placeOf_joinPath
    (base : Text)
    {name : Text}
    (hname : '/' ∉ name) :
    placeOf (joinPath base name) = step (placeOf base) name := by
  have hrelative : startOf name = ([], Text.splitOn '/' name) := by
    rw [startOf]
    intro rest heq
    exact hname (heq ▸ List.mem_cons_self)
  unfold joinPath
  split
  · rename_i hends
    simp only [Bool.or_eq_true, List.isEmpty_iff, beq_iff_eq] at hends
    rcases hends with hempty | hslash
    · rw [hempty, List.nil_append, placeOf, hrelative, Text.splitOn_of_notMem hname]
      rfl
    · -- The slash is there already, behind a path or alone.
      rcases List.getLast?_eq_some_iff.mp hslash with ⟨front, rfl⟩
      rw [List.append_assoc, List.singleton_append]
      cases front with
      | nil =>
          rw [List.nil_append, List.nil_append, placeOf, startOf, Text.splitOn_of_notMem hname]
          rfl
      | cons c front =>
          have hnil : placeOf (c :: front ++ ['/']) = placeOf (c :: front) :=
            placeOf_slash (List.cons_ne_nil c front) List.not_mem_nil
          rw [hnil, placeOf_slash (List.cons_ne_nil c front) hname]
  · rename_i hends
    simp only [Bool.or_eq_true, List.isEmpty_iff, not_or] at hends
    exact placeOf_slash hends.1 hname

/-- A name that is no dots is a name of its own. -/
theorem step_eq_append
    {name : Text}
    (hname : 2 < name.length)
    (reached : Path) :
    step reached name = reached ++ [name] := by
  have hempty : ¬ (name = [] ∨ name = ['.']) := by
    rintro (rfl | rfl) <;> simp at hname
  have hparent : name ≠ parentName := by
    rintro rfl
    simp [parentName] at hname
  rw [step, if_neg hempty, if_neg fun h => hparent h.1, if_neg fun h => hparent h.1]

/-!
# Names of a directory
-/

theorem nodup_insertName
    {names : List Text}
    (h : names.Nodup)
    (name : Text) :
    (insertName names name).Nodup := by
  unfold insertName
  split
  · exact h
  · rename_i hname
    rw [List.contains_iff_mem] at hname
    exact (List.perm_append_singleton name names).nodup_iff.mpr (List.nodup_cons.mpr ⟨hname, h⟩)

theorem nodup_children (tree : FileTree) (directory : Path) :
    (tree.children directory).Nodup := by
  have hfold : forall names known : List Text, known.Nodup -> (names.foldl insertName known).Nodup := by
    intro names
    induction names with
    | nil => exact fun known h => h
    | cons name names ih => exact fun known h => ih _ (nodup_insertName h name)
  exact hfold _ [] List.nodup_nil

end FileTree

namespace Text

theorem insertSorted_perm (name : Text) (names : List Text) :
    (insertSorted name names).Perm (name :: names) := by
  induction names with
  | nil => exact List.Perm.refl _
  | cons first rest ih =>
      rw [insertSorted]
      split
      · exact List.Perm.refl _
      · exact (ih.cons first).trans (List.Perm.swap name first rest)

theorem sortNames_perm (names : List Text) : (sortNames names).Perm names := by
  induction names with
  | nil => exact List.Perm.refl _
  | cons name names ih =>
      exact (insertSorted_perm name (sortNames names)).trans (ih.cons name)

end Text

/-!
# The folder of a language
-/

namespace ResourceDirectory

open FileTree

theorem placeOf_pathIn
    (directory : ResourceDirectory)
    {folder : Text}
    (hslash : '/' ∉ folder)
    (hlength : 2 < folder.length) :
    placeOf (directory.pathIn folder) = placeOf directory.root ++ [folder, fileName] := by
  rw [pathIn, placeOf_joinPath _ (by decide), placeOf_joinPath _ hslash,
    step_eq_append (by decide), step_eq_append hlength, List.append_assoc]
  rfl

/-- The folder that holds the file of a language. -/
def folderOf (language : Text) : Text :=
  if Qualifier.isSource language then sourceFolder else qualifiedPrefix ++ language

/-- The file of a language is in the folder of the language. -/
theorem placeOf_languagePath
    (directory : ResourceDirectory)
    {language : Text}
    (h : '/' ∉ language) :
    placeOf (directory.languagePath language) =
      placeOf directory.root ++ [folderOf language, fileName] := by
  unfold languagePath folderOf
  split
  · exact directory.placeOf_pathIn (by decide) (by decide)
  · refine directory.placeOf_pathIn ?_ ?_
    · rw [List.mem_append, not_or]
      exact ⟨by decide, h⟩
    · rw [List.length_append]
      have hprefix : qualifiedPrefix.length = 7 := rfl
      omega

/-!
# Different files
-/

theorem eq_append_of_translationIn?
    {tree : FileTree} {root : Path} {folder language : Text}
    (h : translationIn? tree root folder = some language) :
    folder = qualifiedPrefix ++ language ∧ Qualifier.isLanguage language = true := by
  unfold translationIn? at h
  split at h
  · simp at h
  · rename_i qualifier hstrip
    split at h
    · rename_i hlanguage
      rw [Option.some.injEq] at h
      rw [Bool.and_eq_true, h] at hlanguage
      rw [h] at hstrip
      exact ⟨Text.append_of_stripPrefix? hstrip, hlanguage.1⟩
    · simp at h

theorem languages_spec
    {tree : FileTree} {directory : ResourceDirectory} {found : List Text}
    (h : languages tree directory = .ok found) :
    found.Nodup ∧ forall language : Text, language ∈ found -> Qualifier.isLanguage language = true := by
  unfold languages at h
  split at h
  · simp at h
  · rename_i root _
    split at h
    · rw [Except.ok.injEq] at h
      rw [← h]
      constructor
      · refine (Text.sortNames_perm _).nodup_iff.mpr ?_
        refine (nodup_children tree root).filterMap ?_
        intro left right language hleft hright
        rw [(eq_append_of_translationIn? (Option.mem_def.mp hleft)).1,
          (eq_append_of_translationIn? (Option.mem_def.mp hright)).1]
      · intro language hlanguage
        rw [Text.mem_sortNames, List.mem_filterMap] at hlanguage
        rcases hlanguage with ⟨folder, _, hfolder⟩
        exact (eq_append_of_translationIn? hfolder).2
    · simp at h

/-- The file of a language, whatever is there. -/
def place (directory : ResourceDirectory) (language : Text) : Path :=
  placeOf (directory.languagePath language)

/-- The translations are different files. -/
theorem nodup_places_of_languages
    {tree : FileTree} {directory : ResourceDirectory} {found : List Text}
    (h : languages tree directory = .ok found) :
    (found.map directory.place).Nodup := by
  rcases languages_spec h with ⟨hnodup, hlanguages⟩
  refine (List.nodup_map_iff_inj_on hnodup).mpr ?_
  intro left hleft right hright heq
  have hleft := hlanguages left hleft
  have hright := hlanguages right hright
  unfold place at heq
  rw [directory.placeOf_languagePath (Qualifier.notMem_slash_of_isLanguage hleft),
    directory.placeOf_languagePath (Qualifier.notMem_slash_of_isLanguage hright)] at heq
  simpa [folderOf, Qualifier.isSource_eq_false_of_isLanguage hleft,
    Qualifier.isSource_eq_false_of_isLanguage hright] using heq

/-- The source file and the translations are different files. -/
theorem nodup_places_of_targets
    {tree : FileTree} {directory : ResourceDirectory} {scope : Scope} {found : List Text}
    (h : targets tree directory scope = .ok found) :
    (found.map directory.place).Nodup := by
  cases scope with
  | sourceOnly =>
      rw [targets, Except.ok.injEq] at h
      rw [← h]
      exact List.nodup_singleton _
  | everywhere =>
      rcases Success.map_eq_ok_iff.mp h with ⟨translations, htranslations, rfl⟩
      rw [List.map_cons, List.nodup_cons]
      refine ⟨?_, nodup_places_of_languages htranslations⟩
      intro hmem
      rcases List.mem_map.mp hmem with ⟨language, hlanguage, heq⟩
      have hlanguage := (languages_spec htranslations).2 language hlanguage
      unfold place at heq
      rw [directory.placeOf_languagePath (Qualifier.notMem_slash_of_isLanguage hlanguage),
        directory.placeOf_languagePath (by decide)] at heq
      have hfolders : folderOf language = folderOf Qualifier.sourceLanguage :=
        (List.cons.inj (List.append_cancel_left heq)).1
      rw [folderOf, Qualifier.isSource_eq_false_of_isLanguage hlanguage] at hfolders
      have hlengths := congrArg List.length hfolders
      rw [if_neg Bool.false_ne_true, List.length_append] at hlengths
      have hprefix : qualifiedPrefix.length = 7 := rfl
      have hsource : (folderOf Qualifier.sourceLanguage).length = 6 := rfl
      omega

theorem nodup_places_of_sortTargets
    {tree : FileTree} {directory : ResourceDirectory} {language : Option Text} {found : List Text}
    (h : sortTargets tree directory language = .ok found) :
    (found.map directory.place).Nodup := by
  cases language with
  | none => exact nodup_places_of_languages h
  | some language =>
      unfold sortTargets at h
      simp only at h
      split at h
      · rw [Except.ok.injEq] at h
        rw [← h]
        exact List.nodup_singleton _
      · simp at h

end ResourceDirectory
end AndroidStrings
