import AndroidStrings.Proofs.CommandLine.Edit
import AndroidStrings.Proofs.Project.Completed

/-!
# Command lines that succeed

A command that adds an entry or removes names succeeds only if this has been done in every file it
is about.  Each file has been read, so none is passed over because it is missing or damaged.

## Main statements

- `exists_command_of_read?` : the command of a request that has been read.
- `exists_languages_of_isDirectoryAt` : directories that can be listed.
- `Command.Adds.hasInScope` : the files behind an addition that succeeds.
- `removedEverywhere_removeAll` : the files behind a removal that succeeds.
- `run_complete` : the files behind a command line that succeeds.
-/

namespace AndroidStrings
namespace CommandLine

open ResourceDirectory

/-!
# Command lines that are read
-/

theorem readEnding?_ne_request (level : Level) (ending : Flag) (request : Request) :
    readEnding? level ending ≠ some (.request request) := by
  intro h
  unfold readEnding? at h
  split at h
  · split at h <;> cases h
  · cases h

theorem readHelp?_ne_request (words : List Text) (request : Request) :
    readHelp? words ≠ some (.request request) := by
  intro h
  unfold readHelp? at h
  split at h
  · cases h
  · split at h
    · cases h
    · rcases Option.map_eq_some_iff.mp h with ⟨_, _, heq⟩
      cases heq
  · cases h

theorem exists_command_of_readCommand?
    {outer : Level} {name : CommandName} {arguments : List Text} {request : Request}
    (h : readCommand? outer name arguments = some (.request request)) :
    exists inner : Level, name.command? inner = some request.command := by
  rcases Option.bind_eq_some_iff.mp h with ⟨inner, _, hinner⟩
  split at hinner
  · exact absurd hinner (readEnding?_ne_request _ _ _)
  · rcases Option.bind_eq_some_iff.mp hinner with ⟨command, hcommand, hpaths⟩
    rcases Option.bind_eq_some_iff.mp hpaths with ⟨_, _, hconfig⟩
    rcases Option.bind_eq_some_iff.mp hconfig with ⟨_, _, heq⟩
    cases heq
    exact ⟨inner, hcommand⟩

/-- A request that has been read has a command that is spelled out behind the name of the
command. -/
theorem exists_command_of_read?
    {arguments : List Text} {request : Request}
    (h : read? arguments = some (.request request)) :
    exists (name : CommandName) (level : Level), name.command? level = some request.command := by
  rcases Option.bind_eq_some_iff.mp h with ⟨outer, _, houter⟩
  split at houter
  · exact absurd houter (readEnding?_ne_request _ _ _)
  · cases houter
  · split at houter
    · exact absurd houter (readHelp?_ne_request _ _)
    · rcases Option.bind_eq_some_iff.mp houter with ⟨name, _, hname⟩
      exact ⟨name, exists_command_of_readCommand? hname⟩

/-- A command that removes names is given one at least. -/
theorem command?_ne_remove_nil (name : CommandName) (level : Level) :
    name.command? level ≠ some (.remove []) := by
  intro h
  unfold CommandName.command? at h
  split at h <;> simp [Option.bind_eq_some_iff] at h

section Project

variable {directory : ResourceDirectory} {tree : FileTree} {request : Request}

/-!
# The directory of a request
-/

theorem isDirectoryAt_of_validateDirectory
    (h : Run.validateDirectory tree directory = .ok ()) :
    tree.isDirectoryAt directory.root = true := by
  by_contra hroot
  rw [Bool.not_eq_true] at hroot
  unfold Run.validateDirectory at h
  rw [hroot] at h
  split at h <;> cases h

/-- A directory that is there can be listed. -/
theorem exists_languages_of_isDirectoryAt
    (h : tree.isDirectoryAt directory.root = true) :
    exists found : List Text, languages tree directory = .ok found := by
  unfold FileTree.isDirectoryAt at h
  unfold languages
  split at h
  · rename_i root hresolve
    rw [hresolve]
    exact ⟨_, if_pos h⟩
  · cases h

/-- The source file is among the files of the directory that a request works on. -/
theorem sourceLanguage_mem_of_project?
    (h : request.project? tree = some directory) :
    Qualifier.sourceLanguage ∈ directory.everyLanguage tree := by
  unfold Request.project? at h
  split at h
  · cases h
  · split at h
    · cases h
    · rename_i config _ hvalid
      rw [Option.some.injEq] at h
      rcases exists_languages_of_isDirectoryAt (isDirectoryAt_of_validateDirectory (h ▸ hvalid))
        with ⟨found, hfound⟩
      rw [everyLanguage, targets, hfound]
      exact List.mem_cons_self

theorem exists_project_of_succeeded
    (h : (request.run tree).succeeded = true) :
    exists directory : ResourceDirectory, request.project? tree = some directory := by
  unfold Request.run at h
  unfold Request.project?
  cases hconfig : Config.load tree request.config with
  | error fault =>
      rw [hconfig] at h
      cases h
  | ok config =>
      simp only [hconfig] at h
      cases hvalid : Run.validateDirectory tree (request.directory config) with
      | error cause =>
          rw [hvalid] at h
          cases h
      | ok accepted =>
          refine ⟨request.directory config, ?_⟩
          simp only [hvalid]

end Project

/-!
# Additions
-/

/-- The entry that a command adds, and where. -/
inductive Command.Adds : Command -> Scope -> EntryKind.Key -> Prop where
  | string (id value : Text) (mode : EscapeMode) (scope : Scope) :
      Adds (.add id value mode scope) scope (.string, id)
  | plurals (id : Text) (pairs : List Text) (mode : EscapeMode) (scope : Scope) :
      Adds (.addPlural id pairs mode scope) scope (.plurals, id)

section Commands

variable {directory : ResourceDirectory} {tree : FileTree} {config : Config}

/-- An addition that succeeds leaves its entry in every file of its scope. -/
theorem Command.Adds.hasInScope
    {command : Command} {scope : Scope} {key : EntryKind.Key}
    (h : command.Adds scope key)
    (hplain : directory.PlainTargets tree)
    (hsource : Qualifier.sourceLanguage ∈ directory.everyLanguage tree)
    (hsuccess : (Run.command config tree directory command).succeeded = true) :
    directory.HasInScope (Run.command config tree directory command).tree scope key := by
  cases h with
  | string id value mode scope =>
      rcases Run.exists_of_withValue hsuccess with ⟨_, hid, _⟩
      have hasks : Command.Asks (.add id value mode scope) (.addString id value mode scope) :=
        .add value mode scope hid
      rcases hasks.exists_report hsuccess with ⟨report, hreport, hfailed⟩
      rw [hasks.tree_command]
      exact hasInScope_addString (isVerbatim_of_isValidId (isValidId_of_validateId hid))
        hplain hsource hreport hfailed
  | plurals id pairs mode scope =>
      rcases Run.exists_of_withValue hsuccess with ⟨_, hid, hrest⟩
      rcases Run.exists_of_withValue hrest with ⟨forms, hforms, _⟩
      have hasks : Command.Asks (.addPlural id pairs mode scope)
          (.addPlural id forms mode scope) :=
        .addPlural mode scope hid hforms
      rcases hasks.exists_report hsuccess with ⟨report, hreport, hfailed⟩
      rw [hasks.tree_command]
      exact hasInScope_addPlural (isVerbatim_of_isValidId (isValidId_of_validateId hid))
        hplain hsource hreport hfailed

/-!
# Removals
-/

/-- Where the removal of several names succeeds, the first one has been removed. -/
theorem Run.exists_report_of_removeAll
    {id : Text} {ids : List Text} {failed : Nat}
    (h : (Run.removeAll directory failed tree (id :: ids)).succeeded = true) :
    exists report : BatchReport,
      (directory.remove tree id).1 = .ok report ∧
        (Run.removeAll directory (failed + report.failed) (directory.remove tree id).2
          ids).succeeded = true := by
  unfold Run.removeAll at h
  rcases hdone : directory.remove tree id with ⟨answer, edited⟩
  rw [hdone] at h
  cases answer with
  | error fault => cases h
  | ok report => exact ⟨report, rfl, h⟩

/-- No failure is forgotten on the way. -/
theorem Run.failed_eq_zero_of_removeAll
    {ids : List Text} {failed : Nat}
    (h : (Run.removeAll directory failed tree ids).succeeded = true) :
    failed = 0 := by
  induction ids generalizing failed tree with
  | nil =>
      by_contra hfailed
      rw [Run.removeAll, Run.operationsFailure, if_pos (Nat.pos_of_ne_zero hfailed)] at h
      cases h
  | cons id ids ih =>
      rcases Run.exists_report_of_removeAll h with ⟨report, _, hrest⟩
      exact (Nat.add_eq_zero_iff.mp (ih hrest)).1

/-- A removal that succeeds leaves every file without the names. -/
theorem removedEverywhere_removeAll
    {ids : List Text}
    (hne : ids ≠ [])
    (hplain : directory.PlainTargets tree)
    (hsuccess : (Run.removeAll directory 0 tree ids).succeeded = true) :
    directory.RemovedEverywhere ids tree (Run.removeAll directory 0 tree ids).tree := by
  cases ids with
  | nil => exact absurd rfl hne
  | cons id ids =>
      -- Every file was read when the first name was removed.
      rcases Run.exists_report_of_removeAll hsuccess with ⟨report, hreport, hrest⟩
      have hfailed : report.failed = 0 :=
        (Nat.add_eq_zero_iff.mp (Run.failed_eq_zero_of_removeAll hrest)).2
      rcases exists_load_of_remove hreport hfailed with ⟨found, hfound, hloads⟩
      exact (directory.removesNames_removeAll 0 tree (id :: ids)).everywhere hplain hfound hloads

end Commands

/-!
# Main statement
-/

/-- A command line that succeeds has done its work in every file: an entry that is added is in the
source file and in every translation of the scope, and names that are removed are in none of them,
while everything else is there as before. -/
theorem run_complete
    {arguments : List Text} {request : Request} {tree : FileTree}
    (hread : read? arguments = some (.request request))
    (hsuccess : (request.run tree).succeeded = true) :
    exists directory : ResourceDirectory,
      request.project? tree = some directory ∧
        (directory.PlainTargets tree ->
          (forall (scope : Scope) (key : EntryKind.Key), request.command.Adds scope key ->
            directory.HasInScope (request.run tree).tree scope key) ∧
          forall ids : List Text, request.command = .remove ids ->
            directory.RemovedEverywhere ids tree (request.run tree).tree) := by
  rcases exists_project_of_succeeded hsuccess with ⟨directory, hproject⟩
  have hinvocation : (Invocation.request request).project? tree =
      some (directory, request.command) :=
    Option.map_eq_some_iff.mpr ⟨directory, hproject, rfl⟩
  rcases Invocation.exists_run hinvocation with ⟨config, hrun⟩
  change request.run tree = Run.command config tree directory request.command at hrun
  rw [hrun] at hsuccess ⊢
  refine ⟨directory, hproject, fun hplain => ⟨fun scope key hadds => ?_, fun ids hids => ?_⟩⟩
  · exact hadds.hasInScope hplain (sourceLanguage_mem_of_project? hproject) hsuccess
  · rcases exists_command_of_read? hread with ⟨name, level, hcommand⟩
    have hne : ids ≠ [] := by
      rintro rfl
      exact command?_ne_remove_nil name level (hcommand.trans (congrArg some hids))
    rw [hids] at hsuccess ⊢
    exact removedEverywhere_removeAll hne hplain hsuccess

/-- A project in which the source file has a string that the translation does not have, and the
translation has plurals of its own. -/
def greetedInSource : FileTree :=
  ⟨[(["app".toList, "src".toList, "main".toList, "res".toList, "values".toList, fileName],
      Encoding.encode "<resources><string name=\"greeting\">Hello</string></resources>".toList),
    (["app".toList, "src".toList, "main".toList, "res".toList, "values-fr".toList, fileName],
      Encoding.encode "<resources><plurals name=\"items\"/></resources>".toList)],
    []⟩

theorem run_complete_greeting :
    let directory : ResourceDirectory := ⟨"app/src/main/res".toList⟩
    let addition : Request :=
      ⟨none, none, .add "greeting".toList "Hello".toList .escaped .everywhere⟩
    let removal : Request := ⟨none, none, .remove ["greeting".toList, "items".toList]⟩
    read? ["add".toList, "greeting".toList, "Hello".toList] = some (.request addition) ∧
      (addition.run greetedInSource).succeeded = true ∧
      read? ["remove".toList, "greeting".toList, "items".toList] = some (.request removal) ∧
      (removal.run greetedInSource).succeeded = true ∧
      directory.PlainTargets greetedInSource ∧
      directory.HasInScope (addition.run greetedInSource).tree .everywhere
        (.string, "greeting".toList) ∧
      directory.RemovedEverywhere ["greeting".toList, "items".toList] greetedInSource
        (removal.run greetedInSource).tree := by
  intro directory addition removal
  have hadd : read? ["add".toList, "greeting".toList, "Hello".toList] =
      some (.request addition) := by
    decide +kernel
  have hadded : (addition.run greetedInSource).succeeded = true := by
    decide +kernel
  have hremove : read? ["remove".toList, "greeting".toList, "items".toList] =
      some (.request removal) := by
    decide +kernel
  have hremoved : (removal.run greetedInSource).succeeded = true := by
    decide +kernel
  have hplain : directory.PlainTargets greetedInSource := by
    decide +kernel
  have hproject : addition.project? greetedInSource = some directory ∧
      removal.project? greetedInSource = some directory := by
    decide +kernel
  refine ⟨hadd, hadded, hremove, hremoved, hplain, ?_, ?_⟩
  · rcases run_complete hadd hadded with ⟨found, hfound, hcomplete⟩
    rw [hproject.1, Option.some.injEq] at hfound
    rw [← hfound] at hcomplete
    exact (hcomplete hplain).1 .everywhere (.string, "greeting".toList)
      (.string "greeting".toList "Hello".toList .escaped .everywhere)
  · rcases run_complete hremove hremoved with ⟨found, hfound, hcomplete⟩
    rw [hproject.2, Option.some.injEq] at hfound
    rw [← hfound] at hcomplete
    exact (hcomplete hplain).2 ["greeting".toList, "items".toList] rfl

end CommandLine
end AndroidStrings
