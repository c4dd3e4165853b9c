import AndroidStrings.CommandLine.Run
import AndroidStrings.Proofs.Project.EditedKeys

/-!
# Edits that a command line asks for

Once its arguments are accepted, a command that stores or sorts something makes one edit of the
project.  It leaves the tree of this edit, and it succeeds only if the edit fails for none of its
targets.

## Main statements

- `Command.Asks.tree_command` : the tree that a command leaves.
- `Command.Asks.exists_report` : what is known of the edit of a command that succeeds.
- `Command.cases_command` : the commands that change the tree.
- `Invocation.exists_run` : the command that is run.
-/

namespace AndroidStrings

open ResourceDirectory

namespace CommandLine

/-- The edit that a command asks for, with arguments that are accepted.  Names are removed one
after another, which is no single edit. -/
inductive Command.Asks : Command -> ProjectCommand -> Prop where
  | set {language : Text} {arguments : List Text} {pairs : List (Text × Text)}
      (mode : EscapeMode) (create : Bool)
      (hlanguage : validateLanguage language = .ok ())
      (hpairs : parseIdPairs arguments = .ok pairs) :
      Asks (.set language arguments mode create) (.setBatch language pairs mode create)
  | setPlurals {language : Text} {arguments : List Text} {forms : List (Quantity × Text)}
      (id : Text) (mode : EscapeMode)
      (hlanguage : validateLanguage language = .ok ())
      (hforms : parseQuantityPairs arguments = .ok forms) :
      Asks (.setPlurals language id arguments mode) (.setPlurals language id forms mode)
  | add {id : Text} (value : Text) (mode : EscapeMode) (scope : Scope)
      (hid : validateId id = .ok ()) :
      Asks (.add id value mode scope) (.addString id value mode scope)
  | addPlural {id : Text} {arguments : List Text} {forms : List (Quantity × Text)}
      (mode : EscapeMode) (scope : Scope)
      (hid : validateId id = .ok ())
      (hforms : parseQuantityPairs arguments = .ok forms) :
      Asks (.addPlural id arguments mode scope) (.addPlural id forms mode scope)
  | sortAll :
      Asks (.sort none) (.sort none)
  | sortOne {language : Text}
      (hlanguage : validateLanguage language = .ok ()) :
      Asks (.sort (some language)) (.sort (some language))

/-!
# Arguments that are accepted
-/

theorem isValidId_of_validateId
    {id : Text} {found : Unit}
    (h : validateId id = .ok found) :
    isValidId id = true := by
  unfold validateId at h
  split at h
  · assumption
  · cases h

theorem isValidId_of_mapM_idPair
    {given pairs : List (Text × Text)}
    (h : given.mapM idPair = .ok pairs) :
    forall pair, pair ∈ pairs -> isValidId pair.1 = true := by
  induction given generalizing pairs with
  | nil =>
      rw [List.mapM_nil] at h
      rw [← Except.ok.inj h]
      exact fun _ hpair => absurd hpair List.not_mem_nil
  | cons first given ih =>
      rw [List.mapM_cons] at h
      rcases Success.bind_eq_ok_iff.mp h with ⟨head, hhead, hrest⟩
      rcases Success.bind_eq_ok_iff.mp hrest with ⟨tail, htail, heq⟩
      rcases Success.map_eq_ok_iff.mp hhead with ⟨_, hvalid, rfl⟩
      rw [← Except.ok.inj heq]
      exact List.forall_mem_cons.mpr ⟨isValidId_of_validateId hvalid, ih htail⟩

theorem isValidId_of_parseIdPairs
    {arguments : List Text} {pairs : List (Text × Text)}
    (h : parseIdPairs arguments = .ok pairs) :
    forall pair, pair ∈ pairs -> isValidId pair.1 = true := by
  unfold parseIdPairs at h
  split at h
  · exact isValidId_of_mapM_idPair h
  · cases h

/-- A language that is accepted is the name of one folder. -/
theorem notMem_slash_of_validateLanguage
    {language : Text} {found : Unit}
    (h : validateLanguage language = .ok found) :
    '/' ∉ language := by
  unfold validateLanguage at h
  split at h
  · cases h
  · split at h
    · rename_i hsource
      rw [Qualifier.isSource, Bool.or_eq_true, beq_iff_eq, beq_iff_eq] at hsource
      rcases hsource with heq | heq
      · rw [heq]
        decide
      · rw [heq]
        decide
    · split at h
      · rename_i htag
        unfold Qualifier.languageTag? at htag
        split at htag
        · rename_i hlanguage
          exact Qualifier.notMem_slash_of_isLanguage hlanguage
        · cases htag
      · cases h

namespace Command.Asks

variable {command : Command} {edit other : ProjectCommand} {tree : FileTree}
  {directory : ResourceDirectory}

theorem unique
    (h : command.Asks edit)
    (hother : command.Asks other) :
    other = edit := by
  cases h with
  | set mode create hlanguage hpairs =>
      cases hother with
      | set _ _ _ hpairs' => rw [Except.ok.inj (hpairs'.symm.trans hpairs)]
  | setPlurals id mode hlanguage hforms =>
      cases hother with
      | setPlurals _ _ _ hforms' => rw [Except.ok.inj (hforms'.symm.trans hforms)]
  | add value mode scope hid =>
      cases hother
      rfl
  | addPlural mode scope hid hforms =>
      cases hother with
      | addPlural _ _ _ hforms' => rw [Except.ok.inj (hforms'.symm.trans hforms)]
  | sortAll =>
      cases hother
      rfl
  | sortOne hlanguage =>
      cases hother
      rfl

theorem notMem_slash
    {language id : Text} {forms : List (Quantity × Text)} {mode : EscapeMode}
    (h : command.Asks (.setPlurals language id forms mode)) :
    '/' ∉ language := by
  cases h with
  | setPlurals id mode hlanguage hforms => exact notMem_slash_of_validateLanguage hlanguage

/-- What holds behind an edit of any kind, where it depends on plurals that are set and on files
that are sorted. -/
theorem iff_of_kinds
    {p : Prop} {plurals : Text -> Text -> List (Quantity × Text) -> EscapeMode -> Prop}
    {sorts : Option Text -> Prop}
    (h : command.Asks edit)
    (hplurals : forall (language id : Text) (forms : List (Quantity × Text)) (mode : EscapeMode),
      edit = .setPlurals language id forms mode -> (p ↔ plurals language id forms mode))
    (hsorts : forall language : Option Text, edit = .sort language -> (p ↔ sorts language))
    (hothers : (forall (language id : Text) (forms : List (Quantity × Text)) (mode : EscapeMode),
      edit ≠ .setPlurals language id forms mode) ->
        (forall language : Option Text, edit ≠ .sort language) -> p) :
    p ↔
      (forall (language id : Text) (forms : List (Quantity × Text)) (mode : EscapeMode),
        command.Asks (.setPlurals language id forms mode) -> plurals language id forms mode) ∧
      forall language : Option Text, command.Asks (.sort language) -> sorts language := by
  constructor
  · intro hp
    constructor
    · exact fun language id forms mode hasks =>
        (hplurals language id forms mode (h.unique hasks).symm).mp hp
    · exact fun language hasks => (hsorts language (h.unique hasks).symm).mp hp
  · rintro ⟨hallPlurals, hallSorts⟩
    cases edit with
    | setPlurals language id forms mode =>
        exact (hplurals language id forms mode rfl).mpr (hallPlurals language id forms mode h)
    | sort language => exact (hsorts language rfl).mpr (hallSorts language h)
    | _ =>
        apply hothers
        · intro _ _ _ _ heq
          cases heq
        · intro _ heq
          cases heq

/-- Every name of an edit has been accepted, but that of plurals that are set. -/
theorem isValidId_of_created
    (h : command.Asks edit)
    (hne : forall (language id : Text) (forms : List (Quantity × Text)) (mode : EscapeMode),
      edit ≠ .setPlurals language id forms mode) :
    forall key, key ∈ edit.created -> isValidId key.2 = true := by
  cases h with
  | set mode create hlanguage hpairs =>
      intro key hkey
      rcases List.mem_map.mp hkey with ⟨pair, hpair, rfl⟩
      exact isValidId_of_parseIdPairs hpairs pair hpair
  | setPlurals id mode hlanguage hforms => exact absurd rfl (hne _ _ _ _)
  | add value mode scope hid =>
      exact List.forall_mem_singleton.mpr (isValidId_of_validateId hid)
  | addPlural mode scope hid hforms =>
      exact List.forall_mem_singleton.mpr (isValidId_of_validateId hid)
  | sortAll => exact fun _ hkey => absurd hkey List.not_mem_nil
  | sortOne hlanguage => exact fun _ hkey => absurd hkey List.not_mem_nil

end Command.Asks

/-!
# What a command leaves
-/

section Steps

variable {α ε : Type} {tree : FileTree} {next : Outcome}

@[simp] theorem Run.withValue_ok (tree : FileTree) (cause : ε -> Failure) (found : α)
    (next : α -> Outcome) :
    Run.withValue tree cause (.ok found) next = next found :=
  rfl

@[simp] theorem Run.withValue_error (tree : FileTree) (cause : ε -> Failure) (fault : ε)
    (next : α -> Outcome) :
    Run.withValue tree cause (.error fault) next = .failed tree (cause fault) :=
  rfl

theorem Run.tree_withValue
    {next : α -> Outcome}
    (h : forall found : α, (next found).tree = tree)
    (cause : ε -> Failure) (value : Except ε α) :
    (Run.withValue tree cause value next).tree = tree := by
  cases value with
  | ok found => exact h found
  | error fault => rfl

theorem Run.tree_withLanguage
    (h : next.tree = tree)
    (language : Text) :
    (Run.withLanguage tree language next).tree = tree :=
  Run.tree_withValue (fun _ => h) _ _

theorem Run.tree_withOptionalLanguage
    (h : next.tree = tree)
    (language : Option Text) :
    (Run.withOptionalLanguage tree language next).tree = tree := by
  cases language with
  | none => exact h
  | some given => exact Run.tree_withLanguage h given

end Steps

theorem Outcome.tree_after (lines : Lines) (outcome : Outcome) :
    (outcome.after lines).tree = outcome.tree :=
  rfl

theorem Run.tree_ofBatch (verb : String) (edited : Edited BatchReport) :
    (Run.ofBatch verb edited).tree = edited.2 := by
  rcases edited with ⟨answer, tree⟩
  cases answer <;> rfl

theorem Run.tree_setOne (tree : FileTree) (directory : ResourceDirectory)
    (language id value : Text) (mode : EscapeMode) (create : Bool) :
    (Run.setOne tree directory language id value mode create).tree =
      (directory.setBatch tree language [(id, value)] mode create).2 := by
  unfold Run.setOne
  rcases directory.setBatch tree language [(id, value)] mode create with ⟨answer, edited⟩
  cases answer with
  | error fault => rfl
  | ok report =>
      simp only
      split
      · rfl
      · refine Run.tree_withValue ?_ _ _
        exact fun _ => rfl

section Command

variable {command : Command} {edit : ProjectCommand} {config : Config} {tree : FileTree}
  {directory : ResourceDirectory}

/-- A command leaves the tree of the edit that it asks for. -/
theorem Command.Asks.tree_command
    (h : command.Asks edit) :
    (Run.command config tree directory command).tree = (directory.perform tree edit).2 := by
  cases h with
  | set mode create hlanguage hpairs =>
      simp only [Run.command, Run.set, Run.withLanguage, Run.withValue_ok, hlanguage, hpairs]
      split
      · exact Run.tree_setOne _ _ _ _ _ _ _
      · exact Run.tree_ofBatch _ _
  | setPlurals id mode hlanguage hforms =>
      simp only [Run.command, Run.setPlurals, Run.withLanguage, Run.withValue_ok, hlanguage, hforms,
        perform, Outcome.tree_after]
      split <;> rename_i heq <;> rw [heq] <;> rfl
  | add value mode scope hid =>
      simp only [Run.command, Run.add, Run.withValue_ok, hid]
      exact Run.tree_ofBatch _ _
  | addPlural mode scope hid hforms =>
      simp only [Run.command, Run.addPlural, Run.withValue_ok, hid, hforms]
      exact Run.tree_ofBatch _ _
  | sortAll => exact Run.tree_ofBatch _ _
  | sortOne hlanguage =>
      simp only [Run.command, Run.sort, Run.withOptionalLanguage, Run.withLanguage,
        Run.withValue_ok, hlanguage]
      exact Run.tree_ofBatch _ _

/-- A command changes the tree by the edit that it asks for, or removes names, or leaves it. -/
theorem Command.cases_command (command : Command) (config : Config) (tree : FileTree)
    (directory : ResourceDirectory) :
    (exists edit : ProjectCommand, command.Asks edit) ∨
      (exists ids : List Text, command = .remove ids) ∨
        (Run.command config tree directory command).tree = tree := by
  cases command with
  | set language arguments mode create =>
      cases hlanguage : validateLanguage language with
      | error fault =>
          simp [Run.command, Run.set, Run.withLanguage, hlanguage, Outcome.failed]
      | ok found =>
          cases hpairs : parseIdPairs arguments with
          | error fault =>
              simp [Run.command, Run.set, Run.withLanguage, hlanguage, hpairs, Outcome.failed]
          | ok pairs => exact .inl ⟨_, .set mode create hlanguage hpairs⟩
  | setPlurals language id arguments mode =>
      cases hlanguage : validateLanguage language with
      | error fault =>
          simp [Run.command, Run.setPlurals, Run.withLanguage, hlanguage, Outcome.failed]
      | ok found =>
          cases hforms : parseQuantityPairs arguments with
          | error fault =>
              simp [Run.command, Run.setPlurals, Run.withLanguage, hlanguage, hforms,
                Outcome.failed]
          | ok forms => exact .inl ⟨_, .setPlurals id mode hlanguage hforms⟩
  | add id value mode scope =>
      cases hid : validateId id with
      | error fault => simp [Run.command, Run.add, hid, Outcome.failed]
      | ok found => exact .inl ⟨_, .add value mode scope hid⟩
  | addPlural id arguments mode scope =>
      cases hid : validateId id with
      | error fault => simp [Run.command, Run.addPlural, hid, Outcome.failed]
      | ok found =>
          cases hforms : parseQuantityPairs arguments with
          | error fault =>
              simp [Run.command, Run.addPlural, hid, hforms, Outcome.failed]
          | ok forms => exact .inl ⟨_, .addPlural mode scope hid hforms⟩
  | sort language =>
      cases language with
      | none => exact .inl ⟨_, .sortAll⟩
      | some language =>
          cases hlanguage : validateLanguage language with
          | error fault =>
              simp [Run.command, Run.sort, Run.withOptionalLanguage, Run.withLanguage, hlanguage,
                Outcome.failed]
          | ok found => exact .inl ⟨_, .sortOne hlanguage⟩
  | remove ids => exact .inr (.inl ⟨ids, rfl⟩)
  | check language mode near style strict =>
      refine .inr (.inr (Run.tree_withOptionalLanguage (Run.tree_withValue ?_ _ _) _))
      exact fun _ => rfl
  | get language id raw =>
      refine .inr (.inr (Run.tree_withLanguage (Run.tree_withValue ?_ _ _) _))
      exact fun _ => rfl
  | getPlurals language id =>
      refine .inr (.inr (Run.tree_withLanguage (Run.tree_withValue ?_ _ _) _))
      exact fun _ => rfl
  | changed variant json =>
      refine .inr (.inr (Run.tree_withLanguage (Run.tree_withValue ?_ _ _) _))
      exact fun _ => rfl
  | _ =>
      refine .inr (.inr (Run.tree_withValue ?_ _ _))
      exact fun _ => rfl

/-!
# Commands that succeed
-/

theorem Run.exists_of_withValue
    {α ε : Type} {cause : ε -> Failure} {value : Except ε α} {next : α -> Outcome}
    (h : (Run.withValue tree cause value next).succeeded = true) :
    exists found : α, value = .ok found ∧ (next found).succeeded = true := by
  cases value with
  | ok found => exact ⟨found, rfl, h⟩
  | error fault => cases h

theorem Run.exists_report_of_ofBatch
    {verb : String} {edited : Edited BatchReport}
    (h : (Run.ofBatch verb edited).succeeded = true) :
    exists report : BatchReport, edited.1 = .ok report ∧ report.failed = 0 := by
  rcases edited with ⟨answer, left⟩
  cases answer with
  | error fault => cases h
  | ok report =>
      refine ⟨report, rfl, ?_⟩
      by_contra hfailed
      rw [Run.ofBatch, Run.operationsFailure, if_pos (Nat.pos_of_ne_zero hfailed)] at h
      cases h

theorem Run.exists_report_of_setOne
    {language id value : Text} {mode : EscapeMode} {create : Bool}
    (h : (Run.setOne tree directory language id value mode create).succeeded = true) :
    exists report : BatchReport,
      (directory.setBatch tree language [(id, value)] mode create).1 = .ok report ∧
        report.failed = 0 := by
  unfold Run.setOne at h
  rcases hdone : directory.setBatch tree language [(id, value)] mode create with ⟨answer, edited⟩
  rw [hdone] at h
  cases answer with
  | error fault => cases h
  | ok report =>
      rcases exists_setStrings_of_setBatch hdone with ⟨_, _, _, _, _, hset, _⟩
      rcases outcomes_setStrings hset with ⟨htargets, hstatuses⟩
      rcases report with ⟨outcomes⟩
      -- The report is on the one string, so looking it up finds its outcome.
      rcases List.map_eq_singleton_iff.mp htargets with ⟨outcome, rfl, htarget⟩
      have hstatus : (⟨[outcome]⟩ : BatchReport).statusOf? id = some outcome.status := by
        simp [BatchReport.statusOf?, htarget]
      simp only [hstatus] at h
      refine ⟨_, rfl, ?_⟩
      rcases hstatuses outcome (List.mem_singleton_self outcome) with happlied | hfailed
      · simp [BatchReport.failed, BatchReport.count, TargetStatus.isApplied_iff.mp happlied,
          TargetStatus.isFailed]
      · cases hcause : outcome.status with
        | failed cause =>
            rw [hcause] at h
            cases h
        | _ => simp [hcause, TargetStatus.isFailed] at hfailed

/-- If a command succeeds, its edit fails for no target. -/
theorem Command.Asks.exists_report
    (h : command.Asks edit)
    (hsuccess : (Run.command config tree directory command).succeeded = true) :
    exists report : BatchReport,
      (directory.perform tree edit).1 = .ok report ∧ report.failed = 0 := by
  cases h with
  | set mode create hlanguage hpairs =>
      simp only [Run.command, Run.set, Run.withLanguage, Run.withValue_ok, hlanguage, hpairs]
        at hsuccess
      split at hsuccess
      · exact Run.exists_report_of_setOne hsuccess
      · exact Run.exists_report_of_ofBatch hsuccess
  | setPlurals id mode hlanguage hforms =>
      simp only [Run.command, Run.setPlurals, Run.withLanguage, Run.withValue_ok, hlanguage,
        hforms] at hsuccess
      rw [perform]
      split at hsuccess
      · cases hsuccess
      · rename_i edited heq
        rw [heq]
        exact ⟨_, rfl, rfl⟩
  | add value mode scope hid =>
      simp only [Run.command, Run.add, Run.withValue_ok, hid] at hsuccess
      exact Run.exists_report_of_ofBatch hsuccess
  | addPlural mode scope hid hforms =>
      simp only [Run.command, Run.addPlural, Run.withValue_ok, hid, hforms] at hsuccess
      exact Run.exists_report_of_ofBatch hsuccess
  | sortAll => exact Run.exists_report_of_ofBatch hsuccess
  | sortOne hlanguage =>
      simp only [Run.command, Run.sort, Run.withOptionalLanguage, Run.withLanguage,
        Run.withValue_ok, hlanguage] at hsuccess
      exact Run.exists_report_of_ofBatch hsuccess

/-- Setting plurals succeeds where the file can be read and the forms can be stored. -/
theorem Command.Asks.succeeded_iff
    {language id : Text} {forms : List (Quantity × Text)} {mode : EscapeMode}
    (h : command.Asks (.setPlurals language id forms mode)) :
    (Run.command config tree directory command).succeeded = true ↔
      exists (document : Document) (outcome : EditOutcome),
        load tree directory language = .ok document ∧
          (document.setPlurals id forms mode).result = .ok outcome := by
  cases h with
  | setPlurals id mode hlanguage hforms =>
      simp only [Run.command, Run.setPlurals, Run.withLanguage, Run.withValue_ok, hlanguage,
        hforms, ResourceDirectory.setPlurals]
      cases hload : load tree directory language with
      | error fault => simp [Outcome.after, Outcome.failed, Outcome.succeeded]
      | ok document =>
          cases hresult : (document.setPlurals id forms mode).result with
          | error fault => simp [hresult, Outcome.after, Outcome.failed, Outcome.succeeded]
          | ok outcome => simp [hresult, Outcome.after, Outcome.done, Outcome.succeeded]

end Command

/-!
# Command lines
-/

/-- The resource directory that a request works on, if it is there. -/
def Request.project? (tree : FileTree) (request : Request) : Option ResourceDirectory :=
  match Config.load tree request.config with
  | .error _ => none
  | .ok config =>
      match Run.validateDirectory tree (request.directory config) with
      | .error _ => none
      | .ok () => some (request.directory config)

/-- The command that is run, with the resource directory that it works on. -/
def Invocation.project? (tree : FileTree) : Invocation -> Option (ResourceDirectory × Command)
  | .request given => (given.project? tree).map fun directory => (directory, given.command)
  | _ => none

/-- The edit that a command line asks for, with the resource directory that it is made in. -/
def Invocation.Asks (tree : FileTree) (invocation : Invocation) (directory : ResourceDirectory)
    (edit : ProjectCommand) : Prop :=
  exists command : Command,
    invocation.project? tree = some (directory, command) ∧ command.Asks edit

theorem Invocation.Asks.of_project?
    {tree : FileTree} {invocation : Invocation} {directory other : ResourceDirectory}
    {command : Command} {edit : ProjectCommand}
    (h : invocation.Asks tree other edit)
    (hproject : invocation.project? tree = some (directory, command)) :
    other = directory ∧ command.Asks edit := by
  rcases h with ⟨found, hfound, hedit⟩
  rw [hproject, Option.some.injEq, Prod.mk.injEq] at hfound
  rw [hfound.1, hfound.2]
  exact ⟨rfl, hedit⟩

theorem Invocation.exists_run
    {tree : FileTree} {invocation : Invocation} {directory : ResourceDirectory}
    {command : Command}
    (h : invocation.project? tree = some (directory, command)) :
    exists config : Config,
      invocation.run tree = Run.command config tree directory command := by
  cases invocation with
  | help => cases h
  | version => cases h
  | request given =>
      rcases Option.map_eq_some_iff.mp h with ⟨found, hfound, heq⟩
      rw [Prod.mk.injEq] at heq
      rw [← heq.1, ← heq.2]
      unfold Request.project? at hfound
      split at hfound
      · cases hfound
      · rename_i config hconfig
        split at hfound
        · cases hfound
        · rename_i hvalid
          refine ⟨config, ?_⟩
          rw [← Option.some.inj hfound]
          simp only [Invocation.run, Request.run, hconfig, hvalid]

/-- Without a directory to work on, nothing changes. -/
theorem Invocation.tree_run_of_none
    {tree : FileTree} {invocation : Invocation}
    (h : invocation.project? tree = none) :
    (invocation.run tree).tree = tree := by
  cases invocation with
  | help => rfl
  | version => rfl
  | request given =>
      have hnone := Option.map_eq_none_iff.mp h
      unfold Request.project? at hnone
      simp only [Invocation.run, Request.run]
      cases hconfig : Config.load tree given.config with
      | error fault => rfl
      | ok config =>
          rw [hconfig] at hnone
          cases hvalid : Run.validateDirectory tree (given.directory config) with
          | error fault =>
              simp only [hvalid]
              rfl
          | ok accepted => simp [hvalid] at hnone

/-!
# Plurals with one form
-/

/-- Sets the form of one quantity. -/
def Command.setOther (language id : Text) : Command :=
  .setPlurals language id ["other".toList, "x".toList] .escaped

theorem Command.asks_setOther
    {language : Text}
    (hlanguage : validateLanguage language = .ok ())
    (id : Text) :
    (Command.setOther language id).Asks
      (.setPlurals language id [(.other, "x".toList)] .escaped) :=
  .setPlurals id .escaped hlanguage (by decide +kernel)

theorem orderly_setOther
    {id : Text}
    (hid : Markup.IsVerbatim id)
    (directory : ResourceDirectory) (tree : FileTree) (language : Text) :
    (ProjectCommand.setPlurals language id [(.other, "x".toList)] .escaped).Orderly directory
      tree := by
  have hstored : EscapeMode.escaped.StoresBalanced "x".toList := by
    intro _
    rw [show EscapeMode.escaped.apply "x".toList = "x".toList by decide +kernel]
    exact Markup.balanced_of_fragment (@Markup.Fragment.text "x".toList [] (by decide) .empty)
  constructor
  · intro _ _ _ _ heq
    rw [ProjectCommand.setPlurals.injEq] at heq
    exact heq.2.1 ▸ hid
  · exact List.forall_mem_singleton.mpr hstored
  · intro _ _ _ heq
    cases heq

end CommandLine
end AndroidStrings
