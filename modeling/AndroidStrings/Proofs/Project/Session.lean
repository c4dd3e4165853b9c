import AndroidStrings.Project.Command
import AndroidStrings.Proofs.Document.Failure
import AndroidStrings.Proofs.File.Place
import AndroidStrings.Proofs.Text.Encoding

/-!
# Editing in memory

A session edits the documents of a project in memory: it loads a document once, and from then on
works on what its edits made of it.  Editing the files does the same step by step, loading and
storing each time.  The two agree because what is stored is read back as it was, unless its text
begins with a mark.

## Main statements

- `load_save` : storing a session and loading a file gives the document in memory.
- `applyTo_save` : one edit on its file and in memory.
- `applyToAll_save` : the files that one batch leaves, and its outcomes.
-/

namespace AndroidStrings

open ResourceDirectory

/-- A project that is edited in memory: the tree that its files were loaded from, and the
documents that edits have made since, the newest first. -/
structure Session where
  tree : FileTree
  edited : List (Path × Document)

namespace Session

def ofTree (tree : FileTree) : Session :=
  ⟨tree, []⟩

/-- What the edits have made of the file at a place. -/
def document? (session : Session) (place : Path) : Option Document :=
  (session.edited.find? fun kept => kept.1 == place).map Prod.snd

def load (session : Session) (directory : ResourceDirectory) (language : Text) :
    Except Error Document :=
  match (session.tree.resolve (directory.languagePath language)).toOption.bind
      session.document? with
  | some document => .ok document
  | none => ResourceDirectory.load session.tree directory language

def hold (session : Session) (changed : List (Path × Document)) : Session :=
  { session with edited := changed.reverse ++ session.edited }

/-- Stores every document that was made, in the order in which they were made. -/
def save (session : Session) : FileTree :=
  session.edited.foldr (fun kept tree => tree.write kept.1 (Encoding.encode kept.2.text))
    session.tree

/-- What an edit answers for the file of a language. -/
def result (session : Session) (directory : ResourceDirectory) (edit : DocumentEdit)
    (language : Text) : Except Error (Option Document) :=
  (session.load directory language).bind edit

/-- What an edit makes of the document of a language, with the place of its file. -/
def change? (session : Session) (directory : ResourceDirectory) (edit : DocumentEdit)
    (language : Text) : Option (Path × Document) :=
  match session.result directory edit language with
  | .ok (some new) => some (directory.place language, new)
  | _ => none

/-- The source that strings of a language are held to. -/
def reference (session : Session) (directory : ResourceDirectory) (language : Text) :
    Except Error (Option ResourceFile) :=
  if Qualifier.isSource language then .ok none
  else (session.load directory Qualifier.sourceLanguage).map fun source =>
    some (source.resource Qualifier.sourceLanguage)

/-- The languages whose files a command goes to. -/
def targets (session : Session) (directory : ResourceDirectory) (command : ProjectCommand) :
    List Text :=
  match command with
  | .addString _ _ _ scope | .addPlural _ _ _ scope =>
      (ResourceDirectory.targets session.tree directory scope).toOption.getD []
  | .remove _ => (ResourceDirectory.targets session.tree directory .everywhere).toOption.getD []
  | .sort language => (sortTargets session.tree directory language).toOption.getD []
  | .setBatch language _ _ _ | .setPlurals language _ _ _ => [language]

/-- What a command makes of one document. -/
def edit (session : Session) (directory : ResourceDirectory) (command : ProjectCommand) :
    DocumentEdit :=
  match command with
  | .addString id value mode _ => fun document => document.add? id value mode
  | .addPlural id forms mode _ => fun document => document.addPlural? id forms mode
  | .remove id => fun document => allSteps (document.remove id)
  | .sort _ => fun document =>
      (session.load directory Qualifier.sourceLanguage).bind fun source =>
        (document.sort source.order).map some
  | .setBatch language pairs mode create => fun document =>
      (session.reference directory language).map fun source =>
        let (new, outcomes) := setStrings directory (directory.languagePath language) source mode
          create document pairs
        if 0 < (⟨outcomes⟩ : BatchReport).applied then some new else none
  | .setPlurals _ id forms mode => fun document =>
      let stepped := document.setPlurals id forms mode
      stepped.result.map fun _ => some stepped.document

/-- Performs a command on the documents in memory. -/
def perform (directory : ResourceDirectory) (session : Session) (command : ProjectCommand) :
    Session :=
  session.hold ((session.targets directory command).filterMap
    (session.change? directory (session.edit directory command)))

def performAll (directory : ResourceDirectory) (session : Session)
    (commands : List ProjectCommand) : Session :=
  commands.foldl (perform directory) session

/-!
# What a session stores
-/

/-- Every document is one of a file of the tree. -/
def HoldsFiles (session : Session) : Prop :=
  forall kept, kept ∈ session.edited -> session.tree.isFile kept.1 = true

/-- Every document is what its text is read as. -/
def HoldsRead (session : Session) : Prop :=
  forall kept, kept ∈ session.edited -> kept.2.IsRead

/-- No text that was made begins with a mark. -/
def Plain (session : Session) : Prop :=
  forall kept, kept ∈ session.edited -> Document.PlainStart kept.2.text

instance (session : Session) : Decidable session.Plain :=
  inferInstanceAs (Decidable (forall kept, kept ∈ session.edited ->
    Document.PlainStart kept.2.text))

theorem save_cons (tree : FileTree) (kept : Path × Document) (edited : List (Path × Document)) :
    save ⟨tree, kept :: edited⟩ =
      (save ⟨tree, edited⟩).write kept.1 (Encoding.encode kept.2.text) :=
  rfl

theorem HoldsFiles.sameNames_save
    {session : Session}
    (h : session.HoldsFiles) :
    FileTree.SameNames session.save session.tree := by
  rcases session with ⟨tree, edited⟩
  induction edited with
  | nil => exact FileTree.SameNames.refl tree
  | cons kept edited ih =>
      have hrest : FileTree.SameNames (save ⟨tree, edited⟩) tree :=
        ih fun other hother => h other (List.mem_cons_of_mem kept hother)
      have hfile : (save ⟨tree, edited⟩).isFile kept.1 = true := by
        rw [hrest.isFile]
        exact h kept List.mem_cons_self
      rw [save_cons]
      exact (FileTree.sameNames_write hfile _).trans hrest

/-- The bytes of a file behind a session. -/
theorem read?_save (session : Session) (place : Path) :
    session.save.read? place =
      match session.document? place with
      | some document => some (Encoding.encode document.text)
      | none => session.tree.read? place := by
  rcases session with ⟨tree, edited⟩
  induction edited with
  | nil => rfl
  | cons kept edited ih =>
      rw [save_cons, FileTree.read?_write, ih]
      by_cases hplace : place = kept.1
      · simp [document?, hplace]
      · have hne : (kept.1 == place) = false := beq_false_of_ne (Ne.symm hplace)
        rw [if_neg hplace]
        simp [document?, hne]

theorem mem_edited_of_document?
    {session : Session} {place : Path} {document : Document}
    (h : session.document? place = some document) :
    (place, document) ∈ session.edited := by
  rcases Option.map_eq_some_iff.mp h with ⟨kept, hkept, rfl⟩
  have hplace := List.find?_some hkept
  rw [beq_iff_eq] at hplace
  rw [← hplace]
  exact List.mem_of_find?_eq_some hkept

theorem exists_document?
    {session : Session} {kept : Path × Document}
    (h : kept ∈ session.edited) :
    exists document : Document, session.document? kept.1 = some document := by
  have hsome : (session.edited.find? fun other => other.1 == kept.1).isSome = true :=
    List.find?_isSome.mpr ⟨kept, h, beq_self_eq_true kept.1⟩
  rcases Option.isSome_iff_exists.mp hsome with ⟨found, hfound⟩
  exact ⟨found.2, by rw [document?, hfound]; rfl⟩

/-!
# Loading and storing
-/

variable {session : Session} {directory : ResourceDirectory} {language : Text}

theorem load_eq_of_resolve
    {tree : FileTree} {place : Path}
    (h : tree.resolve (directory.languagePath language) = .ok place) :
    ResourceDirectory.load tree directory language =
      match tree.read? place with
      | some bytes => Document.parse (Encoding.decode bytes)
      | none => .error (.fileNotFound (directory.languagePath language)) := by
  have hread : tree.readAt? (directory.languagePath language) = tree.read? place := by
    simp only [FileTree.readAt?, h]
  cases hbytes : tree.read? place with
  | none => simp only [ResourceDirectory.load, hread, hbytes]
  | some bytes => simp only [ResourceDirectory.load, hread, hbytes]

theorem load_eq_of_not_resolve
    {tree : FileTree} {fault : FileTree.PathError}
    (h : tree.resolve (directory.languagePath language) = .error fault) :
    ResourceDirectory.load tree directory language =
      .error (.fileNotFound (directory.languagePath language)) := by
  simp only [ResourceDirectory.load, FileTree.readAt?, h]

theorem load_of_resolve
    {place : Path}
    (h : session.tree.resolve (directory.languagePath language) = .ok place) :
    session.load directory language =
      match session.document? place with
      | some document => .ok document
      | none => ResourceDirectory.load session.tree directory language := by
  simp only [load, h, Except.toOption, Option.bind_some]

theorem load_of_not_resolve
    {fault : FileTree.PathError}
    (h : session.tree.resolve (directory.languagePath language) = .error fault) :
    session.load directory language =
      .error (.fileNotFound (directory.languagePath language)) := by
  simp only [load, h, Except.toOption, Option.bind_none, load_eq_of_not_resolve h]

/-- Storing a session and loading a file gives the document in memory, if that is stored so that
it can be read back. -/
theorem load_save
    (hfiles : session.HoldsFiles)
    (hstored : forall document : Document,
      session.document? (directory.place language) = some document ->
        Document.parse (Encoding.decode (Encoding.encode document.text)) = .ok document) :
    ResourceDirectory.load session.save directory language = session.load directory language := by
  have hresolve := hfiles.sameNames_save.resolve (directory.languagePath language)
  cases hplace : session.tree.resolve (directory.languagePath language) with
  | error fault =>
      rw [load_of_not_resolve hplace, load_eq_of_not_resolve (hresolve.trans hplace)]
  | ok place =>
      rw [load_of_resolve hplace, load_eq_of_resolve (hresolve.trans hplace), read?_save]
      cases hdocument : session.document? place with
      | some document =>
          rw [FileTree.eq_placeOf_of_resolve hplace] at hdocument
          exact hstored document hdocument
      | none => exact (load_eq_of_resolve hplace).symm

/-- A document that can be loaded is that of a file of the tree. -/
theorem isFile_of_load
    {document : Document}
    (hfiles : session.HoldsFiles)
    (h : session.load directory language = .ok document) :
    session.tree.resolve (directory.languagePath language) = .ok (directory.place language) ∧
      session.tree.isFile (directory.place language) = true := by
  cases hplace : session.tree.resolve (directory.languagePath language) with
  | error fault =>
      rw [load_of_not_resolve hplace] at h
      simp at h
  | ok place =>
      have heq : place = directory.place language := FileTree.eq_placeOf_of_resolve hplace
      rw [load_of_resolve hplace, load_eq_of_resolve hplace, heq] at h
      rw [heq]
      refine ⟨rfl, ?_⟩
      split at h
      · rename_i kept hkept
        exact hfiles _ (mem_edited_of_document? hkept)
      · split at h
        · rename_i bytes hbytes
          exact FileTree.isFile_of_read? hbytes
        · simp at h

theorem isRead_of_load
    {document : Document}
    (hread : session.HoldsRead)
    (h : session.load directory language = .ok document) :
    document.IsRead := by
  unfold load at h
  split at h
  · rename_i kept hkept
    rcases Option.bind_eq_some_iff.mp hkept with ⟨place, _, hplace⟩
    rw [Except.ok.injEq] at h
    rw [← h]
    exact hread _ (mem_edited_of_document? hplace)
  · unfold ResourceDirectory.load at h
    simp only at h
    split at h
    · exact Document.isRead_of_parse h
    · simp at h

/-- Storing one document more. -/
theorem store_save
    {document new : Document}
    (hfiles : session.HoldsFiles)
    (h : session.load directory language = .ok document) :
    ResourceDirectory.store session.save directory language new =
      (session.hold [(directory.place language, new)]).save := by
  have hresolve : session.save.resolve (directory.languagePath language) =
      .ok (directory.place language) := by
    rw [hfiles.sameNames_save.resolve]
    exact (isFile_of_load hfiles h).1
  exact FileTree.writeAt_eq_write hresolve _

/-- What was made of one file does not matter for another. -/
theorem load_hold_of_ne
    {place : Path} {document : Document}
    (hne : directory.place language ≠ place) :
    (session.hold [(place, document)]).load directory language =
      session.load directory language := by
  have hother : forall found : Path,
      session.tree.resolve (directory.languagePath language) = .ok found ->
        (session.hold [(place, document)]).document? found = session.document? found := by
    intro found hfound
    have hplace : (place == found) = false := by
      rw [FileTree.eq_placeOf_of_resolve hfound]
      exact beq_false_of_ne (Ne.symm hne)
    simp [document?, hold, hplace]
  unfold load
  rw [show (session.hold [(place, document)]).tree = session.tree from rfl]
  cases hfound : session.tree.resolve (directory.languagePath language) with
  | error fault => rfl
  | ok found =>
      simp only [Except.toOption, Option.bind_some, hother found hfound]

theorem load_save_hold_of_ne
    {place : Path} {document : Document}
    (hfiles : session.HoldsFiles)
    (hfile : session.tree.isFile place = true)
    (hne : directory.place language ≠ place) :
    ResourceDirectory.load (session.hold [(place, document)]).save directory language =
      ResourceDirectory.load session.save directory language := by
  have hsaved : session.save.isFile place = true := by
    rw [hfiles.sameNames_save.isFile]
    exact hfile
  have hnames : FileTree.SameNames (session.hold [(place, document)]).save session.save :=
    FileTree.sameNames_write hsaved _
  have hresolve := hnames.resolve (directory.languagePath language)
  cases hfound : session.save.resolve (directory.languagePath language) with
  | error fault =>
      rw [load_eq_of_not_resolve hfound, load_eq_of_not_resolve (hresolve.trans hfound)]
  | ok found =>
      have hother : found ≠ place := FileTree.eq_placeOf_of_resolve hfound ▸ hne
      have hread : (session.hold [(place, document)]).save.read? found =
          session.save.read? found :=
        FileTree.read?_write_of_ne session.save _ hother
      rw [load_eq_of_resolve hfound, load_eq_of_resolve (hresolve.trans hfound), hread]

/-!
# Batches
-/

/-- What became of a file, by what its edit answers. -/
def statusOf (skipReason : Text) : Except Error (Option Document) -> TargetStatus
  | .error fault => .failed fault
  | .ok none => .skipped skipReason
  | .ok (some _) => .applied

theorem HoldsFiles.hold
    {changed : List (Path × Document)}
    (h : session.HoldsFiles)
    (hchanged : forall kept, kept ∈ changed -> session.tree.isFile kept.1 = true) :
    (session.hold changed).HoldsFiles := by
  intro kept hkept
  rcases List.mem_append.mp hkept with hnew | hold
  · exact hchanged kept (List.mem_reverse.mp hnew)
  · exact h kept hold

theorem hold_hold (first rest : List (Path × Document)) :
    (session.hold first).hold rest = session.hold (first ++ rest) := by
  simp [Session.hold]

theorem applyTo_save
    {edit : DocumentEdit}
    (hfiles : session.HoldsFiles)
    (hload : ResourceDirectory.load session.save directory language =
      session.load directory language)
    (skipReason : Text) :
    applyTo directory skipReason edit session.save language =
      ((session.hold (session.change? directory edit language).toList).save,
        statusOf skipReason (session.result directory edit language)) := by
  rw [applyTo, hload, change?]
  cases hresult : session.result directory edit language with
  | error fault =>
      rw [result] at hresult
      rw [hresult]
      rfl
  | ok edited =>
      rw [result] at hresult
      rw [hresult]
      cases edited with
      | none => rfl
      | some new =>
          rcases Success.bind_eq_ok_iff.mp hresult with ⟨document, hdocument, _⟩
          exact Prod.ext (store_save hfiles hdocument) rfl

theorem mem_change?
    {edit : DocumentEdit} {kept : Path × Document}
    (h : kept ∈ (session.change? directory edit language).toList) :
    kept.1 = directory.place language ∧
      exists document : Document, session.load directory language = .ok document ∧
        edit document = .ok (some kept.2) := by
  rw [Option.mem_toList, change?] at h
  split at h
  · rename_i new hresult
    rw [Option.some.injEq] at h
    rw [← h]
    exact ⟨rfl, Success.bind_eq_ok_iff.mp hresult⟩
  · simp at h

theorem change?_congr
    {edit : DocumentEdit} {next : Session}
    (h : next.result directory edit language = session.result directory edit language) :
    next.change? directory edit language = session.change? directory edit language := by
  rw [change?, change?, h]

theorem HoldsFiles.change?
    {edit : DocumentEdit}
    (h : session.HoldsFiles) :
    (session.hold (session.change? directory edit language).toList).HoldsFiles := by
  apply h.hold
  intro kept hkept
  rcases mem_change? hkept with ⟨hplace, document, hdocument, _⟩
  rw [hplace]
  exact (isFile_of_load h hdocument).2

/-- What is made of one file does not change what is made of the others, on the files as in
memory. -/
theorem load_change?_of_ne
    {edit : DocumentEdit} {other : Text}
    (hfiles : session.HoldsFiles)
    (hne : directory.place other ≠ directory.place language) :
    (session.hold (session.change? directory edit language).toList).load directory other =
        session.load directory other ∧
      ResourceDirectory.load
          (session.hold (session.change? directory edit language).toList).save directory other =
        ResourceDirectory.load session.save directory other := by
  cases hchange : session.change? directory edit language with
  | none => exact ⟨rfl, rfl⟩
  | some kept =>
      have hkept : kept ∈ (session.change? directory edit language).toList := by
        rw [hchange]
        exact List.mem_singleton_self kept
      rcases mem_change? hkept with ⟨hplace, document, hdocument, _⟩
      have hfile := (isFile_of_load hfiles hdocument).2
      rw [← hplace] at hfile hne
      exact ⟨load_hold_of_ne hne, load_save_hold_of_ne hfiles hfile hne⟩

/-- The files that a batch leaves, and its outcomes: each file is edited once, so it does not
matter what was made of the others before. -/
theorem applyToAll_save
    {edit : DocumentEdit} {languages : List Text}
    (hfiles : session.HoldsFiles)
    (hnodup : (languages.map directory.place).Nodup)
    (hload : forall language, language ∈ languages ->
      ResourceDirectory.load session.save directory language = session.load directory language)
    (skipReason : Text) :
    applyToAll directory skipReason edit session.save languages =
      ((session.hold (languages.filterMap (session.change? directory edit))).save,
        languages.map fun language =>
          ⟨language, statusOf skipReason (session.result directory edit language)⟩) := by
  induction languages generalizing session with
  | nil => rfl
  | cons language languages ih =>
      rw [List.map_cons, List.nodup_cons] at hnodup
      have hother : forall other, other ∈ languages ->
          directory.place other ≠ directory.place language := by
        intro other hother heq
        exact hnodup.1 (heq ▸ List.mem_map_of_mem hother)
      have happly : applyTo directory skipReason edit session.save language = _ :=
        applyTo_save hfiles (hload language List.mem_cons_self) skipReason
      let next : Session := session.hold (session.change? directory edit language).toList
      have hfilesNext : next.HoldsFiles := hfiles.change?
      have hchanged : forall other, other ∈ languages ->
          next.load directory other = session.load directory other ∧
            ResourceDirectory.load next.save directory other =
              ResourceDirectory.load session.save directory other :=
        fun other hmem => load_change?_of_ne hfiles (hother other hmem)
      have hloadNext : forall other, other ∈ languages ->
          ResourceDirectory.load next.save directory other = next.load directory other := by
        intro other hmem
        rw [(hchanged other hmem).1, (hchanged other hmem).2,
          hload other (List.mem_cons_of_mem language hmem)]
      have hrest : applyToAll directory skipReason edit (session.hold
          (session.change? directory edit language).toList).save languages = _ :=
        ih hfilesNext hnodup.2 hloadNext
      -- The rest of the batch goes to other files, so its results are those of the start.
      have hresult : forall other, other ∈ languages ->
          next.result directory edit other = session.result directory edit other := by
        intro other hmem
        rw [result, result, (hchanged other hmem).1]
      have hchanges : languages.filterMap (next.change? directory edit) =
          languages.filterMap (session.change? directory edit) := by
        apply List.filterMap_congr
        intro other hmem
        exact change?_congr (hresult other hmem)
      have hstatuses : (languages.map fun other =>
            (⟨other, statusOf skipReason (next.result directory edit other)⟩ : TargetOutcome)) =
          languages.map fun other =>
            ⟨other, statusOf skipReason (session.result directory edit other)⟩ := by
        apply List.map_congr_left
        intro other hmem
        rw [hresult other hmem]
      rw [hchanges, hstatuses, hold_hold] at hrest
      have hcons : (language :: languages).filterMap (session.change? directory edit) =
          (session.change? directory edit language).toList ++
            languages.filterMap (session.change? directory edit) := by
        rw [List.filterMap_cons]
        cases session.change? directory edit language <;> rfl
      simp only [applyToAll, happly, hrest, hcons, List.map_cons]

end Session
end AndroidStrings
