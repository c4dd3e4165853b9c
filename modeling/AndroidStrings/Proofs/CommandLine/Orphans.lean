import AndroidStrings.Proofs.CommandLine.Edit
import AndroidStrings.Proofs.Project.Completed

/-!
# Entries that the source file does not have

What a translation has, the source file has too.  Additions write the source file first, batches
of strings look their names up in it, and a removal goes to every file.  Plurals are set without a
look at the source file, so there the command line may leave an entry without a source.

## Main statements

- `sourced_perform_of_grows` : what edits that store something have to see to.
- `sourced_setPlurals_iff`, `sourced_sort_iff` : when plurals that are set and sorted files keep to
  the source.
- `run_sourced_iff` : when a run of the command line keeps to the source.
-/

namespace AndroidStrings

open Markup Document Session CommandLine

namespace ResourceDirectory

/-- The source file has an entry with a key. -/
def SourceHas (directory : ResourceDirectory) (tree : FileTree) (key : EntryKind.Key) : Prop :=
  exists source : Document,
    load tree directory Qualifier.sourceLanguage = .ok source ∧ key ∈ source.order

/-- What a translation has that can be read, the source file has too. -/
def Sourced (directory : ResourceDirectory) (tree : FileTree) : Prop :=
  forall (language : Text) (document : Document),
    language ∈ directory.everyLanguage tree -> load tree directory language = .ok document ->
      forall key, key ∈ document.order -> directory.SourceHas tree key

instance (directory : ResourceDirectory) (tree : FileTree) (key : EntryKind.Key) :
    Decidable (directory.SourceHas tree key) :=
  decidable_of_iff (exists source,
      source ∈ (load tree directory Qualifier.sourceLanguage).toOption.toList ∧
        key ∈ source.order) <| by
    simp only [Success.mem_toList_toOption]
    rfl

instance (directory : ResourceDirectory) (tree : FileTree) :
    Decidable (directory.Sourced tree) :=
  decidable_of_iff (forall language, language ∈ directory.everyLanguage tree ->
      forall document, document ∈ (load tree directory language).toOption.toList ->
        forall key, key ∈ document.order -> directory.SourceHas tree key) <| by
    simp only [Success.mem_toList_toOption]
    exact ⟨fun h language document hlanguage => h language hlanguage document,
      fun h language hlanguage document => h language document hlanguage⟩

variable {directory : ResourceDirectory} {tree left : FileTree} {command : ProjectCommand}

/-!
# Edits that store something
-/

section Grows

variable {created : List EntryKind.Key}
  (hplain : directory.PlainTargets tree)
  (hgrows : forall (target : Text) (document new : Document),
    target ∈ (ofTree tree).targets directory command ->
      load tree directory target = .ok document -> PlainStart document.text ->
        (ofTree tree).edit directory command document = .ok (some new) ->
          Grows created document new)

include hplain hgrows

/-- What a file has behind an edit that stores something. -/
theorem exists_load_perform_of_grows
    {language : Text} {document : Document}
    (hlanguage : language ∈ directory.everyLanguage tree)
    (hload : load tree directory language = .ok document) :
    exists new : Document,
      load (directory.perform tree command).2 directory language = .ok new ∧
        (forall key, key ∈ document.order -> key ∈ new.order) ∧
        forall key, key ∈ new.order -> key ∈ document.order ∨ key ∈ created ∧
          exists target : Text, target ∈ (ofTree tree).targets directory command ∧
            directory.place target = directory.place language := by
  have hstart := hplain language document hlanguage hload
  rcases exists_load_perform hload (fun target new htarget htargetLoad hedit =>
    (hgrows target document new htarget htargetLoad hstart hedit).plain) with
      ⟨new, hnew, rfl | ⟨target, htarget, hplace, htargetLoad, hedit⟩⟩
  · exact ⟨new, hnew, fun _ h => h, fun _ h => .inl h⟩
  · have hkeys := hgrows target document new htarget htargetLoad hstart hedit
    exact ⟨new, hnew, hkeys.kept, fun key hkey =>
      (hkeys.new key hkey).imp_right fun hcreated => ⟨hcreated, target, htarget, hplace⟩⟩

/-- The source file keeps what it has. -/
theorem sourceHas_perform
    {key : EntryKind.Key}
    (hsource : Qualifier.sourceLanguage ∈ directory.everyLanguage tree)
    (h : directory.SourceHas tree key) :
    directory.SourceHas (directory.perform tree command).2 key := by
  rcases h with ⟨source, hload, hkey⟩
  rcases exists_load_perform_of_grows hplain hgrows hsource hload with ⟨new, hnew, hkept, _⟩
  exact ⟨new, hnew, hkept key hkey⟩

/-- An edit that stores something keeps to the source if the source has what the edit creates in a
translation. -/
theorem sourced_perform_of_grows
    (hsourced : directory.Sourced tree)
    (hcreated : forall (language target : Text) (key : EntryKind.Key),
      language ∈ directory.everyLanguage tree -> language ≠ Qualifier.sourceLanguage ->
        target ∈ (ofTree tree).targets directory command ->
          directory.place target = directory.place language -> key ∈ created ->
            directory.SourceHas (directory.perform tree command).2 key) :
    directory.Sourced (directory.perform tree command).2 := by
  intro language new hlanguage hload key hkey
  rw [everyLanguage_perform] at hlanguage
  by_cases hsource : language = Qualifier.sourceLanguage
  · rw [hsource] at hload
    exact ⟨new, hload, hkey⟩
  · rcases exists_load_of_load_perform hload with ⟨document, hbefore⟩
    rcases exists_load_perform_of_grows hplain hgrows hlanguage hbefore with
      ⟨found, hfound, _, hnew⟩
    rw [hload, Except.ok.injEq] at hfound
    rcases hnew key (hfound ▸ hkey) with hold | ⟨hkeyCreated, target, htarget, hplace⟩
    · exact sourceHas_perform hplain hgrows (sourceLanguage_mem_everyLanguage hlanguage)
        (hsourced language document hlanguage hbefore key hold)
    · exact hcreated language target key hlanguage hsource htarget hplace hkeyCreated

end Grows

/-!
# Additions
-/

/-- An addition that reaches every file of its scope keeps to the source: the source file is always
one of them. -/
theorem sourced_of_addition
    {edit : DocumentEdit} {scope : Scope} {key : EntryKind.Key}
    (hedit : (ofTree tree).edit directory command = edit)
    (hplain : directory.PlainTargets tree)
    (hsourced : directory.Sourced tree)
    (hgrows : forall document new : Document,
      PlainStart document.text -> document.IsRead -> edit document = .ok (some new) ->
        Grows [key] document new)
    (hhas : Qualifier.sourceLanguage ∈ directory.everyLanguage tree ->
      directory.HasInScope (directory.perform tree command).2 scope key) :
    directory.Sourced (directory.perform tree command).2 := by
  apply sourced_perform_of_grows hplain ?_ hsourced
  · intro language _ _ hlanguage _ _ _ hkey
    rw [List.mem_singleton.mp hkey]
    rcases hhas (sourceLanguage_mem_everyLanguage hlanguage) with ⟨found, hfound, hloads⟩
    exact hloads _ (sourceLanguage_mem_of_targets hfound)
  · intro _ document new _ hload hstart hnew
    exact hgrows document new hstart (isRead_of_load hload) (hedit ▸ hnew)

theorem sourced_addString
    {id value : Text} {mode : EscapeMode} {scope : Scope} {report : BatchReport}
    (hplain : directory.PlainTargets tree)
    (hsourced : directory.Sourced tree)
    (hid : IsVerbatim id)
    (hstored : mode.StoresBalanced value)
    (hreport : (directory.perform tree (.addString id value mode scope)).1 = .ok report)
    (hfailed : report.failed = 0) :
    directory.Sourced (directory.perform tree (.addString id value mode scope)).2 := by
  apply sourced_of_addition rfl hplain hsourced
  · exact fun document new hstart hread hedit => grows_add? hstart hread hid hstored hedit
  · exact fun hsource => hasInScope_addString hid hplain hsource hreport hfailed

theorem sourced_addPlural
    {id : Text} {forms : List (Quantity × Text)} {mode : EscapeMode} {scope : Scope}
    {report : BatchReport}
    (hplain : directory.PlainTargets tree)
    (hsourced : directory.Sourced tree)
    (hid : IsVerbatim id)
    (hstored : forall form, form ∈ forms -> mode.StoresBalanced form.2)
    (hreport : (directory.perform tree (.addPlural id forms mode scope)).1 = .ok report)
    (hfailed : report.failed = 0) :
    directory.Sourced (directory.perform tree (.addPlural id forms mode scope)).2 := by
  apply sourced_of_addition rfl hplain hsourced
  · exact fun document new hstart hread hedit => grows_addPlural? hstart hread hid hstored hedit
  · exact fun hsource => hasInScope_addPlural hid hplain hsource hreport hfailed

/-!
# Strings
-/

theorem isSource_eq_false_of_place_eq
    {language other : Text}
    (hother : other ∈ directory.everyLanguage tree)
    (hne : other ≠ Qualifier.sourceLanguage)
    (hplace : directory.place language = directory.place other) :
    Qualifier.isSource language = false := by
  cases hsource : Qualifier.isSource language with
  | false => rfl
  | true =>
      have hsame : directory.place language = directory.place Qualifier.sourceLanguage := by
        rw [place, place, languagePath, if_pos hsource]
        rfl
      exact absurd (eq_of_place_eq hother (sourceLanguage_mem_everyLanguage hother)
        (hplace.symm.trans hsame)) hne

theorem mem_order_of_isKnown
    {document : Document} {language id : Text}
    (h : isKnown (some (document.resource language)) id = true) :
    (.string, id) ∈ document.order := by
  rcases List.find?_isSome.mp h with ⟨entry, hentry, hsame⟩
  rw [Bool.and_eq_true, beq_iff_eq, beq_iff_eq] at hsame
  exact List.mem_map.mpr ⟨entry, hentry, Prod.ext hsame.1 hsame.2⟩

/-- The names of a batch are looked up in the source file, so the batch keeps to the source whether
it fails or not. -/
theorem sourced_setBatch
    {language : Text} {pairs : List (Text × Text)} {mode : EscapeMode} {create : Bool}
    (hplain : directory.PlainTargets tree)
    (hsourced : directory.Sourced tree)
    (hpairs : forall pair, pair ∈ pairs -> IsVerbatim pair.1 ∧ mode.StoresBalanced pair.2) :
    directory.Sourced
      (directory.perform tree (.setBatch language pairs mode create)).2 := by
  cases hreference : reference tree directory language with
  | error fault =>
      have hsame : (directory.perform tree (.setBatch language pairs mode create)).2 = tree := by
        simp only [perform, setBatch, hreference]
        split <;> rfl
      rw [hsame]
      exact hsourced
  | ok source =>
      have hgrows : forall (target : Text) (document new : Document),
          target ∈ (ofTree tree).targets directory (.setBatch language pairs mode create) ->
            load tree directory target = .ok document -> PlainStart document.text ->
              (ofTree tree).edit directory (.setBatch language pairs mode create) document =
                .ok (some new) ->
                Grows (knownKeys source pairs) document new := by
        intro _ document new _ hload hstart hedit
        rcases grows_of_setBatch hstart (isRead_of_load hload) hpairs hedit with
          ⟨found, hfound, hkeys⟩
        rw [hreference, Except.ok.injEq] at hfound
        exact hfound ▸ hkeys
      apply sourced_perform_of_grows hplain hgrows hsourced
      intro other target key hother hne htarget hplace hkey
      rw [List.mem_singleton.mp htarget] at hplace
      apply sourceHas_perform hplain hgrows (sourceLanguage_mem_everyLanguage hother)
      rw [reference, isSource_eq_false_of_place_eq hother hne hplace, if_neg Bool.false_ne_true]
        at hreference
      rcases Success.map_eq_ok_iff.mp hreference with ⟨file, hfile, rfl⟩
      rcases Success.map_eq_ok_iff.mp hfile with ⟨document, hload, rfl⟩
      rcases List.mem_map.mp hkey with ⟨pair, hpair, rfl⟩
      exact ⟨document, hload, mem_order_of_isKnown (List.mem_filter.mp hpair).2⟩

/-!
# Plurals
-/

/-- Names without slashes that stand for translations are names of different files. -/
theorem eq_of_place_eq_of_notMem
    {language other : Text}
    (hlanguage : '/' ∉ language)
    (hother : '/' ∉ other)
    (hsource : Qualifier.isSource language = false)
    (hsourceOther : Qualifier.isSource other = false)
    (h : directory.place language = directory.place other) :
    language = other := by
  unfold place at h
  rw [directory.placeOf_languagePath hlanguage, directory.placeOf_languagePath hother] at h
  simpa [folderOf, hsource, hsourceOther] using h

theorem notMem_slash_of_mem_everyLanguage
    {language : Text}
    (h : language ∈ directory.everyLanguage tree) :
    '/' ∉ language := by
  unfold everyLanguage targets at h
  cases hfound : languages tree directory with
  | error fault =>
      rw [hfound] at h
      exact absurd h List.not_mem_nil
  | ok found =>
      rw [hfound] at h
      rcases List.mem_cons.mp h with rfl | hmem
      · decide
      · exact Qualifier.notMem_slash_of_isLanguage ((languages_spec hfound).2 language hmem)

/-- A command that goes to one translation leaves the source file as it was. -/
theorem load_source_perform
    {language : Text}
    (hlanguage : language ∈ directory.everyLanguage tree)
    (hother : Qualifier.isSource language = false)
    (htargets : (ofTree tree).targets directory command = [language]) :
    load (directory.perform tree command).2 directory Qualifier.sourceLanguage =
      load tree directory Qualifier.sourceLanguage := by
  apply load_eq_of_read? (directory.sameNames_perform tree command)
  apply read?_perform_of_ne
  intro target htarget hplace
  rw [htargets, List.mem_singleton] at htarget
  rw [htarget] at hplace
  rw [eq_of_place_eq hlanguage (sourceLanguage_mem_everyLanguage hlanguage) hplace] at hother
  cases hother

/-- Plurals that are set in a translation keep to the source exactly if the source has plurals of
this name. -/
theorem sourced_setPlurals_iff
    {language id : Text} {forms : List (Quantity × Text)} {mode : EscapeMode}
    {document : Document} {outcome : EditOutcome}
    (hplain : directory.PlainTargets tree)
    (hsourced : directory.Sourced tree)
    (horderly : (ProjectCommand.setPlurals language id forms mode).Orderly directory tree)
    (hslash : '/' ∉ language)
    (hload : load tree directory language = .ok document)
    (hresult : (document.setPlurals id forms mode).result = .ok outcome) :
    directory.Sourced (directory.perform tree (.setPlurals language id forms mode)).2 ↔
      (language ∈ directory.everyLanguage tree -> Qualifier.isSource language = false ->
        directory.SourceHas tree (.plurals, id)) := by
  let command : ProjectCommand := .setPlurals language id forms mode
  have hid : IsVerbatim id := horderly.verbatim language id forms mode rfl
  have hgrows : forall (target : Text) (found new : Document),
      target ∈ (ofTree tree).targets directory command ->
        load tree directory target = .ok found -> PlainStart found.text ->
          (ofTree tree).edit directory command found = .ok (some new) ->
            Grows [(.plurals, id)] found new :=
    fun target found new htarget hfound hstart hedit =>
      (rekeys_of_edit horderly (List.forall_mem_singleton.mpr hid) htarget hfound hstart hedit).2
  have hedit : (ofTree tree).edit directory command document =
      .ok (some (document.setPlurals id forms mode).document) := by
    simp only [command, Session.edit, hresult, Except.map]
  constructor
  · intro h hlanguage hother
    have hstored := grows_setPlurals (hplain language document hlanguage hload)
      (isRead_of_load hload) hid horderly.balanced hresult
    have hnew := load_perform_of_edit (List.mem_singleton_self language) hload hedit
      hstored.1.plain
    rcases h language _ ((directory.everyLanguage_perform tree command).symm ▸ hlanguage) hnew _
      hstored.2 with ⟨source, hsource, hkey⟩
    -- The source file has the name behind the edit of another file, so it has it already.
    rw [load_source_perform hlanguage hother rfl] at hsource
    exact ⟨source, hsource, hkey⟩
  · intro h
    apply sourced_perform_of_grows hplain hgrows hsourced
    intro other target key hother hne htarget hplace hkey
    rw [List.mem_singleton.mp htarget] at hplace
    rw [List.mem_singleton.mp hkey]
    have htranslation := isSource_eq_false_of_place_eq hother hne hplace
    have hsame : language = other :=
      eq_of_place_eq_of_notMem hslash (notMem_slash_of_mem_everyLanguage hother) htranslation
        (isSource_eq_false_of_place_eq hother hne rfl) hplace
    exact sourceHas_perform hplain hgrows (sourceLanguage_mem_everyLanguage hother)
      (h (hsame ▸ hother) htranslation)

/-!
# Removals
-/

/-- A removal goes to the source file and to every translation. -/
theorem RemovesNames.sourced
    {ids : List Text}
    (h : directory.RemovesNames ids tree left)
    (hplain : directory.PlainTargets tree)
    (hsourced : directory.Sourced tree) :
    directory.Sourced left := by
  have hleft : forall (language : Text) (document : Document),
      language ∈ directory.everyLanguage tree -> load tree directory language = .ok document ->
        exists new : Document, load left directory language = .ok new ∧
          forall key, key ∈ new.order ↔ key ∈ document.order ∧ key.2 ∉ ids := by
    intro language document hlanguage hload
    rcases h.removed language document hlanguage hload (hplain language document hlanguage hload)
      with ⟨new, hnew, _, hwithout⟩
    exact ⟨new, hnew, fun _ => hwithout.mem_order_iff⟩
  intro language new hlanguage hload key hkey
  rw [h.everyLanguage] at hlanguage
  cases hbefore : load tree directory language with
  | error fault =>
      have hread := h.unreadable language fault hlanguage hbefore
      rw [load_eq_of_read? h.names hread, hbefore] at hload
      cases hload
  | ok document =>
      rcases hleft language document hlanguage hbefore with ⟨found, hfound, hkeys⟩
      rw [hload, Except.ok.injEq] at hfound
      rw [hfound, hkeys key] at hkey
      rcases hsourced language document hlanguage hbefore key hkey.1 with
        ⟨source, hsource, hsourceKey⟩
      rcases hleft _ source (sourceLanguage_mem_everyLanguage hlanguage) hsource with
        ⟨newSource, hnewSource, hsourceKeys⟩
      exact ⟨newSource, hnewSource, (hsourceKeys key).mpr ⟨hsourceKey, hkey.2⟩⟩

/-!
# Sorting
-/

/-- The keys that the file of a language has behind a sort. -/
def sortedKeys (directory : ResourceDirectory) (tree : FileTree) (sorted : Option Text)
    (language : Text) (document : Document) : List EntryKind.Key :=
  if directory.place language ∈
      ((ofTree tree).targets directory (.sort sorted)).map directory.place then
    document.writtenKeys
  else document.order

section Sorting

variable {sorted : Option Text}
  (hplain : directory.PlainTargets tree)
  (horderly : (ProjectCommand.sort sorted).Orderly directory tree)
  (hsorts : forall target, target ∈ (ofTree tree).targets directory (.sort sorted) ->
    exists document new : Document, load tree directory target = .ok document ∧
      (ofTree tree).edit directory (.sort sorted) document = .ok (some new))

/-- A sort that fails nowhere has sorted every target. -/
theorem exists_edit_of_sort
    {report : BatchReport}
    (hreport : (directory.perform tree (.sort sorted)).1 = .ok report)
    (hfailed : report.failed = 0) :
    forall target, target ∈ (ofTree tree).targets directory (.sort sorted) ->
      exists document new : Document, load tree directory target = .ok document ∧
        (ofTree tree).edit directory (.sort sorted) document = .ok (some new) := by
  rw [perform, ResourceDirectory.sort] at hreport
  cases horder : sourceOrder tree directory with
  | error fault =>
      rw [horder] at hreport
      cases hreport
  | ok order =>
      rw [horder] at hreport
      rcases Success.map_eq_ok_iff.mp horder with ⟨source, hsource, rfl⟩
      rcases exists_answer_of_batch (fun _ => nodup_places_of_sortTargets) hreport hfailed with
        ⟨languages, hlanguages, hanswers⟩
      intro target htarget
      have hmem : target ∈ (sortTargets tree directory sorted).toOption.getD [] := htarget
      rw [hlanguages] at hmem
      rcases hanswers target hmem with ⟨answer, hanswer⟩
      rcases Success.bind_eq_ok_iff.mp hanswer with ⟨document, hload, hsort⟩
      rcases Success.map_eq_ok_iff.mp hsort with ⟨new, hnew, _⟩
      refine ⟨document, new, hload, ?_⟩
      have hsourceLoad : load tree directory Qualifier.sourceLanguage = .ok source := hsource
      simp only [Session.edit, load_ofTree, hsourceLoad, Except.bind, hnew, Except.map]

include hplain horderly hsorts

theorem exists_load_sort
    {language : Text} {document : Document}
    (hlanguage : language ∈ directory.everyLanguage tree)
    (hload : load tree directory language = .ok document) :
    exists new : Document,
      load (directory.perform tree (.sort sorted)).2 directory language = .ok new ∧
        forall key, key ∈ new.order ↔
          key ∈ directory.sortedKeys tree sorted language document := by
  have hnames := directory.sameNames_perform tree (.sort sorted)
  unfold sortedKeys
  by_cases hplace : directory.place language ∈
      ((ofTree tree).targets directory (.sort sorted)).map directory.place
  · rw [if_pos hplace]
    rcases List.mem_map.mp hplace with ⟨target, htarget, heq⟩
    rcases hsorts target htarget with ⟨found, new, hfound, hedit⟩
    have hsame : found = document := eq_of_load_of_place_eq heq hload hfound
    rw [hsame] at hfound hedit
    rcases rekeys_of_edit horderly (fun _ hkey => absurd hkey List.not_mem_nil) htarget hfound
      (hplain language document hlanguage hload) hedit with ⟨hstart, hkeys⟩
    have hnew := load_perform_of_edit htarget hfound hedit hstart
    exact ⟨new, load_of_document? hnames hload (heq ▸ (load_eq_ok_iff.mp hnew).2), hkeys⟩
  · rw [if_neg hplace]
    have hread : (directory.perform tree (.sort sorted)).2.read? (directory.place language) =
        tree.read? (directory.place language) :=
      read?_perform_of_ne fun target htarget heq => hplace (List.mem_map.mpr ⟨target, htarget, heq⟩)
    exact ⟨document, (load_eq_of_read? hnames hread).trans hload, fun _ => Iff.rfl⟩

/-- Sorted files keep to the source exactly if the keys of their blocks do, as they are written. -/
theorem sourced_sort_iff :
    directory.Sourced (directory.perform tree (.sort sorted)).2 ↔
      forall (language : Text) (document : Document),
        language ∈ directory.everyLanguage tree -> load tree directory language = .ok document ->
          forall key, key ∈ directory.sortedKeys tree sorted language document ->
            exists source : Document,
              load tree directory Qualifier.sourceLanguage = .ok source ∧
                key ∈ directory.sortedKeys tree sorted Qualifier.sourceLanguage source := by
  constructor
  · intro h language document hlanguage hload key hkey
    rcases exists_load_sort hplain horderly hsorts hlanguage hload with ⟨new, hnew, hkeys⟩
    rcases h language new ((directory.everyLanguage_perform tree _).symm ▸ hlanguage) hnew key
      ((hkeys key).mpr hkey) with ⟨left, hleft, hleftKey⟩
    rcases exists_load_of_load_perform hleft with ⟨source, hsource⟩
    rcases exists_load_sort hplain horderly hsorts (sourceLanguage_mem_everyLanguage hlanguage)
      hsource with ⟨found, hfound, hsourceKeys⟩
    rw [hleft, Except.ok.injEq] at hfound
    exact ⟨source, hsource, (hsourceKeys key).mp (hfound ▸ hleftKey)⟩
  · intro h language new hlanguage hload key hkey
    rw [everyLanguage_perform] at hlanguage
    rcases exists_load_of_load_perform hload with ⟨document, hbefore⟩
    rcases exists_load_sort hplain horderly hsorts hlanguage hbefore with ⟨found, hfound, hkeys⟩
    rw [hload, Except.ok.injEq] at hfound
    rcases h language document hlanguage hbefore key ((hkeys key).mp (hfound ▸ hkey)) with
      ⟨source, hsource, hsourceKey⟩
    rcases exists_load_sort hplain horderly hsorts (sourceLanguage_mem_everyLanguage hlanguage)
      hsource with ⟨left, hleft, hsourceKeys⟩
    exact ⟨left, hleft, (hsourceKeys key).mpr hsourceKey⟩

end Sorting

end ResourceDirectory

/-!
# Main statement
-/

namespace CommandLine

open ResourceDirectory

/-- When an edit that a command asks for, and that fails nowhere, keeps to the source. -/
theorem Command.Asks.sourced_iff
    {directory : ResourceDirectory} {tree : FileTree} {command : Command}
    {edit : ProjectCommand} {config : Config}
    (h : command.Asks edit)
    (hsourced : directory.Sourced tree)
    (hplain : directory.PlainTargets tree)
    (horderly : edit.Orderly directory tree)
    (hsuccess : (Run.command config tree directory command).succeeded = true) :
    directory.Sourced (Run.command config tree directory command).tree ↔
      (forall (language id : Text) (forms : List (Quantity × Text)) (mode : EscapeMode),
        command.Asks (.setPlurals language id forms mode) ->
          language ∈ directory.everyLanguage tree -> Qualifier.isSource language = false ->
            directory.SourceHas tree (.plurals, id)) ∧
      forall sorted : Option Text, command.Asks (.sort sorted) ->
        forall (language : Text) (document : Document),
          language ∈ directory.everyLanguage tree ->
            load tree directory language = .ok document ->
              forall key, key ∈ directory.sortedKeys tree sorted language document ->
                exists source : Document,
                  load tree directory Qualifier.sourceLanguage = .ok source ∧
                    key ∈ directory.sortedKeys tree sorted Qualifier.sourceLanguage source := by
  rcases h.exists_report hsuccess with ⟨report, hreport, hfailed⟩
  rw [h.tree_command]
  apply h.iff_of_kinds
  · rintro language id forms mode rfl
    rcases h.succeeded_iff.mp hsuccess with ⟨document, outcome, hload, hresult⟩
    exact sourced_setPlurals_iff hplain hsourced horderly h.notMem_slash hload hresult
  · rintro sorted rfl
    exact sourced_sort_iff hplain horderly (exists_edit_of_sort hreport hfailed)
  · intro hplurals hsorts
    have hnames : forall key, key ∈ edit.created -> IsVerbatim key.2 :=
      fun key hkey => isVerbatim_of_isValidId (h.isValidId_of_created hplurals key hkey)
    cases edit with
    | setBatch language pairs mode create =>
        exact sourced_setBatch hplain hsourced fun pair hpair =>
          ⟨hnames _ (List.mem_map_of_mem hpair), horderly.balanced pair hpair⟩
    | addString id value mode scope =>
        exact sourced_addString hplain hsourced (hnames _ (List.mem_singleton_self _))
          horderly.balanced hreport hfailed
    | addPlural id forms mode scope =>
        exact sourced_addPlural hplain hsourced (hnames _ (List.mem_singleton_self _))
          horderly.balanced hreport hfailed
    | setPlurals language id forms mode => exact absurd rfl (hplurals _ _ _ _)
    | sort language => exact absurd rfl (hsorts _)
    | remove id => cases h

/-- A run of the command line that succeeds leaves no translation with an entry that the source
file does not have, exactly if plurals that are set in a translation are in the source file, and
the blocks of sorted files have the keys for it as they are written. -/
theorem run_sourced_iff
    {tree : FileTree} {invocation : Invocation} {directory : ResourceDirectory}
    {command : Command}
    (hproject : invocation.project? tree = some (directory, command))
    (hsourced : directory.Sourced tree)
    (hplain : directory.PlainTargets tree)
    (horderly : forall edit : ProjectCommand, command.Asks edit -> edit.Orderly directory tree)
    (hsuccess : (invocation.run tree).succeeded = true) :
    directory.Sourced (invocation.run tree).tree ↔
      (forall (language id : Text) (forms : List (Quantity × Text)) (mode : EscapeMode),
        command.Asks (.setPlurals language id forms mode) ->
          language ∈ directory.everyLanguage tree -> Qualifier.isSource language = false ->
            directory.SourceHas tree (.plurals, id)) ∧
      forall sorted : Option Text, command.Asks (.sort sorted) ->
        forall (language : Text) (document : Document),
          language ∈ directory.everyLanguage tree ->
            load tree directory language = .ok document ->
              forall key, key ∈ directory.sortedKeys tree sorted language document ->
                exists source : Document,
                  load tree directory Qualifier.sourceLanguage = .ok source ∧
                    key ∈ directory.sortedKeys tree sorted Qualifier.sourceLanguage source := by
  rcases Invocation.exists_run hproject with ⟨config, hrun⟩
  rw [hrun] at hsuccess ⊢
  by_cases hasks : exists edit : ProjectCommand, command.Asks edit
  · rcases hasks with ⟨edit, hedit⟩
    exact hedit.sourced_iff hsourced hplain (horderly edit hedit) hsuccess
  · have hleft : directory.Sourced (Run.command config tree directory command).tree := by
      rcases command.cases_command config tree directory with hedit | ⟨ids, rfl⟩ | hsame
      · exact absurd hedit hasks
      · exact (directory.removesNames_removeAll 0 tree ids).sourced hplain hsourced
      · rw [hsame]
        exact hsourced
    constructor
    · intro _
      constructor
      · exact fun _ _ _ _ hother => absurd ⟨_, hother⟩ hasks
      · exact fun _ hother => absurd ⟨_, hother⟩ hasks
    · exact fun _ => hleft

/-- A project with one plurals element in the source file and an empty translation. -/
def pluralsInSource : FileTree :=
  ⟨[(["app".toList, "src".toList, "main".toList, "res".toList, "values".toList, fileName],
      Encoding.encode "<resources><plurals name=\"items\"/></resources>".toList),
    (["app".toList, "src".toList, "main".toList, "res".toList, "values-fr".toList, fileName],
      Encoding.encode "<resources></resources>".toList)],
    []⟩

/-- Sets plurals of the translation. -/
def setInFrench (id : Text) : Invocation :=
  .request ⟨none, none, .setOther "fr".toList id⟩

theorem run_sourced_iff_items :
    let directory : ResourceDirectory := ⟨"app/src/main/res".toList⟩
    directory.Sourced pluralsInSource ∧
      ((setInFrench "items".toList).run pluralsInSource).succeeded = true ∧
      ((setInFrench "items".toList).run pluralsInSource).tree ≠ pluralsInSource ∧
      directory.Sourced ((setInFrench "items".toList).run pluralsInSource).tree := by
  intro directory
  have hproject : (setInFrench "items".toList).project? pluralsInSource =
      some (directory, .setOther "fr".toList "items".toList) := by
    decide +kernel
  have hsourced : directory.Sourced pluralsInSource := by
    decide +kernel
  have hplain : directory.PlainTargets pluralsInSource := by
    decide +kernel
  have hsuccess : ((setInFrench "items".toList).run pluralsInSource).succeeded = true := by
    decide +kernel
  have hchanged : ((setInFrench "items".toList).run pluralsInSource).tree ≠ pluralsInSource := by
    decide +kernel
  have hhas : directory.SourceHas pluralsInSource (.plurals, "items".toList) := by
    decide +kernel
  have honly : forall edit : ProjectCommand,
      (Command.setOther "fr".toList "items".toList).Asks edit ->
        edit = .setPlurals "fr".toList "items".toList [(.other, "x".toList)] .escaped :=
    fun edit hasks => (Command.asks_setOther (by decide +kernel) _).unique hasks
  have horderly : forall edit : ProjectCommand,
      (Command.setOther "fr".toList "items".toList).Asks edit ->
        edit.Orderly directory pluralsInSource := by
    intro edit hasks
    rw [honly edit hasks]
    exact orderly_setOther ⟨by decide, by decide⟩ directory pluralsInSource _
  refine ⟨hsourced, hsuccess, hchanged,
    (run_sourced_iff hproject hsourced hplain horderly hsuccess).mpr ⟨?_, ?_⟩⟩
  · intro language id forms mode hasks _ _
    have heq := honly _ hasks
    rw [ProjectCommand.setPlurals.injEq] at heq
    rw [heq.2.1]
    exact hhas
  · intro sorted hasks
    cases honly _ hasks

/-- Plurals are set in a translation without a look at the source file. -/
theorem run_setPlurals_orphan :
    let directory : ResourceDirectory := ⟨"app/src/main/res".toList⟩
    read? ["set-plurals".toList, "fr".toList, "days".toList, "other".toList, "x".toList] =
        some (setInFrench "days".toList) ∧
      directory.Sourced pluralsInSource ∧
      ((setInFrench "days".toList).run pluralsInSource).succeeded = true ∧
      ¬ directory.Sourced ((setInFrench "days".toList).run pluralsInSource).tree := by
  decide +kernel

end CommandLine
end AndroidStrings
