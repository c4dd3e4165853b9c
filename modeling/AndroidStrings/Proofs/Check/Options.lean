import Mathlib.Data.List.Basic
import Mathlib.Data.List.Flatten
import AndroidStrings.Check.Report

/-!
# Options of a check

What the full mode looks for besides gaps and wrong placeholders stands beside them in a report and
never in their place.  Exemptions and the threshold are asked for gaps and for copies only, so no
options silence a wrong placeholder, and more lenient ones take issues out of a report and put none
into it.

## Main statements

- `filter_isCritical_languageIssues` : the critical issues are the wrong placeholders.
- `checkLanguage_incremental` : the incremental mode as a part of the full mode.
- `sublist_languageIssues` : what lenient options leave of a report.
- `checkLanguage_options` : what options can do to a report.
-/

namespace AndroidStrings

/-!
# Sorts of issues
-/

namespace Issue

/-- What the incremental mode looks for: gaps and wrong placeholders. -/
def isEssential : Issue -> Bool
  | missing _ _ | missingPlural _ | placeholderMismatch _ _ _
  | pluralPlaceholderMismatch _ _ _ _ => true
  | _ => false

theorem isEssential_of_isCritical
    {issue : Issue}
    (h : issue.isCritical = true) :
    issue.isEssential = true := by
  cases issue with
  | placeholderMismatch => rfl
  | pluralPlaceholderMismatch => rfl
  | _ => cases h

theorem filter_isEssential_of_isCritical
    {issues : List Issue}
    (h : issues.filter isCritical = issues) :
    issues.filter isEssential = issues := by
  rw [List.filter_eq_self] at h ⊢
  exact fun issue hissue => isEssential_of_isCritical (h issue hissue)

theorem filter_isCritical_of_isEssential
    {issues : List Issue}
    (h : issues.filter isEssential = []) :
    issues.filter isCritical = [] := by
  rw [List.filter_eq_nil_iff] at h ⊢
  exact fun issue hissue hcritical => h issue hissue (isEssential_of_isCritical hcritical)

end Issue

namespace Check

/-- The copies that the full mode finds in a string. -/
def stringCopies (options : CheckOptions) (english : Bool) (id source translation : Text) :
    List Issue :=
  if options.isFull then copyIssues options english id source translation else []

/-- The copies that the full mode finds in a form. -/
def formCopies (options : CheckOptions) (english : Bool) (id : Text) (source : Plural)
    (quantity : Quantity) (translation : Text) : List Issue :=
  match source.get? quantity with
  | some form =>
      if options.isFull then formCopyIssues english id quantity form translation else []
  | none => []

/-- The wrong placeholders of a form. -/
def formMismatches (id : Text) (source : Plural) (quantity : Quantity) (translation : Text) :
    List Issue :=
  match (source.get? quantity).or (source.get? .other) with
  | some form => formPlaceholderIssues id quantity form translation
  | none => []

section Sorts

variable (options : CheckOptions) (english : Bool) (id source translation : Text)
  (plural : Plural) (quantity : Quantity)

theorem stringIssues_some :
    stringIssues options english id source (some translation) =
      stringCopies options english id source translation ++
        placeholderIssues id source translation :=
  rfl

theorem formIssues_eq :
    formIssues options english id plural quantity translation =
      formCopies options english id plural quantity translation ++
        formMismatches id plural quantity translation :=
  rfl

theorem filter_isEssential_missing (passed : Bool) (kind : EntryKind) :
    (if passed then [] else [Issue.missing id kind]).filter Issue.isEssential =
      if passed then [] else [Issue.missing id kind] := by
  cases passed <;> rfl

theorem filter_isCritical_missing (passed : Bool) (kind : EntryKind) :
    (if passed then [] else [Issue.missing id kind]).filter Issue.isCritical = [] := by
  cases passed <;> rfl

theorem filter_isEssential_stringCopies :
    (stringCopies options english id source translation).filter Issue.isEssential = [] := by
  simp only [stringCopies, copyIssues]
  repeat' split
  all_goals rfl

theorem filter_isEssential_formCopies :
    (formCopies options english id plural quantity translation).filter Issue.isEssential = [] := by
  unfold formCopies formCopyIssues
  repeat' split
  all_goals rfl

theorem filter_isCritical_placeholderIssues :
    (placeholderIssues id source translation).filter Issue.isCritical =
      placeholderIssues id source translation := by
  unfold placeholderIssues
  split <;> rfl

theorem filter_isCritical_formMismatches :
    (formMismatches id plural quantity translation).filter Issue.isCritical =
      formMismatches id plural quantity translation := by
  unfold formMismatches formPlaceholderIssues
  repeat' split
  all_goals rfl

theorem filter_isEssential_obsoleteIssues (source translation : ResourceFile) :
    (obsoleteIssues source translation).filter Issue.isEssential = [] := by
  rw [List.filter_eq_nil_iff]
  intro issue hissue
  rcases List.mem_map.mp hissue with ⟨entry, _, rfl⟩
  exact Bool.false_ne_true

end Sorts

/-!
# Modes

The incremental mode finds the gaps and the wrong placeholders that the full mode finds.  Whether a
translation is English matters to the full mode only.
-/

/-- Options with the incremental mode in place of their own. -/
def incremental (options : CheckOptions) : CheckOptions :=
  { options with mode := .incremental }

section Modes

variable (options : CheckOptions) (english english' : Bool)

theorem filter_isEssential_stringIssues (id source : Text) (translation : Option Text) :
    (stringIssues options english id source translation).filter Issue.isEssential =
      stringIssues (incremental options) english' id source translation := by
  cases translation with
  | none => exact filter_isEssential_missing _ _ _
  | some value =>
      rw [stringIssues_some, stringIssues_some, List.filter_append, filter_isEssential_stringCopies]
      exact Issue.filter_isEssential_of_isCritical (filter_isCritical_placeholderIssues _ _ _)

theorem filter_isEssential_formIssues (id : Text) (source : Plural) (quantity : Quantity)
    (translation : Text) :
    (formIssues options english id source quantity translation).filter Issue.isEssential =
      formIssues (incremental options) english' id source quantity translation := by
  have hcopies : formCopies (incremental options) english' id source quantity translation =
      [] := by
    unfold formCopies
    split <;> rfl
  rw [formIssues_eq, formIssues_eq, hcopies, List.filter_append, filter_isEssential_formCopies]
  exact Issue.filter_isEssential_of_isCritical (filter_isCritical_formMismatches _ _ _ _)

theorem filter_isEssential_entryIssues (translation : ResourceFile) (entry : Entry) :
    (entryIssues options english translation entry).filter Issue.isEssential =
      entryIssues (incremental options) english' translation entry := by
  unfold entryIssues
  cases entry.value with
  | singular source => exact filter_isEssential_stringIssues _ _ _ _ _ _
  | plural source =>
      cases translation.plural? entry.id with
      | none => rfl
      | some plural =>
          simp only [pluralIssues, List.filter_flatMap]
          exact List.flatMap_congr fun form _ => filter_isEssential_formIssues _ _ _ _ _ _ _
  | array items => exact filter_isEssential_missing _ _ _

end Modes

theorem filter_isEssential_languageIssues (options : CheckOptions)
    (source translation : ResourceFile) :
    (languageIssues options source translation).filter Issue.isEssential =
      languageIssues (incremental options) source translation := by
  let english := Qualifier.isEnglish translation.language
  have hentries : ((source.entries.filter Entry.translatable).flatMap
      (entryIssues options english translation)).filter Issue.isEssential =
        (source.entries.filter Entry.translatable).flatMap
          (entryIssues (incremental options) english translation) := by
    rw [List.filter_flatMap]
    exact List.flatMap_congr fun entry _ => filter_isEssential_entryIssues _ _ _ _ _
  unfold languageIssues
  cases options.isFull with
  | true =>
      rw [if_pos rfl, List.filter_append, hentries, filter_isEssential_obsoleteIssues,
        List.append_nil]
      rfl
  | false => exact hentries

/-- The incremental mode reports what the full mode reports, without copies, differences and
entries that are left over. -/
theorem checkLanguage_incremental (options : CheckOptions) (source translation : ResourceFile) :
    (checkLanguage { options with mode := .incremental } source translation).issues =
      (checkLanguage { options with mode := .full } source translation).issues.filter
        Issue.isEssential :=
  (filter_isEssential_languageIssues { options with mode := .full } source translation).symm

/-!
# Critical issues
-/

/-- The wrong placeholders of an entry. -/
def mismatches (translation : ResourceFile) (entry : Entry) : List Issue :=
  match entry.value with
  | .singular source =>
      (translation.string? entry.id).toList.flatMap (placeholderIssues entry.id source)
  | .plural source =>
      (translation.plural? entry.id).toList.flatMap fun plural =>
        plural.forms.flatMap fun form => formMismatches entry.id source form.1 form.2
  | .array _ => []

section Critical

variable (options : CheckOptions) (english : Bool)

theorem filter_isCritical_formIssues (id : Text) (source : Plural) (quantity : Quantity)
    (translation : Text) :
    (formIssues options english id source quantity translation).filter Issue.isCritical =
      formMismatches id source quantity translation := by
  rw [formIssues_eq, List.filter_append,
    Issue.filter_isCritical_of_isEssential (filter_isEssential_formCopies _ _ _ _ _ _),
    filter_isCritical_formMismatches, List.nil_append]

/-- The critical issues of an entry are its wrong placeholders. -/
theorem filter_isCritical_entryIssues (translation : ResourceFile) (entry : Entry) :
    (entryIssues options english translation entry).filter Issue.isCritical =
      mismatches translation entry := by
  unfold entryIssues mismatches
  cases entry.value with
  | singular source =>
      cases translation.string? entry.id with
      | none => exact filter_isCritical_missing _ _ _
      | some value =>
          simp only [stringIssues_some, List.filter_append,
            Issue.filter_isCritical_of_isEssential (filter_isEssential_stringCopies _ _ _ _ _),
            filter_isCritical_placeholderIssues, Option.toList_some, List.flatMap_singleton,
            List.nil_append]
  | plural source =>
      cases translation.plural? entry.id with
      | none => rfl
      | some plural =>
          simp only [pluralIssues, List.filter_flatMap, filter_isCritical_formIssues,
            Option.toList_some, List.flatMap_singleton]
  | array items => exact filter_isCritical_missing _ _ _

/-- The critical issues of a translation are the wrong placeholders of its entries, whatever the
options are. -/
theorem filter_isCritical_languageIssues (source translation : ResourceFile) :
    (languageIssues options source translation).filter Issue.isCritical =
      (source.entries.filter Entry.translatable).flatMap (mismatches translation) := by
  have hentries : ((source.entries.filter Entry.translatable).flatMap (entryIssues options
      (Qualifier.isEnglish translation.language) translation)).filter Issue.isCritical =
        (source.entries.filter Entry.translatable).flatMap (mismatches translation) := by
    rw [List.filter_flatMap]
    exact List.flatMap_congr fun entry _ => filter_isCritical_entryIssues _ _ _ _
  unfold languageIssues
  cases options.isFull with
  | true =>
      rw [if_pos rfl, List.filter_append, hentries, Issue.filter_isCritical_of_isEssential
        (filter_isEssential_obsoleteIssues source translation), List.append_nil]
  | false => exact hentries

end Critical

end Check

/-!
# Lenient options
-/

/-- Whatever a list of exemptions names, another names too. -/
structure Exemptions.Within (few many : Exemptions) : Prop where
  terms : forall term, term ∈ few.terms -> term ∈ many.terms
  idPrefixes : forall front, front ∈ few.idPrefixes -> front ∈ many.idPrefixes
  ids : forall id, id ∈ few.ids -> id ∈ many.ids
  maxExemptLength : few.maxExemptLength ≤ many.maxExemptLength

namespace Exemptions.Within

variable {few many : Exemptions} {id source translation : Text}

theorem coversId
    (h : few.Within many)
    (hcovered : few.coversId id = true) :
    many.coversId id = true := by
  unfold Exemptions.coversId at hcovered ⊢
  rw [Bool.or_eq_true, List.contains_iff_mem, List.any_eq_true] at hcovered ⊢
  rcases hcovered with hid | ⟨front, hfront, hbegins⟩
  · exact .inl (h.ids id hid)
  · exact .inr ⟨front, h.idPrefixes front hfront, hbegins⟩

theorem coversEntry
    (h : few.Within many)
    (hcovered : few.coversEntry id source = true) :
    many.coversEntry id source = true := by
  unfold Exemptions.coversEntry at hcovered ⊢
  simp only [Bool.or_eq_true, decide_eq_true_eq, List.contains_iff_mem] at hcovered ⊢
  rcases hcovered with ((hid | hshort) | hterm) | halias
  · exact .inl (.inl (.inl (h.coversId hid)))
  · exact .inl (.inl (.inr (Nat.le_trans hshort h.maxExemptLength)))
  · exact .inl (.inr (h.terms source hterm))
  · exact .inr halias

theorem allowsCopy
    (h : few.Within many)
    (hallowed : few.allowsCopy id source translation = true) :
    many.allowsCopy id source translation = true := by
  unfold Exemptions.allowsCopy at hallowed ⊢
  rw [Bool.or_eq_true] at hallowed ⊢
  exact hallowed.imp_left h.coversEntry

end Exemptions.Within

/-- Options of one mode, of which the first exempt more and call less nearly copied. -/
structure CheckOptions.Spares (lenient strict : CheckOptions) : Prop where
  mode : lenient.mode = strict.mode
  exemptions : strict.exemptions.Within lenient.exemptions
  nearThreshold : lenient.nearThreshold ≤ strict.nearThreshold

namespace Check

theorem sublist_unless
    {fewer more : Bool}
    (h : fewer = true -> more = true)
    (issues : List Issue) :
    List.Sublist (if more then [] else issues) (if fewer then [] else issues) := by
  cases more with
  | true => exact List.nil_sublist _
  | false =>
      cases fewer with
      | true => cases h rfl
      | false => exact List.Sublist.refl issues

section Lenient

variable {lenient strict : CheckOptions} (h : lenient.Spares strict) (english : Bool)

include h

theorem isFull_eq_of_spares : lenient.isFull = strict.isFull := by
  rw [CheckOptions.isFull, CheckOptions.isFull, h.mode]

theorem sublist_copyIssues (id source translation : Text) :
    List.Sublist (copyIssues lenient english id source translation)
      (copyIssues strict english id source translation) := by
  by_cases hspared : lenient.exemptions.allowsCopy id source translation = true
  · rw [copyIssues, if_pos hspared]
    exact List.nil_sublist _
  · have hstrict : ¬ strict.exemptions.allowsCopy id source translation = true :=
      fun hallowed => hspared (h.exemptions.allowsCopy hallowed)
    have hnear := h.nearThreshold
    simp only [copyIssues, if_neg hspared, if_neg hstrict]
    split
    · exact List.Sublist.refl _
    · split
      · exact List.Sublist.refl _
      · split
        · rw [if_pos (by omega)]
        · exact List.nil_sublist _

theorem sublist_stringIssues (id source : Text) (translation : Option Text) :
    List.Sublist (stringIssues lenient english id source translation)
      (stringIssues strict english id source translation) := by
  cases translation with
  | none => exact sublist_unless h.exemptions.coversEntry _
  | some value =>
      rw [stringIssues_some, stringIssues_some, stringCopies, stringCopies,
        isFull_eq_of_spares h]
      apply List.Sublist.append_right
      split
      · exact sublist_copyIssues h english id source value
      · exact List.Sublist.refl _

/-- Plurals are asked for no exemption, and not for the threshold. -/
theorem pluralIssues_eq_of_spares (id : Text) (source : Plural) (translation : Option Plural) :
    pluralIssues lenient english id source translation =
      pluralIssues strict english id source translation := by
  cases translation with
  | none => rfl
  | some plural => simp only [pluralIssues, formIssues, isFull_eq_of_spares h]

theorem sublist_entryIssues (translation : ResourceFile) (entry : Entry) :
    List.Sublist (entryIssues lenient english translation entry)
      (entryIssues strict english translation entry) := by
  unfold entryIssues
  cases entry.value with
  | singular source => exact sublist_stringIssues h english _ _ _
  | plural source =>
      simp only [pluralIssues_eq_of_spares h]
      exact List.Sublist.refl _
  | array items =>
      apply sublist_unless
      intro hpassed
      rw [Bool.or_eq_true] at hpassed ⊢
      exact hpassed.imp_right h.exemptions.coversId

/-- Lenient options only take issues out of a report. -/
theorem sublist_languageIssues (source translation : ResourceFile) :
    List.Sublist (languageIssues lenient source translation)
      (languageIssues strict source translation) := by
  have hentries : List.Sublist
      ((source.entries.filter Entry.translatable).flatMap (entryIssues lenient
        (Qualifier.isEnglish translation.language) translation))
      ((source.entries.filter Entry.translatable).flatMap (entryIssues strict
        (Qualifier.isEnglish translation.language) translation)) :=
    List.Sublist.flatMap_right _ fun entry _ => sublist_entryIssues h _ _ _
  simp only [languageIssues, isFull_eq_of_spares h]
  split
  · exact hentries.append_right _
  · exact hentries

end Lenient

/-- No options silence a critical issue, under no label; and more lenient options of the same mode
take issues out of a report and leave the others in their order. -/
theorem checkLanguage_options :
    (forall (options options' : CheckOptions) (home home' label label' : Text)
        (entries translated : List Entry),
      (checkLanguage options ⟨home, entries⟩ ⟨label, translated⟩).issues.filter
          Issue.isCritical =
        (checkLanguage options' ⟨home', entries⟩ ⟨label', translated⟩).issues.filter
          Issue.isCritical) ∧
      forall (strict lenient : CheckOptions) (source translation : ResourceFile),
        lenient.Spares strict ->
          List.Sublist (checkLanguage lenient source translation).issues
            (checkLanguage strict source translation).issues := by
  constructor
  · intro options options' home home' label label' entries translated
    -- The wrong placeholders are looked up by the entries alone.
    exact (filter_isCritical_languageIssues options _ _).trans
      (filter_isCritical_languageIssues options' ⟨home', entries⟩ ⟨label', translated⟩).symm
  · intro strict lenient source translation hspares
    exact sublist_languageIssues hspares source translation

/-- Options of the full mode that exempt nothing. -/
def exemptNothing : CheckOptions :=
  ⟨.full, 2, ⟨[], [], [], 0⟩⟩

/-- The usual options, in the full mode. -/
def standardFull : CheckOptions :=
  { CheckOptions.standard with mode := .full }

def greetings (hello name menu : String) : List Entry :=
  [⟨"hello".toList, .singular hello.toList, true⟩, ⟨"name".toList, .singular name.toList, true⟩,
    ⟨"menu".toList, .singular menu.toList, true⟩]

theorem checkLanguage_options_greetings :
    let source : ResourceFile := ⟨"source".toList, greetings "Hello %s" "Android" "Menus"⟩
    let translation : ResourceFile := ⟨"de".toList, greetings "Hallo" "Android" "Menues"⟩
    standardFull.Spares exemptNothing ∧
      List.Sublist (checkLanguage standardFull source translation).issues
        (checkLanguage exemptNothing source translation).issues ∧
      (checkLanguage standardFull source translation).issues =
        [.placeholderMismatch "hello".toList ["%s".toList] []] ∧
      (checkLanguage exemptNothing source translation).issues =
        [.placeholderMismatch "hello".toList ["%s".toList] [],
          .untranslated "name".toList "Android".toList,
          .nearMatch "menu".toList 2 "Menus".toList "Menues".toList] := by
  intro source translation
  have hspares : standardFull.Spares exemptNothing := by
    constructor
    · rfl
    · constructor
      · exact fun _ hterm => absurd hterm List.not_mem_nil
      · exact fun _ hfront => absurd hfront List.not_mem_nil
      · exact fun _ hid => absurd hid List.not_mem_nil
      · decide
    · decide
  refine ⟨hspares, checkLanguage_options.2 exemptNothing standardFull source translation hspares,
    ?_, ?_⟩
  · decide +kernel
  · decide +kernel

end Check
end AndroidStrings
