import AndroidStrings.CommandLine.Run
import AndroidStrings.Proofs.File.Place
import AndroidStrings.Proofs.Text.CharClass
import AndroidStrings.Proofs.Text.Replacement

/-!
# Languages that can be given

A directory lists its translations by the form of their qualifiers, and a language that is given
to a command has to stand for a language tag as well.  A tag is read when its subtags are in order:
a language, then perhaps a script, perhaps a region, and variants.  So a qualifier in the short
form can always be given, and one in the long form, which may hold letters, digits and plus signs
in any order, can be when its parts are subtags in this order.

## Main statements

- `LanguageTag.optionally_iff` : an optional subtag may be taken whenever it fits.
- `LanguageTag.isSome_parse?_iff` : the tags that are read.
- `Qualifier.isSome_languageTag?_iff` : the qualifiers that stand for a tag.
- `CommandLine.validateLanguage_iff_of_listed` : the listed languages that can be given.
-/

namespace AndroidStrings

/-!
# Tags that are read
-/

namespace LanguageTag

open CharClass

/-- The subtag of a language. -/
def IsLanguage (subtag : Text) : Prop :=
  subtag.all isAsciiLetter = true ∧ 2 ≤ subtag.length ∧ subtag.length ≤ 8 ∧ subtag.length ≠ 4

def IsScript (subtag : Text) : Prop :=
  subtag.all isAsciiLetter = true ∧ subtag.length = 4

/-- The subtag of a country by its letters, or of an area by its number. -/
def IsRegion (subtag : Text) : Prop :=
  (subtag.all isAsciiLetter = true ∧ subtag.length = 2) ∨
    (subtag.all isAsciiDigit = true ∧ subtag.length = 3)

def IsVariant (subtag : Text) : Prop :=
  subtag.all isAsciiAlphanumeric = true ∧ 4 ≤ subtag.length ∧ subtag.length ≤ 8

def AreVariants (subtags : List Text) : Prop :=
  forall subtag, subtag ∈ subtags -> IsVariant subtag

/-- Subtags of some sort, behind one of another sort or alone. -/
inductive Optionally (first : Text -> Prop) (rest : List Text -> Prop) : List Text -> Prop where
  | present {subtag : Text} {subtags : List Text} :
      first subtag -> rest subtags -> Optionally first rest (subtag :: subtags)
  | absent {subtags : List Text} : rest subtags -> Optionally first rest subtags

/-- The subtags of a tag, in order. -/
inductive IsTag : List Text -> Prop where
  | mk {language : Text} {subtags : List Text} :
      IsLanguage language -> Optionally IsScript (Optionally IsRegion AreVariants) subtags ->
        IsTag (language :: subtags)

section Subtags

variable {subtag : Text}

theorem isSome_language?_iff : (language? subtag).isSome = true ↔ IsLanguage subtag := by
  rw [language?, IsLanguage]
  split
  · rename_i h
    exact iff_of_true rfl ⟨h.2.2.2, h.1, h.2.1, h.2.2.1⟩
  · rename_i h
    exact iff_of_false Bool.false_ne_true fun hparts =>
      h ⟨hparts.2.1, hparts.2.2.1, hparts.2.2.2, hparts.1⟩

theorem isSome_script?_iff : (script? subtag).isSome = true ↔ IsScript subtag := by
  rw [IsScript]
  cases subtag with
  | nil => simp [script?]
  | cons c t =>
      unfold script?
      split
      · rename_i h
        exact iff_of_true rfl h.symm
      · rename_i h
        exact iff_of_false Bool.false_ne_true fun hparts => h hparts.symm

theorem isSome_region?_iff : (region? subtag).isSome = true ↔ IsRegion subtag := by
  rw [region?, IsRegion]
  split
  · rename_i h
    exact iff_of_true rfl (.inl h.symm)
  · rename_i hletters
    split
    · rename_i h
      exact iff_of_true rfl (.inr h.symm)
    · rename_i hdigits
      refine iff_of_false Bool.false_ne_true ?_
      rintro (h | h)
      · exact hletters h.symm
      · exact hdigits h.symm

theorem isSome_variant?_iff : (variant? subtag).isSome = true ↔ IsVariant subtag := by
  rw [variant?, IsVariant]
  split
  · rename_i h
    exact iff_of_true rfl ⟨h.2.2, h.1, h.2.1⟩
  · rename_i h
    exact iff_of_false Bool.false_ne_true fun hparts => h ⟨hparts.2.1, hparts.2.2, hparts.1⟩

end Subtags

/-- An optional subtag may be taken whenever it fits, if what follows it may lose its first
subtag. -/
theorem optionally_iff
    {read : Text -> Option Text} {first : Text -> Prop} {rest : List Text -> Prop}
    (hread : forall subtag : Text, (read subtag).isSome = true ↔ first subtag)
    (htail : forall (subtag : Text) (subtags : List Text), rest (subtag :: subtags) -> rest subtags)
    (subtags : List Text) :
    Optionally first rest subtags ↔ rest (takeFirst? read subtags).2 := by
  cases subtags with
  | nil =>
      constructor
      · intro h
        cases h with
        | absent h => exact h
      · exact .absent
  | cons subtag subtags =>
      have hfirst := hread subtag
      rw [takeFirst?]
      cases hfound : read subtag with
      | none =>
          rw [hfound] at hfirst
          constructor
          · intro h
            cases h with
            | present hsubtag _ => exact absurd (hfirst.mpr hsubtag) Bool.false_ne_true
            | absent h => exact h
          · exact .absent
      | some found =>
          rw [hfound] at hfirst
          constructor
          · intro h
            cases h with
            | present _ h => exact h
            | absent h => exact htail subtag subtags h
          · exact .present (hfirst.mp rfl)

theorem areVariants_nil : AreVariants [] :=
  fun _ h => absurd h List.not_mem_nil

theorem areVariants_tail
    (subtag : Text) (subtags : List Text)
    (h : AreVariants (subtag :: subtags)) :
    AreVariants subtags :=
  fun other hother => h other (List.mem_cons_of_mem subtag hother)

theorem optionally_isRegion_tail
    (subtag : Text) (subtags : List Text)
    (h : Optionally IsRegion AreVariants (subtag :: subtags)) :
    Optionally IsRegion AreVariants subtags := by
  cases h with
  | present _ hvariants => exact .absent hvariants
  | absent hvariants => exact .absent (areVariants_tail subtag subtags hvariants)

theorem isSome_mapM_variant?_iff {subtags : List Text} :
    (subtags.mapM variant?).isSome = true ↔ AreVariants subtags := by
  induction subtags with
  | nil => simp [AreVariants]
  | cons subtag subtags ih =>
      rw [AreVariants, List.forall_mem_cons, ← AreVariants, ← ih, ← isSome_variant?_iff,
        List.mapM_cons]
      cases variant? subtag <;> cases subtags.mapM variant? <;> simp

/-- A tag is read when its subtags are in order. -/
theorem isSome_parse?_iff {tag : Text} :
    (parse? tag).isSome = true ↔ IsTag (Text.splitOn '-' tag) := by
  rcases Text.exists_splitOn_eq_cons '-' tag with ⟨first, rest, hsplit⟩
  have hrest : Optionally IsScript (Optionally IsRegion AreVariants) rest ↔
      (((takeFirst? region? (takeFirst? script? rest).2).2).mapM variant?).isSome = true := by
    rw [optionally_iff (fun _ => isSome_script?_iff) optionally_isRegion_tail,
      optionally_iff (fun _ => isSome_region?_iff) areVariants_tail, isSome_mapM_variant?_iff]
  have hparse : (parse? tag).isSome = true ↔
      IsLanguage first ∧ Optionally IsScript (Optionally IsRegion AreVariants) rest := by
    rw [hrest, ← isSome_language?_iff]
    simp only [parse?, hsplit]
    cases language? first <;> simp
  rw [hparse, hsplit]
  constructor
  · rintro ⟨hlanguage, hsubtags⟩
    exact .mk hlanguage hsubtags
  · rintro ⟨hlanguage, hsubtags⟩
    exact ⟨hlanguage, hsubtags⟩

end LanguageTag

/-!
# Qualifiers that stand for a tag
-/

namespace Text

/-- A text whose separators are exchanged for others has the same parts. -/
theorem splitOn_replaceAll
    {separator other : Char} {t : Text}
    (h : other ∉ t) :
    splitOn other (replaceAll [separator] [other] t) = splitOn separator t := by
  induction t with
  | nil => simp [replaceAll, splitOn]
  | cons c t ih =>
      rw [List.mem_cons, not_or] at h
      have hrest := ih h.2
      by_cases hc : c = separator
      · have hreplaced := replaceAll_append (List.cons_ne_nil separator []) [other] t
        rw [List.singleton_append, List.singleton_append] at hreplaced
        rw [hc, hreplaced, splitOn, splitOn, if_pos rfl, if_pos rfl, hrest]
      · have hkept : ¬ [separator] <+: c :: t := by
          rintro ⟨rest, heq⟩
          exact hc (List.cons.inj heq).1.symm
        rw [replaceAll_cons hkept, splitOn, splitOn, if_neg (Ne.symm h.1), if_neg hc, hrest]

end Text

namespace Qualifier

open CharClass LanguageTag

theorem notMem_hyphen_of_all
    {inClass : Char -> Bool} {t : Text}
    (h : t.all inClass = true)
    (hhyphen : inClass '-' = false) :
    '-' ∉ t :=
  not_mem_of_forall (List.all_eq_true.mp h) hhyphen

theorem all_isAsciiLetter
    {inClass : Char -> Bool} {t : Text}
    (hclass : forall c : Char, inClass c = true -> isAsciiLetter c = true)
    (h : t.all inClass = true) :
    t.all isAsciiLetter = true := by
  rw [List.all_eq_true] at h ⊢
  exact fun c hc => hclass c (h c hc)

/-- The short form always stands for a tag. -/
theorem isSome_languageTag?_of_isShortForm
    {qualifier : Text}
    (h : isShortForm qualifier = true) :
    (languageTag? qualifier).isSome = true := by
  rcases exists_of_isShortForm h with ⟨language, hsmall, hlength, hcases⟩
  have hhyphen : '-' ∉ language := notMem_hyphen_of_all hsmall (by decide)
  have hlanguage : IsLanguage language :=
    ⟨all_isAsciiLetter (fun _ => isAsciiLetter_of_isSmallLetter) hsmall, by omega, by omega, by omega⟩
  have hlong : forall rest : Text, qualifier ≠ 'b' :: '+' :: rest := by
    rintro rest rfl
    rw [isShortForm_plus] at h
    cases h
  have htag : languageTag? qualifier =
      LanguageTag.parse? (Text.replaceAll ['-', 'r'] ['-'] qualifier) := by
    rw [languageTag?, if_pos (by rw [isLanguage, h, Bool.true_or])]
    exact hlong
  rw [htag, isSome_parse?_iff]
  rcases hcases with rfl | ⟨c, d, hc, hd, rfl⟩
  · have hinfix : ¬ ['-', 'r'] <:+: qualifier := fun hmarked =>
      hhyphen (hmarked.subset List.mem_cons_self)
    rw [Text.replaceAll_eq_self hinfix, Text.splitOn_of_notMem hhyphen]
    exact .mk hlanguage (.absent (.absent areVariants_nil))
  · have hcapitals : [c, d].all isCapitalLetter = true := by
      rw [List.all_cons, List.all_cons, List.all_nil, hc, hd]
      rfl
    have hletters : [c, d].all isAsciiLetter = true :=
      all_isAsciiLetter (fun _ => isAsciiLetter_of_isCapitalLetter) hcapitals
    have hregion : '-' ∉ [c, d] := notMem_hyphen_of_all hcapitals (by decide)
    have hinfix : ¬ ['-', 'r'] <:+: [c, d] := fun hmarked =>
      hregion (hmarked.subset List.mem_cons_self)
    have hreplaced : Text.replaceAll ['-', 'r'] ['-'] (language ++ ['-', 'r', c, d]) =
        language ++ '-' :: [c, d] := by
      have hmark : Text.replaceAll ['-', 'r'] ['-'] ['-', 'r', c, d] = _ :=
        Text.replaceAll_append (List.cons_ne_nil '-' ['r']) ['-'] [c, d]
      rw [Text.replaceAll_append_of_not_mem hhyphen, hmark, Text.replaceAll_eq_self hinfix]
      rfl
    rw [hreplaced, Text.splitOn_separator, Text.splitOn_of_notMem hhyphen,
      Text.splitOn_of_notMem hregion]
    exact .mk hlanguage (.absent (.present (.inl ⟨hletters, rfl⟩) areVariants_nil))

/-- The long form stands for a tag when its parts are the subtags of one. -/
theorem isSome_languageTag?_of_isLongForm
    {rest : Text}
    (h : isLongForm ('b' :: '+' :: rest) = true) :
    (languageTag? ('b' :: '+' :: rest)).isSome = true ↔ IsTag (Text.splitOn '+' rest) := by
  have hall : rest.all (fun c => isAsciiAlphanumeric c || c == '+') = true := by
    rw [isLongForm, Bool.and_eq_true] at h
    exact h.2
  have hhyphen : '-' ∉ rest := notMem_hyphen_of_all hall (by decide)
  rw [languageTag?, if_pos (by rw [isLanguage, h, Bool.or_true]), isSome_parse?_iff,
    Text.splitOn_replaceAll hhyphen]

/-- A qualifier of a language stands for a tag when it is in the short form, or in the long form
with the subtags of a tag. -/
theorem isSome_languageTag?_iff
    {qualifier : Text}
    (h : isLanguage qualifier = true) :
    (languageTag? qualifier).isSome = true ↔
      isShortForm qualifier = true ∨
        exists rest : Text, qualifier = 'b' :: '+' :: rest ∧ IsTag (Text.splitOn '+' rest) := by
  rw [isLanguage, Bool.or_eq_true] at h
  rcases h with hshort | hlong
  · exact iff_of_true (isSome_languageTag?_of_isShortForm hshort) (.inl hshort)
  · have hform := hlong
    unfold isLongForm at hform
    split at hform
    · rename_i rest
      rw [isSome_languageTag?_of_isLongForm hlong, isShortForm_plus]
      constructor
      · exact fun htag => .inr ⟨rest, rfl, htag⟩
      · rintro (hshort | ⟨rest', heq, htag⟩)
        · cases hshort
        · rw [List.cons.injEq, List.cons.injEq] at heq
          rwa [heq.2.2]
    · cases hform

end Qualifier

/-!
# Main statement
-/

namespace CommandLine

open Qualifier LanguageTag

/-- A listed language can be given when it is in the short form, or in the long form with the
subtags of a tag. -/
theorem validateLanguage_iff_of_listed
    {tree : FileTree} {directory : ResourceDirectory} {found : List Text} {language : Text}
    (hfound : directory.languages tree = .ok found)
    (hlisted : language ∈ found) :
    validateLanguage language = .ok () ↔
      isShortForm language = true ∨
        exists rest : Text, language = 'b' :: '+' :: rest ∧ IsTag (Text.splitOn '+' rest) := by
  have hlanguage : isLanguage language = true :=
    (ResourceDirectory.languages_spec hfound).2 language hlisted
  have hfilled : language.isEmpty = false := by
    cases language with
    | nil => cases hlanguage
    | cons c rest => rfl
  have hsource : isSource language = false := isSource_eq_false_of_isLanguage hlanguage
  rw [← isSome_languageTag?_iff hlanguage, validateLanguage, hfilled, hsource]
  cases (languageTag? language).isSome <;> simp

/-- Translations into three languages, one of them with two language subtags. -/
def extendedLanguage : FileTree :=
  let file := fun (folder : String) (text : String) =>
    (["res".toList, folder.toList, ResourceDirectory.fileName], Encoding.encode text.toList)
  ⟨[file "values" "<resources/>", file "values-fr" "<resources/>",
    file "values-b+sr+Latn" "<resources/>",
    file "values-b+zh+yue" "<resources><string name=\"a\">x</string></resources>"], []⟩

theorem validateLanguage_iff_of_listed_script :
    ResourceDirectory.languages extendedLanguage ⟨"res".toList⟩ =
        .ok ["b+sr+Latn".toList, "b+zh+yue".toList, "fr".toList] ∧
      validateLanguage "b+sr+Latn".toList = .ok () := by
  have hfound : ResourceDirectory.languages extendedLanguage ⟨"res".toList⟩ =
      .ok ["b+sr+Latn".toList, "b+zh+yue".toList, "fr".toList] := by
    decide +kernel
  have hlanguage : IsLanguage "sr".toList := ⟨by decide, by decide, by decide, by decide⟩
  have hscript : IsScript "Latn".toList := ⟨by decide, by decide⟩
  have htag : IsTag ["sr".toList, "Latn".toList] :=
    .mk hlanguage (.present hscript (.absent areVariants_nil))
  refine ⟨hfound, ?_⟩
  exact (validateLanguage_iff_of_listed hfound (by decide)).mpr (.inr ⟨"sr+Latn".toList, rfl, htag⟩)

/-- A tag has one subtag for its language, so a listed language with two of them cannot be given,
although its file is read as every other. -/
theorem validateLanguage_extendedLanguage :
    let directory : ResourceDirectory := ⟨"res".toList⟩
    let language := "b+zh+yue".toList
    directory.languages extendedLanguage =
        .ok ["b+sr+Latn".toList, language, "fr".toList] ∧
      directory.getString extendedLanguage language "a".toList false = .ok "x".toList ∧
      validateLanguage language = .error (.invalidLanguage language) ∧
      (Run.get extendedLanguage directory language "a".toList false).failure =
        some (.argument (.invalidLanguage language)) := by
  decide +kernel

end CommandLine
end AndroidStrings
