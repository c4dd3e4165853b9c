import AndroidStrings.Proofs.Text.LineExtent
import AndroidStrings.Proofs.Text.Rewrite

/-!
# Uniform line endings

The line endings of a text are of one sort when no carriage return occurs, or when carriage
returns and line feeds occur in pairs only.  Such a text can be cut anywhere but in the middle of
a pair, and put together again from texts of the same sort.

## Main statements

- `uniform_iff_inStyle` : a text is uniform when its line endings are of the detected sort.
- `InStyle.split`, `InStyle.append` : cutting and joining.
- `detect_exchange` : markup on one line says nothing about the line endings.
- `InStyle.oneLine_of_lines` : the lines of a uniform text hold no half of a line ending.
- `InStyle.exists_withLines` : the lines of a uniform text are put together again.
- `InStyle.splice`, `InStyle.slice` : cutting by byte offsets.
-/

namespace AndroidStrings
namespace Text

/-- Every line feed stands behind a carriage return, and every carriage return before a line
feed. -/
structure Paired (t : Text) : Prop where
  feeds : forall front back : Text, t = front ++ '\n' :: back -> front.getLast? = some '\r'
  returns : forall front back : Text, t = front ++ '\r' :: back -> back.head? = some '\n'

/-- A text without carriage returns, or with pairs only. -/
def Uniform (t : Text) : Prop :=
  '\r' ∉ t ∨ Paired t

/-- A text whose line endings are of the given sort. -/
def InStyle (ending : LineEnding) (t : Text) : Prop :=
  match ending with
  | .lf => '\r' ∉ t
  | .crlf => Paired t

/-- A text without line breaks. -/
def OneLine (t : Text) : Prop :=
  '\n' ∉ t ∧ '\r' ∉ t

instance (t : Text) : Decidable (OneLine t) :=
  inferInstanceAs (Decidable (_ ∧ _))

/-- A place where a text may be cut: not between a carriage return and a line feed. -/
def MayCut (front back : Text) : Prop :=
  front.getLast? ≠ some '\r' ∨ back.head? ≠ some '\n'

theorem OneLine.of_subset
    {s t : Text}
    (h : OneLine t)
    (hs : s ⊆ t) :
    OneLine s :=
  ⟨fun hmem => h.1 (hs hmem), fun hmem => h.2 (hs hmem)⟩

theorem OneLine.append
    {s t : Text}
    (hs : OneLine s)
    (ht : OneLine t) :
    OneLine (s ++ t) := by
  constructor
  · rw [List.mem_append, not_or]
    exact ⟨hs.1, ht.1⟩
  · rw [List.mem_append, not_or]
    exact ⟨hs.2, ht.2⟩

/-!
# Pairs
-/

theorem OneLine.paired
    {t : Text}
    (h : OneLine t) :
    Paired t := by
  constructor
  · intro front back heq
    exact absurd (heq ▸ List.mem_append_right front List.mem_cons_self) h.1
  · intro front back heq
    exact absurd (heq ▸ List.mem_append_right front List.mem_cons_self) h.2

theorem paired_crlf : Paired ['\r', '\n'] := by
  constructor
  · intro front back heq
    rcases front with _ | ⟨c, _ | ⟨d, front⟩⟩
    · simp at heq
    · simp only [List.cons_append, List.nil_append, List.cons.injEq] at heq
      rw [← heq.1]
      rfl
    · simp at heq
  · intro front back heq
    rcases front with _ | ⟨c, _ | ⟨d, front⟩⟩
    · simp only [List.nil_append, List.cons.injEq] at heq
      rw [← heq.2]
      rfl
    · simp at heq
    · simp at heq

theorem Paired.append
    {s t : Text}
    (hs : Paired s)
    (ht : Paired t) :
    Paired (s ++ t) := by
  constructor
  · intro front back heq
    rcases List.append_eq_append_iff.mp heq with ⟨middle, hleft, hright⟩ | ⟨middle, hleft, hright⟩
    · have hlast := ht.feeds middle back hright
      rw [hleft, List.getLast?_append, hlast]
      rfl
    · cases middle with
      | nil =>
          have hlast := ht.feeds [] back (by simpa using hright.symm)
          simp at hlast
      | cons c middle =>
          rw [List.cons_append, List.cons.injEq] at hright
          rw [← hright.1] at hleft
          exact hs.feeds front middle hleft
  · intro front back heq
    rcases List.append_eq_append_iff.mp heq with ⟨middle, _, hright⟩ | ⟨middle, hleft, hright⟩
    · exact ht.returns middle back hright
    · cases middle with
      | nil => exact ht.returns [] back (by simpa using hright.symm)
      | cons c middle =>
          rw [List.cons_append, List.cons.injEq] at hright
          rw [← hright.1] at hleft
          rw [hright.2, List.head?_append, hs.returns front middle hleft]
          rfl

theorem Paired.split
    {s t : Text}
    (h : Paired (s ++ t))
    (hcut : MayCut s t) :
    Paired s ∧ Paired t := by
  refine ⟨⟨?_, ?_⟩, ?_, ?_⟩
  · intro front back heq
    exact h.feeds front (back ++ t) (by rw [heq]; simp)
  · intro front back heq
    have hnext := h.returns front (back ++ t) (by rw [heq]; simp)
    cases back with
    | cons c back => exact hnext
    | nil =>
        rcases hcut with hlast | hhead
        · exact absurd (by rw [heq, List.getLast?_concat]) hlast
        · exact absurd hnext hhead
  · intro front back heq
    have hlast := h.feeds (s ++ front) back (by rw [heq]; simp)
    rw [List.getLast?_append] at hlast
    cases hfront : front.getLast? with
    | some c =>
        rw [hfront] at hlast
        exact hlast
    | none =>
        rw [hfront, Option.none_or] at hlast
        rw [List.getLast?_eq_none_iff.mp hfront] at heq
        rcases hcut with hcut | hhead
        · exact absurd hlast hcut
        · exact absurd (by rw [heq]; rfl) hhead
  · intro front back heq
    exact h.returns (s ++ front) back (by rw [heq]; simp)

/-!
# One sort of line endings
-/

section

variable {ending : LineEnding} {s t : Text}

theorem uniform_iff_inStyle (t : Text) : Uniform t ↔ InStyle (LineEnding.detect t) t := by
  constructor
  · intro h
    cases hdetect : LineEnding.detect t with
    | lf =>
        show '\r' ∉ t
        rcases h with hnone | hpaired
        · exact hnone
        · intro hmem
          rcases List.append_of_mem hmem with ⟨front, back, heq⟩
          rcases List.head?_eq_some_iff.mp (hpaired.returns front back heq) with ⟨rest, hrest⟩
          apply suits_detect t hdetect
          exact ⟨front, rest, by rw [heq, hrest]; simp⟩
    | crlf =>
        show Paired t
        rcases h with hnone | hpaired
        · have hpart : ['\r', '\n'] <:+: t := by
            rw [← contains_iff_isInfix]
            unfold LineEnding.detect at hdetect
            split at hdetect
            · assumption
            · simp at hdetect
          exact absurd (hpart.subset (by simp)) hnone
        · exact hpaired
  · intro h
    cases hdetect : LineEnding.detect t with
    | lf => exact .inl (by rwa [hdetect] at h)
    | crlf => exact .inr (by rwa [hdetect] at h)

theorem InStyle.uniform (h : InStyle ending t) : Uniform t := by
  cases ending with
  | lf => exact .inl h
  | crlf => exact .inr h

theorem OneLine.inStyle (ending : LineEnding) (h : OneLine t) : InStyle ending t := by
  cases ending with
  | lf => exact h.2
  | crlf => exact h.paired

theorem inStyle_nil (ending : LineEnding) : InStyle ending [] :=
  OneLine.inStyle ending (by decide)

theorem inStyle_ending (ending : LineEnding) : InStyle ending ending.text := by
  cases ending with
  | lf => exact (by decide : '\r' ∉ ['\n'])
  | crlf => exact paired_crlf

theorem InStyle.append (hs : InStyle ending s) (ht : InStyle ending t) :
    InStyle ending (s ++ t) := by
  cases ending with
  | lf =>
      show '\r' ∉ s ++ t
      rw [List.mem_append, not_or]
      exact ⟨hs, ht⟩
  | crlf => exact Paired.append hs ht

theorem InStyle.flatMap
    {α : Type} {write : α -> Text} {items : List α}
    (h : forall item, item ∈ items -> InStyle ending (write item)) :
    InStyle ending (items.flatMap write) := by
  induction items with
  | nil => exact inStyle_nil ending
  | cons item items ih =>
      exact (h item List.mem_cons_self).append (ih (List.forall_mem_cons.mp h).2)

theorem InStyle.split (h : InStyle ending (s ++ t)) (hcut : MayCut s t) :
    InStyle ending s ∧ InStyle ending t := by
  cases ending with
  | lf =>
      change '\r' ∉ s ++ t at h
      rw [List.mem_append, not_or] at h
      exact h
  | crlf => exact Paired.split h hcut

/-- What a text holds between two cuts. -/
theorem InStyle.middle
    {front back : Text}
    (h : InStyle ending (front ++ t ++ back))
    (hfront : MayCut front (t ++ back))
    (hback : MayCut (front ++ t) back) :
    InStyle ending t := by
  have hfirst := (h.split hback).1
  refine (hfirst.split ?_).2
  rcases hfront with hlast | hhead
  · exact .inl hlast
  · cases t with
    | nil => exact .inr (by simp)
    | cons c t => exact .inr hhead

theorem mayCut_of_markup
    {front back : Text}
    (h : front.getLast? = some '>' ∨ back.head? = some '<') :
    MayCut front back := by
  rcases h with hlast | hhead
  · exact .inl (by rw [hlast]; decide)
  · exact .inr (by rw [hhead]; decide)

/-- Markup in a text has the line endings of the text. -/
theorem InStyle.of_isMarkup
    (h : InStyle ending t)
    (hs : s <:+: t)
    (hmarkup : IsMarkup s) :
    InStyle ending s := by
  rcases hs with ⟨front, back, rfl⟩
  refine h.middle (mayCut_of_markup (.inr ?_)) (mayCut_of_markup (.inl ?_))
  · rw [List.head?_append, hmarkup.1]
    rfl
  · rw [List.getLast?_append, hmarkup.2]
    rfl

/-- Where a text may be cut, no line ending is torn. -/
theorem lineEnding_isInfix_append_iff
    {front back : Text}
    (hcut : MayCut front back) :
    ['\r', '\n'] <:+: front ++ back ↔ ['\r', '\n'] <:+: front ∨ ['\r', '\n'] <:+: back := by
  constructor
  · intro h
    rcases List.infix_append_iff.mp h with hfront | hback | ⟨left, right, heq, hleft, hright⟩
    · exact .inl hfront
    · exact .inr hback
    · cases left with
      | nil => exact .inr (heq ▸ hright.isInfix)
      | cons c left =>
          cases left with
          | nil =>
              simp only [List.cons_append, List.nil_append, List.cons.injEq] at heq
              rcases hleft with ⟨start, rfl⟩
              rcases hright with ⟨rest, rfl⟩
              exfalso
              simp [MayCut, ← heq.1, ← heq.2] at hcut
          | cons d left =>
              simp only [List.cons_append, List.cons.injEq, List.nil_eq, List.append_eq_nil_iff]
                at heq
              rw [← heq.1, ← heq.2.1, heq.2.2.1] at hleft
              exact .inl hleft.isInfix
  · rintro (hfront | hback)
    · exact hfront.trans (List.prefix_append _ _).isInfix
    · exact hback.trans (List.suffix_append _ _).isInfix

/-- Markup on one line says nothing about the line endings of a text. -/
theorem detect_exchange
    {part part' : Text}
    (front back : Text)
    (hmarkup : IsMarkup part)
    (hmarkup' : IsMarkup part')
    (hline : '\n' ∉ part)
    (hline' : '\n' ∉ part') :
    LineEnding.detect (front ++ part' ++ back) = LineEnding.detect (front ++ part ++ back) := by
  have hinfix : forall {other : Text}, IsMarkup other -> '\n' ∉ other ->
      (['\r', '\n'] <:+: front ++ other ++ back ↔
        ['\r', '\n'] <:+: front ∨ ['\r', '\n'] <:+: back) := by
    intro other hother hfeed
    have hnone : ¬ ['\r', '\n'] <:+: other := fun hpart => hfeed (hpart.subset (by simp))
    have hbehind : MayCut other back := .inl (by rw [hother.2]; decide)
    have hbefore : MayCut front (other ++ back) := by
      refine .inr ?_
      simp [List.head?_append, hother.1]
    rw [List.append_assoc, lineEnding_isInfix_append_iff hbefore,
      lineEnding_isInfix_append_iff hbehind]
    simp [hnone]
  have hsame : contains (front ++ part' ++ back) ['\r', '\n'] =
      contains (front ++ part ++ back) ['\r', '\n'] := by
    rw [Bool.eq_iff_iff, contains_iff_isInfix, contains_iff_isInfix, hinfix hmarkup' hline',
      hinfix hmarkup hline]
  rw [LineEnding.detect, LineEnding.detect, hsame]

/-!
# Trimming and lines
-/

/-- A class of blanks that holds both halves of a line ending, or neither. -/
theorem InStyle.trimEnd
    {blank : Char -> Bool}
    (h : InStyle ending t)
    (hblank : blank '\r' = blank '\n') :
    InStyle ending (Text.trimEnd blank t) := by
  rcases exists_trimEnd_append blank t with ⟨back, heq, hback⟩
  rw [heq] at h
  refine (h.split ?_).1
  by_cases hlast : (Text.trimEnd blank t).getLast? = some '\r'
  · right
    intro hhead
    have hfeed := hback '\n' (List.mem_of_mem_head? hhead)
    rw [← hblank, getLast?_trimEnd hlast] at hfeed
    exact Bool.noConfusion hfeed
  · exact .inl hlast

theorem InStyle.trim
    {blank : Char -> Bool}
    (h : InStyle ending t)
    (hblank : blank '\r' = blank '\n') :
    InStyle ending (Text.trim blank t) := by
  have hsplit : t = t.takeWhile blank ++ trimStart blank t :=
    (List.takeWhile_append_dropWhile).symm
  rw [hsplit] at h
  refine InStyle.trimEnd ((h.split ?_).2) hblank
  by_cases hhead : (trimStart blank t).head? = some '\n'
  · left
    intro hlast
    have hreturn := List.all_eq_true.mp (List.all_takeWhile (p := blank) (l := t)) '\r'
      (List.mem_of_getLast? hlast)
    have hfeed := List.head?_dropWhile_not blank t
    rw [show t.dropWhile blank = trimStart blank t from rfl, hhead] at hfeed
    rw [hblank] at hreturn
    simp only at hfeed
    rw [hreturn] at hfeed
    exact Bool.noConfusion hfeed
  · exact .inr hhead

/-- The parts of a text between line feeds. -/
theorem isInfix_of_mem_splitOn
    {line : Text}
    (h : line ∈ splitOn '\n' t) :
    line <:+: t ∧ '\n' ∉ line := by
  rcases splitOn_spec t with ⟨first, rest, hsplit, ht, hfeeds⟩
  rw [hsplit] at h
  refine ⟨?_, hfeeds line h⟩
  rw [ht]
  rcases List.mem_cons.mp h with heq | hrest
  · rw [heq]
    exact (List.prefix_append first _).isInfix
  · rcases List.append_of_mem hrest with ⟨before, after, hsame⟩
    rw [hsame, withLines]
    exact ⟨first ++ before.flatMap (['\n'] ++ ·) ++ ['\n'], after.flatMap (['\n'] ++ ·),
      by simp⟩

/-- The lines of a uniform text hold no half of a line ending. -/
theorem InStyle.oneLine_of_lines
    {line : Text}
    (h : InStyle ending t)
    (hline : line ∈ t.lines) :
    OneLine line := by
  rcases List.mem_map.mp hline with ⟨part, hpart, rfl⟩
  rcases isInfix_of_mem_splitOn hpart with ⟨⟨front, back, hinfix⟩, hfeed⟩
  refine ⟨not_mem_stripCarriageReturn hfeed, ?_⟩
  cases ending with
  | lf =>
      change '\r' ∉ t at h
      rw [← hinfix] at h
      exact not_mem_stripCarriageReturn fun hmem =>
        h (List.mem_append_left _ (List.mem_append_right _ hmem))
  | crlf =>
      -- A carriage return is followed by a line feed, so it can only be the last character.
      change Paired t at h
      have hend : forall before after : Text, part = before ++ '\r' :: after -> after = [] := by
        intro before after heq
        have hnext := h.returns (front ++ before) (after ++ back) (by
          rw [← hinfix, heq]
          simp)
        cases after with
        | nil => rfl
        | cons c after =>
            simp only [List.cons_append, List.head?_cons, Option.some.injEq] at hnext
            exact absurd (by rw [heq, hnext]; simp) hfeed
      intro hmem
      rcases exists_return_append part with ⟨tail, htail, _, hnone⟩
      rcases List.append_of_mem hmem with ⟨before, after, hsplit⟩
      have hafter := hend before (after ++ tail) (by
        rw [htail, hsplit]
        simp)
      rcases List.append_eq_nil_iff.mp hafter with ⟨rfl, rfl⟩
      rw [List.append_nil] at htail
      rw [← htail] at hsplit
      rw [stripCarriageReturn, if_pos (by rw [hsplit, List.getLast?_concat]), hsplit,
        List.dropLast_concat] at htail
      have hlengths := congrArg List.length htail
      simp at hlengths

theorem withLines_stripCarriageReturn
    {first : Text} {rest : List Text}
    (hfeeds : forall front back : Text, withLines ['\n'] first rest = front ++ '\n' :: back ->
      front.getLast? = some '\r')
    (hlast : forall line, (first :: rest).getLast? = some line -> line.getLast? ≠ some '\r') :
    withLines ['\r', '\n'] (stripCarriageReturn first) (rest.map stripCarriageReturn) =
      withLines ['\n'] first rest := by
  induction rest generalizing first with
  | nil => simp [stripCarriageReturn_eq_self (hlast first rfl)]
  | cons line rest ih =>
      rw [withLines_cons, List.append_assoc, List.singleton_append] at hfeeds
      rcases List.getLast?_eq_some_iff.mp (hfeeds first _ rfl) with ⟨before, hfirst⟩
      have hfeeds' : forall front back : Text, withLines ['\n'] line rest = front ++ '\n' :: back ->
          front.getLast? = some '\r' := by
        intro front back heq
        have hend := hfeeds (first ++ '\n' :: front) back (by rw [heq]; simp)
        cases front with
        | nil => simp at hend
        | cons c front => simpa [List.getLast?_append] using hend
      have hlast' : forall other, (line :: rest).getLast? = some other ->
          other.getLast? ≠ some '\r' :=
        fun other hother => hlast other (List.getLast?_cons_cons.trans hother)
      have hrest := ih hfeeds' hlast'
      rw [List.map_cons, withLines_cons, withLines_cons, hrest, hfirst,
        stripCarriageReturn_append_cr]
      simp

/-- The lines of a uniform text that is markup are put together again with its line ending. -/
theorem InStyle.exists_withLines
    {ending : LineEnding} {t : Text}
    (h : InStyle ending t)
    (hmarkup : IsMarkup t) :
    exists (first : Text) (rest : List Text),
      t.lines = first :: rest ∧ withLines ending.text first rest = t := by
  rcases exists_lines hmarkup with ⟨first, rest, ht, hlines, _, hlast⟩
  refine ⟨_, _, hlines, ?_⟩
  have hend : forall line, (first :: rest).getLast? = some line -> line.getLast? ≠ some '\r' := by
    intro line hline
    rw [hlast line hline]
    decide
  cases ending with
  | crlf =>
      rw [ht] at h
      have hfeeds := fun front back => h.feeds front back
      exact (withLines_stripCarriageReturn hfeeds hend).trans ht.symm
  | lf =>
      have hnone : ¬ ['\r', '\n'] <:+: withLines ['\n'] first rest := by
        rw [← ht]
        exact fun hpart => h (hpart.subset (by simp))
      have hreturn : (withLines ['\n'] first rest).getLast? ≠ some '\r' := by
        rw [← ht, hmarkup.2]
        decide
      have hsame : forall line, line ∈ first :: rest -> stripCarriageReturn line = line :=
        fun line hline =>
          stripCarriageReturn_eq_self (getLast?_ne_of_withLines hnone hreturn line hline)
      rw [hsame first (by simp), List.map_congr_left fun line hline =>
        hsame line (List.mem_cons_of_mem _ hline), List.map_id']
      exact ht.symm

end

/-!
# Cuts by byte offsets
-/

/-- An offset between two characters where a text may be cut. -/
def CutAt (t : Text) (position : Nat) : Prop :=
  exists front back : Text, t = front ++ back ∧ position = front.size ∧ MayCut front back

section

variable {ending : LineEnding} {t : Text} {position start stop : Nat}

theorem cutAt_zero (t : Text) : CutAt t 0 :=
  ⟨[], t, rfl, rfl, .inl (by simp)⟩

theorem CutAt.inStyle (h : CutAt t position) (ht : InStyle ending t) :
    InStyle ending (takeBytes position t) ∧ InStyle ending (dropBytes position t) := by
  rcases h with ⟨front, back, rfl, rfl, hcut⟩
  rw [takeBytes_size, dropBytes_size]
  exact ht.split hcut

theorem InStyle.splice
    {replacement : Text}
    (ht : InStyle ending t)
    (hstart : CutAt t start)
    (hstop : CutAt t stop)
    (hreplacement : InStyle ending replacement) :
    InStyle ending (t.splice ⟨start, stop⟩ replacement) :=
  ((hstart.inStyle ht).1.append hreplacement).append (hstop.inStyle ht).2

theorem InStyle.slice (ht : InStyle ending t) (hstart : CutAt t start) (hstop : CutAt t stop) :
    InStyle ending (t.slice ⟨start, stop⟩) := by
  rcases hstart with ⟨front, back, htext, hsize, hcut⟩
  rcases hstop with ⟨front', back', htext', hsize', hcut'⟩
  rcases List.append_eq_append_iff.mp (htext.symm.trans htext') with
    ⟨middle, hfront, hback⟩ | ⟨middle, hfront, _⟩
  · have hslice := slice_append front middle back'
    rw [← hfront, ← htext', ← size_append, ← hfront, ← hsize, ← hsize'] at hslice
    rw [hslice]
    rw [htext', hfront] at ht
    rw [hback] at hcut
    rw [hfront] at hcut'
    exact ht.middle hcut hcut'
  · have hnone : stop - start = 0 := by
      rw [hsize, hsize', hfront, size_append]
      omega
    show InStyle ending (takeBytes (stop - start) (dropBytes start t))
    rw [hnone, takeBytes_zero]
    exact inStyle_nil ending

end

/-- A line can be cut off where it begins. -/
theorem cutAt_lineStart (front back : Text) :
    CutAt (front ++ back) ((front ++ back).lineStart front.size) := by
  rcases exists_lineStart front back with ⟨kept, line, hfront, hstart, hline⟩
  refine ⟨kept, line ++ back, by rw [hfront, List.append_assoc], hstart, .inl ?_⟩
  rcases hline with hnil | hfeed
  · rw [hnil]
    simp
  · rw [hfeed]
    decide

/-- A piece can be cut off together with its line. -/
theorem cutAt_lineExtent
    {front piece back : Text}
    (hmarkup : IsMarkup piece) :
    CutAt (front ++ piece ++ back)
        ((front ++ piece ++ back).lineExtent ⟨front.size, front.size + piece.size⟩).start ∧
      CutAt (front ++ piece ++ back)
        ((front ++ piece ++ back).lineExtent ⟨front.size, front.size + piece.size⟩).stop := by
  have hstart : CutAt (front ++ piece ++ back) front.size := by
    refine ⟨front, piece ++ back, List.append_assoc _ _ _, rfl, mayCut_of_markup (.inr ?_)⟩
    rw [List.head?_append, hmarkup.1]
    rfl
  have hstop : CutAt (front ++ piece ++ back) (front.size + piece.size) := by
    refine ⟨front ++ piece, back, rfl, (size_append _ _).symm, mayCut_of_markup (.inl ?_)⟩
    rw [List.getLast?_append, hmarkup.2]
    rfl
  have hbehind : dropBytes (front.size + piece.size) (front ++ piece ++ back) = back := by
    rw [← size_append, dropBytes_size]
  unfold lineExtent
  simp only [hbehind]
  split
  · split
    · rename_i length hlength
      rcases exists_lineRest_of_blankLineRest? hlength with ⟨line, rest, hback, hsize, hline⟩
      constructor
      · have hcut := cutAt_lineStart front (piece ++ back)
        rwa [← List.append_assoc] at hcut
      · refine ⟨front ++ piece ++ line, rest, by rw [hback, List.append_assoc (front ++ piece)],
          ?_, ?_⟩
        · simp only [size_append, hsize]
        · rcases hline.ends with hnil | hlast
          · rw [hnil]
            exact .inr (by simp)
          · left
            rw [List.getLast?_append, hlast, Option.some_or]
            decide
    · exact ⟨hstart, hstop⟩
  · exact ⟨hstart, hstop⟩

end Text
end AndroidStrings
