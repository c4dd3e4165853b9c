import AndroidStrings.Text.Basic
import AndroidStrings.Text.CharClass

/-!
# Laws of the character classes

What is a letter or a digit of ASCII is one in Unicode, and a hexadecimal digit is either of the
two.  White space is in no word, so a run of white space and a word behind it are told apart.  A run
of a class is read up to the place where the class stops.

## Main statements

- `isWord_of_isAsciiAlphanumeric` : letters and digits of ASCII are in words.
- `isWord_eq_false_of_isWhiteSpace` : white space is not.
- `takeWhile_append_of_stops`, `dropWhile_append_of_stops` : a run is read as it stands.
-/

namespace AndroidStrings
namespace CharClass

variable {c : Char}

theorem isAscii_of_isAsciiAlphanumeric (h : isAsciiAlphanumeric c = true) : isAscii c = true := by
  simp only [isAsciiAlphanumeric, isAsciiLetter, isAsciiDigit, isAscii, Bool.or_eq_true,
    Bool.and_eq_true, decide_eq_true_eq, Char.le_def, UInt32.le_iff_toNat_le] at h ⊢
  change ((97 ≤ c.toNat ∧ c.toNat ≤ 122) ∨ (65 ≤ c.toNat ∧ c.toNat ≤ 90)) ∨
    (48 ≤ c.toNat ∧ c.toNat ≤ 57) at h
  omega

theorem isDecimalDigit_of_isAsciiDigit (h : isAsciiDigit c = true) : isDecimalDigit c = true := by
  have hascii : isAscii c = true :=
    isAscii_of_isAsciiAlphanumeric (by rw [isAsciiAlphanumeric, h, Bool.or_true])
  rw [isDecimalDigit, if_pos hascii, h]

theorem isWord_of_isAsciiAlphanumeric (h : isAsciiAlphanumeric c = true) : isWord c = true := by
  have hascii := isAscii_of_isAsciiAlphanumeric h
  rw [isAsciiAlphanumeric, Bool.or_eq_true] at h
  rcases h with hletter | hdigit
  · simp [isWord, isAlphabetic, isRecent, hascii, hletter]
  · simp [isWord, isDecimalDigit, isRecent, hascii, hdigit]

theorem isAsciiAlphanumeric_of_isHexDigit (h : isHexDigit c = true) :
    isAsciiAlphanumeric c = true := by
  simp only [isHexDigit, isAsciiAlphanumeric, isAsciiLetter, isAsciiDigit, Bool.or_eq_true,
    Bool.and_eq_true, decide_eq_true_eq, Char.le_def, UInt32.le_iff_toNat_le] at h ⊢
  change ((48 ≤ c.toNat ∧ c.toNat ≤ 57) ∨ (97 ≤ c.toNat ∧ c.toNat ≤ 102)) ∨
    (65 ≤ c.toNat ∧ c.toNat ≤ 70) at h
  change ((97 ≤ c.toNat ∧ c.toNat ≤ 122) ∨ (65 ≤ c.toNat ∧ c.toNat ≤ 90)) ∨
    (48 ≤ c.toNat ∧ c.toNat ≤ 57)
  omega

/-- The characters of the white space ranges, one by one. -/
def whiteSpaceChars : List Char :=
  whiteSpaceRanges.flatMap fun range =>
    (List.range' range.1 (range.2 + 1 - range.1)).map Char.ofNat

theorem mem_whiteSpaceChars (h : isWhiteSpace c = true) : c ∈ whiteSpaceChars := by
  rw [isWhiteSpace, inRanges, List.any_eq_true] at h
  rcases h with ⟨range, hrange, hc⟩
  rw [decide_eq_true_eq] at hc
  rw [whiteSpaceChars, List.mem_flatMap]
  refine ⟨range, hrange, List.mem_map.mpr ⟨c.toNat, ?_, Char.ofNat_toNat c⟩⟩
  rw [List.mem_range'_1]
  omega

theorem any_whiteSpaceChars : whiteSpaceChars.any isWord = false := by
  decide +kernel

theorem isWord_eq_false_of_isWhiteSpace (h : isWhiteSpace c = true) : isWord c = false := by
  rw [Bool.eq_false_iff]
  exact List.any_eq_false.mp any_whiteSpaceChars c (mem_whiteSpaceChars h)

/-!
# Runs of a class
-/

variable {inClass : Char -> Bool} {run rest : Text}

/-- A text of one character or more, all of one class. -/
structure IsRun (inClass : Char -> Bool) (run : Text) : Prop where
  ne_nil : run ≠ []
  forall_mem : forall c, c ∈ run -> inClass c = true

/-- A run of the class does not go on in this text. -/
def Stops (inClass : Char -> Bool) (rest : Text) : Prop :=
  forall c : Char, rest.head? = some c -> inClass c = false

theorem not_mem_of_forall
    (hrun : forall c, c ∈ run -> inClass c = true)
    (hc : inClass c = false) :
    c ∉ run := by
  intro hmem
  rw [hrun c hmem] at hc
  cases hc

theorem IsRun.not_mem (h : IsRun inClass run) (hc : inClass c = false) : c ∉ run :=
  not_mem_of_forall h.forall_mem hc

theorem isRun_takeWhile {t : Text} (h : t.takeWhile inClass ≠ []) :
    IsRun inClass (t.takeWhile inClass) :=
  ⟨h, List.all_eq_true.mp List.all_takeWhile⟩

theorem stops_nil : Stops inClass [] := by
  intro c hc
  cases hc

theorem stops_cons (hc : inClass c = false) (rest : Text) : Stops inClass (c :: rest) := by
  intro d hd
  rwa [← Option.some.inj hd]

theorem stops_dropWhile (inClass : Char -> Bool) (t : Text) :
    Stops inClass (t.dropWhile inClass) := by
  intro c hc
  have hhead := List.head?_dropWhile_not inClass t
  rwa [hc] at hhead

theorem stops_append_cons_iff {c : Char} (hc : inClass c = false) (more : Text) :
    Stops inClass (rest ++ c :: more) ↔ Stops inClass rest := by
  cases rest with
  | nil => exact iff_of_true (stops_cons hc more) stops_nil
  | cons d rest => rfl

theorem takeWhile_append_of_stops
    (hrun : forall c, c ∈ run -> inClass c = true)
    (hstops : Stops inClass rest) :
    (run ++ rest).takeWhile inClass = run := by
  rw [List.takeWhile_append_of_pos hrun]
  cases rest with
  | nil => rw [List.takeWhile_nil, List.append_nil]
  | cons c rest => rw [List.takeWhile_cons_of_neg (by simp [hstops c rfl]), List.append_nil]

theorem dropWhile_append_of_stops
    (hrun : forall c, c ∈ run -> inClass c = true)
    (hstops : Stops inClass rest) :
    (run ++ rest).dropWhile inClass = rest := by
  rw [List.dropWhile_append_of_pos hrun]
  cases rest with
  | nil => rw [List.dropWhile_nil]
  | cons c rest => rw [List.dropWhile_cons_of_neg (by simp [hstops c rfl])]

end CharClass
end AndroidStrings
