import AndroidStrings.Text.Basic

/-!
# Searching and cutting a text

Prefix and substring tests, replacement of every occurrence, lines, and trimming by a class of
characters.
-/

namespace AndroidStrings
namespace Text

def startsWith (t : Text) (front : Text) : Bool :=
  front.isPrefixOf t

def endsWith (t : Text) (back : Text) : Bool :=
  back.isSuffixOf t

/-- What follows `front`, when the text begins with it. -/
def stripPrefix? (front t : Text) : Option Text :=
  if front.isPrefixOf t then some (t.drop front.length) else none

theorem append_of_stripPrefix? {front t rest : Text} (h : stripPrefix? front t = some rest) :
    t = front ++ rest := by
  unfold stripPrefix? at h
  split at h
  · rename_i hfront
    obtain ⟨after, hafter⟩ := List.isPrefixOf_iff_prefix.mp hfront
    simp only [Option.some.injEq] at h
    rw [← h, ← hafter]
    simp
  · simp at h

theorem stripPrefix?_eq_some_iff {front t rest : Text} :
    stripPrefix? front t = some rest ↔ t = front ++ rest := by
  constructor
  · exact append_of_stripPrefix?
  · rintro rfl
    rw [stripPrefix?, if_pos (List.isPrefixOf_iff_prefix.mpr (List.prefix_append front rest)),
      List.drop_left]

/-- Whether the second text occurs in the first one. -/
def contains : Text → Text → Bool
  | [], sub => sub.isEmpty
  | c :: t, sub => sub.isPrefixOf (c :: t) || contains t sub

/-- Replaces every occurrence of a pattern from left to right; occurrences do not overlap, and
an empty pattern occurs nowhere. -/
def replaceAll (pattern replacement : Text) : Text → Text
  | [] => []
  | c :: t =>
      if pattern.isEmpty = false ∧ pattern.isPrefixOf (c :: t) then
        replacement ++ replaceAll pattern replacement (t.drop (pattern.length - 1))
      else
        c :: replaceAll pattern replacement t
termination_by t => t.length
decreasing_by
  · simp only [List.length_drop, List.length_cons]
    omega
  · simp

/-- Cuts a text at the first occurrence of a nonempty closing text, which belongs to neither
part. -/
def cutAt? (closing : Text) : Text → Option (Text × Text)
  | [] => none
  | c :: t =>
      if closing.isPrefixOf (c :: t) then some ([], (c :: t).drop closing.length)
      else (cutAt? closing t).map fun parts => (c :: parts.1, parts.2)

theorem append_of_cutAt? {closing t front back : Text}
    (h : cutAt? closing t = some (front, back)) : t = front ++ closing ++ back := by
  induction t generalizing front with
  | nil => simp [cutAt?] at h
  | cons c t ih =>
      simp only [cutAt?] at h
      split at h
      · rename_i hfront
        obtain ⟨rest, hrest⟩ := List.isPrefixOf_iff_prefix.mp hfront
        simp only [Option.some.injEq, Prod.mk.injEq] at h
        rw [← h.1, ← h.2, ← hrest]
        simp
      · obtain ⟨parts, hparts, heq⟩ := Option.map_eq_some_iff.mp h
        simp only [Prod.mk.injEq] at heq
        have hcut : t = parts.1 ++ closing ++ back := ih (by rw [hparts, ← heq.2])
        rw [← heq.1, hcut]
        simp

/-- The parts between the separators: one more than there are separators. -/
def splitOn {α : Type} [DecidableEq α] (separator : α) : List α → List (List α)
  | [] => [[]]
  | c :: t =>
      if c = separator then [] :: splitOn separator t
      else
        match splitOn separator t with
        | [] => [[c]]
        | part :: parts => (c :: part) :: parts

def joinWith (separator : Text) : List Text → Text
  | [] => []
  | [t] => t
  | t :: rest => t ++ separator ++ joinWith separator rest

/-!
## Trimming
-/

def trimStart (blank : Char → Bool) (t : Text) : Text :=
  t.dropWhile blank

def trimEnd (blank : Char → Bool) : Text → Text
  | [] => []
  | c :: t =>
      match trimEnd blank t with
      | [] => if blank c then [] else [c]
      | rest => c :: rest

def trim (blank : Char → Bool) (t : Text) : Text :=
  trimEnd blank (trimStart blank t)

/-- Spaces and tabs only. -/
def isBlank (t : Text) : Bool :=
  t.all fun c => c == ' ' || c == '\t'

/-!
## Lines

A line ends at a line feed; a carriage return right before it belongs to the line's end.
-/

def stripCarriageReturn (t : Text) : Text :=
  if t.getLast? = some '\r' then t.dropLast else t

def lines (t : Text) : List Text :=
  (splitOn '\n' t).map stripCarriageReturn

end Text
end AndroidStrings
