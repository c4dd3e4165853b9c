import AndroidStrings.Document.Basic
import AndroidStrings.Document.Line
import AndroidStrings.Markup.Event
import AndroidStrings.Proofs.Text.Trim

/-!
# Lines with nothing but one piece

A piece that has its line to itself takes with it the blanks before it and, behind it, the blanks
and the end of the line.  Nothing else goes with it.

## Main statements

- `exists_lineExtent` : the extent of a piece is the piece with its margins.
- `lineExtent_ownLine` : the extent of a piece on a line of its own is the line.
-/

namespace AndroidStrings
namespace Text

open Markup (isSpace)

theorem takeBytes_size (front back : Text) : takeBytes front.size (front ++ back) = front := by
  have htake := takeBytes_size_add front back 0
  rwa [Nat.add_zero, takeBytes_zero, List.append_nil] at htake

theorem dropBytes_size (front back : Text) : dropBytes front.size (front ++ back) = back := by
  have hdrop := dropBytes_size_add front back 0
  rwa [Nat.add_zero, dropBytes_zero] at hdrop

theorem lastLine_append
    {line : Text}
    (h : '\n' ∉ line)
    (t : Text) :
    (t ++ line).lastLine = t.lastLine ++ line := by
  have hline : forall c, c ∈ line.reverse -> (c != '\n') = true := by
    intro c hc
    rw [bne_iff_ne]
    rintro rfl
    exact h (List.mem_reverse.mp hc)
  rw [lastLine, lastLine, List.reverse_append, List.takeWhile_append_of_pos hline,
    List.reverse_append, List.reverse_reverse]

/-- What stands before the last line ends with a line feed, if anything does. -/
theorem exists_append_lastLine (t : Text) :
    exists kept : Text,
      t = kept ++ t.lastLine ∧ (kept = [] ∨ kept.getLast? = some '\n') := by
  refine ⟨(t.reverse.dropWhile (· != '\n')).reverse, ?_, ?_⟩
  · rw [lastLine, ← List.reverse_append, List.takeWhile_append_dropWhile, List.reverse_reverse]
  · have hhead := List.head?_dropWhile_not (fun c => c != '\n') t.reverse
    rw [List.getLast?_reverse]
    cases hkept : t.reverse.dropWhile (· != '\n') with
    | nil => exact .inl rfl
    | cons c kept =>
        rw [hkept] at hhead
        exact .inr (by simpa using hhead)

theorem lastLine_eq_nil
    {t : Text}
    (h : t = [] ∨ t.getLast? = some '\n') :
    t.lastLine = [] := by
  rw [lastLine, List.reverse_eq_nil_iff]
  rcases h with rfl | hlast
  · rfl
  · rw [← List.head?_reverse] at hlast
    cases hreverse : t.reverse with
    | nil => rfl
    | cons c rest =>
        rw [hreverse, List.head?_cons, Option.some.injEq] at hlast
        rw [List.takeWhile_cons_of_neg (by simp [hlast])]

theorem ends_of_lastLine_eq_nil
    {t : Text}
    (h : t.lastLine = []) :
    t = [] ∨ t.getLast? = some '\n' := by
  rcases exists_append_lastLine t with ⟨kept, hkept, hend⟩
  rw [h, List.append_nil] at hkept
  rwa [hkept]

theorem all_isSpace_of_isBlank
    {t : Text}
    (h : t.isBlank = true) :
    t.all isSpace = true := by
  rw [isBlank, List.all_eq_true] at h
  rw [List.all_eq_true]
  intro c hc
  have hblank := h c hc
  rw [Bool.or_eq_true] at hblank
  rcases hblank with hspace | htab
  · simp [isSpace, hspace]
  · simp [isSpace, htab]

/-- Only blanks stand between the start of a line and a place that starts it. -/
theorem exists_lineStart_append
    {front back : Text}
    (h : (front ++ back).startsLine front.size = true) :
    exists kept blank : Text,
      front = kept ++ blank ∧ kept.lastLine = [] ∧ blank.isBlank = true ∧
        (front ++ back).lineStart front.size = kept.size := by
  rw [startsLine, takeBytes_size] at h
  rcases exists_append_lastLine front with ⟨kept, hkept, hend⟩
  refine ⟨kept, front.lastLine, hkept, lastLine_eq_nil hend, h, ?_⟩
  have hsize := congrArg size hkept
  rw [size_append] at hsize
  rw [lineStart, takeBytes_size]
  omega

/-- The rest of a line that nothing stands on, and the text behind it: blanks up to the end of the
text, or blanks and carriage returns up to the line feed. -/
inductive IsLineRest : Text -> Text -> Prop where
  | last {blank : Text} :
      blank.isBlank = true ->
      IsLineRest blank []
  | feed {blank returns : Text} (rest : Text) :
      blank.isBlank = true ->
      returns.all (· == '\r') = true ->
      IsLineRest (blank ++ returns ++ ['\n']) rest

theorem IsLineRest.all_isSpace
    {line rest : Text}
    (h : IsLineRest line rest) :
    line.all isSpace = true := by
  cases h with
  | last hblank => exact all_isSpace_of_isBlank hblank
  | feed rest hblank hreturns =>
      rename_i blank returns
      have hall : returns.all isSpace = true := by
        rw [List.all_eq_true] at hreturns ⊢
        intro c hc
        have hreturn := hreturns c hc
        rw [beq_iff_eq] at hreturn
        rw [hreturn]
        rfl
      rw [List.all_append, List.all_append, all_isSpace_of_isBlank hblank, hall]
      rfl

/-- The blank rest of a line ends with its line feed, or where the text does. -/
theorem IsLineRest.ends
    {line rest : Text}
    (h : IsLineRest line rest) :
    rest = [] ∨ line.getLast? = some '\n' := by
  cases h with
  | last hblank => exact .inl rfl
  | feed rest hblank hreturns => exact .inr List.getLast?_concat

theorem exists_lineRest_of_blankLineRest?
    {rest : Text} {length : Nat}
    (h : blankLineRest? rest = some length) :
    exists line kept : Text,
      rest = line ++ kept ∧ length = line.size ∧ IsLineRest line kept := by
  have hsplit : rest.takeWhile (· != '\n') ++ rest.dropWhile (· != '\n') = rest :=
    List.takeWhile_append_dropWhile
  unfold blankLineRest? at h
  simp only at h
  split at h
  · rename_i hnil
    split at h
    · rename_i hblank
      rw [hnil, List.append_nil] at hsplit
      rw [hsplit] at hblank h
      exact ⟨rest, [], by simp, (Option.some.inj h).symm, .last hblank⟩
    · simp at h
  · rename_i feed kept hcons
    split at h
    · rename_i hblank
      have hfeed : feed = '\n' := by
        have hhead := List.head?_dropWhile_not (fun c => c != '\n') rest
        rw [hcons] at hhead
        simpa using hhead
      rcases exists_trimEnd_append (· == '\r') (rest.takeWhile (· != '\n')) with
        ⟨returns, hline, hreturns⟩
      rw [hcons, hfeed, hline] at hsplit
      rw [hline] at h
      refine ⟨_, kept, ?_, ?_, .feed kept hblank (List.all_eq_true.mpr hreturns)⟩
      · rw [List.append_assoc]
        exact hsplit.symm
      · rw [size_append]
        exact (Option.some.inj h).symm
    · simp at h

/-- A line starts behind a line feed, or where the text does. -/
theorem exists_lineStart (front back : Text) :
    exists kept line : Text,
      front = kept ++ line ∧ (front ++ back).lineStart front.size = kept.size ∧
        (kept = [] ∨ kept.getLast? = some '\n') := by
  rcases exists_append_lastLine front with ⟨kept, hkept, hend⟩
  refine ⟨kept, front.lastLine, hkept, ?_, hend⟩
  have hsize := congrArg size hkept
  rw [size_append] at hsize
  rw [lineStart, takeBytes_size]
  omega

/-- What goes with a piece that is taken out of a text, before it and behind it: nothing, or the
blanks before it and the rest of its line, when it has the line to itself. -/
inductive IsMargin : Text -> Text -> Text -> Text -> Prop where
  | none (kept rest : Text) :
      IsMargin kept [] [] rest
  | line {kept before behind rest : Text} :
      kept = [] ∨ kept.getLast? = some '\n' ->
      before.isBlank = true ->
      IsLineRest behind rest ->
      IsMargin kept before behind rest

theorem IsMargin.all_isSpace
    {kept before behind rest : Text}
    (h : IsMargin kept before behind rest) :
    before.all isSpace = true ∧ behind.all isSpace = true := by
  cases h with
  | none => exact ⟨rfl, rfl⟩
  | line hkept hbefore hbehind => exact ⟨all_isSpace_of_isBlank hbefore, hbehind.all_isSpace⟩

/-- The extent of a piece is the piece with its margins. -/
theorem exists_lineExtent (front piece back : Text) :
    exists kept before behind rest : Text,
      front = kept ++ before ∧ back = behind ++ rest ∧ IsMargin kept before behind rest ∧
        (front ++ piece ++ back).lineExtent ⟨front.size, front.size + piece.size⟩ =
          ⟨kept.size, kept.size + (before ++ piece ++ behind).size⟩ := by
  have halone : exists kept before behind rest : Text,
      front = kept ++ before ∧ back = behind ++ rest ∧ IsMargin kept before behind rest ∧
        (⟨front.size, front.size + piece.size⟩ : Span) =
          ⟨kept.size, kept.size + (before ++ piece ++ behind).size⟩ :=
    ⟨front, [], [], back, by simp, by simp, .none front back, by simp⟩
  have hbehind : dropBytes (front.size + piece.size) (front ++ piece ++ back) = back := by
    rw [← size_append, dropBytes_size]
  unfold lineExtent
  simp only [hbehind]
  by_cases hstarts : (front ++ piece ++ back).startsLine front.size = true
  · rw [if_pos hstarts]
    cases hrest : blankLineRest? back with
    | none => exact halone
    | some length =>
        rw [List.append_assoc] at hstarts ⊢
        rcases exists_lineStart_append hstarts with ⟨kept, before, hfront, hlast, hblank, hstart⟩
        rcases exists_lineRest_of_blankLineRest? hrest with ⟨behind, rest, hback, hlength, hline⟩
        refine ⟨kept, before, behind, rest, hfront, hback,
          .line (ends_of_lastLine_eq_nil hlast) hblank hline, ?_⟩
        have hsize := congrArg size hfront
        simp only [size_append] at hsize
        simp only [hstart, hlength, size_append, Span.mk.injEq, true_and]
        omega
  · rw [if_neg hstarts]
    exact halone

/-- The second text is the first one without a piece of it and its margins. -/
def CutsOut (piece old new : Text) : Prop :=
  exists kept before behind rest : Text,
    old = kept ++ before ++ piece ++ behind ++ rest ∧ new = kept ++ rest ∧
      IsMargin kept before behind rest

/-!
# Lines of their own
-/

theorem blankLineRest?_ending (ending : LineEnding) (back : Text) :
    blankLineRest? (ending.text ++ back) = some ending.text.size := by
  cases ending <;> rfl

/-- The extent of a piece on a line of its own is the line, with its ending. -/
theorem lineExtent_ownLine
    {kept indent : Text}
    (hkept : kept.lastLine = [])
    (hindent : indent.isBlank = true)
    (piece : Text) (ending : LineEnding) (back : Text) :
    (kept ++ indent ++ piece ++ (ending.text ++ back)).lineExtent
        ⟨(kept ++ indent).size, (kept ++ indent).size + piece.size⟩ =
      ⟨kept.size, kept.size + (indent ++ piece ++ ending.text).size⟩ := by
  have hfeed : '\n' ∉ indent := by
    intro hmem
    exact absurd (List.all_eq_true.mp hindent '\n' hmem) (by decide)
  have hfront : takeBytes (kept ++ indent).size
      (kept ++ indent ++ piece ++ (ending.text ++ back)) = kept ++ indent := by
    rw [List.append_assoc (kept ++ indent), takeBytes_size]
  have hline : (kept ++ indent).lastLine = indent := by
    rw [lastLine_append hfeed, hkept, List.nil_append]
  have hstarts : (kept ++ indent ++ piece ++ (ending.text ++ back)).startsLine
      (kept ++ indent).size = true := by
    rw [startsLine, hfront, hline]
    exact hindent
  have hstart : (kept ++ indent ++ piece ++ (ending.text ++ back)).lineStart
      (kept ++ indent).size = kept.size := by
    rw [lineStart, hfront, hline, size_append, Nat.add_sub_cancel]
  have hbehind : dropBytes ((kept ++ indent).size + piece.size)
      (kept ++ indent ++ piece ++ (ending.text ++ back)) = ending.text ++ back := by
    rw [← size_append, dropBytes_size]
  unfold lineExtent
  rw [if_pos hstarts]
  simp only [hbehind, blankLineRest?_ending, hstart]
  simp only [size_append, Span.mk.injEq, true_and]
  omega

end Text
end AndroidStrings
