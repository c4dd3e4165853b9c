import AndroidStrings.Document.Basic
import AndroidStrings.Proofs.Text.Trim

/-!
# Lines of a text

A text is its lines put together again.  A carriage return at the end of a line is taken for a
part of the line ending, so it is told from the line only where the endings are known.

## Main statement

`lines_withLines` : lines that are put together are read back.
-/

namespace AndroidStrings
namespace Text

/-- Lines with an ending between them. -/
def withLines (ending first : Text) (rest : List Text) : Text :=
  first ++ rest.flatMap (ending ++ ·)

@[simp] theorem withLines_nil (ending first : Text) : withLines ending first [] = first := by
  simp [withLines]

theorem withLines_cons (ending first line : Text) (rest : List Text) :
    withLines ending first (line :: rest) = first ++ ending ++ withLines ending line rest := by
  simp [withLines]

/-!
# Splitting at line feeds
-/

theorem splitOn_of_not_mem
    {line : Text}
    (h : '\n' ∉ line) :
    splitOn '\n' line = [line] := by
  induction line with
  | nil => rfl
  | cons c line ih =>
      have hc : c ≠ '\n' := by
        intro heq
        exact h (by simp [heq])
      simp [splitOn, hc, ih (fun hmem => h (List.mem_cons_of_mem _ hmem))]

theorem splitOn_append
    {line : Text}
    (h : '\n' ∉ line)
    (t : Text) :
    splitOn '\n' (line ++ '\n' :: t) = line :: splitOn '\n' t := by
  induction line with
  | nil => simp [splitOn]
  | cons c line ih =>
      have hc : c ≠ '\n' := by
        intro heq
        exact h (by simp [heq])
      simp [splitOn, hc, ih (fun hmem => h (List.mem_cons_of_mem _ hmem))]

theorem splitOn_spec (t : Text) :
    exists (first : Text) (rest : List Text),
      splitOn '\n' t = first :: rest ∧ t = withLines ['\n'] first rest ∧
        forall line, line ∈ first :: rest -> '\n' ∉ line := by
  induction t with
  | nil => exact ⟨[], [], rfl, rfl, by simp⟩
  | cons c t ih =>
      rcases ih with ⟨first, rest, hsplit, ht, hlines⟩
      by_cases hc : c = '\n'
      · refine ⟨[], first :: rest, ?_, ?_, ?_⟩
        · simp [splitOn, hc, hsplit]
        · rw [withLines_cons, ← ht, hc]
          rfl
        · intro line hline
          rcases List.mem_cons.mp hline with heq | hrest
          · simp [heq]
          · exact hlines line hrest
      · refine ⟨c :: first, rest, ?_, ?_, ?_⟩
        · simp [splitOn, hc, hsplit]
        · rw [ht]
          rfl
        · intro line hline
          rcases List.mem_cons.mp hline with heq | hrest
          · rw [heq]
            intro hmem
            rcases List.mem_cons.mp hmem with heq' | hmem'
            · exact hc heq'.symm
            · exact hlines first (by simp) hmem'
          · exact hlines line (List.mem_cons_of_mem _ hrest)

/-!
# Carriage returns
-/

theorem stripCarriageReturn_append_cr (line : Text) :
    stripCarriageReturn (line ++ ['\r']) = line := by
  simp [stripCarriageReturn]

theorem stripCarriageReturn_eq_self
    {line : Text}
    (h : line.getLast? ≠ some '\r') :
    stripCarriageReturn line = line := by
  simp [stripCarriageReturn, h]

/-- Lines put together are read back, if a carriage return at the end of one of them is not taken
for a part of the ending. -/
theorem lines_withLines
    {ending : LineEnding} {first : Text} {rest : List Text}
    (hfeeds : forall line, line ∈ first :: rest -> '\n' ∉ line)
    (hreturns : ending = .lf -> forall line, line ∈ first :: rest -> line.getLast? ≠ some '\r')
    (hlast : forall line, (first :: rest).getLast? = some line -> line.getLast? ≠ some '\r') :
    lines (withLines ending.text first rest) = first :: rest := by
  induction rest generalizing first with
  | nil =>
      rw [withLines_nil, lines, splitOn_of_not_mem (hfeeds first (by simp))]
      simp [stripCarriageReturn_eq_self (hlast first rfl)]
  | cons line rest ih =>
      have hrest : lines (withLines ending.text line rest) = line :: rest := by
        apply ih
        · intro other hother
          exact hfeeds other (List.mem_cons_of_mem _ hother)
        · intro hlf other hother
          exact hreturns hlf other (List.mem_cons_of_mem _ hother)
        · intro other hother
          exact hlast other (by rw [List.getLast?_cons_cons]; exact hother)
      have hfirst := hfeeds first (by simp)
      rw [withLines_cons]
      cases ending with
      | lf =>
          have hreturn := hreturns rfl first (by simp)
          rw [lines] at hrest ⊢
          rw [show LineEnding.lf.text = ['\n'] from rfl] at hrest ⊢
          rw [List.append_assoc, List.singleton_append, splitOn_append hfirst, List.map_cons,
            hrest, stripCarriageReturn_eq_self hreturn]
      | crlf =>
          have hfirst' : '\n' ∉ first ++ ['\r'] := by
            simp [hfirst]
          rw [lines] at hrest ⊢
          rw [show LineEnding.crlf.text = ['\r'] ++ ['\n'] from rfl] at hrest ⊢
          rw [← List.append_assoc first, List.append_assoc (first ++ ['\r']),
            List.singleton_append, splitOn_append hfirst', List.map_cons, hrest,
            stripCarriageReturn_append_cr]

end Text
end AndroidStrings
