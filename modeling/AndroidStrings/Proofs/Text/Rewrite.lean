import AndroidStrings.Proofs.Text.Relaid

/-!
# Rewriting a text line by line

A text that begins and ends with markup is rewritten line by line, its first line in one way and
the others in another, with line endings of one sort.

## Main statements

- `relaid_rewriteLines` : a text that is rewritten is laid out anew.
- `rewriteLines_rewriteLines` : rewriting twice is rewriting once.
- `clean_rewriteLines` : a text that is rewritten has the line endings that it is given.
-/

namespace AndroidStrings
namespace Text

/-!
# Line endings of one sort
-/

/-- A text whose line breaks are all of the given sort; in a text with carriage returns any line
break may stand. -/
def Suits (ending : LineEnding) (t : Text) : Prop :=
  ending = .lf -> ¬ ['\r', '\n'] <:+: t

theorem Suits.of_isInfix
    {ending : LineEnding} {s t : Text}
    (h : Suits ending t)
    (hs : s <:+: t) :
    Suits ending s :=
  fun hlf hpart => h hlf (hpart.trans hs)

theorem getLast?_ne_of_withLines
    {first : Text} {rest : List Text}
    (h : ¬ ['\r', '\n'] <:+: withLines ['\n'] first rest)
    (hlast : (withLines ['\n'] first rest).getLast? ≠ some '\r') :
    forall line, line ∈ first :: rest -> line.getLast? ≠ some '\r' := by
  induction rest generalizing first with
  | nil =>
      intro line hline
      rw [List.mem_singleton.mp hline]
      simpa using hlast
  | cons other rest ih =>
      rw [withLines_cons] at h hlast
      have hrestLast : (withLines ['\n'] other rest).getLast? ≠ some '\r' := by
        intro hcon
        rw [List.getLast?_append, hcon] at hlast
        exact hlast rfl
      have hrest := ih (fun hpart => h (hpart.trans (List.suffix_append _ _).isInfix)) hrestLast
      intro line hline
      rcases List.mem_cons.mp hline with heq | hmem
      · rw [heq]
        intro hcon
        rcases List.getLast?_eq_some_iff.mp hcon with ⟨front, hfront⟩
        apply h
        exact ⟨front, withLines ['\n'] other rest, by rw [hfront]; simp⟩
      · exact hrest line hmem

/-!
# Writing lines twice
-/

/-- A text that begins and ends with markup. -/
def IsMarkup (t : Text) : Prop :=
  t.head? = some '<' ∧ t.getLast? = some '>'

/-- The lines of a text, the first one and the others written anew. -/
def rewriteLines (writeFirst write : Text -> Text) (ending : LineEnding) (t : Text) : Text :=
  match t.lines with
  | [] => []
  | first :: rest => withLines ending.text (writeFirst first) (rest.map write)

theorem rewriteLines_of_lines
    {writeFirst write : Text -> Text} {ending : LineEnding} {t first : Text} {rest : List Text}
    (h : t.lines = first :: rest) :
    rewriteLines writeFirst write ending t =
      withLines ending.text (writeFirst first) (rest.map write) := by
  simp only [rewriteLines, h]

/-- A way to write lines that needs to be done only once, and that leaves a line that ends with
markup so. -/
structure WritesOnce (write : Text -> Text) : Prop where
  twice : forall line : Text, write (write line) = write line
  feeds : forall line : Text, '\n' ∉ line -> '\n' ∉ write line
  returns : forall line : Text, line.getLast? ≠ some '\r' -> (write line).getLast? ≠ some '\r'

theorem exists_lines
    {t : Text}
    (h : IsMarkup t) :
    exists (first : Text) (rest : List Text),
      t = withLines ['\n'] first rest ∧
        t.lines = stripCarriageReturn first :: rest.map stripCarriageReturn ∧
        (forall line, line ∈ first :: rest -> '\n' ∉ line) ∧
        forall line, (first :: rest).getLast? = some line -> line.getLast? = some '>' := by
  rcases splitOn_spec t with ⟨first, rest, hsplit, ht, hfeeds⟩
  refine ⟨first, rest, ht, by simp [lines, hsplit], hfeeds, ?_⟩
  have hlast := h.2
  rw [ht] at hlast
  clear ht hsplit hfeeds h
  induction rest generalizing first with
  | nil =>
      intro line hline
      simp only [List.getLast?_singleton, Option.some.injEq] at hline
      rw [← hline]
      simpa using hlast
  | cons other rest ih =>
      rw [withLines_cons, List.getLast?_append] at hlast
      intro line hline
      rw [List.getLast?_cons_cons] at hline
      apply ih other _ line hline
      cases hmore : (withLines ['\n'] other rest).getLast? with
      | some c =>
          rw [hmore, Option.some_or] at hlast
          exact hlast
      | none =>
          rw [hmore] at hlast
          simp at hlast

theorem exists_return_append (line : Text) :
    exists tail : Text,
      line = stripCarriageReturn line ++ tail ∧ (forall c, c ∈ tail -> c = '\r') ∧
        (line.getLast? ≠ some '\r' -> tail = []) := by
  by_cases h : line.getLast? = some '\r'
  · rcases List.getLast?_eq_some_iff.mp h with ⟨front, rfl⟩
    refine ⟨['\r'], by rw [stripCarriageReturn_append_cr], ?_, fun hnot => absurd h hnot⟩
    intro c hc
    exact List.mem_singleton.mp hc
  · refine ⟨[], by rw [stripCarriageReturn_eq_self h, List.append_nil], ?_, fun _ => rfl⟩
    intro c hc
    simp at hc

theorem isWhite_of_returns
    {t : Text}
    (h : forall c, c ∈ t -> c = '\r') :
    IsWhite t := by
  intro c hc
  rw [h c hc]
  decide

theorem not_mem_stripCarriageReturn
    {line : Text} {c : Char}
    (h : c ∉ line) :
    c ∉ stripCarriageReturn line := by
  rcases exists_return_append line with ⟨tail, heq, _⟩
  intro hmem
  apply h
  rw [heq]
  exact List.mem_append_left _ hmem

/-- The lines of a text that is markup can be put together and read back. -/
theorem lines_spec
    {ending : LineEnding} {t : Text}
    (h : IsMarkup t)
    (hsuits : Suits ending t) :
    exists (first : Text) (rest : List Text),
      t.lines = first :: rest ∧ (forall line, line ∈ first :: rest -> '\n' ∉ line) ∧
        (ending = .lf -> forall line, line ∈ first :: rest -> line.getLast? ≠ some '\r') ∧
        forall line, (first :: rest).getLast? = some line -> line.getLast? ≠ some '\r' := by
  rcases exists_lines h with ⟨first, rest, ht, hlines, hfeeds, hlast⟩
  refine ⟨_, _, hlines, ?_, ?_, ?_⟩
  · intro line hline
    rw [← List.map_cons, List.mem_map] at hline
    rcases hline with ⟨piece, hpiece, heq⟩
    rw [← heq]
    exact not_mem_stripCarriageReturn (hfeeds piece hpiece)
  · intro hlf line hline
    have hnone := hsuits hlf
    rw [ht] at hnone
    have htail : (withLines ['\n'] first rest).getLast? ≠ some '\r' := by
      rw [← ht, h.2]
      simp
    rw [← List.map_cons, List.mem_map] at hline
    rcases hline with ⟨piece, hpiece, heq⟩
    have hend := getLast?_ne_of_withLines hnone htail piece hpiece
    rw [← heq, stripCarriageReturn_eq_self hend]
    exact hend
  · intro line hline
    rw [← List.map_cons, List.getLast?_map, Option.map_eq_some_iff] at hline
    rcases hline with ⟨piece, hpiece, heq⟩
    have hend : piece.getLast? ≠ some '\r' := by
      rw [hlast piece hpiece]
      simp
    rw [← heq, stripCarriageReturn_eq_self hend]
    exact hend

theorem lines_rewriteLines
    {writeFirst write : Text -> Text} {ending : LineEnding} {t first : Text} {rest : List Text}
    (hmarkup : IsMarkup t)
    (hsuits : Suits ending t)
    (hfirst : WritesOnce writeFirst)
    (hwrite : WritesOnce write)
    (hlines : t.lines = first :: rest) :
    (rewriteLines writeFirst write ending t).lines = writeFirst first :: rest.map write := by
  rcases lines_spec hmarkup hsuits with ⟨first', rest', hlines', hfeeds, hreturns, hlast⟩
  rw [hlines, List.cons.injEq] at hlines'
  rw [← hlines'.1, ← hlines'.2] at hfeeds hreturns hlast
  rw [rewriteLines_of_lines hlines]
  apply lines_withLines
  · intro line hline
    rcases List.mem_cons.mp hline with heq | hmem
    · rw [heq]
      exact hfirst.feeds first (hfeeds first (by simp))
    · rcases List.mem_map.mp hmem with ⟨old, hold, heq⟩
      rw [← heq]
      exact hwrite.feeds old (hfeeds old (List.mem_cons_of_mem _ hold))
  · intro hlf line hline
    rcases List.mem_cons.mp hline with heq | hmem
    · rw [heq]
      exact hfirst.returns first (hreturns hlf first (by simp))
    · rcases List.mem_map.mp hmem with ⟨old, hold, heq⟩
      rw [← heq]
      exact hwrite.returns old (hreturns hlf old (List.mem_cons_of_mem _ hold))
  · intro line hline
    cases rest with
    | nil =>
        simp only [List.map_nil, List.getLast?_singleton, Option.some.injEq] at hline
        rw [← hline]
        exact hfirst.returns first (hlast first rfl)
    | cons other rest =>
        rw [List.map_cons, List.getLast?_cons_cons, ← List.map_cons, List.getLast?_map,
          Option.map_eq_some_iff] at hline
        rcases hline with ⟨old, hold, heq⟩
        rw [← heq]
        apply hwrite.returns old
        apply hlast old
        rw [List.getLast?_cons_cons]
        exact hold

theorem rewriteLines_rewriteLines
    {writeFirst write : Text -> Text} {ending : LineEnding} {t : Text}
    (hmarkup : IsMarkup t)
    (hsuits : Suits ending t)
    (hfirst : WritesOnce writeFirst)
    (hwrite : WritesOnce write) :
    rewriteLines writeFirst write ending (rewriteLines writeFirst write ending t) =
      rewriteLines writeFirst write ending t := by
  rcases lines_spec hmarkup hsuits with ⟨first, rest, hlines, _⟩
  have hagain := lines_rewriteLines hmarkup hsuits hfirst hwrite hlines
  have hmap : (rest.map write).map write = rest.map write := by
    rw [List.map_map]
    apply List.map_congr_left
    intro line _
    exact hwrite.twice line
  rw [rewriteLines_of_lines hagain, rewriteLines_of_lines hlines, hmap, hfirst.twice]

/-- A way to write the first line of a text that is markup: only white space at its end goes. -/
def KeepsFront (write : Text -> Text) : Prop :=
  forall line : Text, line.head? = some '<' ->
    exists core tail tail' : Text,
      line = core ++ tail ∧ write line = core ++ tail' ∧ IsWhite tail ∧ IsWhite tail' ∧
        (line.getLast? = some '>' -> tail = [] ∧ tail' = [])

theorem head?_of_withLines
    {first : Text} {rest : List Text}
    (h : (withLines ['\n'] first rest).head? = some '<') :
    first.head? = some '<' := by
  cases first with
  | nil => cases rest <;> simp [withLines] at h
  | cons c first => exact h

theorem head?_stripCarriageReturn
    {line : Text}
    (h : line.head? = some '<') :
    (stripCarriageReturn line).head? = some '<' := by
  rcases exists_return_append line with ⟨cr, hcr, hreturns, _⟩
  rw [hcr] at h
  cases hstripped : stripCarriageReturn line with
  | cons c rest =>
      rw [hstripped] at h
      exact h
  | nil =>
      rw [hstripped, List.nil_append] at h
      have hbad := hreturns '<' (List.mem_of_head? h)
      simp at hbad

/-- The first line of a text that is markup is kept up to its end, when nothing is trimmed there. -/
theorem exists_front_of_rewriteLines
    {writeFirst write : Text -> Text} {t : Text}
    (ending : LineEnding)
    (hmarkup : IsMarkup t)
    (hfirst : forall line : Text, line.head? = some '<' -> writeFirst line = line) :
    exists front back back' : Text,
      t = front ++ back ∧ rewriteLines writeFirst write ending t = front ++ back' ∧
        ((back = [] ∧ back' = []) ∨
          (back.head? = some '\r' ∨ back.head? = some '\n') ∧
            (back'.head? = some '\r' ∨ back'.head? = some '\n')) := by
  rcases exists_lines hmarkup with ⟨first, rest, ht, hlines, _, hlast⟩
  rcases exists_return_append first with ⟨cr, hcr, hreturns, hcrNone⟩
  have hkeep := hfirst _ (head?_stripCarriageReturn (head?_of_withLines (ht ▸ hmarkup.1)))
  refine ⟨stripCarriageReturn first, cr ++ rest.flatMap (['\n'] ++ ·),
    ((rest.map stripCarriageReturn).map write).flatMap (ending.text ++ ·), ?_, ?_, ?_⟩
  · rw [← List.append_assoc, ← hcr]
    exact ht
  · rw [rewriteLines_of_lines hlines, hkeep]
    rfl
  · cases rest with
    | nil =>
        have hend := hlast first rfl
        refine .inl ⟨?_, rfl⟩
        rw [hcrNone (by rw [hend]; simp)]
        rfl
    | cons line rest =>
        refine .inr ⟨?_, ?_⟩
        · cases hreturn : cr with
          | nil => exact .inr rfl
          | cons c cr =>
              left
              rw [hreturn] at hreturns
              rw [List.cons_append, List.head?_cons, hreturns c (by simp)]
        · cases ending with
          | lf => exact .inr rfl
          | crlf => exact .inl rfl

/-- Writing lines in ways that keep their words lays a text out anew. -/
theorem relaid_rewriteLines
    {writeFirst write : Text -> Text} {t : Text}
    (ending : LineEnding)
    (hmarkup : IsMarkup t)
    (hfirst : KeepsFront writeFirst)
    (hwrite : KeepsWords write) :
    Relaid t (rewriteLines writeFirst write ending t) := by
  rcases exists_lines hmarkup with ⟨first, rest, ht, hlines, hfeeds, hlast⟩
  have hstrip : KeepsWords (fun line => write (stripCarriageReturn line)) := by
    intro line
    rcases exists_return_append line with ⟨cr, hcr, hreturns, hcrNone⟩
    have hcrWhite := isWhite_of_returns hreturns
    rcases hwrite (stripCarriageReturn line) with ⟨lead, core, tail, lead', tail', hline, hnew,
      hlead, htail, hlead', htail', hnone⟩
    refine ⟨lead, core, tail ++ cr, lead', tail', ?_, hnew, hlead, htail.append hcrWhite, hlead',
      htail', ?_⟩
    · rw [← List.append_assoc, ← hline]
      exact hcr
    · intro hend
      have hnil : cr = [] := by
        apply hcrNone
        intro hcon
        exact absurd (hend '\r' hcon) (by decide)
      rw [hnil, List.append_nil] at hcr
      rw [hnil, List.append_nil]
      apply hnone
      rw [← hcr]
      exact hend
  rcases exists_return_append first with ⟨cr, hcr, hreturns, hcrNone⟩
  have hcrWhite := isWhite_of_returns hreturns
  have hhead := head?_stripCarriageReturn (head?_of_withLines (ht ▸ hmarkup.1))
  rcases hfirst _ hhead with ⟨core, tail, tail', hline, hnew, htail, htail', hnone⟩
  have hsplit : first = core ++ (tail ++ cr) := by
    rw [← List.append_assoc, ← hline]
    exact hcr
  have hrest : rest = [] -> tail ++ cr = tail' := by
    intro hnil
    have hend := hlast first (by rw [hnil]; rfl)
    have hcrNil : cr = [] := by
      apply hcrNone
      rw [hend]
      simp
    rw [hcrNil, List.append_nil] at hcr
    rw [hcr] at hend
    rw [(hnone hend).1, (hnone hend).2, hcrNil]
    rfl
  have hend := hmarkup.2
  rw [rewriteLines_of_lines hlines, List.map_map, hnew]
  rw [ht, hsplit] at hend ⊢
  exact relaid_withLines ending hstrip (htail.append hcrWhite) htail' hrest hend (by decide)

/-!
# Texts that can be followed by a line feed
-/

/-- A text that suits, and goes on suiting when something is written behind it. -/
def Clean (ending : LineEnding) (t : Text) : Prop :=
  Suits ending t ∧ (ending = .lf -> t.getLast? ≠ some '\r')

theorem Clean.append
    {ending : LineEnding} {s t : Text}
    (hs : Clean ending s)
    (ht : Clean ending t) :
    Clean ending (s ++ t) := by
  constructor
  · intro hlf hpart
    rcases hpart with ⟨front, back, heq⟩
    rw [List.append_assoc] at heq
    rcases List.append_eq_append_iff.mp heq with ⟨middle, hleft, hright⟩ | ⟨middle, hleft, hright⟩
    · cases middle with
      | nil => exact ht.1 hlf ⟨[], back, by rw [List.nil_append]; exact hright⟩
      | cons c middle =>
          simp only [List.cons_append, List.cons.injEq] at hright
          cases middle with
          | nil =>
              -- The carriage return would end the first text.
              apply hs.2 hlf
              rw [hleft, List.getLast?_concat, ← hright.1]
          | cons d middle =>
              simp only [List.cons_append, List.cons.injEq] at hright
              apply hs.1 hlf
              exact ⟨front, middle, by rw [hleft, ← hright.1, ← hright.2.1]; simp⟩
    · apply ht.1 hlf
      exact ⟨middle, back, by rw [hright, List.append_assoc]⟩
  · intro hlf
    rw [List.getLast?_append]
    cases hlast : t.getLast? with
    | none => exact hs.2 hlf
    | some c =>
        rw [Option.some_or]
        rw [← hlast]
        exact ht.2 hlf

theorem clean_nil (ending : LineEnding) : Clean ending [] := by
  constructor
  · intro _ hpart
    simp at hpart
  · simp

theorem Clean.flatMap
    {ending : LineEnding} {α : Type} {write : α -> Text} {items : List α}
    (h : forall item, item ∈ items -> Clean ending (write item)) :
    Clean ending (items.flatMap write) := by
  induction items with
  | nil => exact clean_nil ending
  | cons item items ih =>
      exact (h item (by simp)).append (ih (List.forall_mem_cons.mp h).2)

theorem clean_ending (ending : LineEnding) : Clean ending ending.text := by
  cases ending with
  | lf => exact ⟨fun _ => by decide, fun _ => by decide⟩
  | crlf => exact ⟨fun h => by simp at h, fun h => by simp at h⟩

theorem clean_of_not_mem
    {ending : LineEnding} {line : Text}
    (hfeed : '\n' ∉ line)
    (hreturn : ending = .lf -> line.getLast? ≠ some '\r') :
    Clean ending line := by
  constructor
  · intro _ hpart
    exact hfeed (hpart.subset (by simp))
  · exact hreturn

theorem clean_of_isInfix
    {ending : LineEnding} {s t : Text}
    (h : Suits ending t)
    (hs : s <:+: t)
    (hlast : s.getLast? ≠ some '\r') :
    Clean ending s :=
  ⟨h.of_isInfix hs, fun _ => hlast⟩

theorem clean_rewriteLines
    {writeFirst write : Text -> Text} {ending : LineEnding} {t : Text}
    (hmarkup : IsMarkup t)
    (hsuits : Suits ending t)
    (hfirst : WritesOnce writeFirst)
    (hwrite : WritesOnce write) :
    Clean ending (rewriteLines writeFirst write ending t) := by
  rcases lines_spec hmarkup hsuits with ⟨first, rest, hlines, hfeeds, hreturns, _⟩
  rw [rewriteLines_of_lines hlines, withLines]
  apply Clean.append
  · exact clean_of_not_mem (hfirst.feeds first (hfeeds first (by simp)))
      (fun hlf => hfirst.returns first (hreturns hlf first (by simp)))
  · apply Clean.flatMap
    intro line hline
    rcases List.mem_map.mp hline with ⟨old, hold, heq⟩
    have hmem : old ∈ first :: rest := List.mem_cons_of_mem _ hold
    rw [← heq]
    exact (clean_ending ending).append (clean_of_not_mem (hwrite.feeds old (hfeeds old hmem))
      (fun hlf => hwrite.returns old (hreturns hlf old hmem)))

theorem contains_iff_isInfix {t sub : Text} : contains t sub = true ↔ sub <:+: t := by
  induction t with
  | nil => simp [contains]
  | cons c t ih => simp [contains, ih, List.infix_cons_iff]

theorem suits_detect (t : Text) : Suits (LineEnding.detect t) t := by
  intro hlf hpart
  rw [LineEnding.detect, if_pos (contains_iff_isInfix.mpr hpart)] at hlf
  simp at hlf

end Text
end AndroidStrings
