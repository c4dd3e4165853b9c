import AndroidStrings.Proofs.Text.Rewrite

/-!
# Elements and comments as they are written

Sorting writes elements and comments line by line.  What it writes is the old text laid out anew,
and writing it once more changes nothing.

## Main statements

- `relaid_elementText`, `relaid_commentText` : what is written is the old text laid out anew.
- `elementText_elementText`, `commentText_commentText` : writing twice is writing once.
-/

namespace AndroidStrings
namespace Document

open Text

/-!
# Elements
-/

theorem isWhite_entryIndent : IsWhite entryIndent := by
  decide

theorem isWhite_itemIndent : IsWhite itemIndent := by
  decide

/-- A line is written with its trimmed part behind an indentation, or it stays. -/
theorem writeElementLine_cases (hasItems : Bool) (line : Text) :
    (exists lead : Text, IsWhite lead ∧ '\n' ∉ lead ∧
      line.trim CharClass.isWhiteSpace ≠ [] ∧
      forall line' : Text,
        line'.trim CharClass.isWhiteSpace = line.trim CharClass.isWhiteSpace ->
          writeElementLine hasItems line' = lead ++ line.trim CharClass.isWhiteSpace) ∨
      writeElementLine hasItems line = line := by
  by_cases hitem : (hasItems && (line.trim CharClass.isWhiteSpace).startsWith "<item".toList) =
      true
  · refine .inl ⟨itemIndent, isWhite_itemIndent, by decide, ?_, ?_⟩
    · intro hnil
      rw [hnil] at hitem
      simp [startsWith] at hitem
    · intro line' htrim
      simp only [writeElementLine, htrim, hitem, if_true]
  · by_cases hclose : (hasItems && (line.trim CharClass.isWhiteSpace).startsWith "</".toList &&
        !(line.trim CharClass.isWhiteSpace).startsWith "</item".toList) = true
    · refine .inl ⟨entryIndent, isWhite_entryIndent, by decide, ?_, ?_⟩
      · intro hnil
        rw [hnil] at hclose
        simp [startsWith] at hclose
      · intro line' htrim
        simp only [writeElementLine, htrim]
        rw [if_neg hitem, if_pos hclose]
    · right
      simp only [writeElementLine]
      rw [if_neg hitem, if_neg hclose]

theorem keepsWords_writeElementLine (hasItems : Bool) :
    KeepsWords (writeElementLine hasItems) := by
  intro line
  rcases exists_trim_append CharClass.isWhiteSpace line with
    ⟨lead, tail, hline, hlead, htail, hnone⟩
  rcases writeElementLine_cases hasItems line with ⟨lead', hlead', _, _, hwrite⟩ | hstays
  · refine ⟨lead, line.trim CharClass.isWhiteSpace, tail, lead', [], hline, ?_, hlead, htail,
      hlead', isWhite_nil, fun hend => ⟨hnone hend, rfl⟩⟩
    rw [hwrite line rfl, List.append_nil]
  · refine ⟨lead, line.trim CharClass.isWhiteSpace, tail, lead, tail, hline, ?_, hlead, htail,
      hlead, htail, fun hend => ⟨hnone hend, hnone hend⟩⟩
    rw [hstays]
    exact hline

theorem writesOnce_writeElementLine (hasItems : Bool) :
    WritesOnce (writeElementLine hasItems) where
  twice := by
    intro line
    rcases writeElementLine_cases hasItems line with ⟨lead, hlead, _, _, hwrite⟩ | hstays
    · rw [hwrite line rfl]
      apply hwrite
      rw [trim_append_of_white hlead, trim_trim]
    · rw [hstays, hstays]
  feeds := by
    intro line hline
    rcases writeElementLine_cases hasItems line with ⟨lead, _, hfeed, _, hwrite⟩ | hstays
    · rw [hwrite line rfl]
      intro hmem
      rcases List.mem_append.mp hmem with hmem | hmem
      · exact hfeed hmem
      · exact hline (mem_of_mem_trim hmem)
    · rw [hstays]
      exact hline
  returns := by
    intro line hline
    rcases writeElementLine_cases hasItems line with ⟨lead, _, _, hne, hwrite⟩ | hstays
    · rw [hwrite line rfl, List.getLast?_append, List.getLast?_eq_some_getLast hne]
      intro hcon
      rw [Option.some_or, ← List.getLast?_eq_some_getLast hne] at hcon
      exact absurd (getLast?_trimEnd hcon) (by decide)
    · rw [hstays]
      exact hline

theorem trimStart_of_markup
    {line : Text}
    (h : line.head? = some '<') :
    trimStart CharClass.isWhiteSpace line = line := by
  cases line with
  | nil => rfl
  | cons c line =>
      simp only [List.head?_cons, Option.some.injEq] at h
      rw [h, trimStart, List.dropWhile_cons_of_neg (by decide)]

theorem keepsFront_trimStart : KeepsFront (trimStart CharClass.isWhiteSpace) := by
  intro line hhead
  refine ⟨line, [], [], by simp, ?_, isWhite_nil, isWhite_nil, fun _ => ⟨rfl, rfl⟩⟩
  rw [trimStart_of_markup hhead, List.append_nil]

theorem writesOnce_trimStart : WritesOnce (trimStart CharClass.isWhiteSpace) where
  twice := by
    intro line
    cases htrim : trimStart CharClass.isWhiteSpace line with
    | nil => rfl
    | cons c rest =>
        have hhead := List.head?_dropWhile_not CharClass.isWhiteSpace line
        rw [show line.dropWhile CharClass.isWhiteSpace = c :: rest from htrim] at hhead
        simp only [List.head?_cons] at hhead
        rw [trimStart, List.dropWhile_cons_of_neg (by simp [hhead])]
  feeds := by
    intro line hline hmem
    exact hline ((List.dropWhile_sublist _).subset hmem)
  returns := by
    intro line hline hcon
    apply hline
    rw [← List.takeWhile_append_dropWhile (p := CharClass.isWhiteSpace) (l := line),
      List.getLast?_append, show line.dropWhile CharClass.isWhiteSpace = trimStart _ line from rfl,
      hcon]
    rfl

/-- The text of an element as it is written, without the indentation and the line ending. -/
def elementText (hasItems : Bool) (ending : LineEnding) (element : Text) : Text :=
  rewriteLines (trimStart CharClass.isWhiteSpace) (writeElementLine hasItems) ending element

theorem writeElement_eq (hasItems : Bool) (ending : LineEnding) (element : Text) :
    writeElement hasItems ending.text element =
      entryIndent ++ elementText hasItems ending element ++ ending.text := by
  rcases splitOn_spec element with ⟨first, rest, hsplit, _⟩
  have hlines : element.lines = stripCarriageReturn first :: rest.map stripCarriageReturn := by
    simp [lines, hsplit]
  rw [elementText, rewriteLines_of_lines hlines, writeElement, hlines]
  simp [withLines, List.flatMap_map]

section Element

variable {ending : LineEnding} {element : Text}

theorem relaid_elementText
    (hasItems : Bool) (ending : LineEnding)
    (hmarkup : IsMarkup element) :
    Relaid element (elementText hasItems ending element) :=
  relaid_rewriteLines ending hmarkup keepsFront_trimStart (keepsWords_writeElementLine hasItems)

theorem elementText_elementText
    (hasItems : Bool)
    (hmarkup : IsMarkup element)
    (hsuits : Suits ending element) :
    elementText hasItems ending (elementText hasItems ending element) =
      elementText hasItems ending element :=
  rewriteLines_rewriteLines hmarkup hsuits writesOnce_trimStart
    (writesOnce_writeElementLine hasItems)

theorem clean_elementText
    (hasItems : Bool)
    (hmarkup : IsMarkup element)
    (hsuits : Suits ending element) :
    Clean ending (elementText hasItems ending element) :=
  clean_rewriteLines hmarkup hsuits writesOnce_trimStart (writesOnce_writeElementLine hasItems)

/-- An element on one line is written as it is. -/
theorem elementText_of_line
    (hasItems : Bool) (ending : LineEnding)
    (hmarkup : IsMarkup element)
    (hline : '\n' ∉ element) :
    elementText hasItems ending element = element := by
  have hlast : element.getLast? ≠ some '\r' := by
    rw [hmarkup.2]
    decide
  have hlines : element.lines = [element] := by
    rw [Text.lines, Text.splitOn_of_not_mem hline, List.map_singleton,
      Text.stripCarriageReturn_eq_self hlast]
  rw [elementText, Text.rewriteLines_of_lines hlines, trimStart_of_markup hmarkup.1]
  simp [Text.withLines]

end Element

/-!
# Comments
-/

def writeCommentLine (line : Text) : Text :=
  entryIndent ++ line.trim CharClass.isWhiteSpace

theorem keepsWords_writeCommentLine : KeepsWords writeCommentLine := by
  intro line
  rcases exists_trim_append CharClass.isWhiteSpace line with
    ⟨lead, tail, hline, hlead, htail, hnone⟩
  exact ⟨lead, line.trim CharClass.isWhiteSpace, tail, entryIndent, [], hline,
    by rw [List.append_nil]; rfl, hlead, htail, isWhite_entryIndent, isWhite_nil,
    fun hend => ⟨hnone hend, rfl⟩⟩

theorem keepsFront_trim : KeepsFront (trim CharClass.isWhiteSpace) := by
  intro line hhead
  rcases exists_trim_append CharClass.isWhiteSpace line with
    ⟨lead, tail, hline, hlead, htail, hnone⟩
  have hnil : lead = [] := by
    cases lead with
    | nil => rfl
    | cons c lead =>
        rw [hline] at hhead
        simp only [List.cons_append, List.head?_cons, Option.some.injEq] at hhead
        exact absurd (hlead c (by simp)) (by rw [hhead]; decide)
  refine ⟨line.trim CharClass.isWhiteSpace, tail, [], ?_, by simp, htail, isWhite_nil, ?_⟩
  · rw [hnil] at hline
    exact hline
  · intro hend
    refine ⟨hnone ?_, rfl⟩
    intro c hc
    rw [hend, Option.some.injEq] at hc
    rw [← hc]
    decide

theorem writesOnce_trim : WritesOnce (trim CharClass.isWhiteSpace) where
  twice := trim_trim _
  feeds := fun _ hline hmem => hline (mem_of_mem_trim hmem)
  returns := fun _ _ hcon => absurd (getLast?_trimEnd hcon) (by decide)

theorem writesOnce_writeCommentLine : WritesOnce writeCommentLine where
  twice := by
    intro line
    rw [writeCommentLine, writeCommentLine, trim_append_of_white isWhite_entryIndent, trim_trim]
  feeds := by
    intro line hline hmem
    rcases List.mem_append.mp hmem with hmem | hmem
    · revert hmem
      decide
    · exact hline (mem_of_mem_trim hmem)
  returns := by
    intro line _ hcon
    rw [writeCommentLine, List.getLast?_append] at hcon
    cases hlast : (line.trim CharClass.isWhiteSpace).getLast? with
    | none =>
        rw [hlast] at hcon
        revert hcon
        decide
    | some c =>
        rw [hlast, Option.some_or, Option.some.injEq] at hcon
        rw [hcon] at hlast
        exact absurd (getLast?_trimEnd hlast) (by decide)

/-- The text of a comment as it is written, without the first indentation and the last line
ending. -/
def commentText (ending : LineEnding) (comment : Text) : Text :=
  rewriteLines (trim CharClass.isWhiteSpace) writeCommentLine ending comment

theorem writeComment_eq (ending : LineEnding) (comment : Text) :
    writeComment ending.text comment =
      entryIndent ++ commentText ending comment ++ ending.text := by
  rcases splitOn_spec comment with ⟨first, rest, hsplit, _⟩
  have hlines : comment.lines = stripCarriageReturn first :: rest.map stripCarriageReturn := by
    simp [lines, hsplit]
  rw [commentText, rewriteLines_of_lines hlines, writeComment, hlines]
  generalize stripCarriageReturn first = line
  generalize rest.map stripCarriageReturn = others
  induction others generalizing line with
  | nil => simp
  | cons other others ih =>
      rw [List.flatMap_cons, ih, List.map_cons, withLines_cons]
      simp [writeCommentLine, withLines]

section Comment

variable {ending : LineEnding} {comment : Text}

theorem relaid_commentText
    (ending : LineEnding)
    (hmarkup : IsMarkup comment) :
    Relaid comment (commentText ending comment) :=
  relaid_rewriteLines ending hmarkup keepsFront_trim keepsWords_writeCommentLine

theorem commentText_commentText
    (hmarkup : IsMarkup comment)
    (hsuits : Suits ending comment) :
    commentText ending (commentText ending comment) = commentText ending comment :=
  rewriteLines_rewriteLines hmarkup hsuits writesOnce_trim writesOnce_writeCommentLine

theorem clean_commentText
    (hmarkup : IsMarkup comment)
    (hsuits : Suits ending comment) :
    Clean ending (commentText ending comment) :=
  clean_rewriteLines hmarkup hsuits writesOnce_trim writesOnce_writeCommentLine

end Comment

end Document
end AndroidStrings
