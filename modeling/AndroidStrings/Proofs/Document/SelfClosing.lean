import AndroidStrings.Document.Edit
import AndroidStrings.Proofs.Markup.Attribute
import AndroidStrings.Proofs.Markup.Fragment

/-!
# Self-closing elements that are opened

An element that is given a value loses the end of its self-closing tag and the white space before
it.  The start tag that is left says what the self-closing one said.

## Main statement

`expandedString_raw` : what is written for a self-closing string is an element with the value.
-/

namespace AndroidStrings

open Markup

namespace Markup

theorem all_not_isSpace_takeWhile (content : Text) :
    forall c, c ∈ tagName content -> isSpace c = false := by
  intro c hc
  have hall := List.all_eq_true.mp List.all_takeWhile c hc
  simpa using hall

theorem tagName_append_dropWhile (content : Text) :
    tagName content ++ content.dropWhile (fun c => !isSpace c) = content :=
  List.takeWhile_append_dropWhile

/-- A tag is its name and what follows it, also when both are trimmed. -/
theorem tagName_trimEnd (content : Text) :
    tagName (Text.trimEnd isSpace content) = tagName content ∧
      (Text.trimEnd isSpace content).dropWhile (fun c => !isSpace c) =
        Text.trimEnd isSpace (content.dropWhile fun c => !isSpace c) := by
  have hname := all_not_isSpace_takeWhile content
  have hpos : forall c, c ∈ tagName content -> (!isSpace c) = true := by
    intro c hc
    simp [hname c hc]
  have htrim : Text.trimEnd isSpace content =
      tagName content ++ Text.trimEnd isSpace (content.dropWhile fun c => !isSpace c) := by
    rw [← Text.trimEnd_append_of_last (fun c hc => hname c (List.mem_of_getLast? hc)),
      tagName_append_dropWhile]
  have hstop : forall c,
      (Text.trimEnd isSpace (content.dropWhile fun c => !isSpace c)).head? = some c ->
        (!isSpace c) = false := by
    intro c hc
    have hhead := List.head?_dropWhile_not (fun c => !isSpace c) content
    rw [Text.head?_trimEnd hc] at hhead
    simpa using hhead
  rw [htrim]
  generalize Text.trimEnd isSpace (content.dropWhile fun c => !isSpace c) = attributes at hstop
  cases attributes with
  | nil =>
      rw [List.append_nil]
      constructor
      · exact List.takeWhile_eq_self_iff.mpr hpos
      · exact List.dropWhile_eq_nil_iff.mpr hpos
  | cons c attributes =>
      constructor
      · exact takeWhile_append_cons hpos (hstop c rfl) attributes
      · exact dropWhile_append_cons hpos (hstop c rfl) attributes

end Markup

namespace Heading

/-- White space at the end of the tag of an entry does not count, and before it stands a quote. -/
theorem ofTag_trimEnd
    {kind : EntryKind} {content : Text} {heading : Heading}
    (h : ofTag kind content = .ok heading) :
    ofTag kind (Text.trimEnd isSpace content) = .ok heading ∧
      exists quote : Char,
        (Text.trimEnd isSpace content).getLast? = some quote ∧ isQuote quote = true := by
  unfold ofTag EntryAttributes.ofTag at h ⊢
  cases hfold : (attributesOf content).attributes.foldlM EntryAttributes.add {} with
  | error e => simp [hfold] at h
  | ok known =>
      cases hfailure : (attributesOf content).failure with
      | some fault => simp [hfold, hfailure] at h
      | none =>
          have htrim := attributesFrom_trimEnd hfailure (Text.trimEnd isSpace content).size
          have hsame : attributesOf (Text.trimEnd isSpace content) = attributesOf content := by
            rw [attributesOf, (tagName_trimEnd content).2]
            exact htrim.1
          constructor
          · rw [hsame]
            exact h
          · have hlast : (Text.trimEnd isSpace content).getLast? =
                (Text.trimEnd isSpace (content.dropWhile fun c => !isSpace c)).getLast?.or
                  (tagName content).getLast? := by
              rw [← List.getLast?_append, ← (tagName_trimEnd content).2,
                ← (tagName_trimEnd content).1, tagName_append_dropWhile]
            cases hattributes :
                (Text.trimEnd isSpace (content.dropWhile fun c => !isSpace c)).getLast? with
            | some quote =>
                exists quote
                rw [hlast, hattributes]
                exact ⟨rfl, htrim.2 quote hattributes⟩
            | none =>
                -- Without attributes there is no name, so the tag is no heading.
                rw [List.getLast?_eq_none_iff] at hattributes
                rw [hattributes] at htrim
                have hnone : (attributesOf content).attributes = [] := by
                  show (attributesFrom _ _).attributes = []
                  rw [← htrim.1, attributesFrom_of_dropWhile_nil _ rfl]
                rw [hnone] at hfold
                simp only [List.foldlM_nil, pure, Except.pure, Except.ok.injEq] at hfold
                simp [hnone, hfailure, pure, Except.pure] at h

end Heading

namespace Document

theorem trimEnd_slash_append {t : Text} (h : t.getLast? ≠ some '/') :
    Text.trimEnd (· == '/') (t ++ ['/']) = t := by
  rw [Text.trimEnd_append_of_all (by simp)]
  apply Text.trimEnd_eq_self
  intro c hc
  rw [beq_eq_false_iff_ne]
  intro hcon
  rw [hcon] at hc
  exact h hc

theorem expandedString_raw
    {content : Text} {heading : Heading}
    (h : Heading.ofTag .string content = .ok heading)
    (stored : Text) :
    expandedString (Event.emptyTag content).raw stored =
      (Event.startTag (Text.trimEnd isSpace content)).raw ++ stored ++
        (Event.endTag EntryKind.string.tag).raw := by
  rcases (Heading.ofTag_trimEnd h).2 with ⟨quote, hlast, hquote⟩
  rcases Text.exists_trimEnd_append isSpace content with ⟨space, hcontent, hspace⟩
  generalize Text.trimEnd isSpace content = trimmed at hlast hcontent ⊢
  have hquoteCases : quote = '"' ∨ quote = '\'' := by
    simpa [isQuote] using hquote
  have hwhite : forall c, trimmed.getLast? = some c -> CharClass.isWhiteSpace c = false := by
    intro c hc
    rw [hlast, Option.some.injEq] at hc
    rcases hquoteCases with hq | hq <;> rw [← hc, hq] <;> decide
  have hangle : Text.trimEnd (· == '>') ('<' :: content ++ ['/', '>']) =
      '<' :: content ++ ['/'] := by
    have hsplit : Text.trimEnd (· == '>') ('<' :: content ++ ['/', '>']) =
        '<' :: content ++ '/' :: Text.trimEnd (· == '>') ['>'] :=
      Text.trimEnd_append_cons rfl ('<' :: content) ['>']
    simpa [Text.trimEnd] using hsplit
  have hslash : Text.trimEnd (· == '/') ('<' :: content ++ ['/']) = '<' :: content := by
    apply trimEnd_slash_append
    intro hcon
    rw [hcontent, ← List.cons_append, List.getLast?_append] at hcon
    cases hend : space.getLast? with
    | some d =>
        rw [hend] at hcon
        simp only [Option.some_or, Option.some.injEq] at hcon
        have hd := hspace d (List.mem_of_getLast? hend)
        rw [hcon] at hd
        exact Bool.noConfusion hd
    | none =>
        rw [hend, List.getLast?_cons, hlast] at hcon
        simp only [Option.getD_some, Option.none_or, Option.some.injEq] at hcon
        rcases hquoteCases with hq | hq <;> rw [hq] at hcon <;> simp at hcon
  have hblank : Text.trimEnd CharClass.isWhiteSpace ('<' :: content) = '<' :: trimmed := by
    rw [hcontent, ← List.cons_append,
      Text.trimEnd_append_of_all (fun c hc => isWhiteSpace_of_isSpace (hspace c hc))]
    apply Text.trimEnd_eq_self
    intro c hc
    rw [List.getLast?_cons, hlast] at hc
    simp only [Option.getD_some, Option.some.injEq] at hc
    exact hwhite c (by rw [hlast, hc])
  have hclose : (Event.endTag EntryKind.string.tag).raw = "</string>".toList := rfl
  rw [hclose]
  simp only [expandedString, Event.raw]
  rw [hangle, hslash, hblank]
  simp only [List.cons_append, List.append_assoc, List.nil_append]

/-- The start tag of an opened element is read back as one. -/
theorem spelled_startTag_trimEnd
    {content : Text} {heading : Heading}
    (hspelled : (Event.emptyTag content).Spelled)
    (hname : tagName content = EntryKind.string.tag)
    (h : Heading.ofTag .string content = .ok heading) :
    (Event.startTag (Text.trimEnd isSpace content)).Spelled := by
  rcases (Heading.ofTag_trimEnd h).2 with ⟨quote, hlast, hquote⟩
  rcases Text.exists_trimEnd_append isSpace content with ⟨space, hcontent, hspace⟩
  have hname' := (tagName_trimEnd content).1.trans hname
  have hinside := isTagContent_of_spelled_emptyTag hspelled
  generalize Text.trimEnd isSpace content = trimmed at hlast hcontent hname' ⊢
  have hhead : trimmed.head? = some 's' := by
    have hfirst : (tagName trimmed).head? = some 's' := by
      rw [hname']
      rfl
    cases trimmed with
    | nil => exact absurd hfirst (by simp [tagName])
    | cons c trimmed =>
        simp only [tagName, List.takeWhile_cons] at hfirst
        split at hfirst
        · exact hfirst
        · simp at hfirst
  have hevent : tagEvent trimmed = .startTag trimmed := by
    unfold tagEvent
    split
    · simp at hhead
    · rw [if_neg]
      rw [hlast, Option.some.injEq]
      intro hcon
      rw [hcon] at hquote
      exact Bool.noConfusion hquote
  rw [← hevent]
  apply spelled_tagEvent
  · simp [hhead]
  · simp [hhead]
  · rw [hcontent, isTagContent_append_plain (.inl rfl)
      (all_isPlain_of_isSpace (List.all_eq_true.mpr hspace))] at hinside
    exact hinside

end Document
end AndroidStrings
