import AndroidStrings.Check.Language
import AndroidStrings.Proofs.Document.Store
import AndroidStrings.Proofs.Value.Placeholder

/-!
# Placeholders after an edit

The check of a translation counts the placeholders of the stored value.  It comes to the same
verdict for the value as it was typed whenever escaping keeps their number; this may fail only where
doubled percent signs stand inside of what then looks like a span.

## Main statement

`count_escapeValue_iff` : when a stored value has as many placeholders as the value.
-/

namespace AndroidStrings

open Placeholder

/-- A string that is stored is the one that is looked up. -/
theorem string?_storeString
    {id stored : Text} {entries : List Entry}
    (h : exists entry : Entry, entry ∈ entries ∧ entry.kind = .string ∧ entry.id = id)
    (language : Text) :
    ResourceFile.string? ⟨language, storeString id stored entries⟩ id = some stored := by
  induction entries with
  | nil =>
      rcases h with ⟨entry, hentry, _⟩
      cases hentry
  | cons entry entries ih =>
      rw [storeString]
      split
      · rename_i hmatch
        simp [ResourceFile.string?, ResourceFile.find?, Entry.kind, EntryValue.kind, hmatch.2]
      · rename_i hnot
        rcases h with ⟨other, hmem, hother⟩
        rcases List.mem_cons.mp hmem with rfl | hmem
        · exact absurd hother hnot
        · have hrest := ih ⟨other, hmem, hother⟩
          have hskip : (entry.kind == .string && entry.id == id) = false := by
            rw [Bool.eq_false_iff]
            simpa using hnot
          simpa [ResourceFile.string?, ResourceFile.find?, hskip] using hrest

namespace Document

/-- After an edit with a balanced text, the check reads this text. -/
theorem string?_of_set
    {text id value : Text} {document edited : Document}
    (hplain : PlainStart text)
    (hparse : parse text = .ok document)
    (hset : document.set id value .escaped = .ok edited)
    (hbalanced : Markup.Balanced (escapeValue value))
    (language : Text) :
    (edited.resource language).string? id = some (escapeValue value) := by
  rcases set_eq_ok_iff.mp hset with ⟨_, hreplace⟩
  rcases StringSite.exists_of_contains hplain hparse (contains_of_replaceString hreplace) with
    ⟨site, hsite⟩
  rcases hsite.exists_replaceString hbalanced with ⟨same, hsame, hentries, _⟩
  have heq : edited = same := by
    rw [EscapeMode.apply] at hreplace
    rw [hreplace] at hsame
    exact Except.ok.inj hsame
  rw [resource, heq, hentries]
  apply string?_storeString
  rcases hsite.entries with ⟨old, hold⟩
  refine ⟨site.entryWith old, ?_, rfl, hsite.id_eq⟩
  rw [hold]
  simp

end Document

/-- A stored value has as many placeholders as the value exactly when the value keeps its angle
brackets or has no spans; it is so when the value has the closing tag of a span, and when it has
none without its doubled percent signs either.  The check then judges the stored value like the
value. -/
theorem count_escapeValue_iff (value : Text) :
    (count (escapeValue value) = count value ↔
        keepsAngles value.plainQuotes = true ∨ simpleCount value = count value) ∧
      (value.contains spanClosing = true ∨ (withoutDoubled value).contains spanClosing = false ->
        count (escapeValue value) = count value) ∧
      (count (escapeValue value) = count value ->
        forall {text id : Text} {document edited : Document} (language source : Text),
          Document.PlainStart text ->
            Document.parse text = .ok document ->
            document.set id value .escaped = .ok edited ->
            Markup.Balanced (escapeValue value) ->
            exists stored : Text,
              (edited.resource language).string? id = some stored ∧
                Placeholder.agree source stored = Placeholder.agree source value) := by
  have hiff : count (escapeValue value) = count value ↔
      keepsAngles value.plainQuotes = true ∨ simpleCount value = count value := by
    cases hkeeps : keepsAngles value.plainQuotes with
    | true => simp [count_escapeValue_of_keepsAngles hkeeps]
    | false => simp [count_escapeValue_of_not_keepsAngles hkeeps]
  refine ⟨hiff, ?_, ?_⟩
  · intro hclosing
    rw [hiff]
    rcases hclosing with hvalue | hnone
    · exact .inl (keepsAngles_of_isInfix (Text.contains_iff_isInfix.mp hvalue))
    · rw [Bool.eq_false_iff, Ne, Text.contains_iff_isInfix] at hnone
      exact .inr (count_eq_simpleCount hnone).symm
  · intro hcount text id document edited language source hplain hparse hset hbalanced
    refine ⟨_, Document.string?_of_set hplain hparse hset hbalanced language, ?_⟩
    rw [agree, agree, hcount]

/-- Without its doubled percent signs the value has a span, and its angle brackets are escaped. -/
theorem count_escapeValue_doubled :
    count "<xli%%ff:g>x</xli%%ff:g>".toList = 1 ∧
      count (escapeValue "<xli%%ff:g>x</xli%%ff:g>".toList) = 0 := by
  decide +kernel

end AndroidStrings
