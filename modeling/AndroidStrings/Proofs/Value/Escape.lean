import AndroidStrings.Proofs.Text.Uniform
import AndroidStrings.Value.Escape

/-!
# Characters of a stored value

Escaping writes the characters of the value and those of entities, quotes and backslashes.

## Main statement

`mem_apply` : where a character of a stored value comes from.
-/

namespace AndroidStrings
namespace Text

variable {c : Char} {t : Text}

theorem mem_replaceAll
    {pattern replacement : Text}
    (h : c ∈ replaceAll pattern replacement t) :
    c ∈ replacement ∨ c ∈ t := by
  fun_induction replaceAll pattern replacement t with
  | case1 => exact .inr h
  | case2 d t hpattern ih =>
      rcases List.mem_append.mp h with hwritten | hrest
      · exact .inl hwritten
      · rcases ih hrest with hwritten | hmem
        · exact .inl hwritten
        · exact .inr (List.mem_cons_of_mem d (List.mem_of_mem_drop hmem))
  | case3 d t hpattern ih =>
      rcases List.mem_cons.mp h with heq | hrest
      · exact .inr (heq ▸ List.mem_cons_self)
      · rcases ih hrest with hwritten | hmem
        · exact .inl hwritten
        · exact .inr (List.mem_cons_of_mem d hmem)

theorem mem_escapeBareAmpersands
    (h : c ∈ escapeBareAmpersands t) :
    c ∈ "&amp;".toList ∨ c ∈ t := by
  induction t with
  | nil => exact .inr h
  | cons d t ih =>
      rw [escapeBareAmpersands] at h
      split at h
      · rcases List.mem_append.mp h with hwritten | hrest
        · exact .inl hwritten
        · exact (ih hrest).imp_right (List.mem_cons_of_mem d)
      · rcases List.mem_cons.mp h with heq | hrest
        · exact .inr (heq ▸ List.mem_cons_self)
        · exact (ih hrest).imp_right (List.mem_cons_of_mem d)

theorem mem_escapeAngles
    (h : c ∈ escapeAngles t) :
    c ∈ "&lt;&gt;".toList ∨ c ∈ t := by
  fun_induction escapeAngles t with
  | case1 => exact .inr h
  | case2 t ih =>
      rcases List.mem_append.mp h with hwritten | hrest
      · exact .inl (List.mem_append_left "&gt;".toList hwritten)
      · exact (ih hrest).imp_right (List.mem_cons_of_mem '<')
  | case3 t ih =>
      rcases List.mem_append.mp h with hwritten | hrest
      · exact .inl (List.mem_append_right "&lt;".toList hwritten)
      · exact (ih hrest).imp_right (List.mem_cons_of_mem '>')
  | case4 d t _ _ ih =>
      rcases List.mem_cons.mp h with heq | hrest
      · exact .inr (heq ▸ List.mem_cons_self)
      · exact (ih hrest).imp_right (List.mem_cons_of_mem d)

theorem mem_escapeQuotesFrom
    {previous : Option Char} {opened : Option Text}
    (h : c ∈ escapeQuotesFrom previous opened t) :
    c ∈ ['\\'] ∨ c ∈ t := by
  induction t generalizing previous opened with
  | nil => exact .inr h
  | cons d t ih =>
      rw [escapeQuotesFrom] at h
      split at h
      · rcases List.mem_cons.mp h with heq | h
        · exact .inl (List.mem_singleton.mpr heq)
        · rcases List.mem_cons.mp h with heq | hrest
          · exact .inr (heq ▸ List.mem_cons_self)
          · exact (ih hrest).imp_right (List.mem_cons_of_mem d)
      · rcases List.mem_cons.mp h with heq | hrest
        · exact .inr (heq ▸ List.mem_cons_self)
        · exact (ih hrest).imp_right (List.mem_cons_of_mem d)

end Text

/-- The characters that escaping writes on its own. -/
def escapeChars : Text :=
  "&amp;&lt;&gt;\"'\\".toList

theorem mem_escapeValue
    {c : Char} {value : Text}
    (h : c ∈ escapeValue value) :
    c ∈ escapeChars ∨ c ∈ value := by
  have hplain : forall {d : Char}, d ∈ value.plainQuotes -> d ∈ escapeChars ∨ d ∈ value := by
    intro d hd
    rcases Text.mem_replaceAll hd with hquote | hinner
    · exact .inl (by rw [List.mem_singleton.mp hquote]; decide)
    · rcases Text.mem_replaceAll hinner with hquote | hmem
      · exact .inl (by rw [List.mem_singleton.mp hquote]; decide)
      · exact .inr hmem
  have hamps : forall {d : Char}, d ∈ value.plainQuotes.escapeBareAmpersands ->
      d ∈ escapeChars ∨ d ∈ value := by
    intro d hd
    rcases Text.mem_escapeBareAmpersands hd with hwritten | hmem
    · exact .inl ((by decide : "&amp;".toList ⊆ escapeChars) hwritten)
    · exact hplain hmem
  have hbackslash : forall {d : Char}, d ∈ ['\\'] -> d ∈ escapeChars := by
    intro d hd
    rw [List.mem_singleton.mp hd]
    decide
  unfold escapeValue at h
  simp only at h
  split at h
  · rcases Text.mem_escapeQuotesFrom h with hwritten | hmem
    · exact .inl (hbackslash hwritten)
    · exact hamps hmem
  · rcases Text.mem_escapeQuotesFrom h with hwritten | hmem
    · exact .inl (hbackslash hwritten)
    · rcases Text.mem_escapeAngles hmem with hwritten | hmem
      · exact .inl ((by decide : "&lt;&gt;".toList ⊆ escapeChars) hwritten)
      · exact hamps hmem

/-- A character of a stored value is one of the value, or escaping wrote it. -/
theorem mem_apply
    {c : Char} {value : Text} {mode : EscapeMode}
    (h : c ∈ mode.apply value) :
    c ∈ escapeChars ∨ c ∈ value := by
  cases mode with
  | escaped => exact mem_escapeValue h
  | raw => exact .inr h

theorem oneLine_apply
    {value : Text}
    (h : Text.OneLine value)
    (mode : EscapeMode) :
    Text.OneLine (mode.apply value) := by
  constructor
  · intro hmem
    rcases mem_apply hmem with hwritten | hvalue
    · exact absurd hwritten (by decide)
    · exact h.1 hvalue
  · intro hmem
    rcases mem_apply hmem with hwritten | hvalue
    · exact absurd hwritten (by decide)
    · exact h.2 hvalue

end AndroidStrings
