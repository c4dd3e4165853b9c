import Mathlib.Data.List.Basic
import Mathlib.Data.List.Pairwise
import AndroidStrings.Proofs.Text.Replacement
import AndroidStrings.Proofs.Value.Lead

/-!
# Escaped texts

Escaping goes over a value in three passes: bare ampersands, angle brackets, quotes.  Every pass
keeps the characters of the text or writes something that stands for them, and it never escapes an
ampersand of a reference or a quote behind a backslash.  This is a relation of the text and the
escaped one.  Reading one character back leaves the relation in place for all others, and after
every character has been read back the two texts are the same.

## Main statements

- `escaped_escapeBareAmpersands`, `escaped_escapeAngles`, `escaped_escapeQuotesFrom` : the passes.
- `Escaped.lead`, `Escaped.behindAmpersands` : what a pass keeps.
- `Escaped.decode` : what is left after one character has been read back.
- `Escaped.unescapeValue` : a text and its escaped form are displayed in the same way.
-/

namespace AndroidStrings
namespace Text

/-- What stands for a character in a stored value. -/
def escapeOf : Char -> Text
  | '&' => "&amp;".toList
  | '<' => "&lt;".toList
  | '>' => "&gt;".toList
  | '\'' => "\\'".toList
  | '"' => "\\\"".toList
  | c => [c]

/-- The characters that an entity stands for. -/
def markupChars : Text :=
  ['&', '<', '>']

def quoteChars : Text :=
  ['\'', '"']

def escapedChars : Text :=
  markupChars ++ quoteChars

/-- The characters that begin an escape. -/
def escapeMarks : Text :=
  ['&', '\\']

instance (s t : Text) : Decidable (List.Disjoint s t) :=
  @decidable_of_iff _ _ List.disjoint_left.symm (List.decidableBAll _ s)

/-- The second text is the first one with some characters of a class escaped; `behind` tells
whether a backslash stands in front of the two. -/
inductive Escaped (marked : Text) : Bool -> Text -> Text -> Prop where
  | nil {behind : Bool} : Escaped marked behind [] []
  | kept {behind : Bool} {c : Char} {t written : Text}
      (rest : Escaped marked (c == '\\') t written) :
      Escaped marked behind (c :: t) (c :: written)
  | escaped {behind : Bool} {c : Char} {t written : Text}
      (hc : c ∈ escapedChars)
      (hmarked : c ∈ marked)
      (hbare : c = '&' -> completesReference t = false)
      (hquote : c ∈ quoteChars -> behind = false)
      (rest : Escaped marked false t written) :
      Escaped marked behind (c :: t) (escapeOf c ++ written)

variable {marked t written : Text} {behind : Bool} {c : Char}

theorem mem_markupChars_iff : c ∈ markupChars ↔ c = '&' ∨ c = '<' ∨ c = '>' := by
  simp [markupChars]

theorem mem_quoteChars_iff : c ∈ quoteChars ↔ c = '\'' ∨ c = '"' := by
  simp [quoteChars]

theorem mem_escapedChars_iff : c ∈ escapedChars ↔ c ∈ markupChars ∨ c ∈ quoteChars :=
  List.mem_append

/-- The escaped characters, one by one. -/
theorem cases_of_mem_escapedChars (h : c ∈ escapedChars) :
    c = '&' ∨ c = '<' ∨ c = '>' ∨ c = '\'' ∨ c = '"' := by
  rcases mem_escapedChars_iff.mp h with hmarkup | hquote
  · rcases mem_markupChars_iff.mp hmarkup with hc | hc | hc
    · exact .inl hc
    · exact .inr (.inl hc)
    · exact .inr (.inr (.inl hc))
  · rcases mem_quoteChars_iff.mp hquote with hc | hc
    · exact .inr (.inr (.inr (.inl hc)))
    · exact .inr (.inr (.inr (.inr hc)))

/-!
## The passes
-/

theorem escaped_escapeBareAmpersands (behind : Bool) (t : Text) :
    Escaped ['&'] behind t (escapeBareAmpersands t) := by
  induction t generalizing behind with
  | nil => exact .nil
  | cons c t ih =>
      rw [escapeBareAmpersands]
      split
      · rename_i hbare
        rcases hbare with ⟨rfl, hbare⟩
        exact .escaped (by decide) (by decide) (fun _ => hbare)
          (fun hquote => absurd hquote (by decide)) (ih false)
      · exact .kept (ih (c == '\\'))

theorem escaped_escapeAngles (behind : Bool) (t : Text) :
    Escaped ['<', '>'] behind t (escapeAngles t) := by
  fun_induction escapeAngles t generalizing behind with
  | case1 => exact .nil
  | case2 t ih =>
      exact .escaped (c := '<') (by decide) (by decide) (fun hc => absurd hc (by decide))
        (fun hquote => absurd hquote (by decide)) (ih false)
  | case3 t ih =>
      exact .escaped (c := '>') (by decide) (by decide) (fun hc => absurd hc (by decide))
        (fun hquote => absurd hquote (by decide)) (ih false)
  | case4 c t _ _ ih => exact .kept (ih (c == '\\'))

theorem isQuote_iff : isQuote c = true ↔ c ∈ quoteChars := by
  simp [quoteChars, isQuote]

theorem escapeOf_of_mem_quoteChars (h : c ∈ quoteChars) : escapeOf c = ['\\', c] := by
  rcases mem_quoteChars_iff.mp h with rfl | rfl <;> rfl

theorem beq_backslash (h : c ∈ escapedChars) : (c == '\\') = false :=
  beq_eq_false_iff_ne.mpr (ne_of_mem_of_not_mem h (by decide))

theorem escaped_escapeQuotesFrom (previous : Option Char) (opened : Option Text) (t : Text) :
    Escaped quoteChars (previous == some '\\') t (escapeQuotesFrom previous opened t) := by
  induction t generalizing previous opened with
  | nil => exact .nil
  | cons c t ih =>
      have hrest := ih (some c)
      rw [Option.some_beq_some] at hrest
      rw [escapeQuotesFrom]
      split
      · rename_i hcondition
        rcases hcondition with ⟨hquote, hprevious, _⟩
        have hc := isQuote_iff.mp hquote
        have hescaped := mem_escapedChars_iff.mpr (.inr hc)
        have hampersand : c ≠ '&' := ne_of_mem_of_not_mem hc (by decide)
        have htail := hrest (trackOpen (trackOpen opened '\\') c)
        rw [beq_backslash hescaped] at htail
        have hboth : Escaped quoteChars (previous == some '\\') (c :: t) (escapeOf c ++ _) :=
          .escaped hescaped hc (fun heq => absurd heq hampersand)
            (fun _ => beq_eq_false_iff_ne.mpr hprevious) htail
        rwa [escapeOf_of_mem_quoteChars hc] at hboth
      · exact .kept (hrest (trackOpen opened c))

/-!
## What every pass keeps
-/

theorem isSpecial_of_mem_escapedChars (h : c ∈ escapedChars) : isSpecial c = true := by
  rcases cases_of_mem_escapedChars h with rfl | rfl | rfl | rfl | rfl <;> rfl

/-- What stands for a markup character is a reference. -/
theorem exists_escapeOf_of_mem_markupChars (h : c ∈ markupChars) :
    exists name : Text,
      escapeOf c = '&' :: name ∧
        IsPlain name ∧
        forall t, completesReference (name ++ t) = true := by
  rcases mem_markupChars_iff.mp h with rfl | rfl | rfl
  · exact ⟨"amp;".toList, rfl, by decide, fun _ => rfl⟩
  · exact ⟨"lt;".toList, rfl, by decide, fun _ => rfl⟩
  · exact ⟨"gt;".toList, rfl, by decide, fun _ => rfl⟩

/-- An escape has its only mark at the front. -/
theorem exists_escapeOf_eq (h : c ∈ escapedChars) :
    exists (mark : Char) (rest : Text),
      escapeOf c = mark :: rest ∧ mark ∈ escapeMarks ∧ List.Disjoint rest escapeMarks := by
  rcases cases_of_mem_escapedChars h with rfl | rfl | rfl | rfl | rfl <;>
    exact ⟨_, _, rfl, by decide, by decide⟩

theorem isSpecial_of_mem_escapeMarks (h : c ∈ escapeMarks) : isSpecial c = true := by
  simp only [escapeMarks, List.mem_cons, List.not_mem_nil, or_false] at h
  rcases h with rfl | rfl <;> rfl

/-- The entity of a name and those that escaping writes do not begin one another. -/
def IsForeign (name : Text) : Prop :=
  forall c, c ∈ markupChars -> ¬ '&' :: name <+: escapeOf c ∧ ¬ escapeOf c <+: '&' :: name

instance (name : Text) : Decidable (IsForeign name) :=
  List.decidableBAll _ markupChars

namespace Escaped

theorem lead (h : Escaped marked behind t written) : lead written = lead t := by
  induction h with
  | nil => rfl
  | @kept _ c t written _ ih =>
      cases hc : isSpecial c with
      | true => rw [lead_cons_special hc, lead_cons_special hc]
      | false => rw [lead_cons hc, lead_cons hc, ih]
  | escaped hc _ _ _ _ _ =>
      rcases exists_escapeOf_eq hc with ⟨mark, rest, hescape, hmark, _⟩
      rw [hescape, List.cons_append, lead_cons_special (isSpecial_of_mem_escapeMarks hmark),
        lead_cons_special (isSpecial_of_mem_escapedChars hc)]

theorem behindAmpersands
    {holds : Text -> Prop}
    (h : Escaped marked behind t written)
    (hkept : BehindAmpersands holds t)
    (hwritten : forall c name, c ∈ markupChars -> escapeOf c = '&' :: name ->
      forall rest, holds (Text.lead (name ++ rest))) :
    BehindAmpersands holds written := by
  induction h with
  | nil => exact behindAmpersands_nil
  | kept rest ih =>
      rcases behindAmpersands_cons_iff.mp hkept with ⟨hfirst, htail⟩
      exact behindAmpersands_cons_iff.mpr ⟨fun hc => rest.lead ▸ hfirst hc, ih htail⟩
  | escaped hc _ _ _ _ ih =>
      have htail := ih (behindAmpersands_cons_iff.mp hkept).2
      rcases mem_escapedChars_iff.mp hc with hmarkup | hquote
      · rcases exists_escapeOf_of_mem_markupChars hmarkup with ⟨name, hname, hplain, _⟩
        rw [hname, List.cons_append, behindAmpersands_cons_iff]
        refine ⟨fun _ => hwritten _ name hmarkup hname _, BehindAmpersands.append ?_ htail⟩
        intro hmem
        cases hplain '&' hmem
      · rw [escapeOf_of_mem_quoteChars hquote]
        refine BehindAmpersands.append ?_ htail
        intro hmem
        simp only [List.mem_cons, List.not_mem_nil, or_false] at hmem
        rcases hmem with heq | rfl
        · cases heq
        · exact absurd hquote (by decide)

theorem hasReferencesOnly
    (h : Escaped marked behind t written)
    (ht : HasReferencesOnly t) :
    HasReferencesOnly written := by
  refine h.behindAmpersands ht ?_
  intro c name hc hname rest
  rcases exists_escapeOf_of_mem_markupChars hc with ⟨name', hname', _, hreference⟩
  rw [hname', List.cons.injEq] at hname
  rw [completesReference_lead, ← hname.2]
  exact hreference rest

theorem exists_of_front
    {front : Text}
    (hfront : IsPlain front)
    (h : Escaped marked false (front ++ t) written) :
    exists rest : Text, written = front ++ rest ∧ Escaped marked false t rest := by
  induction front generalizing written with
  | nil => exact ⟨written, rfl, h⟩
  | cons d front ih =>
      have hd := hfront d (by simp)
      rw [List.cons_append] at h
      cases h with
      | kept hkept =>
          have hbackslash : (d == '\\') = false := by
            rw [beq_eq_false_iff_ne]
            rintro rfl
            cases hd
          rw [hbackslash] at hkept
          rcases ih (List.forall_mem_cons.mp hfront).2 hkept with ⟨rest, rfl, hrest⟩
          exact ⟨rest, rfl, hrest⟩
      | escaped hmem _ _ _ _ =>
          rw [isSpecial_of_mem_escapedChars hmem] at hd
          cases hd

/-- An escape that stands in the text is kept. -/
theorem exists_of_escapeOf
    (hc : c ∈ escapedChars)
    (h : Escaped marked behind (escapeOf c ++ t) written) :
    exists rest : Text, written = escapeOf c ++ rest ∧ Escaped marked false t rest := by
  rcases mem_escapedChars_iff.mp hc with hmarkup | hquote
  · rcases exists_escapeOf_of_mem_markupChars hmarkup with ⟨name, hname, hplain, hreference⟩
    rw [hname, List.cons_append] at h
    rw [hname]
    cases h with
    | kept hkept =>
        rcases exists_of_front hplain hkept with ⟨rest, rfl, hrest⟩
        exact ⟨rest, rfl, hrest⟩
    | escaped _ _ hbare _ _ =>
        -- The ampersand of a reference is not bare.
        rw [hreference] at hbare
        cases hbare rfl
  · rw [escapeOf_of_mem_quoteChars hquote, List.cons_append, List.cons_append] at h
    rw [escapeOf_of_mem_quoteChars hquote]
    cases h with
    | kept hkept =>
        cases hkept with
        | kept hrest =>
            rw [beq_backslash hc] at hrest
            exact ⟨_, rfl, hrest⟩
        | escaped _ _ _ hbehind _ =>
            -- The quote has its backslash already.
            cases hbehind hquote
    | escaped hmem _ _ _ _ => exact absurd hmem (by decide)

/-- A pass makes no foreign entity. -/
theorem not_isInfix
    {name : Text}
    (hplain : IsPlain name)
    (hforeign : IsForeign name)
    (h : Escaped marked behind t written)
    (ht : ¬ '&' :: name <:+: t) :
    ¬ '&' :: name <:+: written := by
  rw [← behindAmpersands_not_isPrefix_iff hplain] at ht ⊢
  refine h.behindAmpersands ht ?_
  intro c entity hc hentity rest hbegins
  rw [isPrefix_lead_iff hplain] at hbegins
  rcases hforeign c hc with ⟨hnot, hnot'⟩
  rw [hentity, List.prefix_cons_inj] at hnot hnot'
  rcases List.prefix_or_prefix_of_prefix hbegins (List.prefix_append entity rest) with h | h
  · exact hnot h
  · exact hnot' h

theorem isInfix_escapeOf
    (hc : c ∈ escapedChars)
    (h : Escaped marked behind t written)
    (ht : escapeOf c <:+: t) :
    escapeOf c <:+: written := by
  induction t generalizing behind written with
  | nil =>
      cases h
      exact ht
  | cons d t ih =>
      rw [List.infix_cons_iff] at ht
      rcases ht with ⟨rest, hrest⟩ | htail
      · rw [← hrest] at h
        rcases exists_of_escapeOf hc h with ⟨rest', rfl, _⟩
        exact (List.prefix_append (escapeOf c) rest').isInfix
      · cases h with
        | kept hkept => exact List.infix_cons (ih hkept htail)
        | escaped _ _ _ _ hkept =>
            exact (ih hkept htail).trans (List.suffix_append (escapeOf d) _).isInfix

theorem eq_of_none_marked
    (h : Escaped marked behind t written)
    (hnone : forall c, c ∈ escapedChars -> c ∉ marked) :
    written = t := by
  induction h with
  | nil => rfl
  | kept _ ih => rw [ih]
  | escaped hc hmarked _ _ _ _ => exact absurd hmarked (hnone _ hc)

end Escaped

/-!
# Reading one character back
-/

/-- Reads back everything that stands for a character. -/
def decode (c : Char) (t : Text) : Text :=
  replaceAll (escapeOf c) [c] t

theorem escapeOf_ne_nil (c : Char) : escapeOf c ≠ [] := by
  unfold escapeOf
  split <;> simp

theorem decode_escapeOf_append (c : Char) (t : Text) :
    decode c (escapeOf c ++ t) = c :: decode c t :=
  replaceAll_append (escapeOf_ne_nil c) [c] t

theorem decode_cons {d : Char} (h : ¬ escapeOf c <+: d :: t) :
    decode c (d :: t) = d :: decode c t :=
  replaceAll_cons h [c]

theorem decode_append
    {front : Text}
    (hc : c ∈ escapedChars)
    (h : List.Disjoint front escapeMarks)
    (t : Text) :
    decode c (front ++ t) = front ++ decode c t := by
  rcases exists_escapeOf_eq hc with ⟨mark, rest, hescape, hmark, _⟩
  induction front with
  | nil => rfl
  | cons d front ih =>
      have hbegins : ¬ escapeOf c <+: d :: (front ++ t) := by
        rw [hescape, List.cons_prefix_cons]
        rintro ⟨rfl, _⟩
        exact h List.mem_cons_self hmark
      rw [List.cons_append, decode_cons hbegins, ih (List.disjoint_cons_left.mp h).2,
        List.cons_append]

/-- No escape begins another one. -/
theorem pairwise_escapedChars :
    escapedChars.Pairwise fun c d => ¬ escapeOf c <+: escapeOf d ∧ ¬ escapeOf d <+: escapeOf c := by
  decide

theorem not_escapeOf_isPrefix
    {d : Char}
    (hc : c ∈ escapedChars)
    (hd : d ∈ escapedChars)
    (hne : d ≠ c)
    (t : Text) :
    ¬ escapeOf c <+: escapeOf d ++ t := by
  intro hbegins
  have hsymm : Std.Symm fun c d => ¬ escapeOf c <+: escapeOf d ∧ ¬ escapeOf d <+: escapeOf c :=
    ⟨fun _ _ h => h.symm⟩
  have hneither := pairwise_escapedChars.forall hc hd hne.symm
  rcases List.prefix_or_prefix_of_prefix hbegins (List.prefix_append (escapeOf d) t) with h | h
  · exact hneither.1 h
  · exact hneither.2 h

/-- What stands for another character is passed over. -/
theorem decode_escapeOf_of_ne
    {d : Char}
    (hc : c ∈ escapedChars)
    (hd : d ∈ escapedChars)
    (hne : d ≠ c)
    (t : Text) :
    decode c (escapeOf d ++ t) = escapeOf d ++ decode c t := by
  have hbegins := not_escapeOf_isPrefix hc hd hne t
  rcases exists_escapeOf_eq hd with ⟨mark, rest, hescape, _, hrest⟩
  rw [hescape, List.cons_append] at hbegins ⊢
  rw [decode_cons hbegins, decode_append hc hrest, List.cons_append]

theorem lead_decode (hc : c ∈ escapedChars) (t : Text) : lead (decode c t) = lead t := by
  have hspecial := isSpecial_of_mem_escapedChars hc
  rcases exists_escapeOf_eq hc with ⟨mark, rest, hescape, hmark, _⟩
  induction t using occurrence_induction (escapeOf_ne_nil c) with
  | nil => simp [decode, replaceAll]
  | found t _ =>
      rw [decode_escapeOf_append, lead_cons_special hspecial, hescape, List.cons_append,
        lead_cons_special (isSpecial_of_mem_escapeMarks hmark)]
  | kept d t hbegins ih =>
      rw [decode_cons hbegins]
      cases hd : isSpecial d with
      | true => rw [lead_cons_special hd, lead_cons_special hd]
      | false => rw [lead_cons hd, lead_cons hd, ih]

namespace Escaped

/-- No escape comes into being where a character is kept. -/
theorem escapeOf_isPrefix
    {d : Char}
    (hc : c ∈ escapedChars)
    (h : Escaped marked (d == '\\') t written)
    (hbegins : escapeOf c <+: d :: written) :
    escapeOf c <+: d :: t := by
  rcases mem_escapedChars_iff.mp hc with hmarkup | hquote
  · rcases exists_escapeOf_of_mem_markupChars hmarkup with ⟨name, hname, hplain, _⟩
    rw [hname, List.cons_prefix_cons] at hbegins ⊢
    rw [← isPrefix_lead_iff hplain] at hbegins ⊢
    rwa [← h.lead]
  · rw [escapeOf_of_mem_quoteChars hquote, List.cons_prefix_cons] at hbegins ⊢
    rcases hbegins with ⟨rfl, hfirst⟩
    refine ⟨rfl, ?_⟩
    cases h with
    | nil => exact hfirst
    | kept _ =>
        rw [List.cons_prefix_cons] at hfirst ⊢
        exact ⟨hfirst.1, List.nil_prefix⟩
    | @escaped _ d _ _ hd _ _ hbehind _ =>
        rcases mem_escapedChars_iff.mp hd with hd | hd
        · rcases exists_escapeOf_of_mem_markupChars hd with ⟨name, hname, _⟩
          rw [hname, List.cons_append, List.cons_prefix_cons] at hfirst
          rw [hfirst.1] at hquote
          exact absurd hquote (by decide)
        · cases hbehind hd

/-- After one character has been read back, the escapes of the others are left. -/
theorem decode
    (hc : c ∈ escapedChars)
    (h : Escaped marked behind t written) :
    Escaped (marked.filter (· ≠ c)) behind (decode c t) (decode c written) := by
  -- Along the escapes of the text: each of them is one of the escaped text as well, which has
  -- another one for every character that was escaped.
  induction t using occurrence_induction (escapeOf_ne_nil c) generalizing behind written with
  | nil =>
      cases h
      simpa [Text.decode, replaceAll] using nil
  | found t ih =>
      rcases exists_of_escapeOf hc h with ⟨rest, rfl, hrest⟩
      rw [decode_escapeOf_append, decode_escapeOf_append]
      exact .kept (beq_backslash hc ▸ ih hrest)
  | kept d t hbegins ih =>
      rw [decode_cons hbegins]
      cases h with
      | kept hrest =>
          rw [decode_cons fun hwritten => hbegins (hrest.escapeOf_isPrefix hc hwritten)]
          exact .kept (ih hrest)
      | escaped hd hmarked hbare hquote hrest =>
          by_cases hne : d = c
          · rw [hne, decode_escapeOf_append]
            exact .kept (beq_backslash hc ▸ ih hrest)
          · have hbare' : d = '&' -> completesReference (Text.decode c t) = false := by
              intro heq
              rw [← completesReference_lead, lead_decode hc, completesReference_lead, hbare heq]
            rw [decode_escapeOf_of_ne hc hd hne]
            exact .escaped hd (List.mem_filter.mpr ⟨hmarked, by simpa using hne⟩) hbare' hquote
              (ih hrest)

end Escaped
end Text

/-!
# Displayed values
-/

theorem unescapeValue_eq (t : Text) :
    unescapeValue t =
      Text.decode '&' (Text.decode '>' (Text.decode '<' (Text.decode '"' (Text.decode '\'' t)))) :=
  rfl

/-- Escaping some characters does not change how a text is displayed. -/
theorem Text.Escaped.unescapeValue
    {marked t written : Text} {behind : Bool}
    (h : Escaped marked behind t written) :
    unescapeValue written = unescapeValue t := by
  have hquotes := (h.decode (c := '\'') (by decide)).decode (c := '"') (by decide)
  have hangles := (hquotes.decode (c := '<') (by decide)).decode (c := '>') (by decide)
  have hdecoded := hangles.decode (c := '&') (by decide)
  rw [unescapeValue_eq, unescapeValue_eq]
  apply hdecoded.eq_of_none_marked
  intro c hc hmarked
  rcases cases_of_mem_escapedChars hc with rfl | rfl | rfl | rfl | rfl <;> simp at hmarked

end AndroidStrings
