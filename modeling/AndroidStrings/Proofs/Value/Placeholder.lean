import AndroidStrings.Proofs.Value.Refilled
import AndroidStrings.Value.Placeholder

/-!
# Placeholders of a stored value

Specifiers and brace tokens have none of the characters that escaping changes, and inside of braces
it does not matter what stands there, so a stored value has the specifiers and brace tokens of the
value.  A span is kept where the angle brackets are kept, and in a value that has a closing tag of
a span they are.  But doubled percent signs are taken out before placeholders are looked for, and
what stood around them may then form a span that the value does not have; the brackets of such a
value are escaped, and the span is gone.

## Main statement

`count_escapeValue_iff` : when a stored value has as many placeholders as the value.
-/

namespace AndroidStrings

open CharClass Text

namespace Placeholder

/-!
# Readers
-/

/-- What is found at the front of two texts: nothing, or a piece of each of them. -/
def FoundAlike (marks t written : Text) : Option Text -> Option Text -> Prop :=
  Option.Rel fun token token' =>
    token ≠ [] ∧ token' ≠ [] ∧
      exists rest rest' : Text,
        t = token ++ rest ∧ written = token' ++ rest' ∧ Refilled marks rest rest'

/-- A reader that finds the same in texts with exchanged fillings. -/
def ReadsAlike (marks : Text) (read : Text -> Option Text) : Prop :=
  forall {t written : Text}, Refilled marks t written ->
    FoundAlike marks t written (read t) (read written)

/-- A reader that finds nothing in a filling. -/
def PassesOver (marks : Text) (read : Text -> Option Text) : Prop :=
  forall (c : Char) (t : Text), c ∈ marks ∨ c ∉ placeholderChars -> read (c :: t) = none

variable {marks t written : Text} {read other : Text -> Option Text}

theorem FoundAlike.append
    {found found' : Option Text} {front front' : Text}
    (hfront : front ≠ [])
    (hfront' : front' ≠ [])
    (h : FoundAlike marks t written found found') :
    FoundAlike marks (front ++ t) (front' ++ written)
      (found.map (front ++ ·)) (found'.map (front' ++ ·)) := by
  cases h with
  | none => exact .none
  | some htoken =>
      rcases htoken with ⟨_, _, rest, rest', rfl, rfl, hrest⟩
      exact .some ⟨List.append_ne_nil_of_left_ne_nil hfront _,
        List.append_ne_nil_of_left_ne_nil hfront' _, rest, rest', by simp, by simp, hrest⟩

theorem FoundAlike.or
    {found found' more more' : Option Text}
    (h : FoundAlike marks t written found found')
    (hmore : FoundAlike marks t written more more') :
    FoundAlike marks t written (found.or more) (found'.or more') := by
  cases h with
  | none => exact hmore
  | some htoken => exact .some htoken

theorem PassesOver.or
    (hread : PassesOver marks read)
    (hother : PassesOver marks other) :
    PassesOver marks fun t => (read t).or (other t) := by
  intro c t hc
  simp only [hread c t hc, hother c t hc, Option.or_none]

/-!
## Specifiers
-/

/-- The letter of a specifier. -/
def letterAt? : Text -> Option Text
  | c :: _ => if c == 's' || c == 'd' || c == 'i' || c == 'f' then some [c] else none
  | [] => none

/-- The letter of a specifier, perhaps behind a dollar sign. -/
def conversionAt? : Text -> Option Text
  | c :: t => if c = '$' then (letterAt? t).map (['$'] ++ ·) else letterAt? (c :: t)
  | [] => none

theorem specifierAt?_cons (t : Text) :
    specifierAt? ('%' :: t) =
      (conversionAt? (t.dropWhile isDecimalDigit)).map
        (('%' :: t.takeWhile isDecimalDigit) ++ ·) := by
  simp only [specifierAt?]
  generalize t.dropWhile isDecimalDigit = rest
  cases rest with
  | nil => rfl
  | cons c rest =>
      by_cases hc : c = '$'
      · subst hc
        cases rest with
        | nil => rfl
        | cons d rest =>
            simp only [conversionAt?, letterAt?, if_pos]
            split <;> simp
      · rw [conversionAt?, if_neg hc, letterAt?]
        split <;> simp_all

theorem specifierAt?_of_ne {c : Char} (hc : c ≠ '%') (t : Text) : specifierAt? (c :: t) = none := by
  simp [specifierAt?, hc]

/-- What the marks of a filling do not do. -/
theorem not_of_mem_bracketMarks {c : Char} (hc : c ∈ bracketMarks) :
    isDecimalDigit c = false ∧ c ≠ '$' ∧ letterAt? [c] = none ∧ c ≠ '%' ∧ c ≠ '{' ∧ c ≠ '}' := by
  rcases List.mem_append.mp hc with hquoted | hbracket
  · simp only [quotedMarks, List.mem_cons, List.not_mem_nil, or_false] at hquoted
    rcases hquoted with rfl | rfl | rfl | rfl <;> decide
  · simp only [List.mem_cons, List.not_mem_nil, or_false] at hbracket
    rcases hbracket with rfl | rfl <;> decide

/-- A reader of tokens with a first character of their own. -/
theorem readsAlike_of_first
    {first : Char}
    (hfirst : first ∉ marks)
    (hne : forall {c : Char}, c ≠ first -> forall t, read (c :: t) = none)
    (hnil : read [] = none)
    (h : forall {t written : Text}, Refilled marks t written ->
      FoundAlike marks (first :: t) (first :: written)
        (read (first :: t)) (read (first :: written))) :
    ReadsAlike marks read := by
  intro t written hboth
  cases hboth with
  | nil =>
      rw [hnil]
      exact .none
  | @kept c t written hrest =>
      by_cases hc : c = first
      · rw [hc]
        exact h hrest
      · rw [hne hc, hne hc]
        exact .none
  | filled hs hs' _ =>
      rcases hs with ⟨mark, rest, rfl, hmark, _⟩
      rcases hs' with ⟨mark', rest', rfl, hmark', _⟩
      rw [List.cons_append, List.cons_append, hne (ne_of_mem_of_not_mem hmark hfirst),
        hne (ne_of_mem_of_not_mem hmark' hfirst)]
      exact .none

section Readers

variable (hmarks : marks ⊆ bracketMarks)

include hmarks

theorem readsAlike_letterAt? : ReadsAlike marks letterAt? := by
  intro t written h
  cases h with
  | nil => exact .none
  | @kept c t written hrest =>
      rw [letterAt?, letterAt?]
      split
      · exact .some ⟨by simp, by simp, t, written, rfl, rfl, hrest⟩
      · exact .none
  | filled hs hs' _ =>
      rcases hs with ⟨mark, rest, rfl, hmark, _⟩
      rcases hs' with ⟨mark', rest', rfl, hmark', _⟩
      have hnone := (not_of_mem_bracketMarks (hmarks hmark)).2.2.1
      have hnone' := (not_of_mem_bracketMarks (hmarks hmark')).2.2.1
      simp only [letterAt?] at hnone hnone'
      simp only [List.cons_append, letterAt?]
      rw [hnone, hnone']
      exact .none

theorem readsAlike_conversionAt? : ReadsAlike marks conversionAt? := by
  intro t written h
  have hletter := readsAlike_letterAt? hmarks h
  cases h with
  | nil => exact .none
  | @kept c t written hrest =>
      rw [conversionAt?, conversionAt?]
      split
      · rename_i hc
        rw [hc]
        exact (readsAlike_letterAt? hmarks hrest).append (List.cons_ne_nil '$' [])
          (List.cons_ne_nil '$' [])
      · exact hletter
  | filled hs hs' hrest =>
      rcases hs with ⟨mark, rest, rfl, hmark, _⟩
      rcases hs' with ⟨mark', rest', rfl, hmark', _⟩
      simp only [List.cons_append, conversionAt?]
      rw [if_neg (not_of_mem_bracketMarks (hmarks hmark)).2.1,
        if_neg (not_of_mem_bracketMarks (hmarks hmark')).2.1]
      exact hletter

theorem readsAlike_specifierAt? : ReadsAlike marks specifierAt? := by
  refine readsAlike_of_first ?_ specifierAt?_of_ne rfl ?_
  · intro hmem
    exact (not_of_mem_bracketMarks (hmarks hmem)).2.2.2.1 rfl
  · intro t written h
    rcases h.takeWhile_eq fun c hc => (not_of_mem_bracketMarks (hmarks hc)).1 with ⟨hdigits, hrest⟩
    have hfound := (readsAlike_conversionAt? hmarks hrest).append
      (List.cons_ne_nil '%' (t.takeWhile isDecimalDigit))
      (List.cons_ne_nil '%' (written.takeWhile isDecimalDigit))
    rw [List.cons_append, List.cons_append, List.takeWhile_append_dropWhile,
      List.takeWhile_append_dropWhile] at hfound
    rwa [specifierAt?_cons, specifierAt?_cons]

end Readers

/-!
## Brace tokens
-/

theorem braceTokenAt?_cons (t : Text) :
    braceTokenAt? ('{' :: t) =
      if t.takeWhile (· != '}') = [] ∨ t.dropWhile (· != '}') = [] then none
      else some ('{' :: t.takeWhile (· != '}') ++ ['}']) := by
  simp only [braceTokenAt?]
  split <;> simp_all

theorem braceTokenAt?_of_ne {c : Char} (hc : c ≠ '{') (t : Text) :
    braceTokenAt? (c :: t) = none := by
  simp [braceTokenAt?, hc]

theorem exists_of_dropWhile_ne_nil
    {closing : Char}
    (h : t.dropWhile (· != closing) ≠ []) :
    exists rest : Text, t.dropWhile (· != closing) = closing :: rest := by
  rcases List.exists_cons_of_ne_nil h with ⟨c, rest, hrest⟩
  rcases Markup.exists_append_of_dropWhile hrest with ⟨_, _, _, hc⟩
  rw [bne_eq_false_iff_eq] at hc
  exact ⟨rest, hc ▸ hrest⟩

theorem readsAlike_braceTokenAt? (hmarks : marks ⊆ bracketMarks) :
    ReadsAlike marks braceTokenAt? := by
  refine readsAlike_of_first ?_ braceTokenAt?_of_ne rfl ?_
  · intro hmem
    exact (not_of_mem_bracketMarks (hmarks hmem)).2.2.2.2.1 rfl
  · intro t written h
    have hclass : forall c, c ∉ placeholderChars -> (c != '}') = true := by
      intro c hc
      rw [bne_iff_ne]
      rintro rfl
      exact hc (by decide)
    have hbrace : '}' ∉ marks := fun hmem => (not_of_mem_bracketMarks (hmarks hmem)).2.2.2.2.2 rfl
    rcases h.takeWhile (fun c hc => bne_iff_ne.mpr (ne_of_mem_of_not_mem hc hbrace)) hclass with
      ⟨hname, hrest⟩
    have hempty := or_congr hname.eq_nil_iff hrest.eq_nil_iff
    rw [braceTokenAt?_cons, braceTokenAt?_cons]
    by_cases hnot : t.takeWhile (· != '}') = [] ∨ t.dropWhile (· != '}') = []
    · rw [if_pos hnot, if_pos (hempty.mpr hnot)]
      exact .none
    · rw [if_neg hnot, if_neg (hempty.not.mpr hnot)]
      rw [not_or] at hnot
      rcases exists_of_dropWhile_ne_nil hnot.2 with ⟨rest, hdrop⟩
      rw [hdrop] at hrest
      rcases hrest.exists_cons hbrace with ⟨rest', hdrop', hfollow⟩
      refine .some ⟨by simp, by simp, rest, rest', ?_, ?_, hfollow⟩
      · rw [List.cons_append, List.cons_append, List.append_assoc, List.singleton_append, ← hdrop,
          List.takeWhile_append_dropWhile]
      · rw [List.cons_append, List.cons_append, List.append_assoc, List.singleton_append, ← hdrop',
          List.takeWhile_append_dropWhile]

/-!
## Spans
-/

/-- The rest of a span, behind the name in its opening tag. -/
def spanRestAt? (t : Text) : Option Text :=
  match t.dropWhile (· != '>') with
  | '>' :: content =>
      (cutAt? spanClosing content).map fun parts =>
        t.takeWhile (· != '>') ++ '>' :: parts.1 ++ spanClosing
  | _ => none

theorem spanAt?_eq (t : Text) :
    spanAt? t = (stripPrefix? spanOpening t).bind fun rest =>
      (spanRestAt? rest).map (spanOpening ++ ·) := by
  rw [spanAt?]
  cases stripPrefix? spanOpening t with
  | none => rfl
  | some rest =>
      simp only [Option.bind_some, spanRestAt?]
      by_cases hnil : rest.dropWhile (· != '>') = []
      · rw [hnil]
        rfl
      · rcases exists_of_dropWhile_ne_nil hnil with ⟨content, hdrop⟩
        rw [hdrop]
        simp [Function.comp_def]

theorem eq_append_of_cutAt?
    {content : Text} {parts : Text × Text}
    (hdrop : t.dropWhile (· != '>') = '>' :: content)
    (hcut : cutAt? spanClosing content = some parts) :
    t = t.takeWhile (· != '>') ++ '>' :: parts.1 ++ spanClosing ++ parts.2 := by
  have hcontent : content = parts.1 ++ spanClosing ++ parts.2 := append_of_cutAt? hcut
  conv_lhs => rw [← List.takeWhile_append_dropWhile (p := (· != '>')) (l := t), hdrop, hcontent]
  simp

theorem readsAlike_spanRestAt? : ReadsAlike quotedMarks spanRestAt? := by
  intro t written h
  have hclass : forall c, c ∉ placeholderChars -> (c != '>') = true := by
    intro c hc
    rw [bne_iff_ne]
    rintro rfl
    exact hc (by decide)
  have hmarks : forall c, c ∈ quotedMarks -> (c != '>') = true :=
    fun c hc => bne_iff_ne.mpr (ne_of_mem_of_not_mem hc (by decide))
  rcases h.takeWhile hmarks hclass with ⟨hname, hrest⟩
  by_cases hnil : t.dropWhile (· != '>') = []
  · have hnil' := hrest.eq_nil_iff.mpr hnil
    rw [spanRestAt?, spanRestAt?, hnil, hnil']
    exact .none
  · rcases exists_of_dropWhile_ne_nil hnil with ⟨content, hdrop⟩
    have hboth := hrest
    rw [hdrop] at hboth
    rcases hboth.exists_cons (by decide) with ⟨content', hdrop', hcontent⟩
    have hcut := @Refilled.cutAt? quotedMarks content content' '<' "/xliff:g>".toList
      (by decide) (by decide) hcontent
    change Option.Rel _ (cutAt? spanClosing content) (cutAt? spanClosing content') at hcut
    simp only [spanRestAt?, hdrop, hdrop']
    generalize hfound : cutAt? spanClosing content = found at hcut
    generalize hfound' : cutAt? spanClosing content' = found' at hcut
    cases hcut with
    | none => exact .none
    | @some parts parts' hfollow =>
        exact .some ⟨by simp, by simp, parts.2, parts'.2, eq_append_of_cutAt? hdrop hfound,
          eq_append_of_cutAt? hdrop' hfound', hfollow⟩

theorem readsAlike_spanAt? : ReadsAlike quotedMarks spanAt? := by
  intro t written h
  have hstrip : Option.Rel (Refilled quotedMarks) (stripPrefix? spanOpening t)
      (stripPrefix? spanOpening written) :=
    h.stripPrefix? (by decide)
  rw [spanAt?_eq, spanAt?_eq]
  generalize hopening : stripPrefix? spanOpening t = found at hstrip
  generalize hopening' : stripPrefix? spanOpening written = found' at hstrip
  cases hstrip with
  | none => exact .none
  | some hrest =>
      rw [append_of_stripPrefix? hopening, append_of_stripPrefix? hopening']
      exact (readsAlike_spanRestAt? hrest).append (by decide) (by decide)

theorem spanAt?_of_ne {c : Char} (hc : c ≠ '<') (t : Text) : spanAt? (c :: t) = none := by
  have hstrip : stripPrefix? spanOpening (c :: t) = none := by
    rw [stripPrefix?, if_neg]
    rw [List.isPrefixOf_iff_prefix]
    exact fun hbegins => hc (List.cons_prefix_cons.mp hbegins).1.symm
  rw [spanAt?_eq, hstrip]
  rfl

/-!
# Scanning
-/

/-- The tokens that a reader finds from left to right; they do not overlap. -/
def scanBy (read : Text -> Option Text) : Text -> List Text
  | [] => []
  | c :: t =>
      match read (c :: t) with
      | some token => token :: scanBy read (t.drop (token.length - 1))
      | none => scanBy read t
termination_by t => t.length
decreasing_by
  · simp only [List.length_drop, List.length_cons]
    omega
  · simp

theorem scan_eq (t : Text) : scan t = scanBy at? t := by
  fun_induction scan t with
  | case1 => rw [scanBy]
  | case2 c t token hfound ih => rw [scanBy, hfound, ih]
  | case3 c t hnone ih => rw [scanBy, hnone, ih]

theorem scanBy_of_some
    {token rest : Text}
    (hfound : read (token ++ rest) = some token)
    (hne : token ≠ []) :
    scanBy read (token ++ rest) = token :: scanBy read rest := by
  cases token with
  | nil => exact absurd rfl hne
  | cons c token =>
      rw [List.cons_append] at hfound ⊢
      rw [scanBy, hfound]
      simp

theorem scanBy_of_none
    {c : Char}
    (h : read (c :: t) = none) :
    scanBy read (c :: t) = scanBy read t := by
  rw [scanBy, h]

theorem scanBy_append
    {s : Text}
    (hread : PassesOver marks read)
    (hs : IsFilling marks s)
    (t : Text) :
    scanBy read (s ++ t) = scanBy read t := by
  have hall : forall c, c ∈ s -> c ∈ marks ∨ c ∉ placeholderChars := fun c hc => hs.mem hc
  clear hs
  induction s with
  | nil => rfl
  | cons c s ih =>
      rw [List.forall_mem_cons] at hall
      rw [List.cons_append, scanBy_of_none (hread c (s ++ t) hall.1), ih hall.2]

/-- As many tokens are found in a text as in one with other fillings. -/
theorem ReadsAlike.length_scanBy
    (hread : ReadsAlike marks read)
    (hover : PassesOver marks read)
    (h : Refilled marks t written) :
    (scanBy read written).length = (scanBy read t).length := by
  -- A token may reach over fillings, so what follows it is any later part of the two texts.
  induction hlength : t.length using Nat.strongRecOn generalizing t written with
  | ind n ih =>
      subst hlength
      have hfound := hread h
      cases h with
      | nil => rfl
      | @kept c t written hrest =>
          generalize hread : read (c :: t) = found at hfound
          generalize hread' : read (c :: written) = found' at hfound
          cases hfound with
          | none =>
              rw [scanBy_of_none hread, scanBy_of_none hread']
              exact ih _ (by simp) hrest rfl
          | @some token _ htoken =>
              rcases htoken with ⟨hne, hne', rest, rest', ht, hwritten, hfollow⟩
              have hpositive := List.length_pos_iff.mpr hne
              have hshorter : rest.length < (token ++ rest).length := by
                rw [List.length_append]
                omega
              rw [ht] at hread ih ⊢
              rw [hwritten] at hread' ⊢
              rw [scanBy_of_some hread hne, scanBy_of_some hread' hne', List.length_cons,
                List.length_cons, ih _ hshorter hfollow rfl]
      | @filled s s' t written hs hs' hrest =>
          have hshorter : t.length < (s ++ t).length := by
            rw [List.length_append, Nat.lt_add_left_iff_pos, List.length_pos_iff]
            rintro rfl
            exact IsFilling.not_nil hs
          rw [scanBy_append hover hs, scanBy_append hover hs']
          exact ih _ hshorter hrest rfl

/-- Readers that agree on all ends of a text find the same tokens in it. -/
theorem scanBy_congr
    (h : forall s : Text, s <:+ t -> read s = other s) :
    scanBy read t = scanBy other t := by
  fun_induction scanBy read t with
  | case1 => rw [scanBy]
  | case2 c t token hfound ih =>
      rw [h _ List.suffix_rfl] at hfound
      have hlater : t.drop (token.length - 1) <:+ c :: t :=
        (List.drop_suffix _ t).trans (List.suffix_cons c t)
      rw [scanBy, hfound, ih fun s hs => h s (hs.trans hlater)]
  | case3 c t hnone ih =>
      rw [h _ List.suffix_rfl] at hnone
      rw [scanBy, hnone, ih fun s hs => h s (hs.trans (List.suffix_cons c t))]

/-!
# Counting
-/

/-- A value without its doubled percent signs. -/
def withoutDoubled (value : Text) : Text :=
  replaceAll ['%', '%'] [] value

/-- The reader of specifiers and brace tokens. -/
def simpleAt? (t : Text) : Option Text :=
  (specifierAt? t).or (braceTokenAt? t)

/-- The number of placeholders when no spans are looked for. -/
def simpleCount (value : Text) : Nat :=
  (scanBy simpleAt? (withoutDoubled value)).length

variable {value : Text}

theorem at?_eq (t : Text) : at? t = (simpleAt? t).or (spanAt? t) := by
  rw [at?, simpleAt?]
  cases specifierAt? t with
  | some token => rfl
  | none => cases braceTokenAt? t <;> rfl

theorem count_eq (value : Text) : count value = (scanBy at? (withoutDoubled value)).length := by
  rw [count, extract, scan_eq]
  rfl

theorem readsAlike_simpleAt? (hmarks : marks ⊆ bracketMarks) : ReadsAlike marks simpleAt? :=
  fun h => (readsAlike_specifierAt? hmarks h).or (readsAlike_braceTokenAt? hmarks h)

theorem readsAlike_at? : ReadsAlike quotedMarks at? := by
  intro t written h
  rw [at?_eq, at?_eq]
  exact (readsAlike_simpleAt? (List.subset_append_left _ _) h).or (readsAlike_spanAt? h)

theorem passesOver_simpleAt? : PassesOver bracketMarks simpleAt? := by
  intro c t hc
  have hne : c ≠ '%' ∧ c ≠ '{' := by
    rcases hc with hmark | hnot
    · have hall := not_of_mem_bracketMarks hmark
      exact ⟨hall.2.2.2.1, hall.2.2.2.2.1⟩
    · constructor <;>
        · rintro rfl
          exact hnot (by decide)
  rw [simpleAt?, specifierAt?_of_ne hne.1, braceTokenAt?_of_ne hne.2]
  rfl

theorem passesOver_at? : PassesOver quotedMarks at? := by
  intro c t hc
  have hne : c ≠ '<' := by
    rcases hc with hmark | hnot
    · exact ne_of_mem_of_not_mem hmark (by decide)
    · rintro rfl
      exact hnot (by decide)
  have hsimple := passesOver_simpleAt? c t (hc.imp_left (List.mem_append_left _))
  rw [at?_eq, hsimple, spanAt?_of_ne hne]
  rfl

theorem refilled_withoutDoubled
    (hmarks : '%' ∉ marks)
    (h : Refilled marks t written) :
    Refilled marks (withoutDoubled t) (withoutDoubled written) :=
  h.replaceAll (by simp [hmarks]) (by decide)

/-- Where angle brackets are kept, all placeholders are. -/
theorem count_escapeValue_of_keepsAngles
    (hkeeps : keepsAngles value.plainQuotes = true) :
    count (escapeValue value) = count value := by
  refine @escapeValue_of_refilled (fun t => count t = count value) quotedMarks value
    (List.Subset.refl quotedMarks) ?_ ?_ rfl
  · intro hnot
    rw [hkeeps] at hnot
    cases hnot
  · intro t written h ht
    have hstripped := refilled_withoutDoubled (by decide) h
    rw [count_eq, readsAlike_at?.length_scanBy passesOver_at? hstripped, ← count_eq, ht]

/-- Specifiers and brace tokens are kept by all passes. -/
theorem simpleCount_escapeValue (value : Text) :
    simpleCount (escapeValue value) = simpleCount value := by
  refine @escapeValue_of_refilled (fun t => simpleCount t = simpleCount value) bracketMarks value
    (by decide) (fun _ => by decide) ?_ rfl
  intro t written h ht
  have hreads : ReadsAlike bracketMarks simpleAt? :=
    readsAlike_simpleAt? (List.Subset.refl bracketMarks)
  have hstripped := refilled_withoutDoubled (by decide) h
  rw [simpleCount, hreads.length_scanBy passesOver_simpleAt? hstripped, ← simpleCount, ht]

theorem isInfix_of_spanAt?
    {token : Text}
    (h : spanAt? t = some token) :
    spanClosing <:+: t := by
  rw [spanAt?_eq, Option.bind_eq_some_iff] at h
  rcases h with ⟨rest, hopening, hspan⟩
  rcases Option.map_eq_some_iff.mp hspan with ⟨content, hrest, _⟩
  unfold spanRestAt? at hrest
  split at hrest
  · rename_i following hdrop
    rcases Option.map_eq_some_iff.mp hrest with ⟨parts, hcut, _⟩
    rw [append_of_stripPrefix? hopening, eq_append_of_cutAt? hdrop hcut, ← List.append_assoc]
    refine ⟨spanOpening ++ (rest.takeWhile (· != '>') ++ '>' :: parts.1), parts.2, ?_⟩
    simp
  · cases hrest

theorem count_eq_simpleCount
    (h : ¬ spanClosing <:+: withoutDoubled value) :
    count value = simpleCount value := by
  rw [count_eq, simpleCount]
  apply congrArg List.length
  apply scanBy_congr
  intro s hs
  have hspan : spanAt? s = none := by
    rw [Option.eq_none_iff_forall_ne_some]
    intro token hfound
    exact h ((isInfix_of_spanAt? hfound).trans hs.isInfix)
  rw [at?_eq, hspan, Option.or_none]

theorem count_escapeValue_of_not_keepsAngles
    (hkeeps : keepsAngles value.plainQuotes = false) :
    count (escapeValue value) = simpleCount value := by
  rw [← simpleCount_escapeValue]
  apply count_eq_simpleCount
  intro hclosing
  have hinner := isInner_escapeQuotes (isInner_escapeAngles value.plainQuotes.escapeBareAmpersands)
  rw [← escapeValue_of_not_keepsAngles hkeeps] at hinner
  rcases mem_replaceAll (hclosing.subset (by decide : '<' ∈ spanClosing)) with hmem | hmem
  · cases hmem
  · exact absurd rfl (hinner '<' hmem).1

theorem occursIn_append_right
    (h : InlineTag.occursIn t = true)
    (front : Text) :
    InlineTag.occursIn (front ++ t) = true := by
  induction front with
  | nil => exact h
  | cons c front ih => rw [List.cons_append, InlineTag.occursIn, ih, Bool.or_true]

/-- The closing tag of a span is an inline tag. -/
theorem keepsAngles_of_isInfix
    (h : spanClosing <:+: value) :
    keepsAngles value.plainQuotes = true := by
  have hwritten : spanClosing <:+: value.plainQuotes.escapeBareAmpersands := by
    apply ampersands_of_refilled (List.Subset.refl quotedMarks) ?_ h
    intro t written hrefilled ht
    exact @Refilled.isInfix quotedMarks t written '<' "/xliff:g>".toList (by decide) (by decide)
      hrefilled ht
  have htag : InlineTag.occursIn value.plainQuotes.escapeBareAmpersands = true := by
    rcases hwritten with ⟨front, back, heq⟩
    rw [← heq, List.append_assoc]
    exact occursIn_append_right rfl front
  rw [keepsAngles, htag, Bool.or_true]

end Placeholder
end AndroidStrings
