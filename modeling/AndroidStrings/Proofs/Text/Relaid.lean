import AndroidStrings.Document.Sort
import AndroidStrings.Proofs.Text.Lines

/-!
# Texts laid out anew

A text is laid out anew when white space around its line breaks is written in another way.  The
characters of words and markup stay, each in its place, so whatever is decided by them alone is
decided in the same way.

## Main statement

`relaid_withLines` : lines that are trimmed and indented give a text laid out anew.
-/

namespace AndroidStrings
namespace Text

def IsWhite (t : Text) : Prop :=
  forall c, c ∈ t -> CharClass.isWhiteSpace c = true

instance (t : Text) : Decidable (IsWhite t) :=
  decidable_of_iff (t.all CharClass.isWhiteSpace = true) List.all_eq_true

/-- A nonempty text without white space. -/
def IsWord (t : Text) : Prop :=
  t ≠ [] ∧ forall c, c ∈ t -> CharClass.isWhiteSpace c = false

instance (t : Text) : Decidable (IsWord t) :=
  decidable_of_iff (t ≠ [] ∧ t.all (fun c => !CharClass.isWhiteSpace c) = true) (by simp [IsWord])

/-- White space with a line break in it. -/
def IsBreak (t : Text) : Prop :=
  IsWhite t ∧ '\n' ∈ t

inductive Relaid : Text -> Text -> Prop where
  | nil : Relaid [] []
  | char {s t : Text} (c : Char) : Relaid s t -> Relaid (c :: s) (c :: t)
  | gap {old new s t : Text} :
      IsBreak old ->
      IsBreak new ->
      Relaid s t ->
      Relaid (old ++ s) (new ++ t)

theorem isWhite_nil : IsWhite [] :=
  fun _ h => absurd h List.not_mem_nil

theorem IsWhite.append
    {s t : Text}
    (hs : IsWhite s)
    (ht : IsWhite t) :
    IsWhite (s ++ t) := by
  intro c hc
  rcases List.mem_append.mp hc with h | h
  · exact hs c h
  · exact ht c h

theorem isWhite_ending (ending : LineEnding) : IsWhite ending.text := by
  cases ending <;> decide

theorem isBreak_ending (ending : LineEnding) : IsBreak ending.text := by
  constructor
  · exact isWhite_ending ending
  · cases ending <;> decide

theorem IsBreak.append_right
    {s t : Text}
    (hs : IsBreak s)
    (ht : IsWhite t) :
    IsBreak (s ++ t) :=
  ⟨hs.1.append ht, List.mem_append_left _ hs.2⟩

theorem IsBreak.append_left
    {s t : Text}
    (hs : IsWhite s)
    (ht : IsBreak t) :
    IsBreak (s ++ t) :=
  ⟨hs.append ht.1, List.mem_append_right _ ht.2⟩

namespace Relaid

theorem refl (t : Text) : Relaid t t := by
  induction t with
  | nil => exact .nil
  | cons c t ih => exact .char c ih

theorem symm
    {s t : Text}
    (h : Relaid s t) :
    Relaid t s := by
  induction h with
  | nil => exact .nil
  | char c _ ih => exact .char c ih
  | gap hold hnew _ ih => exact .gap hnew hold ih

theorem append
    {s t s' t' : Text}
    (h : Relaid s t)
    (h' : Relaid s' t') :
    Relaid (s ++ s') (t ++ t') := by
  induction h with
  | nil => exact h'
  | char c _ ih => exact .char c ih
  | gap hold hnew _ ih =>
      rw [List.append_assoc, List.append_assoc]
      exact .gap hold hnew ih

theorem nil_left
    {t : Text}
    (h : Relaid [] t) :
    t = [] := by
  generalize hs : ([] : Text) = s at h
  cases h with
  | nil => rfl
  | char c _ => simp at hs
  | gap hold _ _ =>
      rw [List.nil_eq, List.append_eq_nil_iff] at hs
      have hmem := hold.2
      rw [hs.1] at hmem
      simp at hmem

/-- A character that is no white space stays, and both sides of it are laid out anew. -/
theorem split
    {front back t : Text} {c : Char}
    (hc : CharClass.isWhiteSpace c = false)
    (h : Relaid (front ++ c :: back) t) :
    exists front' back' : Text,
      t = front' ++ c :: back' ∧ Relaid front front' ∧ Relaid back back' := by
  generalize hs : front ++ c :: back = s at h
  induction h generalizing front with
  | nil => simp at hs
  | char d hrest ih =>
      rename_i u v
      cases front with
      | nil =>
          simp only [List.nil_append, List.cons.injEq] at hs
          refine ⟨[], v, ?_, .nil, ?_⟩
          · rw [hs.1]
            rfl
          · rw [hs.2]
            exact hrest
      | cons e front =>
          simp only [List.cons_append, List.cons.injEq] at hs
          rcases ih hs.2 with ⟨front', back', ht, hfront, hback⟩
          refine ⟨d :: front', back', ?_, ?_, hback⟩
          · rw [ht]
            rfl
          · rw [hs.1]
            exact .char d hfront
  | gap hold hnew hrest ih =>
      rename_i old new u v
      have hpieces : exists middle : Text, front = old ++ middle ∧ middle ++ c :: back = u := by
        rcases List.append_eq_append_iff.mp hs with ⟨middle, hold', hmiddle⟩ | ⟨middle, heq⟩
        · cases middle with
          | nil =>
              refine ⟨[], ?_, hmiddle⟩
              rw [hold', List.append_nil, List.append_nil]
          | cons d middle =>
              -- The character would be a part of the gap.
              rw [List.cons_append, List.cons.injEq] at hmiddle
              have hwhite := hold.1 c (by rw [hold', hmiddle.1]; simp)
              rw [hc] at hwhite
              exact Bool.noConfusion hwhite
        · exact ⟨middle, heq.1, heq.2.symm⟩
      rcases hpieces with ⟨middle, rfl, hmiddle⟩
      rcases ih hmiddle with ⟨front', back', ht, hfront, hback⟩
      refine ⟨new ++ front', back', ?_, .gap hold hnew hfront, hback⟩
      rw [ht, List.append_assoc]

theorem cons_left
    {s t : Text} {c : Char}
    (hc : CharClass.isWhiteSpace c = false)
    (h : Relaid (c :: s) t) :
    exists rest : Text, t = c :: rest ∧ Relaid s rest := by
  rcases split hc (show Relaid ([] ++ c :: s) t from h) with ⟨front, rest, ht, hfront, hrest⟩
  rw [nil_left hfront] at ht
  exact ⟨rest, ht, hrest⟩

theorem concat_left
    {s t : Text} {c : Char}
    (hc : CharClass.isWhiteSpace c = false)
    (h : Relaid (s ++ [c]) t) :
    exists front : Text, t = front ++ [c] ∧ Relaid s front := by
  rcases split hc h with ⟨front, back, ht, hfront, hback⟩
  rw [nil_left hback] at ht
  exact ⟨front, ht, hfront⟩

/-- A word stays a word, and both sides of it are laid out anew. -/
theorem split_word
    {word front back t : Text}
    (hword : IsWord word)
    (h : Relaid (front ++ (word ++ back)) t) :
    exists front' back' : Text,
      t = front' ++ (word ++ back') ∧ Relaid front front' ∧ Relaid back back' := by
  have stays : forall (word back t : Text),
      (forall c, c ∈ word -> CharClass.isWhiteSpace c = false) -> Relaid (word ++ back) t ->
        exists back' : Text, t = word ++ back' ∧ Relaid back back' := by
    intro word
    induction word with
    | nil =>
        intro back t _ h
        exact ⟨t, rfl, h⟩
    | cons c word ih =>
        intro back t hword h
        rcases cons_left (hword c (by simp)) h with ⟨rest, ht, hrest⟩
        rcases ih back rest (List.forall_mem_cons.mp hword).2 hrest with
          ⟨back', hback', hrelaid⟩
        exact ⟨back', by rw [ht, hback']; rfl, hrelaid⟩
  cases word with
  | nil => exact absurd rfl hword.1
  | cons c word =>
      rcases split (hword.2 c (by simp)) h with ⟨front', rest, ht, hfront, hrest⟩
      rcases stays word back rest (List.forall_mem_cons.mp hword.2).2 hrest with
        ⟨back', hback', hback⟩
      exact ⟨front', back', by rw [ht, hback']; rfl, hfront, hback⟩

/-- A word that occurs nowhere occurs nowhere when the text is laid out anew. -/
theorem not_isInfix
    {word s t : Text}
    (hword : IsWord word)
    (h : Relaid s t)
    (hs : ¬ word <:+: s) :
    ¬ word <:+: t := by
  intro hpart
  rcases hpart with ⟨front, back, rfl⟩
  rw [List.append_assoc] at h
  rcases split_word hword h.symm with ⟨front', back', heq, _⟩
  exact hs ⟨front', back', by rw [heq, List.append_assoc]⟩

/-- A text between two words, laid out anew. -/
theorem split_delimited
    {opening closing content s t : Text}
    (hopening : IsWord opening)
    (hclosing : IsWord closing)
    (hcontent : ¬ closing <:+: content)
    (h : Relaid (opening ++ (content ++ (closing ++ s))) t) :
    exists content' s' : Text,
      t = opening ++ (content' ++ (closing ++ s')) ∧ Relaid content content' ∧ Relaid s s' ∧
        ¬ closing <:+: content' := by
  rw [← List.nil_append opening, List.append_assoc] at h
  rcases h.split_word hopening with ⟨front, back, rfl, hfront, hback⟩
  rcases hback.split_word hclosing with ⟨content', s', rfl, hrelaid, hs⟩
  rw [hfront.nil_left]
  exact ⟨content', s', rfl, hrelaid, hs, hrelaid.not_isInfix hclosing hcontent⟩

theorem head?_iff
    {s t : Text} {c : Char}
    (hc : CharClass.isWhiteSpace c = false)
    (h : Relaid s t) :
    s.head? = some c ↔ t.head? = some c := by
  have keeps : forall {u v : Text}, Relaid u v -> u.head? = some c -> v.head? = some c := by
    intro u v huv hu
    cases u with
    | nil => simp at hu
    | cons d u =>
        simp only [List.head?_cons, Option.some.injEq] at hu
        rw [hu] at huv
        rcases huv.cons_left hc with ⟨rest, hv, _⟩
        rw [hv]
        rfl
  exact ⟨keeps h, keeps h.symm⟩

theorem getLast?_iff
    {s t : Text} {c : Char}
    (hc : CharClass.isWhiteSpace c = false)
    (h : Relaid s t) :
    s.getLast? = some c ↔ t.getLast? = some c := by
  have keeps : forall {u v : Text}, Relaid u v -> u.getLast? = some c -> v.getLast? = some c := by
    intro u v huv hu
    rcases List.getLast?_eq_some_iff.mp hu with ⟨front, hfront⟩
    rw [hfront] at huv
    rcases huv.concat_left hc with ⟨front', hv, _⟩
    rw [hv]
    simp
  exact ⟨keeps h, keeps h.symm⟩

theorem not_mem
    {s t : Text} {c : Char}
    (hc : CharClass.isWhiteSpace c = false)
    (h : Relaid s t)
    (hs : c ∉ s) :
    c ∉ t := by
  intro hmem
  rcases List.append_of_mem hmem with ⟨front, back, rfl⟩
  rcases h.symm.split hc with ⟨front', back', rfl, _⟩
  exact hs (by simp)

end Relaid

/-!
# Lines written anew
-/

/-- A way to write lines that changes only the white space at their ends. -/
def KeepsWords (write : Text -> Text) : Prop :=
  forall line : Text,
    exists lead core tail lead' tail' : Text,
      line = lead ++ core ++ tail ∧ write line = lead' ++ core ++ tail' ∧
        IsWhite lead ∧ IsWhite tail ∧ IsWhite lead' ∧ IsWhite tail' ∧
        ((forall c, line.getLast? = some c -> CharClass.isWhiteSpace c = false) ->
          tail = [] ∧ tail' = [])

theorem relaid_rest
    {write : Text -> Text} {rest : List Text} {c : Char}
    (ending : LineEnding)
    (hwrite : KeepsWords write)
    (hlast : (rest.flatMap ('\n' :: ·)).getLast? = some c)
    (hc : CharClass.isWhiteSpace c = false)
    {tail tail' : Text}
    (htail : IsWhite tail)
    (htail' : IsWhite tail') :
    Relaid (tail ++ rest.flatMap ('\n' :: ·))
      (tail' ++ rest.flatMap (fun line => ending.text ++ write line)) := by
  induction rest generalizing tail tail' with
  | nil => simp at hlast
  | cons line rest ih =>
      rcases hwrite line with ⟨lead, core, behind, lead', behind', hline, hnew, hlead, hbehind,
        hlead', hbehind', hnone⟩
      have hgap : IsBreak (tail ++ (['\n'] ++ lead)) :=
        .append_left htail (.append_right ⟨by decide, by simp⟩ hlead)
      have hgap' : IsBreak (tail' ++ (ending.text ++ lead')) :=
        .append_left htail' (.append_right (isBreak_ending ending) hlead')
      have hrest : Relaid (behind ++ rest.flatMap ('\n' :: ·))
          (behind' ++ rest.flatMap (fun other => ending.text ++ write other)) := by
        cases rest with
        | nil =>
            have hend : forall d, line.getLast? = some d -> CharClass.isWhiteSpace d = false := by
              intro d hd
              rw [List.flatMap_cons, List.flatMap_nil, List.append_nil, List.getLast?_cons, hd]
                at hlast
              simp only [Option.getD_some, Option.some.injEq] at hlast
              rw [hlast]
              exact hc
            rw [(hnone hend).1, (hnone hend).2]
            exact .nil
        | cons other rest =>
            apply ih _ hbehind hbehind'
            rw [List.flatMap_cons, List.getLast?_append] at hlast
            cases hmore : ((other :: rest).flatMap ('\n' :: ·)).getLast? with
            | none => simp at hmore
            | some d =>
                rw [hmore] at hlast
                exact hlast
      have hall := Relaid.gap hgap hgap' ((Relaid.refl core).append hrest)
      simp only [List.flatMap_cons, hnew]
      rw [hline]
      simpa using hall

theorem relaid_withLines
    {write : Text -> Text} {core tail tail' : Text} {rest : List Text} {c : Char}
    (ending : LineEnding)
    (hwrite : KeepsWords write)
    (htail : IsWhite tail)
    (htail' : IsWhite tail')
    (hnone : rest = [] -> tail = tail')
    (hlast : (withLines ['\n'] (core ++ tail) rest).getLast? = some c)
    (hc : CharClass.isWhiteSpace c = false) :
    Relaid (withLines ['\n'] (core ++ tail) rest)
      (withLines ending.text (core ++ tail') (rest.map write)) := by
  cases rest with
  | nil =>
      rw [hnone rfl]
      exact Relaid.refl _
  | cons line rest =>
      have hrest : ((line :: rest).flatMap ('\n' :: ·)).getLast? = some c := by
        rw [withLines, List.getLast?_append] at hlast
        cases hmore : ((line :: rest).flatMap ('\n' :: ·)).getLast? with
        | none => simp at hmore
        | some d =>
            have hmore' : ((line :: rest).flatMap (['\n'] ++ ·)).getLast? = some d := hmore
            rw [hmore', Option.some_or] at hlast
            exact hlast
      have hall := (Relaid.refl core).append (relaid_rest ending hwrite hrest hc htail htail')
      simp only [withLines, List.flatMap_map, List.append_assoc]
      exact hall

end Text
end AndroidStrings
