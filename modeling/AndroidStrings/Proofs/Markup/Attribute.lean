import Mathlib.Data.List.TakeWhile
import AndroidStrings.Markup.Attribute
import AndroidStrings.Proofs.Text.Trim
import AndroidStrings.Text.CharClass

/-!
# Attributes and the end of a tag

Where an attribute ends is decided by the attribute alone, and behind the last one only white
space is let through.  So a tag whose attributes are read without a fault says the same when the
white space at its end is cut off, and it then ends with a quote.

## Main statement

`attributesFrom_trimEnd` : white space at the end of a tag does not count.
-/

namespace AndroidStrings
namespace Markup

theorem exists_append_of_dropWhile
    {blank : Char -> Bool} {t rest : Text} {c : Char}
    (h : t.dropWhile blank = c :: rest) :
    exists front : Text,
      t = front ++ c :: rest ∧ (forall d, d ∈ front -> blank d = true) ∧ blank c = false := by
  exists t.takeWhile blank
  refine ⟨?_, ?_, ?_⟩
  · rw [← h, List.takeWhile_append_dropWhile]
  · exact List.all_eq_true.mp List.all_takeWhile
  · have hhead := List.head?_dropWhile_not blank t
    rw [h] at hhead
    exact hhead

theorem dropWhile_append_cons
    {blank : Char -> Bool} {front : Text} {c : Char}
    (hfront : forall d, d ∈ front -> blank d = true)
    (hc : blank c = false)
    (rest : Text) :
    (front ++ c :: rest).dropWhile blank = c :: rest := by
  rw [List.dropWhile_append_of_pos hfront, List.dropWhile_cons_of_neg (by simp [hc])]

theorem takeWhile_append_cons
    {α : Type} {p : α -> Bool} {front : List α} {item : α}
    (hfront : forall other, other ∈ front -> p other = true)
    (hitem : p item = false)
    (rest : List α) :
    (front ++ item :: rest).takeWhile p = front := by
  rw [List.takeWhile_append_of_pos hfront, List.takeWhile_cons_of_neg (by simp [hitem]),
    List.append_nil]

/-- A text is taken apart at the first place of a character in one way only. -/
theorem eq_of_append_cons_eq
    {front front' back back' : Text} {c : Char}
    (h : front ++ c :: back = front' ++ c :: back')
    (hfront : c ∉ front)
    (hfront' : c ∉ front') :
    front = front' ∧ back = back' := by
  have htake := congrArg (List.takeWhile (· != c)) h
  rw [takeWhile_append_cons (fun d hd => bne_iff_ne.mpr (ne_of_mem_of_not_mem hd hfront))
      (bne_self_eq_false c),
    takeWhile_append_cons (fun d hd => bne_iff_ne.mpr (ne_of_mem_of_not_mem hd hfront'))
      (bne_self_eq_false c)] at htake
  rw [htake, List.append_cancel_left_eq, List.cons.injEq] at h
  exact ⟨htake, h.2⟩

/-!
# One attribute
-/

def isQuote (c : Char) : Bool :=
  c == '"' || c == '\''

theorem isSpace_of_isQuote {c : Char} (h : isQuote c = true) : isSpace c = false := by
  simp only [isQuote, Bool.or_eq_true, beq_iff_eq] at h
  rcases h with h | h <;> rw [h] <;> rfl

theorem isKeyChar_of_isSpace {c : Char} (h : isSpace c = true) : isKeyChar c = false := by
  simp [isKeyChar, h]

theorem isWhiteSpace_of_isSpace {c : Char} (h : isSpace c = true) :
    CharClass.isWhiteSpace c = true := by
  simp only [isSpace, Bool.or_eq_true, beq_iff_eq] at h
  rcases h with ((h | h) | h) | h <;> rw [h] <;> decide

theorem exists_quoted_of_readValue
    {total : Nat} {t value after : Text}
    (h : readValue total t = .ok (value, after)) :
    exists (front : Text) (quote : Char),
      t = front ++ quote :: after ∧ isQuote quote = true ∧
        forall (total' : Nat) (after' : Text),
          readValue total' (front ++ quote :: after') = .ok (value, after') := by
  cases t with
  | nil => simp [readValue] at h
  | cons q t =>
      simp only [readValue] at h
      split at h
      · rename_i hquote
        split at h
        · simp at h
        · rename_i d rest hdrop
          simp only [Except.ok.injEq, Prod.mk.injEq] at h
          rcases exists_append_of_dropWhile hdrop with ⟨front, happend, hfront, hstop⟩
          have hd : d = q := by simpa using hstop
          have hvalue : value = front := by
            rw [← h.1, happend, takeWhile_append_cons hfront hstop]
          refine ⟨q :: front, q, ?_, ?_, ?_⟩
          · rw [happend, h.2, hd]
            rfl
          · simpa [isQuote] using hquote
          · intro total' after'
            rw [hd] at hstop
            simp only [List.cons_append, readValue, if_pos hquote,
              dropWhile_append_cons hfront hstop, takeWhile_append_cons hfront hstop, hvalue]
      · simp at h

theorem exists_quoted_of_readAttribute
    {total : Nat} {first : Char} {t after : Text} {found : Attribute}
    (h : readAttribute total first t = .ok (found, after)) :
    exists (front : Text) (quote : Char),
      t = front ++ quote :: after ∧ isQuote quote = true ∧
        forall (total' : Nat) (after' : Text),
          readAttribute total' first (front ++ quote :: after') = .ok (found, after') := by
  simp only [readAttribute] at h
  split at h
  · simp at h
  · rename_i c rest hequals
    split at h
    · rename_i hc
      split at h
      · simp at h
      · rename_i value behind hvalue
        simp only [Except.ok.injEq, Prod.mk.injEq] at h
        rcases exists_quoted_of_readValue hvalue with ⟨inner, quote, hinner, hquote, hread⟩
        rcases exists_append_of_dropWhile hequals with ⟨space, hspace, hblank, hnotSpace⟩
        have hkeys : forall d, d ∈ t.takeWhile isKeyChar -> isKeyChar d = true :=
          List.all_eq_true.mp List.all_takeWhile
        have hvalueSpaces : forall d, d ∈ rest.takeWhile isSpace -> isSpace d = true :=
          List.all_eq_true.mp List.all_takeWhile
        have hrest : rest = rest.takeWhile isSpace ++ (inner ++ quote :: behind) := by
          rw [← hinner, List.takeWhile_append_dropWhile]
        have ht : t = t.takeWhile isKeyChar ++ (space ++ c :: rest) := by
          rw [← hspace, List.takeWhile_append_dropWhile]
        -- The value begins with its quote, so no white space of the gap before it is lost.
        have hinnerStart : forall after' : Text,
            (inner ++ quote :: after').dropWhile isSpace = inner ++ quote :: after' := by
          intro after'
          cases inner with
          | nil => simp [isSpace_of_isQuote hquote]
          | cons d inner =>
              have hhead := List.head?_dropWhile_not isSpace rest
              rw [hinner] at hhead
              simp only [List.cons_append, List.head?_cons] at hhead
              simp [hhead]
        have hkeyStop : forall u : Text,
            (space ++ c :: u).takeWhile isKeyChar = [] ∧
              (space ++ c :: u).dropWhile isKeyChar = space ++ c :: u := by
          intro u
          cases space with
          | nil => simp [hc, isKeyChar]
          | cons d space =>
              have hd := isKeyChar_of_isSpace (hblank d (by simp))
              simp [hd]
        refine ⟨t.takeWhile isKeyChar ++ (space ++ c :: (rest.takeWhile isSpace ++ inner)), quote,
          ?_, hquote, ?_⟩
        · calc t = t.takeWhile isKeyChar ++ (space ++ c :: rest) := ht
            _ = t.takeWhile isKeyChar ++ (space ++ c ::
                  (rest.takeWhile isSpace ++ (inner ++ quote :: behind))) := by rw [← hrest]
            _ = _ := by simp [h.2]
        · intro total' after'
          have hnew : t.takeWhile isKeyChar ++ (space ++ c :: (rest.takeWhile isSpace ++ inner)) ++
              quote :: after' = t.takeWhile isKeyChar ++ (space ++ c ::
                (rest.takeWhile isSpace ++ (inner ++ quote :: after'))) := by
            simp
          rw [hnew]
          simp only [readAttribute, List.takeWhile_append_of_pos hkeys,
            List.dropWhile_append_of_pos hkeys, hkeyStop, dropWhile_append_cons hblank hnotSpace,
            if_pos hc, List.dropWhile_append_of_pos hvalueSpaces, hinnerStart, hread,
            List.append_nil, h.1]
    · simp at h

/-!
# All attributes
-/

theorem attributesFrom_of_dropWhile_nil
    {t : Text}
    (total : Nat)
    (h : t.dropWhile isSpace = []) :
    attributesFrom total t = ⟨[], none⟩ := by
  rw [attributesFrom]
  split
  · rfl
  · rename_i hcons
    rw [h] at hcons
    simp at hcons

theorem attributesFrom_of_readAttribute
    {total : Nat} {t rest after : Text} {first : Char} {found : Attribute}
    (h : t.dropWhile isSpace = first :: rest)
    (hread : readAttribute total first rest = .ok (found, after)) :
    attributesFrom total t =
      ⟨found :: (attributesFrom total after).attributes, (attributesFrom total after).failure⟩ := by
  rw [attributesFrom]
  split
  · rename_i hnil
    rw [h] at hnil
    simp at hnil
  · rename_i first' rest' hcons
    rw [h] at hcons
    simp only [List.cons.injEq] at hcons
    rw [← hcons.1, ← hcons.2]
    split
    · rename_i e herror
      rw [hread] at herror
      simp at herror
    · rename_i found' after' hok
      rw [hread] at hok
      simp only [Except.ok.injEq, Prod.mk.injEq] at hok
      rw [← hok.1, ← hok.2]

theorem attributesFrom_trimEnd
    {total : Nat} {t : Text}
    (h : (attributesFrom total t).failure = none)
    (total' : Nat) :
    attributesFrom total' (Text.trimEnd isSpace t) = attributesFrom total t ∧
      forall c, (Text.trimEnd isSpace t).getLast? = some c -> isQuote c = true := by
  fun_induction attributesFrom total t with
  | case1 t hspace =>
      have hall : forall c, c ∈ t -> isSpace c = true := by
        exact List.dropWhile_eq_nil_iff.mp hspace
      rw [Text.trimEnd_eq_nil_of_all hall]
      constructor
      · exact attributesFrom_of_dropWhile_nil total' rfl
      · simp
  | case2 => simp at h
  | case3 t first rest hspace found after hread others ih =>
      rcases exists_quoted_of_readAttribute hread with ⟨front, quote, hrest, hquote, hagain⟩
      rcases exists_append_of_dropWhile hspace with ⟨space, ht, hblank, hfirst⟩
      have hquoteSpace := isSpace_of_isQuote hquote
      have hih := ih h
      have htrim : Text.trimEnd isSpace t =
          space ++ first :: (front ++ quote :: Text.trimEnd isSpace after) := by
        rw [ht, hrest]
        have hsplit := Text.trimEnd_append_cons hquoteSpace (space ++ first :: front) after
        simpa using hsplit
      constructor
      · have hdrop : (Text.trimEnd isSpace t).dropWhile isSpace =
            first :: (front ++ quote :: Text.trimEnd isSpace after) := by
          rw [htrim, dropWhile_append_cons hblank hfirst]
        rw [attributesFrom_of_readAttribute hdrop (hagain total' _), hih.1]
      · intro c hc
        rw [htrim, ← List.cons_append, ← List.append_assoc, List.getLast?_append] at hc
        cases hafter : (Text.trimEnd isSpace after).getLast? with
        | none =>
            rw [List.getLast?_eq_none_iff] at hafter
            rw [hafter] at hc
            simp only [List.getLast?_singleton, Option.some_or, Option.some.injEq] at hc
            rw [← hc]
            exact hquote
        | some d =>
            rw [List.getLast?_cons, hafter] at hc
            simp only [Option.getD_some, Option.some_or, Option.some.injEq] at hc
            rw [← hc]
            exact hih.2 d hafter

end Markup
end AndroidStrings
