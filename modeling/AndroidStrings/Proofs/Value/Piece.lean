import AndroidStrings.Proofs.Markup.Attribute
import AndroidStrings.Proofs.Text.CharClass
import AndroidStrings.Proofs.Value.Tags

/-!
# Tags and the characters between them

A tag is written with a `<`, perhaps a slash, a name, and whatever follows up to the next `>`.  The
name is a word, or two words with a colon between them, and it is as long as it can be.  Read from
left to right, a value falls apart into tags and into characters that no tag begins with.  This can
be done in one way only, and the tags are the ones whose nesting is checked.

## Main statements

- `exists_cut`, `Cut.unique` : every value is cut into pieces in one way.
- `Cut.tags_eq` : the tags of a value are those of its pieces.
-/

namespace AndroidStrings

open CharClass Text

namespace Value

variable {c : Char} {t name rest after : Text}

/-!
# Names
-/

/-- A name does not go on in what follows it, neither with a character of a word nor with a colon
and a second word. -/
inductive IsTagName (rest : Text) : Text -> Prop where
  | word {word : Text} :
      IsRun isWord word ->
      Stops isWord rest ->
      (forall (c : Char) (t : Text), rest = ':' :: c :: t -> isWord c = false) ->
      IsTagName rest word
  | prefixed {first second : Text} :
      IsRun isWord first ->
      IsRun isWord second ->
      Stops isWord rest ->
      IsTagName rest (first ++ ':' :: second)

theorem IsTagName.ne_nil (h : IsTagName rest name) : name ≠ [] := by
  cases h with
  | word hword _ _ => exact hword.ne_nil
  | prefixed _ _ _ => simp

theorem IsTagName.not_mem (h : IsTagName rest name) : '>' ∉ name ∧ '/' ∉ name := by
  have hnot : forall {word : Text}, IsRun isWord word -> '>' ∉ word ∧ '/' ∉ word :=
    fun hword => ⟨hword.not_mem (by decide), hword.not_mem (by decide)⟩
  cases h with
  | word hword _ _ => exact hnot hword
  | prefixed hfirst hsecond _ => simp [hnot hfirst, hnot hsecond]

/-- A colon and the word behind it. -/
def colonWord (t : Text) : Text :=
  match t with
  | ':' :: rest => if rest.takeWhile isWord = [] then [] else ':' :: rest.takeWhile isWord
  | _ => []

theorem tagName_eq (t : Text) :
    tagName t =
      if t.takeWhile isWord = [] then []
      else t.takeWhile isWord ++ colonWord (t.dropWhile isWord) := by
  rw [tagName]
  cases t.takeWhile isWord with
  | nil => rfl
  | cons c first =>
      cases t.dropWhile isWord with
      | nil => simp [colonWord]
      | cons d rest =>
          by_cases hcolon : d = ':'
          · subst hcolon
            simp only [colonWord, List.cons_ne_nil, if_false]
            cases rest.takeWhile isWord with
            | nil => simp
            | cons d second => simp
          · simp [colonWord, hcolon]

theorem tagName_append (h : IsTagName rest name) : tagName (name ++ rest) = name := by
  rw [tagName_eq]
  cases h with
  | word hword hstops hcolon =>
      have hnone : colonWord rest = [] := by
        unfold colonWord
        split
        · rename_i following
          rw [if_pos]
          cases following with
          | nil => rfl
          | cons c following =>
              rw [List.takeWhile_cons_of_neg (by simp [hcolon c following rfl])]
        · rfl
      rw [takeWhile_append_of_stops hword.forall_mem hstops,
        dropWhile_append_of_stops hword.forall_mem hstops, if_neg hword.ne_nil, hnone,
        List.append_nil]
  | @prefixed first second hfirst hsecond hstops =>
      have hcolon : Stops isWord (':' :: (second ++ rest)) := stops_cons (by decide) _
      rw [List.append_assoc, List.cons_append, takeWhile_append_of_stops hfirst.forall_mem hcolon,
        dropWhile_append_of_stops hfirst.forall_mem hcolon, if_neg hfirst.ne_nil, colonWord,
        takeWhile_append_of_stops hsecond.forall_mem hstops, if_neg hsecond.ne_nil]

theorem exists_of_tagName (h : tagName t ≠ []) :
    exists rest : Text, t = tagName t ++ rest ∧ IsTagName rest (tagName t) := by
  rw [tagName_eq] at h ⊢
  by_cases hfirst : t.takeWhile isWord = []
  · rw [if_pos hfirst] at h
    exact absurd rfl h
  · rw [if_neg hfirst]
    have hword := isRun_takeWhile hfirst
    have hsplit := List.takeWhile_append_dropWhile (p := isWord) (l := t)
    have hstops := stops_dropWhile isWord t
    generalize t.takeWhile isWord = first at hword hsplit
    generalize t.dropWhile isWord = rest at hsplit hstops
    unfold colonWord
    split
    · rename_i following
      by_cases hsecond : following.takeWhile isWord = []
      · rw [if_pos hsecond, List.append_nil]
        refine ⟨_, hsplit.symm, .word hword hstops ?_⟩
        intro c t heq
        rw [(List.cons.inj heq).2] at hsecond
        rw [Bool.eq_false_iff]
        intro hc
        rw [List.takeWhile_cons_of_pos hc] at hsecond
        cases hsecond
      · rw [if_neg hsecond]
        refine ⟨following.dropWhile isWord, ?_,
          .prefixed hword (isRun_takeWhile hsecond) (stops_dropWhile isWord following)⟩
        rw [List.append_assoc, List.cons_append, List.takeWhile_append_dropWhile, hsplit]
    · rename_i hother
      rw [List.append_nil]
      exact ⟨rest, hsplit.symm, .word hword hstops fun c t heq => absurd heq (hother _)⟩

/-- A name is read in front of the next `>`. -/
theorem tagHead_append_close (t after : Text) : tagHead (t ++ '>' :: after) = tagHead t := by
  have hlead : lead (t ++ '>' :: after) = lead t := by
    induction t with
    | nil => rfl
    | cons c t ih =>
        cases hc : isSpecial c with
        | true => rw [List.cons_append, lead_cons_special hc, lead_cons_special hc]
        | false => rw [List.cons_append, lead_cons hc, lead_cons hc, ih]
  rw [← tagHead_lead, hlead, tagHead_lead]

/-!
# Written tags
-/

structure WrittenTag where
  slash : Bool
  name : Text
  rest : Text
  isTagName : IsTagName rest name
  not_mem_rest : '>' ∉ rest

namespace WrittenTag

variable (w : WrittenTag)

def mark : Text :=
  if w.slash then ['/'] else []

/-- What stands between the angle brackets. -/
def inner : Text :=
  w.mark ++ (w.name ++ w.rest)

def raw : Text :=
  '<' :: (w.inner ++ ['>'])

/-- A tag that ends in `/>`. -/
def IsSelfClosing : Prop :=
  ['/', '>'] <:+ w.raw

instance : Decidable w.IsSelfClosing :=
  inferInstanceAs (Decidable (['/', '>'] <:+ w.raw))

def tag : Tag :=
  if w.IsSelfClosing then .empty w.name
  else if w.slash then .closing w.name
  else .opening w.name

theorem not_mem_inner : '>' ∉ w.inner := by
  have hmark : '>' ∉ w.mark := by
    rw [mark]
    split <;> decide
  simp [inner, hmark, w.isTagName.not_mem, w.not_mem_rest]

theorem inner_ne_nil : w.inner ≠ [] := by
  simp [inner, w.isTagName.ne_nil]

theorem isSelfClosing_iff : w.IsSelfClosing ↔ w.inner.getLast? = some '/' := by
  rw [IsSelfClosing, raw, ← List.cons_append]
  constructor
  · rintro ⟨front, heq⟩
    rw [List.append_cons front '/' ['>']] at heq
    have hboth := (List.append_inj_left' heq rfl).symm
    rw [← List.getLast?_cons_of_ne_nil w.inner_ne_nil, hboth, List.getLast?_concat]
  · intro hlast
    rcases List.getLast?_eq_some_iff.mp hlast with ⟨front, heq⟩
    exact ⟨'<' :: front, by simp [heq]⟩

theorem tagHead_inner : tagHead w.inner = (w.slash, w.name) := by
  have hname := tagName_append w.isTagName
  rw [inner, mark]
  cases w.slash with
  | true =>
      change (true, tagName (w.name ++ w.rest)) = _
      rw [hname]
  | false =>
      rcases List.exists_cons_of_ne_nil w.isTagName.ne_nil with ⟨c, name, heq⟩
      have hc : c ≠ '/' := by
        rintro rfl
        exact w.isTagName.not_mem.2 (by rw [heq]; exact List.mem_cons_self)
      change tagHead (w.name ++ w.rest) = _
      rw [heq] at hname ⊢
      rw [List.cons_append] at hname ⊢
      rw [tagHead_of_ne hc, hname]

theorem tagAfterBracket?_inner (after : Text) :
    tagAfterBracket? (w.inner ++ '>' :: after) = some w.tag := by
  have hinner : forall c, c ∈ w.inner -> (c != '>') = true :=
    fun c hc => bne_iff_ne.mpr (ne_of_mem_of_not_mem hc w.not_mem_inner)
  rw [tagAfterBracket?_eq, Markup.dropWhile_append_cons hinner rfl,
    Markup.takeWhile_append_cons hinner rfl, tagHead_append_close, w.tagHead_inner, tag]
  simp only [w.isSelfClosing_iff, List.isEmpty_iff, List.cons_ne_nil, w.isTagName.ne_nil, if_false]
  split
  · rfl
  · split <;> rfl

/-- Two tags at the front of one text are the same tag. -/
theorem eq_of_append_raw
    {w w' : WrittenTag} {after after' : Text}
    (h : w.raw ++ after = w'.raw ++ after') :
    w = w' ∧ after = after' := by
  simp only [raw, List.cons_append, List.append_assoc, List.cons.injEq, true_and] at h
  rcases Markup.eq_of_append_cons_eq h w.not_mem_inner w'.not_mem_inner with ⟨hinner, hafter⟩
  refine ⟨?_, hafter⟩
  have hhead := congrArg tagHead hinner
  rw [tagHead_inner, tagHead_inner, Prod.mk.injEq] at hhead
  rw [inner, inner, mark, mark, hhead.1, hhead.2, List.append_cancel_left_eq,
    List.append_cancel_left_eq] at hinner
  cases w
  cases w'
  simp only at hhead hinner
  simp [hhead, hinner]

/-- What a name can be read in is the inside of a tag. -/
theorem exists_inner_eq
    (hname : (tagHead t).2 ≠ [])
    (hclose : '>' ∉ t) :
    exists w : WrittenTag, w.inner = t := by
  unfold tagHead at hname
  split at hname
  · rename_i body
    rcases exists_of_tagName hname with ⟨rest, hsplit, hrest⟩
    have hnot : '>' ∉ rest := by
      intro hmem
      rw [hsplit] at hclose
      simp [hmem] at hclose
    refine ⟨⟨true, tagName body, rest, hrest, hnot⟩, ?_⟩
    rw [inner, ← hsplit]
    rfl
  · rcases exists_of_tagName hname with ⟨rest, hsplit, hrest⟩
    have hnot : '>' ∉ rest := by
      intro hmem
      rw [hsplit] at hclose
      simp [hmem] at hclose
    refine ⟨⟨false, tagName t, rest, hrest, hnot⟩, ?_⟩
    rw [inner, ← hsplit]
    rfl

end WrittenTag

theorem exists_writtenTag
    {tag : Tag}
    (h : tagAfterBracket? t = some tag) :
    exists w : WrittenTag, w.raw <+: '<' :: t := by
  rw [tagAfterBracket?_eq] at h
  have hclose : t.dropWhile (· != '>') ≠ [] := by
    intro hnil
    rw [hnil] at h
    cases h
  rcases List.exists_cons_of_ne_nil hclose with ⟨c, after, hdrop⟩
  rcases Markup.exists_append_of_dropWhile hdrop with ⟨inner, rfl, hinner, hc⟩
  rw [bne_eq_false_iff_eq] at hc
  subst hc
  have hnot : '>' ∉ inner := by
    intro hmem
    cases hinner '>' hmem
  have hname : (tagHead inner).2 ≠ [] := by
    intro hnil
    rw [hdrop, tagHead_append_close, hnil] at h
    cases h
  rcases WrittenTag.exists_inner_eq hname hnot with ⟨w, rfl⟩
  exact ⟨w, after, by simp [WrittenTag.raw]⟩

/-!
# Cutting a value
-/

inductive Piece where
  | char (c : Char)
  | tag (w : WrittenTag)

namespace Piece

def raw : Piece -> Text
  | char c => [c]
  | tag w => w.raw

def tag? : Piece -> Option Tag
  | char _ => none
  | tag w => some w.tag

end Piece

/-- The pieces of a value, from left to right. -/
inductive Cut : Text -> List Piece -> Prop where
  | nil : Cut [] []
  | char {c : Char} {t : Text} {pieces : List Piece} :
      (forall w : WrittenTag, ¬ w.raw <+: c :: t) ->
      Cut t pieces ->
      Cut (c :: t) (.char c :: pieces)
  | tag {w : WrittenTag} {t : Text} {pieces : List Piece} :
      Cut t pieces ->
      Cut (w.raw ++ t) (.tag w :: pieces)

theorem exists_cut (value : Text) : exists pieces : List Piece, Cut value pieces := by
  induction hlength : value.length using Nat.strongRecOn generalizing value with
  | ind n ih =>
      subst hlength
      cases value with
      | nil => exact ⟨[], .nil⟩
      | cons c t =>
          by_cases htag : exists w : WrittenTag, w.raw <+: c :: t
          · rcases htag with ⟨w, rest, hrest⟩
            have hshorter : rest.length < (c :: t).length := by
              rw [← hrest, WrittenTag.raw, List.cons_append, List.length_cons, List.length_append]
              omega
            rcases ih _ hshorter rest rfl with ⟨pieces, hcut⟩
            rw [← hrest]
            exact ⟨.tag w :: pieces, .tag hcut⟩
          · rcases ih _ (by simp) t rfl with ⟨pieces, hcut⟩
            exact ⟨.char c :: pieces, .char (not_exists.mp htag) hcut⟩

namespace Cut

variable {pieces pieces' : List Piece}

theorem unique
    (h : Cut t pieces)
    (h' : Cut t pieces') :
    pieces = pieces' := by
  induction h generalizing pieces' with
  | nil =>
      generalize ht : ([] : Text) = t at h'
      cases h' with
      | nil => rfl
      | char => cases ht
      | tag => cases ht
  | @char c t pieces hnone _ ih =>
      generalize hwhole : c :: t = whole at h'
      cases h' with
      | nil => cases hwhole
      | char _ hrest =>
          rw [List.cons.injEq] at hwhole
          rw [← hwhole.2] at hrest
          rw [hwhole.1, ih hrest]
      | @tag w _ _ _ => exact absurd (hwhole ▸ List.prefix_append _ _) (hnone w)
  | @tag w t pieces _ ih =>
      generalize hwhole : w.raw ++ t = whole at h'
      cases h' with
      | nil => cases hwhole
      | char hnone _ => exact absurd (hwhole ▸ List.prefix_append _ _) (hnone w)
      | tag hrest =>
          rcases WrittenTag.eq_of_append_raw hwhole with ⟨rfl, rfl⟩
          rw [ih hrest]

theorem flatMap_raw (h : Cut t pieces) : pieces.flatMap Piece.raw = t := by
  induction h with
  | nil => rfl
  | char _ _ ih => rw [List.flatMap_cons, ih, Piece.raw, List.singleton_append]
  | tag _ ih => rw [List.flatMap_cons, ih, Piece.raw]

theorem tags_eq (h : Cut t pieces) : tags t = pieces.filterMap Piece.tag? := by
  induction h with
  | nil => rw [tags, List.filterMap_nil]
  | @char c t pieces hnone _ ih =>
      have hskip : (if c = '<' then tagAfterBracket? t else none) = none := by
        split
        · rename_i hc
          rw [Option.eq_none_iff_forall_ne_some]
          intro tag htag
          rcases exists_writtenTag htag with ⟨w, hw⟩
          rw [hc] at hnone
          exact hnone w hw
        · rfl
      rw [tags_cons, hskip, ih]
      rfl
  | @tag w t pieces _ ih =>
      have hinner : forall c, c ∈ w.inner -> (c != '>') = true :=
        fun c hc => bne_iff_ne.mpr (ne_of_mem_of_not_mem hc w.not_mem_inner)
      have hclose : tags ('>' :: t) = tags t := by
        rw [tags_cons, if_neg (by decide)]
      rw [WrittenTag.raw, List.cons_append, List.append_assoc, List.singleton_append, tags_cons,
        if_pos rfl, w.tagAfterBracket?_inner, Markup.dropWhile_append_cons hinner rfl, hclose, ih]
      rfl

end Cut

end Value
end AndroidStrings
