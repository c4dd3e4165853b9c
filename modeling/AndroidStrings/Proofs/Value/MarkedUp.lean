import AndroidStrings.Proofs.Value.MarkupTag
import AndroidStrings.Proofs.Value.RoundTrip

/-!
# Escaping of a text with tags

A marked-up text is a sequence of plain pieces and XML tags.  Escaping puts backslashes into it and
does nothing else, as soon as one of the tags is an inline tag: one whose name begins with a letter.
The writer looks for an inline tag in what it wrote since the last `<` if no `>` followed.  So it
keeps the quotes of a tag up to the first `>`, which may stand in the value of an attribute.

## Main statement

`keepsMarkup_iff` : when the backslashes stand in the plain pieces only.
-/

namespace AndroidStrings

open CharClass InlineTag Text

/-!
# Quotes that stay
-/

namespace Text

variable {previous : Option Char} {opened : Option Text} {c : Char} {s front : Text}

/-- The writer finds each quote behind a backslash or inside a tag. -/
def QuotesStay (previous : Option Char) (opened : Option Text) (s : Text) : Prop :=
  forall front (c : Char) back, s = front ++ c :: back -> isQuote c = true ->
    front.getLast?.or previous = some '\\' ∨ insideTag (front.foldl trackOpen opened) = true

theorem quotesStay_cons_iff :
    QuotesStay previous opened (c :: s) ↔
      (isQuote c = true -> previous = some '\\' ∨ insideTag opened = true) ∧
        QuotesStay (some c) (trackOpen opened c) s := by
  constructor
  · intro h
    refine ⟨h [] c s rfl, ?_⟩
    intro front d back hs hd
    have hstays := h (c :: front) d back (by rw [hs, List.cons_append]) hd
    rwa [List.getLast?_cons, Option.some_or, ← Option.or_some] at hstays
  · rintro ⟨hfirst, hrest⟩ front d back hs hd
    cases front with
    | nil =>
        rw [List.nil_append, List.cons.injEq] at hs
        rw [← hs.1] at hd
        exact hfirst hd
    | cons e front =>
        rw [List.cons_append, List.cons.injEq] at hs
        rw [← hs.1, List.getLast?_cons, Option.some_or, ← Option.or_some]
        exact hrest front d back hs.2 hd

theorem escapeQuotesFrom_of_quotesStay
    (h : QuotesStay previous opened s)
    (t : Text) :
    exists previous' : Option Char,
      escapeQuotesFrom previous opened (s ++ t) =
        s ++ escapeQuotesFrom previous' (s.foldl trackOpen opened) t := by
  induction s generalizing previous opened with
  | nil => exact ⟨previous, rfl⟩
  | cons c s ih =>
      rcases quotesStay_cons_iff.mp h with ⟨hfirst, hrest⟩
      have hkept : ¬ (isQuote c ∧ previous ≠ some '\\' ∧ insideTag opened = false) := by
        rintro ⟨hquote, hprevious, hinside⟩
        rcases hfirst hquote with hbackslash | htag
        · exact hprevious hbackslash
        · exact ne_true_of_eq_false hinside htag
      rcases ih hrest with ⟨previous', htail⟩
      refine ⟨previous', ?_⟩
      rw [List.cons_append, escapeQuotesFrom, if_neg hkept, htail]
      rfl

/-- A quote that does not stay is written with a backslash. -/
theorem exists_escapeQuotesFrom_of_not_quotesStay
    (h : ¬ QuotesStay previous opened s)
    (t : Text) :
    exists (front back rest : Text) (c : Char),
      s = front ++ c :: back ∧ isQuote c = true ∧
        escapeQuotesFrom previous opened (s ++ t) = front ++ '\\' :: rest := by
  induction s generalizing previous opened with
  | nil =>
      refine absurd ?_ h
      intro front c back hs _
      simp at hs
  | cons c s ih =>
      rw [List.cons_append, escapeQuotesFrom]
      split
      · rename_i hescaped
        exact ⟨[], s, _, c, rfl, hescaped.1, rfl⟩
      · rename_i hkept
        have hfirst : isQuote c = true -> previous = some '\\' ∨ insideTag opened = true := by
          intro hquote
          by_contra hnot
          rw [not_or, Bool.not_eq_true] at hnot
          exact hkept ⟨hquote, hnot⟩
        have hrest : ¬ QuotesStay (some c) (trackOpen opened c) s :=
          fun hstay => h (quotesStay_cons_iff.mpr ⟨hfirst, hstay⟩)
        rcases ih hrest with ⟨front, back, rest, d, rfl, hd, hwritten⟩
        exact ⟨c :: front, back, rest, d, rfl, hd, by rw [hwritten, List.cons_append]⟩

theorem foldl_trackOpen_none (h : '<' ∉ s) : s.foldl trackOpen none = none := by
  induction s with
  | nil => rfl
  | cons c s ih =>
      rw [List.mem_cons, not_or] at h
      have hnone : trackOpen none c = none := by
        simp [trackOpen, Ne.symm h.1]
      rw [List.foldl_cons, hnone, ih h.2]

theorem foldl_trackOpen_some
    {done : Text}
    (h : '<' ∉ s) :
    s.foldl trackOpen (some done) = if '>' ∈ s then none else some (done ++ s) := by
  induction s generalizing done with
  | nil => simp
  | cons c s ih =>
      rw [List.mem_cons, not_or] at h
      by_cases hc : c = '>'
      · have hclosed : trackOpen (some done) c = none := by
          simp [trackOpen, hc]
        rw [List.foldl_cons, hclosed, foldl_trackOpen_none h.2, if_pos (by simp [hc])]
      · have hopened : trackOpen (some done) c = some (done ++ [c]) := by
          simp [trackOpen, hc, Ne.symm h.1]
        rw [List.foldl_cons, hopened, ih h.2, List.append_assoc, List.singleton_append]
        simp only [List.mem_cons, Ne.symm hc, false_or]

end Text

/-!
# Quotes in a tag
-/

namespace MarkedUp

variable {c : Char} {t : Text}

namespace Tag

/-- Every quote of the tag stands behind a backslash, or the tag is an inline tag and no `>` stands
in front of the quote. -/
def KeepsQuotes (tag : Tag) : Prop :=
  forall front (c : Char) back, tag.raw = front ++ c :: back -> isQuote c = true ->
    front.getLast? = some '\\' ∨ isAsciiLetter tag.name.first = true ∧ '>' ∉ front

variable {tag : Tag} {front back : Text}

/-- The writer is inside an inline tag until a `>` comes. -/
theorem insideTag_iff
    (h : tag.inner ++ ['>'] = front ++ c :: back)
    (hc : isQuote c = true) :
    insideTag (front.foldl trackOpen (some ['<'])) = true ↔
      isAsciiLetter tag.name.first = true ∧ '>' ∉ front := by
  have hnone := tag.not_mem_tail
  rw [h, List.mem_append, not_or] at hnone
  rw [foldl_trackOpen_some hnone.1]
  by_cases hclosed : '>' ∈ front
  · simp [hclosed, insideTag]
  · have hinner : IsInner front := by
      intro d hd
      constructor
      · rintro rfl
        exact hnone.1 hd
      · rintro rfl
        exact hclosed hd
    have hopen : '<' ∉ front ++ ['>'] := by
      simp [hnone.1]
    rw [if_neg hclosed, insideTag, List.append_assoc, List.singleton_append, occursIn,
      occursIn_eq_false hopen, Bool.or_false, and_iff_left hclosed]
    constructor
    · intro hbegins
      rcases exists_front_eq h hc with ⟨rest, rfl⟩
      rw [List.append_assoc, List.cons_append, beginsAt_mark tag.mark_eq tag.first_ne.1,
        isNamedTag, Bool.and_eq_true] at hbegins
      exact hbegins.1
    · intro hletter
      have hbegins := tag.beginsAt_raw []
      rw [List.append_nil, hletter, raw, h] at hbegins
      exact beginsAt_of_quote hinner hc hbegins

theorem keepsQuotes_iff (previous : Option Char) (opened : Option Text) :
    tag.KeepsQuotes ↔ QuotesStay previous opened tag.raw := by
  refine forall_congr' fun front => forall_congr' fun c => forall_congr' fun back => ?_
  refine imp_congr_right fun hraw => imp_congr_right fun hc => ?_
  cases front with
  | nil =>
      rw [List.nil_append, raw, List.cons.injEq] at hraw
      exact absurd hraw.1.symm (ne_of_isQuote hc).1
  | cons d front =>
      rw [List.cons_append, raw, List.cons.injEq] at hraw
      have hbracket : '>' ∉ '<' :: front ↔ '>' ∉ front := by simp
      rw [← hraw.1, List.foldl_cons]
      change _ ↔ _ ∨ insideTag (front.foldl trackOpen (some ['<'])) = true
      rw [insideTag_iff hraw.2 hc, List.getLast?_cons, Option.some_or, hbracket]

/-- An inline tag is kept where no `>` stands in the values of its attributes. -/
theorem keepsQuotes_of_inline
    (hletter : isAsciiLetter tag.name.first = true)
    (hclosed : '>' ∉ tag.inner) :
    tag.KeepsQuotes := by
  intro front c back hraw hc
  refine .inr ⟨hletter, ?_⟩
  rw [raw, ← List.cons_append, eq_comm, List.append_eq_append_iff] at hraw
  rcases hraw with ⟨rest, hinner, _⟩ | ⟨rest, hfront, hback⟩
  · intro hmem
    refine hclosed ?_
    have hmem' := List.mem_append_left rest hmem
    rw [← hinner] at hmem'
    simpa using hmem'
  · cases rest with
    | nil => simpa [hfront] using hclosed
    | cons d rest => simp at hback

end Tag

/-!
# Pieces
-/

/-- A part of a marked-up text. -/
inductive Piece where
  | plain (content : Text) (isPlain : forall c, c ∈ content -> c ≠ '<' ∧ c ≠ '>' ∧ c ≠ '&')
  | markup (tag : Tag)

def Piece.raw : Piece -> Text
  | plain content _ => content
  | markup tag => tag.raw

def raw (pieces : List Piece) : Text :=
  pieces.flatMap Piece.raw

/-- One text is another one with backslashes put in. -/
inductive Backslashed : Text -> Text -> Prop where
  | nil : Backslashed [] []
  | kept {c : Char} {t written : Text} :
      Backslashed t written ->
      Backslashed (c :: t) (c :: written)
  | inserted {t written : Text} :
      Backslashed t written ->
      Backslashed t ('\\' :: written)

/-- Backslashes are put into plain pieces, and tags are kept. -/
def Piece.KeptAs : Piece -> Text -> Prop
  | plain content _, written => Backslashed content written
  | markup tag, written => written = tag.raw

/-- Escaping puts backslashes into the plain pieces and does nothing else. -/
def KeepsMarkup (pieces : List Piece) : Prop :=
  exists written : List Text,
    List.Forall₂ Piece.KeptAs pieces written ∧ escapeValue (raw pieces) = written.flatten

/-!
# The passes over the pieces
-/

theorem raw_cons (piece : Piece) (pieces : List Piece) :
    raw (piece :: pieces) = piece.raw ++ raw pieces :=
  rfl

theorem not_mem_raw (pieces : List Piece) : '&' ∉ raw pieces := by
  induction pieces with
  | nil => simp [raw]
  | cons piece pieces ih =>
      rw [raw_cons, List.mem_append, not_or]
      refine ⟨?_, ih⟩
      cases piece with
      | plain content hplain => exact fun hmem => (hplain '&' hmem).2.2 rfl
      | markup tag => simp [Piece.raw, Tag.raw, tag.isHeld_inner.2]

theorem occursIn_raw_iff {pieces : List Piece} :
    occursIn (raw pieces) = true ↔
      exists tag : Tag, Piece.markup tag ∈ pieces ∧ isAsciiLetter tag.name.first = true := by
  induction pieces with
  | nil => simp [raw, occursIn]
  | cons piece pieces ih =>
      rw [raw_cons]
      cases piece with
      | plain content hplain =>
          have hnone : '<' ∉ content := fun hmem => (hplain '<' hmem).1 rfl
          rw [Piece.raw, occursIn_append hnone, ih]
          simp
      | markup tag =>
          have hbegins := tag.beginsAt_raw (raw pieces)
          rw [Tag.raw, List.cons_append] at hbegins
          rw [Piece.raw, Tag.raw, List.cons_append, occursIn, occursIn_append tag.not_mem_tail,
            hbegins, Bool.or_eq_true, ih]
          simp

/-- Without ampersands, only angle brackets and quotes are escaped. -/
theorem keepsAngles_raw (pieces : List Piece) :
    keepsAngles (raw pieces).plainQuotes = occursIn (raw pieces) ∧
      (raw pieces).plainQuotes.escapeBareAmpersands = raw pieces := by
  have hentity : forall name : Text, ¬ '&' :: name <:+: raw pieces :=
    fun name hpart => not_mem_raw pieces (hpart.subset List.mem_cons_self)
  have hreferences : HasReferencesOnly (raw pieces) := by
    intro front back heq
    refine absurd ?_ (not_mem_raw pieces)
    rw [heq]
    simp
  have hplain : (raw pieces).plainQuotes = raw pieces :=
    plainQuotes_eq_self (hentity _) (hentity _)
  have hescapes : (raw pieces).hasEscapes = false := by
    rw [Bool.eq_false_iff, Ne, hasEscapes_iff]
    rintro ⟨c, hc, hpart⟩
    rcases exists_escapeOf_of_mem_markupChars hc with ⟨name, hname, _, _⟩
    rw [hname] at hpart
    exact hentity name hpart
  rw [hplain, keepsAngles, escapeBareAmpersands_eq_self hreferences, hescapes, Bool.false_or]
  exact ⟨rfl, rfl⟩

theorem escapeValue_raw
    {pieces : List Piece}
    (h : occursIn (raw pieces) = true) :
    escapeValue (raw pieces) = escapeQuotesFrom none none (raw pieces) := by
  rcases keepsAngles_raw pieces with ⟨hkeeps, hwritten⟩
  rw [escapeValue_of_keepsAngles (hkeeps.trans h), hwritten]
  rfl

/-- A plain piece leaves the writer outside of tags. -/
theorem exists_backslashed
    {content : Text}
    (h : '<' ∉ content)
    (previous : Option Char) (t : Text) :
    exists (written : Text) (previous' : Option Char),
      Backslashed content written ∧
        escapeQuotesFrom previous none (content ++ t) =
          written ++ escapeQuotesFrom previous' none t := by
  induction content generalizing previous with
  | nil => exact ⟨[], previous, .nil, rfl⟩
  | cons c content ih =>
      rw [List.mem_cons, not_or] at h
      have hnone : trackOpen none c = none := by
        simp [trackOpen, Ne.symm h.1]
      have hbackslash : trackOpen none '\\' = none := rfl
      rcases ih h.2 (some c) with ⟨written, previous', hwritten, hrest⟩
      rw [List.cons_append, escapeQuotesFrom, hbackslash, hnone, hrest]
      split
      · exact ⟨'\\' :: c :: written, previous', hwritten.kept.inserted, rfl⟩
      · exact ⟨c :: written, previous', hwritten.kept, rfl⟩

theorem Backslashed.not_mem
    {written : Text}
    (h : Backslashed t written)
    (hopen : '<' ∉ t) :
    '<' ∉ written := by
  induction h with
  | nil => exact hopen
  | kept _ ih =>
      rw [List.mem_cons, not_or] at hopen ⊢
      exact ⟨hopen.1, ih hopen.2⟩
  | inserted _ ih => simp [ih hopen]

/-- A tag whose quotes stay leaves the writer outside of tags. -/
theorem Tag.escapeQuotesFrom_raw
    {tag : Tag}
    (h : tag.KeepsQuotes)
    (previous : Option Char) (t : Text) :
    exists previous' : Option Char,
      escapeQuotesFrom previous none (tag.raw ++ t) =
        tag.raw ++ escapeQuotesFrom previous' none t := by
  have hstay := (tag.keepsQuotes_iff previous none).mp h
  have hclosed : tag.raw.foldl trackOpen none = none := by
    rw [Tag.raw, ← List.cons_append, List.foldl_append]
    rfl
  rcases escapeQuotesFrom_of_quotesStay hstay t with ⟨previous', hwritten⟩
  rw [hclosed] at hwritten
  exact ⟨previous', hwritten⟩

theorem exists_written
    {pieces : List Piece}
    (h : forall tag : Tag, Piece.markup tag ∈ pieces -> tag.KeepsQuotes)
    (previous : Option Char) :
    exists written : List Text,
      List.Forall₂ Piece.KeptAs pieces written ∧
        escapeQuotesFrom previous none (raw pieces) = written.flatten := by
  induction pieces generalizing previous with
  | nil => exact ⟨[], .nil, rfl⟩
  | cons piece pieces ih =>
      have hpieces := ih fun tag htag => h tag (List.mem_cons_of_mem piece htag)
      rw [raw_cons]
      cases piece with
      | plain content hplain =>
          have hopen : '<' ∉ content := fun hmem => (hplain '<' hmem).1 rfl
          rcases exists_backslashed hopen previous (raw pieces) with
            ⟨front, previous', hfront, hwritten⟩
          rcases hpieces previous' with ⟨written, hkept, hrest⟩
          refine ⟨front :: written, .cons hfront hkept, ?_⟩
          rw [Piece.raw, hwritten, hrest, List.flatten_cons]
      | markup tag =>
          rcases Tag.escapeQuotesFrom_raw (h tag List.mem_cons_self) previous (raw pieces) with
            ⟨previous', hwritten⟩
          rcases hpieces previous' with ⟨written, hkept, hrest⟩
          refine ⟨tag.raw :: written, .cons rfl hkept, ?_⟩
          rw [Piece.raw, hwritten, hrest, List.flatten_cons]

theorem Tag.keepsQuotes_of_written
    {tag : Tag} {previous : Option Char} {front front' t rest : Text}
    (h : front ++ escapeQuotesFrom previous none (tag.raw ++ t) = front' ++ (tag.raw ++ rest))
    (hfront : '<' ∉ front)
    (hfront' : '<' ∉ front') :
    tag.KeepsQuotes := by
  by_contra hnot
  rw [Tag.keepsQuotes_iff previous none] at hnot
  rcases exists_escapeQuotesFrom_of_not_quotesStay hnot t with
    ⟨inner, back, rest', c, hraw, hc, hwritten⟩
  rw [hwritten, hraw] at h
  cases inner with
  | nil =>
      rw [List.nil_append, Tag.raw, List.cons.injEq] at hraw
      exact (ne_of_isQuote hc).1 hraw.1.symm
  | cons d inner =>
      rw [List.cons_append, Tag.raw, List.cons.injEq] at hraw
      rw [← hraw.1] at h
      simp only [List.cons_append, List.append_assoc] at h
      have heq := List.append_cancel_left (Markup.eq_of_append_cons_eq h hfront hfront').2
      rw [← (List.cons.inj heq).1] at hc
      cases hc

/-- Between the tags there is no `<`, so the first one that is written is that of the first tag. -/
theorem keepsQuotes_of_written
    {pieces : List Piece} {written : List Text} {front front' : Text} {previous : Option Char}
    (hkept : List.Forall₂ Piece.KeptAs pieces written)
    (hfront : '<' ∉ front)
    (hfront' : '<' ∉ front')
    (h : front ++ escapeQuotesFrom previous none (raw pieces) = front' ++ written.flatten)
    (tag : Tag)
    (htag : Piece.markup tag ∈ pieces) :
    tag.KeepsQuotes := by
  induction hkept generalizing front front' previous with
  | nil => cases htag
  | @cons piece out pieces written hout _ ih =>
      rw [raw_cons, List.flatten_cons] at h
      cases piece with
      | plain content hplain =>
          have hopen : '<' ∉ content := fun hmem => (hplain '<' hmem).1 rfl
          have hout : '<' ∉ out := Backslashed.not_mem hout hopen
          rcases exists_backslashed hopen previous (raw pieces) with
            ⟨inner, previous', hinner, hwritten⟩
          have hinner : '<' ∉ inner := hinner.not_mem hopen
          rw [Piece.raw, hwritten, ← List.append_assoc, ← List.append_assoc] at h
          refine ih ?_ ?_ h (by simpa using htag)
          · simp [hfront, hinner]
          · simp [hfront', hout]
      | markup first =>
          have hout : out = first.raw := hout
          rw [Piece.raw, hout] at h
          have hfirst := Tag.keepsQuotes_of_written h hfront hfront'
          rcases List.mem_cons.mp htag with heq | hlater
          · rw [Piece.markup.injEq] at heq
            rwa [heq]
          · rcases Tag.escapeQuotesFrom_raw hfirst previous (raw pieces) with
              ⟨previous', hwritten⟩
            rw [hwritten, Tag.raw, List.cons_append, List.cons_append] at h
            have hrest := List.append_cancel_left (Markup.eq_of_append_cons_eq h hfront hfront').2
            exact ih List.not_mem_nil List.not_mem_nil hrest hlater

theorem open_mem_flatten
    {pieces : List Piece} {written : List Text} {tag : Tag}
    (hkept : List.Forall₂ Piece.KeptAs pieces written)
    (htag : Piece.markup tag ∈ pieces) :
    '<' ∈ written.flatten := by
  induction hkept with
  | nil => cases htag
  | @cons piece out pieces written hout _ ih =>
      rw [List.flatten_cons, List.mem_append]
      rcases List.mem_cons.mp htag with rfl | hlater
      · have hout : out = tag.raw := hout
        rw [hout]
        exact .inl List.mem_cons_self
      · exact .inr (ih hlater)

/-- Backslashes are put into the plain pieces only exactly when one of the tags is an inline tag,
and every quote in a tag stands behind a backslash, or in an inline tag before its first `>`. -/
theorem keepsMarkup_iff
    {pieces : List Piece}
    (hmarkup : exists tag : Tag, Piece.markup tag ∈ pieces) :
    KeepsMarkup pieces ↔
      (exists tag : Tag, Piece.markup tag ∈ pieces ∧ isAsciiLetter tag.name.first = true) ∧
        forall tag : Tag, Piece.markup tag ∈ pieces -> tag.KeepsQuotes := by
  rw [← occursIn_raw_iff]
  constructor
  · rintro ⟨written, hkept, hwritten⟩
    cases hinline : occursIn (raw pieces) with
    | true =>
        rw [escapeValue_raw hinline] at hwritten
        exact ⟨rfl, keepsQuotes_of_written hkept List.not_mem_nil List.not_mem_nil hwritten⟩
    | false =>
        -- Angle brackets have become entities, those of the tags too.
        rcases hmarkup with ⟨tag, htag⟩
        rcases keepsAngles_raw pieces with ⟨hkeeps, _⟩
        have hinner := isInner_escapeQuotes
          (isInner_escapeAngles (raw pieces).plainQuotes.escapeBareAmpersands)
        rw [← escapeValue_of_not_keepsAngles (hkeeps.trans hinline), hwritten] at hinner
        exact absurd rfl (hinner '<' (open_mem_flatten hkept htag)).1
  · rintro ⟨hinline, hquotes⟩
    rcases exists_written hquotes none with ⟨written, hkept, hwritten⟩
    exact ⟨written, hkept, (escapeValue_raw hinline).trans hwritten⟩

/-- An `<a>` with a value for its one attribute. -/
def anchor (value : Text) (quoted : forall c, c ∈ value -> c ≠ '<' ∧ c ≠ '&' ∧ c ≠ '"') : Tag :=
  .opening
    ⟨'a', [], by decide, List.forall_mem_nil _⟩
    [{  blank := ⟨[' '], List.forall_mem_singleton.mpr rfl⟩
        key := ['t']
        before := ⟨[], List.forall_mem_nil _⟩
        after := ⟨[], List.forall_mem_nil _⟩
        quote := '"'
        value
        blank_ne_nil := by decide
        key_ne_nil := by decide
        isKeyChar_key := List.forall_mem_singleton.mpr rfl
        isQuote_quote := by decide
        quoted }]
    ⟨[], List.forall_mem_nil _⟩

/-- A quote in a plain piece is escaped, and those of a tag are kept. -/
theorem keepsMarkup_iff_anchor :
    KeepsMarkup [.plain "It's ".toList (by simp), .markup (anchor ['x'] (by simp))] := by
  refine (keepsMarkup_iff ⟨anchor ['x'] (by simp), by simp⟩).mpr
    ⟨⟨anchor ['x'] (by simp), by simp, by decide⟩, ?_⟩
  intro tag htag
  have heq : tag = anchor ['x'] (by simp) := by simpa using htag
  rw [heq]
  exact Tag.keepsQuotes_of_inline (by decide) (by decide)

/-- The value of an attribute may hold a `>`; the quote behind it is escaped. -/
theorem not_keepsMarkup_bracket : ¬ KeepsMarkup [.markup (anchor ['>'] (by simp))] := by
  rintro ⟨written, hkept, hwritten⟩
  cases hkept with
  | @cons _ out _ rest hout hrest =>
      cases hrest
      have hout : out = (anchor ['>'] (by simp)).raw := hout
      rw [hout] at hwritten
      exact absurd hwritten (by decide +kernel)

end MarkedUp
end AndroidStrings
