import Mathlib.Tactic.SplitIfs
import AndroidStrings.Proofs.Document.Cursor
import AndroidStrings.Text.Encoding

/-!
# Reading what was written

A character is written in one to four bytes.  The first of them says how many follow and which
range the next one is in, and reading puts the same bits together again, so a text is read as it
was written.  A file without a mark is UTF-8, and no text that is written begins like UTF-16; only
a text that begins with a mark of its own loses it.

## Main statements

- `readChar_encode` : the bytes of a character are read as the character.
- `decodeUtf8_encode` : bytes that were written are read as the text.
- `decode_encode` : a file that was written is read as the text, unless the text begins with a
  mark.
-/

namespace AndroidStrings
namespace Encoding

/-!
# One character
-/

/-- A byte that follows adds six bits. -/
theorem readFollowing_cons
    {following low high code bits : Nat}
    (hbits : bits < 64)
    (hlow : low ≤ bits + 128)
    (hhigh : bits + 128 ≤ high)
    (bytes : Bytes) :
    readFollowing (following + 1) low high code (UInt8.ofNat (bits + 128) :: bytes) =
      readFollowing following 0x80 0xBF (code * 64 + bits) bytes := by
  have hbyte : (UInt8.ofNat (bits + 128)).toNat = bits + 128 := by
    rw [UInt8.toNat_ofNat']
    omega
  rw [readFollowing, hbyte, if_pos ⟨hlow, hhigh⟩, Nat.add_sub_cancel]

theorem readChar_cons
    {b following low high bits : Nat}
    (hb : b < 256)
    (hlead : lead? b = some ⟨following, low, high, bits⟩)
    (bytes : Bytes) :
    readChar (UInt8.ofNat b) bytes = readFollowing following low high bits bytes := by
  have hbyte : (UInt8.ofNat b).toNat = b := by
    rw [UInt8.toNat_ofNat']
    omega
  rw [readChar, hbyte, hlead]

/-- The first byte of two. -/
theorem lead?_two
    {code : Nat}
    (hlow : 0x80 ≤ code)
    (hhigh : code < 0x800) :
    lead? (code / 64 + 0xC0) = some ⟨1, 0x80, 0xBF, code / 64⟩ := by
  unfold lead?
  rw [if_neg (by omega), if_pos (by omega), Nat.add_sub_cancel]

/-- The first byte of three: its range for the next byte leaves out what shorter forms say, and
the surrogates. -/
theorem exists_lead?_three
    {code : Nat}
    (hlow : 0x800 ≤ code)
    (hhigh : code < 0x10000)
    (hvalid : code < 0xD800 ∨ 0xDFFF < code) :
    exists low high : Nat,
      lead? (code / 4096 + 0xE0) = some ⟨2, low, high, code / 4096⟩ ∧
        low ≤ code / 64 % 64 + 128 ∧ code / 64 % 64 + 128 ≤ high := by
  have hcases : code / 4096 = 0 ∨ code / 4096 = 13 ∨
      (code / 4096 ≠ 0 ∧ code / 4096 ≠ 13) := by
    omega
  rcases hcases with hzero | hthirteen | ⟨hzero, hthirteen⟩
  · exact ⟨0xA0, 0xBF, by rw [hzero]; rfl, by omega, by omega⟩
  · exact ⟨0x80, 0x9F, by rw [hthirteen]; rfl, by omega, by omega⟩
  · refine ⟨0x80, 0xBF, ?_, by omega, by omega⟩
    unfold lead?
    rw [if_neg (by omega), if_neg (by omega), if_neg (by omega), if_neg (by omega),
      if_pos (by omega), Nat.add_sub_cancel]

/-- The first byte of four: what follows it is above the shorter forms and below the end of the
characters. -/
theorem exists_lead?_four
    {code : Nat}
    (hlow : 0x10000 ≤ code)
    (hhigh : code < 0x110000) :
    exists low high : Nat,
      lead? (code / 262144 + 0xF0) = some ⟨3, low, high, code / 262144⟩ ∧
        low ≤ code / 4096 % 64 + 128 ∧ code / 4096 % 64 + 128 ≤ high := by
  have hcases : code / 262144 = 0 ∨ code / 262144 = 4 ∨
      (code / 262144 ≠ 0 ∧ code / 262144 ≠ 4) := by
    omega
  rcases hcases with hzero | hfour | ⟨hzero, hfour⟩
  · exact ⟨0x90, 0xBF, by rw [hzero]; rfl, by omega, by omega⟩
  · exact ⟨0x80, 0x8F, by rw [hfour]; rfl, by omega, by omega⟩
  · refine ⟨0x80, 0xBF, ?_, by omega, by omega⟩
    unfold lead?
    rw [if_neg (by omega), if_neg (by omega), if_neg (by omega), if_neg (by omega),
      if_neg (by omega), if_neg (by omega), if_pos (by omega), Nat.add_sub_cancel]

/-- The bytes of a character are read as the character. -/
theorem readChar_encode (c : Char) :
    exists (first : UInt8) (following : Bytes),
      String.utf8EncodeChar c = first :: following ∧
        forall bytes : Bytes, readChar first (following ++ bytes) = (c, bytes) := by
  have hvalid : c.toNat < 0xD800 ∨ 0xDFFF < c.toNat ∧ c.toNat < 0x110000 := c.valid
  have hread : forall code : Nat, code = c.toNat -> Char.ofNat code = c := by
    intro code hcode
    rw [hcode, Char.ofNat_toNat]
  unfold String.utf8EncodeChar
  simp only [show c.val.toNat = c.toNat from rfl]
  split_ifs with hone htwo hthree
  · have hlead : lead? c.toNat = some ⟨0, 0, 0, c.toNat⟩ := if_pos (by omega)
    refine ⟨_, _, rfl, fun bytes => ?_⟩
    rw [readChar_cons (by omega) hlead, readFollowing, hread _ rfl, List.nil_append]
  · have hbits : c.toNat / 64 % 32 = c.toNat / 64 := by omega
    rw [hbits]
    have hlead : lead? (c.toNat / 64 + 192) = some ⟨1, 0x80, 0xBF, c.toNat / 64⟩ :=
      lead?_two (by omega) (by omega)
    refine ⟨_, _, rfl, fun bytes => ?_⟩
    rw [readChar_cons (by omega) hlead, List.cons_append,
      readFollowing_cons (by omega) (by omega) (by omega), readFollowing, hread _ (by omega),
      List.nil_append]
  · have hbits : c.toNat / 4096 % 16 = c.toNat / 4096 := by omega
    rw [hbits]
    have hlow : 0x800 ≤ c.toNat := by omega
    rcases exists_lead?_three hlow (by omega) (by omega) with ⟨low, high, hlead, hlow, hhigh⟩
    refine ⟨_, _, rfl, fun bytes => ?_⟩
    rw [readChar_cons (by omega) hlead, List.cons_append,
      readFollowing_cons (by omega) hlow hhigh, List.cons_append,
      readFollowing_cons (by omega) (by omega) (by omega), readFollowing, hread _ (by omega),
      List.nil_append]
  · have hbits : c.toNat / 262144 % 8 = c.toNat / 262144 := by omega
    rw [hbits]
    have hlow : 0x10000 ≤ c.toNat := by omega
    rcases exists_lead?_four hlow (by omega) with ⟨low, high, hlead, hlow, hhigh⟩
    refine ⟨_, _, rfl, fun bytes => ?_⟩
    rw [readChar_cons (by omega) hlead, List.cons_append,
      readFollowing_cons (by omega) hlow hhigh, List.cons_append,
      readFollowing_cons (by omega) (by omega) (by omega), List.cons_append,
      readFollowing_cons (by omega) (by omega) (by omega), readFollowing, hread _ (by omega),
      List.nil_append]

/-!
# Texts and files
-/

/-- Bytes that were written are read as the text. -/
theorem decodeUtf8_encode (text : Text) : decodeUtf8 (encode text) = text := by
  induction text with
  | nil => simp [encode, decodeUtf8]
  | cons c text ih =>
      rcases readChar_encode c with ⟨first, following, hbytes, hread⟩
      have hencode : encode (c :: text) = first :: (following ++ encode text) := by
        simp [encode, hbytes]
      rw [hencode, decodeUtf8, hread, ih]

theorem decode_eq_decodeUtf8
    {bytes : Bytes}
    (hutf8 : forall rest : Bytes, bytes ≠ 0xEF :: 0xBB :: 0xBF :: rest)
    (hlow : forall rest : Bytes, bytes ≠ 0xFF :: rest)
    (hhigh : forall rest : Bytes, bytes ≠ 0xFE :: rest) :
    decode bytes = decodeUtf8 bytes := by
  unfold decode
  split
  · rename_i rest
    exact absurd rfl (hutf8 rest)
  · rename_i b rest
    exact absurd rfl (hlow (0xFE :: b :: rest))
  · rename_i b rest
    exact absurd rfl (hhigh (0xFF :: b :: rest))
  · rfl

/-- No character is written with a first byte that is none. -/
theorem encode_ne_cons
    {first : UInt8}
    (hnone : lead? first.toNat = none)
    (text : Text) (rest : Bytes) :
    encode text ≠ first :: rest := by
  intro hbytes
  -- Such a byte is read as the replacement character, which is written with other bytes.
  have htext : decodeUtf8 (encode text) = replacement :: decodeUtf8 rest := by
    rw [hbytes, decodeUtf8, readChar, hnone]
  rw [decodeUtf8_encode] at htext
  have hfirst : encode text = [0xEF, 0xBF, 0xBD] ++ encode (decodeUtf8 rest) := by
    rw [htext]
    rfl
  rw [hbytes, List.cons_append, List.cons.injEq] at hfirst
  rw [hfirst.1] at hnone
  exact absurd hnone (by decide)

/-- A file that was written is read as the text, unless the text begins with a mark. -/
theorem decode_encode
    {text : Text}
    (hplain : Document.PlainStart text) :
    decode (encode text) = text := by
  have hmark : forall rest : Bytes, encode text ≠ 0xEF :: 0xBB :: 0xBF :: rest := by
    intro rest hbytes
    have hread : readChar 0xEF (0xBB :: 0xBF :: rest) = (Markup.byteOrderMark, rest) := rfl
    have htext : decodeUtf8 (encode text) = Markup.byteOrderMark :: decodeUtf8 rest := by
      rw [hbytes, decodeUtf8, hread]
    rw [decodeUtf8_encode] at htext
    rw [htext] at hplain
    exact hplain rfl
  rw [decode_eq_decodeUtf8 hmark (encode_ne_cons rfl text) (encode_ne_cons rfl text),
    decodeUtf8_encode]

end Encoding
end AndroidStrings
