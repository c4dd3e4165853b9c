import AndroidStrings.Text.Basic

/-!
# Bytes and text

Files hold bytes.  A mark at the front of a file of at least three bytes says that it is UTF-16,
with the low or the high byte first; every other file is UTF-8.  One mark is dropped, and bytes
that are no character are read as the replacement character.  Text is written as UTF-8 without a
mark.
-/

namespace AndroidStrings

abbrev Bytes := List UInt8

namespace Encoding

def replacement : Char :=
  '\ufffd'

/-!
## UTF-8
-/

/-- What the first byte of a character says: how many bytes follow, the range that the next one
must be in, and the bits it contributes. -/
structure Lead where
  following : Nat
  low : Nat
  high : Nat
  bits : Nat
  deriving DecidableEq, Repr

def lead? (b : Nat) : Option Lead :=
  if b < 0x80 then some ⟨0, 0, 0, b⟩
  else if 0xC2 ≤ b ∧ b ≤ 0xDF then some ⟨1, 0x80, 0xBF, b - 0xC0⟩
  else if b = 0xE0 then some ⟨2, 0xA0, 0xBF, 0⟩
  else if b = 0xED then some ⟨2, 0x80, 0x9F, 0xD⟩
  else if 0xE1 ≤ b ∧ b ≤ 0xEF then some ⟨2, 0x80, 0xBF, b - 0xE0⟩
  else if b = 0xF0 then some ⟨3, 0x90, 0xBF, 0⟩
  else if 0xF1 ≤ b ∧ b ≤ 0xF3 then some ⟨3, 0x80, 0xBF, b - 0xF0⟩
  else if b = 0xF4 then some ⟨3, 0x80, 0x8F, 4⟩
  else none

/-- Reads the bytes that follow the first one.  The byte that breaks a character off is not part
of it. -/
def readFollowing : Nat → Nat → Nat → Nat → Bytes → Char × Bytes
  | 0, _, _, code, bytes => (Char.ofNat code, bytes)
  | _ + 1, _, _, _, [] => (replacement, [])
  | following + 1, low, high, code, b :: bytes =>
      if low ≤ b.toNat ∧ b.toNat ≤ high then
        readFollowing following 0x80 0xBF (code * 64 + (b.toNat - 0x80)) bytes
      else (replacement, b :: bytes)

theorem length_le_of_readFollowing (following low high code : Nat) (bytes : Bytes) :
    (readFollowing following low high code bytes).2.length ≤ bytes.length := by
  induction bytes generalizing following low high code with
  | nil => cases following <;> simp [readFollowing]
  | cons b bytes ih =>
      cases following with
      | zero => simp [readFollowing]
      | succ following =>
          simp only [readFollowing]
          split
          · exact Nat.le_succ_of_le (ih _ _ _ _)
          · simp

def readChar (b : UInt8) (bytes : Bytes) : Char × Bytes :=
  match lead? b.toNat with
  | some lead => readFollowing lead.following lead.low lead.high lead.bits bytes
  | none => (replacement, bytes)

theorem length_le_of_readChar (b : UInt8) (bytes : Bytes) :
    (readChar b bytes).2.length ≤ bytes.length := by
  unfold readChar
  split
  · exact length_le_of_readFollowing _ _ _ _ _
  · simp

def decodeUtf8 : Bytes → Text
  | [] => []
  | b :: bytes => (readChar b bytes).1 :: decodeUtf8 (readChar b bytes).2
termination_by bytes => bytes.length
decreasing_by
  have h := length_le_of_readChar b bytes
  simp only [List.length_cons]
  omega

def encode (t : Text) : Bytes :=
  t.flatMap String.utf8EncodeChar

/-- The text of bytes that are UTF-8 without a fault. -/
def decodeStrict? (bytes : Bytes) : Option Text :=
  if encode (decodeUtf8 bytes) = bytes then some (decodeUtf8 bytes) else none

/-!
## UTF-16
-/

inductive ByteOrder where
  | lowFirst
  | highFirst
  deriving DecidableEq, Repr

def codeUnit (order : ByteOrder) (first second : UInt8) : Nat :=
  match order with
  | .lowFirst => second.toNat * 256 + first.toNat
  | .highFirst => first.toNat * 256 + second.toNat

def isHighSurrogate (unit : Nat) : Bool :=
  0xD800 ≤ unit && unit < 0xDC00

def isLowSurrogate (unit : Nat) : Bool :=
  0xDC00 ≤ unit && unit < 0xE000

def surrogatePair (high low : Nat) : Char :=
  Char.ofNat (0x10000 + (high - 0xD800) * 0x400 + (low - 0xDC00))

def decodeUtf16 (order : ByteOrder) : Bytes → Text
  | [] => []
  | [_] => [replacement]
  | a :: b :: rest =>
      let unit := codeUnit order a b
      if isHighSurrogate unit then
        match rest with
        | c :: d :: after =>
            let low := codeUnit order c d
            if isLowSurrogate low then surrogatePair unit low :: decodeUtf16 order after
            else replacement :: decodeUtf16 order (c :: d :: after)
        | _ => [replacement]
      else if isLowSurrogate unit then replacement :: decodeUtf16 order rest
      else Char.ofNat unit :: decodeUtf16 order rest

/-!
## Files
-/

def decode (bytes : Bytes) : Text :=
  match bytes with
  | 0xEF :: 0xBB :: 0xBF :: rest => decodeUtf8 rest
  | 0xFF :: 0xFE :: b :: rest => decodeUtf16 .lowFirst (b :: rest)
  | 0xFE :: 0xFF :: b :: rest => decodeUtf16 .highFirst (b :: rest)
  | _ => decodeUtf8 bytes

end Encoding
end AndroidStrings
