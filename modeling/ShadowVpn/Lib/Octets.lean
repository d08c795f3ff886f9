import Mathlib.Data.Nat.Notation

/-! Byte strings: reading at an offset and big-endian words. -/

namespace ShadowVpn.Lib.Octets

abbrev Byte := BitVec 8
abbrev Bytes := List Byte

/-- The byte at an offset; callers check the length first. -/
def byteAt (data : Bytes) (offset : Nat) : Byte := data.getD offset 0

/-- `u16::from_be_bytes`. -/
def be16 (high low : Byte) : BitVec 16 := high ++ low

def be16At (data : Bytes) (offset : Nat) : BitVec 16 :=
  be16 (byteAt data offset) (byteAt data (offset + 1))

/-- `u16::to_be_bytes`. -/
def bytes16 (word : BitVec 16) : Bytes := [word.extractLsb' 8 8, word.extractLsb' 0 8]

@[simp] theorem byteAt_cons_zero (b : Byte) (rest : Bytes) : byteAt (b :: rest) 0 = b := rfl

@[simp] theorem byteAt_cons_succ (b : Byte) (rest : Bytes) (n : Nat) :
    byteAt (b :: rest) (n + 1) = byteAt rest n := rfl

@[simp] theorem bytes16_length (word : BitVec 16) : (bytes16 word).length = 2 := rfl

@[simp] theorem be16_bytes16 (word : BitVec 16) :
    be16 (word.extractLsb' 8 8) (word.extractLsb' 0 8) = word := by
  apply BitVec.eq_of_getLsbD_eq
  intro i inside
  simp only [be16, BitVec.getLsbD_append, BitVec.getLsbD_extractLsb']
  by_cases low : i < 8
  · simp [low]
  · simp [low, show i - 8 < 8 by omega, show 8 + (i - 8) = i by omega]

theorem be16_toNat (high low : Byte) : (be16 high low).toNat = high.toNat * 256 + low.toNat := by
  have small := low.isLt
  rw [be16, BitVec.toNat_append, ← Nat.shiftLeft_add_eq_or_of_lt (by omega), Nat.shiftLeft_eq]

end ShadowVpn.Lib.Octets
