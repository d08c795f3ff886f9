import ShadowVpn.Wire.Obfs

/-! What the base64 carrier decoder of `obfs.rs` accepts, against what the encoder writes. The
decoder stops at the first padding byte and asks nothing of the length or of leftover bits. -/

namespace ShadowVpn.Wire.Image
open ShadowVpn.Lib.Octets ShadowVpn.Wire.Obfs

/-- A byte of the alphabet, as the reverse table has it. -/
def Symbol (c : Byte) : Prop := byteAt b64Rev c.toNat ≠ 0xFF

instance (c : Byte) : Decidable (Symbol c) := inferInstanceAs (Decidable (_ ≠ _))

def value (c : Byte) : Nat := (byteAt b64Rev c.toNat).toNat

/-- Groups of four symbols. The last one may end with `=` or `==`; the bits that the padding
stands for are then zero. -/
def Standard : Bytes → Prop
  | [] => True
  | a :: b :: c :: d :: rest =>
    (Symbol a ∧ Symbol b ∧ Symbol c ∧ Symbol d ∧ Standard rest) ∨
      (rest = [] ∧ d = pad ∧ Symbol a ∧ Symbol b ∧
        (c = pad ∧ value b % 16 = 0 ∨ Symbol c ∧ value c % 4 = 0))
  | _ => False

/-- A byte outside the alphabet occurs before any padding. -/
def InvalidBeforePad (text : Bytes) : Prop := ∃ c ∈ text.takeWhile (· ≠ pad), ¬Symbol c

theorem symbol_table : ∀ c : Byte, Symbol c → c ≠ pad ∧ value c < 64 ∧ byteAt b64 (value c) = c := by
  decide +kernel

theorem symbol_eq (n : BitVec 32) (shift : Nat) : symbol n shift = byteAt b64 (sextet n shift) := by
  have index : ((n >>> shift) &&& 63).toNat = sextet n shift := by
    rw [BitVec.toNat_and, BitVec.toNat_ushiftRight, Nat.shiftRight_eq_div_pow]
    exact Nat.and_two_pow_sub_one_eq_mod (n.toNat / 2 ^ shift) 6
  rw [symbol, index]

theorem symbol_of_sextet {n : BitVec 32} {shift : Nat} {c : Byte} (inside : Symbol c)
    (same : sextet n shift = value c) : symbol n shift = c := by
  rw [symbol_eq, same, (symbol_table c inside).2.2]

/-- Every symbol the encoder writes is in the alphabet and has the sextet as its value. -/
theorem symbol_symbol (n : BitVec 32) (shift : Nat) :
    Symbol (symbol n shift) ∧ value (symbol n shift) = sextet n shift := by
  have looked := (symbol_value n shift).2
  have small := sextet_lt n shift
  have number : value (symbol n shift) = sextet n shift := by
    rw [value, looked, BitVec.toNat_ofNat, Nat.mod_eq_of_lt (by omega)]
  refine ⟨fun invalid => ?_, number⟩
  rw [value, invalid] at number
  change 255 = sextet n shift at number
  omega

theorem encode_standard (data : Bytes) : Standard (base64Encode data) := by
  induction data using base64Encode.induct with
  | case1 => exact trivial
  | case2 a =>
    have low : value (symbol (group a 0 0) 12) % 16 = 0 := by
      rw [(symbol_symbol _ _).2, sextet, group_toNat]
      change (a.toNat * 65536 + 0 * 256 + 0) / 2 ^ 12 % 64 % 16 = 0
      omega
    exact Or.inr ⟨rfl, rfl, (symbol_symbol _ _).1, (symbol_symbol _ _).1, Or.inl ⟨rfl, low⟩⟩
  | case3 a b =>
    have low : value (symbol (group a b 0) 6) % 4 = 0 := by
      rw [(symbol_symbol _ _).2, sextet, group_toNat]
      change (a.toNat * 65536 + b.toNat * 256 + 0) / 2 ^ 6 % 64 % 4 = 0
      omega
    exact Or.inr ⟨rfl, rfl, (symbol_symbol _ _).1, (symbol_symbol _ _).1,
      Or.inr ⟨(symbol_symbol _ _).1, low⟩⟩
  | case4 a b c rest ih =>
    exact Or.inl ⟨(symbol_symbol _ _).1, (symbol_symbol _ _).1, (symbol_symbol _ _).1,
      (symbol_symbol _ _).1, ih⟩

/-- The three bytes that four sextets spell. -/
def bytesOf (n : Nat) : Byte × Byte × Byte :=
  (BitVec.ofNat 8 (n / 65536), BitVec.ofNat 8 (n / 256), BitVec.ofNat 8 n)

theorem group_bytesOf (n : Nat) (small : n < 2 ^ 24) :
    (group (bytesOf n).1 (bytesOf n).2.1 (bytesOf n).2.2).toNat = n := by
  rw [group_toNat]
  simp only [bytesOf, BitVec.toNat_ofNat]
  omega

theorem group_first (n : Nat) (small : n < 2 ^ 24) (low : n % 65536 = 0) :
    (group (bytesOf n).1 0 0).toNat = n := by
  rw [group_toNat]
  simp only [bytesOf, BitVec.ofNat_eq_ofNat, BitVec.toNat_ofNat]
  omega

theorem group_second (n : Nat) (small : n < 2 ^ 24) (low : n % 256 = 0) :
    (group (bytesOf n).1 (bytesOf n).2.1 0).toNat = n := by
  rw [group_toNat]
  simp only [bytesOf, BitVec.ofNat_eq_ofNat, BitVec.toNat_ofNat]
  omega

theorem standard_encoded (text : Bytes) (standard : Standard text) : ∃ data, base64Encode data = text := by
  induction text using Standard.induct with
  | case1 => exact ⟨[], rfl⟩
  | case2 a b c d rest ih =>
    rcases standard with ⟨one, two, three, four, more⟩ | ⟨alone, last, one, two, ending⟩
    · have boundA := (symbol_table a one).2.1
      have boundB := (symbol_table b two).2.1
      have boundC := (symbol_table c three).2.1
      have boundD := (symbol_table d four).2.1
      obtain ⟨data, tail⟩ := ih more
      let n := value a * 2 ^ 18 + value b * 2 ^ 12 + value c * 2 ^ 6 + value d
      have number := group_bytesOf n (by omega)
      refine ⟨(bytesOf n).1 :: (bytesOf n).2.1 :: (bytesOf n).2.2 :: data, ?_⟩
      rw [base64Encode, tail, symbol_of_sextet one (by rw [sextet, number]; omega),
        symbol_of_sextet two (by rw [sextet, number]; omega),
        symbol_of_sextet three (by rw [sextet, number]; omega),
        symbol_of_sextet four (by rw [sextet, number]; omega)]
    · subst alone last
      have boundA := (symbol_table a one).2.1
      have boundB := (symbol_table b two).2.1
      rcases ending with ⟨padded, zero⟩ | ⟨three, zero⟩
      · subst padded
        let n := value a * 2 ^ 18 + value b * 2 ^ 12
        have number := group_first n (by omega) (by omega)
        refine ⟨[(bytesOf n).1], ?_⟩
        rw [base64Encode, symbol_of_sextet one (by rw [sextet, number]; omega),
          symbol_of_sextet two (by rw [sextet, number]; omega)]
      · have boundC := (symbol_table c three).2.1
        let n := value a * 2 ^ 18 + value b * 2 ^ 12 + value c * 2 ^ 6
        have number := group_second n (by omega) (by omega)
        refine ⟨[(bytesOf n).1, (bytesOf n).2.1], ?_⟩
        rw [base64Encode, symbol_of_sextet one (by rw [sextet, number]; omega),
          symbol_of_sextet two (by rw [sextet, number]; omega),
          symbol_of_sextet three (by rw [sextet, number]; omega)]
  | case3 text notNil notFour =>
    unfold Standard at standard
    split at standard
    · next same => exact absurd rfl notNil
    · next a b c d rest => exact absurd rfl (notFour a b c d rest)
    · exact absurd standard id

/-- The standard texts are exactly what the encoder writes. -/
theorem standard_iff (text : Bytes) : Standard text ↔ ∃ data, base64Encode data = text := by
  constructor
  · exact standard_encoded text
  · rintro ⟨data, rfl⟩
    exact encode_standard data

/-- The decoder gives up only on a byte outside the alphabet that comes before any padding. -/
theorem decodeLoop_none_iff (text : Bytes) (buf : BitVec 32) (bits : Nat) (out : Bytes) :
    decodeLoop text buf bits out = none ↔ InvalidBeforePad text := by
  induction text generalizing buf bits out with
  | nil => simp [decodeLoop, InvalidBeforePad]
  | cons c rest ih =>
    by_cases padded : c = pad
    · subst padded
      simp [decodeLoop_pad, InvalidBeforePad]
    · have front : (c :: rest).takeWhile (· ≠ pad) = c :: rest.takeWhile (· ≠ pad) :=
        List.takeWhile_cons_of_pos (by simpa using padded)
      have here : InvalidBeforePad (c :: rest) ↔ ¬Symbol c ∨ InvalidBeforePad rest := by
        unfold InvalidBeforePad
        rw [front]
        simp only [List.mem_cons, exists_eq_or_imp]
      rw [here, decodeLoop, if_neg padded]
      by_cases inside : Symbol c
      · have valid : ¬byteAt b64Rev c.toNat = 0xFF := inside
        simp only [if_neg valid, inside, not_true_eq_false, false_or]
        split
        · exact ih _ _ _
        · exact ih _ _ _
      · have invalid : byteAt b64Rev c.toNat = 0xFF := not_not.mp inside
        simp [invalid, inside]

/-- Whatever is decoded is the encoding of the result, exactly for the standard texts and for those
that are rejected at once. -/
theorem base64Decode_canonical_iff (text : Bytes) :
    (∀ data, base64Decode text = some data → base64Encode data = text) ↔
      InvalidBeforePad text ∨ Standard text := by
  constructor
  · intro canonical
    cases decoded : base64Decode text with
    | none => exact Or.inl ((decodeLoop_none_iff text 0 0 []).mp decoded)
    | some data => exact Or.inr ((standard_iff text).mpr ⟨data, canonical data decoded⟩)
  · rintro (invalid | standard) data decoded
    · have rejected : base64Decode text = none := (decodeLoop_none_iff text 0 0 []).mpr invalid
      rw [rejected] at decoded
      cases decoded
    · obtain ⟨source, rfl⟩ := (standard_iff text).mp standard
      rw [base64_round_trip] at decoded
      exact congrArg base64Encode (Option.some.inj decoded).symm

/-- The encoding of one byte, and three other texts that are read as that byte: one with a byte
outside the alphabet behind the padding, one without padding, one with a leftover bit. -/
theorem decoder_takes_other_texts : base64Encode [65] = [81, 81, 61, 61] ∧
    (base64Decode [81, 81, 61, 61, 33] = some [65] ∧ base64Encode [65] ≠ [81, 81, 61, 61, 33]) ∧
    (base64Decode [81, 81] = some [65] ∧ base64Encode [65] ≠ [81, 81]) ∧
    (base64Decode [81, 82, 61, 61] = some [65] ∧ base64Encode [65] ≠ [81, 82, 61, 61]) := by
  decide +kernel

end ShadowVpn.Wire.Image
