import Mathlib.Algebra.GroupWithZero.Nat
import ShadowVpn.Lib.Panic
import ShadowVpn.Lib.Text

/-! Text and its UTF-8 bytes: encoding, decoding (strictly, or with replacement characters) and cutting
a string at a byte offset. -/

namespace ShadowVpn.Lib.Utf8
open ShadowVpn.Lib.Octets ShadowVpn.Lib.Text ShadowVpn.Lib.Panic

/-- The bytes of a text. -/
def utf8 (text : Chars) : Bytes :=
  text.flatMap fun c => (String.utf8EncodeChar c).map UInt8.toBitVec

/-- `str::len`. -/
def size (text : Chars) : Nat := (text.map Char.utf8Size).sum

section Decoding

/-- A byte that continues a character. -/
def isTail (b : Byte) : Bool := b &&& 0xC0 == 0x80

/-- The second byte of a character of three bytes: no overlong form and no surrogate. -/
def second3 (b0 b1 : Byte) : Bool :=
  b0 = 0xE0 ∧ 0xA0 ≤ b1 ∧ b1 ≤ 0xBF ∨ 0xE1 ≤ b0 ∧ b0 ≤ 0xEC ∧ 0x80 ≤ b1 ∧ b1 ≤ 0xBF ∨
    b0 = 0xED ∧ 0x80 ≤ b1 ∧ b1 ≤ 0x9F ∨ 0xEE ≤ b0 ∧ b0 ≤ 0xEF ∧ 0x80 ≤ b1 ∧ b1 ≤ 0xBF

/-- The second byte of a character of four bytes. -/
def second4 (b0 b1 : Byte) : Bool :=
  b0 = 0xF0 ∧ 0x90 ≤ b1 ∧ b1 ≤ 0xBF ∨ 0xF1 ≤ b0 ∧ b0 ≤ 0xF3 ∧ 0x80 ≤ b1 ∧ b1 ≤ 0xBF ∨
    b0 = 0xF4 ∧ 0x80 ≤ b1 ∧ b1 ≤ 0x8F

def bits (b mask : Byte) : Nat := (b &&& mask).toNat

/-- The character at the start of the bytes and how many it takes, or the bytes of an invalid stretch.
Past the end the bytes read as zero, which continues nothing. -/
def first (data : Bytes) : Option Char × Nat :=
  let b0 := byteAt data 0
  let b1 := byteAt data 1
  let b2 := byteAt data 2
  let b3 := byteAt data 3
  if b0 < 0x80 then (some (Char.ofNat b0.toNat), 1)
  else if 0xC2 ≤ b0 ∧ b0 ≤ 0xDF then
    if isTail b1 then (some (Char.ofNat (bits b0 0x1F * 64 + bits b1 0x3F)), 2) else (none, 1)
  else if 0xE0 ≤ b0 ∧ b0 ≤ 0xEF then
    if !second3 b0 b1 then (none, 1)
    else if !isTail b2 then (none, 2)
    else (some (Char.ofNat ((bits b0 0x0F * 64 + bits b1 0x3F) * 64 + bits b2 0x3F)), 3)
  else if 0xF0 ≤ b0 ∧ b0 ≤ 0xF4 then
    if !second4 b0 b1 then (none, 1)
    else if !isTail b2 then (none, 2)
    else if !isTail b3 then (none, 3)
    else (some (Char.ofNat (((bits b0 0x07 * 64 + bits b1 0x3F) * 64 + bits b2 0x3F) * 64 + bits b3 0x3F)), 4)
  else (none, 1)

/-- The characters of the bytes, and none for each invalid stretch; the first `skip` bytes are passed over. -/
def chunksFrom : (skip : Nat) → Bytes → List (Option Char)
  | _, [] => []
  | skip + 1, _ :: rest => chunksFrom skip rest
  | 0, b :: rest => (first (b :: rest)).1 :: chunksFrom ((first (b :: rest)).2 - 1) rest

def chunks (data : Bytes) : List (Option Char) := chunksFrom 0 data

/-- `String::from_utf8_lossy`. -/
def lossy (data : Bytes) : Chars := (chunks data).map fun c => c.getD '\uFFFD'

/-- `str::from_utf8`. -/
def fromUtf8 (data : Bytes) : Option Chars :=
  if (chunks data).all Option.isSome then some ((chunks data).filterMap id) else none

theorem isTail_high (b : Byte) (tail : isTail b = true) : 0x80 ≤ b := by
  have same : b.toNat &&& 192 = 128 := congrArg BitVec.toNat (beq_iff_eq.mp tail)
  have bound : b.toNat &&& 192 ≤ b.toNat := Nat.and_le_left
  rw [same] at bound
  exact bound

theorem second3_high (b0 b1 : Byte) (second : second3 b0 b1 = true) : 0x80 ≤ b1 := by
  rw [second3, decide_eq_true_eq] at second
  bv_omega

theorem second4_high (b0 b1 : Byte) (second : second4 b0 b1 = true) : 0x80 ≤ b1 := by
  rw [second4, decide_eq_true_eq] at second
  bv_omega

theorem bits_low (b : Byte) (count : Nat) (small : count ≤ 8) :
    bits b (BitVec.ofNat 8 (2 ^ count - 1)) = b.toNat % 2 ^ count := by
  have bound : 2 ^ count ≤ 2 ^ 8 := Nat.pow_le_pow_right (by decide) small
  have positive : 0 < 2 ^ count := Nat.two_pow_pos count
  rw [bits, BitVec.toNat_and, BitVec.toNat_ofNat, Nat.mod_eq_of_lt (by omega), Nat.and_two_pow_sub_one_eq_mod]

/-- No character of several bytes is an ASCII one. -/
theorem second3_large (b0 b1 : Byte) (second : second3 b0 b1 = true) : 32 ≤ bits b0 0x0F * 64 + bits b1 0x3F := by
  have head : bits b0 0x0F = b0.toNat % 16 := bits_low b0 4 (by decide)
  have tail : bits b1 0x3F = b1.toNat % 64 := bits_low b1 6 (by decide)
  rw [second3, decide_eq_true_eq] at second
  bv_omega

theorem second4_large (b0 b1 : Byte) (second : second4 b0 b1 = true) : 16 ≤ bits b0 0x07 * 64 + bits b1 0x3F := by
  have head : bits b0 0x07 = b0.toNat % 8 := bits_low b0 3 (by decide)
  have tail : bits b1 0x3F = b1.toNat % 64 := bits_low b1 6 (by decide)
  rw [second4, decide_eq_true_eq] at second
  bv_omega

end Decoding

section Encoding

/-- The bytes of a character after the first. -/
theorem tail_byte (n : Nat) (small : n < 64) :
    isTail (BitVec.ofNat 8 (n + 128)) = true ∧ bits (BitVec.ofNat 8 (n + 128)) 0x3F = n := by
  have all : ∀ k : Fin 64, isTail (BitVec.ofNat 8 (k.val + 128)) = true ∧
      bits (BitVec.ofNat 8 (k.val + 128)) 0x3F = k.val := by
    decide +kernel
  exact all ⟨n, small⟩

theorem first_of_two (lead n : Nat) (rest : Bytes) (low : 2 ≤ lead) (high : lead < 32) (small : n < 64) :
    first (BitVec.ofNat 8 (lead + 192) :: BitVec.ofNat 8 (n + 128) :: rest) =
      (some (Char.ofNat (lead * 64 + n)), 2) := by
  obtain ⟨tail, value⟩ := tail_byte n small
  have head : bits (BitVec.ofNat 8 (lead + 192)) 0x1F = lead := by
    have cut : bits (BitVec.ofNat 8 (lead + 192)) 0x1F = _ % 2 ^ 5 := bits_low _ 5 (by decide)
    rw [cut, BitVec.toNat_ofNat]
    omega
  dsimp only [first]
  rw [byteAt_cons_zero, byteAt_cons_succ, byteAt_cons_zero, if_neg (by bv_omega), if_pos (by bv_omega), if_pos tail,
    head, value]

theorem first_of_three (lead m n : Nat) (rest : Bytes) (high : lead < 16) (mid : m < 64) (small : n < 64)
    (overlong : lead = 0 → 32 ≤ m) (surrogate : lead = 13 → m < 32) :
    first (BitVec.ofNat 8 (lead + 224) :: BitVec.ofNat 8 (m + 128) :: BitVec.ofNat 8 (n + 128) :: rest) =
      (some (Char.ofNat ((lead * 64 + m) * 64 + n)), 3) := by
  obtain ⟨_, middle⟩ := tail_byte m mid
  obtain ⟨tail, value⟩ := tail_byte n small
  have head : bits (BitVec.ofNat 8 (lead + 224)) 0x0F = lead := by
    have cut : bits (BitVec.ofNat 8 (lead + 224)) 0x0F = _ % 2 ^ 4 := bits_low _ 4 (by decide)
    rw [cut, BitVec.toNat_ofNat]
    omega
  have second : second3 (BitVec.ofNat 8 (lead + 224)) (BitVec.ofNat 8 (m + 128)) = true := by
    rw [second3, decide_eq_true_eq]
    bv_omega
  have at1 (b c d : Byte) : byteAt (b :: c :: d :: rest) 1 = c := rfl
  have at2 (b c d : Byte) : byteAt (b :: c :: d :: rest) 2 = d := rfl
  have ascii : ¬BitVec.ofNat 8 (lead + 224) < 0x80 := by bv_omega
  have two : ¬(0xC2 ≤ BitVec.ofNat 8 (lead + 224) ∧ BitVec.ofNat 8 (lead + 224) ≤ 0xDF) := by bv_omega
  have three : 0xE0 ≤ BitVec.ofNat 8 (lead + 224) ∧ BitVec.ofNat 8 (lead + 224) ≤ 0xEF := by bv_omega
  dsimp only [first]
  rw [byteAt_cons_zero, at1, at2, if_neg ascii, if_neg two, if_pos three, second, tail, head, middle, value]
  rfl

theorem first_of_four (lead l m n : Nat) (rest : Bytes) (high : lead < 5) (front : l < 64) (mid : m < 64)
    (small : n < 64) (overlong : lead = 0 → 16 ≤ l) (last : lead = 4 → l < 16) :
    first (BitVec.ofNat 8 (lead + 240) :: BitVec.ofNat 8 (l + 128) :: BitVec.ofNat 8 (m + 128) ::
      BitVec.ofNat 8 (n + 128) :: rest) = (some (Char.ofNat (((lead * 64 + l) * 64 + m) * 64 + n)), 4) := by
  obtain ⟨_, middle1⟩ := tail_byte l front
  obtain ⟨tail2, middle⟩ := tail_byte m mid
  obtain ⟨tail, value⟩ := tail_byte n small
  have head : bits (BitVec.ofNat 8 (lead + 240)) 0x07 = lead := by
    have cut : bits (BitVec.ofNat 8 (lead + 240)) 0x07 = _ % 2 ^ 3 := bits_low _ 3 (by decide)
    rw [cut, BitVec.toNat_ofNat]
    omega
  have second : second4 (BitVec.ofNat 8 (lead + 240)) (BitVec.ofNat 8 (l + 128)) = true := by
    rw [second4, decide_eq_true_eq]
    bv_omega
  have at1 (b c d e : Byte) : byteAt (b :: c :: d :: e :: rest) 1 = c := rfl
  have at2 (b c d e : Byte) : byteAt (b :: c :: d :: e :: rest) 2 = d := rfl
  have at3 (b c d e : Byte) : byteAt (b :: c :: d :: e :: rest) 3 = e := rfl
  have ascii : ¬BitVec.ofNat 8 (lead + 240) < 0x80 := by bv_omega
  have two : ¬(0xC2 ≤ BitVec.ofNat 8 (lead + 240) ∧ BitVec.ofNat 8 (lead + 240) ≤ 0xDF) := by bv_omega
  have three : ¬(0xE0 ≤ BitVec.ofNat 8 (lead + 240) ∧ BitVec.ofNat 8 (lead + 240) ≤ 0xEF) := by bv_omega
  have four : 0xF0 ≤ BitVec.ofNat 8 (lead + 240) ∧ BitVec.ofNat 8 (lead + 240) ≤ 0xF4 := by bv_omega
  dsimp only [first]
  rw [byteAt_cons_zero, at1, at2, at3, if_neg ascii, if_neg two, if_neg three, if_pos four, second, tail2, tail, head,
    middle1, middle, value]
  rfl

/-- A character is decoded from its bytes, whatever follows them. -/
theorem first_utf8 (c : Char) (rest : Bytes) : ∃ b more, utf8 [c] = b :: more ∧
    first (b :: (more ++ rest)) = (some c, more.length + 1) := by
  have back : Char.ofNat c.val.toNat = c := Char.ofNat_toNat c
  have valid : c.val.toNat < 0xD800 ∨ 0xDFFF < c.val.toNat ∧ c.val.toNat < 0x110000 := c.valid
  have shape : utf8 [c] = (String.utf8EncodeChar c).map UInt8.toBitVec := List.flatMap_singleton ..
  rw [shape]
  dsimp only [String.utf8EncodeChar]
  generalize c.val.toNat = v at back valid
  by_cases one : v ≤ 127
  · refine ⟨BitVec.ofNat 8 v, [], by rw [if_pos one]; rfl, ?_⟩
    dsimp only [first]
    rw [byteAt_cons_zero, if_pos (by bv_omega), BitVec.toNat_ofNat, Nat.mod_eq_of_lt (by omega), back]
    rfl
  by_cases two : v ≤ 2047
  · refine ⟨BitVec.ofNat 8 (v / 64 % 32 + 192), [BitVec.ofNat 8 (v % 64 + 128)], by
      rw [if_neg one, if_pos two]; rfl, ?_⟩
    rw [List.singleton_append, first_of_two _ _ _ (by omega) (by omega) (by omega)]
    rw [show v / 64 % 32 * 64 + v % 64 = v by omega, back]
    rfl
  by_cases three : v ≤ 65535
  · refine ⟨BitVec.ofNat 8 (v / 4096 % 16 + 224), [BitVec.ofNat 8 (v / 64 % 64 + 128), BitVec.ofNat 8 (v % 64 + 128)],
      by rw [if_neg one, if_neg two, if_pos three]; rfl, ?_⟩
    change first (_ :: _ :: _ :: rest) = _
    rw [first_of_three _ _ _ _ (by omega) (by omega) (by omega) (by omega) (by omega)]
    rw [show (v / 4096 % 16 * 64 + v / 64 % 64) * 64 + v % 64 = v by omega, back]
    rfl
  · refine ⟨BitVec.ofNat 8 (v / 262144 % 8 + 240), [BitVec.ofNat 8 (v / 4096 % 64 + 128),
      BitVec.ofNat 8 (v / 64 % 64 + 128), BitVec.ofNat 8 (v % 64 + 128)],
      by rw [if_neg one, if_neg two, if_neg three]; rfl, ?_⟩
    change first (_ :: _ :: _ :: _ :: rest) = _
    rw [first_of_four _ _ _ _ _ (by omega) (by omega) (by omega) (by omega) (by omega) (by omega)]
    rw [show ((v / 262144 % 8 * 64 + v / 4096 % 64) * 64 + v / 64 % 64) * 64 + v % 64 = v by omega, back]
    rfl

theorem chunksFrom_skip (front rest : Bytes) : chunksFrom front.length (front ++ rest) = chunksFrom 0 rest := by
  induction front with
  | nil => rfl
  | cons b front ih => exact ih

theorem chunks_utf8 (text : Chars) : chunks (utf8 text) = text.map some := by
  induction text with
  | nil => rfl
  | cons c text ih =>
    obtain ⟨b, more, shape, decoded⟩ := first_utf8 c (utf8 text)
    have bytes : utf8 (c :: text) = b :: (more ++ utf8 text) := by
      have split : utf8 (c :: text) = utf8 [c] ++ utf8 text := by
        rw [utf8, List.flatMap_cons, utf8, List.flatMap_singleton, utf8]
      rw [split, shape, List.cons_append]
    rw [bytes, chunks, chunksFrom, decoded, Nat.add_sub_cancel, chunksFrom_skip, List.map_cons, ← ih, chunks]

/-- Text is read back from its bytes. -/
theorem fromUtf8_utf8 (text : Chars) : fromUtf8 (utf8 text) = some text := by
  have all : (text.map some).all Option.isSome = true := by
    simp
  have values : (text.map some).filterMap id = text := by
    rw [List.filterMap_map]
    exact List.filterMap_some
  rw [fromUtf8, chunks_utf8, if_pos all, values]

end Encoding

section Cutting

/-- The text before and after a byte offset, if that is not inside a character. -/
def splitAtByte : Chars → Nat → Option (Chars × Chars)
  | text, 0 => some ([], text)
  | [], _ + 1 => none
  | c :: rest, offset + 1 =>
    if c.utf8Size ≤ offset + 1 then
      (splitAtByte rest (offset + 1 - c.utf8Size)).map fun parts => (c :: parts.1, parts.2)
    else none

/-- `text[..offset]`. -/
def sliceTo (text : Chars) (offset : Nat) : Checked Chars :=
  match splitAtByte text offset with
  | some parts => .ok parts.1
  | none => .error .boundary

/-- `text[offset..]`. -/
def sliceFrom (text : Chars) (offset : Nat) : Checked Chars :=
  match splitAtByte text offset with
  | some parts => .ok parts.2
  | none => .error .boundary

@[simp] theorem size_nil : size [] = 0 := rfl

@[simp] theorem size_cons (c : Char) (rest : Chars) : size (c :: rest) = c.utf8Size + size rest := by
  rw [size, List.map_cons, List.sum_cons]
  rfl

theorem size_append (one two : Chars) : size (one ++ two) = size one + size two := by
  rw [size, List.map_append, List.sum_append]
  rfl

theorem size_of_ascii (text : Chars) (ascii : ∀ c ∈ text, c.utf8Size = 1) : size text = text.length := by
  induction text with
  | nil => rfl
  | cons c rest ih =>
    rw [size_cons, ascii c List.mem_cons_self, ih fun d member => ascii d (List.mem_cons_of_mem _ member),
      List.length_cons, Nat.add_comm]

/-- The parts at an offset are those whose first part is so long. -/
theorem splitAtByte_some (text : Chars) (offset : Nat) (front back : Chars) :
    splitAtByte text offset = some (front, back) ↔ text = front ++ back ∧ size front = offset := by
  induction text, offset using splitAtByte.induct generalizing front with
  | case1 text =>
    rw [splitAtByte, Option.some.injEq, Prod.mk.injEq]
    constructor
    · rintro ⟨rfl, rfl⟩
      exact ⟨rfl, rfl⟩
    · rintro ⟨rfl, none⟩
      cases front with
      | nil => exact ⟨rfl, rfl⟩
      | cons c rest =>
        rw [size_cons] at none
        have positive := c.utf8Size_pos
        omega
  | case2 offset =>
    rw [splitAtByte]
    constructor
    · intro cut
      cases cut
    · rintro ⟨empty, long⟩
      obtain ⟨rfl, rfl⟩ := List.append_eq_nil_iff.mp empty.symm
      cases long
  | case3 c rest offset fits ih =>
    rw [splitAtByte, if_pos fits, Option.map_eq_some_iff]
    constructor
    · rintro ⟨⟨one, two⟩, found, same⟩
      obtain ⟨rfl, rfl⟩ := Prod.mk.inj same
      obtain ⟨rfl, long⟩ := (ih one).mp found
      refine ⟨rfl, ?_⟩
      dsimp only at long ⊢
      rw [size_cons, long]
      omega
    · rintro ⟨whole, long⟩
      cases front with
      | nil => cases long
      | cons d front =>
        rw [List.cons_append, List.cons.injEq] at whole
        obtain ⟨rfl, whole⟩ := whole
        rw [size_cons] at long
        exact ⟨(front, back), (ih front).mpr ⟨whole, by omega⟩, rfl⟩
  | case4 c rest offset large =>
    rw [splitAtByte, if_neg large]
    constructor
    · intro cut
      cases cut
    · rintro ⟨whole, long⟩
      cases front with
      | nil => cases long
      | cons d front =>
        rw [List.cons_append, List.cons.injEq] at whole
        obtain ⟨rfl, whole⟩ := whole
        rw [size_cons] at long
        omega

end Cutting

end ShadowVpn.Lib.Utf8
