import Mathlib.Algebra.Group.Nat.Even
import Mathlib.Data.Nat.Bitwise

/-! Aligned blocks of machine words. Two words lie in one block of size `2 ^ k`
when they agree above their lowest `k` bits; masking, the inclusive bounds of a
block and the walk that removes one block from a larger one are all read off
that single relation. -/

namespace ShadowVpn.Lib.Prefix

variable {w : Nat}

/-- The mask that keeps everything above the lowest `k` bits. -/
def highMask (w k : Nat) : BitVec w := BitVec.allOnes w <<< k

def SameBlock (k : Nat) (x y : BitVec w) : Prop := x >>> k = y >>> k

instance (k : Nat) (x y : BitVec w) : Decidable (SameBlock k x y) :=
  inferInstanceAs (Decidable (x >>> k = y >>> k))

theorem getLsbD_highMask (k i : Nat) :
    (highMask w k).getLsbD i = (decide (i < w) && decide (k ≤ i)) := by
  simp only [highMask, BitVec.getLsbD_shiftLeft, BitVec.getLsbD_allOnes]
  by_cases high : k ≤ i
  · have small : ¬i < k := by omega
    by_cases inside : i < w
    · have shifted : i - k < w := by omega
      simp [high, small, inside, shifted]
    · simp [inside]
  · have small : i < k := by omega
    simp [high, small]

theorem and_highMask_eq_iff (k : Nat) (x y : BitVec w) :
    x &&& highMask w k = y &&& highMask w k ↔ SameBlock k x y := by
  constructor
  · intro same
    apply BitVec.eq_of_getLsbD_eq
    intro i _
    simp only [BitVec.getLsbD_ushiftRight]
    have bit := congrArg (fun word => word.getLsbD (k + i)) same
    simp only [BitVec.getLsbD_and, getLsbD_highMask, Nat.le_add_right, decide_true,
      Bool.and_true] at bit
    by_cases inside : k + i < w
    · simpa [inside] using bit
    · rw [BitVec.getLsbD_of_ge _ _ (by omega), BitVec.getLsbD_of_ge _ _ (by omega)]
  · intro same
    apply BitVec.eq_of_getLsbD_eq
    intro i _
    simp only [BitVec.getLsbD_and, getLsbD_highMask]
    by_cases high : k ≤ i
    · have bit := congrArg (fun word => word.getLsbD (i - k)) same
      simp only [BitVec.getLsbD_ushiftRight] at bit
      rw [show k + (i - k) = i by omega] at bit
      rw [bit]
    · simp [high]

theorem sameBlock_iff_div (k : Nat) (x y : BitVec w) :
    SameBlock k x y ↔ x.toNat / 2 ^ k = y.toNat / 2 ^ k := by
  unfold SameBlock
  rw [← BitVec.toNat_inj, BitVec.toNat_ushiftRight, BitVec.toNat_ushiftRight,
    Nat.shiftRight_eq_div_pow, Nat.shiftRight_eq_div_pow]

theorem sameBlock_zero (x y : BitVec w) : SameBlock 0 x y ↔ x = y := by
  simp [SameBlock]

theorem SameBlock.mono {k m : Nat} (le : k ≤ m) {x y : BitVec w} (same : SameBlock k x y) :
    SameBlock m x y := by
  have shifts : m = k + (m - k) := by omega
  unfold SameBlock at *
  rw [shifts, BitVec.shiftRight_add, BitVec.shiftRight_add, same]

theorem SameBlock.symm {k : Nat} {x y : BitVec w} (same : SameBlock k x y) : SameBlock k y x :=
  Eq.symm same

theorem SameBlock.trans {k : Nat} {x y z : BitVec w} (first : SameBlock k x y)
    (second : SameBlock k y z) : SameBlock k x z :=
  Eq.trans first second

theorem and_highMask_toNat (k : Nat) (y : BitVec w) :
    (y &&& highMask w k).toNat = y.toNat / 2 ^ k * 2 ^ k := by
  have shifted : y &&& highMask w k = (y >>> k) <<< k := by
    apply BitVec.eq_of_getLsbD_eq
    intro i inside
    simp only [BitVec.getLsbD_and, getLsbD_highMask, BitVec.getLsbD_shiftLeft,
      BitVec.getLsbD_ushiftRight]
    by_cases high : k ≤ i
    · rw [show k + (i - k) = i by omega]
      simp [high, inside, show ¬i < k by omega]
    · simp [high, show i < k by omega]
  have below : y.toNat / 2 ^ k * 2 ^ k < 2 ^ w :=
    lt_of_le_of_lt (Nat.div_mul_le_self _ _) y.isLt
  rw [shifted, BitVec.toNat_shiftLeft, BitVec.toNat_ushiftRight, Nat.shiftRight_eq_div_pow,
    Nat.shiftLeft_eq, Nat.mod_eq_of_lt below]

theorem highMask_toNat (k : Nat) (le : k ≤ w) : (highMask w k).toNat = 2 ^ w - 2 ^ k := by
  have fits : 2 ^ k ≤ 2 ^ w := Nat.pow_le_pow_right (by decide) le
  have positive : 0 < 2 ^ k := Nat.two_pow_pos k
  have split : (2 ^ w - 1) * 2 ^ k = 2 ^ w * (2 ^ k - 1) + (2 ^ w - 2 ^ k) := by
    rw [Nat.sub_mul, Nat.mul_sub, Nat.one_mul, Nat.mul_one]
    have grow : 2 ^ w ≤ 2 ^ w * 2 ^ k := Nat.le_mul_of_pos_right _ positive
    omega
  rw [highMask, BitVec.toNat_shiftLeft, BitVec.toNat_allOnes, Nat.shiftLeft_eq, split,
    Nat.mul_add_mod, Nat.mod_eq_of_lt (by omega)]

theorem not_highMask_toNat (k : Nat) (le : k ≤ w) : (~~~(highMask w k)).toNat = 2 ^ k - 1 := by
  have fits : 2 ^ k ≤ 2 ^ w := Nat.pow_le_pow_right (by decide) le
  rw [BitVec.toNat_not, highMask_toNat k le]
  omega

theorem block_end_toNat (k : Nat) (le : k ≤ w) (y : BitVec w) :
    ((y &&& highMask w k) ||| ~~~(highMask w k)).toNat = y.toNat / 2 ^ k * 2 ^ k + (2 ^ k - 1) := by
  have disjoint : (y &&& highMask w k) &&& ~~~(highMask w k) = 0#w := by
    simp [BitVec.and_assoc]
  have below : y.toNat / 2 ^ k * 2 ^ k + (2 ^ k - 1) < 2 ^ w := by
    have split : 2 ^ w = 2 ^ (w - k) * 2 ^ k := by rw [← Nat.pow_add]; congr 1; omega
    have quotient : y.toNat / 2 ^ k < 2 ^ (w - k) := by
      rw [Nat.div_lt_iff_lt_mul (Nat.two_pow_pos k), ← split]
      exact y.isLt
    have step : (y.toNat / 2 ^ k + 1) * 2 ^ k ≤ 2 ^ (w - k) * 2 ^ k :=
      Nat.mul_le_mul_right _ quotient
    have positive : 0 < 2 ^ k := Nat.two_pow_pos k
    rw [Nat.add_mul, Nat.one_mul] at step
    omega
  rw [← BitVec.add_eq_or_of_and_eq_zero _ _ disjoint, BitVec.toNat_add, and_highMask_toNat,
    not_highMask_toNat k le, Nat.mod_eq_of_lt below]

/-- A block is the inclusive interval from its masked base to the base with all low bits set. -/
theorem sameBlock_iff_between (k : Nat) (le : k ≤ w) (x y : BitVec w) :
    SameBlock k x y ↔ (y &&& highMask w k).toNat ≤ x.toNat ∧
      x.toNat ≤ ((y &&& highMask w k) ||| ~~~(highMask w k)).toNat := by
  have positive : 0 < 2 ^ k := Nat.two_pow_pos k
  rw [sameBlock_iff_div, and_highMask_toNat, block_end_toNat k le, Nat.div_eq_iff positive]
  constructor <;> intro bounds <;> omega

/-- The block next to that of `x`: the other half of the block twice as large. -/
def sibling (k : Nat) (x : BitVec w) : BitVec w := x ^^^ (1#w <<< k)

theorem sibling_div (k : Nat) (lt : k < w) (x : BitVec w) :
    (sibling k x).toNat / 2 ^ k = x.toNat / 2 ^ k ^^^ 1 := by
  have bit : (1#w <<< k).toNat = 2 ^ k := by
    have small : 2 ^ k < 2 ^ w := Nat.pow_lt_pow_right (by decide) lt
    have one : 1 < 2 ^ w := lt_of_le_of_lt Nat.one_le_two_pow small
    rw [BitVec.toNat_shiftLeft, BitVec.toNat_ofNat, Nat.mod_eq_of_lt one, Nat.shiftLeft_eq,
      Nat.one_mul, Nat.mod_eq_of_lt small]
  rw [sibling, BitVec.toNat_xor, bit, ← Nat.shiftRight_eq_div_pow, ← Nat.shiftRight_eq_div_pow,
    Nat.shiftRight_xor_distrib, Nat.shiftRight_eq_div_pow (2 ^ k), Nat.div_self (Nat.two_pow_pos k)]

theorem half_cases (a b : Nat) : a / 2 = b / 2 ↔ a = b ∨ a = b ^^^ 1 := by
  have parity : b ^^^ 1 = if b % 2 = 0 then b + 1 else b - 1 := by
    split
    next even => rw [Nat.xor_one_of_even (Nat.even_iff.mpr even)]
    next odd => rw [Nat.xor_one_of_odd (Nat.odd_iff.mpr (by omega))]
  rw [parity]
  split <;> omega

/-- A block is its lower or upper half: the half of `y`, or the sibling of that half. -/
theorem sameBlock_succ (k : Nat) (lt : k < w) (x y : BitVec w) :
    SameBlock (k + 1) x y ↔ SameBlock k x y ∨ SameBlock k x (sibling k y) := by
  rw [sameBlock_iff_div, sameBlock_iff_div, sameBlock_iff_div, sibling_div k lt, pow_succ,
    ← Nat.div_div_eq_div_mul, ← Nat.div_div_eq_div_mul]
  exact half_cases _ _

/-- Descending from a block of size `2 ^ m` to one of size `2 ^ j` around `y`, the siblings
passed on the way together with the final block make up the whole block. -/
theorem sameBlock_descend (j m : Nat) (le : j ≤ m) (fits : m ≤ w) (x y : BitVec w) :
    SameBlock m x y ↔ SameBlock j x y ∨ ∃ k, j ≤ k ∧ k < m ∧ SameBlock k x (sibling k y) := by
  induction m, le using Nat.le_induction with
  | base =>
    constructor
    · intro same
      exact Or.inl same
    · intro same
      rcases same with same | ⟨k, low, high, _⟩
      · exact same
      · omega
  | succ m le ih =>
    rw [sameBlock_succ m (by omega), ih (by omega)]
    constructor
    · intro found
      rcases found with (inner | ⟨k, low, high, hit⟩) | last
      · exact Or.inl inner
      · exact Or.inr ⟨k, low, by omega, hit⟩
      · exact Or.inr ⟨m, le, by omega, last⟩
    · intro found
      rcases found with inner | ⟨k, low, high, hit⟩
      · exact Or.inl (Or.inl inner)
      · by_cases last : k = m
        · subst last
          exact Or.inr hit
        · exact Or.inl (Or.inr ⟨k, low, by omega, hit⟩)

/-- No sibling passed on the way down meets the block that was left out. -/
theorem sibling_avoids (j k : Nat) (le : j ≤ k) (lt : k < w) (x y : BitVec w)
    (inner : SameBlock j x y) : ¬SameBlock k x (sibling k y) := by
  intro outer
  have same := (sameBlock_iff_div k x y).mp (inner.mono le)
  have other := (sameBlock_iff_div k x (sibling k y)).mp outer
  rw [sibling_div k lt, same] at other
  have flipped : (y.toNat / 2 ^ k ^^^ 1) ^^^ (y.toNat / 2 ^ k) = 1 := by
    rw [Nat.xor_comm, ← Nat.xor_assoc, Nat.xor_self, Nat.zero_xor]
  rw [← other, Nat.xor_self] at flipped
  exact absurd flipped (by decide)

end ShadowVpn.Lib.Prefix
