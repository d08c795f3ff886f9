import Mathlib.Algebra.Group.Nat.Even
import ShadowVpn.Lib.Octets

/-! One's-complement sums of 16-bit words: the carries out of the word are added back in, so the
sum is kept modulo 65535, and only a sum of nothing is zero. -/

namespace ShadowVpn.Lib.OnesComplement
open ShadowVpn.Lib.Octets

/-- The words of the data, a last odd byte counting as the high one. -/
def wordSum : Bytes → Nat
  | high :: low :: rest => (high.toNat * 256 + low.toNat) + wordSum rest
  | [last] => last.toNat * 256
  | [] => 0

/-- The end-around carry. -/
def fold (sum : Nat) : Nat := if sum < 65536 then sum else fold (sum % 65536 + sum / 65536)
termination_by sum
decreasing_by omega

/-- The data with its checksum in place sums up to all ones. -/
def Verifies (data : Bytes) : Prop := fold (wordSum data) = 0xFFFF

/-- A fact of all small sums that survives a round of carries is a fact of every result. -/
theorem fold_rule {P : Nat → Nat → Prop} (small : ∀ sum, sum < 65536 → P sum sum)
    (round : ∀ sum result, 65536 ≤ sum → P (sum % 65536 + sum / 65536) result → P sum result) (sum : Nat) :
    P sum (fold sum) := by
  induction sum using fold.induct with
  | case1 sum below =>
    rw [fold, if_pos below]
    exact small sum below
  | case2 sum above ih =>
    rw [fold, if_neg above]
    exact round sum _ (Nat.le_of_not_lt above) ih

theorem fold_lt (sum : Nat) : fold sum < 65536 := by
  apply @fold_rule fun _ result => result < 65536
  · intro sum below
    exact below
  · intro sum result _ later
    exact later

theorem fold_mod (sum : Nat) : fold sum % 65535 = sum % 65535 := by
  apply @fold_rule fun sum result => result % 65535 = sum % 65535
  · intro sum _
    rfl
  · intro sum result _ later
    omega

theorem fold_pos (sum : Nat) (positive : 0 < sum) : 0 < fold sum := by
  have rule := @fold_rule (fun sum result => 0 < sum → 0 < result) (fun _ _ h => h)
    (fun sum result above later _ => later (by omega)) sum
  exact rule positive

/-- A positive multiple of 65535 folds to all ones. -/
theorem fold_full (sum : Nat) (positive : 0 < sum) (multiple : sum % 65535 = 0) : fold sum = 65535 := by
  have lt := fold_lt sum
  have mod := fold_mod sum
  have pos := fold_pos sum positive
  omega

theorem fold_carry (sum : Nat) (large : ¬sum < 65536) : fold sum = fold (sum % 65536 + sum / 65536) := by
  rw [fold, if_neg large]

/-- Adding the complement of a folded sum completes it to all ones. -/
theorem fold_complement (sum : Nat) : fold (sum + (65535 - fold sum)) = 65535 := by
  have lt := fold_lt sum
  have mod := fold_mod sum
  by_cases zero : sum = 0
  · subst zero
    rw [show fold 0 = 0 by rw [fold, if_pos (by decide)]]
    exact fold_full _ (by decide) (by decide)
  · exact fold_full _ (by omega) (by omega)

/-- All ones may stand for a complement of zero. -/
theorem fold_ones (sum : Nat) (full : fold sum = 65535) : fold (sum + 65535) = 65535 := by
  have mod := fold_mod sum
  exact fold_full _ (by omega) (by omega)

theorem wordSum_append (front back : Bytes) (even : front.length % 2 = 0) :
    wordSum (front ++ back) = wordSum front + wordSum back := by
  induction front using wordSum.induct with
  | case1 high low rest ih =>
    have tail := ih (by simp only [List.length_cons] at even; omega)
    rw [List.cons_append, List.cons_append, wordSum, tail, wordSum, Nat.add_assoc _ (wordSum rest)]
  | case2 last => exact absurd even (show ¬1 % 2 = 0 by decide)
  | case3 => rw [List.nil_append, wordSum, Nat.zero_add]

theorem wordSum_le (data : Bytes) : wordSum data ≤ (data.length + 1) / 2 * 65535 := by
  induction data using wordSum.induct with
  | case1 high low rest ih =>
    have first := high.isLt
    have second := low.isLt
    rw [wordSum, List.length_cons, List.length_cons]
    omega
  | case2 last =>
    have bound := last.isLt
    rw [wordSum, List.length_singleton]
    omega
  | case3 => exact Nat.zero_le _

theorem wordSum_bytes16 (word : BitVec 16) : wordSum (bytes16 word) = word.toNat := by
  have joined := congrArg BitVec.toNat (be16_bytes16 word)
  rw [be16_toNat] at joined
  rw [bytes16, wordSum, wordSum, Nat.add_zero, joined]

section Stored

variable (front back : Bytes) (even : front.length % 2 = 0) (csum : BitVec 16)
include even

theorem wordSum_stored : wordSum (front ++ bytes16 csum ++ back) = wordSum front + csum.toNat + wordSum back := by
  have even' : (front ++ bytes16 csum).length % 2 = 0 := by
    rw [List.length_append, bytes16_length, Nat.add_mod_right, even]
  rw [wordSum_append _ _ even', wordSum_append _ _ even, wordSum_bytes16]

/-- Data verifies with the complement of its sum in the place of the zero checksum. -/
theorem verifies_stored (complement : csum.toNat = 65535 - fold (wordSum (front ++ bytes16 0 ++ back))) :
    Verifies (front ++ bytes16 csum ++ back) := by
  have zero := wordSum_stored front back even 0
  have total := wordSum_stored front back even csum
  have sum : wordSum (front ++ bytes16 csum ++ back) = wordSum (front ++ bytes16 0 ++ back) +
      (65535 - fold (wordSum (front ++ bytes16 0 ++ back))) := by
    rw [← complement, zero, total, show (0 : BitVec 16).toNat = 0 by rfl]
    omega
  rw [Verifies, sum]
  exact fold_complement _

/-- The same with all ones sent for a complement of zero. -/
theorem verifies_stored_nonzero (complement : csum.toNat = 65535 - fold (wordSum (front ++ bytes16 0 ++ back))) :
    Verifies (front ++ bytes16 (if csum = 0 then 0xffff else csum) ++ back) := by
  by_cases none : csum = 0
  · have zero := wordSum_stored front back even 0
    have ones := wordSum_stored front back even 0xffff
    have lt := fold_lt (wordSum (front ++ bytes16 0 ++ back))
    rw [none, show (0 : BitVec 16).toNat = 0 by rfl] at complement
    have sum : wordSum (front ++ bytes16 0xffff ++ back) = wordSum (front ++ bytes16 0 ++ back) + 65535 := by
      rw [zero, ones, show (0 : BitVec 16).toNat = 0 by rfl, show (0xffff : BitVec 16).toNat = 65535 by rfl]
      omega
    rw [if_pos none, Verifies, sum]
    exact fold_ones _ (by omega)
  · rw [if_neg none]
    exact verifies_stored front back even csum complement

end Stored

end ShadowVpn.Lib.OnesComplement
