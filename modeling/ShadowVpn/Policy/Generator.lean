import ShadowVpn.Policy.Blocks

/-! The offline generator `chnroute-gen/src/main.rs`. It sorts and merges as `country.rs` does and
splits each range with a loop of its own, in 32-bit arithmetic; the two lists of lines are compared. -/

namespace ShadowVpn.Policy.Generator
open ShadowVpn.Lib ShadowVpn.Lib.Text ShadowVpn.Lib.Ranges ShadowVpn.Net.Ipv4
open ShadowVpn.Policy.Chnroute ShadowVpn.Policy.Country ShadowVpn.Policy.Blocks

/-- `u32::leading_zeros`. -/
def leadingZeros32 (n : Nat) : Nat := if n = 0 then 32 else 31 - n.log2

/-- `u32::saturating_add`. -/
def saturatingAdd (a b : Nat) : Nat := min (a + b) u32Max

/-- `1u32.checked_shl(bits)`. -/
def checkedShl (bits : Nat) : Option Nat := if bits < 32 then some (2 ^ bits) else none

def generatorBits (start stop : BitVec 32) : Nat :=
  let maxSizeByAlign := if start = 0 then 32 else trailingZeros 32 start.toNat
  let maxSizeBySpan := 32 - min (leadingZeros32 (saturatingAdd (stop - start).toNat 1)) 32
  min maxSizeByAlign (if maxSizeBySpan = 0 then 0 else maxSizeBySpan - 1)

/-- The generator's `range_to_cidrs`; it stops where `checked_add` fails. -/
def generatorBlocks (start stop : BitVec 32) : List (Ipv4Addr × Nat) :=
  if start ≤ stop then
    let bits := generatorBits start stop
    let block := (checkedShl bits).getD 0
    (start, 32 - bits) ::
      if start.toNat + block < 2 ^ 32 ∧ block ≠ 0 then
        generatorBlocks (BitVec.ofNat 32 (start.toNat + block)) stop
      else []
  else []
termination_by stop.toNat + 1 - start.toNat
decreasing_by
  next ordered more =>
    have le : start.toNat ≤ stop.toNat := ordered
    have positive : 0 < (checkedShl (generatorBits start stop)).getD 0 := Nat.pos_of_ne_zero more.2
    have small : start.toNat + (checkedShl (generatorBits start stop)).getD 0 < 2 ^ 32 := more.1
    rw [BitVec.toNat_ofNat, Nat.mod_eq_of_lt small]
    omega

def generatorLines (ranges : List IpRange) : List Chars :=
  (merge Country.mergeTouches (sort ranges)).flatMap fun range =>
    (generatorBlocks (BitVec.ofNat 32 range.first) (BitVec.ofNat 32 range.last)).map cidrText

/-- The two ends of the address space. -/
def Whole (start stop : BitVec 32) : Prop := start.toNat = 0 ∧ stop.toNat = 2 ^ 32 - 1

theorem leadingZeros32_eq (n : Nat) (positive : 0 < n) (small : n < 2 ^ 32) :
    32 - min (leadingZeros32 n) 32 = n.log2 + 1 := by
  have log : n.log2 < 32 := (Nat.log2_lt (Nat.pos_iff_ne_zero.mp positive)).mpr small
  rw [leadingZeros32, if_neg (by omega)]
  omega

/-- Both loops take the same block, except at the start of the whole address space. -/
theorem generatorBits_eq (start stop : BitVec 32) (ordered : start.toNat ≤ stop.toNat)
    (part : ¬Whole start stop) : generatorBits start stop = blockBits start stop := by
  have width : (stop - start).toNat = stop.toNat - start.toNat := BitVec.toNat_sub_of_le ordered
  have bound := stop.isLt
  have span : (stop - start).toNat + 1 < 2 ^ 32 := by
    unfold Whole at part
    omega
  have unsaturated : saturatingAdd (stop - start).toNat 1 = (stop - start).toNat + 1 := by
    unfold saturatingAdd u32Max
    omega
  have align : (if start = 0 then 32 else trailingZeros 32 start.toNat) = trailingZeros 32 start.toNat := by
    by_cases zero : start = 0
    · rw [if_pos zero, zero]
      decide
    · rw [if_neg zero]
  have log := spanBits_eq ((stop - start).toNat + 1) (by omega) (by omega)
  have size := leadingZeros32_eq ((stop - start).toNat + 1) (by omega) span
  have shape : blockBits start stop = min (trailingZeros 32 start.toNat) ((stop - start).toNat + 1).log2 := by
    change min _ (63 - leadingZeros64 ((stop - start).toNat + 1)) = _
    rw [log]
  simp only [generatorBits, align, unsaturated, size]
  rw [shape, if_neg (Nat.succ_ne_zero _), Nat.add_sub_cancel]

/-- The shift of the generator is defined on every block but the largest. -/
theorem blockBits_lt (start stop : BitVec 32) (ordered : start.toNat ≤ stop.toNat)
    (part : ¬Whole start stop) : blockBits start stop < 32 := by
  have takes := blockBits_takes start stop ordered
  have le := takes.le
  have first := start.isLt
  have last := stop.isLt
  by_contra large
  have same : blockBits start stop = 32 := by omega
  have aligned := takes.aligned
  have fits := takes.fits
  rw [same] at aligned fits
  have zero : start.toNat = 0 := Nat.eq_zero_of_dvd_of_lt aligned first
  exact part ⟨zero, by omega⟩

theorem generatorBlocks_eq (start stop : BitVec 32) (ordered : start.toNat ≤ stop.toNat)
    (part : ¬Whole start stop) : generatorBlocks start stop = rangeBlocks start stop := by
  induction start using rangeBlocks.induct stop with
  | case1 start bits next ih =>
    have small := blockBits_lt start stop ordered part
    have positive : 0 < 2 ^ blockBits start stop := Nat.two_pow_pos _
    have block : (checkedShl (blockBits start stop)).getD 0 = 2 ^ blockBits start stop := by
      rw [checkedShl, if_pos small, Option.getD_some]
    have le : start ≤ stop := ordered
    rw [rangeBlocks, generatorBlocks, if_pos le, generatorBits_eq start stop ordered part]
    simp only [block]
    by_cases done : start.toNat + 2 ^ blockBits start stop > stop.toNat
    · have last : (if start.toNat + 2 ^ blockBits start stop < 2 ^ 32 ∧ 2 ^ blockBits start stop ≠ 0 then
          generatorBlocks (BitVec.ofNat 32 (start.toNat + 2 ^ blockBits start stop)) stop else []) = [] := by
        by_cases inside : start.toNat + 2 ^ blockBits start stop < 2 ^ 32
        · have number : (BitVec.ofNat 32 (start.toNat + 2 ^ blockBits start stop)).toNat =
              start.toNat + 2 ^ blockBits start stop := by
            rw [BitVec.toNat_ofNat, Nat.mod_eq_of_lt inside]
          rw [if_pos ⟨inside, Nat.pos_iff_ne_zero.mp positive⟩, generatorBlocks, if_neg]
          rw [BitVec.le_def, number]
          omega
        · rw [if_neg (fun both => inside both.1)]
      rw [last, if_pos done]
    · have number := (round start stop ordered).next done
      have bound := stop.isLt
      have part' : ¬Whole (BitVec.ofNat 32 (start.toNat + 2 ^ blockBits start stop)) stop := by
        unfold Whole
        rw [number]
        omega
      have ordered' : (BitVec.ofNat 32 (start.toNat + 2 ^ blockBits start stop)).toNat ≤ stop.toNat := by omega
      rw [if_pos ⟨by omega, Nat.pos_iff_ne_zero.mp positive⟩, if_neg done, ih done ordered' part']

theorem rangeBlocks_whole : rangeBlocks 0 (BitVec.ofNat 32 (2 ^ 32 - 1)) = [(0, 0)] := by
  rw [rangeBlocks]
  decide +kernel

theorem generatorBlocks_cons (start stop : BitVec 32) (ordered : start ≤ stop) (size : Nat)
    (block : (checkedShl (generatorBits start stop)).getD 0 = size) :
    generatorBlocks start stop = (start, 32 - generatorBits start stop) ::
      if start.toNat + size < 2 ^ 32 ∧ size ≠ 0 then generatorBlocks (BitVec.ofNat 32 (start.toNat + size)) stop
      else [] := by
  subst block
  rw [generatorBlocks, if_pos ordered]

/-- Saturation leaves 31 bits where the whole space needs 32. -/
theorem generatorBlocks_whole :
    generatorBlocks 0 (BitVec.ofNat 32 (2 ^ 32 - 1)) = [(0, 1), (BitVec.ofNat 32 (2 ^ 31), 1)] := by
  have first : generatorBits 0 (BitVec.ofNat 32 (2 ^ 32 - 1)) = 31 := by decide +kernel
  have second : generatorBits (BitVec.ofNat 32 (2 ^ 31)) (BitVec.ofNat 32 (2 ^ 32 - 1)) = 31 := by
    decide +kernel
  have low := generatorBlocks_cons 0 (BitVec.ofNat 32 (2 ^ 32 - 1)) (by decide) (2 ^ 31)
    (by rw [first]; rfl)
  have high := generatorBlocks_cons (BitVec.ofNat 32 (2 ^ 31)) (BitVec.ofNat 32 (2 ^ 32 - 1)) (by decide)
    (2 ^ 31) (by rw [second]; rfl)
  rw [if_neg (by decide), second] at high
  rw [low, if_pos (by decide), first, show (0 : BitVec 32).toNat + 2 ^ 31 = 2 ^ 31 by rfl, high]

theorem lines_of_whole (ranges : List IpRange) {range : IpRange}
    (merged : merge Country.mergeTouches (sort ranges) = [range]) (first : range.first = 0)
    (last : range.last = 2 ^ 32 - 1) :
    generatorLines ranges = [cidrText (0, 1), cidrText (BitVec.ofNat 32 (2 ^ 31), 1)] ∧
      cidrLines ranges = [cidrText (0, 0)] := by
  constructor
  · rw [generatorLines, merged, List.flatMap_singleton, first, last]
    exact congrArg (List.map cidrText) generatorBlocks_whole
  · rw [cidrLines, merged, List.flatMap_singleton, first, last]
    exact congrArg (List.map cidrText) rangeBlocks_whole

/-- The two lists of lines agree exactly when the ranges leave an address out. -/
theorem generatorLines_eq_iff (ranges : List IpRange) :
    generatorLines ranges = cidrLines ranges ↔ ∃ v, v < 2 ^ 32 ∧ ¬Ranges.Covers ranges v := by
  have merged := merge_sorted Country.mergeTouches_adjoins (sort ranges) (sort_firsts ranges)
  have union : ∀ v, Ranges.Covers (merge Country.mergeTouches (sort ranges)) v ↔ Ranges.Covers ranges v :=
    fun v => (merged.2 v).trans (covers_sort ranges v)
  constructor
  · intro agree
    by_contra none
    have all : ∀ v, v < 2 ^ 32 → Ranges.Covers (merge Country.mergeTouches (sort ranges)) v := by
      intro v small
      by_contra out
      exact none ⟨v, small, fun has => out ((union v).mpr has)⟩
    obtain ⟨range, alone, first, last⟩ := singleton_of_covers (by decide) merged.1 all
    obtain ⟨two, one⟩ := lines_of_whole ranges alone first (by omega)
    have lengths := congrArg List.length agree
    rw [two, one] at lengths
    exact absurd lengths (by decide)
  · rintro ⟨v, small, out⟩
    have same : ∀ range ∈ merge Country.mergeTouches (sort ranges),
        (generatorBlocks (BitVec.ofNat 32 range.first) (BitVec.ofNat 32 range.last)).map cidrText =
          rangeToCidrs (BitVec.ofNat 32 range.first) (BitVec.ofNat 32 range.last) := by
      intro range member
      have inner := range.ordered
      have outer := range.bounded
      have first : (BitVec.ofNat 32 range.first).toNat = range.first := by
        rw [BitVec.toNat_ofNat, Nat.mod_eq_of_lt (by omega)]
      have last : (BitVec.ofNat 32 range.last).toNat = range.last := by
        rw [BitVec.toNat_ofNat, Nat.mod_eq_of_lt outer]
      have part : ¬Whole (BitVec.ofNat 32 range.first) (BitVec.ofNat 32 range.last) := by
        rintro ⟨zero, full⟩
        rw [first] at zero
        rw [last] at full
        exact out ((union v).mp ⟨range, member, by rw [zero]; exact Nat.zero_le v, by omega⟩)
      rw [generatorBlocks_eq _ _ (by omega) part, rangeToCidrs]
    exact List.flatMap_congr same

/-- The range of all addresses. -/
def everyAddress : IpRange := ⟨0, 2 ^ 32 - 1, by decide, by decide⟩

theorem generator_splits_whole_space :
    generatorLines [everyAddress] = ["0.0.0.0/1".toList, "128.0.0.0/1".toList] ∧
      cidrLines [everyAddress] = ["0.0.0.0/0".toList] ∧
      generatorLines [everyAddress] ≠ cidrLines [everyAddress] := by
  have both := @lines_of_whole [everyAddress] everyAddress rfl rfl rfl
  rw [both.1, both.2]
  decide +kernel

end ShadowVpn.Policy.Generator
