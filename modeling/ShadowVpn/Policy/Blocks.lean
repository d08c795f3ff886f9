import ShadowVpn.Lib.Panic
import ShadowVpn.Lib.Tiling
import ShadowVpn.Policy.Country

/-! The splitting loop of `country.rs` with the arithmetic of the program, and what it cuts a
range into: the shortest list of CIDR blocks that denotes exactly the range. -/

namespace ShadowVpn.Policy.Blocks
open ShadowVpn.Lib ShadowVpn.Lib.Text ShadowVpn.Lib.Ranges ShadowVpn.Lib.Panic ShadowVpn.Lib.Tiling
open ShadowVpn.Net.Ipv4 ShadowVpn.Policy.Chnroute ShadowVpn.Policy.Country

/-- `range_to_cidrs`: every subtraction, addition and shift may stop the program. -/
def rangeToCidrsLoop : (rounds : Nat) → (start stop : BitVec 32) → (out : List Chars) → Checked (List Chars)
  | 0, _, _, _ => .error .rounds
  | rounds + 1, start, stop, out => do
    let alignBits := trailingZeros 32 start.toNat
    let width ← sub stop.toNat start.toNat
    let span ← add width 1
    let spanBits ← sub 63 (leadingZeros64 span)
    let bits := min alignBits spanBits
    let len ← sub 32 bits
    let block ← shl 1 bits
    let next ← add start.toNat block
    if next > stop.toNat then .ok (out ++ [cidrText (start, len)])
    else rangeToCidrsLoop rounds (BitVec.ofNat 32 next) stop (out ++ [cidrText (start, len)])

/-- What a list of CIDR blocks denotes; bits below the prefix do not count. -/
def Denotes (blocks : List (Ipv4Addr × Nat)) (v : Nat) : Prop :=
  ∃ block ∈ blocks, (cidrRange block.1 block.2).Has v

structure ExactTiling (blocks : List (Ipv4Addr × Nat)) (start stop : Nat) : Prop where
  aligned : ∀ block ∈ blocks, block.2 ≤ 32 ∧ 2 ^ (32 - block.2) ∣ block.1.toNat
  ascending : blocks.Pairwise fun one two => one.1.toNat < two.1.toNat
  disjoint : blocks.Pairwise fun one two => ∀ v, ¬((cidrRange one.1 one.2).Has v ∧ (cidrRange two.1 two.2).Has v)
  contiguous : blocks.IsChain fun one two => (cidrRange one.1 one.2).last + 1 = (cidrRange two.1 two.2).first
  union : ∀ v, Denotes blocks v ↔ start ≤ v ∧ v ≤ stop
  shortest : ∀ others : List (Ipv4Addr × Nat), (∀ block ∈ others, block.2 ≤ 32) →
    (∀ v, Denotes others v ↔ start ≤ v ∧ v ≤ stop) → blocks.length ≤ others.length

/-- The block of numbers that a CIDR stands for. -/
def toBlock (cidr : Ipv4Addr × Nat) : Block := ⟨(cidrRange cidr.1 cidr.2).first, 32 - cidr.2⟩

theorem mask_eq (len : Nat) (le : len ≤ 32) : mask len = Prefix.highMask 32 (32 - len) := by
  by_cases whole : len = 0
  · subst whole
    decide
  · rw [mask, if_neg whole, Prefix.highMask]

theorem cidrRange_first (base : Ipv4Addr) (len : Nat) (le : len ≤ 32) :
    (cidrRange base len).first = base.toNat / 2 ^ (32 - len) * 2 ^ (32 - len) := by
  change (base &&& mask len).toNat = _
  rw [mask_eq len le, Prefix.and_highMask_toNat]

theorem cidrRange_last (base : Ipv4Addr) (len : Nat) (le : len ≤ 32) :
    (cidrRange base len).last + 1 = (toBlock (base, len)).stop := by
  have positive : 0 < 2 ^ (32 - len) := Nat.two_pow_pos _
  have first := cidrRange_first base len le
  change (base &&& mask len ||| ~~~mask len).toNat + 1 = (cidrRange base len).first + 2 ^ (32 - len)
  rw [first, mask_eq len le, Prefix.block_end_toNat (32 - len) (by omega)]
  omega

theorem toBlock_has (cidr : Ipv4Addr × Nat) (le : cidr.2 ≤ 32) (v : Nat) :
    (cidrRange cidr.1 cidr.2).Has v ↔ (toBlock cidr).Has v := by
  have last : (cidrRange cidr.1 cidr.2).last + 1 = (toBlock cidr).stop := cidrRange_last cidr.1 cidr.2 le
  change _ ∧ _ ↔ (cidrRange cidr.1 cidr.2).first ≤ v ∧ v < (toBlock cidr).stop
  omega

theorem toBlock_aligned (cidr : Ipv4Addr × Nat) (le : cidr.2 ≤ 32) : (toBlock cidr).Aligned := by
  change 2 ^ (32 - cidr.2) ∣ (cidrRange cidr.1 cidr.2).first
  rw [cidrRange_first cidr.1 cidr.2 le]
  exact Nat.dvd_mul_left _ _

theorem denotes_iff (blocks : List (Ipv4Addr × Nat)) (le : ∀ block ∈ blocks, block.2 ≤ 32) (v : Nat) :
    Denotes blocks v ↔ Tiling.Covers (blocks.map toBlock) v := by
  simp only [Denotes, Tiling.Covers, List.mem_map]
  constructor
  · rintro ⟨cidr, member, has⟩
    exact ⟨toBlock cidr, ⟨cidr, member, rfl⟩, (toBlock_has cidr (le cidr member) v).mp has⟩
  · rintro ⟨_, ⟨cidr, member, rfl⟩, has⟩
    exact ⟨cidr, member, (toBlock_has cidr (le cidr member) v).mpr has⟩

theorem le_trailingZeros (width n other : Nat) (le : other ≤ width) (divides : 2 ^ other ∣ n) :
    other ≤ trailingZeros width n := by
  induction width generalizing n other with
  | zero => exact Nat.le_trans le (Nat.zero_le _)
  | succ width ih =>
    cases other with
    | zero => exact Nat.zero_le _
    | succ other =>
      obtain ⟨q, rfl⟩ := divides
      have even : 2 ^ (other + 1) * q = 2 * (2 ^ other * q) := by
        rw [pow_succ, Nat.mul_comm (2 ^ other) 2, Nat.mul_assoc]
      have half : 2 ^ other ∣ 2 ^ (other + 1) * q / 2 := by
        rw [even, Nat.mul_div_cancel_left _ (by decide)]
        exact Nat.dvd_mul_right _ _
      have below := ih (2 ^ (other + 1) * q / 2) other (Nat.le_of_succ_le_succ le) half
      unfold trailingZeros
      rw [if_neg (by omega)]
      exact Nat.succ_le_succ below

/-- The program takes the largest block that begins at `start` and ends inside the range. -/
theorem blockBits_largest (start stop : BitVec 32) (ordered : start.toNat ≤ stop.toNat) :
    Largest 32 start.toNat (stop.toNat + 1) (blockBits start stop) := by
  have takes := blockBits_takes start stop ordered
  refine ⟨takes.le, takes.aligned, takes.fits, fun other le divides fits => ?_⟩
  have width : (stop - start).toNat = stop.toNat - start.toNat := BitVec.toNat_sub_of_le ordered
  have bound := stop.isLt
  have log := spanBits_eq ((stop - start).toNat + 1) (by omega) (by omega)
  have align := le_trailingZeros 32 start.toNat other le divides
  have span : other ≤ ((stop - start).toNat + 1).log2 := by
    rw [Nat.le_log2 (by omega)]
    omega
  change other ≤ min _ (63 - leadingZeros64 ((stop - start).toNat + 1))
  rw [log]
  exact Nat.le_min.mpr ⟨align, span⟩

/-- One round of the program: nothing overflows, and the next start is a `u32` if there is one. -/
structure Round (start stop : BitVec 32) : Prop where
  next : ¬start.toNat + 2 ^ blockBits start stop > stop.toNat →
    (BitVec.ofNat 32 (start.toNat + 2 ^ blockBits start stop)).toNat = start.toNat + 2 ^ blockBits start stop
  loop : ∀ rounds out, rangeToCidrsLoop (rounds + 1) start stop out =
    if start.toNat + 2 ^ blockBits start stop > stop.toNat then
      .ok (out ++ [cidrText (start, 32 - blockBits start stop)])
    else rangeToCidrsLoop rounds (BitVec.ofNat 32 (start.toNat + 2 ^ blockBits start stop)) stop
      (out ++ [cidrText (start, 32 - blockBits start stop)])

theorem round (start stop : BitVec 32) (ordered : start.toNat ≤ stop.toNat) : Round start stop := by
  have takes := blockBits_takes start stop ordered
  have width : (stop - start).toNat = stop.toNat - start.toNat := BitVec.toNat_sub_of_le ordered
  have bound := stop.isLt
  have leading : leadingZeros64 (stop.toNat - start.toNat + 1) ≤ 63 := by
    rw [leadingZeros64, if_neg (by omega)]
    exact Nat.sub_le _ _
  have bits : min (trailingZeros 32 start.toNat) (63 - leadingZeros64 (stop.toNat - start.toNat + 1)) =
      blockBits start stop := by rw [← width]; rfl
  have fits := takes.fits
  refine ⟨fun more => ?_, fun rounds out => ?_⟩
  · rw [BitVec.toNat_ofNat, Nat.mod_eq_of_lt (by omega)]
  · have span : stop.toNat - start.toNat + 1 < usizeEnd := by
      unfold usizeEnd
      omega
    have next : start.toNat + 2 ^ blockBits start stop < usizeEnd := by
      unfold usizeEnd
      omega
    simp only [rangeToCidrsLoop, sub_ok ordered, ok_bind, add_ok span, sub_ok leading, bits,
      sub_ok takes.le, shl_one_ok (Nat.lt_of_le_of_lt takes.le (by decide : 32 < 64)), add_ok next]

theorem rangeToCidrsLoop_eq (rounds : Nat) (start stop : BitVec 32) (out : List Chars)
    (ordered : start.toNat ≤ stop.toNat) (enough : stop.toNat - start.toNat < rounds) :
    rangeToCidrsLoop rounds start stop out = .ok (out ++ rangeToCidrs start stop) := by
  induction rounds generalizing start out with
  | zero => omega
  | succ rounds ih =>
    have here := round start stop ordered
    rw [here.loop, rangeToCidrs, rangeBlocks, List.map_cons]
    by_cases done : start.toNat + 2 ^ blockBits start stop > stop.toNat
    · rw [if_pos done, if_pos done, List.map_nil]
    · have positive : 0 < 2 ^ blockBits start stop := Nat.two_pow_pos _
      have number := here.next done
      have later := ih (BitVec.ofNat 32 (start.toNat + 2 ^ blockBits start stop))
        (out ++ [cidrText (start, 32 - blockBits start stop)]) (by omega) (by omega)
      rw [if_neg done, if_neg done, later, rangeToCidrs, List.append_assoc, List.singleton_append]

theorem rangeBlocks_greedy (start stop : BitVec 32) (ordered : start.toNat ≤ stop.toNat) :
    Greedy 32 (stop.toNat + 1) start.toNat ((rangeBlocks start stop).map toBlock) := by
  induction start using rangeBlocks.induct stop with
  | case1 start bits next ih =>
    have largest := blockBits_largest start stop ordered
    have block : toBlock (start, 32 - blockBits start stop) = ⟨start.toNat, blockBits start stop⟩ := by
      have back : 32 - (32 - blockBits start stop) = blockBits start stop := Nat.sub_sub_self largest.le
      simp only [toBlock, cidrRange_first start _ (Nat.sub_le _ _), back,
        Nat.div_mul_cancel largest.aligned]
    rw [rangeBlocks, List.map_cons, block]
    apply Greedy.take largest
    by_cases done : start.toNat + 2 ^ blockBits start stop > stop.toNat
    · have fits := largest.fits
      have last : start.toNat + 2 ^ blockBits start stop = stop.toNat + 1 := by omega
      rw [if_pos done, last]
      exact Greedy.done
    · have number := (round start stop ordered).next done
      have ordered' : (BitVec.ofNat 32 (start.toNat + 2 ^ blockBits start stop)).toNat ≤ stop.toNat := by omega
      have more : Greedy 32 (stop.toNat + 1) (BitVec.ofNat 32 (start.toNat + 2 ^ blockBits start stop)).toNat
          ((rangeBlocks (BitVec.ofNat 32 (start.toNat + 2 ^ blockBits start stop)) stop).map toBlock) :=
        ih done ordered'
      rw [number] at more
      rw [if_neg done]
      exact more

theorem rangeBlocks_aligned (start stop : BitVec 32) (ordered : start.toNat ≤ stop.toNat) :
    ∀ block ∈ rangeBlocks start stop, 2 ^ (32 - block.2) ∣ block.1.toNat := by
  induction start using rangeBlocks.induct stop with
  | case1 start bits next ih =>
    have takes := blockBits_takes start stop ordered
    have back : 32 - (32 - blockBits start stop) = blockBits start stop := Nat.sub_sub_self takes.le
    rw [rangeBlocks]
    refine List.forall_mem_cons.mpr ⟨back.symm ▸ takes.aligned, ?_⟩
    by_cases done : start.toNat + 2 ^ blockBits start stop > stop.toNat
    · rw [if_pos done]
      exact List.forall_mem_nil _
    · have number := (round start stop ordered).next done
      have ordered' : (BitVec.ofNat 32 (start.toNat + 2 ^ blockBits start stop)).toNat ≤ stop.toNat := by omega
      rw [if_neg done]
      exact ih done ordered'

theorem rangeBlocks_exact (start stop : BitVec 32) (ordered : start.toNat ≤ stop.toNat) :
    ExactTiling (rangeBlocks start stop) start.toNat stop.toNat := by
  have greedy := rangeBlocks_greedy start stop ordered
  have tiles := greedy.tiles
  have len := rangeBlocks_len start stop
  have aligned := rangeBlocks_aligned start stop ordered
  have bases : ∀ block ∈ rangeBlocks start stop, (toBlock block).base = block.1.toNat := by
    intro block member
    change (cidrRange block.1 block.2).first = _
    rw [cidrRange_first block.1 block.2 (len block member), Nat.div_mul_cancel (aligned block member)]
  have apart := List.pairwise_map.mp tiles.ascending
  have within : ∀ others : List (Ipv4Addr × Nat), (∀ block ∈ others, block.2 ≤ 32) →
      (∀ v, Denotes others v ↔ start.toNat ≤ v ∧ v ≤ stop.toNat) →
      ∀ v, Tiling.Covers (others.map toBlock) v ↔ start.toNat ≤ v ∧ v < stop.toNat + 1 := by
    intro others legal union v
    rw [← denotes_iff others legal, union, Nat.lt_succ_iff]
  refine ⟨fun block member => ⟨len block member, aligned block member⟩, ?_, ?_, ?_, fun v => ?_, ?_⟩
  · apply apart.imp_of_mem
    intro one two first second before
    have size := (toBlock one).base_lt_stop
    rw [bases two second] at before
    rw [bases one first] at size
    omega
  · apply apart.imp_of_mem
    rintro one two first second before v ⟨inOne, inTwo⟩
    have below := ((toBlock_has one (len one first) v).mp inOne).2
    have above := ((toBlock_has two (len two second) v).mp inTwo).1
    omega
  · have chain := (List.isChain_map toBlock).mp tiles.contiguous
    apply chain.imp_of_mem_imp
    intro one two first _ touch
    exact (cidrRange_last one.1 one.2 (len one first)).trans touch
  · exact rangeBlocks_cover start stop ordered v
  · intro others legal union
    have legal' : ∀ block ∈ others.map toBlock, block.bits ≤ 32 ∧ block.Aligned := by
      intro block member
      obtain ⟨cidr, inside, rfl⟩ := List.mem_map.mp member
      exact ⟨Nat.sub_le _ _, toBlock_aligned cidr (legal cidr inside)⟩
    have shorter := greedy.shortest (others.map toBlock) legal' (within others legal union)
    rw [List.length_map, List.length_map] at shorter
    exact shorter

/-- For every ordered pair of `u32` values the splitting loop comes to its end without a fault and
appends the shortest list of CIDR blocks that denotes the range. -/
theorem range_to_cidrs_is_minimal_tiling (start stop : BitVec 32) (ordered : start ≤ stop) :
    ∃ blocks, ExactTiling blocks start.toNat stop.toNat ∧
      ∀ out rounds, stop.toNat - start.toNat < rounds →
        rangeToCidrsLoop rounds start stop out = .ok (out ++ blocks.map cidrText) :=
  ⟨rangeBlocks start stop, rangeBlocks_exact start stop ordered, fun out rounds enough =>
    rangeToCidrsLoop_eq rounds start stop out ordered enough⟩

theorem range_to_cidrs_of_ten : ∃ blocks, ExactTiling blocks 10 20 ∧
    ∀ out rounds, 10 < rounds → rangeToCidrsLoop rounds 10#32 20#32 out = .ok (out ++ blocks.map cidrText) :=
  range_to_cidrs_is_minimal_tiling 10#32 20#32 (by decide)

end ShadowVpn.Policy.Blocks
