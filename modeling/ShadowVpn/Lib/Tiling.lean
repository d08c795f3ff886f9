import Mathlib.Algebra.Group.Nat.Even
import Mathlib.Data.List.Chain

/-! Intervals of numbers cut into aligned blocks whose sizes are powers of two. A greedy cut,
which takes the largest block at each start, has no more blocks than any other exact cover. -/

namespace ShadowVpn.Lib.Tiling

/-- The `2 ^ bits` numbers from `base` on. -/
structure Block where
  base : Nat
  bits : Nat

def Block.stop (block : Block) : Nat := block.base + 2 ^ block.bits

def Block.Has (block : Block) (v : Nat) : Prop := block.base ≤ v ∧ v < block.stop

def Block.Aligned (block : Block) : Prop := 2 ^ block.bits ∣ block.base

def Covers (blocks : List Block) (v : Nat) : Prop := ∃ block ∈ blocks, block.Has v

/-- The blocks follow one another from `start` to just below `stop`. -/
def Tiles : List Block → (start stop : Nat) → Prop
  | [], start, stop => start = stop
  | block :: rest, start, stop => block.base = start ∧ Tiles rest block.stop stop

/-- The largest aligned block of at most `width` bits that begins at `start` and ends by `stop`. -/
structure Largest (width start stop bits : Nat) : Prop where
  le : bits ≤ width
  aligned : 2 ^ bits ∣ start
  fits : start + 2 ^ bits ≤ stop
  top : ∀ other, other ≤ width → 2 ^ other ∣ start → start + 2 ^ other ≤ stop → other ≤ bits

inductive Greedy (width stop : Nat) : Nat → List Block → Prop
  | done : Greedy width stop stop []
  | take {start bits : Nat} {rest : List Block} (largest : Largest width start stop bits)
      (more : Greedy width stop (start + 2 ^ bits) rest) : Greedy width stop start (⟨start, bits⟩ :: rest)

theorem Block.base_lt_stop (block : Block) : block.base < block.stop :=
  Nat.lt_add_of_pos_right (Nat.two_pow_pos _)

theorem Block.has_base (block : Block) : block.Has block.base := ⟨le_rfl, block.base_lt_stop⟩

/-- Two aligned blocks with a common number are nested. -/
theorem Block.Aligned.nested {one two : Block} (first : one.Aligned) (second : two.Aligned)
    (le : one.bits ≤ two.bits) {v : Nat} (inOne : one.Has v) (inTwo : two.Has v) :
    two.base ≤ one.base ∧ one.stop ≤ two.stop := by
  have divides : 2 ^ one.bits ∣ 2 ^ two.bits := Nat.pow_dvd_pow 2 le
  have base : 2 ^ one.bits ∣ two.base := Nat.dvd_trans divides second
  have stop : 2 ^ one.bits ∣ two.stop := Nat.dvd_add base divides
  constructor
  · exact Nat.le_of_lt_add_of_dvd (Nat.lt_of_le_of_lt inTwo.1 inOne.2) base first
  · have before : one.base < two.stop := Nat.lt_of_le_of_lt inOne.1 inTwo.2
    exact Nat.le_of_lt_add_of_dvd (Nat.add_lt_add_right before _) (Nat.dvd_add first (Nat.dvd_refl _)) stop

/-! ### Tilings -/

theorem Tiles.le {blocks : List Block} {start stop : Nat} (tiles : Tiles blocks start stop) :
    start ≤ stop := by
  induction blocks generalizing start with
  | nil => exact Nat.le_of_eq tiles
  | cons block rest ih =>
    have later := ih tiles.2
    have here := block.base_lt_stop
    rw [← tiles.1]
    omega

theorem Tiles.covers_iff {blocks : List Block} {start stop : Nat} (tiles : Tiles blocks start stop)
    (v : Nat) : Covers blocks v ↔ start ≤ v ∧ v < stop := by
  induction blocks generalizing start with
  | nil =>
    have same : start = stop := tiles
    simp only [Covers, List.not_mem_nil, false_and, exists_false, false_iff]
    omega
  | cons block rest ih =>
    have later := ih tiles.2
    have after := tiles.2.le
    have before := block.base_lt_stop
    simp only [Covers, List.mem_cons, exists_eq_or_imp] at later ⊢
    rw [later, ← tiles.1]
    unfold Block.Has
    omega

theorem Tiles.ascending {blocks : List Block} {start stop : Nat} (tiles : Tiles blocks start stop) :
    blocks.Pairwise fun one two => one.stop ≤ two.base := by
  induction blocks generalizing start with
  | nil => exact List.Pairwise.nil
  | cons block rest ih =>
    refine List.pairwise_cons.mpr ⟨fun other member => ?_, ih tiles.2⟩
    exact ((tiles.2.covers_iff other.base).mp ⟨other, member, other.has_base⟩).1

theorem Tiles.contiguous {blocks : List Block} {start stop : Nat} (tiles : Tiles blocks start stop) :
    blocks.IsChain fun one two => one.stop = two.base := by
  induction blocks generalizing start with
  | nil => exact List.IsChain.nil
  | cons block rest ih =>
    cases rest with
    | nil => exact List.isChain_singleton _
    | cons next more =>
      have later := tiles.2
      exact List.isChain_cons_cons.mpr ⟨later.1.symm, ih later⟩

/-! ### Greedy tilings -/

theorem Greedy.tiles {width stop start : Nat} {blocks : List Block}
    (greedy : Greedy width stop start blocks) : Tiles blocks start stop := by
  induction greedy with
  | done => rfl
  | take _ _ ih => exact ⟨rfl, ih⟩

/-- No aligned block of a cover runs across the end of the largest block at its start. -/
theorem Largest.not_crossed {width start stop bits : Nat} (largest : Largest width start stop bits)
    {block : Block} (le : block.bits ≤ width) (aligned : block.Aligned) (after : start ≤ block.base)
    (inside : block.stop ≤ stop) : start + 2 ^ bits ≤ block.base ∨ block.stop ≤ start + 2 ^ bits := by
  by_contra crossed
  have nested : (⟨start, bits⟩ : Block).Aligned := largest.aligned
  have both : (⟨start, bits⟩ : Block).Has block.base := ⟨after, by change _ < start + 2 ^ bits; omega⟩
  by_cases smaller : block.bits ≤ bits
  · have within := (aligned.nested nested smaller block.has_base both).2
    exact crossed (Or.inr within)
  · have outer := (nested.nested aligned (by omega : bits ≤ block.bits) both block.has_base).1
    have same : block.base = start := Nat.le_antisymm outer after
    unfold Block.Aligned at aligned
    unfold Block.stop at inside
    rw [same] at aligned inside
    have atMost := largest.top block.bits le aligned inside
    omega

/-- A greedy tiling is a shortest cover by aligned blocks of at most `width` bits. -/
theorem Greedy.shortest {width stop start : Nat} {blocks : List Block}
    (greedy : Greedy width stop start blocks) (others : List Block)
    (legal : ∀ block ∈ others, block.bits ≤ width ∧ block.Aligned)
    (union : ∀ v, Covers others v ↔ start ≤ v ∧ v < stop) : blocks.length ≤ others.length := by
  induction greedy generalizing others with
  | done => exact Nat.zero_le _
  | @take start bits rest largest more ih =>
    have bounds : ∀ block ∈ others, start ≤ block.base ∧ block.stop ≤ stop := by
      intro block member
      have first := (union block.base).mp ⟨block, member, block.has_base⟩
      have size := block.base_lt_stop
      have last := (union (block.stop - 1)).mp ⟨block, member, by unfold Block.Has; omega⟩
      omega
    have sides := fun block member => largest.not_crossed (legal block member).1 (legal block member).2
      (bounds block member).1 (bounds block member).2
    -- the blocks from the next start on cover what the rest of the greedy tiling covers
    let later := others.filter fun block => decide (start + 2 ^ bits ≤ block.base)
    have kept : ∀ block, block ∈ later ↔ block ∈ others ∧ start + 2 ^ bits ≤ block.base := by
      intro block
      simp only [later, List.mem_filter, decide_eq_true_eq]
    have tail : ∀ v, Covers later v ↔ start + 2 ^ bits ≤ v ∧ v < stop := by
      intro v
      constructor
      · rintro ⟨block, member, has⟩
        have facts := (kept block).mp member
        have within := (union v).mp ⟨block, facts.1, has⟩
        exact ⟨Nat.le_trans facts.2 has.1, within.2⟩
      · intro within
        have low : start ≤ v := Nat.le_trans (Nat.le_add_right _ _) within.1
        obtain ⟨block, member, has⟩ := (union v).mpr ⟨low, within.2⟩
        have side := sides block member
        have above := has.2
        exact ⟨block, (kept block).mpr ⟨member, by omega⟩, has⟩
    have shorter := ih later (fun block member => legal block ((kept block).mp member).1) tail
    -- the block over `start` itself is not among them
    have dropped : later.length < others.length := by
      have positive : 0 < 2 ^ bits := Nat.two_pow_pos bits
      have fits := largest.fits
      obtain ⟨block, member, has⟩ := (union start).mpr (by omega)
      have low := has.1
      exact List.length_filter_lt_length_iff_exists.mpr ⟨block, member, by simp; omega⟩
    rw [List.length_cons]
    omega

end ShadowVpn.Lib.Tiling
