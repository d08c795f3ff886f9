import Mathlib.Data.List.Sort

/-! Inclusive ranges of numbers below a limit, the sets that lists of them cover,
and the sort-and-merge normal form in which neighbours are separated by a gap. -/

namespace ShadowVpn.Lib.Ranges

/-- An inclusive, non-empty range of numbers below `limit`. -/
@[ext] structure Range (limit : Nat) where
  first : Nat
  last : Nat
  ordered : first ≤ last
  bounded : last < limit
  deriving DecidableEq

variable {limit : Nat}

def Range.Has (range : Range limit) (v : Nat) : Prop := range.first ≤ v ∧ v ≤ range.last

instance (range : Range limit) (v : Nat) : Decidable (range.Has v) :=
  inferInstanceAs (Decidable (_ ∧ _))

def Covers (ranges : List (Range limit)) (v : Nat) : Prop := ∃ range ∈ ranges, range.Has v

@[simp] theorem covers_nil (v : Nat) : ¬Covers ([] : List (Range limit)) v := by simp [Covers]

@[simp] theorem covers_cons (range : Range limit) (ranges : List (Range limit)) (v : Nat) :
    Covers (range :: ranges) v ↔ range.Has v ∨ Covers ranges v := by simp [Covers]

@[simp] theorem covers_append (front back : List (Range limit)) (v : Nat) :
    Covers (front ++ back) v ↔ Covers front v ∨ Covers back v := by
  simp only [Covers, List.mem_append, or_and_right, exists_or]

theorem covers_of_perm {one two : List (Range limit)} (perm : one.Perm two) (v : Nat) :
    Covers one v ↔ Covers two v := by simp only [Covers, perm.mem_iff]

/-- The lexicographic order in which tuples `(first, last)` are sorted. -/
def Range.Le (one two : Range limit) : Prop :=
  one.first < two.first ∨ one.first = two.first ∧ one.last ≤ two.last

instance : DecidableRel (@Range.Le limit) := fun _ _ => inferInstanceAs (Decidable (_ ∨ _))

instance : Std.Total (@Range.Le limit) := ⟨fun _ _ => by unfold Range.Le; omega⟩

instance : IsTrans (Range limit) Range.Le := ⟨fun _ _ _ => by unfold Range.Le; omega⟩

def sort (ranges : List (Range limit)) : List (Range limit) := ranges.insertionSort Range.Le

theorem covers_sort (ranges : List (Range limit)) (v : Nat) :
    Covers (sort ranges) v ↔ Covers ranges v := covers_of_perm (List.perm_insertionSort _ _) v

theorem sort_firsts (ranges : List (Range limit)) :
    (sort ranges).Pairwise (fun one two => one.first ≤ two.first) := by
  apply (List.pairwise_insertionSort Range.Le ranges).imp
  intro one two le
  rcases le with lt | ⟨same, _⟩ <;> omega

/-- One round of a merge loop. The output is kept in reverse, so that its head is the
range written last; `touches last first` decides whether the next range extends it. -/
def absorb (touches : Nat → Nat → Bool) (out : List (Range limit)) (next : Range limit) :
    List (Range limit) :=
  match out with
  | [] => [next]
  | top :: rest =>
    if touches top.last next.first then
      if grows : top.last < next.last then
        ⟨top.first, next.last, Nat.le_trans top.ordered (Nat.le_of_lt grows), next.bounded⟩ :: rest
      else top :: rest
    else next :: top :: rest

def merge (touches : Nat → Nat → Bool) (ranges : List (Range limit)) : List (Range limit) :=
  (ranges.foldl (absorb touches) []).reverse

/-- Two ranges with at least one uncovered number between them. -/
def Apart (one two : Range limit) : Prop := one.last + 1 < two.first

/-- The test a merge loop has to make: overlapping or directly adjacent. -/
def Adjoins (limit : Nat) (touches : Nat → Nat → Bool) : Prop :=
  ∀ last first, last < limit → first < limit → (touches last first = true ↔ first ≤ last + 1)

section Merge

variable {touches : Nat → Nat → Bool} (adjoins : Adjoins limit touches)

theorem absorb_firsts (out : List (Range limit)) (next : Range limit)
    (below : ∀ range ∈ out, range.first ≤ next.first) :
    ∀ range ∈ absorb touches out next, range.first ≤ next.first := by
  cases out with
  | nil => simp [absorb]
  | cons top rest =>
    have order := below top (by simp)
    intro range member
    by_cases touch : touches top.last next.first = true
    · by_cases grows : top.last < next.last
      · simp only [absorb, if_pos touch, dif_pos grows] at member
        rcases List.mem_cons.mp member with rfl | tail
        · exact order
        · exact below range (List.mem_cons_of_mem _ tail)
      · simp only [absorb, if_pos touch, dif_neg grows] at member
        exact below range member
    · simp only [absorb, if_neg touch] at member
      rcases List.mem_cons.mp member with rfl | tail
      · exact le_rfl
      · exact below range tail

include adjoins

theorem absorb_covers (out : List (Range limit)) (next : Range limit)
    (below : ∀ range ∈ out, range.first ≤ next.first) (v : Nat) :
    Covers (absorb touches out next) v ↔ Covers out v ∨ next.Has v := by
  cases out with
  | nil => simp [absorb]
  | cons top rest =>
    have order := below top (by simp)
    have decision := adjoins top.last next.first top.bounded
      (lt_of_le_of_lt next.ordered next.bounded)
    have inner := next.ordered
    have outer := top.ordered
    by_cases touch : touches top.last next.first = true
    · have near := decision.mp touch
      by_cases grows : top.last < next.last
      · simp only [absorb, if_pos touch, dif_pos grows, covers_cons, Range.Has]
        by_cases tail : Covers rest v
        · simp [tail]
        · simp only [tail, or_false]
          omega
      · simp only [absorb, if_pos touch, dif_neg grows, covers_cons, Range.Has]
        by_cases tail : Covers rest v
        · simp [tail]
        · simp only [tail, or_false]
          omega
    · simp only [absorb, if_neg touch, covers_cons]
      tauto

theorem absorb_apart (out : List (Range limit)) (next : Range limit)
    (below : ∀ range ∈ out, range.first ≤ next.first)
    (apart : out.Pairwise (fun one two => Apart two one)) :
    (absorb touches out next).Pairwise (fun one two => Apart two one) := by
  cases out with
  | nil => simp [absorb]
  | cons top rest =>
    have decision := adjoins top.last next.first top.bounded
      (lt_of_le_of_lt next.ordered next.bounded)
    have outer := top.ordered
    rw [List.pairwise_cons] at apart
    by_cases touch : touches top.last next.first = true
    · by_cases grows : top.last < next.last
      · simp only [absorb, if_pos touch, dif_pos grows]
        exact List.pairwise_cons.mpr ⟨fun range member => apart.1 range member, apart.2⟩
      · simp only [absorb, if_pos touch, dif_neg grows]
        exact List.pairwise_cons.mpr apart
    · have far : top.last + 1 < next.first := by
        have no := mt decision.mpr touch
        omega
      simp only [absorb, if_neg touch]
      refine List.pairwise_cons.mpr ⟨?_, List.pairwise_cons.mpr apart⟩
      intro range member
      rcases List.mem_cons.mp member with rfl | tail
      · exact far
      · have gap : range.last + 1 < top.first := apart.1 range tail
        change range.last + 1 < next.first
        omega

theorem foldl_absorb (ranges out : List (Range limit))
    (sorted : ranges.Pairwise (fun one two => one.first ≤ two.first))
    (below : ∀ range ∈ out, ∀ next ∈ ranges, range.first ≤ next.first)
    (apart : out.Pairwise (fun one two => Apart two one)) :
    (ranges.foldl (absorb touches) out).Pairwise (fun one two => Apart two one) ∧
      ∀ v, Covers (ranges.foldl (absorb touches) out) v ↔ Covers out v ∨ Covers ranges v := by
  induction ranges generalizing out with
  | nil => simpa using apart
  | cons next rest ih =>
    rw [List.pairwise_cons] at sorted
    have here : ∀ range ∈ out, range.first ≤ next.first :=
      fun range member => below range member next (by simp)
    have later : ∀ range ∈ absorb touches out next, ∀ other ∈ rest, range.first ≤ other.first :=
      fun range member other otherMember =>
        Nat.le_trans (absorb_firsts out next here range member) (sorted.1 other otherMember)
    have result := ih (absorb touches out next) sorted.2 later
      (absorb_apart adjoins out next here apart)
    refine ⟨result.1, fun v => ?_⟩
    rw [List.foldl_cons, result.2 v, absorb_covers adjoins out next here, covers_cons, or_assoc]

/-- Merging a sorted list keeps the covered set and leaves gaps between neighbours. -/
theorem merge_sorted (ranges : List (Range limit))
    (sorted : ranges.Pairwise (fun one two => one.first ≤ two.first)) :
    (merge touches ranges).Pairwise Apart ∧ ∀ v, Covers (merge touches ranges) v ↔ Covers ranges v := by
  have result := foldl_absorb adjoins ranges [] sorted (by simp) List.Pairwise.nil
  refine ⟨?_, fun v => ?_⟩
  · rw [merge, List.pairwise_reverse]
    exact result.1
  · rw [merge, covers_of_perm (List.reverse_perm _), result.2 v]
    simp

end Merge

/-- A list of ranges with gaps between them that leaves nothing out is a single range. -/
theorem singleton_of_covers {ranges : List (Range limit)} (positive : 0 < limit)
    (apart : ranges.Pairwise Apart) (all : ∀ v, v < limit → Covers ranges v) :
    ∃ range, ranges = [range] ∧ range.first = 0 ∧ range.last + 1 = limit := by
  cases ranges with
  | nil => exact absurd (all 0 positive) (covers_nil 0)
  | cons range rest =>
    rw [List.pairwise_cons] at apart
    have inner := range.ordered
    have outer := range.bounded
    have finish : range.last + 1 = limit := by
      by_contra short
      have gap := (covers_cons range rest _).mp (all (range.last + 1) (by omega))
      rcases gap with has | ⟨other, member, has⟩
      · have below := has.2
        omega
      · have far : range.last + 1 < other.first := apart.1 other member
        have above := has.1
        omega
    have alone : rest = [] := by
      cases rest with
      | nil => rfl
      | cons other more =>
        have far : range.last + 1 < other.first := apart.1 other (by simp)
        have bound := other.bounded
        have order := other.ordered
        omega
    subst alone
    have start := (covers_cons range [] 0).mp (all 0 positive)
    rcases start with has | none
    · exact ⟨range, rfl, Nat.le_zero.mp has.1, finish⟩
    · exact absurd none (covers_nil 0)

/-! ### One normal form for each set -/

/-- The first range holds the smallest number of the list. -/
theorem first_le_of_covers {range : Range limit} {rest : List (Range limit)}
    (apart : (range :: rest).Pairwise Apart) {v : Nat} (covered : Covers (range :: rest) v) :
    range.first ≤ v := by
  rcases (covers_cons range rest v).mp covered with has | ⟨other, member, has⟩
  · exact has.1
  · have far : range.last + 1 < other.first := (List.pairwise_cons.mp apart).1 other member
    have order := range.ordered
    have low := has.1
    omega

/-- Behind the first range there is a gap before the next one. -/
theorem gap_after {range : Range limit} {rest : List (Range limit)} (apart : (range :: rest).Pairwise Apart) :
    ¬Covers (range :: rest) (range.last + 1) := by
  intro covered
  rcases (covers_cons range rest _).mp covered with has | ⟨other, member, has⟩
  · have low := has.2
    omega
  · have far : range.last + 1 < other.first := (List.pairwise_cons.mp apart).1 other member
    have low := has.1
    omega

/-- What the rest of a separated list covers lies behind the first range. -/
theorem covers_rest {range : Range limit} {rest : List (Range limit)} (apart : (range :: rest).Pairwise Apart)
    (v : Nat) : Covers rest v ↔ Covers (range :: rest) v ∧ range.last < v := by
  constructor
  · rintro ⟨other, member, has⟩
    have far : range.last + 1 < other.first := (List.pairwise_cons.mp apart).1 other member
    have low := has.1
    exact ⟨(covers_cons range rest v).mpr (Or.inr ⟨other, member, has⟩), by omega⟩
  · rintro ⟨covered, behind⟩
    rcases (covers_cons range rest v).mp covered with has | later
    · exact absurd has.2 (by omega)
    · exact later

/-- The first range of a separated list reaches no farther than that of another one for the same set. -/
theorem last_le_of_covers {one two : Range limit} {restOne restTwo : List (Range limit)}
    (apart : (one :: restOne).Pairwise Apart) (first : one.first = two.first)
    (same : ∀ v, Covers (two :: restTwo) v → Covers (one :: restOne) v) : two.last ≤ one.last := by
  by_contra longer
  apply gap_after apart
  apply same
  have order := one.ordered
  exact (covers_cons two restTwo _).mpr (Or.inl ⟨by omega, by omega⟩)

/-- Two separated lists that cover the same numbers are the same list. -/
theorem eq_of_covers {one two : List (Range limit)} (apartOne : one.Pairwise Apart)
    (apartTwo : two.Pairwise Apart) (same : ∀ v, Covers one v ↔ Covers two v) : one = two := by
  induction one generalizing two with
  | nil =>
    cases two with
    | nil => rfl
    | cons range rest =>
      have covered : Covers (range :: rest) range.first :=
        (covers_cons range rest _).mpr (Or.inl ⟨Nat.le_refl _, range.ordered⟩)
      exact absurd ((same _).mpr covered) (covers_nil _)
  | cons range rest ih =>
    cases two with
    | nil =>
      have covered : Covers (range :: rest) range.first :=
        (covers_cons range rest _).mpr (Or.inl ⟨Nat.le_refl _, range.ordered⟩)
      exact absurd ((same _).mp covered) (covers_nil _)
    | cons other more =>
      have startOne : Covers (range :: rest) range.first :=
        (covers_cons range rest _).mpr (Or.inl ⟨Nat.le_refl _, range.ordered⟩)
      have startTwo : Covers (other :: more) other.first :=
        (covers_cons other more _).mpr (Or.inl ⟨Nat.le_refl _, other.ordered⟩)
      have first : range.first = other.first := by
        apply Nat.le_antisymm
        · exact first_le_of_covers apartOne ((same _).mpr startTwo)
        · exact first_le_of_covers apartTwo ((same _).mp startOne)
      have last : range.last = other.last := by
        apply Nat.le_antisymm
        · exact last_le_of_covers apartTwo first.symm fun v => (same v).mp
        · exact last_le_of_covers apartOne first fun v => (same v).mpr
      have head : range = other := Range.ext first last
      subst head
      have tail : rest = more := by
        apply ih (List.pairwise_cons.mp apartOne).2 (List.pairwise_cons.mp apartTwo).2
        intro v
        rw [covers_rest apartOne, covers_rest apartTwo, same]
      rw [tail]

/-! ### Pieces that cover a separated list -/

section Pieces

variable {α : Type*} (span : α → Range limit)

theorem covers_map (pieces : List α) (v : Nat) :
    Covers (pieces.map span) v ↔ ∃ piece ∈ pieces, (span piece).Has v := by
  unfold Covers
  constructor
  · rintro ⟨_, member, has⟩
    obtain ⟨piece, listed, rfl⟩ := List.mem_map.mp member
    exact ⟨piece, listed, has⟩
  · rintro ⟨piece, listed, has⟩
    exact ⟨span piece, List.mem_map_of_mem listed, has⟩

/-- The pieces that begin inside the first range, which cover it, and those behind it. -/
theorem covers_pieces {range : Range limit} {rest : List (Range limit)} {pieces : List α}
    (apart : (range :: rest).Pairwise Apart)
    (same : ∀ v, Covers (pieces.map span) v ↔ Covers (range :: rest) v) :
    (∀ v, Covers ((pieces.filter fun piece => decide ((span piece).first ≤ range.last)).map span) v ↔
      range.Has v) ∧
    ∀ v, Covers ((pieces.filter fun piece => !decide ((span piece).first ≤ range.last)).map span) v ↔
      Covers rest v := by
  -- a piece runs over no gap, so it ends inside the range it begins in
  have inside : ∀ piece ∈ pieces, (span piece).first ≤ range.last → (span piece).last ≤ range.last := by
    intro piece member begins
    by_contra crosses
    apply gap_after apart
    apply (same _).mp
    exact (covers_map span pieces _).mpr ⟨piece, member, by omega, by omega⟩
  have covered : ∀ piece ∈ pieces, ∀ v, (span piece).Has v → Covers (range :: rest) v :=
    fun piece member v has => (same v).mp ((covers_map span pieces v).mpr ⟨piece, member, has⟩)
  have pieceOf : ∀ v, Covers (range :: rest) v → ∃ piece ∈ pieces, (span piece).Has v :=
    fun v here => (covers_map span pieces v).mp ((same v).mpr here)
  simp only [covers_map, List.mem_filter, Bool.not_eq_true', decide_eq_true_eq, decide_eq_false_iff_not]
  constructor
  · intro v
    constructor
    · rintro ⟨piece, ⟨member, begins⟩, has⟩
      have start := first_le_of_covers apart (covered piece member v has)
      exact ⟨start, Nat.le_trans has.2 (inside piece member begins)⟩
    · intro has
      obtain ⟨piece, member, here⟩ := pieceOf v ((covers_cons range rest v).mpr (Or.inl has))
      exact ⟨piece, ⟨member, Nat.le_trans here.1 has.2⟩, here⟩
  · intro v
    rw [covers_rest apart]
    constructor
    · rintro ⟨piece, ⟨member, behind⟩, has⟩
      have start := has.1
      exact ⟨covered piece member v has, by omega⟩
    · rintro ⟨whole, behind⟩
      obtain ⟨piece, member, here⟩ := pieceOf v whole
      refine ⟨piece, ⟨member, ?_⟩, here⟩
      intro begins
      have finish := inside piece member begins
      have stop := here.2
      omega

/-- Cutting each range of a separated list as short as possible cuts the whole list so. -/
theorem length_flatMap_le (legal : α → Prop) {cut : Range limit → List α}
    (least : ∀ (range : Range limit) (others : List α), (∀ piece ∈ others, legal piece) →
      (∀ v, Covers (others.map span) v ↔ range.Has v) → (cut range).length ≤ others.length)
    {ranges : List (Range limit)} (apart : ranges.Pairwise Apart) (others : List α)
    (allowed : ∀ piece ∈ others, legal piece)
    (same : ∀ v, Covers (others.map span) v ↔ Covers ranges v) :
    (ranges.flatMap cut).length ≤ others.length := by
  induction ranges generalizing others with
  | nil => exact Nat.zero_le _
  | cons range rest ih =>
    have parts := covers_pieces span apart same
    have allowed' : ∀ test : α → Bool, ∀ piece ∈ others.filter test, legal piece :=
      fun test piece member => allowed piece (List.mem_of_mem_filter member)
    have head := least range _ (allowed' _) parts.1
    have tail := ih (List.pairwise_cons.mp apart).2 _ (allowed' _) parts.2
    calc ((range :: rest).flatMap cut).length
      _ = (cut range).length + (rest.flatMap cut).length := by rw [List.flatMap_cons, List.length_append]
      _ ≤ _ := Nat.add_le_add head tail
      _ = others.length := (List.length_eq_length_filter_add _).symm

end Pieces

end ShadowVpn.Lib.Ranges
