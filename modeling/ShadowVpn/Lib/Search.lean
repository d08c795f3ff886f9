import Mathlib.Order.Basic
import Mathlib.Tactic.Common

/-! Binary search by a three-way probe, as `slice::binary_search_by` halves its
candidates: `size` of them remain from index `base` on. -/

namespace ShadowVpn.Lib.Search

/-- The halving loop, with its number of rounds bounded by `fuel`. -/
def bisect (probe : Nat → Ordering) : (fuel size base : Nat) → Nat
  | 0, _, base => base
  | fuel + 1, size, base =>
    if 1 < size then
      bisect probe fuel (size - size / 2)
        (if probe (base + size / 2) = .gt then base else base + size / 2)
    else base

/-- `Ok(index)` of an equal element, else `Err(index)` of the place to insert one. -/
def binarySearchBy (probe : Nat → Ordering) (length : Nat) : Except Nat Nat :=
  if length = 0 then .error 0
  else
    let base := bisect probe length length 0
    match probe base with
    | .eq => .ok base
    | .lt => .error (base + 1)
    | .gt => .error base

/-- The probed elements are in order: smaller ones, equal ones, larger ones. -/
structure Monotone (probe : Nat → Ordering) (length : Nat) : Prop where
  below : ∀ i j, i ≤ j → j < length → probe j = .lt → probe i = .lt
  above : ∀ i j, i ≤ j → j < length → probe i = .gt → probe j = .gt

theorem bisect_spec (probe : Nat → Ordering) (length fuel size base : Nat)
    (enough : size ≤ fuel) (positive : 0 < size) (inside : base + size ≤ length)
    (left : base = 0 ∨ probe base ≠ .gt)
    (right : ∀ i, base + size ≤ i → i < length → probe i = .gt)
    (monotone : Monotone probe length) :
    bisect probe fuel size base < length ∧
      (bisect probe fuel size base = 0 ∨ probe (bisect probe fuel size base) ≠ .gt) ∧
      ∀ i, bisect probe fuel size base < i → i < length → probe i = .gt := by
  induction fuel generalizing size base with
  | zero => omega
  | succ fuel ih =>
    by_cases more : 1 < size
    · simp only [bisect, if_pos more]
      by_cases high : probe (base + size / 2) = .gt
      · simp only [if_pos high]
        apply ih _ _ (by omega) (by omega) (by omega) left
        intro i low bound
        by_cases past : base + size ≤ i
        · exact right i past bound
        · exact monotone.above (base + size / 2) i (by omega) bound high
      · simp only [if_neg high]
        apply ih _ _ (by omega) (by omega) (by omega) (Or.inr high)
        intro i low bound
        exact right i (by omega) bound
    · simp only [bisect, if_neg more]
      exact ⟨by omega, left, fun i low bound => right i (by omega) bound⟩

theorem binarySearchBy_ok (probe : Nat → Ordering) (length index : Nat)
    (monotone : Monotone probe length) (found : binarySearchBy probe length = .ok index) :
    index < length ∧ probe index = .eq := by
  unfold binarySearchBy at found
  by_cases empty : length = 0
  · simp [empty] at found
  · have spec := bisect_spec probe length length length 0 (Nat.le_refl _) (by omega) (by omega)
      (Or.inl rfl) (fun i low bound => by omega) monotone
    simp only [if_neg empty] at found
    split at found
    next hit =>
      cases found
      exact ⟨spec.1, hit⟩
    next => cases found
    next => cases found

theorem binarySearchBy_error (probe : Nat → Ordering) (length index : Nat)
    (monotone : Monotone probe length) (missed : binarySearchBy probe length = .error index) :
    index ≤ length ∧ (∀ i, i < index → probe i = .lt) ∧
      ∀ i, index ≤ i → i < length → probe i = .gt := by
  unfold binarySearchBy at missed
  by_cases empty : length = 0
  · simp only [if_pos empty, Except.error.injEq] at missed
    subst missed
    exact ⟨by omega, fun i low => by omega, fun i low bound => by omega⟩
  · have spec := bisect_spec probe length length length 0 (Nat.le_refl _) (by omega) (by omega)
      (Or.inl rfl) (fun i low bound => by omega) monotone
    simp only [if_neg empty] at missed
    split at missed
    next => cases missed
    next low =>
      cases missed
      refine ⟨spec.1, fun i before => ?_, fun i after bound => spec.2.2 i (by omega) bound⟩
      exact monotone.below i _ (by omega) spec.1 low
    next high =>
      cases missed
      have zero := spec.2.1.resolve_right (fun no => no high)
      refine ⟨by omega, fun i before => by omega, fun i after bound => ?_⟩
      exact monotone.above _ i after bound high

end ShadowVpn.Lib.Search
