import Mathlib.Data.Finset.Card

/-! Walks of a partial function: one that comes to its end visits no place twice, so it ends within
as many steps as there are places. -/

namespace ShadowVpn.Lib.Walk

variable {Place : Type} (next : Place → Option Place)

/-- The walk from a place comes to its end after the given number of steps. -/
inductive EndsIn : Nat → Place → Prop
  | stop {x : Place} (last : next x = none) : EndsIn 0 x
  | step {n : Nat} {x y : Place} (goes : next x = some y) (later : EndsIn n y) : EndsIn (n + 1) x

/-- The places of the first steps. -/
def places : Nat → Place → List Place
  | 0, x => [x]
  | n + 1, x =>
    x :: match next x with
      | none => []
      | some y => places n y

variable {next}

theorem EndsIn.unique {n m : Nat} {x : Place} (one : EndsIn next n x) (other : EndsIn next m x) : n = m := by
  induction one generalizing m with
  | stop last =>
    cases other with
    | stop => rfl
    | step goes => rw [last] at goes; cases goes
  | step goes later ih =>
    cases other with
    | stop last => rw [last] at goes; cases goes
    | step elsewhere rest =>
      rw [goes, Option.some.injEq] at elsewhere
      rw [ih (elsewhere ▸ rest)]

theorem EndsIn.length_places {n : Nat} {x : Place} (ends : EndsIn next n x) :
    (places next n x).length = n + 1 := by
  induction ends with
  | stop => rfl
  | step goes later ih => simp only [places, goes, List.length_cons, ih]

/-- From each place of a walk that ends the way is no longer than from its start. -/
theorem EndsIn.of_mem {n : Nat} {x y : Place} (ends : EndsIn next n x) (visited : y ∈ places next n x) :
    ∃ m ≤ n, EndsIn next m y := by
  induction ends with
  | stop last =>
    rw [List.mem_singleton.mp visited]
    exact ⟨0, Nat.le_refl 0, .stop last⟩
  | step goes later ih =>
    simp only [places, goes, List.mem_cons] at visited
    rcases visited with rfl | visited
    · exact ⟨_, Nat.le_refl _, .step goes later⟩
    · obtain ⟨m, shorter, ends⟩ := ih visited
      exact ⟨m, Nat.le_succ_of_le shorter, ends⟩

/-- No place is visited twice: from the second visit the way would be both as long and shorter. -/
theorem EndsIn.nodup_places {n : Nat} {x : Place} (ends : EndsIn next n x) : (places next n x).Nodup := by
  induction ends with
  | stop => exact List.nodup_singleton _
  | step goes later ih =>
    simp only [places, goes, List.nodup_cons]
    refine ⟨fun again => ?_, ih⟩
    obtain ⟨m, shorter, back⟩ := later.of_mem again
    have same := (EndsIn.step goes later).unique back
    omega

/-- A walk that stays among finitely many places ends in fewer steps than there are places. -/
theorem EndsIn.lt_card [DecidableEq Place] {n : Nat} {x : Place} (ends : EndsIn next n x)
    (room : Finset Place) (inside : ∀ y ∈ places next n x, y ∈ room) : n < room.card := by
  have distinct : (places next n x).toFinset.card = n + 1 :=
    (List.toFinset_card_of_nodup ends.nodup_places).trans ends.length_places
  have fits : (places next n x).toFinset ⊆ room := fun y visited => inside y (List.mem_toFinset.mp visited)
  have bound := Finset.card_le_card fits
  omega

end ShadowVpn.Lib.Walk
