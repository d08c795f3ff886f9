import Mathlib.Algebra.Group.Nat.Even
import ShadowVpn.Lib.Octets

/-! Computations that stop the program: an index or a range outside a slice, a string cut inside a
character, a `usize` that overflows, and a loop that goes on when its rounds are spent. -/

namespace ShadowVpn.Lib.Panic
open ShadowVpn.Lib.Octets

inductive Fault where
  | range | boundary | overflow | rounds
  deriving DecidableEq

abbrev Checked (α : Type) := Except Fault α

/-- `usize` values are below this, and the lengths of slices below half of it. -/
def usizeEnd : Nat := 2 ^ 64

/-- A byte slice; none is longer than `isize::MAX`. -/
structure Slice where
  bytes : Bytes
  small : bytes.length < 2 ^ 63

/-- `data[i]`. -/
def index (data : Bytes) (i : Nat) : Checked Byte :=
  match data[i]? with
  | some b => .ok b
  | none => .error .range

/-- `data.get(start..stop)`. -/
def getRange (data : Bytes) (start stop : Nat) : Option Bytes :=
  if start ≤ stop ∧ stop ≤ data.length then some ((data.drop start).take (stop - start)) else none

/-- `data.get(start..)`. -/
def getFrom (data : Bytes) (start : Nat) : Option Bytes :=
  if start ≤ data.length then some (data.drop start) else none

/-- `data[start..stop]`. -/
def slice (data : Bytes) (start stop : Nat) : Checked Bytes :=
  match getRange data start stop with
  | some part => .ok part
  | none => .error .range

def checkedAdd (a b : Nat) : Option Nat := if a + b < usizeEnd then some (a + b) else none

/-- `a + b` on `usize`. -/
def add (a b : Nat) : Checked Nat := if a + b < usizeEnd then .ok (a + b) else .error .overflow

/-- `a * b` on `usize`. -/
def mul (a b : Nat) : Checked Nat := if a * b < usizeEnd then .ok (a * b) else .error .overflow

/-- `a - b` on an unsigned type. -/
def sub (a b : Nat) : Checked Nat := if b ≤ a then .ok (a - b) else .error .overflow

/-- `a << bits` on `u64`: bits shifted out are lost, a shift by the width stops. -/
def shl (a bits : Nat) : Checked Nat := if bits < 64 then .ok (a * 2 ^ bits % 2 ^ 64) else .error .overflow

/-- The computation comes to its end. -/
def Returns {α : Type} (action : Checked α) : Prop := ∃ result, action = .ok result

variable {α β : Type}

theorem ok_bind (a : α) (next : α → Checked β) : (Except.ok a >>= next) = next a := rfl

theorem returns_ok (a : α) : Returns (.ok a) := ⟨a, rfl⟩

theorem not_returns_error (fault : Fault) : ¬Returns (.error fault : Checked α) := by
  rintro ⟨_, same⟩
  cases same

/-- Where nothing after it stops, a computation alone decides. -/
theorem returns_bind {action : Checked α} {next : α → Checked β} (goOn : ∀ a, Returns (next a)) :
    Returns (action >>= next) ↔ Returns action := by
  cases action with
  | ok a => exact iff_of_true (goOn a) (returns_ok a)
  | error fault => exact iff_of_false (not_returns_error fault) (not_returns_error fault)

theorem getElem?_some {data : Bytes} {i : Nat} {b : Byte} (found : data[i]? = some b) :
    i < data.length ∧ b = byteAt data i := by
  obtain ⟨inside, _⟩ := List.getElem?_eq_some_iff.mp found
  refine ⟨inside, ?_⟩
  rw [byteAt, List.getD_eq_getElem?_getD, found, Option.getD_some]

theorem index_ok {data : Bytes} {i : Nat} (inside : i < data.length) : index data i = .ok (byteAt data i) := by
  have found := List.getElem?_eq_getElem inside
  rw [index, found, (getElem?_some found).2]

theorem getRange_some {data part : Bytes} {start stop : Nat} (found : getRange data start stop = some part) :
    start ≤ stop ∧ stop ≤ data.length ∧ part = (data.drop start).take (stop - start) ∧
      part.length = stop - start := by
  unfold getRange at found
  split at found
  · next inside =>
    obtain rfl := Option.some.inj found
    refine ⟨inside.1, inside.2, rfl, ?_⟩
    rw [List.length_take, List.length_drop]
    omega
  · cases found

theorem getFrom_some {data part : Bytes} {start : Nat} (found : getFrom data start = some part) :
    start ≤ data.length ∧ part = data.drop start := by
  unfold getFrom at found
  split at found
  · next inside => exact ⟨inside, (Option.some.inj found).symm⟩
  · cases found

theorem slice_ok {data : Bytes} {start stop : Nat} (ordered : start ≤ stop) (inside : stop ≤ data.length) :
    slice data start stop = .ok ((data.drop start).take (stop - start)) := by
  rw [slice, getRange, if_pos ⟨ordered, inside⟩]

theorem checkedAdd_some {a b sum : Nat} (found : checkedAdd a b = some sum) : sum = a + b := by
  unfold checkedAdd at found
  split at found
  · exact (Option.some.inj found).symm
  · cases found

theorem checkedAdd_ok {a b : Nat} (small : a + b < usizeEnd) : checkedAdd a b = some (a + b) := if_pos small

theorem add_ok {a b : Nat} (small : a + b < usizeEnd) : add a b = .ok (a + b) := if_pos small

theorem mul_ok {a b : Nat} (small : a * b < usizeEnd) : mul a b = .ok (a * b) := if_pos small

theorem sub_ok {a b : Nat} (le : b ≤ a) : sub a b = .ok (a - b) := if_pos le

theorem shl_one_ok {bits : Nat} (small : bits < 64) : shl 1 bits = .ok (2 ^ bits) := by
  have fits : 2 ^ bits < 2 ^ 64 := Nat.pow_lt_pow_right (by decide) small
  rw [shl, if_pos small, Nat.one_mul, Nat.mod_eq_of_lt fits]

end ShadowVpn.Lib.Panic
