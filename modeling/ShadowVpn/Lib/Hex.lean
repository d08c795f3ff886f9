import Mathlib.Algebra.GroupWithZero.Nat
import ShadowVpn.Lib.Text

/-! Hexadecimal numerals of a fixed width, and texts of several of them joined by hyphens. -/

namespace ShadowVpn.Lib.Hex
open ShadowVpn.Lib.Text

def hexDigit (d : Nat) : Char := "0123456789ABCDEF".toList.getD d '0'

/-- Either case is read. -/
def hexValue (c : Char) : Option Nat :=
  if '0' ≤ c ∧ c ≤ '9' then some (c.toNat - 48)
  else if 'A' ≤ c ∧ c ≤ 'F' then some (c.toNat - 55)
  else if 'a' ≤ c ∧ c ≤ 'f' then some (c.toNat - 87)
  else none

/-- The last digits of a number. -/
def fixed : (width n : Nat) → Chars
  | 0, _ => []
  | width + 1, n => fixed width (n / 16) ++ [hexDigit (n % 16)]

def readFrom (value : Nat) (text : Chars) : Option Nat :=
  text.foldlM (fun value c => (hexValue c).map fun digit => value * 16 + digit) value

/-- The groups of the given widths, which end with the last digits of a number. -/
def groups : List Nat → Nat → List Chars
  | [], _ => []
  | width :: rest, n => fixed width (n / 16 ^ rest.sum) :: groups rest n

def joined (widths : List Nat) (n : Nat) : Chars := ['-'].intercalate (groups widths n)

/-- The number of a text of groups of just these widths. -/
def readJoined (widths : List Nat) (text : Chars) : Option Nat :=
  let pieces := text.splitOn '-'
  if pieces.map List.length = widths then readFrom 0 pieces.flatten else none

theorem hexValue_hexDigit : ∀ d, d < 16 → hexValue (hexDigit d) = some d := by decide +kernel

theorem hexDigit_ne_hyphen : ∀ d, d < 16 → hexDigit d ≠ '-' := by decide +kernel

theorem fixed_length (width n : Nat) : (fixed width n).length = width := by
  induction width generalizing n with
  | zero => rfl
  | succ width ih => rw [fixed, List.length_append, ih, List.length_singleton]

theorem hyphen_not_mem_fixed (width n : Nat) : '-' ∉ fixed width n := by
  induction width generalizing n with
  | zero => exact List.not_mem_nil
  | succ width ih =>
    intro member
    rcases List.mem_append.mp member with front | last
    · exact ih (n / 16) front
    · exact hexDigit_ne_hyphen (n % 16) (Nat.mod_lt n (by decide)) (List.mem_singleton.mp last).symm

/-- Reading on adds the digits at the end. -/
theorem readFrom_fixed (width n value : Nat) :
    readFrom value (fixed width n) = some (value * 16 ^ width + n % 16 ^ width) := by
  induction width generalizing n with
  | zero => simp [readFrom, fixed, Nat.mod_one]
  | succ width ih =>
    have front := ih (n / 16)
    have digit := hexValue_hexDigit (n % 16) (Nat.mod_lt n (by decide))
    simp only [readFrom, fixed, List.foldlM_append] at front ⊢
    simp only [front, Option.bind_eq_bind, Option.bind_some, List.foldlM_cons, List.foldlM_nil, digit,
      Option.map_some, Option.pure_def, Option.some.injEq]
    rw [Nat.pow_succ, Nat.mul_comm (16 ^ width) 16, Nat.mod_mul, Nat.add_mul, ← Nat.mul_assoc,
      Nat.mul_right_comm]
    omega

theorem readFrom_append (value : Nat) (one two : Chars) :
    readFrom value (one ++ two) = (readFrom value one).bind fun middle => readFrom middle two := by
  simp only [readFrom, List.foldlM_append, Option.bind_eq_bind]

theorem readFrom_groups (widths : List Nat) (n value : Nat) :
    readFrom value (groups widths n).flatten = some (value * 16 ^ widths.sum + n % 16 ^ widths.sum) := by
  induction widths generalizing value with
  | nil => simp [readFrom, groups, Nat.mod_one]
  | cons width rest ih =>
    rw [groups, List.flatten_cons, readFrom_append, readFrom_fixed, Option.bind_some, ih, List.sum_cons]
    congr 1
    rw [Nat.pow_add, Nat.mul_comm (16 ^ width) (16 ^ rest.sum), Nat.mod_mul, Nat.add_mul]
    have cut : n / 16 ^ rest.sum % 16 ^ width * 16 ^ rest.sum =
        16 ^ rest.sum * (n / 16 ^ rest.sum % 16 ^ width) := Nat.mul_comm _ _
    have shift : value * 16 ^ width * 16 ^ rest.sum = value * (16 ^ rest.sum * 16 ^ width) := by
      rw [Nat.mul_assoc, Nat.mul_comm (16 ^ width)]
    omega

theorem groups_lengths (widths : List Nat) (n : Nat) : (groups widths n).map List.length = widths := by
  induction widths with
  | nil => rfl
  | cons width rest ih => rw [groups, List.map_cons, fixed_length, ih]

theorem mem_groups (widths : List Nat) (n : Nat) : ∀ piece ∈ groups widths n, '-' ∉ piece := by
  induction widths with
  | nil => exact fun piece member => absurd member List.not_mem_nil
  | cons width rest ih =>
    intro piece member
    rcases List.mem_cons.mp member with rfl | later
    · exact hyphen_not_mem_fixed width _
    · exact ih piece later

/-- A number that fits the digits is read back from its text. -/
theorem readJoined_joined (widths : List Nat) (n : Nat) (some : widths ≠ [])
    (fits : n < 16 ^ widths.sum) : readJoined widths (joined widths n) = .some n := by
  have nonempty : groups widths n ≠ [] := by
    intro empty
    have lengths := groups_lengths widths n
    rw [empty] at lengths
    exact some lengths.symm
  have cut : (joined widths n).splitOn '-' = groups widths n :=
    List.splitOn_intercalate '-' (mem_groups widths n) nonempty
  simp only [readJoined, cut, groups_lengths, if_true, readFrom_groups, Nat.zero_mul, Nat.zero_add,
    Nat.mod_eq_of_lt fits]

end ShadowVpn.Lib.Hex
