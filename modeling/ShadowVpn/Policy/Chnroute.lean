import ShadowVpn.Lib.Prefix
import ShadowVpn.Lib.Ranges
import ShadowVpn.Lib.Search
import ShadowVpn.Net.Ipv4

/-! The route table of `vendor/policy/chnroute.rs`: CIDR lines are parsed into
inclusive ranges, merged on load and looked up by binary search. -/

namespace ShadowVpn.Policy.Chnroute
open ShadowVpn.Lib ShadowVpn.Lib.Text ShadowVpn.Lib.Ranges ShadowVpn.Net.Ipv4

/-- An inclusive range of `u32` addresses. -/
abbrev IpRange := Range (2 ^ 32)

def u32Max : Nat := 2 ^ 32 - 1

/-- `char::is_whitespace`: the Unicode `White_Space` property. -/
def isWhitespace (c : Char) : Bool :=
  c.toNat ∈ [0x09, 0x0A, 0x0B, 0x0C, 0x0D, 0x20, 0x85, 0xA0, 0x1680, 0x2000, 0x2001, 0x2002,
    0x2003, 0x2004, 0x2005, 0x2006, 0x2007, 0x2008, 0x2009, 0x200A, 0x2028, 0x2029, 0x202F,
    0x205F, 0x3000]

/-- `u32::from_str`: an optional plus sign and decimal digits, without overflow. -/
def parseU32 (text : Chars) : Option Nat := do
  let value ← numeral (if text.head? = some '+' then text.tail else text)
  if value ≤ u32Max then some value else none

/-- The mask with `len` leading ones; `len == 0` means the whole space. -/
def mask (len : Nat) : BitVec 32 := if len = 0 then 0 else BitVec.allOnes 32 <<< (32 - len)

/-- The inclusive range that a base address and a prefix length denote. -/
def cidrRange (base : Ipv4Addr) (len : Nat) : IpRange where
  first := (base &&& mask len).toNat
  last := (base &&& mask len ||| ~~~mask len).toNat
  ordered := by rw [BitVec.toNat_or]; exact Nat.left_le_or
  bounded := BitVec.isLt _

def parseCidr (line : Chars) : Option IpRange :=
  let line := trim isWhitespace line
  if line = [] ∨ line.head? = some '#' then none
  else do
    let (addr, len) ← splitOnce '/' line
    let base ← parse (trim isWhitespace addr)
    let len ← parseU32 (trim isWhitespace len)
    if len > 32 then none else some (cidrRange base len)

/-- Merge when overlapping or directly adjacent. -/
def mergeTouches (last first : Nat) : Bool :=
  decide (first ≤ last) || (decide (last ≠ u32Max) && decide (first = last + 1))

theorem mergeTouches_adjoins : Adjoins (2 ^ 32) mergeTouches := by
  intro last first lastBound firstBound
  simp only [mergeTouches, Bool.or_eq_true, Bool.and_eq_true, decide_eq_true_eq]
  unfold u32Max
  omega

theorem digit_not_space (c : Char) (digit : c.isDigit = true) : isWhitespace c = false := by
  have low : 48 ≤ c.toNat ∧ c.toNat ≤ 57 := by
    simp only [Char.isDigit, Bool.and_eq_true, decide_eq_true_eq, ge_iff_le, UInt32.le_iff_toNat_le] at digit
    exact digit
  rw [isWhitespace, decide_eq_false_iff_not]
  intro member
  have beyond : ∀ n ∈ [0x09, 0x0A, 0x0B, 0x0C, 0x0D, 0x20, 0x85, 0xA0, 0x1680, 0x2000, 0x2001,
      0x2002, 0x2003, 0x2004, 0x2005, 0x2006, 0x2007, 0x2008, 0x2009, 0x200A, 0x2028, 0x2029,
      0x202F, 0x205F, 0x3000], n < 48 ∨ 57 < n := by decide
  have h := beyond _ member
  omega

/-- The text of a `u32`: digits behind at most one plus sign. -/
theorem parseU32_shape (text : Chars) (n : Nat) (read : parseU32 text = some n) :
    ∃ digits, (text = digits ∨ text = '+' :: digits) ∧ isNumeral digits = true ∧
      Nat.ofDigitChars 10 digits 0 = n ∧ n ≤ u32Max := by
  simp only [parseU32, numeral, Option.bind_eq_bind, Option.bind_eq_some_iff,
    Option.ite_none_right_eq_some, Option.some.injEq] at read
  obtain ⟨value, ⟨digits, same⟩, small, rfl⟩ := read
  by_cases plus : text.head? = some '+'
  · rw [if_pos plus] at digits same
    obtain ⟨rest, rfl⟩ := List.head?_eq_some_iff.mp plus
    exact ⟨rest, Or.inr rfl, digits, same, small⟩
  · rw [if_neg plus] at digits same
    exact ⟨text, Or.inl rfl, digits, same, small⟩

theorem isNumeral_spec (text : Chars) (digits : isNumeral text = true) :
    text ≠ [] ∧ ∀ c ∈ text, c.isDigit = true := by
  simp only [isNumeral, Bool.and_eq_true, Bool.not_eq_true', List.isEmpty_eq_false_iff,
    List.all_eq_true] at digits
  exact digits

theorem parseU32_mem (text : Chars) (n : Nat) (read : parseU32 text = some n) :
    (∀ c ∈ text, c.isDigit = true ∨ c = '+') ∧ ∃ c ∈ text, c.isDigit = true := by
  obtain ⟨digits, shape, numeral, _, _⟩ := parseU32_shape text n read
  obtain ⟨nonempty, all⟩ := isNumeral_spec digits numeral
  obtain ⟨c, member⟩ := List.exists_mem_of_ne_nil _ nonempty
  rcases shape with rfl | rfl
  · exact ⟨fun d inside => Or.inl (all d inside), c, member, all c member⟩
  · refine ⟨?_, c, List.mem_cons_of_mem _ member, all c member⟩
    intro d inside
    rcases List.mem_cons.mp inside with rfl | later
    · exact Or.inr rfl
    · exact Or.inl (all d later)

/-- The lines that are read: a padded address, the first slash and a padded length. -/
theorem parseCidr_some (line : Chars) (range : IpRange) :
    parseCidr line = some range ↔ ∃ addr len base n,
      splitOnce '/' (trim isWhitespace line) = some (addr, len) ∧
        parse (trim isWhitespace addr) = some base ∧
        parseU32 (trim isWhitespace len) = some n ∧ n ≤ 32 ∧ cidrRange base n = range := by
  constructor
  · intro parsed
    simp only [parseCidr, Option.bind_eq_bind, Option.ite_none_left_eq_some,
      Option.bind_eq_some_iff, Option.some.injEq, Prod.exists] at parsed
    obtain ⟨_, addr, len, split, base, readBase, n, readLen, small, same⟩ := parsed
    exact ⟨addr, len, base, n, split, readBase, readLen, by omega, same⟩
  · rintro ⟨addr, len, base, n, split, readBase, readLen, small, same⟩
    have shape := (splitOnce_some '/' _ _ _ split).1
    obtain ⟨front, back, whole, before, _⟩ := trim_spec isWhitespace addr
    obtain ⟨nonempty, first, _⟩ := parse_ends _ _ readBase
    obtain ⟨c, rest, core⟩ := List.exists_cons_of_ne_nil nonempty
    have keep : ¬(trim isWhitespace line = [] ∨ (trim isWhitespace line).head? = some '#') := by
      intro skip
      rcases skip with empty | hash
      · rw [shape] at empty
        exact absurd empty (by simp)
      · rw [shape, whole, core] at hash
        cases front with
        | nil =>
          have digit := first c (by simp [core])
          simp only [List.nil_append, List.cons_append, List.head?_cons, Option.some.injEq] at hash
          subst hash
          exact absurd digit (by decide)
        | cons d more =>
          have white := before d (by simp)
          simp only [List.cons_append, List.head?_cons, Option.some.injEq] at hash
          subst hash
          exact absurd white (by decide)
    simp only [parseCidr, if_neg keep, split, readBase, readLen, Option.bind_eq_bind,
      Option.bind_some]
    rw [if_neg (by omega), same]

/-- A merged, sorted set of ranges; neighbours are separated by a gap. -/
structure ChnRoute where
  ranges : List IpRange
  apart : ranges.Pairwise Apart

namespace ChnRoute

def fromRanges (ranges : List IpRange) : ChnRoute where
  ranges := merge mergeTouches (sort ranges)
  apart := (merge_sorted mergeTouches_adjoins _ (sort_firsts ranges)).1

/-- Unparsable lines, blanks and `#` comments are skipped. -/
def fromLines (lines : List Chars) : ChnRoute := fromRanges (lines.filterMap parseCidr)

/-- How the start of the range at `index` compares with `v`. -/
def probe (table : ChnRoute) (v index : Nat) : Ordering :=
  match table.ranges[index]? with
  | some range => compare range.first v
  | none => .gt

def contains (table : ChnRoute) (ip : Ipv4Addr) : Bool :=
  match Search.binarySearchBy (table.probe ip.toNat) table.ranges.length with
  | .ok _ => true
  | .error 0 => false
  | .error (index + 1) =>
    match table.ranges[index]? with
    | some range => decide (ip.toNat ≤ range.last)
    | none => false

theorem fromRanges_covers (ranges : List IpRange) (v : Nat) :
    Covers (fromRanges ranges).ranges v ↔ Covers ranges v := by
  rw [fromRanges, (merge_sorted mergeTouches_adjoins _ (sort_firsts ranges)).2 v, covers_sort]

theorem apart_of_lt (table : ChnRoute) (i j : Nat) (lt : i < j) (bound : j < table.ranges.length) :
    table.ranges[i].last + 1 < table.ranges[j].first :=
  List.pairwise_iff_getElem.mp table.apart i j (by omega) bound lt

theorem probe_eq (table : ChnRoute) (v i : Nat) (bound : i < table.ranges.length) :
    table.probe v i = compare table.ranges[i].first v := by
  simp [probe, List.getElem?_eq_getElem bound]

theorem first_le (table : ChnRoute) (i j : Nat) (le : i ≤ j) (bound : j < table.ranges.length) :
    table.ranges[i].first ≤ table.ranges[j].first := by
  by_cases same : i = j
  · subst same
    exact Nat.le_refl _
  · have gap := table.apart_of_lt i j (by omega) bound
    have order := table.ranges[i].ordered
    omega

theorem probe_monotone (table : ChnRoute) (v : Nat) :
    Search.Monotone (table.probe v) table.ranges.length where
  below i j le bound low := by
    rw [table.probe_eq v j bound, Nat.compare_eq_lt] at low
    rw [table.probe_eq v i (by omega), Nat.compare_eq_lt]
    exact Nat.lt_of_le_of_lt (table.first_le i j le bound) low
  above i j le bound high := by
    rw [table.probe_eq v i (by omega), Nat.compare_eq_gt] at high
    rw [table.probe_eq v j bound, Nat.compare_eq_gt]
    exact Nat.lt_of_lt_of_le high (table.first_le i j le bound)

/-- The binary search decides membership in the union of the ranges. -/
theorem contains_iff (table : ChnRoute) (ip : Ipv4Addr) :
    table.contains ip = true ↔ Covers table.ranges ip.toNat := by
  have monotone := table.probe_monotone ip.toNat
  unfold contains
  cases search : Search.binarySearchBy (table.probe ip.toNat) table.ranges.length with
  | ok index =>
    obtain ⟨bound, hit⟩ := Search.binarySearchBy_ok _ _ _ monotone search
    rw [table.probe_eq _ _ bound, Nat.compare_eq_eq] at hit
    have order := table.ranges[index].ordered
    simp only [true_iff]
    exact ⟨table.ranges[index], List.getElem_mem bound, by unfold Range.Has; omega⟩
  | error index =>
    obtain ⟨le, low, high⟩ := Search.binarySearchBy_error _ _ _ monotone search
    have owner : ∀ i (bound : i < table.ranges.length), table.ranges[i].Has ip.toNat → i + 1 = index := by
      intro i bound has
      unfold Range.Has at has
      by_cases after : index ≤ i
      · have past := high i after bound
        rw [table.probe_eq _ _ bound, Nat.compare_eq_gt] at past
        omega
      · by_contra other
        have next := low (index - 1) (by omega)
        rw [table.probe_eq _ _ (by omega), Nat.compare_eq_lt] at next
        have gap := table.apart_of_lt i (index - 1) (by omega) (by omega)
        omega
    cases index with
    | zero =>
      simp only [Bool.false_eq_true, false_iff]
      rintro ⟨range, member, has⟩
      obtain ⟨i, bound, rfl⟩ := List.mem_iff_getElem.mp member
      exact absurd (owner i bound has) (by omega)
    | succ index =>
      have bound : index < table.ranges.length := by omega
      have before := low index (by omega)
      rw [table.probe_eq _ _ bound, Nat.compare_eq_lt] at before
      simp only [List.getElem?_eq_getElem bound, decide_eq_true_eq]
      constructor
      · intro inside
        exact ⟨table.ranges[index], List.getElem_mem bound, Nat.le_of_lt before, inside⟩
      · rintro ⟨range, member, has⟩
        obtain ⟨i, inside, rfl⟩ := List.mem_iff_getElem.mp member
        have same : i = index := by have h := owner i inside has; omega
        subst same
        exact has.2

/-- A table built from lines contains exactly the addresses of the lines that parse. -/
theorem fromLines_contains (lines : List Chars) (ip : Ipv4Addr) :
    (fromLines lines).contains ip = true ↔
      ∃ line ∈ lines, ∃ range, parseCidr line = some range ∧ range.Has ip.toNat := by
  rw [contains_iff, fromLines, fromRanges_covers]
  simp only [Covers, List.mem_filterMap]
  constructor
  · rintro ⟨range, ⟨line, member, parsed⟩, has⟩
    exact ⟨line, member, range, parsed, has⟩
  · rintro ⟨line, member, range, parsed, has⟩
    exact ⟨range, ⟨line, member, parsed⟩, has⟩

end ChnRoute

/-- The range of a CIDR is the block of its base address. -/
theorem cidrRange_has (base ip : Ipv4Addr) (len : Nat) (le : len ≤ 32) :
    (cidrRange base len).Has ip.toNat ↔ Prefix.SameBlock (32 - len) ip base := by
  have high : mask len = Prefix.highMask 32 (32 - len) := by
    by_cases zero : len = 0
    · subst zero
      decide
    · rw [mask, if_neg zero, Prefix.highMask]
  rw [Prefix.sameBlock_iff_between (32 - len) (by omega), ← high]
  rfl

end ShadowVpn.Policy.Chnroute
