import ShadowVpn.Lib.Octets
import ShadowVpn.Lib.Text

/-! IPv4 addresses and their dotted-decimal text. -/

namespace ShadowVpn.Net.Ipv4
open ShadowVpn.Lib.Octets ShadowVpn.Lib.Text

abbrev Ipv4Addr := BitVec 32

/-- `Ipv4Addr::new`: the four octets in network order. -/
def ofOctets (a b c d : Byte) : Ipv4Addr := a ++ b ++ c ++ d

def octets (ip : Ipv4Addr) : Bytes :=
  [ip.extractLsb' 24 8, ip.extractLsb' 16 8, ip.extractLsb' 8 8, ip.extractLsb' 0 8]

/-- Printing with `%u.%u.%u.%u`, which is also Rust's `Display`. -/
def dotted (ip : Ipv4Addr) : Chars :=
  Nat.toDigits 10 (ip.extractLsb' 24 8).toNat ++ '.' ::
    (Nat.toDigits 10 (ip.extractLsb' 16 8).toNat ++ '.' ::
      (Nat.toDigits 10 (ip.extractLsb' 8 8).toNat ++ '.' ::
        Nat.toDigits 10 (ip.extractLsb' 0 8).toNat))

/-- One decimal octet: one to three digits, no leading zero, at most 255. -/
def octet (text : Chars) : Option Byte := do
  let value ← numeral text
  if text.length ≤ 3 ∧ (text.head? = some '0' → text.length = 1) ∧ value ≤ 255 then
    some (BitVec.ofNat 8 value)
  else none

/-- The addresses that Rust's `Ipv4Addr` parser and `inet_pton` accept: exactly four octets. -/
def parse (text : Chars) : Option Ipv4Addr :=
  match text.splitOn '.' with
  | [a, b, c, d] => do
    let a ← octet a
    let b ← octet b
    let c ← octet c
    let d ← octet d
    some (ofOctets a b c d)
  | _ => none

theorem octet_toDigits : ∀ n : Fin 256, octet (Nat.toDigits 10 n.val) = some (BitVec.ofNat 8 n.val) := by
  decide +kernel

theorem octet_byte (b : Byte) : octet (Nat.toDigits 10 b.toNat) = some b := by
  simpa using octet_toDigits ⟨b.toNat, b.isLt⟩

theorem ofOctets_octets (ip : Ipv4Addr) :
    ofOctets (ip.extractLsb' 24 8) (ip.extractLsb' 16 8) (ip.extractLsb' 8 8) (ip.extractLsb' 0 8) = ip := by
  apply BitVec.eq_of_getLsbD_eq
  intro i inside
  simp only [ofOctets, BitVec.getLsbD_append, BitVec.getLsbD_extractLsb']
  by_cases first : i < 8
  · simp [first]
  · by_cases second : i - 8 < 8
    · simp [first, second, show 8 + (i - 8) = i by omega]
    · by_cases third : i - 8 - 8 < 8
      · simp [first, second, third, show 16 + (i - 8 - 8) = i by omega]
      · simp [first, second, third, show i - 8 - 8 - 8 < 8 by omega,
          show 24 + (i - 8 - 8 - 8) = i by omega]

theorem splitOn_dot (n : Nat) (rest : Chars) :
    (Nat.toDigits 10 n ++ '.' :: rest).splitOn '.' = Nat.toDigits 10 n :: rest.splitOn '.' := by
  rw [List.splitOn_eq_splitOnP, List.splitOn_eq_splitOnP]
  apply List.splitOnP_append_cons_of_forall_mem
  · intro c member
    have absent := not_mem_toDigits '.' n (by decide)
    simp only [beq_eq_false_iff_ne]
    intro same
    exact absent (same ▸ member)
  · rfl

theorem splitOn_last (n : Nat) : (Nat.toDigits 10 n).splitOn '.' = [Nat.toDigits 10 n] := by
  rw [List.splitOn_eq_splitOnP]
  apply List.splitOnP_eq_singleton
  intro c member
  have absent := not_mem_toDigits '.' n (by decide)
  simp only [beq_eq_false_iff_ne]
  intro same
  exact absent (same ▸ member)

/-- Printing and parsing an address are inverse. -/
theorem parse_dotted (ip : Ipv4Addr) : parse (dotted ip) = some ip := by
  simp only [parse, dotted, splitOn_dot, splitOn_last, octet_byte, Option.bind_eq_bind,
    Option.bind_some, ofOctets_octets]

/-- A character that is neither a digit nor a dot does not occur in a printed address. -/
theorem not_mem_dotted (c : Char) (ip : Ipv4Addr) (other : c.isDigit = false) (dot : c ≠ '.') :
    c ∉ dotted ip := by
  simp only [dotted, List.mem_append, List.mem_cons, not_or]
  exact ⟨not_mem_toDigits c _ other, dot, not_mem_toDigits c _ other, dot,
    not_mem_toDigits c _ other, dot, not_mem_toDigits c _ other⟩

theorem octet_digits (text : Chars) (b : Byte) (read : octet text = some b) :
    text ≠ [] ∧ ∀ c ∈ text, c.isDigit = true := by
  have digits : isNumeral text = true := by
    by_contra other
    simp [octet, numeral, other] at read
  simp only [isNumeral, Bool.and_eq_true, Bool.not_eq_true', List.isEmpty_eq_false_iff,
    List.all_eq_true] at digits
  exact digits

/-- The text of an address: four digit runs with dots between them. -/
theorem parse_shape (text : Chars) (ip : Ipv4Addr) (read : parse text = some ip) :
    ∃ a b c d : Chars, text = a ++ '.' :: (b ++ '.' :: (c ++ '.' :: d)) ∧
      ∀ part ∈ [a, b, c, d], part ≠ [] ∧ ∀ c ∈ part, c.isDigit = true := by
  have joined : ['.'].intercalate (text.splitOn '.') = text := List.intercalate_splitOn '.'
  unfold parse at read
  split at read
  · next a b c d split =>
    refine ⟨a, b, c, d, ?_, ?_⟩
    · rw [← joined, split]
      simp [List.intercalate_cons_cons]
    · simp only [Option.bind_eq_bind, Option.bind_eq_some_iff] at read
      obtain ⟨_, one, _, two, _, three, _, four, _⟩ := read
      intro part member
      simp only [List.mem_cons, List.not_mem_nil, or_false] at member
      rcases member with rfl | rfl | rfl | rfl
      · exact octet_digits _ _ one
      · exact octet_digits _ _ two
      · exact octet_digits _ _ three
      · exact octet_digits _ _ four
  · exact absurd read (by simp)

theorem parse_mem (text : Chars) (ip : Ipv4Addr) (read : parse text = some ip) (c : Char)
    (member : c ∈ text) : c.isDigit = true ∨ c = '.' := by
  obtain ⟨w, x, y, z, rfl, parts⟩ := parse_shape text ip read
  simp only [List.mem_append, List.mem_cons] at member
  rcases member with one | rfl | two | rfl | three | rfl | four
  · exact Or.inl ((parts w (by simp)).2 c one)
  · exact Or.inr rfl
  · exact Or.inl ((parts x (by simp)).2 c two)
  · exact Or.inr rfl
  · exact Or.inl ((parts y (by simp)).2 c three)
  · exact Or.inr rfl
  · exact Or.inl ((parts z (by simp)).2 c four)

theorem parse_ends (text : Chars) (ip : Ipv4Addr) (read : parse text = some ip) :
    text ≠ [] ∧ (∀ c ∈ text.head?, c.isDigit = true) ∧ ∀ c ∈ text.getLast?, c.isDigit = true := by
  obtain ⟨w, x, y, z, rfl, parts⟩ := parse_shape text ip read
  obtain ⟨first, someFirst⟩ := parts w (by simp)
  obtain ⟨last, someLast⟩ := parts z (by simp)
  refine ⟨by simp, ?_, ?_⟩
  · intro c head
    rw [List.head?_append_of_ne_nil _ first] at head
    exact someFirst c (List.mem_of_mem_head? head)
  · intro c tail
    have shape : w ++ '.' :: (x ++ '.' :: (y ++ '.' :: z)) =
        (w ++ '.' :: (x ++ '.' :: (y ++ ['.']))) ++ z := by simp
    rw [shape, List.getLast?_append_of_ne_nil _ last] at tail
    exact someLast c (List.mem_of_getLast? tail)

theorem octet_some (text : Chars) (b : Byte) (read : octet text = some b) : text = Nat.toDigits 10 b.toNat := by
  simp only [octet, Option.bind_eq_bind, Option.bind_eq_some_iff, Option.ite_none_right_eq_some,
    Option.some.injEq] at read
  obtain ⟨value, number, ⟨_, leading, small⟩, rfl⟩ := read
  obtain ⟨zeros, rfl⟩ := (numeral_some_iff text value).mp number
  have nonempty : 0 < (Nat.toDigits 10 value).length := List.length_pos_iff.mpr Nat.toDigits_ne_nil
  rw [BitVec.toNat_ofNat, Nat.mod_eq_of_lt (by omega)]
  cases zeros with
  | zero => rfl
  | succ zeros =>
    have single := leading rfl
    rw [List.length_append, List.length_replicate] at single
    omega

theorem extract_low {w : Nat} (front : BitVec w) (b : Byte) : (front ++ b).extractLsb' 0 8 = b := by
  apply BitVec.eq_of_getLsbD_eq
  intro i inside
  rw [BitVec.getLsbD_extractLsb', Nat.zero_add, BitVec.getLsbD_append, if_pos inside]
  simp [inside]

theorem extract_high {w : Nat} (front : BitVec w) (b : Byte) (start : Nat) :
    (front ++ b).extractLsb' (start + 8) 8 = front.extractLsb' start 8 := by
  apply BitVec.eq_of_getLsbD_eq
  intro i inside
  rw [BitVec.getLsbD_extractLsb', BitVec.getLsbD_extractLsb', BitVec.getLsbD_append, if_neg (by omega),
    show start + 8 + i - 8 = start + i by omega]

theorem extract_whole (a : Byte) : a.extractLsb' 0 8 = a := BitVec.extractLsb'_eq_self

theorem octets_ofOctets (a b c d : Byte) : octets (ofOctets a b c d) = [a, b, c, d] := by
  have first : (a ++ b ++ c ++ d).extractLsb' 24 8 = a := by
    rw [extract_high _ d 16, extract_high _ c 8, extract_high _ b 0, extract_whole]
  have second : (a ++ b ++ c ++ d).extractLsb' 16 8 = b := by
    rw [extract_high _ d 8, extract_high _ c 0, extract_low]
  have third : (a ++ b ++ c ++ d).extractLsb' 8 8 = c := by
    rw [extract_high _ d 0, extract_low]
  have fourth : (a ++ b ++ c ++ d).extractLsb' 0 8 = d := extract_low _ d
  exact congr (congrArg List.cons first) (congr (congrArg List.cons second)
    (congr (congrArg List.cons third) (congrArg (fun x => [x]) fourth)))

/-- The parser accepts exactly what is printed. -/
theorem parse_some_iff (text : Chars) (ip : Ipv4Addr) : parse text = some ip ↔ text = dotted ip := by
  constructor
  · intro read
    have joined : ['.'].intercalate (text.splitOn '.') = text := List.intercalate_splitOn '.'
    unfold parse at read
    split at read
    · next a b c d split =>
      simp only [Option.bind_eq_bind, Option.bind_eq_some_iff, Option.some.injEq] at read
      obtain ⟨w, one, x, two, y, three, z, four, rfl⟩ := read
      have parts := octets_ofOctets w x y z
      simp only [octets, List.cons.injEq, and_true] at parts
      rw [← joined, split, dotted, parts.1, parts.2.1, parts.2.2.1, parts.2.2.2, ← octet_some a w one,
        ← octet_some b x two, ← octet_some c y three, ← octet_some d z four]
      simp [List.intercalate_cons_cons]
    · exact absurd read (by simp)
  · rintro rfl
    exact parse_dotted ip

end ShadowVpn.Net.Ipv4
