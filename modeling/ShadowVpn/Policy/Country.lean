import ShadowVpn.Policy.Chnroute
import Mathlib.Data.Nat.Log

/-! Country extraction of `country.rs`: the ranges collected from the database are
merged, split into aligned CIDR blocks and written as the text that `Chnroute` reads. -/

namespace ShadowVpn.Policy.Country
open ShadowVpn.Lib ShadowVpn.Lib.Text ShadowVpn.Lib.Ranges ShadowVpn.Net.Ipv4
open ShadowVpn.Policy.Chnroute

/-- Uppercase, keep only ASCII alphanumerics. -/
def normalizeCountry (country : Chars) : Chars :=
  (country.filter Char.isAlphanum).map Char.toUpper

/-- One network of the database walk: its inclusive range (`none` for IPv6) and the
country code of its record, if it has one. -/
structure Item where
  network : Option IpRange
  isoCode : Option Chars

def eqIgnoreAsciiCase (one two : Chars) : Bool := one.map Char.toLower == two.map Char.toLower

def selected (code : Chars) (item : Item) : Option IpRange :=
  match item.network, item.isoCode with
  | some range, some iso => if eqIgnoreAsciiCase iso code then some range else none
  | _, _ => none

/-- Merge when the next start is at most `last.1.saturating_add(1)`. -/
def mergeTouches (last first : Nat) : Bool := decide (first ≤ min (last + 1) u32Max)

/-- `trailing_zeros` of a word of the given width; zero has `width` of them. -/
def trailingZeros : (width n : Nat) → Nat
  | 0, _ => 0
  | width + 1, n => if n % 2 = 1 then 0 else trailingZeros width (n / 2) + 1

/-- `u64::leading_zeros`. -/
def leadingZeros64 (n : Nat) : Nat := if n = 0 then 64 else 63 - n.log2

/-- The largest block that is aligned to `start` and fits the remaining span. -/
def blockBits (start stop : BitVec 32) : Nat :=
  let alignBits := trailingZeros 32 start.toNat
  let span := (stop - start).toNat + 1
  let spanBits := 63 - leadingZeros64 span
  min alignBits spanBits

/-- The splitting loop: base address and prefix length of every block pushed. -/
def rangeBlocks (start stop : BitVec 32) : List (Ipv4Addr × Nat) :=
  let bits := blockBits start stop
  let next := start.toNat + 2 ^ bits
  (start, 32 - bits) ::
    if next > stop.toNat then [] else rangeBlocks (BitVec.ofNat 32 next) stop
termination_by stop.toNat - start.toNat
decreasing_by
  have := stop.isLt
  have positive : 0 < 2 ^ bits := Nat.two_pow_pos _
  have power : 2 ^ bits = 2 ^ blockBits start stop := rfl
  rw [BitVec.toNat_ofNat, Nat.mod_eq_of_lt (by omega)]
  omega

def cidrText (block : Ipv4Addr × Nat) : Chars := dotted block.1 ++ '/' :: Nat.toDigits 10 block.2

def rangeToCidrs (start stop : BitVec 32) : List Chars := (rangeBlocks start stop).map cidrText

def headerTitle (code : Chars) : Chars :=
  "# chnroute (".toList ++ code ++
    ") — generated at runtime from a MaxMind GeoLite2 Country mmdb".toList

def headerCount (count : Nat) : Chars :=
  "# ".toList ++ Nat.toDigits 10 count ++
    " CIDR ranges. Cached; delete this file to force regeneration.".toList

def headerOf (code : Chars) (count : Nat) : Chars :=
  headerTitle code ++ '\n' :: (headerCount count ++ ['\n'])

def cidrLines (ranges : List IpRange) : List Chars :=
  (merge mergeTouches (sort ranges)).flatMap fun range =>
    rangeToCidrs (BitVec.ofNat 32 range.first) (BitVec.ofNat 32 range.last)

def countryText (code : Chars) (ranges : List IpRange) : Chars :=
  headerOf code (cidrLines ranges).length ++ ['\n'].intercalate (cidrLines ranges) ++ ['\n']

def buildCountryCidrs (code : Chars) (items : List Item) : Except Chars Chars :=
  let ranges := items.filterMap (selected code)
  if ranges = [] then .error ("no IPv4 networks found for country ".toList ++ code)
  else .ok (countryText code ranges)

theorem mergeTouches_adjoins : Adjoins (2 ^ 32) mergeTouches := by
  intro last first lastBound firstBound
  simp only [mergeTouches, decide_eq_true_eq]
  unfold u32Max
  omega

theorem trailingZeros_le (width n : Nat) : trailingZeros width n ≤ width := by
  induction width generalizing n with
  | zero => simp [trailingZeros]
  | succ width ih =>
    unfold trailingZeros
    split
    · omega
    · exact Nat.succ_le_succ (ih _)

theorem trailingZeros_dvd (width n : Nat) : 2 ^ trailingZeros width n ∣ n := by
  induction width generalizing n with
  | zero => simp [trailingZeros]
  | succ width ih =>
    unfold trailingZeros
    split
    · simp
    · next even =>
      obtain ⟨q, half⟩ := ih (n / 2)
      exact ⟨q, by rw [pow_succ, Nat.mul_right_comm, ← half]; omega⟩

theorem spanBits_eq (span : Nat) (positive : 0 < span) (small : span ≤ 2 ^ 32) :
    63 - leadingZeros64 span = span.log2 := by
  have log : span.log2 ≤ 32 := by
    have lt : span < 2 ^ 33 := Nat.lt_of_le_of_lt small (by decide)
    have h := (Nat.log2_lt (Nat.pos_iff_ne_zero.mp positive)).mpr lt
    omega
  rw [leadingZeros64, if_neg (by omega)]
  omega

/-- What one round of the splitting loop takes: an aligned block inside the range. -/
structure TakesBlock (start stop : BitVec 32) (bits : Nat) : Prop where
  le : bits ≤ 32
  aligned : 2 ^ bits ∣ start.toNat
  fits : start.toNat + 2 ^ bits ≤ stop.toNat + 1

theorem blockBits_takes (start stop : BitVec 32) (ordered : start.toNat ≤ stop.toNat) :
    TakesBlock start stop (blockBits start stop) := by
  have width : (stop - start).toNat = stop.toNat - start.toNat :=
    BitVec.toNat_sub_of_le ordered
  have bound := stop.isLt
  have log := spanBits_eq ((stop - start).toNat + 1) (by omega) (by omega)
  have power := Nat.log2_self_le (n := (stop - start).toNat + 1) (by omega)
  have shape : blockBits start stop =
      min (trailingZeros 32 start.toNat) ((stop - start).toNat + 1).log2 := by
    change min _ (63 - leadingZeros64 ((stop - start).toNat + 1)) = _
    rw [log]
  rw [shape]
  constructor
  · exact Nat.le_trans (Nat.min_le_left _ _) (trailingZeros_le 32 _)
  · exact Nat.dvd_trans (Nat.pow_dvd_pow 2 (Nat.min_le_left _ _)) (trailingZeros_dvd 32 _)
  · have smaller : 2 ^ min (trailingZeros 32 start.toNat) ((stop - start).toNat + 1).log2 ≤
        2 ^ ((stop - start).toNat + 1).log2 :=
      Nat.pow_le_pow_right (by decide) (Nat.min_le_right _ _)
    omega

/-- An aligned block is read back as exactly its interval. -/
theorem aligned_has (start : Ipv4Addr) (bits v : Nat) (le : bits ≤ 32)
    (aligned : 2 ^ bits ∣ start.toNat) :
    (cidrRange start (32 - bits)).Has v ↔ start.toNat ≤ v ∧ v < start.toNat + 2 ^ bits := by
  have high : mask (32 - bits) = Prefix.highMask 32 bits := by
    by_cases whole : bits = 32
    · subst whole
      decide
    · rw [mask, if_neg (by omega), Prefix.highMask, show 32 - (32 - bits) = bits by omega]
  have base : start.toNat / 2 ^ bits * 2 ^ bits = start.toNat := Nat.div_mul_cancel aligned
  have first : (cidrRange start (32 - bits)).first = start.toNat := by
    change (start &&& mask (32 - bits)).toNat = start.toNat
    rw [high, Prefix.and_highMask_toNat, base]
  have last : (cidrRange start (32 - bits)).last = start.toNat + (2 ^ bits - 1) := by
    change (start &&& mask (32 - bits) ||| ~~~mask (32 - bits)).toNat = _
    rw [high, Prefix.block_end_toNat bits le, base]
  have positive : 0 < 2 ^ bits := Nat.two_pow_pos bits
  rw [Range.Has, first, last]
  omega

/-- The blocks tile the range: they cover all of it and nothing else. -/
theorem rangeBlocks_cover (start stop : BitVec 32) (ordered : start.toNat ≤ stop.toNat) (v : Nat) :
    (∃ block ∈ rangeBlocks start stop, (cidrRange block.1 block.2).Has v) ↔
      start.toNat ≤ v ∧ v ≤ stop.toNat := by
  induction start using rangeBlocks.induct stop with
  | case1 start bits next ih =>
    have takes := blockBits_takes start stop ordered
    have positive : 0 < 2 ^ blockBits start stop := Nat.two_pow_pos _
    have head := aligned_has start (blockBits start stop) v takes.le takes.aligned
    have fits := takes.fits
    have bound := stop.isLt
    rw [rangeBlocks]
    by_cases done : start.toNat + 2 ^ blockBits start stop > stop.toNat
    · simp only [if_pos done, List.mem_singleton, exists_eq_left, head]
      omega
    · have number : (BitVec.ofNat 32 (start.toNat + 2 ^ blockBits start stop)).toNat =
          start.toNat + 2 ^ blockBits start stop := by
        rw [BitVec.toNat_ofNat, Nat.mod_eq_of_lt (by omega)]
      have tail := ih done (by change (BitVec.ofNat 32 (start.toNat + 2 ^ blockBits start stop)).toNat ≤ _; omega)
      change (∃ block ∈ rangeBlocks (BitVec.ofNat 32 (start.toNat + 2 ^ blockBits start stop)) stop,
        (cidrRange block.1 block.2).Has v) ↔
          (BitVec.ofNat 32 (start.toNat + 2 ^ blockBits start stop)).toNat ≤ v ∧ v ≤ stop.toNat at tail
      rw [number] at tail
      simp only [if_neg done, List.mem_cons, exists_eq_or_imp, head, tail]
      omega

theorem rangeBlocks_len (start stop : BitVec 32) (block : Ipv4Addr × Nat)
    (member : block ∈ rangeBlocks start stop) : block.2 ≤ 32 := by
  induction start using rangeBlocks.induct stop with
  | case1 start bits next ih =>
    rw [rangeBlocks] at member
    rcases List.mem_cons.mp member with rfl | later
    · exact Nat.sub_le _ _
    · by_cases done : start.toNat + 2 ^ blockBits start stop > stop.toNat
      · simp [if_pos done] at later
      · rw [if_neg done] at later
        exact ih done later

theorem toDigits_head (n : Nat) : ∀ c ∈ (Nat.toDigits 10 n).head?, c.isDigit = true := by
  intro c head
  exact Nat.isDigit_of_mem_toDigits (by decide) (by decide) (List.mem_of_mem_head? head)

theorem toDigits_last (n : Nat) : ∀ c ∈ (Nat.toDigits 10 n).getLast?, c.isDigit = true := by
  intro c last
  exact Nat.isDigit_of_mem_toDigits (by decide) (by decide) (List.mem_of_getLast? last)

theorem head_append_digits (n : Nat) (rest : Chars) :
    (Nat.toDigits 10 n ++ rest).head? = (Nat.toDigits 10 n).head? :=
  List.head?_append_of_ne_nil _ Nat.toDigits_ne_nil

theorem last_append_digits (n : Nat) (front : Chars) :
    (front ++ Nat.toDigits 10 n).getLast? = (Nat.toDigits 10 n).getLast? :=
  List.getLast?_append_of_ne_nil _ Nat.toDigits_ne_nil

theorem dotted_head (ip : Ipv4Addr) : ∀ c ∈ (dotted ip).head?, c.isDigit = true := by
  rw [dotted, head_append_digits]
  exact toDigits_head _

theorem dotted_last (ip : Ipv4Addr) : ∀ c ∈ (dotted ip).getLast?, c.isDigit = true := by
  have shape : ∃ front, dotted ip = front ++ Nat.toDigits 10 (ip.extractLsb' 0 8).toNat :=
    ⟨Nat.toDigits 10 (ip.extractLsb' 24 8).toNat ++ '.' ::
      (Nat.toDigits 10 (ip.extractLsb' 16 8).toNat ++ '.' ::
        (Nat.toDigits 10 (ip.extractLsb' 8 8).toNat ++ ['.'])), by simp [dotted]⟩
  obtain ⟨front, shape⟩ := shape
  rw [shape, last_append_digits]
  exact toDigits_last _

theorem not_mem_cidrText (c : Char) (block : Ipv4Addr × Nat) (other : c.isDigit = false)
    (dot : c ≠ '.') (slash : c ≠ '/') : c ∉ cidrText block := by
  simp only [cidrText, List.mem_append, List.mem_cons, not_or]
  exact ⟨not_mem_dotted c _ other dot, slash, not_mem_toDigits c _ other⟩

theorem trim_digits (text : Chars) (head : ∀ c ∈ text.head?, c.isDigit = true)
    (last : ∀ c ∈ text.getLast?, c.isDigit = true) : trim isWhitespace text = text :=
  trim_of_ends _ _ (fun c member => digit_not_space c (head c member))
    (fun c member => digit_not_space c (last c member))

theorem parseU32_toDigits (n : Nat) (small : n ≤ u32Max) : parseU32 (Nat.toDigits 10 n) = some n := by
  have unsigned : (Nat.toDigits 10 n).head? ≠ some '+' := by
    intro plus
    exact absurd (toDigits_head n '+' plus) (by decide)
  rw [parseU32, if_neg unsigned, numeral_toDigits]
  simp [small]

/-- Every line the generator writes is parsed back to the block it was printed from. -/
theorem parseCidr_cidrText (block : Ipv4Addr × Nat) (le : block.2 ≤ 32) :
    parseCidr (cidrText block) = some (cidrRange block.1 block.2) := by
  have head : ∀ c ∈ (cidrText block).head?, c.isDigit = true := by
    rw [cidrText, dotted, List.append_assoc, head_append_digits]
    exact toDigits_head _
  have last : ∀ c ∈ (cidrText block).getLast?, c.isDigit = true := by
    rw [cidrText, ← List.singleton_append, ← List.append_assoc, last_append_digits]
    exact toDigits_last _
  have nonempty : cidrText block ≠ [] := by simp [cidrText]
  have noHash : (cidrText block).head? ≠ some '#' := by
    intro hash
    exact absurd (head '#' hash) (by decide)
  have split : splitOnce '/' (cidrText block) = some (dotted block.1, Nat.toDigits 10 block.2) :=
    splitOnce_append '/' _ _ (not_mem_dotted '/' _ (by decide) (by decide))
  have small : block.2 ≤ u32Max := Nat.le_trans le (by decide)
  simp only [parseCidr, trim_digits _ head last, nonempty, noHash, or_self, if_false, split,
    trim_digits _ (dotted_head _) (dotted_last _), parse_dotted,
    trim_digits _ (toDigits_head _) (toDigits_last _), parseU32_toDigits _ small,
    Option.bind_eq_bind, Option.bind_some]
  rw [if_neg (by omega)]

/-- Lines joined with line feeds and ended by one are read back as the same lines. -/
theorem lines_join (pieces : List Chars) (some : pieces ≠ [])
    (noFeed : ∀ piece ∈ pieces, '\n' ∉ piece) (noReturn : ∀ piece ∈ pieces, '\r' ∉ piece) :
    lines (['\n'].intercalate pieces ++ ['\n']) = pieces := by
  induction pieces with
  | nil => exact absurd rfl some
  | cons piece rest ih =>
    have here := stripReturn_of_not_mem piece (noReturn piece (by simp))
    cases rest with
    | nil => simp only [List.intercalate_singleton, lines_cons _ _ (noFeed piece (by simp)), here, lines_nil]
    | cons next more =>
      have tail := ih (by simp) (fun p member => noFeed p (List.mem_cons_of_mem _ member))
        (fun p member => noReturn p (List.mem_cons_of_mem _ member))
      have joined : ['\n'].intercalate (piece :: next :: more) ++ ['\n'] =
          piece ++ '\n' :: (['\n'].intercalate (next :: more) ++ ['\n']) := by
        simp [List.intercalate_cons_cons]
      rw [joined, lines_cons _ _ (noFeed piece (by simp)), here, tail]

theorem toUpper_toNat (c : Char) (alnum : c.isAlphanum = true) : 48 ≤ c.toUpper.toNat := by
  have value : c.val.toNat = c.toNat := rfl
  have first : 'a'.val.toNat = 97 := rfl
  have capital : 'A'.val.toNat = 65 := rfl
  delta Char.isAlphanum Char.isAlpha Char.isUpper Char.isLower Char.isDigit at alnum
  simp only [Bool.or_eq_true, Bool.and_eq_true, decide_eq_true_eq, ge_iff_le,
    UInt32.le_iff_toNat_le, value, first, capital, show '0'.val.toNat = 48 by rfl] at alnum
  by_cases lower : 'a'.val ≤ c.val ∧ c.val ≤ 'z'.val
  · have upper : c.toUpper.toNat = (c.val + ('A'.val - 'a'.val)).toNat := by
      delta Char.toUpper
      rw [dif_pos lower]
      rfl
    have range : 97 ≤ c.toNat ∧ c.toNat ≤ 122 := by
      simp only [UInt32.le_iff_toNat_le] at lower
      exact lower
    have offset : ('A'.val - 'a'.val).toNat = 2 ^ 32 - 32 := by decide
    rw [upper, UInt32.toNat_add, offset, value]
    omega
  · have same : c.toUpper = c := by
      delta Char.toUpper
      rw [dif_neg lower]
    rw [same]
    omega

/-- No control character survives the normalisation of a country code. -/
theorem not_mem_normalizeCountry (c : Char) (country : Chars) (low : c.toNat < 48) :
    c ∉ normalizeCountry country := by
  intro member
  obtain ⟨d, kept, same⟩ := List.mem_map.mp member
  have bound := toUpper_toNat d (List.mem_filter.mp kept).2
  rw [same] at bound
  omega

theorem cidrs_parse (start stop : BitVec 32) (line : Chars) (member : line ∈ rangeToCidrs start stop) :
    ∃ block ∈ rangeBlocks start stop, parseCidr line = some (cidrRange block.1 block.2) := by
  obtain ⟨block, inside, same⟩ := List.mem_map.mp member
  refine ⟨block, inside, ?_⟩
  rw [← same, parseCidr_cidrText block (rangeBlocks_len start stop block inside)]

/-- The lines written for a range denote that range. -/
theorem cidrs_denote (range : IpRange) (v : Nat) :
    (∃ line ∈ rangeToCidrs (BitVec.ofNat 32 range.first) (BitVec.ofNat 32 range.last),
      ∃ read, parseCidr line = some read ∧ read.Has v) ↔ range.Has v := by
  have bounded := range.bounded
  have ordered := range.ordered
  have first : (BitVec.ofNat 32 range.first).toNat = range.first := by
    rw [BitVec.toNat_ofNat, Nat.mod_eq_of_lt (by omega)]
  have last : (BitVec.ofNat 32 range.last).toNat = range.last := by
    rw [BitVec.toNat_ofNat, Nat.mod_eq_of_lt (by omega)]
  have cover := rangeBlocks_cover (BitVec.ofNat 32 range.first) (BitVec.ofNat 32 range.last)
    (by omega) v
  rw [first, last] at cover
  rw [Range.Has, ← cover]
  constructor
  · rintro ⟨line, member, read, parsed, has⟩
    obtain ⟨block, inside, same⟩ := cidrs_parse _ _ line member
    rw [same] at parsed
    obtain rfl := Option.some.inj parsed
    exact ⟨block, inside, has⟩
  · rintro ⟨block, inside, has⟩
    have len := rangeBlocks_len _ _ block inside
    exact ⟨cidrText block, List.mem_map.mpr ⟨block, inside, rfl⟩, _,
      parseCidr_cidrText block len, has⟩

theorem low_not_digit (c : Char) (low : c.toNat < 32) : c.isDigit = false := by
  rw [← Bool.not_eq_true]
  intro digit
  simp only [Char.isDigit, Bool.and_eq_true, decide_eq_true_eq, ge_iff_le,
    UInt32.le_iff_toNat_le] at digit
  have first : 48 ≤ c.toNat := digit.1
  omega

/-- A text that passes the test has no control characters. -/
theorem printable_of_all {text : String} (all : (text.toList.all fun d => 32 ≤ d.toNat) = true) :
    ∀ d ∈ text.toList, 32 ≤ d.toNat := by
  intro d member
  exact of_decide_eq_true (List.all_eq_true.mp all d member)

theorem not_mem_headerTitle (c : Char) (code : Chars) (absent : c ∉ code) (low : c.toNat < 32) :
    c ∉ headerTitle code := by
  have first : ∀ d ∈ "# chnroute (".toList, 32 ≤ d.toNat := printable_of_all (by decide +kernel)
  have last : ∀ d ∈ ") — generated at runtime from a MaxMind GeoLite2 Country mmdb".toList,
      32 ≤ d.toNat := printable_of_all (by decide +kernel)
  intro member
  rcases List.mem_append.mp member with before | after
  · rcases List.mem_append.mp before with front | inside
    · have h := first c front
      omega
    · exact absent inside
  · have h := last c after
    omega

theorem not_mem_headerCount (c : Char) (count : Nat) (low : c.toNat < 32) :
    c ∉ headerCount count := by
  have first : ∀ d ∈ "# ".toList, 32 ≤ d.toNat := printable_of_all (by decide +kernel)
  have last : ∀ d ∈ " CIDR ranges. Cached; delete this file to force regeneration.".toList,
      32 ≤ d.toNat := printable_of_all (by decide +kernel)
  intro member
  rcases List.mem_append.mp member with before | after
  · rcases List.mem_append.mp before with front | digit
    · have h := first c front
      omega
    · exact not_mem_toDigits c count (low_not_digit c low) digit
  · have h := last c after
    omega

theorem headerTitle_hash (code : Chars) : (headerTitle code).head? = some '#' := by
  have hash : "# chnroute (".toList.head? = some '#' := by decide +kernel
  unfold headerTitle
  rw [List.append_assoc, List.head?_append, hash, Option.some_or]

theorem headerCount_hash (count : Nat) : (headerCount count).head? = some '#' := by
  have hash : "# ".toList.head? = some '#' := by decide +kernel
  unfold headerCount
  rw [List.append_assoc, List.head?_append, hash, Option.some_or]

theorem lines_header (code : Chars) (count : Nat) (rest : Chars) (noFeed : '\n' ∉ code)
    (noReturn : '\r' ∉ code) :
    lines (headerOf code count ++ rest) = headerTitle code :: headerCount count :: lines rest := by
  have shape : headerOf code count ++ rest =
      headerTitle code ++ '\n' :: (headerCount count ++ '\n' :: rest) := by
    rw [headerOf, List.append_assoc, List.cons_append, List.append_assoc]
    rfl
  rw [shape, lines_cons _ _ (not_mem_headerTitle '\n' code noFeed (by decide)),
    lines_cons _ _ (not_mem_headerCount '\n' count (by decide)),
    stripReturn_of_not_mem _ (not_mem_headerTitle '\r' code noReturn (by decide)),
    stripReturn_of_not_mem _ (not_mem_headerCount '\r' count (by decide))]

theorem parseCidr_hash (line : Chars) (hash : line.head? = some '#') : parseCidr line = none := by
  obtain ⟨rest, rfl⟩ := List.head?_eq_some_iff.mp hash
  have kept : trim isWhitespace ('#' :: rest) ≠ [] →
      (trim isWhitespace ('#' :: rest)).head? = some '#' := by
    intro nonempty
    have front : ('#' :: rest).dropWhile isWhitespace = '#' :: rest := by
      simp [show isWhitespace '#' = false by decide]
    rw [trim, front] at nonempty ⊢
    obtain ⟨tail, whole⟩ := List.rdropWhile_prefix isWhitespace (l := '#' :: rest)
    obtain ⟨c, more, shape⟩ := List.exists_cons_of_ne_nil nonempty
    rw [shape] at whole ⊢
    simp only [List.cons_append, List.cons.injEq] at whole
    rw [whole.1, List.head?_cons]
  have skip : trim isWhitespace ('#' :: rest) = [] ∨
      (trim isWhitespace ('#' :: rest)).head? = some '#' := by
    by_cases empty : trim isWhitespace ('#' :: rest) = []
    · exact Or.inl empty
    · exact Or.inr (kept empty)
  simp only [parseCidr, if_pos skip]

theorem cidrLines_parse (ranges : List IpRange) (line : Chars) (member : line ∈ cidrLines ranges) :
    (parseCidr line).isSome := by
  obtain ⟨range, _, inside⟩ := List.mem_flatMap.mp member
  obtain ⟨block, _, parsed⟩ := cidrs_parse _ _ line inside
  rw [parsed]
  rfl

theorem not_mem_cidrLines (c : Char) (low : c.toNat < 32) (ranges : List IpRange) (line : Chars)
    (member : line ∈ cidrLines ranges) : c ∉ line := by
  obtain ⟨range, _, inside⟩ := List.mem_flatMap.mp member
  obtain ⟨block, _, rfl⟩ := List.mem_map.mp inside
  apply not_mem_cidrText c block (low_not_digit c low)
  · intro dot
    exact absurd (dot ▸ low) (by decide)
  · intro slash
    exact absurd (slash ▸ low) (by decide)

/-- Merging, splitting, printing and parsing keep the set of addresses. -/
theorem cidrLines_denote (ranges : List IpRange) (v : Nat) :
    (∃ line ∈ cidrLines ranges, ∃ read, parseCidr line = some read ∧ read.Has v) ↔
      Covers ranges v := by
  have merged : Covers (merge mergeTouches (sort ranges)) v ↔ Covers ranges v := by
    rw [(merge_sorted mergeTouches_adjoins _ (sort_firsts ranges)).2 v, covers_sort]
  rw [← merged]
  constructor
  · rintro ⟨line, member, found⟩
    obtain ⟨range, inside, here⟩ := List.mem_flatMap.mp member
    exact ⟨range, inside, (cidrs_denote range v).mp ⟨line, here, found⟩⟩
  · rintro ⟨range, inside, has⟩
    obtain ⟨line, here, found⟩ := (cidrs_denote range v).mpr has
    exact ⟨line, List.mem_flatMap.mpr ⟨range, inside, here⟩, found⟩

theorem cidrLines_ne_nil (ranges : List IpRange) (some : ranges ≠ []) : cidrLines ranges ≠ [] := by
  obtain ⟨range, member⟩ := List.exists_mem_of_ne_nil _ some
  have covered : Covers ranges range.first := ⟨range, member, Nat.le_refl _, range.ordered⟩
  obtain ⟨line, written, _⟩ := (cidrLines_denote ranges range.first).mpr covered
  exact List.ne_nil_of_mem written

/-- The text of a country is read back as its two comments and its ranges. -/
theorem lines_countryText (country : Chars) (ranges : List IpRange) (some : ranges ≠ []) :
    lines (countryText (normalizeCountry country) ranges) =
      headerTitle (normalizeCountry country) :: headerCount (cidrLines ranges).length ::
        cidrLines ranges := by
  have body : lines (['\n'].intercalate (cidrLines ranges) ++ ['\n']) = cidrLines ranges :=
    lines_join _ (cidrLines_ne_nil ranges some)
      (not_mem_cidrLines '\n' (by decide) ranges) (not_mem_cidrLines '\r' (by decide) ranges)
  rw [countryText, List.append_assoc, lines_header _ _ _
    (not_mem_normalizeCountry '\n' country (by decide))
    (not_mem_normalizeCountry '\r' country (by decide)), body]

/-- The text written for a country, read back line by line, denotes exactly the selected
networks; past the two header comments no line is skipped. -/
theorem country_text_denotes_selection (country : Chars) (items : List Item)
    (found : items.filterMap (selected (normalizeCountry country)) ≠ []) :
    ∃ text, buildCountryCidrs (normalizeCountry country) items = .ok text ∧
      (∀ ip, (ChnRoute.fromLines (lines text)).contains ip = true ↔
        ∃ item ∈ items, ∃ range, selected (normalizeCountry country) item = some range ∧
          range.Has ip.toNat) ∧
      ∃ one two body, lines text = one :: two :: body ∧
        one.head? = some '#' ∧ two.head? = some '#' ∧
        ∀ line ∈ body, (parseCidr line).isSome := by
  set ranges := items.filterMap (selected (normalizeCountry country)) with same
  have read := lines_countryText country ranges found
  refine ⟨countryText (normalizeCountry country) ranges, ?_, ?_, _, _, _, read,
    headerTitle_hash _, headerCount_hash _, cidrLines_parse ranges⟩
  · simp only [buildCountryCidrs, ← same, if_neg found]
  · intro ip
    rw [read, ChnRoute.fromLines_contains]
    simp only [List.exists_mem_cons_iff, parseCidr_hash _ (headerTitle_hash _),
      parseCidr_hash _ (headerCount_hash _), reduceCtorEq, false_and, exists_false, false_or]
    rw [cidrLines_denote, same]
    simp only [Covers, List.mem_filterMap]
    constructor
    · rintro ⟨range, ⟨item, member, picked⟩, has⟩
      exact ⟨item, member, range, picked, has⟩
    · rintro ⟨item, member, range, picked, has⟩
      exact ⟨range, ⟨item, member, picked⟩, has⟩

/-- One network of 1.0.1.0/24 under the code `CN`. -/
def sampleItem : Item where
  network := some ⟨16777472, 16777727, by decide, by decide⟩
  isoCode := some ['C', 'N']

/-- Networks as a database may list them: not in order, adjacent and overlapping, at both ends of the
address space, and some that are not selected. -/
def sampleItems : List Item :=
  [sampleItem, ⟨some ⟨4294967040, 4294967295, by decide, by decide⟩, some ['c', 'n']⟩,
    ⟨some ⟨16777216, 16777471, by decide, by decide⟩, some ['J', 'P']⟩,
    ⟨some ⟨16777728, 16778239, by decide, by decide⟩, some ['C', 'N']⟩,
    ⟨some ⟨16777984, 16779519, by decide, by decide⟩, some ['C', 'n']⟩, ⟨none, some ['C', 'N']⟩,
    ⟨some ⟨0, 254, by decide, by decide⟩, some ['C', 'N']⟩, ⟨some ⟨255, 300, by decide, by decide⟩, none⟩]

theorem sample_text_denotes_selection :
    ∃ text, buildCountryCidrs (normalizeCountry ['c', 'n', ' ']) sampleItems = .ok text ∧
      (∀ ip, (ChnRoute.fromLines (lines text)).contains ip = true ↔
        ∃ item ∈ sampleItems, ∃ range,
          selected (normalizeCountry ['c', 'n', ' ']) item = some range ∧ range.Has ip.toNat) ∧
      ∃ one two body, lines text = one :: two :: body ∧
        one.head? = some '#' ∧ two.head? = some '#' ∧
        ∀ line ∈ body, (parseCidr line).isSome :=
  country_text_denotes_selection ['c', 'n', ' '] sampleItems
    (List.ne_nil_of_mem (List.mem_filterMap.mpr ⟨sampleItem, List.mem_cons_self, by rfl⟩))

/-- The addresses of the sample networks in other networks and another order. -/
def sampleRegrouped : List Item :=
  [⟨some ⟨0, 99, by decide, by decide⟩, some ['C', 'N']⟩, ⟨some ⟨100, 254, by decide, by decide⟩, some ['C', 'N']⟩,
    ⟨some ⟨16777472, 16779519, by decide, by decide⟩, some ['C', 'N']⟩,
    ⟨some ⟨4294967040, 4294967295, by decide, by decide⟩, some ['C', 'N']⟩]

end ShadowVpn.Policy.Country
