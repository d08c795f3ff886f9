import ShadowVpn.Policy.Chnroute
import ShadowVpn.Tunnel.Routes

/-! The tunnel's own reader of the route file, `appendChnrouteExclusions`, beside the
reader of the core, `ChnRoute::from_lines`: when the two agree on a text. -/

namespace ShadowVpn.Tunnel.Readers
open ShadowVpn.Lib ShadowVpn.Lib.Text ShadowVpn.Net.Ipv4 ShadowVpn.Policy.Chnroute
open ShadowVpn.Tunnel.Routes

/-- `newlineCharacterSet`: U+000A to U+000D, U+0085, U+2028 and U+2029. -/
def isNewline (c : Char) : Bool :=
  c.toNat ∈ [0x0A, 0x0B, 0x0C, 0x0D, 0x85, 0x2028, 0x2029]

/-- `whitespaceCharacterSet`: the tab and the Unicode space separators. -/
def isBlank (c : Char) : Bool :=
  c.toNat ∈ [0x09, 0x20, 0xA0, 0x1680, 0x2000, 0x2001, 0x2002, 0x2003, 0x2004, 0x2005, 0x2006,
    0x2007, 0x2008, 0x2009, 0x200A, 0x202F, 0x205F, 0x3000]

/-- `NSString.integerValue`: white space, a sign and the leading digits, clamped to 64 bits;
zero without digits. -/
def integerValue (text : Chars) : Int :=
  let text := text.dropWhile isWhitespace
  let unsigned := if text.head? = some '+' ∨ text.head? = some '-' then text.tail else text
  let value := Nat.ofDigitChars 10 (unsigned.takeWhile Char.isDigit) 0
  if text.head? = some '-' then max (-(value : Int)) (-2 ^ 63) else min (value : Int) (2 ^ 63 - 1)

/-- One line of the file: the route it adds, if it is not skipped. -/
def lineRoute (raw : Chars) : Option Route := do
  let line := trim isBlank raw
  if line = [] ∨ line.head? = some '#' then none
  else
    let (addr, prefixStr) ← splitOnce '/' line
    let len := integerValue prefixStr
    if len < 0 ∨ len > 32 then none
    else do
      let _ ← inetPton addr
      some ⟨addr, dottedMaskForPrefix len.toNat⟩

def appendChnrouteExclusions (excluded : List Route) (text : Chars) : List Route :=
  excluded ++ (text.splitOnP isNewline).filterMap lineRoute

/-- Both readers together know the same white space. -/
theorem white_iff (c : Char) : isWhitespace c = true ↔ isBlank c = true ∨ isNewline c = true := by
  simp only [isWhitespace, isBlank, isNewline, decide_eq_true_eq, List.mem_cons, List.not_mem_nil,
    or_false]
  omega

theorem isBlank_of_white (c : Char) (white : isWhitespace c = true) (inside : isNewline c = false) :
    isBlank c = true := by
  rcases (white_iff c).mp white with blank | stop
  · exact blank
  · rw [inside] at stop
    exact absurd stop (by decide)

theorem not_newline_of_not_white (c : Char) (plain : isWhitespace c = false) : isNewline c = false := by
  rw [← Bool.not_eq_true] at *
  intro stop
  exact plain ((white_iff c).mpr (Or.inr stop))

theorem address_not_white (text : Chars) (ip : Ipv4Addr) (read : parse text = some ip) :
    ∀ c ∈ text, isWhitespace c = false := by
  intro c member
  rcases parse_mem text ip read c member with digit | dot
  · exact digit_not_space c digit
  · subst dot
    decide

theorem number_not_white (text : Chars) (n : Nat) (read : parseU32 text = some n) :
    ∀ c ∈ text, isWhitespace c = false := by
  intro c member
  rcases (parseU32_mem text n read).1 c member with digit | plus
  · exact digit_not_space c digit
  · subst plus
    decide

/-- Without line terminators the two ways of trimming are one. -/
theorem trim_blank (raw : Chars) (free : ∀ c ∈ raw, isNewline c = false) :
    trim isWhitespace raw = trim isBlank raw := by
  obtain ⟨front, back, whole, before, after⟩ := trim_spec isBlank raw
  have wide : ∀ c, isBlank c = true → isWhitespace c = true := fun c blank =>
    (white_iff c).mpr (Or.inl blank)
  have solid : ∀ c ∈ trim isBlank raw, isBlank c = false → isWhitespace c = false := by
    intro c member blank
    rw [← Bool.not_eq_true]
    intro white
    have inside : c ∈ raw := by
      rw [whole]
      simp [member]
    rw [isBlank_of_white c white (free c inside)] at blank
    exact absurd blank (by decide)
  by_cases empty : trim isBlank raw = []
  · rw [empty, List.append_nil] at whole
    rw [empty]
    apply trim_nil_of_all
    intro c member
    rw [whole, List.mem_append] at member
    rcases member with left | right
    · exact wide c (before c left)
    · exact wide c (after c right)
  · conv_lhs => rw [whole]
    apply trim_append _ _ _ _ empty
    · intro c head
      exact solid c (List.mem_of_mem_head? head) (trim_head isBlank raw c head)
    · intro c last
      exact solid c (List.mem_of_getLast? last) (trim_last isBlank raw c last)
    · exact fun c member => wide c (before c member)
    · exact fun c member => wide c (after c member)

theorem inetPton_eq_parse (text : Chars) (absent : '\x00' ∉ text) : inetPton text = parse text := by
  have whole : text.takeWhile (fun c => c != '\x00') = text := by
    rw [List.takeWhile_eq_self_iff]
    intro c member
    rw [bne_iff_ne]
    intro same
    exact absent (same ▸ member)
  rw [inetPton, whole]

/-- The lines that add a route: an address up to the first slash and a length that
`integerValue` brings into range. -/
theorem lineRoute_some (raw : Chars) (route : Route) :
    lineRoute raw = some route ↔ ∃ addr len base,
      splitOnce '/' (trim isBlank raw) = some (addr, len) ∧ inetPton addr = some base ∧
        0 ≤ integerValue len ∧ integerValue len ≤ 32 ∧
        Route.mk addr (dottedMaskForPrefix (integerValue len).toNat) = route := by
  constructor
  · intro added
    simp only [lineRoute, Option.bind_eq_bind, Option.ite_none_left_eq_some,
      Option.bind_eq_some_iff, Option.some.injEq, Prod.exists] at added
    obtain ⟨_, addr, len, split, range, base, read, same⟩ := added
    exact ⟨addr, len, base, split, read, by omega, by omega, same⟩
  · rintro ⟨addr, len, base, split, read, low, high, same⟩
    have shape := (splitOnce_some '/' _ _ _ split).1
    obtain ⟨nonempty, first, _⟩ := parse_ends _ _ read
    have keep : ¬(trim isBlank raw = [] ∨ (trim isBlank raw).head? = some '#') := by
      intro skip
      rw [shape] at skip
      rcases skip with empty | hash
      · exact absurd empty (by simp)
      · cases addr with
        | nil => exact nonempty rfl
        | cons c rest =>
          rw [List.cons_append, List.head?_cons, Option.some.injEq] at hash
          subst hash
          have digit := first '#' (by simp)
          exact absurd digit (by decide)
    simp only [lineRoute, if_neg keep, split, read, Option.bind_eq_bind, Option.bind_some]
    rw [if_neg (by omega), same]

theorem integerValue_numeral (digits text : Chars) (numeral : isNumeral digits = true)
    (shape : text = digits ∨ text = '+' :: digits) (small : Nat.ofDigitChars 10 digits 0 ≤ u32Max) :
    integerValue text = Nat.ofDigitChars 10 digits 0 := by
  obtain ⟨nonempty, all⟩ := isNumeral_spec digits numeral
  have run : digits.takeWhile Char.isDigit = digits := List.takeWhile_eq_self_iff.mpr all
  have clamp : min (Nat.ofDigitChars 10 digits 0 : Int) (2 ^ 63 - 1) = Nat.ofDigitChars 10 digits 0 := by
    unfold u32Max at small
    omega
  rcases shape with rfl | rfl
  · obtain ⟨c, rest, same⟩ := List.exists_cons_of_ne_nil nonempty
    have digit := all c (by rw [same]; simp)
    have front : text.dropWhile isWhitespace = text := by
      rw [same, List.dropWhile_cons_of_neg]
      rw [digit_not_space c digit]
      decide
    have noPlus : text.head? ≠ some '+' := by
      rw [same, List.head?_cons, ne_eq, Option.some.injEq]
      intro plus
      exact absurd (plus ▸ digit) (by decide)
    have noMinus : text.head? ≠ some '-' := by
      rw [same, List.head?_cons, ne_eq, Option.some.injEq]
      intro minus
      exact absurd (minus ▸ digit) (by decide)
    simp only [integerValue, front, noPlus, noMinus, or_self, if_false, run]
    exact clamp
  · have front : ('+' :: digits).dropWhile isWhitespace = '+' :: digits := by
      rw [List.dropWhile_cons_of_neg]
      decide
    simp only [integerValue, front, List.head?_cons, true_or, if_true, List.tail_cons, run]
    rw [if_neg (by decide)]
    exact clamp

/-- A length that parses strictly has that integer value, up to white space in front. -/
theorem integerValue_strict (len : Chars) (n : Nat) (read : parseU32 (trim isWhitespace len) = some n)
    (last : ∀ c ∈ len.getLast?, isWhitespace c = false) : integerValue len = n := by
  obtain ⟨front, whole, before⟩ := trim_front isWhitespace len last
  obtain ⟨digits, shape, numeral, value, small⟩ := parseU32_shape _ n read
  have solid := number_not_white _ n read
  have dropped : len.dropWhile isWhitespace = trim isWhitespace len := by
    conv_lhs => rw [whole]
    rw [List.dropWhile_append_of_pos before]
    cases core : trim isWhitespace len with
    | nil => rfl
    | cons c rest =>
      rw [List.dropWhile_cons_of_neg]
      rw [solid c (by rw [core]; simp)]
      decide
  have same : integerValue len = integerValue (trim isWhitespace len) := by
    have again : (trim isWhitespace len).dropWhile isWhitespace = trim isWhitespace len := by
      rw [← dropped, List.dropWhile_idempotent]
    simp only [integerValue, dropped, again]
  rw [same, integerValue_numeral digits _ numeral shape (by omega), value]

/-- A line is plain when a CIDR in it is its whole content: where the core would read an
address and a length, no white space stands before the slash and no line terminator behind
it; where the tunnel would take a route from some piece, that piece is all there is, without
a NUL in the address and with a proper length. -/
structure Plain (line : Chars) : Prop where
  tight : ∀ addr len, splitOnce '/' (trim isWhitespace line) = some (addr, len) →
    (parse (trim isWhitespace addr)).isSome → (∃ n ≤ 32, parseU32 (trim isWhitespace len) = some n) →
    trim isWhitespace addr = addr ∧ ∀ c ∈ len, isNewline c = false
  whole : ∀ raw ∈ line.splitOnP isNewline, ∀ addr len,
    splitOnce '/' (trim isBlank raw) = some (addr, len) → (inetPton addr).isSome →
    0 ≤ integerValue len ∧ integerValue len ≤ 32 →
    trim isBlank raw = trim isWhitespace line ∧ '\x00' ∉ addr ∧
      ∃ n ≤ 32, parseU32 (trim isWhitespace len) = some n

/-- The two readers agree on a text: the same addresses, and no line that one of them
treats as malformed contributes in the other. -/
structure Agree (text : Chars) : Prop where
  covered : ∀ ip, Covered (appendChnrouteExclusions [] text) ip ↔
    (ChnRoute.fromLines (lines text)).contains ip = true
  coreSkips : ∀ line ∈ lines text, parseCidr line = none →
    ∀ raw ∈ line.splitOnP isNewline, lineRoute raw = none
  tunnelSkips : ∀ line ∈ lines text, (∀ raw ∈ line.splitOnP isNewline, lineRoute raw = none) →
    parseCidr line = none
  pieceSkips : ∀ raw ∈ text.splitOnP isNewline, parseCidr raw = none → lineRoute raw = none

theorem cut_last (line addr len : Chars) (split : splitOnce '/' (trim isWhitespace line) = some (addr, len)) :
    ∀ c ∈ len.getLast?, isWhitespace c = false := by
  intro c last
  apply trim_last isWhitespace line c
  have nonempty : len ≠ [] := by
    intro empty
    rw [empty] at last
    exact absurd last (by simp)
  rw [(splitOnce_some '/' _ _ _ split).1, ← List.singleton_append, ← List.append_assoc,
    List.getLast?_append_of_ne_nil _ nonempty]
  exact last

/-- The route and the range that a plain CIDR stands for cover the same addresses. -/
theorem route_eq_range (addr : Chars) (base x : Ipv4Addr) (n : Nat) (small : n ≤ 32)
    (read : inetPton addr = some base) :
    (Route.mk addr (dottedMaskForPrefix n)).Has x ↔ (cidrRange base n).Has x.toNat := by
  rw [has_prefixMask addr base x n small read, cidrRange_has base x n small]

/-- An address and a length without line terminators between them stay in one piece. -/
theorem core_piece (line addr len : Chars) (base : Ipv4Addr)
    (split : splitOnce '/' (trim isWhitespace line) = some (addr, len))
    (readBase : parse addr = some base) (free : ∀ c ∈ len, isNewline c = false) :
    ∃ raw ∈ line.splitOnP isNewline, trim isBlank raw = trim isWhitespace line := by
  have shape := (splitOnce_some '/' _ _ _ split).1
  have coreFree : ∀ c ∈ trim isWhitespace line, isNewline c = false := by
    intro c member
    rw [shape, List.mem_append, List.mem_cons] at member
    rcases member with inAddr | rfl | inLen
    · exact not_newline_of_not_white c (address_not_white addr base readBase c inAddr)
    · decide
    · exact free c inLen
  obtain ⟨front, back, whole, before, after⟩ := trim_spec isWhitespace line
  obtain ⟨left, right, member, inFront, inBack⟩ :=
    core_in_piece isNewline front (trim isWhitespace line) back coreFree
  rw [← whole] at member
  have narrow : ∀ c, isWhitespace c = false → isBlank c = false := by
    intro c solid
    rw [← Bool.not_eq_true] at *
    intro blank
    exact solid ((white_iff c).mpr (Or.inl blank))
  refine ⟨_, member, ?_⟩
  apply trim_append
  · rw [shape]
    simp
  · exact fun c head => narrow c (trim_head isWhitespace line c head)
  · exact fun c last => narrow c (trim_last isWhitespace line c last)
  · exact fun c inside => isBlank_of_white c (before c (inFront c inside).1) (inFront c inside).2
  · exact fun c inside => isBlank_of_white c (after c (inBack c inside).1) (inBack c inside).2

theorem nul_not_mem (text : Chars) (base : Ipv4Addr) (read : parse text = some base) :
    '\x00' ∉ text := by
  intro member
  rcases parse_mem text base read _ member with digit | dot
  · exact absurd digit (by decide)
  · exact absurd dot (by decide)

/-- What the core reads from a plain line, one of its pieces gives the tunnel as well. -/
theorem Plain.route_of_range {line : Chars} (plain : Plain line) (range : IpRange)
    (parsed : parseCidr line = some range) :
    ∃ raw ∈ line.splitOnP isNewline, ∃ route, lineRoute raw = some route ∧
      ∀ x : Ipv4Addr, route.Has x ↔ range.Has x.toNat := by
  obtain ⟨addr, len, base, n, split, readBase, readLen, small, rfl⟩ :=
    (parseCidr_some line range).mp parsed
  obtain ⟨tight, free⟩ := plain.tight addr len split (by rw [readBase]; rfl) ⟨n, small, readLen⟩
  rw [tight] at readBase
  obtain ⟨raw, member, trimmed⟩ := core_piece line addr len base split readBase free
  have pton : inetPton addr = some base := by
    rw [inetPton_eq_parse addr (nul_not_mem addr base readBase), readBase]
  have value : integerValue len = n := integerValue_strict len n readLen (cut_last line addr len split)
  refine ⟨raw, member, Route.mk addr (dottedMaskForPrefix n), ?_,
    fun x => route_eq_range addr base x n small pton⟩
  rw [lineRoute_some]
  exact ⟨addr, len, base, by rw [trimmed, split], pton, by omega, by omega, by
    rw [value, Int.toNat_natCast]⟩

/-- What the tunnel reads from a piece of a plain line, the core reads as well. -/
theorem Plain.range_of_route {line : Chars} (plain : Plain line) (raw : Chars)
    (member : raw ∈ line.splitOnP isNewline) (route : Route) (added : lineRoute raw = some route) :
    ∃ range, parseCidr line = some range ∧ parseCidr raw = some range ∧
      ∀ x : Ipv4Addr, route.Has x ↔ range.Has x.toNat := by
  obtain ⟨addr, len, base, split, pton, low, high, rfl⟩ := (lineRoute_some raw route).mp added
  obtain ⟨same, absent, n, small, readLen⟩ :=
    plain.whole raw member addr len split (by rw [pton]; rfl) ⟨low, high⟩
  have wide := trim_blank raw (mem_splitOnP isNewline line raw member).1
  have readBase : parse addr = some base := by rw [← inetPton_eq_parse addr absent, pton]
  have solid := address_not_white addr base readBase
  have tight : trim isWhitespace addr = addr := trim_of_ends _ _
    (fun c head => solid c (List.mem_of_mem_head? head))
    (fun c last => solid c (List.mem_of_getLast? last))
  have value : integerValue len = n :=
    integerValue_strict len n readLen (cut_last line addr len (by rw [← same, split]))
  refine ⟨cidrRange base n, ?_, ?_, fun x => ?_⟩
  · exact (parseCidr_some line _).mpr
      ⟨addr, len, base, n, by rw [← same, split], by rw [tight, readBase], readLen, small, rfl⟩
  · exact (parseCidr_some raw _).mpr
      ⟨addr, len, base, n, by rw [wide, split], by rw [tight, readBase], readLen, small, rfl⟩
  · rw [value, Int.toNat_natCast]
    exact route_eq_range addr base x n small pton

theorem route_ne_nil (raw : Chars) (route : Route) (added : lineRoute raw = some route) : raw ≠ [] := by
  intro empty
  rw [empty] at added
  exact absurd added (by simp [lineRoute, trim])

/-- The pieces that give routes are those of the lines the core sees. -/
theorem route_piece (text raw : Chars) (route : Route) (added : lineRoute raw = some route) :
    raw ∈ text.splitOnP isNewline ↔ ∃ line ∈ lines text, raw ∈ line.splitOnP isNewline :=
  lines_pieces isNewline (by decide) (by decide) text raw (route_ne_nil raw route added)

theorem covered_routes (text : Chars) (x : Ipv4Addr) :
    Covered (appendChnrouteExclusions [] text) x ↔
      ∃ line ∈ lines text, ∃ raw ∈ line.splitOnP isNewline, ∃ route,
        lineRoute raw = some route ∧ route.Has x := by
  simp only [Covered, appendChnrouteExclusions, List.nil_append, List.mem_filterMap]
  constructor
  · rintro ⟨route, ⟨raw, member, added⟩, has⟩
    obtain ⟨line, listed, inside⟩ := (route_piece text raw route added).mp member
    exact ⟨line, listed, raw, inside, route, added, has⟩
  · rintro ⟨line, listed, raw, inside, route, added, has⟩
    exact ⟨route, ⟨raw, (route_piece text raw route added).mpr ⟨line, listed, inside⟩, added⟩, has⟩

theorem agree_of_plain (text : Chars) (plain : ∀ line ∈ lines text, Plain line) : Agree text := by
  constructor
  · intro ip
    rw [covered_routes, ChnRoute.fromLines_contains]
    constructor
    · rintro ⟨line, listed, raw, inside, route, added, has⟩
      obtain ⟨range, parsed, _, same⟩ := (plain line listed).range_of_route raw inside route added
      exact ⟨line, listed, range, parsed, (same ip).mp has⟩
    · rintro ⟨line, listed, range, parsed, has⟩
      obtain ⟨raw, inside, route, added, same⟩ := (plain line listed).route_of_range range parsed
      exact ⟨line, listed, raw, inside, route, added, (same ip).mpr has⟩
  · intro line listed skipped raw inside
    by_contra kept
    obtain ⟨route, added⟩ := Option.ne_none_iff_exists'.mp kept
    obtain ⟨range, parsed, _⟩ := (plain line listed).range_of_route raw inside route added
    rw [skipped] at parsed
    exact absurd parsed (by simp)
  · intro line listed skipped
    by_contra kept
    obtain ⟨range, parsed⟩ := Option.ne_none_iff_exists'.mp kept
    obtain ⟨raw, inside, route, added, _⟩ := (plain line listed).route_of_range range parsed
    rw [skipped raw inside] at added
    exact absurd added (by simp)
  · intro raw member skipped
    by_contra kept
    obtain ⟨route, added⟩ := Option.ne_none_iff_exists'.mp kept
    obtain ⟨line, listed, inside⟩ := (route_piece text raw route added).mp member
    obtain ⟨range, _, parsed, _⟩ := (plain line listed).range_of_route raw inside route added
    rw [skipped] at parsed
    exact absurd parsed (by simp)

theorem slash_not_mem_of_white (text : Chars) (white : ∀ c ∈ text, isWhitespace c = true) :
    '/' ∉ text := by
  intro member
  exact absurd (white '/' member) (by decide)

/-- A line that the core reads has one slash. -/
theorem count_slash (line : Chars) (range : IpRange) (parsed : parseCidr line = some range) :
    line.count '/' = 1 := by
  obtain ⟨addr, len, base, n, split, _, readLen, _⟩ := (parseCidr_some line range).mp parsed
  obtain ⟨shape, absent⟩ := splitOnce_some '/' _ _ _ split
  obtain ⟨front, back, whole, before, after⟩ := trim_spec isWhitespace line
  obtain ⟨gap, rest, inner, left, right⟩ := trim_spec isWhitespace len
  have number : '/' ∉ trim isWhitespace len := by
    intro member
    rcases (parseU32_mem _ n readLen).1 _ member with digit | plus
    · exact absurd digit (by decide)
    · exact absurd plus (by decide)
  rw [whole, shape, inner]
  simp only [List.count_append, List.count_cons, List.count_eq_zero.mpr absent,
    List.count_eq_zero.mpr (slash_not_mem_of_white front before),
    List.count_eq_zero.mpr (slash_not_mem_of_white back after),
    List.count_eq_zero.mpr (slash_not_mem_of_white gap left),
    List.count_eq_zero.mpr (slash_not_mem_of_white rest right), List.count_eq_zero.mpr number]
  rfl

theorem cut_once (front back other rest : Chars) (same : front ++ '/' :: back = other ++ '/' :: rest)
    (once : (front ++ '/' :: back).count '/' = 1) : front = other ∧ back = rest := by
  have free : ∀ x y : Chars, (x ++ '/' :: y).count '/' = 1 → '/' ∉ x := by
    intro x y count
    rw [List.count_append, List.count_cons_self] at count
    exact List.count_eq_zero.mp (by omega)
  have one := splitOnce_append '/' front back (free front back once)
  have two := splitOnce_append '/' other rest (free other rest (same ▸ once))
  rw [same, two, Option.some.injEq, Prod.mk.injEq] at one
  exact ⟨one.1.symm, one.2.symm⟩

theorem nul_not_mem_padded (addr : Chars) (base : Ipv4Addr)
    (read : parse (trim isWhitespace addr) = some base) : '\x00' ∉ addr := by
  obtain ⟨front, back, padded, before, after⟩ := trim_spec isWhitespace addr
  intro inside
  rw [padded] at inside
  simp only [List.mem_append] at inside
  rcases inside with (ahead | core) | behind
  · exact absurd (before _ ahead) (by decide)
  · exact nul_not_mem _ _ read core
  · exact absurd (after _ behind) (by decide)

/-- What a piece holds stands before the terminator that ends it. -/
theorem mem_before_stop {one rest piece tail : Chars} {c d : Char} (stop : isNewline c = true)
    (free : ∀ e ∈ piece, isNewline e = false) (same : one ++ c :: rest = piece ++ tail)
    (inside : d ∈ piece) : d ∈ one := by
  rcases List.append_eq_append_iff.mp same with ⟨more, shorter, longer⟩ | ⟨more, longer, _⟩
  · cases more with
    | nil =>
      rw [List.append_nil] at shorter
      rw [← shorter]
      exact inside
    | cons e more =>
      rw [List.cons_append, List.cons.injEq] at longer
      have clean := free c (by rw [shorter, longer.1]; simp)
      rw [clean] at stop
      exact absurd stop (by decide)
  · rw [longer]
    exact List.mem_append.mpr (Or.inl inside)

/-- If some piece of a line that the core reads gives a route and is itself read by the core,
then no white space stands before the slash and no line terminator behind it. -/
theorem tight_of_piece (line addr len : Chars) (base : Ipv4Addr) (n : Nat)
    (split : splitOnce '/' (trim isWhitespace line) = some (addr, len))
    (readBase : parse (trim isWhitespace addr) = some base)
    (readLen : parseU32 (trim isWhitespace len) = some n) (small : n ≤ 32)
    (raw : Chars) (member : raw ∈ line.splitOnP isNewline) (route : Route)
    (added : lineRoute raw = some route) (range : IpRange) (parsed : parseCidr raw = some range) :
    trim isWhitespace addr = addr ∧ ∀ c ∈ len, isNewline c = false := by
  have once := count_slash line _ ((parseCidr_some line _).mpr
    ⟨addr, len, base, n, split, readBase, readLen, small, rfl⟩)
  obtain ⟨shape, _⟩ := splitOnce_some '/' _ _ _ split
  obtain ⟨front, back, whole, before, after⟩ := trim_spec isWhitespace line
  obtain ⟨free, u, v, around⟩ := mem_splitOnP isNewline line raw member
  obtain ⟨addr', len', base', split', pton, _⟩ := (lineRoute_some raw route).mp added
  obtain ⟨shape', _⟩ := splitOnce_some '/' _ _ _ split'
  obtain ⟨front', back', whole', _, _⟩ := trim_spec isBlank raw
  obtain ⟨addr'', len'', _, n', split'', _, readLen', _⟩ := (parseCidr_some raw range).mp parsed
  rw [trim_blank raw free, split', Option.some.injEq, Prod.mk.injEq] at split''
  obtain ⟨rfl, rfl⟩ := split''
  have left : line = (front ++ addr) ++ '/' :: (len ++ back) := by
    rw [whole, shape]
    simp
  have right : line = (u ++ front' ++ addr') ++ '/' :: (len' ++ back' ++ v) := by
    rw [around, whole', shape']
    simp
  obtain ⟨sameAddr, sameLen⟩ := cut_once _ _ _ _ (left.symm.trans right) (left ▸ once)
  have addrSome : addr ≠ [] := by
    intro empty
    rw [empty] at readBase
    exact (parse_ends _ _ readBase).1 rfl
  have absent : '\x00' ∉ addr' := by
    intro inside
    have onLine : '\x00' ∈ front ++ addr := by
      rw [sameAddr]
      simp [inside]
    rcases List.mem_append.mp onLine with ahead | within
    · exact absurd (before _ ahead) (by decide)
    · exact nul_not_mem_padded addr base readBase within
  have readPiece : parse addr' = some base' := by rw [← inetPton_eq_parse addr' absent, pton]
  constructor
  · apply trim_of_ends
    · intro c head
      apply trim_head isWhitespace line c
      rw [shape, List.head?_append_of_ne_nil _ addrSome]
      exact head
    · intro c last
      obtain ⟨some, _, digits⟩ := parse_ends _ _ readPiece
      apply digit_not_space c
      apply digits c
      rw [← List.getLast?_append_of_ne_nil (u ++ front') some, ← sameAddr,
        List.getLast?_append_of_ne_nil _ addrSome]
      exact last
  · intro c inside
    by_contra stop
    rw [Bool.not_eq_false] at stop
    obtain ⟨gap, padded, white⟩ := trim_front isWhitespace len (cut_last line addr len split)
    have inGap : c ∈ gap := by
      rw [padded, List.mem_append] at inside
      rcases inside with one | two
      · exact one
      · have solid := not_newline_of_not_white c (number_not_white _ n readLen c two)
        rw [solid] at stop
        exact absurd stop (by decide)
    obtain ⟨one, two, cut⟩ := List.append_of_mem inGap
    -- the digits of the piece end before this terminator, where only white space stands
    obtain ⟨d, found, digit⟩ := (parseU32_mem _ n' readLen').2
    have inLen : d ∈ len' := mem_of_mem_trim _ _ _ found
    have inPiece : ∀ e ∈ len' ++ back', isNewline e = false := by
      intro e member
      apply free e
      rw [whole', shape']
      rcases List.mem_append.mp member with left | right
      · simp [left]
      · simp [right]
    have lined : one ++ c :: (two ++ trim isWhitespace len ++ back) = (len' ++ back') ++ v := by
      rw [← sameLen]
      conv_rhs => rw [padded, cut]
      simp
    have early : d ∈ one :=
      mem_before_stop stop inPiece lined (List.mem_append.mpr (Or.inl inLen))
    have space := white d (by rw [cut]; simp [early])
    rw [digit_not_space d digit] at space
    exact absurd space (by decide)

theorem plain_of_agree (text : Chars) (agree : Agree text) : ∀ line ∈ lines text, Plain line := by
  intro line listed
  have tight : ∀ addr len, splitOnce '/' (trim isWhitespace line) = some (addr, len) →
      (parse (trim isWhitespace addr)).isSome →
      (∃ n ≤ 32, parseU32 (trim isWhitespace len) = some n) →
      trim isWhitespace addr = addr ∧ ∀ c ∈ len, isNewline c = false := by
    intro addr len split address ⟨n, small, readLen⟩
    obtain ⟨base, readBase⟩ := Option.isSome_iff_exists.mp address
    have read : parseCidr line ≠ none := by
      rw [(parseCidr_some line _).mpr ⟨addr, len, base, n, split, readBase, readLen, small, rfl⟩]
      simp
    have used : ∃ raw ∈ line.splitOnP isNewline, lineRoute raw ≠ none := by
      by_contra unused
      refine read (agree.tunnelSkips line listed ?_)
      intro raw member
      by_contra some
      exact unused ⟨raw, member, some⟩
    obtain ⟨raw, member, some⟩ := used
    obtain ⟨route, added⟩ := Option.ne_none_iff_exists'.mp some
    have listedPiece := (route_piece text raw route added).mpr ⟨line, listed, member⟩
    have kept : parseCidr raw ≠ none := fun skipped => some (agree.pieceSkips raw listedPiece skipped)
    obtain ⟨range, parsed⟩ := Option.ne_none_iff_exists'.mp kept
    exact tight_of_piece line addr len base n split readBase readLen small raw member route added
      range parsed
  refine ⟨tight, ?_⟩
  intro raw member addr len split address bounds
  obtain ⟨base, pton⟩ := Option.isSome_iff_exists.mp address
  have added := (lineRoute_some raw _).mpr ⟨addr, len, base, split, pton, bounds.1, bounds.2, rfl⟩
  have kept : parseCidr line ≠ none := by
    intro skipped
    rw [agree.coreSkips line listed skipped raw member] at added
    exact absurd added (by simp)
  obtain ⟨range, parsed⟩ := Option.ne_none_iff_exists'.mp kept
  obtain ⟨addr₀, len₀, base₀, n, split₀, readBase, readLen, small, _⟩ :=
    (parseCidr_some line range).mp parsed
  obtain ⟨padless, free⟩ := tight addr₀ len₀ split₀ (by rw [readBase]; rfl) ⟨n, small, readLen⟩
  rw [padless] at readBase
  -- the core of the line lies in one piece, and only one piece has a slash
  obtain ⟨piece, inside, trimmed⟩ := core_piece line addr₀ len₀ base₀ split₀ readBase free
  have slashOne : '/' ∈ raw := mem_of_mem_trim isBlank raw '/' (by
    rw [(splitOnce_some '/' _ _ _ split).1]
    simp)
  have slashTwo : '/' ∈ piece := mem_of_mem_trim isBlank piece '/' (by
    rw [trimmed, (splitOnce_some '/' _ _ _ split₀).1]
    simp)
  have one := only_piece isNewline '/' line raw piece (Nat.le_of_eq (count_slash line range parsed))
    member inside slashOne slashTwo
  subst one
  rw [trimmed, split₀, Option.some.injEq, Prod.mk.injEq] at split
  obtain ⟨rfl, rfl⟩ := split
  exact ⟨trimmed, nul_not_mem _ _ readBase, n, small, readLen⟩

/-- The two readers agree on a text exactly when every line of it is plain. -/
theorem readers_agree_iff_plain (text : Chars) : Agree text ↔ ∀ line ∈ lines text, Plain line :=
  ⟨plain_of_agree text, agree_of_plain text⟩

/-- A length that is no number is read as zero by the tunnel: the line opens everything. -/
theorem bad_length_opens_all :
    ¬∀ ip, Covered (appendChnrouteExclusions [] "1.0.1.0/abc".toList) ip ↔
      (ChnRoute.fromLines (lines "1.0.1.0/abc".toList)).contains ip = true := by
  intro same
  have route : lineRoute "1.0.1.0/abc".toList = some ⟨"1.0.1.0".toList, "0.0.0.0".toList⟩ := by
    decide +kernel
  have one : lines "1.0.1.0/abc".toList = ["1.0.1.0/abc".toList] := by decide +kernel
  have piece : "1.0.1.0/abc".toList ∈ "1.0.1.0/abc".toList.splitOnP isNewline := by decide +kernel
  have unread : parseCidr "1.0.1.0/abc".toList = none := by decide +kernel
  have destination : inetPton "1.0.1.0".toList = some (ofOctets 1 0 1 0) := by decide +kernel
  have mask : inetPton "0.0.0.0".toList = some 0 := by decide +kernel
  have opened : Covered (appendChnrouteExclusions [] "1.0.1.0/abc".toList) (ofOctets 8 8 8 8) := by
    rw [covered_routes, one]
    exact ⟨_, List.mem_singleton_self _, _, piece, _, route, _, _, destination, mask, by decide⟩
  obtain ⟨line, member, range, parsed, _⟩ := (ChnRoute.fromLines_contains _ _).mp ((same _).mp opened)
  rw [one, List.mem_singleton] at member
  rw [member, unread] at parsed
  exact absurd parsed (by simp)

end ShadowVpn.Tunnel.Readers
