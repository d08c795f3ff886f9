import ShadowVpn.Net.Guarded
import ShadowVpn.Policy.Country

/-! Flow inspection, `inspect.rs`: the DNS question, the TLS server name or the HTTP host of a packet that
goes into the tunnel, with everything that could stop it. -/

namespace ShadowVpn.Net.Inspect
open ShadowVpn.Lib.Octets ShadowVpn.Lib.Text ShadowVpn.Lib.Panic ShadowVpn.Lib.Utf8
open ShadowVpn.Policy.Chnroute (isWhitespace)
open ShadowVpn.Policy.Country (eqIgnoreAsciiCase)

def ipprotoTcp : Byte := 6
def ipprotoUdp : Byte := 17

def qtypeName (qtype : BitVec 16) : Chars :=
  (match qtype.toNat with
  | 1 => "A"
  | 28 => "AAAA"
  | 5 => "CNAME"
  | 15 => "MX"
  | 16 => "TXT"
  | 33 => "SRV"
  | 65 => "HTTPS"
  | _ => "?").toList

/-- The loop over the extensions; each round moves ahead, so `record.length + 1` rounds are enough. -/
def sniLoop (record : Bytes) (extEnd : Nat) : (rounds p : Nat) → Checked (Option Chars)
  | 0, _ => .error .rounds
  | rounds + 1, p => do
    if (← add p 4) ≤ extEnd then
      let etype := be16 (← index record p) (← index record (← add p 1))
      let elen := (be16 (← index record (← add p 2)) (← index record (← add p 3))).toNat
      let some body := getRange record (← add p 4) (← add (← add p 4) elen) | return none
      if etype = 0 then
        if body.length < 5 then return none
        if (← index body 2) ≠ 0 then return none
        let nameLen := (be16 (← index body 3) (← index body 4)).toNat
        let some name := getRange body 5 (← add 5 nameLen) | return none
        return fromUtf8 name
      let some p := checkedAdd p 4 | return none
      let some p := checkedAdd p elen | return none
      sniLoop record extEnd rounds p
    else return none

def tlsSni (b : Bytes) : Checked (Option Chars) := do
  let some kind := b[0]? | return none
  if kind ≠ 0x16 then return none
  let some record := getFrom b 5 | return none
  let some message := record[0]? | return none
  if message ≠ 0x01 then return none
  let some p := checkedAdd 4 2 | return none
  let some p := checkedAdd p 32 | return none
  let some sidLen := record[p]? | return none
  let some p := checkedAdd p 1 | return none
  let some p := checkedAdd p sidLen.toNat | return none
  let some csHigh := record[p]? | return none
  let some csLow := record[(← add p 1)]? | return none
  let some p := checkedAdd p 2 | return none
  let some p := checkedAdd p (be16 csHigh csLow).toNat | return none
  let some cmLen := record[p]? | return none
  let some p := checkedAdd p 1 | return none
  let some p := checkedAdd p cmLen.toNat | return none
  let some extHigh := record[p]? | return none
  let some extLow := record[(← add p 1)]? | return none
  let some p := checkedAdd p 2 | return none
  let some extEnd := checkedAdd p (be16 extHigh extLow).toNat | return none
  sniLoop record (min extEnd record.length) (record.length + 1) p

def methods : List Chars :=
  ["GET ".toList, "POST ".toList, "HEAD ".toList, "PUT ".toList, "DELETE ".toList, "OPTIONS ".toList,
    "PATCH ".toList, "CONNECT ".toList]

/-- `split("\r\n")`. -/
def splitCrlf : Chars → List Chars
  | [] => [[]]
  | c :: rest =>
    match c, rest with
    | '\r', '\n' :: more => [] :: splitCrlf more
    | c, rest =>
      match splitCrlf rest with
      | [] => [[c]]
      | line :: lines => (c :: line) :: lines

/-- The body of the loop over the lines: the host that a line names, unless it is empty. -/
def lineHost (line : Chars) : Checked (Option Chars) := do
  if size line < 5 then return none
  if !eqIgnoreAsciiCase (← sliceTo line 5) ['h', 'o', 's', 't', ':'] then return none
  let host := trim isWhitespace (← sliceFrom line 5)
  if host = [] then return none
  return some host

def findHost : List Chars → Checked (Option Chars)
  | [] => return none
  | line :: rest => do
    let some host ← lineHost line | findHost rest
    return some host

def httpHost (b : Bytes) : Checked (Option (Chars × Chars)) := do
  let head := lossy (← slice b 0 (min b.length 1024))
  let some named := methods.find? fun m => m.isPrefixOf head | return none
  let some host ← findHost (splitCrlf head) | return none
  return some (named.rdropWhile isWhitespace, host)

/-- The arm for UDP: a question to port 53. -/
def describeUdp (l4 : Bytes) : Checked (Option Chars) := do
  if l4.length < 8 then return none
  let dport := be16 (← index l4 2) (← index l4 3)
  if dport ≠ 53 then return none
  let some dns := getFrom l4 8 | return none
  let some (name, qtype, _) ← Guarded.question dns | return none
  return some ("DNS ".toList ++ qtypeName qtype ++ ' ' :: name)

/-- The arm for TCP: the start of a stream to port 443 or 80. -/
def describeTcp (l4 : Bytes) : Checked (Option Chars) := do
  if l4.length < 20 then return none
  let dport := be16 (← index l4 2) (← index l4 3)
  let dataOff ← mul ((← index l4 12) >>> 4).toNat 4
  let some payload := getFrom l4 dataOff | return none
  if payload = [] then return none
  if dport = 443 then
    let some host ← tlsSni payload | return none
    return some ("TLS ".toList ++ host)
  if dport = 80 then
    let some (named, host) ← httpHost payload | return none
    return some ("HTTP ".toList ++ named ++ ' ' :: host)
  return none

def describe (pkt : Bytes) : Checked (Option Chars) := do
  if pkt.length < 20 then return none
  if (← index pkt 0) >>> 4 ≠ 4 then return none
  let ihl ← mul ((← index pkt 0) &&& 0x0F).toNat 4
  if ihl < 20 ∨ pkt.length < ihl then return none
  let proto ← index pkt 9
  let _ := Ipv4.ofOctets (← index pkt 16) (← index pkt 17) (← index pkt 18) (← index pkt 19)
  let some l4 := getFrom pkt ihl | return none
  if proto = ipprotoUdp then describeUdp l4
  else if proto = ipprotoTcp then describeTcp l4
  else return none

section Returning

theorem wide {n : Nat} (small : n < 2 ^ 63 + 2 ^ 20) : n < usizeEnd := by
  unfold usizeEnd
  omega

theorem word_small (high low : Byte) : (be16 high low).toNat < 65536 := (be16 high low).isLt

/-- Every round of the loop moves ahead, so the rounds last until it ends. -/
theorem sniLoop_returns {record : Bytes} {extEnd : Nat} (inside : extEnd ≤ record.length)
    (small : record.length < 2 ^ 63) (rounds p : Nat) (near : p ≤ 2 ^ 63) (positive : 0 < rounds)
    (enough : extEnd < p + rounds) : Returns (sniLoop record extEnd rounds p) := by
  induction rounds generalizing p with
  | zero => cases positive
  | succ rounds ih =>
    rw [sniLoop, add_ok (wide (by omega)), ok_bind]
    split
    · next room =>
      have byte (i : Nat) (close : i < p + 4) : index record i = .ok (byteAt record i) := index_ok (by omega)
      have sum (i : Nat) (close : i ≤ 4) : add p i = .ok (p + i) := add_ok (wide (by omega))
      rw [byte p (by omega), ok_bind, sum 1 (by decide), ok_bind, byte (p + 1) (by omega), ok_bind,
        sum 2 (by decide), ok_bind, byte (p + 2) (by omega), ok_bind, sum 3 (by decide), ok_bind,
        byte (p + 3) (by omega), ok_bind, ok_bind]
      have elen := word_small (byteAt record (p + 2)) (byteAt record (p + 3))
      dsimp only
      rw [ok_bind, add_ok (wide (by omega)), ok_bind]
      split
      · next body found =>
        split
        · split
          · exact returns_ok none
          · next long =>
            rw [index_ok (by omega), ok_bind]
            split
            · exact returns_ok none
            · have nameLen := word_small (byteAt body 3) (byteAt body 4)
              rw [index_ok (by omega), ok_bind, index_ok (by omega), ok_bind, add_ok (wide (by omega)), ok_bind]
              split
              · exact returns_ok _
              · exact returns_ok none
        · split
          · next first firstSum =>
            split
            · next second secondSum =>
              have one := checkedAdd_some firstSum
              have two := checkedAdd_some secondSum
              have room2 := (getRange_some found).2.1
              exact ih second (by omega) (by omega) (by omega)
            · exact returns_ok none
          · exact returns_ok none
      · exact returns_ok none
    · exact returns_ok none

/-- No field before the extensions is longer than 65535 bytes, so no offset comes near the end of `usize`. -/
theorem tlsSni_returns {b : Bytes} (small : b.length < 2 ^ 63) : Returns (tlsSni b) := by
  unfold tlsSni
  split; swap
  · exact returns_ok none
  split
  · exact returns_ok none
  split; swap
  · exact returns_ok none
  rename_i record tail
  split; swap
  · exact returns_ok none
  split
  · exact returns_ok none
  split; swap
  · exact returns_ok none
  rename_i p0 sum0
  split; swap
  · exact returns_ok none
  rename_i p1 sum1
  split; swap
  · exact returns_ok none
  rename_i sidLen _
  split; swap
  · exact returns_ok none
  rename_i p2 sum2
  split; swap
  · exact returns_ok none
  rename_i p3 sum3
  split; swap
  · exact returns_ok none
  rename_i csHigh _
  have at0 := checkedAdd_some sum0
  have at1 := checkedAdd_some sum1
  have at2 := checkedAdd_some sum2
  have at3 := checkedAdd_some sum3
  have sid := sidLen.isLt
  rw [add_ok (wide (by omega)), ok_bind]
  split; swap
  · exact returns_ok none
  rename_i csLow _
  split; swap
  · exact returns_ok none
  rename_i p4 sum4
  split; swap
  · exact returns_ok none
  rename_i p5 sum5
  split; swap
  · exact returns_ok none
  rename_i cmLen _
  split; swap
  · exact returns_ok none
  rename_i p6 sum6
  split; swap
  · exact returns_ok none
  rename_i p7 sum7
  split; swap
  · exact returns_ok none
  rename_i extHigh _
  have at4 := checkedAdd_some sum4
  have at5 := checkedAdd_some sum5
  have at6 := checkedAdd_some sum6
  have at7 := checkedAdd_some sum7
  have cs := word_small csHigh csLow
  have cm := cmLen.isLt
  rw [add_ok (wide (by omega)), ok_bind]
  split; swap
  · exact returns_ok none
  rename_i extLow _
  split; swap
  · exact returns_ok none
  rename_i p8 sum8
  split; swap
  · exact returns_ok none
  rename_i extEnd _
  have at8 := checkedAdd_some sum8
  have shorter : record.length ≤ b.length := by
    rw [(getFrom_some tail).2, List.length_drop]
    omega
  exact sniLoop_returns (Nat.min_le_right _ _) (by omega) _ _ (by omega) (by omega) (by omega)

theorem describeUdp_returns {l4 : Bytes} (small : l4.length < 2 ^ 63) : Returns (describeUdp l4) := by
  unfold describeUdp
  split
  · exact returns_ok none
  rw [index_ok (by omega), ok_bind, index_ok (by omega), ok_bind]
  dsimp only
  split
  · exact returns_ok none
  split; swap
  · exact returns_ok none
  rename_i dns tail
  have shorter : dns.length ≤ l4.length := by
    rw [(getFrom_some tail).2, List.length_drop]
    omega
  rw [Guarded.question_eq (by omega), ok_bind]
  split
  · exact returns_ok _
  · exact returns_ok none

end Returning

section Lines

/-- The byte at offset five is inside a character of the line. -/
def Torn (line : Chars) : Prop := 5 ≤ size line ∧ ¬∃ front back, line = front ++ back ∧ size front = 5

/-- The host that a line names: what follows `Host:`, whatever its case, without the space around it. -/
def hostOf (line : Chars) : Option Chars :=
  if eqIgnoreAsciiCase (line.take 5) ['h', 'o', 's', 't', ':'] ∧ trim isWhitespace (line.drop 5) ≠ [] then
    some (trim isWhitespace (line.drop 5))
  else none

/-- A torn line comes before every line that names a host. -/
def Tears (lines : List Chars) : Prop :=
  ∃ before line after, lines = before ++ line :: after ∧ (∀ one ∈ before, hostOf one = none) ∧ Torn line

theorem small_of_lower (c : Char) (low : c.toLower ∈ ['h', 'o', 's', 't', ':']) : c.utf8Size = 1 := by
  unfold Char.toLower at low
  split at low
  · next upper => exact if_pos (UInt32.le_trans upper.2 (by decide))
  · simp only [List.mem_cons, List.not_mem_nil, or_false] at low
    rcases low with rfl | rfl | rfl | rfl | rfl <;> rfl

/-- A string that is `host:` up to case has a byte for each character. -/
theorem size_of_host (front : Chars) (named : eqIgnoreAsciiCase front ['h', 'o', 's', 't', ':'] = true) :
    size front = 5 ∧ front.length = 5 := by
  have same : front.map Char.toLower = ['h', 'o', 's', 't', ':'] := beq_iff_eq.mp named
  have length : front.length = 5 := by
    rw [← List.length_map, same]
    rfl
  refine ⟨?_, length⟩
  rw [size_of_ascii front, length]
  intro c member
  exact small_of_lower c (same ▸ List.mem_map_of_mem member)

theorem lineHost_torn {line : Chars} (torn : Torn line) : lineHost line = .error .boundary := by
  obtain ⟨long, inside⟩ := torn
  have cut : splitAtByte line 5 = none := by
    cases found : splitAtByte line 5 with
    | none => rfl
    | some parts =>
      obtain ⟨front, back⟩ := parts
      exact absurd ⟨front, back, (splitAtByte_some line 5 front back).mp found⟩ inside
  rw [lineHost, if_neg (Nat.not_lt.mpr long), sliceTo, cut]
  rfl

theorem lineHost_whole {line : Chars} (whole : ¬Torn line) : lineHost line = .ok (hostOf line) := by
  unfold lineHost
  split
  · next short =>
    rw [hostOf, if_neg]
    · rfl
    · rintro ⟨named, _⟩
      have bound := (size_of_host _ named).1
      have sum := size_append (line.take 5) (line.drop 5)
      rw [List.take_append_drop] at sum
      omega
  · next long =>
    have parts : ∃ front back, line = front ++ back ∧ size front = 5 :=
      Classical.byContradiction fun inside => whole ⟨Nat.le_of_not_lt long, inside⟩
    obtain ⟨front, back, rfl, five⟩ := parts
    have cut := (splitAtByte_some (front ++ back) 5 front back).mpr ⟨rfl, five⟩
    rw [sliceTo, cut, ok_bind, sliceFrom, cut, hostOf]
    dsimp only
    by_cases named : eqIgnoreAsciiCase front ['h', 'o', 's', 't', ':'] = true
    · have length := (size_of_host front named).2
      have left : (front ++ back).take 5 = front := by rw [← length, List.take_left]
      have right : (front ++ back).drop 5 = back := by rw [← length, List.drop_left]
      rw [left, right, named, Bool.not_true, if_neg Bool.false_ne_true, ok_bind]
      by_cases empty : trim isWhitespace back = []
      · rw [if_pos empty, if_neg fun both => both.2 empty]
        rfl
      · rw [if_neg empty, if_pos ⟨rfl, empty⟩]
        rfl
    · have other : ¬eqIgnoreAsciiCase ((front ++ back).take 5) ['h', 'o', 's', 't', ':'] = true := by
        intro named2
        have whole := List.take_append_drop 5 (front ++ back)
        have five2 := (size_of_host _ named2).1
        have cut2 := (splitAtByte_some (front ++ back) 5 _ _).mpr ⟨whole.symm, five2⟩
        rw [cut, Option.some.injEq, Prod.mk.injEq] at cut2
        rw [← cut2.1] at named2
        exact named named2
      rw [Bool.not_eq_true] at named
      rw [named, Bool.not_false, if_pos rfl, if_neg fun both => other both.1]
      rfl

theorem tears_cons (line : Chars) (rest : List Chars) :
    Tears (line :: rest) ↔ Torn line ∨ hostOf line = none ∧ Tears rest := by
  constructor
  · rintro ⟨before, torn, after, same, unnamed, inside⟩
    cases before with
    | nil =>
      obtain ⟨rfl, rfl⟩ := List.cons.inj same
      exact .inl inside
    | cons one before =>
      obtain ⟨rfl, rfl⟩ := List.cons.inj same
      exact .inr ⟨unnamed _ List.mem_cons_self, before, torn, after, rfl,
        fun two member => unnamed two (List.mem_cons_of_mem _ member), inside⟩
  · rintro (inside | ⟨unnamed, before, torn, after, rfl, rest, inside⟩)
    · exact ⟨[], line, rest, rfl, fun _ member => absurd member List.not_mem_nil, inside⟩
    · refine ⟨line :: before, torn, after, rfl, ?_, inside⟩
      intro one member
      rcases List.mem_cons.mp member with rfl | later
      · exact unnamed
      · exact rest one later

theorem not_tears_nil : ¬Tears [] := by
  rintro ⟨before, line, after, same, _⟩
  cases before <;> cases same

/-- The search for a host comes to its end exactly when no torn line is in its way. -/
theorem findHost_returns_iff (lines : List Chars) : Returns (findHost lines) ↔ ¬Tears lines := by
  induction lines with
  | nil => exact iff_of_true (returns_ok none) not_tears_nil
  | cons line rest ih =>
    rw [tears_cons, findHost]
    by_cases torn : Torn line
    · rw [lineHost_torn torn]
      exact iff_of_false (not_returns_error .boundary) fun calm => calm (.inl torn)
    · rw [lineHost_whole torn, ok_bind]
      cases named : hostOf line with
      | none =>
        rw [or_iff_right torn, and_iff_right rfl]
        exact ih
      | some host =>
        refine iff_of_true (returns_ok (some host)) ?_
        rintro (inside | ⟨unnamed, _⟩)
        · exact torn inside
        · cases unnamed

/-- What the stream starts with, up to 1024 bytes, is an HTTP request with a torn line. -/
def TornRequest (payload : Bytes) : Prop :=
  (∃ named ∈ methods, named.isPrefixOf (lossy (payload.take 1024)) = true) ∧
    Tears (splitCrlf (lossy (payload.take 1024)))

theorem httpHost_returns_iff (b : Bytes) : Returns (httpHost b) ↔ ¬TornRequest b := by
  have head : b.take (min b.length 1024) = b.take 1024 := by
    rw [List.take_eq_take_iff]
    omega
  rw [httpHost, slice_ok (Nat.zero_le _) (Nat.min_le_left _ _), ok_bind, List.drop_zero, Nat.sub_zero, head]
  dsimp only [TornRequest]
  generalize lossy (b.take 1024) = text
  cases found : methods.find? fun m => m.isPrefixOf text with
  | none =>
    refine iff_of_true (returns_ok none) ?_
    rintro ⟨⟨named, member, starts⟩, _⟩
    exact List.find?_eq_none.mp found named member starts
  | some named =>
    have starts := List.find?_some found
    have asked : ∃ m ∈ methods, m.isPrefixOf text = true := ⟨named, List.mem_of_find?_eq_some found, starts⟩
    rw [and_iff_right asked, ← findHost_returns_iff]
    apply returns_bind
    intro host
    split
    · exact returns_ok _
    · exact returns_ok none

end Lines

section Packets

/-- The payload of a TCP packet to port 80, as the packet's own length fields say where it is. -/
def httpPayload (pkt : Bytes) : Option Bytes :=
  let ihl := (byteAt pkt 0 &&& 0x0F).toNat * 4
  let l4 := pkt.drop ihl
  let dataOff := (byteAt l4 12 >>> 4).toNat * 4
  if 20 ≤ pkt.length ∧ byteAt pkt 0 >>> 4 = 4 ∧ 20 ≤ ihl ∧ ihl ≤ pkt.length ∧ byteAt pkt 9 = ipprotoTcp ∧
      20 ≤ l4.length ∧ be16At l4 2 = 80 ∧ dataOff < l4.length then
    some (l4.drop dataOff)
  else none

/-- A segment to port 80 whose payload is a request with a torn line. -/
def TornSegment (l4 : Bytes) : Prop :=
  20 ≤ l4.length ∧ be16At l4 2 = 80 ∧ (byteAt l4 12 >>> 4).toNat * 4 < l4.length ∧
    TornRequest (l4.drop ((byteAt l4 12 >>> 4).toNat * 4))

theorem torn_payload_iff (pkt : Bytes) : (∃ payload, httpPayload pkt = some payload ∧ TornRequest payload) ↔
    20 ≤ pkt.length ∧ byteAt pkt 0 >>> 4 = 4 ∧ 20 ≤ (byteAt pkt 0 &&& 0x0F).toNat * 4 ∧
      (byteAt pkt 0 &&& 0x0F).toNat * 4 ≤ pkt.length ∧ byteAt pkt 9 = ipprotoTcp ∧
        TornSegment (pkt.drop ((byteAt pkt 0 &&& 0x0F).toNat * 4)) := by
  constructor
  · rintro ⟨payload, read, torn⟩
    dsimp only [httpPayload] at read
    split at read
    · next all =>
      obtain rfl := Option.some.inj read
      obtain ⟨long, version, least, inside, tcp, room, port, more⟩ := all
      exact ⟨long, version, least, inside, tcp, room, port, more, torn⟩
    · cases read
  · rintro ⟨long, version, least, inside, tcp, room, port, more, torn⟩
    exact ⟨_, if_pos ⟨long, version, least, inside, tcp, room, port, more⟩, torn⟩

theorem describeTcp_returns_iff {l4 : Bytes} (small : l4.length < 2 ^ 63) :
    Returns (describeTcp l4) ↔ ¬TornSegment l4 := by
  unfold describeTcp TornSegment
  split
  · next short => exact iff_of_true (returns_ok none) fun all => absurd all.1 (Nat.not_le.mpr short)
  rw [index_ok (by omega), ok_bind, index_ok (by omega), ok_bind, index_ok (by omega), ok_bind]
  have nibble := (byteAt l4 12 >>> 4).isLt
  rw [mul_ok (wide (by omega)), ok_bind]
  generalize (byteAt l4 12 >>> 4).toNat * 4 = dataOff
  have port : be16 (byteAt l4 2) (byteAt l4 3) = be16At l4 2 := rfl
  rw [port]
  split; swap
  · next beyond =>
    refine iff_of_true (returns_ok none) fun all => ?_
    rw [getFrom, if_pos (Nat.le_of_lt all.2.2.1)] at beyond
    exact beyond _ rfl
  rename_i payload tail
  obtain ⟨inside, rfl⟩ := getFrom_some tail
  split
  · next empty =>
    refine iff_of_true (returns_ok none) fun all => ?_
    exact absurd (List.drop_eq_nil_iff.mp empty) (Nat.not_le.mpr all.2.2.1)
  rename_i nonempty
  have more : dataOff < l4.length := by
    rw [List.drop_eq_nil_iff] at nonempty
    omega
  split
  · next tls =>
    refine iff_of_true ?_ fun all => absurd (tls.symm.trans all.2.1) (by decide)
    rw [returns_bind]
    · exact tlsSni_returns (by rw [List.length_drop]; omega)
    · intro host
      split
      · exact returns_ok _
      · exact returns_ok none
  split
  · next http =>
    rw [returns_bind, httpHost_returns_iff]
    · rw [and_iff_right (by omega), and_iff_right http, and_iff_right more]
    · intro host
      split
      · exact returns_ok _
      · exact returns_ok none
  · next other => exact iff_of_true (returns_ok none) fun all => other all.2.1

/-- Inspection comes to its end exactly when the packet carries no request with a torn line. -/
theorem describe_returns_iff (pkt : Slice) : Returns (describe pkt.bytes) ↔
    ¬∃ payload, httpPayload pkt.bytes = some payload ∧ TornRequest payload := by
  obtain ⟨pkt, small⟩ := pkt
  dsimp only
  rw [torn_payload_iff]
  unfold describe
  split
  · next short => exact iff_of_true (returns_ok none) fun all => absurd all.1 (Nat.not_le.mpr short)
  have byte (i : Nat) (close : i < 20) : index pkt i = .ok (byteAt pkt i) := index_ok (by omega)
  have nibble := (byteAt pkt 0 &&& 0x0F).isLt
  rw [byte 0 (by decide), ok_bind, ok_bind, mul_ok (wide (by omega)), ok_bind, byte 9 (by decide), ok_bind,
    byte 16 (by decide), ok_bind, byte 17 (by decide), ok_bind, byte 18 (by decide), ok_bind,
    byte 19 (by decide), ok_bind]
  split
  · next version => exact iff_of_true (returns_ok none) fun all => version all.2.1
  split
  · next header =>
    refine iff_of_true (returns_ok none) fun all => ?_
    rcases header with short | long
    · exact absurd all.2.2.1 (Nat.not_le.mpr short)
    · exact absurd all.2.2.2.1 (Nat.not_le.mpr long)
  next version header =>
  have inside : (byteAt pkt 0 &&& 0x0F).toNat * 4 ≤ pkt.length := by omega
  rw [getFrom, if_pos inside]
  have shorter : (pkt.drop ((byteAt pkt 0 &&& 0x0F).toNat * 4)).length < 2 ^ 63 := by
    rw [List.length_drop]
    omega
  dsimp only
  split
  · next udp =>
    refine iff_of_true (describeUdp_returns shorter) fun all => ?_
    exact absurd (udp.symm.trans all.2.2.2.2.1) (by decide)
  split
  · next other tcp =>
    rw [describeTcp_returns_iff shorter, and_iff_right (by omega), and_iff_right (Decidable.of_not_not version),
      and_iff_right (by omega), and_iff_right inside, and_iff_right tcp]
  · next tcp => exact iff_of_true (returns_ok none) fun all => tcp all.2.2.2.2.1

/-- The packet of a TCP stream to port 80 without options. -/
def requestPacket (payload : Bytes) : Bytes :=
  [0x45, 0, 0, 0, 0, 0, 0, 0, 64, 6, 0, 0, 10, 9, 0, 2, 1, 2, 3, 4] ++
    [0xC0, 0, 0, 80, 0, 0, 0, 1, 0, 0, 0, 1, 0x50, 0x18, 0, 0, 0, 0, 0, 0] ++ payload

/-- A request line and a header line `abcdé`. -/
def tornPacket : Slice where
  bytes := requestPacket (utf8 "GET / HTTP/1.1\r\nabcd".toList ++ [0xC3, 0xA9])
  small := by decide +kernel

theorem torn_header_stops : ¬∀ pkt : Slice, Returns (describe pkt.bytes) := by
  intro all
  obtain ⟨result, ended⟩ := all tornPacket
  have stopped : describe tornPacket.bytes = .error .boundary := by decide +kernel
  rw [stopped] at ended
  cases ended

end Packets

end ShadowVpn.Net.Inspect
