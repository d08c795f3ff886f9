import ShadowVpn.Net.Checksum
import ShadowVpn.Net.Guarded

/-! The other readers of the split-DNS path with everything that could stop them: the packet parser,
the transaction id and the walk over the answer records. None of them stops on any bytes. -/

namespace ShadowVpn.Net.Survival
open ShadowVpn.Lib.Octets ShadowVpn.Lib.Panic ShadowVpn.Net.Ipv4 ShadowVpn.Net.Udp ShadowVpn.Net.Guarded

def txid (dns : Bytes) : Checked (Option (BitVec 16)) := do
  if dns.length < 2 then return none
  let id := be16 (← index dns 0) (← index dns 1)
  return some id

/-- `Ipv4Addr::new(data[i], data[i + 1], data[i + 2], data[i + 3])`. -/
def addressAt (data : Bytes) (i : Nat) : Checked Ipv4Addr := do
  let a ← index data i
  let b ← index data (← add i 1)
  let c ← index data (← add i 2)
  let d ← index data (← add i 3)
  return ofOctets a b c d

def wordAt (data : Bytes) (i : Nat) : Checked (BitVec 16) := do
  let high ← index data i
  let low ← index data (← add i 1)
  return be16 high low

def parseUdpDnsQuery (pkt : Bytes) : Checked (Option ParsedQuery) := do
  if pkt.length < ipv4MinHeader then return none
  let first ← index pkt 0
  if first >>> 4 ≠ 4 then return none
  let ihl ← mul (first &&& 0x0f).toNat 4
  if ihl < ipv4MinHeader then return none
  if pkt.length < (← add ihl udpHeader) then return none
  if (← index pkt 9) ≠ ipprotoUdp then return none
  let flagsFrag ← wordAt pkt 6
  if flagsFrag &&& 0x2000 ≠ 0 ∨ flagsFrag &&& 0x1fff ≠ 0 then return none
  let srcIp ← addressAt pkt 12
  let dstIp ← addressAt pkt 16
  let udp ← slice pkt ihl pkt.length
  let srcPort ← wordAt udp 0
  let dstPort ← wordAt udp 2
  if dstPort ≠ dnsPort then return none
  let udpLen := (← wordAt udp 4).toNat
  if udpLen < udpHeader then return none
  if (← add ihl udpLen) > pkt.length then return none
  let dns ← slice udp udpHeader udpLen
  if dns = [] then return none
  return some ⟨srcIp, srcPort, dstIp, dstPort, dns⟩

def skipName (msg : Bytes) : (rounds pos : Nat) → Checked (Option Nat)
  | 0, _ => .error .rounds
  | rounds + 1, pos => do
    if msg.length ≤ pos then return none
    let len ← index msg pos
    if len &&& 0xC0 = 0x00 then
      if len = 0 then return some (← add pos 1)
      skipName msg rounds (← add pos (← add 1 len.toNat))
    else if len &&& 0xC0 = 0xC0 then
      if (← add pos 1) < msg.length then return some (← add pos 2)
      else return none
    else return none

def skipQuestions (msg : Bytes) (rounds : Nat) : (count pos : Nat) → Checked (Option Nat)
  | 0, pos => return some pos
  | count + 1, pos => do
    let some pos ← skipName msg rounds pos | return none
    let pos ← add pos 4
    if msg.length < pos then return none
    skipQuestions msg rounds count pos

def answerRecords (msg : Bytes) (rounds : Nat) : (count pos : Nat) → Checked (List Ipv4Addr)
  | 0, _ => return []
  | count + 1, pos => do
    let some pos ← skipName msg rounds pos | return []
    if msg.length < (← add pos 10) then return []
    let rtype ← wordAt msg pos
    let rclass ← wordAt msg (← add pos 2)
    let rdlength := (← wordAt msg (← add pos 8)).toNat
    let pos ← add pos 10
    if msg.length < (← add pos rdlength) then return []
    if rtype = Dns.typeA ∧ rclass = Dns.classIn ∧ rdlength = 4 then
      let ip ← addressAt msg pos
      let rest ← answerRecords msg rounds count (← add pos rdlength)
      return ip :: rest
    else answerRecords msg rounds count (← add pos rdlength)

def aRecords (msg : Bytes) (rounds : Nat) : Checked (List Ipv4Addr) := do
  if msg.length < Dns.headerLen then return []
  let qdcount ← wordAt msg 4
  let ancount ← wordAt msg 6
  let some pos ← skipQuestions msg rounds qdcount.toNat Dns.headerLen | return []
  answerRecords msg rounds ancount.toNat pos

section Reading

variable {data : Bytes} (small : data.length < 2 ^ 63)
include small

theorem near_ok {i k : Nat} (near : i ≤ data.length) (le : k ≤ 65535) : add i k = .ok (i + k) := by
  apply add_ok
  unfold usizeEnd
  omega

theorem wordAt_ok {i : Nat} (inside : i + 1 < data.length) : wordAt data i = .ok (be16At data i) := by
  rw [wordAt, index_ok (by omega), ok_bind, near_ok small (by omega) (by decide), ok_bind, index_ok inside, ok_bind]
  rfl

theorem addressAt_ok {i : Nat} (inside : i + 3 < data.length) : addressAt data i = .ok (ipAt data i) := by
  rw [addressAt, index_ok (by omega), ok_bind, near_ok small (by omega) (by decide), ok_bind,
    index_ok (by omega), ok_bind, near_ok small (by omega) (by decide), ok_bind, index_ok (by omega), ok_bind,
    near_ok small (by omega) (by decide), ok_bind, index_ok inside, ok_bind]
  rfl

omit small in
theorem txid_ok : txid data = .ok (Udp.txid data) := by
  rw [txid, Udp.txid]
  split
  · rfl
  · next long =>
    rw [index_ok (by omega), ok_bind, index_ok (by omega), ok_bind]
    rfl

theorem parseUdpDnsQuery_ok : parseUdpDnsQuery data = .ok (Udp.parseUdpDnsQuery data) := by
  rw [parseUdpDnsQuery, Udp.parseUdpDnsQuery]
  have nibble := (byteAt data 0 &&& 0x0f).isLt
  by_cases header : data.length < ipv4MinHeader
  · rw [if_pos header, if_pos header]
    rfl
  have long : 20 ≤ data.length := Nat.le_of_not_lt header
  rw [if_neg header, if_neg header, index_ok (by omega), ok_bind]
  by_cases version : byteAt data 0 >>> 4 ≠ 4
  · rw [if_pos version, if_pos version]
    rfl
  rw [if_neg version, if_neg version]
  have size : mul (byteAt data 0 &&& 0x0f).toNat 4 = .ok (ihl data) := by
    apply mul_ok
    unfold usizeEnd
    omega
  have wide : ihl data < 1024 := by
    unfold ihl
    omega
  have small16 (n : Nat) (le : n ≤ 65535) : add (ihl data) n = .ok (ihl data + n) := by
    apply add_ok
    unfold usizeEnd
    omega
  rw [size, ok_bind]
  by_cases low : ihl data < ipv4MinHeader
  · rw [if_pos low, if_pos (Or.inl low)]
    rfl
  rw [if_neg low, small16 udpHeader (by decide), ok_bind]
  by_cases short : data.length < ihl data + udpHeader
  · rw [if_pos short, if_pos (Or.inr short)]
    rfl
  have room : ihl data + 8 ≤ data.length := Nat.le_of_not_lt short
  rw [if_neg short, if_neg (fun either => either.elim low short), index_ok (by omega), ok_bind]
  by_cases other : byteAt data 9 ≠ ipprotoUdp
  · rw [if_pos other, if_pos other]
    rfl
  rw [if_neg other, if_neg other, wordAt_ok small (by omega), ok_bind]
  dsimp only
  by_cases fragment : be16At data 6 &&& 0x2000 ≠ 0 ∨ be16At data 6 &&& 0x1fff ≠ 0
  · rw [if_pos fragment, if_pos fragment]
    rfl
  rw [if_neg fragment, if_neg fragment]
  have udpLength : (data.drop (ihl data)).length = data.length - ihl data := List.length_drop
  have udpSmall : (data.drop (ihl data)).length < 2 ^ 63 := by omega
  have whole : (data.drop (ihl data)).take (data.length - ihl data) = data.drop (ihl data) :=
    List.take_of_length_le (Nat.le_of_eq udpLength)
  rw [addressAt_ok small (by omega), ok_bind, addressAt_ok small (by omega), ok_bind,
    slice_ok (by omega) (Nat.le_refl _), ok_bind, whole, wordAt_ok udpSmall (by omega), ok_bind,
    wordAt_ok udpSmall (by omega), ok_bind]
  by_cases port : be16At (data.drop (ihl data)) 2 ≠ dnsPort
  · rw [if_pos port, if_pos port]
    rfl
  rw [if_neg port, if_neg port]
  have bound := (be16At (data.drop (ihl data)) 4).isLt
  rw [wordAt_ok udpSmall (by omega), ok_bind]
  by_cases tiny : (be16At (data.drop (ihl data)) 4).toNat < udpHeader
  · rw [if_pos tiny, if_pos (Or.inl tiny)]
    rfl
  rw [if_neg tiny, small16 _ (by omega), ok_bind]
  by_cases beyond : ihl data + (be16At (data.drop (ihl data)) 4).toNat > data.length
  · rw [if_pos beyond, if_pos (Or.inr beyond)]
    rfl
  rw [if_neg beyond, if_neg (fun either => either.elim tiny beyond), slice_ok (by omega) (by omega), ok_bind,
    ← List.drop_take]
  split
  · rfl
  · rfl

theorem skipName_ok (rounds pos : Nat) (positive : 0 < rounds) (enough : data.length < pos + rounds) :
    skipName data rounds pos = .ok (Dns.skipName data pos) := by
  induction rounds generalizing pos with
  | zero => omega
  | succ rounds ih =>
    rw [skipName, Dns.skipName_eq]
    by_cases past : data.length ≤ pos
    · rw [if_pos past, if_pos past]
      rfl
    have byte := (byteAt data pos).isLt
    rw [if_neg past, if_neg past, index_ok (by omega), ok_bind]
    split
    · split
      · rw [near_ok small (by omega) (by decide), ok_bind]
        rfl
      · have label : add 1 (byteAt data pos).toNat = .ok (1 + (byteAt data pos).toNat) := by
          apply add_ok
          unfold usizeEnd
          omega
        rw [label, ok_bind, near_ok small (by omega) (by omega), ok_bind, ← Nat.add_assoc]
        exact ih _ (by omega) (by omega)
    · split
      · rw [near_ok small (by omega) (by decide), ok_bind]
        split
        · rw [near_ok small (by omega) (by decide), ok_bind]
          rfl
        · rfl
      · rfl

theorem skipQuestions_ok (rounds count pos : Nat) (enough : data.length < rounds) :
    skipQuestions data rounds count pos = .ok (Dns.skipQuestions data count pos) := by
  induction count generalizing pos with
  | zero => rfl
  | succ count ih =>
    rw [skipQuestions, Dns.skipQuestions, skipName_ok small rounds pos (by omega) (by omega), ok_bind]
    cases found : Dns.skipName data pos with
    | none => rfl
    | some after =>
      have bound := (Dns.skipName_bounds data pos after found).2
      simp only [near_ok small bound (by decide : 4 ≤ 65535), ok_bind, Option.bind_eq_bind, Option.bind_some]
      split
      · rfl
      · exact ih _

theorem answerRecords_ok (rounds count pos : Nat) (enough : data.length < rounds) :
    answerRecords data rounds count pos = .ok (Dns.answerRecords data count pos) := by
  induction count generalizing pos with
  | zero => rfl
  | succ count ih =>
    rw [answerRecords, Dns.answerRecords, skipName_ok small rounds pos (by omega) (by omega), ok_bind]
    cases found : Dns.skipName data pos with
    | none => rfl
    | some after =>
      have bound := (Dns.skipName_bounds data pos after found).2
      have ten := near_ok small bound (by decide : 10 ≤ 65535)
      have eight := near_ok small bound (by decide : 8 ≤ 65535)
      have two := near_ok small bound (by decide : 2 ≤ 65535)
      simp only [ten, ok_bind]
      by_cases short : data.length < after + 10
      · rw [if_pos short, if_pos short]
        rfl
      have rdata := (be16At data (after + 8)).isLt
      rw [if_neg short, if_neg short, wordAt_ok small (by omega), ok_bind, two, ok_bind,
        wordAt_ok small (by omega), ok_bind, eight, ok_bind, wordAt_ok small (by omega), ok_bind]
      have record := @near_ok data small (after + 10) (be16At data (after + 8)).toNat (by omega) (by omega)
      simp only [record, ok_bind]
      by_cases cut : data.length < after + 10 + (be16At data (after + 8)).toNat
      · rw [if_pos cut, if_pos cut]
        rfl
      rw [if_neg cut, if_neg cut]
      split
      · next address =>
        rw [addressAt_ok small (by omega), ok_bind, ih, ok_bind]
        rfl
      · exact ih _

theorem aRecords_ok (rounds : Nat) (enough : data.length < rounds) :
    aRecords data rounds = .ok (Dns.aRecords data) := by
  rw [aRecords, Dns.aRecords]
  split
  · rfl
  next header =>
  have long : 12 ≤ data.length := Nat.le_of_not_lt header
  rw [wordAt_ok small (by omega), ok_bind, wordAt_ok small (by omega), ok_bind,
    skipQuestions_ok small rounds _ _ enough, ok_bind]
  cases Dns.skipQuestions data (be16At data 4).toNat Dns.headerLen with
  | none => rfl
  | some pos => exact answerRecords_ok small rounds _ pos enough

end Reading

/-- Every reader of the split-DNS path comes to its end on the bytes, with what the plain reader gives. -/
structure Survives (data : Bytes) (rounds : Nat) : Prop where
  packet : parseUdpDnsQuery data = .ok (Udp.parseUdpDnsQuery data)
  txid : txid data = .ok (Udp.txid data)
  question : question data = .ok ((Dns.question data).map fun read => (nameText read.1, read.2))
  answers : aRecords data rounds = .ok (Dns.aRecords data)

theorem survives (data : Slice) (rounds : Nat) (enough : data.bytes.length < rounds) :
    Survives data.bytes rounds :=
  ⟨parseUdpDnsQuery_ok data.small, txid_ok, question_eq data.small, aRecords_ok data.small rounds enough⟩

/-- The payload of an accepted packet is shorter than the packet by both headers at least. -/
theorem payload_le {pkt : Bytes} {q : ParsedQuery} (parsed : Udp.parseUdpDnsQuery pkt = some q) :
    ipv4MinHeader + (udpHeader + q.dns.length) ≤ pkt.length ∧ udpHeader + q.dns.length < 65536 := by
  obtain ⟨segment, is, _, _, rfl⟩ := (parseUdpDnsQuery_some pkt q).mp parsed
  refine ⟨?_, is.payload_small⟩
  have header := is.header
  have low := is.low
  have high := is.high
  change _ + (_ + segment.payload.length) ≤ _
  rw [is.payload, List.length_drop, List.length_take]
  omega

theorem buildUdpIpv4_length (src dst : Ipv4Addr) (srcPort dstPort : BitVec 16) (payload : Bytes) :
    (Udp.buildUdpIpv4 src srcPort dst dstPort payload).length = ipv4MinHeader + (udpHeader + payload.length) := by
  rw [Udp.buildUdpIpv4, List.length_append, segment_length, header_length]
  rfl

/-- Packets are built around the payload without a fault, 28 bytes longer than it is. -/
def Builds (payload : Bytes) : Prop :=
  ∀ (src dst : Ipv4Addr) (srcPort dstPort : BitVec 16),
    ∃ pkt, pkt.length = 28 + payload.length ∧
      ∀ rounds, 2 ^ 32 ≤ rounds → Checksum.buildUdpIpv4 rounds src srcPort dst dstPort payload = .ok pkt

theorem builds (payload : Bytes) (small : udpHeader + payload.length < 65536) : Builds payload := by
  intro src dst srcPort dstPort
  refine ⟨Udp.buildUdpIpv4 src srcPort dst dstPort payload, ?_, ?_⟩
  · rw [buildUdpIpv4_length, ← Nat.add_assoc]
    rfl
  · intro rounds enough
    exact Checksum.buildUdpIpv4_ok rounds enough _ _ _ _ _ small

/-- No bytes stop the split-DNS path. Every reader returns on them and on the payload they yield as a
packet; packets are rebuilt from that payload, and from a direct answer of the buffer's size, without
a fault; and what is rebuilt from a packet of at most 65535 bytes has at most 65535 bytes. -/
theorem chinadns_survives (data : Slice) :
    (∀ rounds, data.bytes.length < rounds → Survives data.bytes rounds) ∧
      (data.bytes.length ≤ 1500 → Builds data.bytes) ∧
      ∀ q, Udp.parseUdpDnsQuery data.bytes = some q →
        (∀ rounds, q.dns.length < rounds → Survives q.dns rounds) ∧ Builds q.dns ∧
          (data.bytes.length ≤ 65535 → 28 + q.dns.length ≤ 65535) := by
  refine ⟨fun rounds enough => survives data rounds enough, fun answer => ?_, fun q parsed => ?_⟩
  · apply builds
    unfold udpHeader
    omega
  · obtain ⟨le, fits⟩ := payload_le parsed
    have small : q.dns.length < 2 ^ 63 := by omega
    refine ⟨fun rounds enough => survives ⟨q.dns, small⟩ rounds enough, builds q.dns fits, fun whole => ?_⟩
    unfold ipv4MinHeader udpHeader at le
    omega

end ShadowVpn.Net.Survival
