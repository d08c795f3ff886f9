import ShadowVpn.Net.Ipv4

/-! IPv4/UDP packets of `dns_intercept.rs`: the parser that accepts datagrams to port 53
and the builder of complete packets. -/

namespace ShadowVpn.Net.Udp
open ShadowVpn.Lib.Octets ShadowVpn.Net.Ipv4

def ipprotoUdp : Byte := 17
def ipv4MinHeader : Nat := 20
def udpHeader : Nat := 8
def dnsPort : BitVec 16 := 53

/-- `SocketAddrV4`. -/
structure SocketAddr where
  ip : Ipv4Addr
  port : BitVec 16
  deriving DecidableEq

/-- The addressing and the DNS payload of an ingested query packet. -/
structure ParsedQuery where
  clientIp : Ipv4Addr
  clientPort : BitVec 16
  serverIp : Ipv4Addr
  serverPort : BitVec 16
  dns : Bytes
  deriving DecidableEq

/-- The transaction id: the first two bytes of the message. -/
def txid (dns : Bytes) : Option (BitVec 16) :=
  if dns.length < 2 then none else some (be16At dns 0)

/-- The header length in bytes that the first byte of a packet declares. -/
def ihl (pkt : Bytes) : Nat := (byteAt pkt 0 &&& 0x0f).toNat * 4

def ipAt (pkt : Bytes) (offset : Nat) : Ipv4Addr :=
  ofOctets (byteAt pkt offset) (byteAt pkt (offset + 1)) (byteAt pkt (offset + 2))
    (byteAt pkt (offset + 3))

def parseUdpDnsQuery (pkt : Bytes) : Option ParsedQuery :=
  if pkt.length < ipv4MinHeader then none
  else if byteAt pkt 0 >>> 4 ≠ 4 then none
  else if ihl pkt < ipv4MinHeader ∨ pkt.length < ihl pkt + udpHeader then none
  else if byteAt pkt 9 ≠ ipprotoUdp then none
  else
    let flagsFrag := be16At pkt 6
    let mf := flagsFrag &&& 0x2000 ≠ 0
    let fragOff := flagsFrag &&& 0x1fff
    if mf ∨ fragOff ≠ 0 then none
    else
      let udp := pkt.drop (ihl pkt)
      let dstPort := be16At udp 2
      if dstPort ≠ dnsPort then none
      else
        let udpLen := (be16At udp 4).toNat
        if udpLen < udpHeader ∨ ihl pkt + udpLen > pkt.length then none
        else
          let dns := (udp.take udpLen).drop udpHeader
          if dns = [] then none
          else some ⟨ipAt pkt 12, be16At udp 0, ipAt pkt 16, dstPort, dns⟩

/-- The sum over 16-bit words, a last odd byte counting as the high one. -/
def sumChunks : Bytes → BitVec 32 → BitVec 32
  | high :: low :: rest, sum => sumChunks rest (sum + (be16 high low).setWidth 32)
  | [last], sum => sum + last.setWidth 32 <<< 8
  | [], sum => sum

/-- `while sum >> 16 != 0`: the carries are added back in. -/
def foldCarries (sum : BitVec 32) : BitVec 32 :=
  if sum >>> 16 = 0 then sum else foldCarries ((sum &&& 0xffff#32) + sum >>> 16)
termination_by sum.toNat
decreasing_by
  next carry =>
  have high : (sum >>> 16).toNat = sum.toNat / 2 ^ 16 := by
    rw [BitVec.toNat_ushiftRight, Nat.shiftRight_eq_div_pow]
  have low : (sum &&& 0xffff#32).toNat = sum.toNat % 2 ^ 16 := by
    rw [BitVec.toNat_and]
    exact Nat.and_two_pow_sub_one_eq_mod sum.toNat 16
  have some : sum.toNat / 2 ^ 16 ≠ 0 := by
    intro zero
    apply carry
    apply BitVec.eq_of_toNat_eq
    rw [high, zero]
    rfl
  rw [BitVec.toNat_add, high, low, Nat.mod_eq_of_lt (by omega)]
  omega

/-- The Internet checksum of RFC 1071. -/
def checksum (data : Bytes) : BitVec 16 := ~~~(foldCarries (sumChunks data 0)).setWidth 16

/-- The checksum over the pseudo-header and the UDP segment. -/
def udpChecksum (src dst : Ipv4Addr) (udp : Bytes) : BitVec 16 :=
  let pseudo := sumChunks (octets src ++ octets dst) 0 + ipprotoUdp.setWidth 32 +
    BitVec.ofNat 32 udp.length
  ~~~(foldCarries (sumChunks udp pseudo)).setWidth 16

def ipv4HeaderBytes (src dst : Ipv4Addr) (totalLen : Nat) (csum : BitVec 16) : Bytes :=
  [0x45, 0x00] ++ bytes16 (BitVec.ofNat 16 totalLen) ++ bytes16 0 ++ bytes16 0x4000 ++
    [64, ipprotoUdp] ++ bytes16 csum ++ octets src ++ octets dst

def udpSegment (srcPort dstPort csum : BitVec 16) (payload : Bytes) : Bytes :=
  bytes16 srcPort ++ bytes16 dstPort ++ bytes16 (BitVec.ofNat 16 (udpHeader + payload.length)) ++
    bytes16 csum ++ payload

/-- A complete packet around `payload`; a computed UDP checksum of zero is sent as 0xFFFF. -/
def buildUdpIpv4 (srcIp : Ipv4Addr) (srcPort : BitVec 16) (dstIp : Ipv4Addr) (dstPort : BitVec 16)
    (payload : Bytes) : Bytes :=
  let totalLen := ipv4MinHeader + (udpHeader + payload.length)
  let ipCsum := checksum (ipv4HeaderBytes srcIp dstIp totalLen 0)
  let udpCsum := udpChecksum srcIp dstIp (udpSegment srcPort dstPort 0 payload)
  let udpCsum := if udpCsum = 0 then 0xffff else udpCsum
  ipv4HeaderBytes srcIp dstIp totalLen ipCsum ++ udpSegment srcPort dstPort udpCsum payload

/-- What an unfragmented IPv4/UDP packet carries. -/
structure Segment where
  src : SocketAddr
  dst : SocketAddr
  payload : Bytes

/-- `pkt` is an unfragmented IPv4/UDP packet with this content. -/
structure IsUdp (pkt : Bytes) (segment : Segment) : Prop where
  version : byteAt pkt 0 >>> 4 = 4
  header : ipv4MinHeader ≤ ihl pkt
  room : ihl pkt + udpHeader ≤ pkt.length
  protocol : byteAt pkt 9 = ipprotoUdp
  whole : be16At pkt 6 &&& 0x2000 = 0 ∧ be16At pkt 6 &&& 0x1fff = 0
  source : segment.src = ⟨ipAt pkt 12, be16At (pkt.drop (ihl pkt)) 0⟩
  destination : segment.dst = ⟨ipAt pkt 16, be16At (pkt.drop (ihl pkt)) 2⟩
  low : udpHeader ≤ (be16At (pkt.drop (ihl pkt)) 4).toNat
  high : ihl pkt + (be16At (pkt.drop (ihl pkt)) 4).toNat ≤ pkt.length
  payload : segment.payload =
    ((pkt.drop (ihl pkt)).take (be16At (pkt.drop (ihl pkt)) 4).toNat).drop udpHeader

/-- The parser accepts the non-empty datagrams to port 53 and reads them as they are. -/
theorem parseUdpDnsQuery_some (pkt : Bytes) (q : ParsedQuery) :
    parseUdpDnsQuery pkt = some q ↔ ∃ segment, IsUdp pkt segment ∧ segment.dst.port = dnsPort ∧
      segment.payload ≠ [] ∧
      q = ⟨segment.src.ip, segment.src.port, segment.dst.ip, segment.dst.port, segment.payload⟩ := by
  constructor
  · intro parsed
    simp only [parseUdpDnsQuery, Option.ite_none_left_eq_some, Option.some.injEq, not_or,
      Decidable.not_not] at parsed
    obtain ⟨_, version, ⟨header, room⟩, protocol, whole, port, ⟨low, high⟩, nonempty, same⟩ := parsed
    refine ⟨⟨⟨ipAt pkt 12, be16At (pkt.drop (ihl pkt)) 0⟩,
      ⟨ipAt pkt 16, be16At (pkt.drop (ihl pkt)) 2⟩, _⟩,
      ⟨version, by omega, by omega, protocol, whole, rfl, rfl, by omega, by omega, rfl⟩,
      port, nonempty, same.symm⟩
  · rintro ⟨segment, is, port, nonempty, same⟩
    have header := is.header
    have room := is.room
    have low := is.low
    have high := is.high
    rw [is.destination] at port
    rw [is.payload] at nonempty
    have fits : ¬pkt.length < ipv4MinHeader := by
      have big : ipv4MinHeader = 20 := rfl
      omega
    subst same
    simp only [parseUdpDnsQuery, Option.ite_none_left_eq_some, Option.some.injEq, not_or,
      Decidable.not_not]
    refine ⟨fits, is.version, ⟨by omega, by omega⟩, is.protocol, is.whole, port,
      ⟨by omega, by omega⟩, nonempty, ?_⟩
    rw [is.source, is.destination, is.payload]

/-- A packet has one reading. -/
theorem IsUdp.unique {pkt : Bytes} {one two : Segment} (first : IsUdp pkt one)
    (second : IsUdp pkt two) : one = two := by
  cases one
  cases two
  simp only [Segment.mk.injEq]
  exact ⟨first.source.trans second.source.symm, first.destination.trans second.destination.symm,
    first.payload.trans second.payload.symm⟩

section Built

variable (src dst : Ipv4Addr) (totalLen : Nat) (csum : BitVec 16) (rest : Bytes)

theorem header_first : byteAt (ipv4HeaderBytes src dst totalLen csum ++ rest) 0 = 0x45 := rfl

theorem header_ihl : ihl (ipv4HeaderBytes src dst totalLen csum ++ rest) = 20 := by
  rw [ihl, header_first]
  rfl

theorem header_flags : be16At (ipv4HeaderBytes src dst totalLen csum ++ rest) 6 = 0x4000 :=
  be16_bytes16 0x4000

theorem header_protocol :
    byteAt (ipv4HeaderBytes src dst totalLen csum ++ rest) 9 = ipprotoUdp := rfl

theorem header_source : ipAt (ipv4HeaderBytes src dst totalLen csum ++ rest) 12 = src :=
  ofOctets_octets src

theorem header_destination : ipAt (ipv4HeaderBytes src dst totalLen csum ++ rest) 16 = dst :=
  ofOctets_octets dst

theorem header_drop : (ipv4HeaderBytes src dst totalLen csum ++ rest).drop 20 = rest := rfl

theorem header_length : (ipv4HeaderBytes src dst totalLen csum).length = 20 := rfl

end Built

section Segments

variable (srcPort dstPort csum : BitVec 16) (payload : Bytes)

theorem segment_source : be16At (udpSegment srcPort dstPort csum payload) 0 = srcPort :=
  be16_bytes16 srcPort

theorem segment_destination : be16At (udpSegment srcPort dstPort csum payload) 2 = dstPort :=
  be16_bytes16 dstPort

theorem segment_length_field : be16At (udpSegment srcPort dstPort csum payload) 4 =
    BitVec.ofNat 16 (udpHeader + payload.length) :=
  be16_bytes16 _

theorem segment_length :
    (udpSegment srcPort dstPort csum payload).length = udpHeader + payload.length := by
  simp only [udpSegment, List.length_append, bytes16_length, udpHeader]

theorem segment_payload : (udpSegment srcPort dstPort csum payload).drop udpHeader = payload := rfl

end Segments

/-- A built packet carries its payload between the given ends. -/
theorem buildUdpIpv4_isUdp (src dst : SocketAddr) (payload : Bytes)
    (small : udpHeader + payload.length < 65536) :
    IsUdp (buildUdpIpv4 src.ip src.port dst.ip dst.port payload) ⟨src, dst, payload⟩ := by
  obtain ⟨ipCsum, udpCsum, shape⟩ : ∃ ipCsum udpCsum,
      buildUdpIpv4 src.ip src.port dst.ip dst.port payload =
        ipv4HeaderBytes src.ip dst.ip (ipv4MinHeader + (udpHeader + payload.length)) ipCsum ++
          udpSegment src.port dst.port udpCsum payload := ⟨_, _, rfl⟩
  have lengthField : (be16At (udpSegment src.port dst.port udpCsum payload) 4).toNat =
      udpHeader + payload.length := by
    rw [segment_length_field, BitVec.toNat_ofNat, Nat.mod_eq_of_lt small]
  rw [shape]
  constructor
  · rw [header_first]
    rfl
  · rw [header_ihl]
    exact Nat.le_refl _
  · rw [header_ihl, List.length_append, segment_length, header_length]
    omega
  · exact header_protocol ..
  · rw [header_flags]
    exact ⟨rfl, rfl⟩
  · rw [header_ihl, header_drop, header_source, segment_source]
  · rw [header_ihl, header_drop, header_destination, segment_destination]
  · rw [header_ihl, header_drop, lengthField]
    omega
  · rw [header_ihl, header_drop, lengthField, List.length_append, segment_length, header_length]
  · rw [header_ihl, header_drop, lengthField, ← segment_length src.port dst.port udpCsum,
      List.take_length, segment_payload]

/-- The payload of a packet fits a packet again. -/
theorem IsUdp.payload_small {pkt : Bytes} {segment : Segment} (is : IsUdp pkt segment) :
    udpHeader + segment.payload.length < 65536 := by
  have low := is.low
  have bound := (be16At (pkt.drop (ihl pkt)) 4).isLt
  rw [is.payload, List.length_drop, List.length_take]
  omega

end ShadowVpn.Net.Udp
