import ShadowVpn.Lib.OnesComplement
import ShadowVpn.Lib.Panic
import ShadowVpn.Net.Udp

/-! The packet builder of `dns_intercept.rs` with everything that could stop it: the writes into the
packet, the sums of lengths and the 32-bit accumulators of the two checksums. What it builds verifies. -/

namespace ShadowVpn.Net.Checksum
open ShadowVpn.Lib.Octets ShadowVpn.Lib.Panic ShadowVpn.Lib.OnesComplement ShadowVpn.Net.Ipv4 ShadowVpn.Net.Udp

/-- `pkt[start..stop].copy_from_slice(part)`; one byte stands for an indexed assignment. -/
structure Write where
  start : Nat
  stop : Nat
  part : Bytes

def Write.run (write : Write) (pkt : Bytes) : Checked Bytes :=
  if write.start ≤ write.stop ∧ write.stop ≤ pkt.length ∧ write.part.length = write.stop - write.start then
    .ok (pkt.take write.start ++ write.part ++ pkt.drop write.stop)
  else .error .range

def writeAll : List Write → Bytes → Checked Bytes
  | [], pkt => .ok pkt
  | write :: rest, pkt => do
    let pkt ← write.run pkt
    writeAll rest pkt

/-- `sum += term` on `u32`. -/
def addTo (sum term : BitVec 32) : Checked (BitVec 32) :=
  if sum.toNat + term.toNat < 2 ^ 32 then .ok (sum + term) else .error .overflow

/-- The loop over the chunks of two bytes and the remainder. -/
def sumChunks : Bytes → BitVec 32 → Checked (BitVec 32)
  | high :: low :: rest, sum => do
    let sum ← addTo sum ((be16 high low).setWidth 32)
    sumChunks rest sum
  | [last], sum => addTo sum (last.setWidth 32 <<< 8)
  | [], sum => .ok sum

/-- The folding loop; every round makes the sum smaller. -/
def foldCarries : (rounds : Nat) → BitVec 32 → Checked (BitVec 32)
  | 0, _ => .error .rounds
  | rounds + 1, sum =>
    if sum >>> 16 = 0 then .ok sum
    else do
      let sum ← addTo (sum &&& 0xffff#32) (sum >>> 16)
      foldCarries rounds sum

def checksum (rounds : Nat) (data : Bytes) : Checked (BitVec 16) := do
  let sum ← sumChunks data 0
  let sum ← foldCarries rounds sum
  return ~~~sum.setWidth 16

def udpChecksum (rounds : Nat) (src dst : Ipv4Addr) (udp : Bytes) : Checked (BitVec 16) := do
  let sum ← sumChunks (octets src ++ octets dst) 0
  let sum ← addTo sum (ipprotoUdp.setWidth 32)
  let sum ← addTo sum (BitVec.ofNat 32 udp.length)
  let sum ← sumChunks udp sum
  let sum ← foldCarries rounds sum
  return ~~~sum.setWidth 16

def headerWrites (srcIp dstIp : Ipv4Addr) (totalLen : Nat) : List Write :=
  [⟨0, 1, [0x45]⟩, ⟨1, 2, [0x00]⟩, ⟨2, 4, bytes16 (BitVec.ofNat 16 totalLen)⟩, ⟨4, 6, bytes16 0⟩,
    ⟨6, 8, bytes16 0x4000⟩, ⟨8, 9, [64]⟩, ⟨9, 10, [ipprotoUdp]⟩, ⟨12, 16, octets srcIp⟩,
    ⟨16, 20, octets dstIp⟩]

def segmentWrites (ipCsum srcPort dstPort : BitVec 16) (udpLen : Nat) : List Write :=
  [⟨10, 12, bytes16 ipCsum⟩, ⟨20, 22, bytes16 srcPort⟩, ⟨22, 24, bytes16 dstPort⟩,
    ⟨24, 26, bytes16 (BitVec.ofNat 16 udpLen)⟩]

def buildUdpIpv4 (rounds : Nat) (srcIp : Ipv4Addr) (srcPort : BitVec 16) (dstIp : Ipv4Addr)
    (dstPort : BitVec 16) (payload : Bytes) : Checked Bytes := do
  let udpLen ← add udpHeader payload.length
  let totalLen ← add ipv4MinHeader udpLen
  let pkt ← writeAll (headerWrites srcIp dstIp totalLen) (List.replicate totalLen 0)
  let header ← slice pkt 0 ipv4MinHeader
  let ipCsum ← checksum rounds header
  let pkt ← writeAll (segmentWrites ipCsum srcPort dstPort udpLen) pkt
  let pkt ← writeAll [⟨28, pkt.length, payload⟩] pkt
  let segment ← slice pkt ipv4MinHeader pkt.length
  let udpCsum ← udpChecksum rounds srcIp dstIp segment
  let udpCsum := if udpCsum = 0 then 0xffff else udpCsum
  writeAll [⟨26, 28, bytes16 udpCsum⟩] pkt

/-! ### The accumulators -/

theorem addTo_ok {sum term : BitVec 32} (small : sum.toNat + term.toNat < 2 ^ 32) :
    addTo sum term = .ok (sum + term) := if_pos small

theorem add_toNat {sum term : BitVec 32} (small : sum.toNat + term.toNat < 2 ^ 32) :
    (sum + term).toNat = sum.toNat + term.toNat := by
  rw [BitVec.toNat_add, Nat.mod_eq_of_lt small]

theorem word_toNat (high low : Byte) :
    ((be16 high low).setWidth 32).toNat = high.toNat * 256 + low.toNat := by
  have first := high.isLt
  have second := low.isLt
  rw [BitVec.toNat_setWidth, be16_toNat, Nat.mod_eq_of_lt (by omega)]

theorem odd_toNat (last : Byte) : (last.setWidth 32 <<< 8).toNat = last.toNat * 256 := by
  have bound := last.isLt
  rw [BitVec.toNat_shiftLeft, BitVec.toNat_setWidth, Nat.shiftLeft_eq, Nat.mod_eq_of_lt (by omega),
    Nat.mod_eq_of_lt (by omega)]

/-- While the words fit, the loop adds them up without overflow. -/
theorem sumChunks_ok (data : Bytes) (sum : BitVec 32) (small : sum.toNat + wordSum data < 2 ^ 32) :
    sumChunks data sum = .ok (Udp.sumChunks data sum) ∧
      (Udp.sumChunks data sum).toNat = sum.toNat + wordSum data := by
  induction data using wordSum.induct generalizing sum with
  | case1 high low rest ih =>
    rw [wordSum] at small ⊢
    have word := word_toNat high low
    have fits : sum.toNat + ((be16 high low).setWidth 32).toNat < 2 ^ 32 := by omega
    have next := add_toNat fits
    obtain ⟨same, value⟩ := ih (sum + (be16 high low).setWidth 32) (by omega)
    rw [sumChunks, addTo_ok fits, ok_bind, same, Udp.sumChunks, value, next]
    exact ⟨rfl, by omega⟩
  | case2 last =>
    rw [wordSum] at small ⊢
    have word := odd_toNat last
    have fits : sum.toNat + (last.setWidth 32 <<< 8).toNat < 2 ^ 32 := by omega
    rw [sumChunks, addTo_ok fits, Udp.sumChunks, add_toNat fits, word]
    exact ⟨rfl, rfl⟩
  | case3 => exact ⟨rfl, rfl⟩

theorem high_toNat (sum : BitVec 32) : (sum >>> 16).toNat = sum.toNat / 65536 := by
  rw [BitVec.toNat_ushiftRight, Nat.shiftRight_eq_div_pow]

theorem low_toNat (sum : BitVec 32) : (sum &&& 0xffff#32).toNat = sum.toNat % 65536 := by
  rw [BitVec.toNat_and]
  exact Nat.and_two_pow_sub_one_eq_mod sum.toNat 16

theorem high_zero_iff (sum : BitVec 32) : sum >>> 16 = 0 ↔ sum.toNat < 65536 := by
  rw [← BitVec.toNat_inj, high_toNat]
  change sum.toNat / 65536 = 0 ↔ _
  omega

theorem foldCarries_toNat (sum : BitVec 32) : (Udp.foldCarries sum).toNat = fold sum.toNat := by
  induction sum using Udp.foldCarries.induct with
  | case1 sum zero =>
    rw [Udp.foldCarries, if_pos zero, fold, if_pos ((high_zero_iff sum).mp zero)]
  | case2 sum carry ih =>
    have large : ¬sum.toNat < 65536 := mt (high_zero_iff sum).mpr carry
    have bound := sum.isLt
    rw [Udp.foldCarries, if_neg carry, ih, fold_carry _ large,
      add_toNat (by rw [low_toNat, high_toNat]; omega), low_toNat, high_toNat]

/-- The folding loop comes to its end; the carries never overflow. -/
theorem foldCarries_ok (rounds : Nat) (sum : BitVec 32) (enough : sum.toNat < rounds) :
    foldCarries rounds sum = .ok (Udp.foldCarries sum) := by
  induction rounds generalizing sum with
  | zero => omega
  | succ rounds ih =>
    rw [foldCarries, Udp.foldCarries]
    by_cases zero : sum >>> 16 = 0
    · rw [if_pos zero, if_pos zero]
    · have large : ¬sum.toNat < 65536 := mt (high_zero_iff sum).mpr zero
      have bound := sum.isLt
      have fits : (sum &&& 0xffff#32).toNat + (sum >>> 16).toNat < 2 ^ 32 := by
        rw [low_toNat, high_toNat]
        omega
      rw [if_neg zero, if_neg zero, addTo_ok fits, ok_bind]
      apply ih
      rw [add_toNat fits, low_toNat, high_toNat]
      omega

theorem complement_toNat (sum : BitVec 32) :
    (~~~(Udp.foldCarries sum).setWidth 16).toNat = 65535 - fold sum.toNat := by
  have lt := fold_lt sum.toNat
  rw [BitVec.toNat_not, BitVec.toNat_setWidth, foldCarries_toNat, Nat.mod_eq_of_lt lt]

theorem zero_toNat : (0 : BitVec 32).toNat = 0 := rfl

theorem checksum_ok (rounds : Nat) (enough : 2 ^ 32 ≤ rounds) (data : Bytes) (small : wordSum data < 2 ^ 32) :
    checksum rounds data = .ok (Udp.checksum data) ∧
      (Udp.checksum data).toNat = 65535 - fold (wordSum data) := by
  obtain ⟨same, value⟩ := sumChunks_ok data 0 (by rw [zero_toNat]; omega)
  have bound := (Udp.sumChunks data 0).isLt
  rw [zero_toNat, Nat.zero_add] at value
  constructor
  · rw [checksum, same, ok_bind, foldCarries_ok rounds _ (by omega), ok_bind]
    rfl
  · rw [Udp.checksum, complement_toNat, value]

theorem addresses_length (src dst : Ipv4Addr) : (octets src ++ octets dst).length = 8 := rfl

/-- Addresses, a zero byte, the protocol and the length of the segment. -/
def pseudoHeader (src dst : Ipv4Addr) (length : Nat) : Bytes :=
  octets src ++ octets dst ++ [0, ipprotoUdp] ++ bytes16 (BitVec.ofNat 16 length)

theorem pseudoHeader_length (src dst : Ipv4Addr) (length : Nat) :
    (pseudoHeader src dst length).length = 12 := rfl

theorem wordSum_pseudoHeader (src dst : Ipv4Addr) (length : Nat) (small : length < 65536) :
    wordSum (pseudoHeader src dst length) = wordSum (octets src ++ octets dst) + 17 + length := by
  have protocol : wordSum [0, ipprotoUdp] = 17 := by decide
  have number : (BitVec.ofNat 16 length).toNat = length := by
    rw [BitVec.toNat_ofNat, Nat.mod_eq_of_lt small]
  have even : (octets src ++ octets dst ++ [0, ipprotoUdp]).length % 2 = 0 := by
    rw [List.length_append, addresses_length]
    rfl
  rw [pseudoHeader, wordSum_append _ _ even, wordSum_append _ _ (by rw [addresses_length]), protocol,
    wordSum_bytes16, number]

theorem udpChecksum_ok (rounds : Nat) (enough : 2 ^ 32 ≤ rounds) (src dst : Ipv4Addr) (udp : Bytes)
    (small : udp.length < 65536) :
    udpChecksum rounds src dst udp = .ok (Udp.udpChecksum src dst udp) ∧
      (Udp.udpChecksum src dst udp).toNat =
        65535 - fold (wordSum (pseudoHeader src dst udp.length ++ udp)) := by
  have octetSum := wordSum_le (octets src ++ octets dst)
  rw [addresses_length] at octetSum
  have dataSum := wordSum_le udp
  have protocol : (ipprotoUdp.setWidth 32).toNat = 17 := rfl
  have number : (BitVec.ofNat 32 udp.length).toNat = udp.length := by
    rw [BitVec.toNat_ofNat, Nat.mod_eq_of_lt (by omega)]
  obtain ⟨first, firstValue⟩ := sumChunks_ok (octets src ++ octets dst) 0 (by rw [zero_toNat]; omega)
  rw [zero_toNat, Nat.zero_add] at firstValue
  have second : (Udp.sumChunks (octets src ++ octets dst) 0).toNat + (ipprotoUdp.setWidth 32).toNat < 2 ^ 32 := by
    omega
  have secondValue := add_toNat second
  have third : (Udp.sumChunks (octets src ++ octets dst) 0 + ipprotoUdp.setWidth 32).toNat +
      (BitVec.ofNat 32 udp.length).toNat < 2 ^ 32 := by
    omega
  have thirdValue := add_toNat third
  obtain ⟨fourth, fourthValue⟩ := sumChunks_ok udp
    (Udp.sumChunks (octets src ++ octets dst) 0 + ipprotoUdp.setWidth 32 + BitVec.ofNat 32 udp.length) (by omega)
  have bound := (Udp.sumChunks udp (Udp.sumChunks (octets src ++ octets dst) 0 + ipprotoUdp.setWidth 32 +
    BitVec.ofNat 32 udp.length)).isLt
  constructor
  · rw [udpChecksum, first, ok_bind, addTo_ok second, ok_bind, addTo_ok third, ok_bind, fourth, ok_bind,
      foldCarries_ok rounds _ (by omega), ok_bind]
    rfl
  · have total : wordSum (pseudoHeader src dst udp.length ++ udp) =
        wordSum (octets src ++ octets dst) + 17 + udp.length + wordSum udp := by
      rw [wordSum_append _ _ (by rw [pseudoHeader_length]), wordSum_pseudoHeader _ _ _ small]
    rw [Udp.udpChecksum, complement_toNat, total]
    congr 2
    omega

/-! ### The writes -/

/-- Writes that stay in the front part leave the rest alone. -/
theorem writeAll_front (writes : List Write) (front back : Bytes) {out : Bytes}
    (done : writeAll writes front = .ok out) : writeAll writes (front ++ back) = .ok (out ++ back) := by
  induction writes generalizing front with
  | nil =>
    obtain rfl := Except.ok.inj done
    rfl
  | cons write rest ih =>
    rw [writeAll] at done ⊢
    by_cases fits : write.start ≤ write.stop ∧ write.stop ≤ front.length ∧
        write.part.length = write.stop - write.start
    · have wide : write.start ≤ write.stop ∧ write.stop ≤ (front ++ back).length ∧
          write.part.length = write.stop - write.start := by
        rw [List.length_append]
        omega
      rw [Write.run, if_pos fits, ok_bind] at done
      rw [Write.run, if_pos wide, ok_bind, List.take_append_of_le_length (by omega),
        List.drop_append_of_le_length (by omega), ← List.append_assoc]
      exact ih _ done
    · rw [Write.run, if_neg fits] at done
      cases done

/-- A write over the whole rest of the packet. -/
theorem writeAll_back (front back part : Bytes) (stop : Nat) (whole : stop = (front ++ back).length)
    (same : part.length = back.length) :
    writeAll [⟨front.length, stop, part⟩] (front ++ back) = .ok (front ++ part) := by
  have fits : front.length ≤ stop ∧ stop ≤ (front ++ back).length ∧ part.length = stop - front.length := by
    rw [List.length_append] at whole ⊢
    omega
  have last : (front ++ back).drop stop = [] := List.drop_eq_nil_of_le (Nat.le_of_eq whole.symm)
  rw [writeAll, Write.run, if_pos fits, ok_bind, writeAll]
  dsimp only
  rw [List.take_left, last, List.append_nil]

/-- The first eight bytes of a segment. -/
def udpHeaderBytes (srcPort dstPort : BitVec 16) (udpLen : Nat) (csum : BitVec 16) : Bytes :=
  bytes16 srcPort ++ bytes16 dstPort ++ bytes16 (BitVec.ofNat 16 udpLen) ++ bytes16 csum

theorem headerWrites_ok (srcIp dstIp : Ipv4Addr) (totalLen : Nat) :
    writeAll (headerWrites srcIp dstIp totalLen) (List.replicate 20 0) =
      .ok (ipv4HeaderBytes srcIp dstIp totalLen 0) := by
  simp [writeAll, headerWrites, Write.run, List.replicate, bytes16, octets, ipv4HeaderBytes, ok_bind]

theorem segmentWrites_ok (srcIp dstIp : Ipv4Addr) (totalLen udpLen : Nat) (ipCsum srcPort dstPort : BitVec 16) :
    writeAll (segmentWrites ipCsum srcPort dstPort udpLen)
        (ipv4HeaderBytes srcIp dstIp totalLen 0 ++ List.replicate 8 0) =
      .ok (ipv4HeaderBytes srcIp dstIp totalLen ipCsum ++ udpHeaderBytes srcPort dstPort udpLen 0) := by
  simp [writeAll, segmentWrites, Write.run, List.replicate, bytes16, octets, ipv4HeaderBytes, udpHeaderBytes, ok_bind]

theorem lastWrite_ok (srcIp dstIp : Ipv4Addr) (totalLen udpLen : Nat) (ipCsum srcPort dstPort csum : BitVec 16) :
    writeAll [⟨26, 28, bytes16 csum⟩]
        (ipv4HeaderBytes srcIp dstIp totalLen ipCsum ++ udpHeaderBytes srcPort dstPort udpLen 0) =
      .ok (ipv4HeaderBytes srcIp dstIp totalLen ipCsum ++ udpHeaderBytes srcPort dstPort udpLen csum) := by
  simp [writeAll, Write.run, bytes16, octets, ipv4HeaderBytes, udpHeaderBytes, ok_bind]

/-- Nothing stops the builder while the segment fits its length field. -/
theorem buildUdpIpv4_ok (rounds : Nat) (enough : 2 ^ 32 ≤ rounds) (srcIp : Ipv4Addr) (srcPort : BitVec 16)
    (dstIp : Ipv4Addr) (dstPort : BitVec 16) (payload : Bytes) (small : udpHeader + payload.length < 65536) :
    buildUdpIpv4 rounds srcIp srcPort dstIp dstPort payload =
      .ok (Udp.buildUdpIpv4 srcIp srcPort dstIp dstPort payload) := by
  have udpLen : udpHeader + payload.length < usizeEnd := Nat.lt_trans small (by decide)
  have totalLen : ipv4MinHeader + (udpHeader + payload.length) < usizeEnd := by
    unfold usizeEnd ipv4MinHeader
    omega
  let total := ipv4MinHeader + (udpHeader + payload.length)
  let ipCsum := Udp.checksum (ipv4HeaderBytes srcIp dstIp total 0)
  let segment := udpSegment srcPort dstPort 0 payload
  have segmentLen : segment.length = udpHeader + payload.length := segment_length ..
  have zeros : List.replicate total (0 : Byte) =
      List.replicate 20 0 ++ (List.replicate 8 0 ++ List.replicate payload.length 0) := by
    rw [List.replicate_append_replicate, List.replicate_append_replicate]
    rfl
  have header := writeAll_front _ _ (List.replicate 8 0 ++ List.replicate payload.length 0)
    (headerWrites_ok srcIp dstIp total)
  have front : slice (ipv4HeaderBytes srcIp dstIp total 0 ++
      (List.replicate 8 0 ++ List.replicate payload.length 0)) 0 ipv4MinHeader =
        .ok (ipv4HeaderBytes srcIp dstIp total 0) := by
    rw [slice_ok (Nat.zero_le _) (by rw [List.length_append, header_length]; exact Nat.le_add_right _ _)]
    rfl
  have csum := (checksum_ok rounds enough (ipv4HeaderBytes srcIp dstIp total 0)
    (Nat.lt_of_le_of_lt (wordSum_le _) (by rw [header_length]; decide))).1
  have ports := writeAll_front _ _ (List.replicate payload.length 0)
    (segmentWrites_ok srcIp dstIp total (udpHeader + payload.length) ipCsum srcPort dstPort)
  let head := ipv4HeaderBytes srcIp dstIp total ipCsum ++
    udpHeaderBytes srcPort dstPort (udpHeader + payload.length) 0
  have body : writeAll [⟨28, (head ++ List.replicate payload.length 0).length, payload⟩]
      (head ++ List.replicate payload.length 0) = .ok (head ++ payload) :=
    writeAll_back head _ payload _ rfl (List.length_replicate).symm
  have whole : head ++ payload = ipv4HeaderBytes srcIp dstIp total ipCsum ++ segment := rfl
  have back : slice (head ++ payload) ipv4MinHeader (head ++ payload).length = .ok segment := by
    rw [whole, slice_ok (by rw [List.length_append, header_length]; exact Nat.le_add_right _ _) (Nat.le_refl _)]
    change Except.ok (segment.take _) = _
    rw [List.take_of_length_le (by rw [List.length_append, header_length]; unfold ipv4MinHeader; omega)]
  have sum := (udpChecksum_ok rounds enough srcIp dstIp segment (by omega)).1
  have last := fun csum => writeAll_front _ _ payload
    (lastWrite_ok srcIp dstIp total (udpHeader + payload.length) ipCsum srcPort dstPort csum)
  rw [buildUdpIpv4, add_ok udpLen, ok_bind, add_ok totalLen, ok_bind, zeros, header, ok_bind, front, ok_bind,
    csum, ok_bind, ← List.append_assoc, ports, ok_bind, body, ok_bind, back, ok_bind, sum, ok_bind]
  exact last _

/-- What a receiver checks of a packet without options: the two lengths and the two checksums. -/
structure Valid (pkt : Bytes) : Prop where
  totalLength : (be16At pkt 2).toNat = pkt.length
  udpLength : (be16At (pkt.drop ipv4MinHeader) 4).toNat = (pkt.drop ipv4MinHeader).length
  header : Verifies (pkt.take ipv4MinHeader)
  present : be16At (pkt.drop ipv4MinHeader) 6 ≠ 0
  segment : Verifies (pseudoHeader (ipAt pkt 12) (ipAt pkt 16) (pkt.drop ipv4MinHeader).length ++
    pkt.drop ipv4MinHeader)

theorem header_verifies (srcIp dstIp : Ipv4Addr) (totalLen : Nat) :
    Verifies (ipv4HeaderBytes srcIp dstIp totalLen (Udp.checksum (ipv4HeaderBytes srcIp dstIp totalLen 0))) := by
  let front : Bytes := [0x45, 0x00] ++ bytes16 (BitVec.ofNat 16 totalLen) ++ bytes16 0 ++ bytes16 0x4000 ++
    [64, ipprotoUdp]
  have even : front.length % 2 = 0 := by
    rw [show front.length = 10 by rfl]
  have shape : ∀ csum, ipv4HeaderBytes srcIp dstIp totalLen csum =
      front ++ bytes16 csum ++ (octets srcIp ++ octets dstIp) := by
    intro csum
    rw [← List.append_assoc]
    rfl
  have value := (checksum_ok (2 ^ 32) (Nat.le_refl _) (ipv4HeaderBytes srcIp dstIp totalLen 0)
    (Nat.lt_of_le_of_lt (wordSum_le _) (by rw [header_length]; decide))).2
  rw [shape 0] at value
  rw [shape, shape 0]
  exact verifies_stored front (octets srcIp ++ octets dstIp) even _ value

theorem segment_verifies (srcIp dstIp : Ipv4Addr) (srcPort dstPort : BitVec 16) (payload : Bytes)
    (small : udpHeader + payload.length < 65536) :
    Verifies (pseudoHeader srcIp dstIp (udpHeader + payload.length) ++ udpSegment srcPort dstPort
      (if Udp.udpChecksum srcIp dstIp (udpSegment srcPort dstPort 0 payload) = 0 then 0xffff
        else Udp.udpChecksum srcIp dstIp (udpSegment srcPort dstPort 0 payload)) payload) := by
  let front : Bytes := pseudoHeader srcIp dstIp (udpHeader + payload.length) ++
    (bytes16 srcPort ++ bytes16 dstPort ++ bytes16 (BitVec.ofNat 16 (udpHeader + payload.length)))
  have even : front.length % 2 = 0 := by
    rw [show front.length = 18 by rfl]
  have shape : ∀ csum, pseudoHeader srcIp dstIp (udpHeader + payload.length) ++
      udpSegment srcPort dstPort csum payload = front ++ bytes16 csum ++ payload := by
    intro csum
    simp only [front, udpSegment, List.append_assoc]
  have value := (udpChecksum_ok (2 ^ 32) (Nat.le_refl _) srcIp dstIp (udpSegment srcPort dstPort 0 payload)
    (by rw [segment_length]; exact small)).2
  rw [segment_length, shape 0] at value
  rw [shape]
  exact verifies_stored_nonzero front payload even _ value

theorem buildUdpIpv4_valid (src dst : SocketAddr) (payload : Bytes)
    (small : ipv4MinHeader + (udpHeader + payload.length) < 65536) :
    Valid (Udp.buildUdpIpv4 src.ip src.port dst.ip dst.port payload) := by
  let udpCsum := Udp.udpChecksum src.ip dst.ip (udpSegment src.port dst.port 0 payload)
  let total := ipv4MinHeader + (udpHeader + payload.length)
  let ipCsum := Udp.checksum (ipv4HeaderBytes src.ip dst.ip total 0)
  let segment := udpSegment src.port dst.port (if udpCsum = 0 then 0xffff else udpCsum) payload
  have fits : udpHeader + payload.length < 65536 := Nat.lt_of_le_of_lt (Nat.le_add_left _ _) small
  have shape : Udp.buildUdpIpv4 src.ip src.port dst.ip dst.port payload =
      ipv4HeaderBytes src.ip dst.ip total ipCsum ++ segment := rfl
  have length : segment.length = udpHeader + payload.length := segment_length ..
  have drop : (ipv4HeaderBytes src.ip dst.ip total ipCsum ++ segment).drop ipv4MinHeader = segment := rfl
  rw [shape]
  constructor
  · have field : be16At (ipv4HeaderBytes src.ip dst.ip total ipCsum ++ segment) 2 = BitVec.ofNat 16 total :=
      be16_bytes16 _
    rw [field, BitVec.toNat_ofNat, Nat.mod_eq_of_lt small, List.length_append, length, header_length]
    rfl
  · rw [drop, segment_length_field, BitVec.toNat_ofNat, Nat.mod_eq_of_lt fits, length]
  · exact header_verifies src.ip dst.ip total
  · have field : be16At segment 6 = if udpCsum = 0 then 0xffff else udpCsum := be16_bytes16 _
    rw [drop, field]
    by_cases zero : udpCsum = 0
    · rw [if_pos zero]
      decide
    · rw [if_neg zero]
      exact zero
  · rw [drop, header_source, header_destination, length]
    exact segment_verifies src.ip dst.ip src.port dst.port payload fits

/-- Every packet built around at most 65507 bytes is built without a fault, is valid, carries what it
was built from, and is parsed back when it is a query. -/
theorem build_udp_ipv4_verifies (src dst : SocketAddr) (payload : Bytes) (small : payload.length ≤ 65507) :
    ∃ pkt, (∀ rounds, 2 ^ 32 ≤ rounds →
        buildUdpIpv4 rounds src.ip src.port dst.ip dst.port payload = .ok pkt) ∧
      Valid pkt ∧ IsUdp pkt ⟨src, dst, payload⟩ ∧
      (dst.port = dnsPort → payload ≠ [] →
        parseUdpDnsQuery pkt = some ⟨src.ip, src.port, dst.ip, dst.port, payload⟩) := by
  have fits : ipv4MinHeader + (udpHeader + payload.length) < 65536 := by
    unfold ipv4MinHeader udpHeader
    omega
  have segment : udpHeader + payload.length < 65536 := Nat.lt_of_le_of_lt (Nat.le_add_left _ _) fits
  have is := buildUdpIpv4_isUdp src dst payload segment
  refine ⟨Udp.buildUdpIpv4 src.ip src.port dst.ip dst.port payload, ?_, ?_, is, ?_⟩
  · intro rounds enough
    exact buildUdpIpv4_ok rounds enough _ _ _ _ _ segment
  · exact buildUdpIpv4_valid src dst payload fits
  · intro port nonempty
    exact (parseUdpDnsQuery_some _ _).mpr ⟨⟨src, dst, payload⟩, is, port, nonempty, rfl⟩

theorem build_udp_ipv4_of_three_bytes :
    ∃ pkt, (∀ rounds, 2 ^ 32 ≤ rounds →
        buildUdpIpv4 rounds 0x0A000002 40000 0x08080808 53 [1, 2, 3] = .ok pkt) ∧
      Valid pkt ∧ IsUdp pkt ⟨⟨0x0A000002, 40000⟩, ⟨0x08080808, 53⟩, [1, 2, 3]⟩ ∧
      ((53 : BitVec 16) = dnsPort → ([1, 2, 3] : Bytes) ≠ [] →
        parseUdpDnsQuery pkt = some ⟨0x0A000002, 40000, 0x08080808, 53, [1, 2, 3]⟩) :=
  build_udp_ipv4_verifies ⟨0x0A000002, 40000⟩ ⟨0x08080808, 53⟩ [1, 2, 3] (by decide)

end ShadowVpn.Net.Checksum
