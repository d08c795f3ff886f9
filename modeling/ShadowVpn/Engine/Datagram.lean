import ShadowVpn.Engine.Intercept
import ShadowVpn.Wire.Crypto
import ShadowVpn.Wire.Obfs

/-! One datagram through the carrier: what the ingress loop sends for a packet and what the
egress loop makes of a received datagram. -/

namespace ShadowVpn.Engine.Datagram
open ShadowVpn.Lib.Octets ShadowVpn.Net.Ipv4 ShadowVpn.Net.Udp
open ShadowVpn.Wire.Crypto ShadowVpn.Wire.Obfs ShadowVpn.Engine.Intercept

/-- The largest IP packet. -/
def maxIpPacket : Nat := 65535

def cryptoOverhead (cipher : Cipher) : Nat := cipher.saltLen + tagLen

def maxDatagramSize (cipher : Cipher) : Nat := maxIpPacket + cryptoOverhead cipher

/-- The receive buffer of the egress loop. -/
def bufferSize (cipher : Cipher) : Nat := maxDatagramSize cipher + maxHeader

/-- The largest payload of one UDP datagram. -/
def udpLimit : Nat := 65507

/-- What both loops of a session know about its carrier. -/
structure Carrier where
  cipher : Cipher
  masterKey : Bytes
  obfuscator : Option Obfuscator

section Datagrams

variable (prims : Primitives)

def ofPassword (cipher : Cipher) (password : Bytes) (obfuscator : Option Obfuscator) : Carrier :=
  ⟨cipher, evpBytesToKey prims password cipher.keyLen, obfuscator⟩

/-- `encrypt_packet` and `wrap`, with the packet-number length of the sender; the obfuscator is
returned with its counter moved on. -/
def encodeWith (pnLen : Nat) (carrier : Carrier) (salt : Salt carrier.cipher) (random : Byte)
    (pkt : Bytes) : Except CryptoError (Bytes × Option Obfuscator) := do
  let datagram ← encryptPacket prims carrier.cipher carrier.masterKey salt pkt
  .ok (frameWith pnLen carrier.obfuscator random datagram)

/-- The datagram that the ingress loop sends. -/
def encode (carrier : Carrier) (salt : Salt carrier.cipher) (random : Byte) (pkt : Bytes) :
    Except CryptoError (Bytes × Option Obfuscator) :=
  encodeWith prims pnLen carrier salt random pkt

/-- The plaintext of a received datagram: `recv` cuts it to the buffer, noise is dropped. -/
def decode (carrier : Carrier) (wire : Bytes) : Option Bytes := do
  let datagram ← unframe carrier.obfuscator (wire.take (bufferSize carrier.cipher))
  (decryptPacket prims carrier.cipher carrier.masterKey datagram).toOption

/-- What one round of the egress loop does: the pending table it leaves, the packets it hands to
the writer and the bytes it counts. -/
structure Delivery where
  pending : PendingTable
  emitted : List Bytes
  down : Nat

/-- The rest of the round for a plaintext of at least an IP header. -/
def handOver (interceptor : Option Interceptor) (pending : PendingTable) (plaintext : Bytes) : Delivery :=
  match interceptor with
  | some i =>
    let handled := tryHandleTunneledReply i pending plaintext
    if handled.consumed then ⟨handled.pending, handled.emitted, 0⟩
    else ⟨handled.pending, [plaintext], plaintext.length⟩
  | none => ⟨pending, [plaintext], plaintext.length⟩

def deliver (carrier : Carrier) (interceptor : Option Interceptor) (pending : PendingTable)
    (wire : Bytes) : Delivery :=
  match decode prims carrier wire with
  | none => ⟨pending, [], 0⟩
  | some plaintext =>
    if plaintext.length < 20 then ⟨pending, [], 0⟩ else handOver interceptor pending plaintext

variable {prims}

theorem encodeWith_ok {pnLen : Nat} {carrier : Carrier} {salt : Salt carrier.cipher} {random : Byte}
    {pkt wire : Bytes} {next : Option Obfuscator}
    (sent : encodeWith prims pnLen carrier salt random pkt = .ok (wire, next)) :
    ∃ datagram, encryptPacket prims carrier.cipher carrier.masterKey salt pkt = .ok datagram ∧
      wire = (frameWith pnLen carrier.obfuscator random datagram).1 := by
  unfold encodeWith at sent
  cases sealed : encryptPacket prims carrier.cipher carrier.masterKey salt pkt with
  | error e => simp [sealed, bind, Except.bind] at sent
  | ok datagram =>
    simp only [sealed, bind, Except.bind, Except.ok.injEq] at sent
    exact ⟨datagram, rfl, by rw [sent]⟩

/-- A datagram that fits UDP fits the receive buffer. -/
theorem take_buffer (cipher : Cipher) (wire : Bytes) (fits : wire.length ≤ udpLimit) :
    wire.take (bufferSize cipher) = wire := by
  apply List.take_of_length_le
  unfold udpLimit at fits
  unfold bufferSize maxDatagramSize maxIpPacket
  omega

/-- The receiver recovers the packet that the sender encrypted. -/
theorem decode_encodeWith (lawful : prims.Lawful) (cipher : Cipher) (password : Bytes)
    (one two : Option Obfuscator) (shared : Shared one two) (pnLen : Nat) (low : 1 ≤ pnLen)
    (high : pnLen ≤ 4) (salt : Salt cipher) (random : Byte) (pkt wire : Bytes)
    (next : Option Obfuscator)
    (sent : encodeWith prims pnLen (ofPassword prims cipher password one) salt random pkt =
      .ok (wire, next))
    (fits : wire.length ≤ udpLimit) :
    decode prims (ofPassword prims cipher password two) wire = some pkt := by
  obtain ⟨datagram, sealed, shape⟩ := encodeWith_ok sent
  have opened := decryptPacket_encryptPacket lawful sealed
  have unframed := unframe_frameWith one two shared pnLen low high random datagram
  have same : wire = (frameWith pnLen one random datagram).1 := shape
  rw [← same] at unframed
  have opened' : decryptPacket prims cipher (evpBytesToKey prims password cipher.keyLen) datagram =
      .ok pkt := opened
  simp only [decode, ofPassword, take_buffer cipher wire fits, unframed, opened',
    Option.bind_eq_bind, Option.bind_some, Except.toOption]

/-- What one peer encrypts, frames and sends, the other recovers. A packet shorter than an IP
header goes nowhere; any other is emitted once, unless the receiver's interceptor takes it for
the reply to a waiting query: then the rewritten reply is emitted in its place. -/
theorem wire_round_trip (lawful : prims.Lawful) (cipher : Cipher) (password : Bytes)
    (one two : Option Obfuscator) (shared : Shared one two) (pnLen : Nat) (low : 1 ≤ pnLen)
    (high : pnLen ≤ 4) (salt : Salt cipher) (random : Byte) (pkt wire : Bytes)
    (next : Option Obfuscator)
    (sent : encodeWith prims pnLen (ofPassword prims cipher password one) salt random pkt =
      .ok (wire, next))
    (fits : wire.length ≤ udpLimit) (interceptor : Option Interceptor) (pending : PendingTable) :
    decode prims (ofPassword prims cipher password two) wire = some pkt ∧
      (pkt.length < 20 →
        (deliver prims (ofPassword prims cipher password two) interceptor pending wire).emitted = []) ∧
      (20 ≤ pkt.length →
        (∀ i, interceptor = some i → (tryHandleTunneledReply i pending pkt).consumed = false) →
        (deliver prims (ofPassword prims cipher password two) interceptor pending wire).emitted = [pkt]) ∧
      (20 ≤ pkt.length → ∀ i, interceptor = some i →
        (tryHandleTunneledReply i pending pkt).consumed = true →
        (deliver prims (ofPassword prims cipher password two) interceptor pending wire).emitted =
          (tryHandleTunneledReply i pending pkt).emitted) := by
  have recovered := decode_encodeWith lawful cipher password one two shared pnLen low high salt
    random pkt wire next sent fits
  refine ⟨recovered, ?_, ?_, ?_⟩
  · intro short
    simp only [deliver, recovered, if_pos short]
  · intro long declined
    rw [deliver, recovered]
    simp only [if_neg (Nat.not_lt.mpr long)]
    cases interceptor with
    | none => rfl
    | some i => simp only [handOver, declined i rfl, Bool.false_eq_true, if_false]
  · intro long i present consumed
    rw [deliver, recovered]
    simp only [if_neg (Nat.not_lt.mpr long), present, handOver, consumed, if_true]

end Datagrams

section Sample

/-- `b"test"`. -/
def samplePassword : Bytes := [116, 101, 115, 116]

def sampleKey : Bytes :=
  [9, 143, 107, 205, 70, 33, 211, 115, 202, 222, 78, 131, 38, 39, 180, 246]

def sampleSalt : Salt .aes128Gcm :=
  ⟨[1, 2, 3, 4, 5, 6, 7, 8, 9, 10, 11, 12, 13, 14, 15, 16], rfl⟩

def sampleSubkey : Bytes :=
  [83, 201, 231, 154, 217, 148, 66, 175, 188, 127, 165, 219, 28, 175, 134, 247]

/-- A DNS response with id 7 that comes from 8.8.8.8:53 and has it for its destination too. -/
def samplePacket : Bytes :=
  [69, 0, 0, 45, 0, 0, 64, 0, 64, 17, 26, 161, 8, 8, 8, 8, 8, 8, 8, 8, 0, 53, 0, 53, 0, 25, 91,
    170, 0, 7, 129, 128, 0, 1, 0, 0, 0, 0, 0, 0, 0, 0, 1, 0, 1]

def sampleCiphertext : Bytes :=
  [100, 8, 162, 20, 95, 31, 181, 123, 94, 249, 230, 1, 32, 173, 117, 171, 36, 13, 141, 113, 131,
    162, 71, 76, 111, 24, 52, 23, 80, 36, 37, 69, 87, 36, 254, 224, 31, 100, 46, 226, 69, 45, 89,
    159, 34, 192, 176, 27, 61, 111, 29, 72, 91, 127, 150, 47, 164, 96, 222, 90, 95]

def zeroTag : Bytes := List.replicate 16 0

/-- Primitives with the real digest, subkey and ciphertext on the sample input. -/
def samplePrims : Primitives where
  md5 message := if message = samplePassword then ⟨sampleKey, rfl⟩ else ⟨zeroTag, rfl⟩
  hkdfSha1 salt ikm info len :=
    if salt = sampleSalt.bytes ∧ ikm = sampleKey ∧ info = ssSubkeyInfo ∧ len = 16 then
      some sampleSubkey
    else some (List.replicate len 0)
  encrypt cipher key plaintext :=
    if cipher = .aes128Gcm ∧ key = sampleSubkey ∧ plaintext = samplePacket then some sampleCiphertext
    else some (plaintext ++ zeroTag)
  decrypt cipher key ciphertext :=
    if cipher = .aes128Gcm ∧ key = sampleSubkey ∧ ciphertext = sampleCiphertext then some samplePacket
    else if ciphertext.drop (ciphertext.length - 16) = zeroTag then
      some (ciphertext.take (ciphertext.length - 16))
    else none

theorem samplePrims_lawful : samplePrims.Lawful := by
  constructor
  · intro salt ikm info len key derived
    simp only [samplePrims] at derived
    split at derived
    · next special =>
      rw [special.2.2.2, ← Option.some.inj derived]
      rfl
    · rw [← Option.some.inj derived, List.length_replicate]
  · intro cipher key plaintext ciphertext sealed
    simp only [samplePrims] at sealed
    split at sealed
    · next special =>
      rw [special.2.2, ← Option.some.inj sealed]
      rfl
    · rw [← Option.some.inj sealed, List.length_append]
      rfl
  · intro cipher key plaintext ciphertext sealed
    simp only [samplePrims] at sealed ⊢
    split at sealed
    · next special =>
      rw [← Option.some.inj sealed, special.2.2, if_pos ⟨special.1, special.2.1, rfl⟩]
    · next other =>
      have shape := (Option.some.inj sealed).symm
      have size : ciphertext.length - 16 = plaintext.length := by
        rw [shape, List.length_append]
        exact Nat.add_sub_cancel plaintext.length 16
      have distinct : ciphertext ≠ sampleCiphertext := by
        intro same
        have last := congrArg List.getLast? (shape.symm.trans same)
        rw [List.getLast?_append_of_ne_nil _ (by decide)] at last
        exact absurd last (by decide)
      rw [if_neg (fun special => distinct special.2.2), size, shape, List.drop_left, List.take_left,
        if_pos rfl]

theorem sample_master_key : evpBytesToKey samplePrims samplePassword 16 = sampleKey := by
  rw [evpBytesToKey, evpLoop, if_pos (by decide)]
  rw [evpLoop, if_neg (by decide)]
  rfl

def sampleWire : Bytes := sampleSalt.bytes ++ sampleCiphertext

theorem sample_sent (pnLen : Nat) :
    encodeWith samplePrims pnLen (ofPassword samplePrims .aes128Gcm samplePassword none) sampleSalt 0
      samplePacket = .ok (sampleWire, none) := by
  have key : (ofPassword samplePrims .aes128Gcm samplePassword none).masterKey = sampleKey :=
    sample_master_key
  unfold encodeWith
  rw [key]
  rfl

theorem sample_wire_round_trip :
    decode samplePrims (ofPassword samplePrims .aes128Gcm samplePassword none) sampleWire =
        some samplePacket ∧
      (samplePacket.length < 20 → (deliver samplePrims
        (ofPassword samplePrims .aes128Gcm samplePassword none) (some sampleInterceptor)
        PendingTable.empty sampleWire).emitted = []) ∧
      (20 ≤ samplePacket.length → (∀ i, some sampleInterceptor = some i →
        (tryHandleTunneledReply i PendingTable.empty samplePacket).consumed = false) →
        (deliver samplePrims (ofPassword samplePrims .aes128Gcm samplePassword none)
          (some sampleInterceptor) PendingTable.empty sampleWire).emitted = [samplePacket]) ∧
      (20 ≤ samplePacket.length → ∀ i, some sampleInterceptor = some i →
        (tryHandleTunneledReply i PendingTable.empty samplePacket).consumed = true →
        (deliver samplePrims (ofPassword samplePrims .aes128Gcm samplePassword none)
          (some sampleInterceptor) PendingTable.empty sampleWire).emitted =
            (tryHandleTunneledReply i PendingTable.empty samplePacket).emitted) :=
  wire_round_trip samplePrims_lawful .aes128Gcm samplePassword none none trivial 2 (by decide)
    (by decide) sampleSalt 0 samplePacket sampleWire none (sample_sent 2) (by decide)
    (some sampleInterceptor) PendingTable.empty

theorem samplePacket_isUdp : IsUdp samplePacket
    ⟨⟨ofOctets 8 8 8 8, dnsPort⟩, ⟨ofOctets 8 8 8 8, dnsPort⟩, samplePacket.drop 28⟩ := by
  constructor <;> decide

/-- While a query with id 7 waits, the sample packet is taken for its reply, from `dns_remote:53` and to it,
and another one emitted. -/
theorem intercepted_packet_rewritten :
    encode samplePrims (ofPassword samplePrims .aes128Gcm samplePassword none) sampleSalt 0
        samplePacket = .ok (sampleWire, none) ∧ sampleWire.length ≤ udpLimit ∧
      20 ≤ samplePacket.length ∧
      (deliver samplePrims (ofPassword samplePrims .aes128Gcm samplePassword none)
        (some sampleInterceptor) (recordPending PendingTable.empty (sampleQuery 7)) sampleWire).emitted
        ≠ [samplePacket] := by
  refine ⟨sample_sent pnLen, by decide, by decide, ?_⟩
  have recovered := decode_encodeWith samplePrims_lawful .aes128Gcm samplePassword none none trivial
    pnLen (by decide) (by decide) sampleSalt 0 samplePacket sampleWire none (sample_sent _) (by decide)
  have read : txid (samplePacket.drop 28) = some 7 := by decide
  have waiting : recordPending PendingTable.empty (sampleQuery 7) 7 = some (record (sampleQuery 7)) := by
    decide
  have handled := tryHandle_of_destination samplePacket_isUdp
    (show _ = SocketAddr.mk sampleInterceptor.dnsRemote.ip dnsPort from rfl) read waiting
  intro same
  simp only [deliver, recovered, handOver, handled] at same
  have rewritten := buildUdpIpv4_isUdp ⟨ofOctets 8 8 8 8, dnsPort⟩ ⟨ofOctets 10 9 0 2, 5353⟩
    (samplePacket.drop 28) (by decide)
  rw [show buildUdpIpv4 (ofOctets 8 8 8 8) dnsPort (ofOctets 10 9 0 2) 5353 (samplePacket.drop 28) =
    samplePacket from List.head_eq_of_cons_eq same] at rewritten
  have ends := congrArg Segment.dst (samplePacket_isUdp.unique rewritten)
  exact absurd ends (by decide)

end Sample

end ShadowVpn.Engine.Datagram
