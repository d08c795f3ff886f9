import ShadowVpn.Net.Dns
import ShadowVpn.Net.Udp
import ShadowVpn.Policy.Chnroute

/-! The decisions of the chinadns interceptor: which packets it takes, how it classifies a
direct answer, and how a tunneled packet is paired with a waiting query. -/

namespace ShadowVpn.Engine.Intercept
open ShadowVpn.Lib.Octets ShadowVpn.Net.Ipv4 ShadowVpn.Net.Udp ShadowVpn.Net.Dns
open ShadowVpn.Policy.Chnroute

/-- One clean query in flight. -/
structure Pending where
  clientIp : Ipv4Addr
  clientPort : BitVec 16
  serverIp : Ipv4Addr
  serverPort : BitVec 16
  deriving DecidableEq

/-- `HashMap<u16, Pending>`. -/
def PendingTable := BitVec 16 → Option Pending

namespace PendingTable

def empty : PendingTable := fun _ => none

def insert (table : PendingTable) (id : BitVec 16) (entry : Pending) : PendingTable :=
  fun key => if key = id then some entry else table key

def remove (table : PendingTable) (id : BitVec 16) : PendingTable :=
  fun key => if key = id then none else table key

@[simp] theorem insert_same (table : PendingTable) (id : BitVec 16) (entry : Pending) :
    table.insert id entry id = some entry := if_pos rfl

theorem insert_other (table : PendingTable) (id key : BitVec 16) (entry : Pending) (other : key ≠ id) :
    table.insert id entry key = table key := if_neg other

@[simp] theorem remove_same (table : PendingTable) (id : BitVec 16) : table.remove id id = none :=
  if_pos rfl

theorem remove_other (table : PendingTable) (id key : BitVec 16) (other : key ≠ id) :
    table.remove id key = table key := if_neg other

end PendingTable

/-- The fields of `DnsInterceptor` that its decisions read. -/
structure Interceptor where
  chnroute : ChnRoute
  dnsLocal : SocketAddr
  dnsRemote : SocketAddr

/-- What `try_intercept` does with an ingested packet. -/
inductive Verdict where
  | forward
  | relay (q : ParsedQuery)
  | intercept (q : ParsedQuery)

def examine (packet : Bytes) : Verdict :=
  match parseUdpDnsQuery packet with
  | none => .forward
  | some q =>
    match question q.dns with
    | none => .forward
    | some (_, qtype, qclass) => if qtype ≠ typeA ∨ qclass ≠ classIn then .relay q else .intercept q

/-- The client and the server it addressed, as kept for a clean query. -/
def record (q : ParsedQuery) : Pending := ⟨q.clientIp, q.clientPort, q.serverIp, q.serverPort⟩

def recordPending (pending : PendingTable) (q : ParsedQuery) : PendingTable :=
  match txid q.dns with
  | none => pending
  | some id => pending.insert id (record q)

def clearPending (pending : PendingTable) (dns : Bytes) : PendingTable :=
  match txid dns with
  | none => pending
  | some id => pending.remove id

theorem recordPending_same {pending : PendingTable} {q : ParsedQuery} {id : BitVec 16}
    (read : txid q.dns = some id) : recordPending pending q id = some (record q) := by
  simp only [recordPending, read, PendingTable.insert_same]

theorem recordPending_other {pending : PendingTable} {q : ParsedQuery} {id : BitVec 16}
    (other : txid q.dns ≠ some id) : recordPending pending q id = pending id := by
  unfold recordPending
  cases read : txid q.dns with
  | none => rfl
  | some key => exact PendingTable.insert_other _ _ _ _ (fun same => other (same ▸ read))

theorem clearPending_other {pending : PendingTable} {dns : Bytes} {id : BitVec 16}
    (other : txid dns ≠ some id) : clearPending pending dns id = pending id := by
  unfold clearPending
  cases read : txid dns with
  | none => rfl
  | some key => exact PendingTable.remove_other _ _ _ (fun same => other (same ▸ read))

namespace Interceptor

/-- The clean copy that `send_clean_tunneled` encrypts. -/
def cleanPacket (i : Interceptor) (q : ParsedQuery) : Bytes :=
  buildUdpIpv4 q.clientIp q.clientPort i.dnsRemote.ip i.dnsRemote.port q.dns

/-- The decision on the first A record of a direct answer; without one it is domestic. -/
def isDomestic (i : Interceptor) (answer : Bytes) : Bool :=
  match (aRecords answer).head? with
  | some ip => i.chnroute.contains ip
  | none => true

end Interceptor

/-- The packet of `emit_response`: from the server the client queried, back to the client. -/
def responsePacket (q : ParsedQuery) (payload : Bytes) : Bytes :=
  buildUdpIpv4 q.serverIp q.serverPort q.clientIp q.clientPort payload

/-- The outcome of `try_handle_tunneled_reply`. -/
structure Handled where
  consumed : Bool
  pending : PendingTable
  emitted : List Bytes

def tryHandleTunneledReply (i : Interceptor) (pending : PendingTable) (plaintext : Bytes) : Handled :=
  match parseUdpDnsQuery plaintext with
  | none => ⟨false, pending, []⟩
  | some q =>
    if q.serverPort ≠ dnsPort ∨ q.serverIp ≠ i.dnsRemote.ip then ⟨false, pending, []⟩
    else
      match txid q.dns with
      | none => ⟨false, pending, []⟩
      | some id =>
        match pending id with
        | none => ⟨false, pending, []⟩
        | some entry =>
          ⟨true, pending.remove id,
            [buildUdpIpv4 entry.serverIp entry.serverPort entry.clientIp entry.clientPort q.dns]⟩

theorem txid_some {dns : Bytes} (some : ¬dns.length < 2) : txid dns = .some (be16At dns 0) :=
  if_neg some

theorem txid_nonempty {dns : Bytes} {id : BitVec 16} (read : txid dns = some id) : dns ≠ [] := by
  intro empty
  rw [empty] at read
  exact absurd read (by simp [txid])

/-- A message with a question has a transaction id. -/
theorem question_txid {dns : Bytes} {found : List Bytes × BitVec 16 × BitVec 16}
    (read : question dns = some found) : ∃ id, txid dns = some id := by
  have long : ¬dns.length < headerLen := by
    intro short
    simp [question, short] at read
  exact ⟨_, txid_some (by unfold headerLen at long; omega)⟩

/-- The packets that `try_handle_tunneled_reply` consumes, and what it does with them. -/
theorem tryHandle_consumed (i : Interceptor) (pending : PendingTable) (pkt : Bytes) :
    (tryHandleTunneledReply i pending pkt).consumed = true ↔ ∃ segment id entry,
      IsUdp pkt segment ∧ segment.dst = ⟨i.dnsRemote.ip, dnsPort⟩ ∧ txid segment.payload = some id ∧
        pending id = some entry ∧ tryHandleTunneledReply i pending pkt = ⟨true, pending.remove id,
          [buildUdpIpv4 entry.serverIp entry.serverPort entry.clientIp entry.clientPort
            segment.payload]⟩ := by
  constructor
  · intro consumed
    unfold tryHandleTunneledReply at consumed ⊢
    cases parsed : parseUdpDnsQuery pkt with
    | none => simp [parsed] at consumed
    | some q =>
      obtain ⟨segment, is, port, _, rfl⟩ := (parseUdpDnsQuery_some pkt q).mp parsed
      simp only [parsed] at consumed ⊢
      by_cases elsewhere : segment.dst.port ≠ dnsPort ∨ segment.dst.ip ≠ i.dnsRemote.ip
      · simp [if_pos elsewhere] at consumed
      · rw [if_neg elsewhere] at consumed ⊢
        simp only [not_or, Decidable.not_not] at elsewhere
        cases read : txid segment.payload with
        | none => simp [read] at consumed
        | some id =>
          cases found : pending id with
          | none => simp [read, found] at consumed
          | some entry =>
            refine ⟨segment, id, entry, is, ?_, read, found, ?_⟩
            · rw [← elsewhere.2, ← port]
            · simp only [found]
  · rintro ⟨_, _, _, _, _, _, _, handled⟩
    rw [handled]

/-- The table afterwards: as it was, or without the entry whose id the packet carries. -/
theorem tryHandle_pending (i : Interceptor) (pending : PendingTable) (pkt : Bytes) :
    ((tryHandleTunneledReply i pending pkt).consumed = false ∧
      (tryHandleTunneledReply i pending pkt).pending = pending) ∨
    ((tryHandleTunneledReply i pending pkt).consumed = true ∧ ∃ reply id,
      parseUdpDnsQuery pkt = some reply ∧ reply.serverIp = i.dnsRemote.ip ∧
        txid reply.dns = some id ∧ (tryHandleTunneledReply i pending pkt).pending = pending.remove id) := by
  unfold tryHandleTunneledReply
  cases parseUdpDnsQuery pkt with
  | none => exact .inl ⟨rfl, rfl⟩
  | some q =>
    by_cases elsewhere : q.serverPort ≠ dnsPort ∨ q.serverIp ≠ i.dnsRemote.ip
    · simp only [if_pos elsewhere]
      exact .inl ⟨trivial, trivial⟩
    · simp only [if_neg elsewhere]
      cases read : txid q.dns with
      | none => exact .inl ⟨rfl, rfl⟩
      | some id =>
        cases found : pending id with
        | none =>
          simp only [found]
          exact .inl ⟨trivial, trivial⟩
        | some entry =>
          simp only [found]
          simp only [not_or, Decidable.not_not] at elsewhere
          exact .inr ⟨trivial, q, id, rfl, elsewhere.2, read, rfl⟩

/-- A waiting query is answered by whatever datagram reaches `dns_remote:53` with its id. -/
theorem tryHandle_of_destination {i : Interceptor} {pending : PendingTable} {pkt : Bytes}
    {segment : Segment} {id : BitVec 16} {entry : Pending} (is : IsUdp pkt segment)
    (destination : segment.dst = ⟨i.dnsRemote.ip, dnsPort⟩) (read : txid segment.payload = some id)
    (found : pending id = some entry) :
    tryHandleTunneledReply i pending pkt = ⟨true, pending.remove id,
      [buildUdpIpv4 entry.serverIp entry.serverPort entry.clientIp entry.clientPort
        segment.payload]⟩ := by
  have parsed := (parseUdpDnsQuery_some pkt _).mpr
    ⟨segment, is, by rw [destination], txid_nonempty read, rfl⟩
  have here : ¬(segment.dst.port ≠ dnsPort ∨ segment.dst.ip ≠ i.dnsRemote.ip) := by
    rw [destination]
    simp
  simp only [tryHandleTunneledReply, parsed, if_neg here, read, found]

/-- The intended pairing of a tunneled packet: a reply from `dns_remote:53` to the client of a
waiting entry is consumed, its entry removed and one packet emitted with the ends of the
original exchange swapped; and only replies from `dns_remote:53` are consumed. -/
structure PairsReply (i : Interceptor) (pending : PendingTable) (pkt : Bytes) : Prop where
  forward : ∀ segment id entry, IsUdp pkt segment → segment.src = ⟨i.dnsRemote.ip, dnsPort⟩ →
    txid segment.payload = some id → pending id = some entry →
    segment.dst = ⟨entry.clientIp, entry.clientPort⟩ →
    (tryHandleTunneledReply i pending pkt).consumed = true ∧
      (tryHandleTunneledReply i pending pkt).pending = pending.remove id ∧
      ∃ reply, (tryHandleTunneledReply i pending pkt).emitted = [reply] ∧
        IsUdp reply ⟨⟨entry.serverIp, entry.serverPort⟩, ⟨entry.clientIp, entry.clientPort⟩,
          segment.payload⟩
  backward : (tryHandleTunneledReply i pending pkt).consumed = true → ∃ segment id entry,
    IsUdp pkt segment ∧ segment.src = ⟨i.dnsRemote.ip, dnsPort⟩ ∧ txid segment.payload = some id ∧
      pending id = some entry

/-- A datagram with the id of a waiting entry is handled as intended when, first, a reply from
`dns_remote:53` to the entry's client has `dns_remote:53` for its destination as well and,
second, a datagram to `dns_remote:53` comes from there. -/
def EndsCoincide (i : Interceptor) (pending : PendingTable) (pkt : Bytes) : Prop :=
  ∀ segment id entry, IsUdp pkt segment → txid segment.payload = some id →
    pending id = some entry →
    (segment.src = ⟨i.dnsRemote.ip, dnsPort⟩ → segment.dst = ⟨entry.clientIp, entry.clientPort⟩ →
      segment.dst = ⟨i.dnsRemote.ip, dnsPort⟩) ∧
    (segment.dst = ⟨i.dnsRemote.ip, dnsPort⟩ → segment.src = ⟨i.dnsRemote.ip, dnsPort⟩)

theorem pairs_reply_iff_ends_coincide (i : Interceptor) (pending : PendingTable) (pkt : Bytes) :
    PairsReply i pending pkt ↔ EndsCoincide i pending pkt := by
  constructor
  · intro pairs segment id entry is read found
    constructor
    · intro source destination
      have consumed := (pairs.forward segment id entry is source read found destination).1
      obtain ⟨other, _, _, same, addressed, _⟩ := (tryHandle_consumed i pending pkt).mp consumed
      rw [is.unique same]
      exact addressed
    · intro destination
      have handled := tryHandle_of_destination is destination read found
      obtain ⟨other, _, _, same, source, _⟩ := pairs.backward (by rw [handled])
      rw [is.unique same]
      exact source
  · intro ends
    constructor
    · intro segment id entry is source read found destination
      have addressed := (ends segment id entry is read found).1 source destination
      have handled := tryHandle_of_destination is addressed read found
      rw [handled]
      refine ⟨rfl, rfl, _, rfl, ?_⟩
      exact buildUdpIpv4_isUdp ⟨entry.serverIp, entry.serverPort⟩ ⟨entry.clientIp, entry.clientPort⟩
        segment.payload is.payload_small
    · intro consumed
      obtain ⟨segment, id, entry, is, addressed, read, found, _⟩ :=
        (tryHandle_consumed i pending pkt).mp consumed
      exact ⟨segment, id, entry, is, (ends segment id entry is read found).2 addressed, read, found⟩

/-- Resolvers of the samples: 223.5.5.5 at home, 8.8.8.8 behind the tunnel. -/
def sampleInterceptor : Interceptor where
  chnroute := ChnRoute.fromRanges []
  dnsLocal := ⟨ofOctets 223 5 5 5, dnsPort⟩
  dnsRemote := ⟨ofOctets 8 8 8 8, dnsPort⟩

/-- A query with the given id, for the root name, from port 5353 of the tunnel client. -/
def sampleQuery (id : BitVec 16) : ParsedQuery where
  clientIp := ofOctets 10 9 0 2
  clientPort := 5353
  serverIp := ofOctets 8 8 8 8
  serverPort := dnsPort
  dns := bytes16 id ++ [0x01, 0x00, 0x00, 0x01, 0, 0, 0, 0, 0, 0, 0, 0, 1, 0, 1]

/-- A reply from the remote resolver to the client of a waiting query is not consumed. -/
theorem reply_to_client_declined :
    ¬PairsReply sampleInterceptor (recordPending PendingTable.empty (sampleQuery 7))
      (buildUdpIpv4 (ofOctets 8 8 8 8) dnsPort (ofOctets 10 9 0 2) 5353 (sampleQuery 7).dns) := by
  intro pairs
  have is := buildUdpIpv4_isUdp ⟨ofOctets 8 8 8 8, dnsPort⟩ ⟨ofOctets 10 9 0 2, 5353⟩
    (sampleQuery 7).dns (by decide)
  have read : txid (sampleQuery 7).dns = some 7 := by decide
  have waiting : recordPending PendingTable.empty (sampleQuery 7) 7 = some (record (sampleQuery 7)) := by
    decide
  obtain ⟨consumed, _⟩ := pairs.forward _ 7 _ is rfl read waiting rfl
  obtain ⟨segment, _, _, same, addressed, _⟩ := (tryHandle_consumed _ _ _).mp consumed
  rw [← is.unique same] at addressed
  exact absurd addressed (by decide)

end ShadowVpn.Engine.Intercept
