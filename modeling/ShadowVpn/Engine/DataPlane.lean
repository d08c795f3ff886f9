import ShadowVpn.Engine.Datagram
import ShadowVpn.Lib.Transition

/-! One session of the data plane: the ingest channel, the ingress, egress and keepalive tasks
with the points where they wait, the two sockets and the pending table they share. One step is
what a task does between two points at which others can act. -/

namespace ShadowVpn.Engine.DataPlane
open ShadowVpn.Lib.Octets ShadowVpn.Net.Ipv4 ShadowVpn.Net.Udp ShadowVpn.Wire.Crypto
open ShadowVpn.Engine.Intercept ShadowVpn.Engine.Datagram

/-- `INGEST_QUEUE_DEPTH`. -/
def ingestQueueDepth : Nat := 1024

/-- The buffer of `query_direct`. -/
def answerBuffer : Nat := 1500

/-- `KEEPALIVE_PAYLOAD`. -/
def keepalivePayload : Bytes := [0]

/-- A packet that the interceptor took: numbered in the order of arrival, and whether it is only
relayed to `dns_local`. -/
structure Query where
  id : Nat
  relayed : Bool
  parsed : ParsedQuery

/-- A datagram on the direct socket, and the query it is the reply to, if it is one. -/
structure Datagram where
  source : SocketAddr
  payload : Bytes
  origin : Option Nat

/-- A datagram on the tunnel socket, and the clean query it is the reply to, if it is one. -/
structure Arrival where
  wire : Bytes
  origin : Option Nat

/-- A clean copy whose spawned send has not run yet. -/
structure Clean where
  id : Nat
  pkt : Bytes
  wire : Bytes

/-- A packet handed to the writer, whether it carries a direct answer, and the query it answers. -/
structure Emission where
  packet : Bytes
  direct : Bool
  query : Option Nat

/-- Where the ingress task stands. It waits in `recv`, `asking`, `listening` and `sending`. -/
inductive Ingress where
  | recv
  | placing (q : Query)
  | sealing (q : Query)
  | asking (q : Query)
  | listening (q : Query)
  | deciding (q : Query) (answer : Bytes)
  | responding (q : Query) (answer : Bytes)
  | forwarding (pkt : Bytes)
  | sending (pkt wire : Bytes)
  | done

/-- Where the egress task stands. It waits in `recv`. -/
inductive Egress where
  | recv
  | received (arrival : Arrival)
  | writing (packets : List Bytes) (origin : Option Nat)
  | done

inductive Keepalive where
  | tick
  | sending (wire : Bytes)
  | done

def Ingress.waits : Ingress → Bool
  | .recv | .asking _ | .listening _ | .sending _ _ => true
  | _ => false

def Egress.waits : Egress → Bool
  | .recv => true
  | _ => false

def Keepalive.waits : Keepalive → Bool
  | .tick | .sending _ => true
  | .done => false

/-- A spawned task. A parked one is not being polled; once it is aborted it never is again. -/
structure Task (Pc : Type) where
  pc : Pc
  parked : Bool
  aborted : Bool

namespace Task

variable {Pc : Type}

def spawn (pc : Pc) : Task Pc := ⟨pc, true, false⟩

def runnable (t : Task Pc) : Bool := !(t.parked && t.aborted)

def goto (t : Task Pc) (pc : Pc) : Task Pc := { t with pc := pc, parked := false }

def abort (t : Task Pc) : Task Pc := { t with aborted := true }

/-- What the task waits for is not there yet. -/
def park (waits : Pc → Bool) (t : Task Pc) : Option (Task Pc) :=
  if waits t.pc && !t.parked then some { t with parked := true } else none

def cancel (done : Pc) (t : Task Pc) : Option (Task Pc) :=
  if t.parked && t.aborted then some { t with pc := done } else none

theorem park_some {waits : Pc → Bool} {t u : Task Pc} (parked : t.park waits = some u) :
    waits t.pc = true ∧ u = { t with parked := true } := by
  unfold park at parked
  split at parked
  · next free => exact ⟨(Bool.and_eq_true_iff.mp free).1, (Option.some.inj parked).symm⟩
  · cases parked

theorem cancel_some {done : Pc} {t u : Task Pc} (cancelled : t.cancel done = some u) :
    t.parked = true ∧ t.aborted = true ∧ u = { t with pc := done } := by
  unfold cancel at cancelled
  split at cancelled
  · next flags =>
    obtain ⟨parked, aborted⟩ := Bool.and_eq_true_iff.mp flags
    exact ⟨parked, aborted, (Option.some.inj cancelled).symm⟩
  · cases cancelled

end Task

/-- What happened so far, kept for statements only: no task looks at it. `directOut` and
`cleanOut` are the queries whose reply is still to come, `taken` the datagrams read for a query,
`answered` the queries whose direct answer is returned, `foreign` those left to the clean answer,
`replied` those whose tunneled reply was received, `placed` those whose pending record was placed
and not withdrawn by a failure, answer or reply of their own. -/
structure History where
  queries : Nat
  directOut : List Query
  cleanOut : List Nat
  taken : List (Query × Datagram)
  answered : List Nat
  foreign : List Nat
  replied : List Nat
  placed : List Query

/-- `sent` and `emitted` record what went to the server and to the writer; `up` and `down` are
the session's shares of the two byte counters. -/
structure Session where
  interceptor : Option Interceptor
  carrier : Carrier
  senders : Nat
  queue : List Bytes
  ingress : Task Ingress
  egress : Task Egress
  keepalive : Task Keepalive
  pending : PendingTable
  directIn : List Datagram
  tunnelIn : List Arrival
  detached : List Clean
  up : Nat
  down : Nat
  sent : List Bytes
  emitted : List Emission
  history : History

def start (interceptor : Option Interceptor) (carrier : Carrier) : Session where
  interceptor := interceptor
  carrier := carrier
  senders := 1
  queue := []
  ingress := .spawn .recv
  egress := .spawn .recv
  keepalive := .spawn .tick
  pending := .empty
  directIn := []
  tunnelIn := []
  detached := []
  up := 0
  down := 0
  sent := []
  emitted := []
  history := ⟨0, [], [], [], [], [], [], []⟩

/-- The random choices of one encryption. -/
structure Nonce where
  salt : (cipher : Cipher) → Salt cipher
  random : Byte

inductive Which where
  | ingress
  | egress
  | keepalive
  deriving DecidableEq

/-- What can happen next. The flag of a task step is the outcome of what the task waits for:
sent, received in time. -/
inductive Action where
  | cloneSender
  | dropSender
  | trySend (pkt : Bytes)
  | abort (which : Which)
  | park (which : Which)
  | cancel (which : Which)
  | directArrives (datagram : Datagram)
  | tunnelArrives (arrival : Arrival)
  | ingress (nonce : Nonce) (ok : Bool)
  | egress (ok : Bool)
  | keepalive (nonce : Nonce) (ok : Bool)
  | cleanSend (index : Nat) (ok : Bool)

namespace Session

def enter (s : Session) (pc : Ingress) : Session := { s with ingress := s.ingress.goto pc }

def emit (s : Session) (packet : Bytes) (direct : Bool) (query : Option Nat) : Session :=
  { s with emitted := s.emitted ++ [⟨packet, direct, query⟩] }

end Session

/-- `try_send` on a channel whose receiver lives in the ingress task. -/
def trySend (s : Session) (pkt : Bytes) : Session × Int :=
  match s.ingress.pc with
  | .done => (s, -1)
  | _ => if s.queue.length < ingestQueueDepth then ({ s with queue := s.queue ++ [pkt] }, 0) else (s, 0)

/-- A query is numbered when the interceptor takes it. -/
def enroll (s : Session) (relayed : Bool) (q : ParsedQuery) : Query × Session :=
  (⟨s.history.queries, relayed, q⟩, { s with history.queries := s.history.queries + 1 })

/-- `rx.recv()` and the first tests of `try_intercept`. -/
def receivePacket (s : Session) : Option Session :=
  match s.queue with
  | [] => if s.senders = 0 then some (s.enter .done) else none
  | pkt :: rest =>
    let s := { s with queue := rest }
    match s.interceptor with
    | none => some (s.enter (.forwarding pkt))
    | some _ =>
      match examine pkt with
      | .forward => some (s.enter (.forwarding pkt))
      | .relay q => let (query, s) := enroll s true q; some (s.enter (.asking query))
      | .intercept q => let (query, s) := enroll s false q; some (s.enter (.placing query))

/-- `send_clean_tunneled` up to the insertion. -/
def place (s : Session) (q : Query) : Session :=
  match txid q.parsed.dns with
  | none => s.enter (.asking q)
  | some _ =>
    { s with pending := recordPending s.pending q.parsed
             history.placed := q :: s.history.placed }.enter (.sealing q)

def withdraw (placed : List Query) (id : Nat) : List Query := placed.filter fun q => q.id ≠ id

section Steps

variable (prims : Primitives)

/-- The rest of `send_clean_tunneled`: an encryption failure removes the entry again. -/
def sealClean (s : Session) (i : Interceptor) (q : Query) (nonce : Nonce) : Session :=
  let pkt := i.cleanPacket q.parsed
  match encode prims s.carrier (nonce.salt s.carrier.cipher) nonce.random pkt with
  | .error _ =>
    { s with pending := clearPending s.pending q.parsed.dns
             history.placed := withdraw s.history.placed q.id }.enter (.asking q)
  | .ok (wire, obfuscator) =>
    { s with carrier.obfuscator := obfuscator
             detached := s.detached ++ [Clean.mk q.id pkt wire] }.enter (.asking q)

/-- `send_to` of `query_direct`. -/
def ask (s : Session) (q : Query) (ok : Bool) : Session :=
  if ok then { s with history.directOut := q :: s.history.directOut }.enter (.listening q)
  else s.enter .recv

/-- `recv_from` of `query_direct` within the timeout. A relayed answer is returned verbatim. -/
def awaitAnswer (s : Session) (q : Query) (ok : Bool) : Option Session :=
  if ok then
    match s.directIn with
    | [] => none
    | datagram :: rest =>
      let s := { s with directIn := rest, history.taken := s.history.taken ++ [(q, datagram)] }
      let answer := datagram.payload.take answerBuffer
      if q.relayed then
        some ({ s with history.answered := q.id :: s.history.answered }.enter (.responding q answer))
      else some (s.enter (.deciding q answer))
  else some (s.enter .recv)

/-- The decision of `try_intercept` on the direct answer. -/
def decideAnswer (s : Session) (i : Interceptor) (q : Query) (answer : Bytes) : Session :=
  if i.isDomestic answer then
    { s with pending := clearPending s.pending q.parsed.dns
             history.placed := withdraw s.history.placed q.id
             history.answered := q.id :: s.history.answered }.enter (.responding q answer)
  else { s with history.foreign := q.id :: s.history.foreign }.enter .recv

def respond (s : Session) (q : Query) (answer : Bytes) : Session :=
  (s.emit (responsePacket q.parsed answer) true (some q.id)).enter .recv

/-- The plain path of `ingress_loop`: a packet that cannot be encrypted is skipped. -/
def forward (s : Session) (pkt : Bytes) (nonce : Nonce) : Session :=
  match encode prims s.carrier (nonce.salt s.carrier.cipher) nonce.random pkt with
  | .error _ => s.enter .recv
  | .ok (wire, obfuscator) => { s with carrier.obfuscator := obfuscator }.enter (.sending pkt wire)

/-- A failed send ends the session's ingress. -/
def sendPacket (s : Session) (pkt : Bytes) (ok : Bool) : Session :=
  if ok then { s with up := s.up + pkt.length, sent := s.sent ++ [pkt] }.enter .recv
  else s.enter .done

def ingressStep (s : Session) (nonce : Nonce) (ok : Bool) : Option Session :=
  if s.ingress.runnable then
    match s.ingress.pc with
    | .recv => receivePacket s
    | .placing q => some (place s q)
    | .sealing q => s.interceptor.map fun i => sealClean prims s i q nonce
    | .asking q => some (ask s q ok)
    | .listening q => awaitAnswer s q ok
    | .deciding q answer => s.interceptor.map fun i => decideAnswer s i q answer
    | .responding q answer => some (respond s q answer)
    | .forwarding pkt => some (forward prims s pkt nonce)
    | .sending pkt _ => some (sendPacket s pkt ok)
    | .done => none
  else none

/-- `socket.recv` of `egress_loop`; an error ends it. -/
def receiveDatagram (s : Session) (ok : Bool) : Option Session :=
  if ok then
    match s.tunnelIn with
    | [] => none
    | arrival :: rest =>
      some { s with tunnelIn := rest, egress := s.egress.goto (.received arrival)
                    history.replied := arrival.origin.toList ++ s.history.replied }
  else some { s with egress := s.egress.goto .done }

/-- The plaintext of a datagram that is long enough for an IP packet. -/
def readable (carrier : Carrier) (wire : Bytes) : Option Bytes :=
  (decode prims carrier wire).filter fun plaintext => 20 ≤ plaintext.length

/-- Whether `try_handle_tunneled_reply` consumes the packet of a datagram. -/
def consumes (s : Session) (wire : Bytes) : Bool :=
  match s.interceptor, readable prims s.carrier wire with
  | some i, some plaintext => (tryHandleTunneledReply i s.pending plaintext).consumed
  | _, _ => false

/-- The round of `egress_loop` for one datagram, up to the call of the writer. -/
def pairDatagram (s : Session) (arrival : Arrival) : Session :=
  let delivery := deliver prims s.carrier s.interceptor s.pending arrival.wire
  let placed :=
    if consumes prims s arrival.wire then
      s.history.placed.filter fun q => some q.id ≠ arrival.origin
    else s.history.placed
  { s with pending := delivery.pending
           down := s.down + delivery.down
           egress := s.egress.goto (.writing delivery.emitted arrival.origin)
           history.placed := placed }

def writePackets (s : Session) (packets : List Bytes) (origin : Option Nat) : Session :=
  match packets with
  | [] => { s with egress := s.egress.goto .recv }
  | packet :: rest =>
    { s.emit packet false origin with egress := s.egress.goto (.writing rest origin) }

def egressStep (s : Session) (ok : Bool) : Option Session :=
  if s.egress.runnable then
    match s.egress.pc with
    | .recv => receiveDatagram s ok
    | .received arrival => some (pairDatagram prims s arrival)
    | .writing packets origin => some (writePackets s packets origin)
    | .done => none
  else none

def keepaliveStep (s : Session) (nonce : Nonce) (ok : Bool) : Option Session :=
  if s.keepalive.runnable then
    match s.keepalive.pc with
    | .tick =>
      match encode prims s.carrier (nonce.salt s.carrier.cipher) nonce.random keepalivePayload with
      | .error _ => some { s with keepalive := s.keepalive.goto .tick }
      | .ok (wire, obfuscator) =>
        some { s with carrier.obfuscator := obfuscator, keepalive := s.keepalive.goto (.sending wire) }
    | .sending _ => some { s with keepalive := s.keepalive.goto (if ok then .tick else .done) }
    | .done => none
  else none

/-- The spawned send of a clean copy. -/
def cleanSend (s : Session) (index : Nat) (ok : Bool) : Option Session :=
  s.detached[index]?.map fun clean =>
    let s := { s with detached := s.detached.eraseIdx index }
    if ok then
      { s with history.cleanOut := clean.id :: s.history.cleanOut
               sent := s.sent ++ [clean.pkt] }
    else s

/-- The reply to a query that was sent: from `dns_local`, with the query's id. -/
def Answers (i : Interceptor) (q : Query) (datagram : Datagram) : Prop :=
  datagram.source = i.dnsLocal ∧ txid datagram.payload = txid q.parsed.dns

instance (i : Interceptor) (q : Query) (datagram : Datagram) : Decidable (Answers i q datagram) :=
  inferInstanceAs (Decidable (_ ∧ _))

/-- Any datagram may arrive on the direct socket. One that counts as a query's reply is the first
of its kind and sent for a query that is out. -/
def directArrives (s : Session) (datagram : Datagram) : Option Session :=
  match s.interceptor, datagram.origin with
  | none, _ => none
  | some _, none => some { s with directIn := s.directIn ++ [datagram] }
  | some i, some id =>
    if ∃ q ∈ s.history.directOut, q.id = id ∧ Answers i q datagram then
      some { s with directIn := s.directIn ++ [datagram]
                    history.directOut := withdraw s.history.directOut id }
    else none

/-- Any datagram may arrive on the tunnel socket. One that counts as the reply to a clean query is
the first of its kind and carries an IP packet. -/
def tunnelArrives (s : Session) (arrival : Arrival) : Option Session :=
  match arrival.origin with
  | none => some { s with tunnelIn := s.tunnelIn ++ [arrival] }
  | some id =>
    if id ∈ s.history.cleanOut ∧ (readable prims s.carrier arrival.wire).isSome then
      some { s with tunnelIn := s.tunnelIn ++ [arrival]
                    history.cleanOut := s.history.cleanOut.erase id }
    else none

def abortTask (s : Session) (which : Which) : Session :=
  match which with
  | .ingress => { s with ingress := s.ingress.abort }
  | .egress => { s with egress := s.egress.abort }
  | .keepalive => { s with keepalive := s.keepalive.abort }

def parkTask (s : Session) (which : Which) : Option Session :=
  match which with
  | .ingress => (s.ingress.park Ingress.waits).map fun t => { s with ingress := t }
  | .egress => (s.egress.park Egress.waits).map fun t => { s with egress := t }
  | .keepalive => (s.keepalive.park Keepalive.waits).map fun t => { s with keepalive := t }

def cancelTask (s : Session) (which : Which) : Option Session :=
  match which with
  | .ingress => (s.ingress.cancel .done).map fun t => { s with ingress := t }
  | .egress => (s.egress.cancel .done).map fun t => { s with egress := t }
  | .keepalive => (s.keepalive.cancel .done).map fun t => { s with keepalive := t }

def step (s : Session) (action : Action) : Option Session :=
  match action with
  | .cloneSender => some { s with senders := s.senders + 1 }
  | .dropSender => if 0 < s.senders then some { s with senders := s.senders - 1 } else none
  | .trySend pkt => if 0 < s.senders then some (trySend s pkt).1 else none
  | .abort which => some (abortTask s which)
  | .park which => parkTask s which
  | .cancel which => cancelTask s which
  | .directArrives datagram => directArrives s datagram
  | .tunnelArrives arrival => tunnelArrives prims s arrival
  | .ingress nonce ok => ingressStep prims s nonce ok
  | .egress ok => egressStep prims s ok
  | .keepalive nonce ok => keepaliveStep prims s nonce ok
  | .cleanSend index ok => cleanSend s index ok

end Steps

section Sample

def sampleCarrier : Carrier := ⟨.aes128Gcm, sampleKey, none⟩

def sampleNonce : Nonce := ⟨fun cipher => ⟨List.replicate cipher.saltLen 1, List.length_replicate⟩, 0⟩

/-- The packet of a query from the given port of the tunnel client. -/
def sampleQueryPacket (id port : BitVec 16) : Bytes :=
  buildUdpIpv4 (ofOctets 10 9 0 2) port (ofOctets 8 8 8 8) dnsPort (sampleQuery id).dns

/-- A response without records. -/
def sampleEmptyAnswer (id : BitVec 16) : Bytes := bytes16 id ++ [0x81, 0x83, 0, 0, 0, 0, 0, 0, 0, 0]

/-- A response for the root name with the address 93.184.216.34. -/
def sampleAnswer (id : BitVec 16) : Bytes :=
  bytes16 id ++ [0x81, 0x80, 0, 1, 0, 1, 0, 0, 0, 0, 0, 0, 1, 0, 1, 0, 0, 1, 0, 1, 0, 0, 0, 60, 0, 4,
    93, 184, 216, 34]

/-- The datagram that brings a reply of 8.8.8.8 to the given port of the tunnel client. -/
def sampleReply (id port : BitVec 16) : Bytes :=
  let pkt := buildUdpIpv4 (ofOctets 8 8 8 8) dnsPort (ofOctets 10 9 0 2) port (sampleAnswer id)
  match encode samplePrims sampleCarrier (sampleNonce.salt .aes128Gcm) 0 pkt with
  | .ok (wire, _) => wire
  | .error _ => []

/-- The datagram that brings a reply of 8.8.8.8:53 addressed to 8.8.8.8:53. -/
def sampleTakenReply (id : BitVec 16) : Bytes :=
  let pkt := buildUdpIpv4 (ofOctets 8 8 8 8) dnsPort (ofOctets 8 8 8 8) dnsPort (sampleAnswer id)
  match encode samplePrims sampleCarrier (sampleNonce.salt .aes128Gcm) 0 pkt with
  | .ok (wire, _) => wire
  | .error _ => []

/-- A query up to the point where its direct answer is awaited. -/
def sampleAsk (id port : BitVec 16) : List Action :=
  [.trySend (sampleQueryPacket id port), .ingress sampleNonce true, .ingress sampleNonce true,
    .ingress sampleNonce true, .ingress sampleNonce true]

end Sample

end ShadowVpn.Engine.DataPlane
