import ShadowVpn.Engine.Moves
import ShadowVpn.Lib.Histories
import ShadowVpn.Net.Inspect

/-! The session with the inspection of its packets: `describe` runs in the ingress task, and its
panic aborts the process, so that no run goes on from there. What one turn of each task does, with
all that it reads. -/

namespace ShadowVpn.Engine.Turns
open ShadowVpn.Lib.Octets ShadowVpn.Lib.Panic ShadowVpn.Net.Udp ShadowVpn.Net.Inspect
open ShadowVpn.Wire.Crypto ShadowVpn.Wire.Obfs ShadowVpn.Engine.Intercept ShadowVpn.Engine.Datagram
open ShadowVpn.Engine.DataPlane ShadowVpn.Engine.Moves

/-- Whether `describe` panics on a packet. -/
def panics (pkt : Bytes) : Bool :=
  match describe pkt with
  | .ok _ => false
  | .error _ => true

/-- Whether the next turn of the ingress task takes a packet on which `describe` panics. -/
def crashes (s : Session) : Bool :=
  match s.ingress.pc, s.queue with
  | .recv, pkt :: _ => s.ingress.runnable && panics pkt
  | _, _ => false

/-- The packets that the ingress task has taken for the plain path and not yet dealt with. -/
def inHand : Ingress → List Bytes
  | .forwarding pkt => [pkt]
  | .sending pkt _ => [pkt]
  | _ => []

/-- The packet is not the interceptor's. -/
def Plain (interceptor : Option Interceptor) (pkt : Bytes) : Prop :=
  interceptor = none ∨ examine pkt = .forward

/-- The actions that count senders, mark a task aborted or take it off its thread. -/
def isFlag : Action → Bool
  | .cloneSender | .dropSender | .abort _ | .park _ => true
  | _ => false

section Turns

variable (prims : Primitives)

/-- A session whose ingress loop calls `describe`. -/
def step (s : Session) (action : Action) : Option Session :=
  match action with
  | .ingress nonce ok => if crashes s then none else ingressStep prims s nonce ok
  | action => DataPlane.step prims s action

/-- What a turn of the ingress task can do. -/
inductive Turn (s : Session) (nonce : Nonce) : Bool → Session → Prop
  | closed {ok : Bool} (pc : s.ingress.pc = .recv) (empty : s.queue = []) :
      Turn s nonce ok (s.enter .done)
  | passed {ok : Bool} (pkt : Bytes) (rest : List Bytes) (pc : s.ingress.pc = .recv)
      (head : s.queue = pkt :: rest) (calm : panics pkt = false) (plain : Plain s.interceptor pkt) :
      Turn s nonce ok ({ s with queue := rest }.enter (.forwarding pkt))
  | relayed {ok : Bool} (pkt : Bytes) (rest : List Bytes) (q : ParsedQuery) (pc : s.ingress.pc = .recv)
      (head : s.queue = pkt :: rest) (calm : panics pkt = false) (present : s.interceptor ≠ none)
      (verdict : examine pkt = .relay q) :
      Turn s nonce ok ({ s with queue := rest, history.queries := s.history.queries + 1 }.enter
        (.asking ⟨s.history.queries, true, q⟩))
  | intercepted {ok : Bool} (pkt : Bytes) (rest : List Bytes) (q : ParsedQuery)
      (pc : s.ingress.pc = .recv) (head : s.queue = pkt :: rest) (calm : panics pkt = false)
      (present : s.interceptor ≠ none) (verdict : examine pkt = .intercept q) :
      Turn s nonce ok ({ s with queue := rest, history.queries := s.history.queries + 1 }.enter
        (.placing ⟨s.history.queries, false, q⟩))
  | unplaced {ok : Bool} (q : Query) (pc : s.ingress.pc = .placing q)
      (unread : txid q.parsed.dns = none) : Turn s nonce ok (s.enter (.asking q))
  | placed {ok : Bool} (q : Query) (pc : s.ingress.pc = .placing q) :
      Turn s nonce ok ({ s with pending := recordPending s.pending q.parsed
                                history.placed := q :: s.history.placed }.enter (.sealing q))
  | unsealed {ok : Bool} (q : Query) (i : Interceptor) (e : CryptoError) (pc : s.ingress.pc = .sealing q)
      (present : s.interceptor = some i)
      (failed : encode prims s.carrier (nonce.salt s.carrier.cipher) nonce.random
        (i.cleanPacket q.parsed) = .error e) :
      Turn s nonce ok ({ s with pending := clearPending s.pending q.parsed.dns
                                history.placed := withdraw s.history.placed q.id }.enter (.asking q))
  | sealed {ok : Bool} (q : Query) (i : Interceptor) (wire : Bytes) (next : Option Obfuscator)
      (pc : s.ingress.pc = .sealing q) (present : s.interceptor = some i)
      (framed : encode prims s.carrier (nonce.salt s.carrier.cipher) nonce.random
        (i.cleanPacket q.parsed) = .ok (wire, next)) :
      Turn s nonce ok ({ s with carrier.obfuscator := next
                                detached := s.detached ++ [Clean.mk q.id (i.cleanPacket q.parsed) wire] }.enter
        (.asking q))
  | asked (q : Query) (pc : s.ingress.pc = .asking q) :
      Turn s nonce true ({ s with history.directOut := q :: s.history.directOut }.enter (.listening q))
  | unasked (q : Query) (pc : s.ingress.pc = .asking q) : Turn s nonce false (s.enter .recv)
  | tookRelayed (q : Query) (datagram : Datagram) (rest : List Datagram)
      (pc : s.ingress.pc = .listening q) (head : s.directIn = datagram :: rest) :
      Turn s nonce true ({ s with directIn := rest
                                  history.taken := s.history.taken ++ [(q, datagram)]
                                  history.answered := q.id :: s.history.answered }.enter
        (.responding q (datagram.payload.take answerBuffer)))
  | took (q : Query) (datagram : Datagram) (rest : List Datagram)
      (pc : s.ingress.pc = .listening q) (head : s.directIn = datagram :: rest) :
      Turn s nonce true ({ s with directIn := rest
                                  history.taken := s.history.taken ++ [(q, datagram)] }.enter
        (.deciding q (datagram.payload.take answerBuffer)))
  | expired (q : Query) (pc : s.ingress.pc = .listening q) : Turn s nonce false (s.enter .recv)
  | domestic {ok : Bool} (q : Query) (answer : Bytes) (pc : s.ingress.pc = .deciding q answer) :
      Turn s nonce ok ({ s with pending := clearPending s.pending q.parsed.dns
                                history.placed := withdraw s.history.placed q.id
                                history.answered := q.id :: s.history.answered }.enter
        (.responding q answer))
  | foreign {ok : Bool} (q : Query) (answer : Bytes) (pc : s.ingress.pc = .deciding q answer) :
      Turn s nonce ok ({ s with history.foreign := q.id :: s.history.foreign }.enter .recv)
  | responded {ok : Bool} (q : Query) (answer : Bytes) (pc : s.ingress.pc = .responding q answer) :
      Turn s nonce ok ((s.emit (responsePacket q.parsed answer) true (some q.id)).enter .recv)
  | skipped {ok : Bool} (pkt : Bytes) (e : CryptoError) (pc : s.ingress.pc = .forwarding pkt)
      (failed : encode prims s.carrier (nonce.salt s.carrier.cipher) nonce.random pkt = .error e) :
      Turn s nonce ok (s.enter .recv)
  | framed {ok : Bool} (pkt wire : Bytes) (next : Option Obfuscator) (pc : s.ingress.pc = .forwarding pkt)
      (framed : encode prims s.carrier (nonce.salt s.carrier.cipher) nonce.random pkt =
        .ok (wire, next)) :
      Turn s nonce ok ({ s with carrier.obfuscator := next }.enter (.sending pkt wire))
  | sent (pkt wire : Bytes) (pc : s.ingress.pc = .sending pkt wire) :
      Turn s nonce true ({ s with up := s.up + pkt.length, sent := s.sent ++ [pkt] }.enter .recv)
  | failed (pkt wire : Bytes) (pc : s.ingress.pc = .sending pkt wire) :
      Turn s nonce false (s.enter .done)

/-- What one step of a session can do. -/
inductive Change (s : Session) : Action → Session → Prop
  | flagged {action : Action} (flag : isFlag action = true) (senders : Nat)
      (ingress : DataPlane.Task Ingress) (egress : DataPlane.Task Egress)
      (keepalive : DataPlane.Task Keepalive) (places : ingress.pc = s.ingress.pc ∧
        egress.pc = s.egress.pc ∧ keepalive.pc = s.keepalive.pc)
      (rests : egress.parked = true → s.egress.parked = true ∨ egress.pc = .recv) :
      Change s action { s with senders := senders, ingress := ingress, egress := egress
                               keepalive := keepalive }
  | queued (pkt : Bytes) (listens : s.ingress.pc ≠ .done) (room : s.queue.length < ingestQueueDepth) :
      Change s (.trySend pkt) { s with queue := s.queue ++ [pkt] }
  | refused (pkt : Bytes) (full : s.ingress.pc = .done ∨ ingestQueueDepth ≤ s.queue.length) :
      Change s (.trySend pkt) s
  | turned {nonce : Nonce} {ok : Bool} {after : Session} (turn : Turn prims s nonce ok after) :
      Change s (.ingress nonce ok) after
  | ingressCancelled (parked : s.ingress.parked = true) :
      Change s (.cancel .ingress) { s with ingress := { s.ingress with pc := .done } }
  | egressCancelled (parked : s.egress.parked = true) :
      Change s (.cancel .egress) { s with egress := { s.egress with pc := .done } }
  | keepaliveCancelled : Change s (.cancel .keepalive) { s with keepalive := { s.keepalive with pc := .done } }
  | directArrived (datagram : Datagram) (out : List Query) :
      Change s (.directArrives datagram)
        { s with directIn := s.directIn ++ [datagram], history.directOut := out }
  | tunnelArrived (arrival : Arrival) (out : List Nat) :
      Change s (.tunnelArrives arrival)
        { s with tunnelIn := s.tunnelIn ++ [arrival], history.cleanOut := out }
  | read (arrival : Arrival) (rest : List Arrival) (pc : s.egress.pc = .recv)
      (head : s.tunnelIn = arrival :: rest) :
      Change s (.egress true) { s with tunnelIn := rest, egress := s.egress.goto (.received arrival)
                                       history.replied := arrival.origin.toList ++ s.history.replied }
  | readFailed (pc : s.egress.pc = .recv) :
      Change s (.egress false) { s with egress := s.egress.goto .done }
  | paired {ok : Bool} (arrival : Arrival) (pc : s.egress.pc = .received arrival) :
      Change s (.egress ok) (pairDatagram prims s arrival)
  | wrote {ok : Bool} (packet : Bytes) (rest : List Bytes) (origin : Option Nat)
      (pc : s.egress.pc = .writing (packet :: rest) origin) :
      Change s (.egress ok)
        { s.emit packet false origin with egress := s.egress.goto (.writing rest origin) }
  | drained {ok : Bool} (origin : Option Nat) (pc : s.egress.pc = .writing [] origin) :
      Change s (.egress ok) { s with egress := s.egress.goto .recv }
  | ticked {nonce : Nonce} {ok : Bool} (e : CryptoError) (pc : s.keepalive.pc = .tick)
      (failed : encode prims s.carrier (nonce.salt s.carrier.cipher) nonce.random keepalivePayload =
        .error e) :
      Change s (.keepalive nonce ok) { s with keepalive := s.keepalive.goto .tick }
  | beat {nonce : Nonce} {ok : Bool} (wire : Bytes) (next : Option Obfuscator) (pc : s.keepalive.pc = .tick)
      (framed : encode prims s.carrier (nonce.salt s.carrier.cipher) nonce.random keepalivePayload =
        .ok (wire, next)) :
      Change s (.keepalive nonce ok)
        { s with carrier.obfuscator := next, keepalive := s.keepalive.goto (.sending wire) }
  | beatSent {nonce : Nonce} {ok : Bool} (wire : Bytes) (pc : s.keepalive.pc = .sending wire) :
      Change s (.keepalive nonce ok)
        { s with keepalive := s.keepalive.goto (if ok then .tick else .done) }
  | cleanSent (index : Nat) (clean : Clean) (found : s.detached[index]? = some clean) :
      Change s (.cleanSend index true)
        { s with detached := s.detached.eraseIdx index
                 history.cleanOut := clean.id :: s.history.cleanOut, sent := s.sent ++ [clean.pkt] }
  | cleanLost (index : Nat) (clean : Clean) (found : s.detached[index]? = some clean) :
      Change s (.cleanSend index false) { s with detached := s.detached.eraseIdx index }

variable {prims}

theorem receivePacket_turn {s after : Session} {nonce : Nonce} {ok : Bool} (pc : s.ingress.pc = .recv)
    (calm : ∀ pkt rest, s.queue = pkt :: rest → panics pkt = false)
    (taken : receivePacket s = some after) : Turn prims s nonce ok after := by
  unfold receivePacket at taken
  cases waiting : s.queue with
  | nil =>
    simp only [waiting] at taken
    split at taken
    · exact Option.some.inj taken ▸ .closed pc waiting
    · cases taken
  | cons pkt rest =>
    have quiet := calm pkt rest waiting
    simp only [waiting] at taken
    split at taken
    · next absent => exact Option.some.inj taken ▸ .passed pkt rest pc waiting quiet (.inl absent)
    · next i present =>
      have mode : s.interceptor ≠ none := fun absent => by
        rw [show s.interceptor = some i from present] at absent
        cases absent
      cases verdict : examine pkt with
      | forward =>
        simp only [verdict] at taken
        exact Option.some.inj taken ▸ .passed pkt rest pc waiting quiet (.inr verdict)
      | relay q =>
        simp only [verdict, enroll] at taken
        exact Option.some.inj taken ▸ .relayed pkt rest q pc waiting quiet mode verdict
      | intercept q =>
        simp only [verdict, enroll] at taken
        exact Option.some.inj taken ▸ .intercepted pkt rest q pc waiting quiet mode verdict

theorem place_turn {s : Session} {nonce : Nonce} {ok : Bool} {q : Query}
    (pc : s.ingress.pc = .placing q) : Turn prims s nonce ok (place s q) := by
  unfold place
  cases read : txid q.parsed.dns with
  | none => exact .unplaced q pc read
  | some id => exact .placed q pc

theorem sealClean_turn {s : Session} {nonce : Nonce} {ok : Bool} {q : Query} {i : Interceptor}
    (pc : s.ingress.pc = .sealing q) (present : s.interceptor = some i) :
    Turn prims s nonce ok (sealClean prims s i q nonce) := by
  unfold sealClean
  cases framed : encode prims s.carrier (nonce.salt s.carrier.cipher) nonce.random
      (i.cleanPacket q.parsed) with
  | error e =>
    simp only [framed]
    exact .unsealed q i e pc present framed
  | ok sent =>
    simp only [framed]
    exact .sealed q i sent.1 sent.2 pc present framed

theorem awaitAnswer_turn {s after : Session} {nonce : Nonce} {ok : Bool} {q : Query}
    (pc : s.ingress.pc = .listening q) (taken : awaitAnswer s q ok = some after) :
    Turn prims s nonce ok after := by
  unfold awaitAnswer at taken
  cases ok with
  | false => exact Option.some.inj taken ▸ .expired q pc
  | true =>
    cases head : s.directIn with
    | nil => simp [head] at taken
    | cons datagram rest =>
      simp only [head, if_true] at taken
      split at taken
      · exact Option.some.inj taken ▸ .tookRelayed q datagram rest pc head
      · exact Option.some.inj taken ▸ .took q datagram rest pc head

theorem decideAnswer_turn {s : Session} {nonce : Nonce} {ok : Bool} {q : Query} {answer : Bytes}
    (i : Interceptor) (pc : s.ingress.pc = .deciding q answer) :
    Turn prims s nonce ok (decideAnswer s i q answer) := by
  unfold decideAnswer
  split
  · exact .domestic q answer pc
  · exact .foreign q answer pc

theorem forward_turn {s : Session} {nonce : Nonce} {ok : Bool} {pkt : Bytes}
    (pc : s.ingress.pc = .forwarding pkt) : Turn prims s nonce ok (forward prims s pkt nonce) := by
  unfold forward
  cases framed : encode prims s.carrier (nonce.salt s.carrier.cipher) nonce.random pkt with
  | error e =>
    simp only
    exact .skipped pkt e pc framed
  | ok sent =>
    simp only
    exact .framed pkt sent.1 sent.2 pc framed

/-- Every step of the ingress task is one of its turns. -/
theorem ingress_turn {s after : Session} {nonce : Nonce} {ok : Bool}
    (taken : step prims s (.ingress nonce ok) = some after) : Turn prims s nonce ok after := by
  unfold step at taken
  dsimp only at taken
  by_cases crash : crashes s = true
  · rw [if_pos crash] at taken
    cases taken
  · rw [if_neg crash] at taken
    unfold ingressStep at taken
    split at taken
    · next runnable =>
      cases pc : s.ingress.pc with
      | recv =>
        simp only [pc] at taken
        refine receivePacket_turn pc (fun pkt rest head => ?_) taken
        simpa only [crashes, pc, head, runnable, Bool.true_and, Bool.not_eq_true] using crash
      | placing q =>
        simp only [pc] at taken
        exact Option.some.inj taken ▸ place_turn pc
      | sealing q =>
        simp only [pc, Option.map_eq_some_iff] at taken
        obtain ⟨i, present, same⟩ := taken
        exact same ▸ sealClean_turn pc present
      | asking q =>
        simp only [pc] at taken
        cases ok with
        | true => exact Option.some.inj taken ▸ .asked q pc
        | false => exact Option.some.inj taken ▸ .unasked q pc
      | listening q =>
        simp only [pc] at taken
        exact awaitAnswer_turn pc taken
      | deciding q answer =>
        simp only [pc, Option.map_eq_some_iff] at taken
        obtain ⟨i, present, same⟩ := taken
        exact same ▸ decideAnswer_turn i pc
      | responding q answer =>
        simp only [pc] at taken
        exact Option.some.inj taken ▸ .responded q answer pc
      | forwarding pkt =>
        simp only [pc] at taken
        exact Option.some.inj taken ▸ forward_turn pc
      | sending pkt wire =>
        simp only [pc] at taken
        cases ok with
        | true => exact Option.some.inj taken ▸ .sent pkt wire pc
        | false => exact Option.some.inj taken ▸ .failed pkt wire pc
      | done => simp [pc] at taken
    · cases taken

theorem egressStep_change {s after : Session} {ok : Bool} (taken : egressStep prims s ok = some after) :
    Change prims s (.egress ok) after := by
  unfold egressStep at taken
  split at taken
  · cases pc : s.egress.pc with
    | recv =>
      simp only [pc, receiveDatagram] at taken
      cases ok with
      | false => exact Option.some.inj taken ▸ .readFailed pc
      | true =>
        cases head : s.tunnelIn with
        | nil => simp [head] at taken
        | cons arrival rest =>
          simp only [head, if_true] at taken
          exact Option.some.inj taken ▸ .read arrival rest pc head
    | received arrival =>
      simp only [pc] at taken
      exact Option.some.inj taken ▸ .paired arrival pc
    | writing packets origin =>
      simp only [pc] at taken
      cases packets with
      | nil => exact Option.some.inj taken ▸ .drained origin pc
      | cons packet rest => exact Option.some.inj taken ▸ .wrote packet rest origin pc
    | done => simp [pc] at taken
  · cases taken

theorem keepaliveStep_change {s after : Session} {nonce : Nonce} {ok : Bool}
    (taken : keepaliveStep prims s nonce ok = some after) : Change prims s (.keepalive nonce ok) after := by
  unfold keepaliveStep at taken
  split at taken
  · cases pc : s.keepalive.pc with
    | tick =>
      simp only [pc] at taken
      cases framed : encode prims s.carrier (nonce.salt s.carrier.cipher) nonce.random
          keepalivePayload with
      | error e =>
        simp only [framed] at taken
        exact Option.some.inj taken ▸ .ticked e pc framed
      | ok sent =>
        simp only [framed] at taken
        exact Option.some.inj taken ▸ .beat sent.1 sent.2 pc framed
    | sending wire =>
      simp only [pc] at taken
      exact Option.some.inj taken ▸ .beatSent wire pc
    | done => simp [pc] at taken
  · cases taken

theorem parkTask_change {s after : Session} {which : Which} (taken : parkTask s which = some after) :
    Change prims s (.park which) after := by
  cases which with
  | ingress | keepalive =>
    obtain ⟨task, parked, rfl⟩ := Option.map_eq_some_iff.mp taken
    obtain ⟨_, rfl⟩ := Task.park_some parked
    exact .flagged rfl s.senders _ _ _ ⟨rfl, rfl, rfl⟩ .inl
  | egress =>
    obtain ⟨task, parked, rfl⟩ := Option.map_eq_some_iff.mp taken
    obtain ⟨waits, rfl⟩ := Task.park_some parked
    refine .flagged rfl s.senders _ _ _ ⟨rfl, rfl, rfl⟩ fun _ => .inr ?_
    cases pc : s.egress.pc <;> simp_all [Egress.waits]

theorem abortTask_change (s : Session) (which : Which) :
    Change prims s (.abort which) (abortTask s which) := by
  cases which with
  | ingress | egress | keepalive => exact .flagged rfl s.senders _ _ _ ⟨rfl, rfl, rfl⟩ .inl

theorem cancelTask_change {s after : Session} {which : Which} (taken : cancelTask s which = some after) :
    Change prims s (.cancel which) after := by
  cases which with
  | ingress =>
    obtain ⟨task, cancelled, rfl⟩ := Option.map_eq_some_iff.mp taken
    obtain ⟨parked, _, rfl⟩ := Task.cancel_some cancelled
    exact .ingressCancelled parked
  | egress =>
    obtain ⟨task, cancelled, rfl⟩ := Option.map_eq_some_iff.mp taken
    obtain ⟨parked, _, rfl⟩ := Task.cancel_some cancelled
    exact .egressCancelled parked
  | keepalive =>
    obtain ⟨task, cancelled, rfl⟩ := Option.map_eq_some_iff.mp taken
    obtain ⟨_, _, rfl⟩ := Task.cancel_some cancelled
    exact .keepaliveCancelled

theorem trySend_change (s : Session) (pkt : Bytes) : Change prims s (.trySend pkt) (trySend s pkt).1 := by
  unfold trySend
  split
  · next done => exact .refused pkt (.inl done)
  · next going =>
    split
    · next room => exact .queued pkt going room
    · next full => exact .refused pkt (.inr (Nat.not_lt.mp full))

theorem directArrives_change {s after : Session} {datagram : Datagram}
    (taken : directArrives s datagram = some after) : Change prims s (.directArrives datagram) after := by
  unfold directArrives at taken
  split at taken
  · cases taken
  · exact Option.some.inj taken ▸ .directArrived datagram s.history.directOut
  · split at taken
    · exact Option.some.inj taken ▸ .directArrived datagram _
    · cases taken

theorem tunnelArrives_change {s after : Session} {arrival : Arrival}
    (taken : tunnelArrives prims s arrival = some after) :
    Change prims s (.tunnelArrives arrival) after := by
  unfold tunnelArrives at taken
  split at taken
  · exact Option.some.inj taken ▸ .tunnelArrived arrival s.history.cleanOut
  · split at taken
    · exact Option.some.inj taken ▸ .tunnelArrived arrival _
    · cases taken

/-- Every step of a session is one of the changes. -/
theorem step_change {s after : Session} {action : Action} (taken : step prims s action = some after) :
    Change prims s action after := by
  cases action with
  | cloneSender => exact Option.some.inj taken ▸ .flagged rfl _ _ _ _ ⟨rfl, rfl, rfl⟩ .inl
  | dropSender =>
    simp only [step, DataPlane.step] at taken
    split at taken
    · exact Option.some.inj taken ▸ .flagged rfl _ _ _ _ ⟨rfl, rfl, rfl⟩ .inl
    · cases taken
  | trySend pkt =>
    simp only [step, DataPlane.step] at taken
    split at taken
    · exact Option.some.inj taken ▸ trySend_change s pkt
    · cases taken
  | abort which => exact Option.some.inj taken ▸ abortTask_change s which
  | park which => exact parkTask_change taken
  | cancel which => exact cancelTask_change taken
  | directArrives datagram => exact directArrives_change taken
  | tunnelArrives arrival => exact tunnelArrives_change taken
  | ingress nonce ok => exact .turned (ingress_turn taken)
  | egress ok => exact egressStep_change taken
  | keepalive nonce ok => exact keepaliveStep_change taken
  | cleanSend index ok =>
    simp only [step, DataPlane.step, cleanSend, Option.map_eq_some_iff] at taken
    obtain ⟨clean, found, rfl⟩ := taken
    cases ok with
    | true => exact .cleanSent index clean found
    | false => exact .cleanLost index clean found

end Turns

end ShadowVpn.Engine.Turns
