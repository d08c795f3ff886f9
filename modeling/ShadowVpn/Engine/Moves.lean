import ShadowVpn.Engine.DataPlane

/-! What one step of a session can do to the queries: every step is one of a few moves on the part
of the state that the interceptor and its queries live in. -/

namespace ShadowVpn.Engine.Moves
open ShadowVpn.Lib.Octets ShadowVpn.Net.Udp ShadowVpn.Engine.Intercept ShadowVpn.Engine.Datagram
open ShadowVpn.Wire.Crypto ShadowVpn.Engine.DataPlane

/-- The part of a session that its queries depend on. -/
structure View where
  interceptor : Option Interceptor
  ingress : Ingress
  egress : Egress
  pending : PendingTable
  directIn : List Datagram
  tunnelIn : List Arrival
  detached : List Clean
  emitted : List Emission
  history : History

def view (s : Session) : View where
  interceptor := s.interceptor
  ingress := s.ingress.pc
  egress := s.egress.pc
  pending := s.pending
  directIn := s.directIn
  tunnelIn := s.tunnelIn
  detached := s.detached
  emitted := s.emitted
  history := s.history

/-- The query that the ingress task is working on. -/
def query : Ingress → Option Query
  | .placing q | .sealing q | .asking q | .listening q | .deciding q _ | .responding q _ => some q
  | _ => none

section Moves

variable (prims : Primitives)

/-- The moves that an action can make from a session, by what is left of the view. -/
inductive Move (s : Session) : Action → View → Prop
  | quiet {action : Action} : Move s action (view s)
  | release {action : Action} (pc : Ingress) (idle : query pc = none) :
      Move s action { view s with ingress := pc }
  | rest {action : Action} (pc : Egress) (idle : pc = .recv ∨ pc = .done) :
      Move s action { view s with egress := pc }
  | relayed {action : Action} (q : Query) (present : s.interceptor ≠ none)
      (fresh : q.id = s.history.queries) (relayed : q.relayed = true) :
      Move s action { view s with ingress := .asking q
                                  history.queries := s.history.queries + 1 }
  | intercepted {action : Action} (q : Query) (present : s.interceptor ≠ none)
      (fresh : q.id = s.history.queries) (intercepted : q.relayed = false) :
      Move s action { view s with ingress := .placing q
                                  history.queries := s.history.queries + 1 }
  | unplaced {action : Action} (q : Query) (pc : s.ingress.pc = .placing q)
      (unread : txid q.parsed.dns = none) : Move s action { view s with ingress := .asking q }
  | placed {nonce : Nonce} {ok : Bool} (q : Query) (pc : s.ingress.pc = .placing q) :
      Move s (.ingress nonce ok) { view s with ingress := .sealing q
                                               pending := recordPending s.pending q.parsed
                                               history.placed := q :: s.history.placed }
  | unsealed {nonce : Nonce} {ok : Bool} (q : Query) (i : Interceptor) (e : CryptoError)
      (pc : s.ingress.pc = .sealing q) (present : s.interceptor = some i)
      (failed : encode prims s.carrier (nonce.salt s.carrier.cipher) nonce.random
        (i.cleanPacket q.parsed) = .error e) :
      Move s (.ingress nonce ok) { view s with ingress := .asking q
                                               pending := clearPending s.pending q.parsed.dns
                                               history.placed := withdraw s.history.placed q.id }
  | sealed {action : Action} (q : Query) (clean : Clean) (pc : s.ingress.pc = .sealing q)
      (same : clean.id = q.id) :
      Move s action { view s with ingress := .asking q, detached := s.detached ++ [clean] }
  | asked {nonce : Nonce} (q : Query) (pc : s.ingress.pc = .asking q) :
      Move s (.ingress nonce true) { view s with ingress := .listening q
                                                 history.directOut := q :: s.history.directOut }
  | tookRelayed {action : Action} (q : Query) (datagram : Datagram) (rest : List Datagram)
      (pc : s.ingress.pc = .listening q) (head : s.directIn = datagram :: rest)
      (relayed : q.relayed = true) :
      Move s action { view s with ingress := .responding q (datagram.payload.take answerBuffer)
                                  directIn := rest
                                  history.taken := s.history.taken ++ [(q, datagram)]
                                  history.answered := q.id :: s.history.answered }
  | took {action : Action} (q : Query) (datagram : Datagram) (rest : List Datagram)
      (pc : s.ingress.pc = .listening q) (head : s.directIn = datagram :: rest) :
      Move s action { view s with ingress := .deciding q (datagram.payload.take answerBuffer)
                                  directIn := rest
                                  history.taken := s.history.taken ++ [(q, datagram)] }
  | domestic {nonce : Nonce} {ok : Bool} (q : Query) (answer : Bytes) (i : Interceptor)
      (pc : s.ingress.pc = .deciding q answer) (present : s.interceptor = some i)
      (domestic : i.isDomestic answer = true) :
      Move s (.ingress nonce ok) { view s with ingress := .responding q answer
                                               pending := clearPending s.pending q.parsed.dns
                                               history.placed := withdraw s.history.placed q.id
                                               history.answered := q.id :: s.history.answered }
  | foreign {action : Action} (q : Query) (answer : Bytes) (pc : s.ingress.pc = .deciding q answer) :
      Move s action { view s with ingress := .recv, history.foreign := q.id :: s.history.foreign }
  | responded {nonce : Nonce} {ok : Bool} (q : Query) (answer : Bytes)
      (pc : s.ingress.pc = .responding q answer) :
      Move s (.ingress nonce ok)
        { view s with ingress := .recv
                      emitted := s.emitted ++ [⟨responsePacket q.parsed answer, true, some q.id⟩] }
  | received (arrival : Arrival) (rest : List Arrival) (pc : s.egress.pc = .recv)
      (head : s.tunnelIn = arrival :: rest) :
      Move s (.egress true) { view s with egress := .received arrival, tunnelIn := rest
                                          history.replied :=
                                            arrival.origin.toList ++ s.history.replied }
  | paired {ok : Bool} (arrival : Arrival) (pc : s.egress.pc = .received arrival) :
      Move s (.egress ok) (view (pairDatagram prims s arrival))
  | wrote {ok : Bool} (packet : Bytes) (rest : List Bytes) (origin : Option Nat)
      (pc : s.egress.pc = .writing (packet :: rest) origin) :
      Move s (.egress ok) { view s with egress := .writing rest origin
                                        emitted := s.emitted ++ [⟨packet, false, origin⟩] }
  | cleanLost {action : Action} (index : Nat) :
      Move s action { view s with detached := s.detached.eraseIdx index }
  | cleanSent {action : Action} (index : Nat) (clean : Clean) (found : s.detached[index]? = some clean) :
      Move s action { view s with detached := s.detached.eraseIdx index
                                  history.cleanOut := clean.id :: s.history.cleanOut }
  | directStray (datagram : Datagram) (stray : datagram.origin = none) :
      Move s (.directArrives datagram) { view s with directIn := s.directIn ++ [datagram] }
  | directReply (datagram : Datagram) (i : Interceptor) (q : Query) (present : s.interceptor = some i)
      (member : q ∈ s.history.directOut) (reply : datagram.origin = some q.id)
      (answers : Answers i q datagram) :
      Move s (.directArrives datagram)
        { view s with directIn := s.directIn ++ [datagram]
                      history.directOut := withdraw s.history.directOut q.id }
  | tunnelStray {action : Action} (arrival : Arrival) (stray : arrival.origin = none) :
      Move s action { view s with tunnelIn := s.tunnelIn ++ [arrival] }
  | tunnelReply {action : Action} (arrival : Arrival) (id : Nat) (reply : arrival.origin = some id)
      (member : id ∈ s.history.cleanOut) :
      Move s action { view s with tunnelIn := s.tunnelIn ++ [arrival]
                                  history.cleanOut := s.history.cleanOut.erase id }

variable {prims}

theorem Move.interceptor {s : Session} {action : Action} {v : View} (move : Move prims s action v) :
    v.interceptor = s.interceptor := by
  cases move <;> rfl

theorem receivePacket_move {s after : Session} {action : Action}
    (taken : receivePacket s = some after) : Move prims s action (view after) := by
  unfold receivePacket at taken
  cases waiting : s.queue with
  | nil =>
    simp only [waiting] at taken
    split at taken
    · exact Option.some.inj taken ▸ .release .done rfl
    · exact absurd taken (by simp)
  | cons pkt rest =>
    simp only [waiting] at taken
    split at taken
    · exact Option.some.inj taken ▸ .release (.forwarding pkt) rfl
    · next i present =>
      have mode : s.interceptor ≠ none := fun absent => by
        rw [show s.interceptor = some i from present] at absent
        cases absent
      cases verdict : examine pkt with
      | forward =>
        simp only [verdict] at taken
        exact Option.some.inj taken ▸ .release (.forwarding pkt) rfl
      | relay q =>
        simp only [verdict, enroll] at taken
        exact Option.some.inj taken ▸ .relayed ⟨s.history.queries, true, q⟩ mode rfl rfl
      | intercept q =>
        simp only [verdict, enroll] at taken
        exact Option.some.inj taken ▸ .intercepted ⟨s.history.queries, false, q⟩ mode rfl rfl

theorem place_move {s : Session} {nonce : Nonce} {ok : Bool} {q : Query}
    (pc : s.ingress.pc = .placing q) : Move prims s (.ingress nonce ok) (view (place s q)) := by
  unfold place
  cases read : txid q.parsed.dns with
  | none => exact .unplaced q pc read
  | some id => exact .placed q pc

theorem sealClean_move {s : Session} {nonce : Nonce} {ok : Bool} {q : Query} {i : Interceptor}
    (pc : s.ingress.pc = .sealing q) (present : s.interceptor = some i) :
    Move prims s (.ingress nonce ok) (view (sealClean prims s i q nonce)) := by
  unfold sealClean
  cases encoded : encode prims s.carrier (nonce.salt s.carrier.cipher) nonce.random
      (i.cleanPacket q.parsed) with
  | error e =>
    simp only [encoded]
    exact .unsealed q i e pc present encoded
  | ok sent =>
    simp only [encoded]
    exact .sealed q ⟨q.id, i.cleanPacket q.parsed, sent.1⟩ pc rfl

theorem awaitAnswer_move {s after : Session} {action : Action} {q : Query} {ok : Bool}
    (pc : s.ingress.pc = .listening q) (taken : awaitAnswer s q ok = some after) :
    Move prims s action (view after) := by
  unfold awaitAnswer at taken
  cases ok with
  | false => exact Option.some.inj taken ▸ .release .recv rfl
  | true =>
    cases head : s.directIn with
    | nil => simp [head] at taken
    | cons datagram rest =>
      simp only [head, if_true] at taken
      by_cases relayed : q.relayed = true
      · simp only [if_pos relayed] at taken
        exact Option.some.inj taken ▸ .tookRelayed q datagram rest pc head relayed
      · simp only [if_neg relayed] at taken
        exact Option.some.inj taken ▸ .took q datagram rest pc head

theorem decideAnswer_move {s : Session} {nonce : Nonce} {ok : Bool} {q : Query} {i : Interceptor}
    {answer : Bytes} (pc : s.ingress.pc = .deciding q answer) (present : s.interceptor = some i) :
    Move prims s (.ingress nonce ok) (view (decideAnswer s i q answer)) := by
  unfold decideAnswer
  by_cases domestic : i.isDomestic answer = true
  · rw [if_pos domestic]
    exact .domestic q answer i pc present domestic
  · rw [if_neg domestic]
    exact .foreign q answer pc

theorem ingressStep_move {s after : Session} {nonce : Nonce} {ok : Bool}
    (taken : ingressStep prims s nonce ok = some after) :
    Move prims s (.ingress nonce ok) (view after) := by
  unfold ingressStep at taken
  split at taken
  · cases pc : s.ingress.pc with
    | recv =>
      simp only [pc] at taken
      exact receivePacket_move taken
    | placing q =>
      simp only [pc] at taken
      exact Option.some.inj taken ▸ place_move pc
    | sealing q =>
      simp only [pc, Option.map_eq_some_iff] at taken
      obtain ⟨i, present, same⟩ := taken
      exact same ▸ sealClean_move pc present
    | asking q =>
      simp only [pc] at taken
      cases ok with
      | true => exact Option.some.inj taken ▸ .asked q pc
      | false => exact Option.some.inj taken ▸ .release .recv rfl
    | listening q =>
      simp only [pc] at taken
      exact awaitAnswer_move pc taken
    | deciding q answer =>
      simp only [pc, Option.map_eq_some_iff] at taken
      obtain ⟨i, present, same⟩ := taken
      exact same ▸ decideAnswer_move pc present
    | responding q answer =>
      simp only [pc] at taken
      exact Option.some.inj taken ▸ .responded q answer pc
    | forwarding pkt =>
      simp only [pc, forward] at taken
      split at taken
      · exact Option.some.inj taken ▸ .release .recv rfl
      · exact Option.some.inj taken ▸ .release (.sending pkt _) rfl
    | sending pkt wire =>
      simp only [pc] at taken
      cases ok with
      | true => exact Option.some.inj taken ▸ .release .recv rfl
      | false => exact Option.some.inj taken ▸ .release .done rfl
    | done => simp [pc] at taken
  · exact absurd taken (by simp)

theorem egressStep_move {s after : Session} {ok : Bool} (taken : egressStep prims s ok = some after) :
    Move prims s (.egress ok) (view after) := by
  unfold egressStep at taken
  split at taken
  · cases pc : s.egress.pc with
    | recv =>
      simp only [pc, receiveDatagram] at taken
      cases ok with
      | false => exact Option.some.inj taken ▸ .rest .done (.inr rfl)
      | true =>
        cases head : s.tunnelIn with
        | nil => simp [head] at taken
        | cons arrival rest =>
          simp only [head, if_true] at taken
          exact Option.some.inj taken ▸ .received arrival rest pc head
    | received arrival =>
      simp only [pc] at taken
      exact Option.some.inj taken ▸ .paired arrival pc
    | writing packets origin =>
      simp only [pc] at taken
      cases packets with
      | nil => exact Option.some.inj taken ▸ .rest .recv (.inl rfl)
      | cons packet rest => exact Option.some.inj taken ▸ .wrote packet rest origin pc
    | done => simp [pc] at taken
  · exact absurd taken (by simp)

theorem keepaliveStep_view {s after : Session} {nonce : Nonce} {ok : Bool}
    (taken : keepaliveStep prims s nonce ok = some after) : view after = view s := by
  unfold keepaliveStep at taken
  split at taken
  · split at taken
    · split at taken
      · exact Option.some.inj taken ▸ rfl
      · exact Option.some.inj taken ▸ rfl
    · exact Option.some.inj taken ▸ rfl
    · exact absurd taken (by simp)
  · exact absurd taken (by simp)

theorem cleanSend_move {s after : Session} {action : Action} {index : Nat} {ok : Bool}
    (taken : cleanSend s index ok = some after) : Move prims s action (view after) := by
  simp only [cleanSend, Option.map_eq_some_iff] at taken
  obtain ⟨clean, found, same⟩ := taken
  cases ok with
  | true => exact same ▸ .cleanSent index clean found
  | false => exact same ▸ .cleanLost index

theorem directArrives_move {s after : Session} {datagram : Datagram}
    (taken : directArrives s datagram = some after) :
    Move prims s (.directArrives datagram) (view after) := by
  unfold directArrives at taken
  split at taken
  · exact absurd taken (by simp)
  · next stray => exact Option.some.inj taken ▸ .directStray datagram stray
  · next i id present origin =>
    split at taken
    · next reply =>
      obtain ⟨q, member, same, answers⟩ := reply
      subst same
      exact Option.some.inj taken ▸ .directReply datagram i q present member origin answers
    · exact absurd taken (by simp)

theorem tunnelArrives_move {s after : Session} {action : Action} {arrival : Arrival}
    (taken : tunnelArrives prims s arrival = some after) : Move prims s action (view after) := by
  unfold tunnelArrives at taken
  cases origin : arrival.origin with
  | none =>
    simp only [origin] at taken
    exact Option.some.inj taken ▸ .tunnelStray arrival origin
  | some id =>
    simp only [origin] at taken
    split at taken
    · next reply => exact Option.some.inj taken ▸ .tunnelReply arrival id origin reply.1
    · exact absurd taken (by simp)

/-- What arrives for a query touches its queue and the list of open queries. -/
theorem directArrives_some {s after : Session} {datagram : Datagram}
    (taken : directArrives s datagram = some after) :
    ∃ queue out, after = { s with directIn := queue, history.directOut := out } := by
  unfold directArrives at taken
  split at taken
  · cases taken
  · exact ⟨_, s.history.directOut, (Option.some.inj taken).symm⟩
  · split at taken
    · exact ⟨_, _, (Option.some.inj taken).symm⟩
    · cases taken

theorem tunnelArrives_some {s after : Session} {arrival : Arrival}
    (taken : tunnelArrives prims s arrival = some after) :
    ∃ queue out, after = { s with tunnelIn := queue, history.cleanOut := out } := by
  unfold tunnelArrives at taken
  split at taken
  · exact ⟨_, s.history.cleanOut, (Option.some.inj taken).symm⟩
  · split at taken
    · exact ⟨_, _, (Option.some.inj taken).symm⟩
    · cases taken

theorem trySend_view (s : Session) (pkt : Bytes) : view (trySend s pkt).1 = view s := by
  unfold trySend
  split
  · rfl
  · split
    · rfl
    · rfl

theorem parkTask_view {s after : Session} {which : Which} (taken : parkTask s which = some after) :
    view after = view s := by
  cases which with
  | ingress | egress | keepalive =>
    obtain ⟨task, parked, rfl⟩ := Option.map_eq_some_iff.mp taken
    obtain ⟨_, rfl⟩ := Task.park_some parked
    rfl

theorem cancelTask_move {s after : Session} {action : Action} {which : Which}
    (taken : cancelTask s which = some after) : Move prims s action (view after) := by
  cases which with
  | ingress =>
    obtain ⟨task, cancelled, rfl⟩ := Option.map_eq_some_iff.mp taken
    obtain ⟨_, _, rfl⟩ := Task.cancel_some cancelled
    exact .release .done rfl
  | egress =>
    obtain ⟨task, cancelled, rfl⟩ := Option.map_eq_some_iff.mp taken
    obtain ⟨_, _, rfl⟩ := Task.cancel_some cancelled
    exact .rest .done (.inr rfl)
  | keepalive =>
    obtain ⟨task, cancelled, rfl⟩ := Option.map_eq_some_iff.mp taken
    obtain ⟨_, _, rfl⟩ := Task.cancel_some cancelled
    exact .quiet

/-- Every step is a move. -/
theorem step_move {s after : Session} {action : Action} (taken : step prims s action = some after) :
    Move prims s action (view after) := by
  cases action with
  | cloneSender => exact Option.some.inj taken ▸ .quiet
  | dropSender =>
    simp only [step] at taken
    split at taken
    · exact Option.some.inj taken ▸ .quiet
    · exact absurd taken (by simp)
  | trySend pkt =>
    simp only [step] at taken
    split at taken
    · exact Option.some.inj taken ▸ trySend_view s pkt ▸ .quiet
    · exact absurd taken (by simp)
  | abort which =>
    cases which with
    | ingress | egress | keepalive => exact Option.some.inj taken ▸ .quiet
  | park which => exact parkTask_view taken ▸ .quiet
  | cancel which => exact cancelTask_move taken
  | directArrives datagram => exact directArrives_move taken
  | tunnelArrives arrival => exact tunnelArrives_move taken
  | ingress nonce ok => exact ingressStep_move taken
  | egress ok => exact egressStep_move taken
  | keepalive nonce ok => exact keepaliveStep_view taken ▸ .quiet
  | cleanSend index ok => exact cleanSend_move taken

/-- A move hands something over only from the two places where a task holds a packet. -/
theorem Move.emitted {s : Session} {action : Action} {v : View} (move : Move prims s action v) :
    v.emitted = s.emitted ∨ (∃ nonce ok q answer, action = .ingress nonce ok ∧
      s.ingress.pc = .responding q answer) ∨ ∃ ok, action = .egress ok := by
  cases move with
  | responded q answer pc => exact .inr (.inl ⟨_, _, q, answer, rfl, pc⟩)
  | wrote packet rest origin pc => exact .inr (.inr ⟨_, rfl⟩)
  | _ => exact .inl rfl

/-- Without an interceptor the ingress task never works on a query. -/
theorem Move.plain {s : Session} {action : Action} {v : View} (move : Move prims s action v)
    (absent : s.interceptor = none) (idle : query s.ingress.pc = none) : query v.ingress = none := by
  cases move with
  | release pc idle => exact idle
  | relayed q present => exact absurd absent present
  | intercepted q present => exact absurd absent present
  | unplaced q pc => simp [pc, query] at idle
  | placed q pc => simp [pc, query] at idle
  | unsealed q i e pc => simp [pc, query] at idle
  | «sealed» q clean pc => simp [pc, query] at idle
  | asked q pc => simp [pc, query] at idle
  | tookRelayed q datagram rest pc => simp [pc, query] at idle
  | took q datagram rest pc => simp [pc, query] at idle
  | domestic q answer i pc => simp [pc, query] at idle
  | foreign q answer pc => rfl
  | responded q answer pc => rfl
  | _ => exact idle

/-- A step of the ingress task leaves the abort flag and the egress task alone. -/
theorem ingressStep_tasks {s after : Session} {nonce : Nonce} {ok : Bool}
    (taken : ingressStep prims s nonce ok = some after) :
    s.ingress.runnable = true ∧ s.ingress.pc ≠ .done ∧ after.ingress.aborted = s.ingress.aborted ∧
      after.egress = s.egress := by
  unfold ingressStep at taken
  split at taken
  · next runnable =>
    refine ⟨runnable, ?_⟩
    cases pc : s.ingress.pc with
    | recv =>
      simp only [pc, receivePacket] at taken
      split at taken
      · split at taken
        · exact Option.some.inj taken ▸ ⟨nofun, rfl, rfl⟩
        · exact absurd taken (by simp)
      · split at taken
        · exact Option.some.inj taken ▸ ⟨nofun, rfl, rfl⟩
        · split at taken <;> exact Option.some.inj taken ▸ ⟨nofun, rfl, rfl⟩
    | placing q =>
      simp only [pc, place] at taken
      split at taken <;> exact Option.some.inj taken ▸ ⟨nofun, rfl, rfl⟩
    | sealing q =>
      simp only [pc, Option.map_eq_some_iff, sealClean] at taken
      obtain ⟨i, _, same⟩ := taken
      split at same <;> exact same ▸ ⟨nofun, rfl, rfl⟩
    | asking q =>
      simp only [pc, ask] at taken
      split at taken <;> exact Option.some.inj taken ▸ ⟨nofun, rfl, rfl⟩
    | listening q =>
      simp only [pc, awaitAnswer] at taken
      split at taken
      · split at taken
        · exact absurd taken (by simp)
        · split at taken <;> exact Option.some.inj taken ▸ ⟨nofun, rfl, rfl⟩
      · exact Option.some.inj taken ▸ ⟨nofun, rfl, rfl⟩
    | deciding q answer =>
      simp only [pc, Option.map_eq_some_iff, decideAnswer] at taken
      obtain ⟨i, _, same⟩ := taken
      split at same <;> exact same ▸ ⟨nofun, rfl, rfl⟩
    | responding q answer =>
      simp only [pc] at taken
      exact Option.some.inj taken ▸ ⟨nofun, rfl, rfl⟩
    | forwarding pkt =>
      simp only [pc, forward] at taken
      split at taken <;> exact Option.some.inj taken ▸ ⟨nofun, rfl, rfl⟩
    | sending pkt wire =>
      simp only [pc, sendPacket] at taken
      split at taken <;> exact Option.some.inj taken ▸ ⟨nofun, rfl, rfl⟩
    | done => simp [pc] at taken
  · exact absurd taken (by simp)

theorem egressStep_tasks {s after : Session} {ok : Bool} (taken : egressStep prims s ok = some after) :
    s.egress.runnable = true ∧ s.egress.pc ≠ .done ∧ after.egress.aborted = s.egress.aborted ∧
      after.ingress = s.ingress := by
  unfold egressStep at taken
  split at taken
  · next runnable =>
    refine ⟨runnable, ?_⟩
    cases pc : s.egress.pc with
    | recv =>
      simp only [pc, receiveDatagram] at taken
      split at taken
      · split at taken
        · exact absurd taken (by simp)
        · exact Option.some.inj taken ▸ ⟨nofun, rfl, rfl⟩
      · exact Option.some.inj taken ▸ ⟨nofun, rfl, rfl⟩
    | received arrival =>
      simp only [pc] at taken
      exact Option.some.inj taken ▸ ⟨nofun, rfl, rfl⟩
    | writing packets origin =>
      simp only [pc, writePackets] at taken
      split at taken <;> exact Option.some.inj taken ▸ ⟨nofun, rfl, rfl⟩
    | done => simp [pc] at taken
  · exact absurd taken (by simp)

/-- The other steps leave both tasks alone, but for their flags and their end. -/
theorem keepaliveStep_tasks {s after : Session} {nonce : Nonce} {ok : Bool}
    (taken : keepaliveStep prims s nonce ok = some after) :
    after.ingress = s.ingress ∧ after.egress = s.egress := by
  unfold keepaliveStep at taken
  split at taken
  · split at taken
    · split at taken
      · exact Option.some.inj taken ▸ ⟨rfl, rfl⟩
      · exact Option.some.inj taken ▸ ⟨rfl, rfl⟩
    · exact Option.some.inj taken ▸ ⟨rfl, rfl⟩
    · exact absurd taken (by simp)
  · exact absurd taken (by simp)

end Moves

end ShadowVpn.Engine.Moves
