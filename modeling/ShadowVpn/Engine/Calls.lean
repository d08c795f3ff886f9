import ShadowVpn.Engine.Direct
import ShadowVpn.Engine.Waiting

/-! One call of `try_intercept` for an A/IN query, among the steps of the other tasks: when it hands
the direct answer to the writer, and what it leaves in the pending table. -/

namespace ShadowVpn.Engine.Calls
open ShadowVpn.Lib.Octets ShadowVpn.Lib.Transition ShadowVpn.Net.Udp ShadowVpn.Net.Dns
open ShadowVpn.Wire.Crypto ShadowVpn.Engine.Intercept ShadowVpn.Engine.Datagram
open ShadowVpn.Engine.DataPlane ShadowVpn.Engine.Moves
open ShadowVpn.Engine.Direct (body)
open ShadowVpn.Engine.Waiting (encrypts pairDatagram_pending)

/-- The direct answers handed to the writer. -/
def direct (s : Session) : List Emission := s.emitted.filter Emission.direct

/-- The direct answer to a query, on its way to the client. -/
def localAnswer (q : Query) (answer : Bytes) : Emission := ⟨responsePacket q.parsed answer, true, some q.id⟩

/-- The client was handed this answer to its query, in one packet from the server that it had asked. -/
def Handed (q : Query) (answer : Bytes) (begun finished : Session) : Prop :=
  ∃ packet, direct finished = direct begun ++ [⟨packet, true, some q.id⟩] ∧
    IsUdp packet ⟨⟨q.parsed.serverIp, q.parsed.serverPort⟩, ⟨q.parsed.clientIp, q.parsed.clientPort⟩, answer⟩

theorem Handed.grows {q : Query} {answer : Bytes} {begun finished : Session}
    (handed : Handed q answer begun finished) : direct finished ≠ direct begun := by
  obtain ⟨packet, more, _⟩ := handed
  rw [more]
  simp

/-- The ingress task is in `try_intercept`. -/
def inside (s : Session) : Bool := (query s.ingress.pc).isSome

section Calls

variable (prims : Primitives)

/-- A call for an A/IN query: the step that takes its packet, then steps of any task while the call lasts,
until the ingress task waits for the next packet. All steps of the call pass the test. -/
structure Call (test : Session → Action → Bool) (i : Interceptor) (q : Query) (begun finished : Session) :
    Prop where
  present : begun.interceptor = some i
  waits : begun.ingress.pc = .recv
  runs : ∃ nonce ok placing, step prims begun (.ingress nonce ok) = some placing ∧
    placing.ingress.pc = .placing q ∧
    Reaches (step prims) (fun s action => (inside s && test s action) = true) placing finished
  returned : finished.ingress.pc = .recv

theorem Call.mono {prims : Primitives} {test wider : Session → Action → Bool} {i : Interceptor} {q : Query}
    {begun finished : Session} (weaker : ∀ s action, test s action = true → wider s action = true)
    (call : Call prims test i q begun finished) : Call prims wider i q begun finished := by
  obtain ⟨nonce, ok, placing, taken, here, lasts⟩ := call.runs
  refine ⟨call.present, call.waits, ⟨nonce, ok, placing, taken, here, ?_⟩, call.returned⟩
  refine lasts.mono fun s action allowed => ?_
  obtain ⟨working, tested⟩ := Bool.and_eq_true_iff.mp allowed
  exact Bool.and_eq_true_iff.mpr ⟨working, weaker s action tested⟩

/-- The id of the message in the packet of a tunneled datagram. -/
def replyId (s : Session) (wire : Bytes) : Option (BitVec 16) :=
  ((readable prims s.carrier wire).bind parseUdpDnsQuery).bind fun reply => txid reply.dns

/-- The clean copy of the query is encrypted, and no tunneled packet with its id is taken for a reply. -/
def spares (q : Query) (s : Session) (action : Action) : Bool :=
  match action with
  | .ingress nonce _ =>
    match s.ingress.pc, s.interceptor with
    | .sealing _, some i => encrypts prims s i q nonce
    | _, _ => true
  | .egress _ =>
    match s.egress.pc with
    | .received arrival =>
      !(consumes prims s arrival.wire && replyId prims s arrival.wire == txid q.parsed.dns)
    | _ => true
  | _ => true

variable {prims}

/-- What a step of another task leaves as it is. -/
structure Aside (s after : Session) : Prop where
  interceptor : after.interceptor = s.interceptor
  taken : after.history.taken = s.history.taken
  direct : direct after = direct s
  pc : after.ingress.pc = s.ingress.pc ∨ after.ingress.pc = .done

/-- The table too, or a reply takes its entry away. -/
def TableAside (prims : Primitives) (s : Session) (action : Action) (after : Session) : Prop :=
  after.pending = s.pending ∨ ∃ ok arrival key, action = .egress ok ∧ s.egress.pc = .received arrival ∧
    consumes prims s arrival.wire = true ∧ replyId prims s arrival.wire = some key ∧
    after.pending = s.pending.remove key

theorem Aside.of_view {s after : Session} (same : view after = view s) : Aside s after where
  interceptor := congrArg View.interceptor same
  taken := congrArg (fun v => v.history.taken) same
  direct := congrArg (fun v => v.emitted.filter Emission.direct) same
  pc := .inl (congrArg View.ingress same)

theorem pairDatagram_aside (s : Session) (ok : Bool) (arrival : Arrival) (pc : s.egress.pc = .received arrival) :
    TableAside prims s (.egress ok) (pairDatagram prims s arrival) := by
  rcases @pairDatagram_pending prims s arrival with
    ⟨_, same⟩ | ⟨consumed, i, reply, key, _, parsed, _, read, removed⟩
  · exact .inl same
  · refine .inr ⟨ok, arrival, key, rfl, pc, consumed, ?_, removed⟩
    rw [replyId, parsed, Option.bind_some, read]

theorem egressStep_aside {s after : Session} {ok : Bool} (taken : egressStep prims s ok = some after) :
    Aside s after ∧ TableAside prims s (.egress ok) after := by
  unfold egressStep at taken
  split at taken
  · cases pc : s.egress.pc with
    | recv =>
      simp only [pc, receiveDatagram] at taken
      split at taken
      · split at taken
        · cases taken
        · exact Option.some.inj taken ▸ ⟨⟨rfl, rfl, rfl, .inl rfl⟩, .inl rfl⟩
      · exact Option.some.inj taken ▸ ⟨⟨rfl, rfl, rfl, .inl rfl⟩, .inl rfl⟩
    | received arrival =>
      simp only [pc] at taken
      exact Option.some.inj taken ▸ ⟨⟨rfl, rfl, rfl, .inl rfl⟩, pairDatagram_aside s ok arrival pc⟩
    | writing packets origin =>
      simp only [pc] at taken
      cases packets with
      | nil => exact Option.some.inj taken ▸ ⟨⟨rfl, rfl, rfl, .inl rfl⟩, .inl rfl⟩
      | cons packet rest =>
        refine Option.some.inj taken ▸ ⟨⟨rfl, rfl, ?_, .inl rfl⟩, .inl rfl⟩
        simp [writePackets, direct, Session.emit, List.filter_append]
    | done => simp [pc] at taken
  · cases taken

/-- A step of another task leaves the call where it is, or the task is cancelled. -/
theorem step_aside {s after : Session} {action : Action} (taken : step prims s action = some after)
    (other : ∀ nonce ok, action ≠ .ingress nonce ok) : Aside s after ∧ TableAside prims s action after := by
  cases action with
  | cloneSender => exact Option.some.inj taken ▸ ⟨.of_view rfl, .inl rfl⟩
  | dropSender =>
    simp only [step, Option.ite_none_right_eq_some] at taken
    exact Option.some.inj taken.2 ▸ ⟨.of_view rfl, .inl rfl⟩
  | trySend pkt =>
    simp only [step, Option.ite_none_right_eq_some] at taken
    have same := trySend_view s pkt
    exact Option.some.inj taken.2 ▸ ⟨.of_view same, .inl (congrArg View.pending same)⟩
  | abort which =>
    cases which with
    | ingress | egress | keepalive => exact Option.some.inj taken ▸ ⟨.of_view rfl, .inl rfl⟩
  | park which =>
    have same := parkTask_view taken
    exact ⟨.of_view same, .inl (congrArg View.pending same)⟩
  | cancel which =>
    cases which with
    | ingress =>
      obtain ⟨task, cancelled, rfl⟩ := Option.map_eq_some_iff.mp taken
      obtain ⟨_, _, rfl⟩ := Task.cancel_some cancelled
      exact ⟨⟨rfl, rfl, rfl, .inr rfl⟩, .inl rfl⟩
    | egress | keepalive =>
      obtain ⟨task, cancelled, rfl⟩ := Option.map_eq_some_iff.mp taken
      exact ⟨⟨rfl, rfl, rfl, .inl rfl⟩, .inl rfl⟩
  | directArrives datagram =>
    obtain ⟨_, _, rfl⟩ := directArrives_some taken
    exact ⟨⟨rfl, rfl, rfl, .inl rfl⟩, .inl rfl⟩
  | tunnelArrives arrival =>
    obtain ⟨_, _, rfl⟩ := tunnelArrives_some taken
    exact ⟨⟨rfl, rfl, rfl, .inl rfl⟩, .inl rfl⟩
  | ingress nonce ok => exact absurd rfl (other nonce ok)
  | egress ok => exact egressStep_aside taken
  | keepalive nonce ok =>
    have same := keepaliveStep_view taken
    exact ⟨.of_view same, .inl (congrArg View.pending same)⟩
  | cleanSend index ok =>
    obtain ⟨clean, _, rfl⟩ := Option.map_eq_some_iff.mp taken
    cases ok with
    | true | false => exact ⟨⟨rfl, rfl, rfl, .inl rfl⟩, .inl rfl⟩

section Stages

variable (i : Interceptor) (q : Query) (id : BitVec 16) (spared : Prop) (begun : Session)

/-- The record of the query is in the table, if the call is spared. -/
def Waits (s : Session) : Prop := spared → s.pending id = some (record q.parsed)

/-- The end of a call that got its direct answer. -/
def Outcome (answer : Bytes) (s : Session) : Prop :=
  if i.isDomestic answer then direct s = direct begun ++ [localAnswer q answer] ∧ s.pending id = none
  else direct s = direct begun ∧ Waits q id spared s

/-- An answer that fits the buffer is handed over exactly if it is found domestic. -/
theorem Outcome.handed_iff {i : Interceptor} {q : Query} {id : BitVec 16} {spared : Prop} {begun finished : Session}
    {answer : Bytes} (outcome : Outcome i q id spared begun answer finished) (small : answer.length ≤ answerBuffer) :
    Handed q answer begun finished ↔ i.isDomestic answer = true := by
  unfold Outcome at outcome
  split at outcome
  · next domestic =>
    refine iff_of_true ⟨responsePacket q.parsed answer, outcome.1, ?_⟩ domestic
    have fits : udpHeader + answer.length < 65536 := by
      simp only [udpHeader, answerBuffer] at small ⊢
      omega
    exact buildUdpIpv4_isUdp ⟨q.parsed.serverIp, q.parsed.serverPort⟩
      ⟨q.parsed.clientIp, q.parsed.clientPort⟩ answer fits
  · next foreign => exact iff_of_false (fun handed => handed.grows outcome.1) foreign

/-- The datagram behind an answer is the only one that was read. -/
def Took (answer : Bytes) (s : Session) : Prop :=
  ∃ datagram, s.history.taken = begun.history.taken ++ [(q, datagram)] ∧ answer = body datagram

/-- Nothing was read and nothing handed over. -/
def Idle (s : Session) : Prop := s.history.taken = begun.history.taken ∧ direct s = direct begun

/-- How far a call is, by where the ingress task stands. -/
def Stage (s : Session) : Prop :=
  match s.ingress.pc with
  | .placing p => p = q ∧ Idle begun s
  | .sealing p | .asking p | .listening p => p = q ∧ Idle begun s ∧ Waits q id spared s
  | .deciding p answer =>
    p = q ∧ direct s = direct begun ∧ Took q begun answer s ∧ Waits q id spared s
  | .responding p answer =>
    p = q ∧ direct s = direct begun ∧ Took q begun answer s ∧ i.isDomestic answer = true ∧ s.pending id = none
  | .recv => Idle begun s ∨ ∃ answer, Took q begun answer s ∧ Outcome i q id spared begun answer s
  | .done => True
  | .forwarding _ | .sending _ _ => False

variable {i q id spared begun}

theorem Stage.aside {s after : Session} (stage : Stage i q id spared begun s) (working : inside s = true)
    (aside : Aside s after) (waits : Waits q id spared s → Waits q id spared after)
    (cleared : s.pending id = none → after.pending id = none) : Stage i q id spared begun after := by
  rcases aside.pc with same | stopped
  · unfold Stage Idle Took at stage ⊢
    rw [same, aside.taken, aside.direct]
    cases pc : s.ingress.pc with
    | placing p =>
      rw [pc] at stage
      exact stage
    | sealing p | asking p | listening p =>
      rw [pc] at stage
      exact ⟨stage.1, stage.2.1, waits stage.2.2⟩
    | deciding p answer =>
      rw [pc] at stage
      exact ⟨stage.1, stage.2.1, stage.2.2.1, waits stage.2.2.2⟩
    | responding p answer =>
      rw [pc] at stage
      exact ⟨stage.1, stage.2.1, stage.2.2.1, stage.2.2.2.1, cleared stage.2.2.2.2⟩
    | recv | forwarding | sending | done =>
      rw [inside, pc] at working
      cases working
  · unfold Stage
    rw [stopped]
    trivial

/-- The table of a spared call keeps the record when a reply is paired. -/
theorem TableAside.waits {s after : Session} {action : Action} (table : TableAside prims s action after)
    (read : txid q.parsed.dns = some id) (spares : spared → spares prims q s action = true)
    (waits : Waits q id spared s) : Waits q id spared after := by
  intro holds
  rcases table with same | ⟨ok, arrival, key, rfl, pc, consumed, replied, removed⟩
  · rw [same]
    exact waits holds
  · have apart := spares holds
    simp only [Calls.spares, pc, consumed, replied, read, Bool.true_and, Bool.not_eq_true',
      beq_eq_false_iff_ne, ne_eq, Option.some.injEq] at apart
    rw [removed, PendingTable.remove_other _ _ _ (Ne.symm apart)]
    exact waits holds

theorem TableAside.cleared {s after : Session} {action : Action} (table : TableAside prims s action after)
    (none : s.pending id = .none) : after.pending id = .none := by
  rcases table with same | ⟨_, _, key, _, _, _, _, removed⟩
  · rw [same]
    exact none
  · rw [removed, PendingTable.remove]
    split
    · rfl
    · exact none

theorem clearPending_same {pending : PendingTable} {dns : Bytes} (read : txid dns = some id) :
    clearPending pending dns id = none := by
  simp only [clearPending, read, PendingTable.remove_same]

theorem awaitAnswer_stage {s after : Session} {ok : Bool} (intercepted : q.relayed = false)
    (idle : Idle begun s) (waits : Waits q id spared s) (taken : awaitAnswer s q ok = some after) :
    Stage i q id spared begun after := by
  unfold awaitAnswer at taken
  split at taken
  · split at taken
    · cases taken
    · next datagram rest head =>
      simp only [intercepted, Bool.false_eq_true, if_false] at taken
      refine Option.some.inj taken ▸ ⟨rfl, idle.2, ⟨datagram, ?_, rfl⟩, waits⟩
      exact congrArg (· ++ [(q, datagram)]) idle.1
  · exact Option.some.inj taken ▸ .inl idle

theorem decideAnswer_stage {s : Session} {answer : Bytes} (read : txid q.parsed.dns = some id)
    (quiet : direct s = direct begun) (took : Took q begun answer s) (waits : Waits q id spared s) :
    Stage i q id spared begun (decideAnswer s i q answer) := by
  unfold decideAnswer
  split
  · next domestic => exact ⟨rfl, quiet, took, domestic, clearPending_same read⟩
  · next foreign =>
    refine .inr ⟨answer, took, ?_⟩
    rw [Outcome, if_neg foreign]
    exact ⟨quiet, waits⟩

theorem respond_stage {s : Session} {answer : Bytes} (quiet : direct s = direct begun)
    (took : Took q begun answer s) (domestic : i.isDomestic answer = true) (cleared : s.pending id = none) :
    Stage i q id spared begun (respond s q answer) := by
  refine .inr ⟨answer, took, ?_⟩
  rw [Outcome, if_pos domestic]
  refine ⟨?_, cleared⟩
  have handed : direct (respond s q answer) = direct s ++ [localAnswer q answer] := by
    simp [respond, direct, Session.emit, Session.enter, List.filter_append, localAnswer]
  rw [handed, quiet]

/-- What the ingress task does next. -/
theorem ingressStep_stage {s after : Session} {nonce : Nonce} {ok : Bool}
    (stage : Stage i q id spared begun s) (working : inside s = true) (present : s.interceptor = some i)
    (read : txid q.parsed.dns = some id) (intercepted : q.relayed = false)
    (spares : spared → spares prims q s (.ingress nonce ok) = true)
    (taken : ingressStep prims s nonce ok = some after) : Stage i q id spared begun after := by
  unfold ingressStep at taken
  split at taken
  · cases pc : s.ingress.pc with
    | placing p =>
      rw [Stage, pc] at stage
      obtain ⟨rfl, idle⟩ := stage
      simp only [pc, place, read] at taken
      refine Option.some.inj taken ▸ ⟨rfl, idle, fun _ => ?_⟩
      exact recordPending_same read
    | sealing p =>
      rw [Stage, pc] at stage
      obtain ⟨rfl, idle, waits⟩ := stage
      simp only [pc, present, Option.map_some, Option.some.injEq] at taken
      rw [← taken, sealClean]
      split
      · next e failed =>
        refine ⟨rfl, idle, fun holds => ?_⟩
        have succeeds := spares holds
        simp [Calls.spares, pc, present, encrypts, failed, Except.isOk, Except.toBool] at succeeds
      · exact ⟨rfl, idle, waits⟩
    | asking p =>
      rw [Stage, pc] at stage
      obtain ⟨rfl, idle, waits⟩ := stage
      simp only [pc, ask] at taken
      split at taken
      · exact Option.some.inj taken ▸ ⟨rfl, idle, waits⟩
      · exact Option.some.inj taken ▸ .inl idle
    | listening p =>
      rw [Stage, pc] at stage
      obtain ⟨rfl, idle, waits⟩ := stage
      simp only [pc] at taken
      exact awaitAnswer_stage intercepted idle waits taken
    | deciding p answer =>
      rw [Stage, pc] at stage
      obtain ⟨rfl, quiet, took, waits⟩ := stage
      simp only [pc, present, Option.map_some, Option.some.injEq] at taken
      exact taken ▸ decideAnswer_stage read quiet took waits
    | responding p answer =>
      rw [Stage, pc] at stage
      obtain ⟨rfl, quiet, took, domestic, cleared⟩ := stage
      simp only [pc, Option.some.injEq] at taken
      exact taken ▸ respond_stage quiet took domestic cleared
    | recv | forwarding | sending | done =>
      rw [inside, pc] at working
      cases working
  · cases taken

theorem step_stage {s after : Session} {action : Action} (stage : Stage i q id spared begun s)
    (working : inside s = true) (present : s.interceptor = some i) (read : txid q.parsed.dns = some id)
    (intercepted : q.relayed = false) (spares : spared → spares prims q s action = true)
    (taken : step prims s action = some after) : Stage i q id spared begun after := by
  by_cases own : ∃ nonce ok, action = .ingress nonce ok
  · obtain ⟨nonce, ok, rfl⟩ := own
    exact ingressStep_stage stage working present read intercepted spares taken
  · obtain ⟨aside, table⟩ := step_aside taken fun nonce ok same => own ⟨nonce, ok, same⟩
    exact stage.aside working aside (table.waits read spares) table.cleared

end Stages

/-- The step that takes the packet of a query. -/
theorem takes_query {s after : Session} {nonce : Nonce} {ok : Bool} {q : Query}
    (waits : s.ingress.pc = .recv) (taken : step prims s (.ingress nonce ok) = some after)
    (placing : after.ingress.pc = .placing q) : q.relayed = false ∧
      (∃ packet, examine packet = .intercept q.parsed) ∧ after.interceptor = s.interceptor ∧
      after.history.taken = s.history.taken ∧ after.emitted = s.emitted := by
  simp only [step, ingressStep, waits] at taken
  split at taken
  · unfold receivePacket at taken
    split at taken
    · split at taken
      · rw [← Option.some.inj taken] at placing
        cases placing
      · cases taken
    · next packet rest head =>
      dsimp only at taken
      split at taken
      · rw [← Option.some.inj taken] at placing
        cases placing
      · split at taken
        · rw [← Option.some.inj taken] at placing
          cases placing
        · rw [← Option.some.inj taken] at placing
          cases placing
        · next p verdict =>
          rw [← Option.some.inj taken] at placing ⊢
          cases placing
          exact ⟨rfl, ⟨packet, verdict⟩, rfl, rfl, rfl⟩
  · cases taken

theorem examine_intercept {packet : Bytes} {q : ParsedQuery} (taken : examine packet = .intercept q) :
    ∃ id, txid q.dns = some id := by
  unfold examine at taken
  split at taken
  · cases taken
  · split at taken
    · cases taken
    · next found =>
      split at taken
      · cases taken
      · cases taken
        exact question_txid found

/-- A call that got its direct answer hands it over exactly if it finds it domestic, and then leaves no
entry under the id; otherwise a spared call leaves the record of its query there. -/
theorem call_outcome {test : Session → Action → Bool} {i : Interceptor} {q : Query} {begun finished : Session}
    {datagram : Datagram} (call : Call prims test i q begun finished)
    (received : finished.history.taken = begun.history.taken ++ [(q, datagram)]) :
    ∃ id, txid q.parsed.dns = some id ∧ Outcome i q id
      (∀ s action, test s action = true → spares prims q s action = true) begun (body datagram) finished := by
  obtain ⟨nonce, ok, placing, taken, here, lasts⟩ := call.runs
  obtain ⟨intercepted, ⟨packet, verdict⟩, present, same, silent⟩ := takes_query call.waits taken here
  obtain ⟨id, read⟩ := examine_intercept verdict
  refine ⟨id, read, ?_⟩
  have start : placing.interceptor = some i ∧ Stage i q id
      (∀ s action, test s action = true → spares prims q s action = true) begun placing := by
    refine ⟨present.trans call.present, ?_⟩
    rw [Stage, here]
    exact ⟨rfl, same, congrArg (List.filter Emission.direct) silent⟩
  obtain ⟨_, stage⟩ := lasts.invariant
    (fun s => s.interceptor = some i ∧ Stage i q id
      (∀ s action, test s action = true → spares prims q s action = true) begun s)
    (fun s action after inv allowed taken => by
      obtain ⟨working, tested⟩ := Bool.and_eq_true_iff.mp allowed
      refine ⟨(step_move taken).interceptor.trans inv.1, ?_⟩
      exact step_stage inv.2 working inv.1 read intercepted (fun all => all s action tested) taken)
    start
  rw [Stage, call.returned] at stage
  rcases stage with idle | ⟨answer, ⟨other, took, rfl⟩, outcome⟩
  · have lengths := congrArg List.length (received.symm.trans idle.1)
    simp at lengths
  · rw [received, List.append_cancel_left_eq, List.cons.injEq, Prod.mk.injEq] at took
    rw [took.1.2]
    exact outcome

end Calls

deriving instance DecidableEq for Query, Datagram, Ingress

/-- A computed call, and what is observed of the session at its end. -/
theorem call_of_run {Seen : Type} {prims : Primitives} {test : Session → Action → Bool} {i : Interceptor}
    {q : Query} {begun : Session} {nonce : Nonce} {ok : Bool} {actions : List Action} {observe : Session → Seen}
    {seen : Seen} (present : begun.interceptor = some i) (waits : begun.ingress.pc = .recv)
    (ran : ((step prims begun (.ingress nonce ok)).bind fun placing =>
      (testedRun (step prims) (fun s action => inside s && test s action) placing actions).map fun finished =>
        (placing.ingress.pc, finished.ingress.pc, observe finished)) = some (.placing q, .recv, seen)) :
    ∃ finished, Call prims test i q begun finished ∧ observe finished = seen := by
  obtain ⟨placing, taken, ran⟩ := Option.bind_eq_some_iff.mp ran
  obtain ⟨finished, ran, parts⟩ := Option.map_eq_some_iff.mp ran
  rw [Prod.mk.injEq, Prod.mk.injEq] at parts
  exact ⟨finished, ⟨present, waits, ⟨nonce, ok, placing, taken, parts.1, reaches_of_testedRun ran⟩, parts.2.1⟩,
    parts.2.2⟩

section Sample

/-- A session to which one query was handed. -/
def sampleBegun : Session := (trySend (start (some sampleInterceptor) sampleCarrier) (sampleQueryPacket 7 5353)).1

def sampleTaken : Query := ⟨0, false, sampleQuery 7⟩

def sampleDatagram : Datagram := ⟨sampleInterceptor.dnsLocal, sampleAnswer 7, some 0⟩

/-- The copy is made and the query asked. -/
def sampleAsking : List Action := [.ingress sampleNonce true, .ingress sampleNonce true, .ingress sampleNonce true]

end Sample

end ShadowVpn.Engine.Calls
