import Mathlib.Data.List.Perm.Basic
import ShadowVpn.Engine.Books

/-! The running flag against the loops behind it. A session serves from its start until a stop is
called; before that its two loops end only by an error of their socket. -/

namespace ShadowVpn.Engine.Running
open ShadowVpn.Lib.Octets ShadowVpn.Lib.Transition ShadowVpn.Wire.Crypto
open ShadowVpn.Engine.Intercept ShadowVpn.Engine.Datagram ShadowVpn.Engine.DataPlane
open ShadowVpn.Engine.Moves ShadowVpn.Engine.Lifecycle ShadowVpn.Engine.Books

/-- Neither loop of the session has exited. -/
structure Alive (s : Session) : Prop where
  ingress : Ingress.ended s.ingress.pc = false
  egress : Egress.ended s.egress.pc = false

/-- `is_running` tells the truth: there is a session, and its loops go on. -/
def Truthful (c : Core) : Prop :=
  c.running = true → ∃ k s, c.slot = some k ∧ c.sessions[k]? = some s ∧ Alive s

/-- `ingest` does not return -1 in a step that finds the data plane running. -/
def Accepting (c d : Core) : Prop := c.running = true → d.codes ≠ c.codes ++ [-1]

/-- The session is in the slot or on its way there, and no stop has been called since. -/
def serving (c : Core) (k : Nat) : Bool :=
  match c.control with
  | .installing j => j == k
  | .idle | .raising => c.slot == some k
  | .lowered _ | .ending _ _ _ => false

/-- The send of the ingress loop or the receive of the egress loop fails. -/
def socketFails (s : Session) : Action → Bool
  | .ingress _ ok => match s.ingress.pc with
    | .sending _ _ => !ok
    | _ => false
  | .egress ok => match s.egress.pc with
    | .recv => !ok
    | _ => false
  | _ => false

/-- An `ingest` that began in an earlier session goes on in the present one, and the loop that read
its channel is over. -/
def overtaken (c : Core) (index : Nat) : Bool :=
  c.running && (c.ingests[index]?).any fun entry => !serving c entry.1 &&
    (c.sessions[entry.1]?).any fun s => Ingress.ended s.ingress.pc

def undisturbed (c : Core) : Event → Bool
  | .session k action => !(serving c k && (c.sessions[k]?).any fun s => socketFails s action)
  | .trySend index => !overtaken c index
  | _ => true

/-- The session's loops go on, nobody has aborted them and their channel has a sender. -/
structure Working (s : Session) : Prop extends Alive s where
  ingressKept : s.ingress.aborted = false
  egressKept : s.egress.aborted = false
  senders : 0 < s.senders

/-- The calls of `ingest` that hold a sender of the session. -/
def waiting (c : Core) (k : Nat) : Nat := c.ingests.countP fun entry => entry.1 == k

/-- A serving session works, and its senders are its own and those of the waiting calls. -/
structure Steady (c : Core) : Prop where
  settled : c.running = true → c.control = .idle ∧ c.slot.isSome = true
  raising : c.control = .raising → c.slot.isSome = true
  ending : ∀ k todo blocking, c.control = .ending k todo blocking → c.slot = none
  known : ∀ entry ∈ c.ingests, entry.1 < c.sessions.length
  works : ∀ k, serving c k = true → ∃ s, c.sessions[k]? = some s ∧ Working s ∧
    s.senders = 1 + waiting c k

section Sessions

variable {prims : Primitives}

theorem receivePacket_continues {s after : Session} (taken : receivePacket s = some after)
    (kept : 0 < s.senders) : Ingress.ended after.ingress.pc = false := by
  simp only [receivePacket] at taken
  split at taken
  · rw [if_neg (Nat.pos_iff_ne_zero.mp kept)] at taken
    cases taken
  · split at taken
    · exact Option.some.inj taken ▸ rfl
    · split at taken <;> exact Option.some.inj taken ▸ rfl

/-- With a sender left, the ingress loop ends only by a failed send. -/
theorem ingressStep_continues {s after : Session} {nonce : Nonce} {ok : Bool}
    (taken : ingressStep prims s nonce ok = some after) (kept : 0 < s.senders)
    (fine : socketFails s (.ingress nonce ok) = false) : Ingress.ended after.ingress.pc = false := by
  unfold ingressStep at taken
  split at taken
  · cases pc : s.ingress.pc with
    | recv =>
      simp only [pc] at taken
      exact receivePacket_continues taken kept
    | placing q =>
      simp only [pc, place] at taken
      split at taken <;> exact Option.some.inj taken ▸ rfl
    | sealing q =>
      simp only [pc, Option.map_eq_some_iff, sealClean] at taken
      obtain ⟨i, _, same⟩ := taken
      split at same <;> exact same ▸ rfl
    | asking q =>
      simp only [pc, ask] at taken
      split at taken <;> exact Option.some.inj taken ▸ rfl
    | listening q =>
      simp only [pc, awaitAnswer] at taken
      split at taken
      · split at taken
        · cases taken
        · split at taken <;> exact Option.some.inj taken ▸ rfl
      · exact Option.some.inj taken ▸ rfl
    | deciding q answer =>
      simp only [pc, Option.map_eq_some_iff, decideAnswer] at taken
      obtain ⟨i, _, same⟩ := taken
      split at same <;> exact same ▸ rfl
    | responding q answer =>
      simp only [pc] at taken
      exact Option.some.inj taken ▸ rfl
    | forwarding pkt =>
      simp only [pc, forward] at taken
      split at taken <;> exact Option.some.inj taken ▸ rfl
    | sending pkt wire =>
      cases ok with
      | true =>
        simp only [pc] at taken
        exact Option.some.inj taken ▸ rfl
      | false => simp [socketFails, pc] at fine
    | done => simp [pc] at taken
  · cases taken

theorem egressStep_continues {s after : Session} {ok : Bool}
    (taken : egressStep prims s ok = some after) (fine : socketFails s (.egress ok) = false) :
    Egress.ended after.egress.pc = false := by
  unfold egressStep at taken
  split at taken
  · cases pc : s.egress.pc with
    | recv =>
      cases ok with
      | true =>
        simp only [pc, receiveDatagram, if_true] at taken
        split at taken
        · cases taken
        · exact Option.some.inj taken ▸ rfl
      | false => simp [socketFails, pc] at fine
    | received arrival =>
      simp only [pc] at taken
      exact Option.some.inj taken ▸ rfl
    | writing packets origin =>
      simp only [pc, writePackets] at taken
      split at taken <;> exact Option.some.inj taken ▸ rfl
    | done => simp [pc] at taken
  · cases taken

/-- Only `ingest` and the stops touch the senders of a channel. -/
theorem step_senders {s after : Session} {action : Action} (own : free action = true)
    (taken : step prims s action = some after) : after.senders = s.senders :=
  (step_entry own taken).senders

/-- A change that leaves both loops and the senders alone. -/
theorem Working.same {s after : Session} (working : Working s) (ingress : after.ingress = s.ingress)
    (egress : after.egress = s.egress) (senders : after.senders = s.senders) : Working after where
  ingress := ingress ▸ working.ingress
  egress := egress ▸ working.egress
  ingressKept := ingress ▸ working.ingressKept
  egressKept := egress ▸ working.egressKept
  senders := senders ▸ working.senders

theorem parkTask_working {s after : Session} {which : Which} (working : Working s)
    (taken : parkTask s which = some after) : Working after := by
  cases which with
  | ingress | egress =>
    obtain ⟨task, parked, rfl⟩ := Option.map_eq_some_iff.mp taken
    obtain ⟨_, rfl⟩ := DataPlane.Task.park_some parked
    exact ⟨⟨working.ingress, working.egress⟩, working.ingressKept, working.egressKept, working.senders⟩
  | keepalive =>
    obtain ⟨task, _, rfl⟩ := Option.map_eq_some_iff.mp taken
    exact working.same rfl rfl rfl

/-- Nobody cancels a task that is not aborted. -/
theorem cancelTask_working {s after : Session} {which : Which} (working : Working s)
    (taken : cancelTask s which = some after) : Working after := by
  cases which with
  | ingress =>
    obtain ⟨task, cancelled, rfl⟩ := Option.map_eq_some_iff.mp taken
    obtain ⟨_, aborted, _⟩ := DataPlane.Task.cancel_some cancelled
    exact absurd (working.ingressKept.symm.trans aborted) Bool.false_ne_true
  | egress =>
    obtain ⟨task, cancelled, rfl⟩ := Option.map_eq_some_iff.mp taken
    obtain ⟨_, aborted, _⟩ := DataPlane.Task.cancel_some cancelled
    exact absurd (working.egressKept.symm.trans aborted) Bool.false_ne_true
  | keepalive =>
    obtain ⟨task, _, rfl⟩ := Option.map_eq_some_iff.mp taken
    exact working.same rfl rfl rfl

/-- A working session goes on working, but for an error of its socket. -/
theorem step_working {s after : Session} {action : Action} (working : Working s)
    (own : free action = true) (fine : socketFails s action = false)
    (taken : step prims s action = some after) : Working after := by
  have senders : after.senders = s.senders := step_senders own taken
  cases action with
  | cloneSender | dropSender => cases own
  | trySend pkt => cases own
  | abort which => cases own
  | park which => exact parkTask_working working taken
  | cancel which => exact cancelTask_working working taken
  | directArrives datagram =>
    obtain ⟨queue, out, rfl⟩ := directArrives_some taken
    exact working.same rfl rfl rfl
  | tunnelArrives arrival =>
    obtain ⟨queue, out, rfl⟩ := tunnelArrives_some taken
    exact working.same rfl rfl rfl
  | ingress nonce ok =>
    obtain ⟨_, _, aborted, egress⟩ := ingressStep_tasks taken
    have ends := ingressStep_continues taken working.senders fine
    exact ⟨⟨ends, egress ▸ working.egress⟩, aborted.trans working.ingressKept,
      egress ▸ working.egressKept, senders ▸ working.senders⟩
  | egress ok =>
    obtain ⟨_, _, aborted, ingress⟩ := egressStep_tasks taken
    have ends := egressStep_continues taken fine
    exact ⟨⟨ingress ▸ working.ingress, ends⟩, ingress ▸ working.ingressKept,
      aborted.trans working.egressKept, senders ▸ working.senders⟩
  | keepalive nonce ok =>
    obtain ⟨ingress, egress⟩ := keepaliveStep_tasks taken
    exact working.same ingress egress senders
  | cleanSend index ok =>
    simp only [step, cleanSend, Option.map_eq_some_iff] at taken
    obtain ⟨clean, _, rfl⟩ := taken
    split <;> exact working.same rfl rfl rfl

/-- A serving session takes the packet of a call, or drops it. -/
theorem trySend_working {s : Session} (pkt : Bytes) (working : Working s) (more : 1 < s.senders) :
    (DataPlane.trySend s pkt).2 = 0 ∧
      Working { (DataPlane.trySend s pkt).1 with senders := (DataPlane.trySend s pkt).1.senders - 1 } ∧
      (DataPlane.trySend s pkt).1.senders = s.senders := by
  have lasting : 0 < s.senders - 1 := Nat.sub_pos_of_lt more
  unfold DataPlane.trySend
  split
  · next closed =>
    have ingress := working.ingress
    rw [closed] at ingress
    cases ingress
  · split
    · exact ⟨rfl, ⟨⟨working.ingress, working.egress⟩, working.ingressKept, working.egressKept, lasting⟩, rfl⟩
    · exact ⟨rfl, ⟨⟨working.ingress, working.egress⟩, working.ingressKept, working.egressKept, lasting⟩, rfl⟩

end Sessions

theorem start_working (interceptor : Option Interceptor) (carrier : Carrier) :
    Working (start interceptor carrier) :=
  ⟨⟨rfl, rfl⟩, rfl, rfl, Nat.one_pos⟩

theorem initial_steady : Steady initial where
  settled present := absurd present (by decide)
  raising present := by cases present
  ending _ _ _ present := by cases present
  known _ member := absurd member List.not_mem_nil
  works _ present := by cases present

/-- A step of the calls that changes no session; whoever serves after it served before. -/
theorem Steady.frame {c d : Core} (steady : Steady c) (sessions : d.sessions = c.sessions)
    (ingests : d.ingests = c.ingests) (serves : ∀ k, serving d k = true → serving c k = true)
    (settled : d.running = true → d.control = .idle ∧ d.slot.isSome = true)
    (raising : d.control = .raising → d.slot.isSome = true)
    (ending : ∀ k todo blocking, d.control = .ending k todo blocking → d.slot = none) : Steady d where
  settled := settled
  raising := raising
  ending := ending
  known entry member := sessions ▸ steady.known entry (ingests ▸ member)
  works k served := by
    obtain ⟨s, found, working, senders⟩ := steady.works k (serves k served)
    refine ⟨s, sessions ▸ found, working, ?_⟩
    rw [senders, waiting, waiting, ingests]

theorem serving_idle {c : Core} (idle : c.control = .idle) (k : Nat) :
    serving c k = true ↔ c.slot = some k := by
  simp [serving, idle]

/-- No call waits for a session that is yet to be started. -/
theorem Steady.fresh {c : Core} (steady : Steady c) : waiting c c.sessions.length = 0 := by
  rw [waiting, List.countP_eq_zero]
  intro entry member
  have low := steady.known entry member
  simp only [beq_iff_eq]
  omega

theorem Steady.install {c : Core} (steady : Steady c) (config : Config) (stopped : c.running = false) :
    Steady { c with sessions := c.sessions ++ [start config.interceptor config.carrier]
                    control := .installing c.sessions.length } where
  settled present := by
    rw [stopped] at present
    cases present
  raising present := by cases present
  ending _ _ _ present := by cases present
  known entry member := by
    rw [List.length_append]
    exact Nat.lt_add_right _ (steady.known entry member)
  works k served := by
    obtain rfl : c.sessions.length = k := by simpa [serving] using served
    refine ⟨start config.interceptor config.carrier, List.getElem?_concat_length, start_working _ _, ?_⟩
    have fresh := steady.fresh
    simp only [waiting] at fresh ⊢
    rw [fresh]
    rfl

theorem issue_steady {c d : Core} {call : Call} (steady : Steady c) (taken : issue c call = some d) :
    Steady d := by
  unfold issue at taken
  split at taken
  · next idle =>
    cases call with
    | start config =>
      cases config with
      | none => exact Option.some.inj taken ▸ steady
      | some config =>
        dsimp only at taken
        split at taken
        · exact Option.some.inj taken ▸ steady
        · next stopped =>
          exact Option.some.inj taken ▸ steady.install config (Bool.not_eq_true _ ▸ stopped)
    | stop =>
      rw [← Option.some.inj taken]
      exact steady.frame rfl rfl (fun _ served => by cases served) (fun present => by cases present)
        (fun present => by cases present) (fun _ _ _ present => by cases present)
    | stopBlocking =>
      rw [← Option.some.inj taken]
      exact steady.frame rfl rfl (fun _ served => by cases served) (fun present => by cases present)
        (fun present => by cases present) (fun _ _ _ present => by cases present)
  · cases taken

/-- A change of one session, after which no more sessions serve than before. -/
theorem Steady.update {c b d : Core} {k : Nat} {change : Session → Option Session} (steady : Steady c)
    (taken : update b k change = some d) (sessions : b.sessions = c.sessions)
    (serves : ∀ j, serving b j = true → serving c j = true)
    (settled : b.running = true → b.control = .idle ∧ b.slot.isSome = true)
    (raising : b.control = .raising → b.slot.isSome = true)
    (ending : ∀ j todo blocking, b.control = .ending j todo blocking → b.slot = none)
    (known : ∀ entry ∈ b.ingests, entry.1 < c.sessions.length)
    (others : ∀ j, j ≠ k → waiting b j = waiting c j)
    (keeps : ∀ s next, c.sessions[k]? = some s → serving b k = true → Working s →
      s.senders = 1 + waiting c k → change s = some next →
      Working next ∧ next.senders = 1 + waiting b k) : Steady d := by
  obtain ⟨s, next, writes, found, changed, rfl⟩ := update_cases taken
  rw [sessions] at found
  refine ⟨settled, raising, ending, ?_, ?_⟩
  · intro entry member
    rw [List.length_set, sessions]
    exact known entry member
  · intro j served
    have served : serving b j = true := served
    obtain ⟨t, old, working, senders⟩ := steady.works j (serves j served)
    by_cases here : j = k
    · subst here
      obtain rfl : s = t := Option.some.inj (found.symm.trans old)
      obtain ⟨works, counted⟩ := keeps s next found served working senders changed
      refine ⟨next, ?_, works, counted⟩
      rw [sessions, List.getElem?_set_self (List.getElem?_eq_some_iff.mp found).1]
    · refine ⟨t, ?_, working, ?_⟩
      · rw [sessions, List.getElem?_set_ne (Ne.symm here)]
        exact old
      · exact senders.trans (congrArg (1 + ·) (others j here).symm)

theorem Steady.not_running {c : Core} (steady : Steady c) (busy : c.control ≠ .idle) :
    c.running ≠ true :=
  fun running => busy (steady.settled running).1

theorem controlStep_steady {c d : Core} (steady : Steady c) (taken : controlStep c = some d) :
    Steady d := by
  have halted : ∀ {control : Control}, control ≠ .idle → c.control = control → c.running ≠ true := by
    intro control busy same
    exact steady.not_running (same ▸ busy)
  cases control : c.control with
  | idle => simp [controlStep, control] at taken
  | installing k =>
    simp only [controlStep, control, Option.some.injEq] at taken
    subst taken
    refine steady.frame rfl rfl ?_ ?_ (fun _ => rfl) (fun _ _ _ present => by cases present)
    · intro j served
      simpa [serving, control] using served
    · exact fun running => absurd running (halted (by simp) control)
  | raising =>
    simp only [controlStep, control, Option.some.injEq] at taken
    subst taken
    refine steady.frame rfl rfl ?_ ?_ (fun present => by cases present)
      (fun _ _ _ present => by cases present)
    · intro j served
      simpa [serving, control] using served
    · exact fun _ => ⟨rfl, steady.raising control⟩
  | lowered blocking =>
    cases slot : c.slot with
    | none =>
      simp only [controlStep, control, slot, Option.some.injEq] at taken
      subst taken
      have still := halted (by simp) control
      cases blocking with
      | true | false =>
        refine steady.frame rfl rfl ?_ ?_ (fun present => by cases present)
          (fun _ _ _ present => by cases present)
        · intro j served
          simp [serving, Lifecycle.returned, slot] at served
        · exact fun running => absurd running still
    | some k =>
      simp only [controlStep, control, slot, Option.some.injEq] at taken
      subst taken
      refine steady.frame rfl rfl (fun _ served => by cases served) ?_ (fun present => by cases present)
        (fun _ _ _ _ => rfl)
      exact fun running => absurd running (halted (by simp) control)
  | ending k todo blocking =>
    have empty := steady.ending k todo blocking control
    have still := halted (by simp) control
    cases todo with
    | nil =>
      simp only [controlStep, control] at taken
      cases blocking with
      | true =>
        simp only [if_true] at taken
        split at taken
        · rw [← Option.some.inj taken]
          refine steady.frame rfl rfl ?_ (fun running => absurd running still)
            (fun present => by cases present) (fun _ _ _ present => by cases present)
          intro j served
          simp [serving, Lifecycle.returned, empty] at served
        · cases taken
      | false =>
        rw [← Option.some.inj taken]
        refine steady.frame rfl rfl ?_ (fun running => absurd running still)
          (fun present => by cases present) (fun _ _ _ present => by cases present)
        intro j served
        simp [serving, empty] at served
    | cons handle todo =>
      simp only [controlStep, control] at taken
      exact steady.update taken rfl (fun _ served => by cases served)
        (fun running => absurd running still) (fun present => by cases present)
        (fun _ _ _ _ => empty) steady.known (fun _ _ => rfl)
        (fun _ _ _ served => by cases served)

theorem waiting_append (c : Core) (k j : Nat) (pkt : Bytes) :
    waiting { c with ingests := c.ingests ++ [(k, pkt)] } j = waiting c j + if k = j then 1 else 0 := by
  simp only [waiting, List.countP_append, List.countP_singleton, beq_iff_eq]

theorem countP_eraseIdx_of {entries : List (Nat × Bytes)} {test : Nat × Bytes → Bool} {index : Nat}
    {entry : Nat × Bytes} (found : entries[index]? = some entry) :
    entries.countP test = (entries.eraseIdx index).countP test + if test entry then 1 else 0 := by
  obtain ⟨inside, rfl⟩ := List.getElem?_eq_some_iff.mp found
  have perm := List.getElem_cons_eraseIdx_perm inside
  rw [← perm.countP_eq, List.countP_cons]

/-- Every undisturbed step keeps the serving session at work. -/
theorem coreStep_steady {prims : Primitives} {c d : Core} {event : Event} (steady : Steady c)
    (calm : undisturbed c event = true) (taken : coreStep prims c event = some d) : Steady d := by
  cases event with
  | call call => exact issue_steady steady taken
  | control => exact controlStep_steady steady taken
  | session k action =>
    simp only [coreStep] at taken
    split at taken
    · next own =>
      apply steady.update taken rfl (fun _ served => served) steady.settled steady.raising
        steady.ending steady.known (fun _ _ => rfl)
      intro s next found served working senders changed
      have fine : socketFails s action = false := by
        simpa [undisturbed, served, found] using calm
      exact ⟨step_working working own fine changed, (step_senders own changed).trans senders⟩
    · cases taken
  | ingest pkt =>
    simp only [coreStep, ingest] at taken
    split at taken
    · exact Option.some.inj taken ▸ steady.frame rfl rfl (fun _ served => served) steady.settled
        steady.raising steady.ending
    · split at taken
      · exact Option.some.inj taken ▸ steady.frame rfl rfl (fun _ served => served) steady.settled
          steady.raising steady.ending
      · next k _ =>
        obtain ⟨s, _, _, found, _, _⟩ := update_cases taken
        have inside : k < c.sessions.length := (List.getElem?_eq_some_iff.mp found).1
        refine steady.update taken rfl (fun _ served => served) steady.settled steady.raising
          steady.ending ?_ ?_ ?_
        · intro entry member
          rcases List.mem_append.mp member with old | new
          · exact steady.known entry old
          · exact List.mem_singleton.mp new ▸ inside
        · intro j other
          rw [waiting_append, if_neg (Ne.symm other)]
          rfl
        · intro s next _ _ working senders changed
          rw [← Option.some.inj changed, waiting_append, if_pos rfl]
          exact ⟨⟨⟨working.ingress, working.egress⟩, working.ingressKept, working.egressKept,
            Nat.succ_pos _⟩, by simp only [senders]; omega⟩
  | trySend index =>
    simp only [coreStep, finishIngest, Option.bind_eq_some_iff] at taken
    obtain ⟨entry, queued, s, found, taken⟩ := taken
    have fewer : ∀ j, waiting c j = (c.ingests.eraseIdx index).countP (fun e => e.1 == j) +
        if entry.1 = j then 1 else 0 := by
      intro j
      rw [waiting, countP_eraseIdx_of queued]
      simp only [beq_iff_eq]
    refine steady.update taken rfl (fun _ served => served) steady.settled steady.raising
      steady.ending ?_ ?_ ?_
    · intro e member
      exact steady.known e (List.mem_of_mem_eraseIdx member)
    · intro j other
      rw [fewer j, if_neg (Ne.symm other)]
      rfl
    · intro t next same _ working senders changed
      obtain rfl : s = t := Option.some.inj (found.symm.trans same)
      rw [fewer entry.1, if_pos rfl] at senders
      obtain ⟨_, works, kept⟩ := trySend_working entry.2 working (by omega)
      rw [← Option.some.inj changed]
      refine ⟨works, ?_⟩
      simp only [kept, senders, waiting]
      omega

theorem Steady.truthful {c : Core} (steady : Steady c) : Truthful c := by
  intro running
  obtain ⟨idle, present⟩ := steady.settled running
  obtain ⟨k, slot⟩ := Option.isSome_iff_exists.mp present
  obtain ⟨s, found, working, _⟩ := steady.works k ((serving_idle idle k).mpr slot)
  exact ⟨k, s, slot, found, working.toAlive⟩

/-- The calls and the control queue return no codes of `ingest`. -/
theorem issue_codes {c d : Core} {call : Call} (taken : issue c call = some d) : d.codes = c.codes := by
  unfold issue at taken
  split at taken
  · cases call with
    | start config =>
      cases config with
      | none => exact Option.some.inj taken ▸ rfl
      | some config =>
        dsimp only at taken
        split at taken <;> exact Option.some.inj taken ▸ rfl
    | stop | stopBlocking => exact Option.some.inj taken ▸ rfl
  · cases taken

theorem controlStep_codes {c d : Core} (taken : controlStep c = some d) : d.codes = c.codes := by
  unfold controlStep at taken
  split at taken
  · cases taken
  · exact Option.some.inj taken ▸ rfl
  · exact Option.some.inj taken ▸ rfl
  · split at taken
    · rw [← Option.some.inj taken]
      split <;> rfl
    · exact Option.some.inj taken ▸ rfl
  · obtain ⟨_, _, _, _, _, rfl⟩ := update_cases taken
    rfl
  · split at taken
    · split at taken
      · exact Option.some.inj taken ▸ rfl
      · cases taken
    · exact Option.some.inj taken ▸ rfl

theorem trySend_code {s : Session} {pkt : Bytes} (goes : Ingress.ended s.ingress.pc = false) :
    (DataPlane.trySend s pkt).2 = 0 := by
  unfold DataPlane.trySend
  split
  · next stopped => simp [stopped, Ingress.ended] at goes
  · split <;> rfl

theorem appended {codes more : List Int} {code : Int} (same : more = codes ++ [code]) (fine : code ≠ -1) :
    more ≠ codes ++ [-1] := by
  intro refused
  exact fine (List.singleton_inj.mp (List.append_cancel_left (same.symm.trans refused)))

/-- While the data plane runs, an undisturbed step returns no -1. -/
theorem Steady.accepting {prims : Primitives} {c d : Core} {event : Event} (steady : Steady c)
    (calm : undisturbed c event = true) (taken : coreStep prims c event = some d) : Accepting c d := by
  intro running
  have idle := (steady.settled running).1
  have unchanged : d.codes = c.codes → d.codes ≠ c.codes ++ [-1] := by
    intro same refused
    simpa using congrArg List.length (same.symm.trans refused)
  cases event with
  | call call => exact unchanged (issue_codes taken)
  | control => exact unchanged (controlStep_codes taken)
  | session k action =>
    simp only [coreStep] at taken
    split at taken
    · obtain ⟨_, _, _, _, _, rfl⟩ := update_cases taken
      exact unchanged rfl
    · cases taken
  | ingest pkt =>
    simp only [coreStep, ingest] at taken
    split at taken
    · exact Option.some.inj taken ▸ appended rfl (by decide)
    · split at taken
      · next empty =>
        obtain ⟨k, _, slot, _⟩ := steady.truthful running
        rw [empty] at slot
        cases slot
      · obtain ⟨_, _, _, _, _, rfl⟩ := update_cases taken
        exact unchanged rfl
  | trySend index =>
    simp only [coreStep, finishIngest, Option.bind_eq_some_iff] at taken
    obtain ⟨entry, queued, s, found, taken⟩ := taken
    obtain ⟨_, _, _, _, _, rfl⟩ := update_cases taken
    have goes : Ingress.ended s.ingress.pc = false := by
      cases served : serving c entry.1 with
      | true =>
        obtain ⟨t, same, working, _⟩ := steady.works entry.1 served
        obtain rfl : s = t := Option.some.inj (found.symm.trans same)
        exact working.ingress
      | false => simpa [undisturbed, overtaken, running, queued, served, found] using calm
    exact appended rfl (by rw [trySend_code goes]; decide)

/-- In every run of undisturbed steps `is_running` tells the truth in every state, and the next
undisturbed step returns no -1 while it does. -/
theorem running_truthful (prims : Primitives) (c : Core)
    (reached : Reaches (coreStep prims) (fun c event => undisturbed c event = true) initial c) :
    Truthful c ∧ ∀ event d, undisturbed c event = true → coreStep prims c event = some d →
      Accepting c d := by
  have steady : Steady c := reached.invariant Steady
    (fun _ _ _ steady calm taken => coreStep_steady steady calm taken) initial_steady
  exact ⟨steady.truthful, fun _ _ calm taken => steady.accepting calm taken⟩

/-- A plain session that is started and has read its first packet. -/
def sampleServing : List Event :=
  [.call (.start (some ⟨none, sampleCarrier⟩)), .control, .control, .ingest (sampleQueryPacket 7 5353),
    .trySend 0] ++ List.replicate 2 (.session 0 (.ingress sampleNonce true))

/-- The packet is sent and another one is taken in. -/
theorem sample_running_truthful : ∃ c, Reaches (coreStep samplePrims)
    (fun c event => undisturbed c event = true) initial c ∧ c.running = true ∧ c.codes = [0, 0] ∧
      Truthful c := by
  have ran : (testedRun (coreStep samplePrims) undisturbed initial
      (sampleServing ++ [.session 0 (.ingress sampleNonce true), .ingest (sampleQueryPacket 8 5353),
        .trySend 0])).map (fun c => (c.running, c.codes)) = some (true, [0, 0]) := by
    decide +kernel
  obtain ⟨c, ran, both⟩ := Option.map_eq_some_iff.mp ran
  obtain ⟨running, codes⟩ := Prod.mk.inj both
  have reached := reaches_of_testedRun ran
  exact ⟨c, reached, running, codes, (running_truthful samplePrims c reached).1⟩

/-- The send of the packet fails: the loop is over, the flag stays up, and the next call of `ingest`
returns -1. -/
theorem running_after_failed_send : ∃ c d, Reachable (coreStep samplePrims) initial c ∧
    ¬Truthful c ∧ coreStep samplePrims c (.trySend 0) = some d ∧ ¬Accepting c d := by
  have ran : (run (coreStep samplePrims) initial
      (sampleServing ++ [.session 0 (.ingress sampleNonce false), .ingest (sampleQueryPacket 8 5353)])).map
      (fun c => ((c.running, c.slot, c.codes), c.sessions.map fun s => Ingress.ended s.ingress.pc,
        (coreStep samplePrims c (.trySend 0)).map fun d => d.codes)) =
        some ((true, some 0, [0]), [true], some [0, -1]) := by
    decide +kernel
  obtain ⟨c, ran, all⟩ := Option.map_eq_some_iff.mp ran
  obtain ⟨core, rest⟩ := Prod.mk.inj all
  obtain ⟨running, place⟩ := Prod.mk.inj core
  obtain ⟨slot, codes⟩ := Prod.mk.inj place
  obtain ⟨ended, next⟩ := Prod.mk.inj rest
  obtain ⟨d, taken, refused⟩ := Option.map_eq_some_iff.mp next
  refine ⟨c, d, reachable_of_run ran, ?_, taken, ?_⟩
  · intro truthful
    obtain ⟨k, s, here, found, alive⟩ := truthful running
    obtain rfl : 0 = k := Option.some.inj (slot.symm.trans here)
    have gone := congrArg (fun flags => flags[0]?) ended
    simp only [List.getElem?_map, found] at gone
    exact absurd (alive.ingress.symm.trans (Option.some.inj gone)) (by decide)
  · intro accepting
    exact accepting running (by rw [refused, codes]; rfl)

end ShadowVpn.Engine.Running
