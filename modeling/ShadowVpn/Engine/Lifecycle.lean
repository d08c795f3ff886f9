import ShadowVpn.Engine.Moves

/-! The control side of the engine: `start`, `stop` and `stop_blocking` one after another, the
running flag and the session slot, while the tasks of every session go on. -/

namespace ShadowVpn.Engine.Lifecycle
open ShadowVpn.Lib.Octets ShadowVpn.Lib.Transition ShadowVpn.Wire.Crypto
open ShadowVpn.Engine.Intercept ShadowVpn.Engine.Datagram ShadowVpn.Engine.DataPlane
open ShadowVpn.Engine.Moves

/-- What a configuration amounts to; the interceptor is there in chinadns mode. -/
structure Config where
  interceptor : Option Interceptor
  carrier : Carrier

/-- A call from the control queue. A start without a configuration is one that fails on it or on
its socket. -/
inductive Call where
  | start (config : Option Config)
  | stop
  | stopBlocking

/-- What a stop lets go of in a session that it took out of the slot. -/
inductive Handle where
  | keepalive
  | egress
  | ingress
  | sender
  deriving DecidableEq

/-- Where the call that runs on the control queue stands. -/
inductive Control where
  | idle
  | installing (k : Nat)
  | raising
  | lowered (blocking : Bool)
  | ending (k : Nat) (todo : List Handle) (blocking : Bool)

/-- A call of the writer by a session, and how many sessions had been started before the last
`stop_blocking` that returned until then. -/
structure Write where
  session : Nat
  released : Nat

/-- The sessions are numbered in the order they were started. `released` and `writes` only record
what happened, `codes` what `ingest` returned. -/
structure Core where
  running : Bool
  slot : Option Nat
  sessions : List Session
  control : Control
  ingests : List (Nat × Bytes)
  codes : List Int
  released : Nat
  writes : List Write

def initial : Core where
  running := false
  slot := none
  sessions := []
  control := .idle
  ingests := []
  codes := []
  released := 0
  writes := []

inductive Event where
  | call (call : Call)
  | control
  | session (k : Nat) (action : Action)
  | ingest (pkt : Bytes)
  | trySend (index : Nat)

/-- The actions of a session's tasks and sockets; the others belong to the calls. -/
def free : Action → Bool
  | .cloneSender | .dropSender | .trySend _ | .abort _ => false
  | _ => true

/-- One session changes; what it hands to the writer is recorded. -/
def update (c : Core) (k : Nat) (change : Session → Option Session) : Option Core :=
  (c.sessions[k]?).bind fun s => (change s).map fun next =>
    { c with sessions := c.sessions.set k next
             writes := c.writes ++
               List.replicate (next.emitted.length - s.emitted.length) ⟨k, c.released⟩ }

/-- Only the sessions and the record of the writer's calls change. -/
theorem update_cases {c d : Core} {k : Nat} {change : Session → Option Session}
    (taken : update c k change = some d) :
    ∃ s next writes, c.sessions[k]? = some s ∧ change s = some next ∧
      d = { c with sessions := c.sessions.set k next, writes := writes } := by
  simp only [update, Option.bind_eq_some_iff, Option.map_eq_some_iff] at taken
  obtain ⟨s, found, next, changed, same⟩ := taken
  exact ⟨s, next, _, found, changed, same.symm⟩

/-- An entry of an updated list is the new one or an old one. -/
theorem getElem?_set_cases {α : Type} {entries : List α} {k j : Nat} {old new entry : α}
    (inside : entries[k]? = some old) (found : (entries.set k new)[j]? = some entry) :
    (j = k ∧ entry = new) ∨ (j ≠ k ∧ entries[j]? = some entry) := by
  rw [List.getElem?_set] at found
  by_cases here : k = j
  · rw [if_pos here, if_pos (List.getElem?_eq_some_iff.mp inside).1] at found
    exact .inl ⟨here.symm, (Option.some.inj found).symm⟩
  · rw [if_neg here] at found
    exact .inr ⟨Ne.symm here, found⟩

/-- `stop` aborts the egress task at once, `stop_blocking` last, before it joins it. -/
def stopOrder (blocking : Bool) : List Handle :=
  if blocking then [.keepalive, .ingress, .sender, .egress] else [.keepalive, .egress, .ingress, .sender]

def letGo (s : Session) : Handle → Session
  | .keepalive => abortTask s .keepalive
  | .egress => abortTask s .egress
  | .ingress => abortTask s .ingress
  | .sender => { s with senders := s.senders - 1 }

/-- `stop_blocking` returns: the caller may release the context of every session so far. -/
def returned (c : Core) : Core := { c with control := .idle, released := c.sessions.length }

def Ingress.ended : Ingress → Bool
  | .done => true
  | _ => false

def Egress.ended : Egress → Bool
  | .done => true
  | _ => false

def issue (c : Core) (call : Call) : Option Core :=
  match c.control with
  | .idle =>
    match call with
    | .start none => some c
    | .start (some config) =>
      if c.running then some c
      else
        some { c with sessions := c.sessions ++ [start config.interceptor config.carrier]
                      control := .installing c.sessions.length }
    | .stop => some { c with running := false, control := .lowered false }
    | .stopBlocking => some { c with running := false, control := .lowered true }
  | _ => none

/-- The join of the egress task is over when the task is. -/
def joined (c : Core) (k : Nat) : Bool := (c.sessions[k]?).any fun s => Egress.ended s.egress.pc

def controlStep (c : Core) : Option Core :=
  match c.control with
  | .idle => none
  | .installing k => some { c with slot := some k, control := .raising }
  | .raising => some { c with running := true, control := .idle }
  | .lowered blocking =>
    match c.slot with
    | none => some (if blocking then returned c else { c with control := .idle })
    | some k => some { c with slot := none, control := .ending k (stopOrder blocking) blocking }
  | .ending k (handle :: todo) blocking =>
    update { c with control := .ending k todo blocking } k fun s => some (letGo s handle)
  | .ending k [] blocking =>
    if blocking then if joined c k then some (returned c) else none else some { c with control := .idle }

section Steps

variable (prims : Primitives)

/-- `ingest` up to the clone of the sender. -/
def ingest (c : Core) (pkt : Bytes) : Option Core :=
  if pkt = [] then some { c with codes := c.codes ++ [0] }
  else
    match c.slot with
    | none => some { c with codes := c.codes ++ [-1] }
    | some k => update { c with ingests := c.ingests ++ [(k, pkt)] } k fun s => step prims s .cloneSender

/-- The rest of `ingest`; the clone of the sender is dropped. -/
def finishIngest (c : Core) (index : Nat) : Option Core :=
  (c.ingests[index]?).bind fun entry => (c.sessions[entry.1]?).bind fun s =>
    let sent := DataPlane.trySend s entry.2
    update { c with ingests := c.ingests.eraseIdx index, codes := c.codes ++ [sent.2] } entry.1
      fun _ => some { sent.1 with senders := sent.1.senders - 1 }

def coreStep (c : Core) (event : Event) : Option Core :=
  match event with
  | .call call => issue c call
  | .control => controlStep c
  | .session k action => if free action then update c k fun s => step prims s action else none
  | .ingest pkt => ingest prims c pkt
  | .trySend index => finishIngest c index

end Steps

/-- No session hands anything to the writer once a `stop_blocking` has returned that came after
its start. -/
def WriterSafe (c : Core) : Prop := ∀ write ∈ c.writes, write.released ≤ write.session

/-- The next control step is the return of a `stop_blocking`. -/
def returns (c : Core) : Bool :=
  match c.control with
  | .lowered true => c.slot.isNone
  | .ending _ [] true => true
  | _ => false

/-- The tasks that can reach the writer have ended or wait: egress and, with an interceptor,
ingress. -/
def atRest (s : Session) : Bool :=
  (s.interceptor.isNone || s.ingress.parked || Ingress.ended s.ingress.pc) &&
    (s.egress.parked || Egress.ended s.egress.pc)

/-- When `stop_blocking` returns, no task that can reach the writer is in the middle of a poll. -/
def restful (c : Core) (event : Event) : Bool :=
  match event with
  | .control => !returns c || c.sessions.all atRest
  | _ => true

/-- The task will not run again. -/
def Over {Pc : Type} (ended : Pc → Bool) (t : DataPlane.Task Pc) : Prop :=
  ended t.pc = true ∨ t.parked = true ∧ t.aborted = true

/-- No task of the session will hand anything to the writer. -/
structure Silent (s : Session) : Prop where
  ingress : s.interceptor = none ∨ Over Ingress.ended s.ingress
  egress : Over Egress.ended s.egress

def Plain (s : Session) : Prop := s.interceptor = none → query s.ingress.pc = none

/-- What every change of a session keeps. -/
structure Advances (s after : Session) : Prop where
  plain : Plain s → Plain after
  silent : Silent s → Silent after
  ingress : s.ingress.aborted = true → after.ingress.aborted = true
  egress : s.egress.aborted = true → after.egress.aborted = true
  emitted : Plain s → Silent s → after.emitted = s.emitted

theorem Over.not_runnable {Pc : Type} {ended : Pc → Bool} {t : DataPlane.Task Pc} (finished : Over ended t)
    (runnable : t.runnable = true) : ended t.pc = true := by
  rcases finished with done | ⟨parked, aborted⟩
  · exact done
  · simp [DataPlane.Task.runnable, parked, aborted] at runnable

/-- A change that touches neither task nor the writer. -/
theorem Advances.same {s after : Session} (interceptor : after.interceptor = s.interceptor)
    (ingress : after.ingress = s.ingress) (egress : after.egress = s.egress)
    (emitted : after.emitted = s.emitted) : Advances s after where
  plain plain absent := ingress ▸ plain (interceptor ▸ absent)
  silent silent := ⟨interceptor ▸ ingress ▸ silent.ingress, egress ▸ silent.egress⟩
  ingress aborted := ingress ▸ aborted
  egress aborted := egress ▸ aborted
  emitted _ _ := emitted

theorem abortTask_advances (s : Session) (which : Which) : Advances s (abortTask s which) := by
  cases which with
  | ingress =>
    refine ⟨id, ?_, fun _ => rfl, id, fun _ _ => rfl⟩
    intro silent
    refine ⟨?_, silent.egress⟩
    rcases silent.ingress with absent | done | ⟨parked, _⟩
    · exact .inl absent
    · exact .inr (.inl done)
    · exact .inr (.inr ⟨parked, rfl⟩)
  | egress =>
    refine ⟨id, ?_, id, fun _ => rfl, fun _ _ => rfl⟩
    intro silent
    refine ⟨silent.ingress, ?_⟩
    rcases silent.egress with done | ⟨parked, _⟩
    · exact .inl done
    · exact .inr ⟨parked, rfl⟩
  | keepalive => exact .same rfl rfl rfl rfl

theorem letGo_advances (s : Session) (handle : Handle) : Advances s (letGo s handle) := by
  cases handle with
  | keepalive => exact abortTask_advances s .keepalive
  | egress => exact abortTask_advances s .egress
  | ingress => exact abortTask_advances s .ingress
  | sender => exact .same rfl rfl rfl rfl

theorem parkTask_advances {s after : Session} {which : Which} (taken : parkTask s which = some after) :
    Advances s after := by
  cases which with
  | ingress =>
    obtain ⟨task, parked, rfl⟩ := Option.map_eq_some_iff.mp taken
    obtain ⟨_, rfl⟩ := DataPlane.Task.park_some parked
    refine ⟨id, ?_, id, id, fun _ _ => rfl⟩
    intro silent
    refine ⟨?_, silent.egress⟩
    rcases silent.ingress with absent | done | ⟨_, aborted⟩
    · exact .inl absent
    · exact .inr (.inl done)
    · exact .inr (.inr ⟨rfl, aborted⟩)
  | egress =>
    obtain ⟨task, parked, rfl⟩ := Option.map_eq_some_iff.mp taken
    obtain ⟨_, rfl⟩ := DataPlane.Task.park_some parked
    refine ⟨id, ?_, id, id, fun _ _ => rfl⟩
    intro silent
    refine ⟨silent.ingress, ?_⟩
    rcases silent.egress with done | ⟨_, aborted⟩
    · exact .inl done
    · exact .inr ⟨rfl, aborted⟩
  | keepalive =>
    obtain ⟨task, _, rfl⟩ := Option.map_eq_some_iff.mp taken
    exact .same rfl rfl rfl rfl

theorem cancelTask_advances {s after : Session} {which : Which}
    (taken : cancelTask s which = some after) : Advances s after := by
  cases which with
  | ingress =>
    obtain ⟨task, cancelled, rfl⟩ := Option.map_eq_some_iff.mp taken
    obtain ⟨_, _, rfl⟩ := DataPlane.Task.cancel_some cancelled
    exact ⟨fun _ _ => rfl, fun silent => ⟨.inr (.inl rfl), silent.egress⟩, id, id, fun _ _ => rfl⟩
  | egress =>
    obtain ⟨task, cancelled, rfl⟩ := Option.map_eq_some_iff.mp taken
    obtain ⟨_, _, rfl⟩ := DataPlane.Task.cancel_some cancelled
    exact ⟨id, fun silent => ⟨silent.ingress, .inl rfl⟩, id, id, fun _ _ => rfl⟩
  | keepalive =>
    obtain ⟨task, _, rfl⟩ := Option.map_eq_some_iff.mp taken
    exact .same rfl rfl rfl rfl

section Keeps

variable {prims : Primitives}

theorem step_plain {s after : Session} {action : Action} (taken : step prims s action = some after)
    (plain : Plain s) : Plain after := by
  intro absent
  have move := step_move taken
  have same : after.interceptor = s.interceptor := move.interceptor
  have before := same.symm.trans absent
  exact move.plain before (plain before)

theorem ingressStep_advances {s after : Session} {nonce : Nonce} {ok : Bool}
    (taken : step prims s (.ingress nonce ok) = some after) : Advances s after := by
  have move := step_move taken
  have same : after.interceptor = s.interceptor := move.interceptor
  obtain ⟨runnable, running, aborted, egress⟩ := ingressStep_tasks taken
  have plainly : Silent s → s.interceptor = none := by
    intro silent
    rcases silent.ingress with absent | finished
    · exact absent
    · have done := finished.not_runnable runnable
      cases pc : s.ingress.pc <;> simp_all [Ingress.ended]
  refine ⟨step_plain taken, ?_, fun flag => aborted.trans flag, fun flag => egress ▸ flag, ?_⟩
  · intro silent
    exact ⟨.inl (same.trans (plainly silent)), egress ▸ silent.egress⟩
  · intro plain silent
    rcases move.emitted with kept | ⟨_, _, q, answer, _, pc⟩ | ⟨_, other⟩
    · exact kept
    · have idle := plain (plainly silent)
      simp [pc, query] at idle
    · cases other

theorem egressStep_advances {s after : Session} {ok : Bool}
    (taken : step prims s (.egress ok) = some after) : Advances s after := by
  obtain ⟨runnable, running, aborted, ingress⟩ := egressStep_tasks taken
  have loud : ¬Silent s := by
    intro silent
    have done := silent.egress.not_runnable runnable
    cases pc : s.egress.pc <;> simp_all [Egress.ended]
  exact ⟨step_plain taken, fun silent => absurd silent loud, fun flag => ingress ▸ flag,
    fun flag => aborted.trans flag, fun _ silent => absurd silent loud⟩

/-- Every step of a session is such a change. -/
theorem step_advances {s after : Session} {action : Action} (taken : step prims s action = some after) :
    Advances s after := by
  cases action with
  | cloneSender => exact Option.some.inj taken ▸ .same rfl rfl rfl rfl
  | dropSender =>
    simp only [step] at taken
    split at taken
    · exact Option.some.inj taken ▸ .same rfl rfl rfl rfl
    · cases taken
  | trySend pkt =>
    simp only [step, DataPlane.trySend] at taken
    split at taken
    · rw [← Option.some.inj taken]
      split
      · exact .same rfl rfl rfl rfl
      · split <;> exact .same rfl rfl rfl rfl
    · cases taken
  | abort which => exact Option.some.inj taken ▸ abortTask_advances s which
  | park which => exact parkTask_advances taken
  | cancel which => exact cancelTask_advances taken
  | directArrives datagram =>
    obtain ⟨queue, out, rfl⟩ := directArrives_some taken
    exact .same rfl rfl rfl rfl
  | tunnelArrives arrival =>
    obtain ⟨queue, out, rfl⟩ := tunnelArrives_some taken
    exact .same rfl rfl rfl rfl
  | ingress nonce ok => exact ingressStep_advances taken
  | egress ok => exact egressStep_advances taken
  | keepalive nonce ok =>
    obtain ⟨ingress, egress⟩ := keepaliveStep_tasks taken
    have same := keepaliveStep_view taken
    exact .same (congrArg View.interceptor same) ingress egress (congrArg View.emitted same)
  | cleanSend index ok =>
    simp only [step, cleanSend, Option.map_eq_some_iff] at taken
    obtain ⟨clean, _, rfl⟩ := taken
    split <;> exact .same rfl rfl rfl rfl

end Keeps

/-- What the running call still has to let go of in a session; a session in the slot, or on its
way there, is let alone. -/
def owed (c : Core) (k : Nat) : Option (List Handle) :=
  match c.control with
  | .installing j => if j = k then none else some []
  | .ending j todo _ => if j = k then some todo else some []
  | _ => if c.slot = some k then none else some []

def Ordered (c : Core) : Prop :=
  match c.control with
  | .idle => c.slot.isSome = true → c.running = true
  | .installing _ | .ending _ _ _ => c.slot = none
  | _ => True

/-- Sessions out of the slot are aborted, and those that a `stop_blocking` has left behind are
silent. -/
structure Safe (c : Core) : Prop where
  writes : WriterSafe c
  bound : c.released ≤ c.sessions.length
  plain : ∀ (k : Nat) s, c.sessions[k]? = some s → Plain s
  silent : ∀ (k : Nat) s, c.sessions[k]? = some s → k < c.released → Silent s
  aborted : ∀ (k : Nat) s todo, c.sessions[k]? = some s → owed c k = some todo →
    (s.ingress.aborted = true ∨ Handle.ingress ∈ todo) ∧
      (s.egress.aborted = true ∨ Handle.egress ∈ todo)
  ordered : Ordered c

theorem initial_safe : Safe initial where
  writes _ member := absurd member List.not_mem_nil
  bound := Nat.le_refl 0
  plain _ _ found := by simp [initial] at found
  silent _ _ found := by simp [initial] at found
  aborted _ _ _ found := by simp [initial] at found
  ordered := nofun

/-- A step of the calls that changes no session. -/
theorem Safe.frame {c d : Core} (inv : Safe c) (sessions : d.sessions = c.sessions)
    (released : d.released = c.released) (writes : d.writes = c.writes)
    (owes : ∀ k, owed d k = owed c k ∨
      ∀ todo, owed d k = some todo → Handle.ingress ∈ todo ∧ Handle.egress ∈ todo)
    (ordered : Ordered d) : Safe d where
  writes := by
    intro write member
    exact inv.writes write (writes ▸ member)
  bound := by rw [released, sessions]; exact inv.bound
  plain k s found := inv.plain k s (sessions ▸ found)
  silent k s found low := inv.silent k s (sessions ▸ found) (released ▸ low)
  aborted k s todo found owing := by
    rw [sessions] at found
    rcases owes k with same | all
    · exact inv.aborted k s todo found (same ▸ owing)
    · exact ⟨.inr (all todo owing).1, .inr (all todo owing).2⟩
  ordered := ordered

/-- What a session has paid stays paid. -/
theorem Safe.paid {c : Core} {k : Nat} {s next : Session} (inv : Safe c) (found : c.sessions[k]? = some s)
    (advances : Advances s next) (todo : List Handle) (owing : owed c k = some todo) :
    (next.ingress.aborted = true ∨ Handle.ingress ∈ todo) ∧
      (next.egress.aborted = true ∨ Handle.egress ∈ todo) := by
  obtain ⟨ingress, egress⟩ := inv.aborted k s todo found owing
  constructor
  · rcases ingress with aborted | later
    · exact .inl (advances.ingress aborted)
    · exact .inr later
  · rcases egress with aborted | later
    · exact .inl (advances.egress aborted)
    · exact .inr later

/-- A change of one session. -/
theorem Safe.update {c b d : Core} {k : Nat} {change : Session → Option Session} (inv : Safe c)
    (taken : update b k change = some d) (sessions : b.sessions = c.sessions) (released : b.released = c.released)
    (writes : b.writes = c.writes) (others : ∀ j, j ≠ k → owed b j = owed c j) (ordered : Ordered b)
    (advances : ∀ s next, c.sessions[k]? = some s → change s = some next → Advances s next)
    (pays : ∀ s next todo, c.sessions[k]? = some s → change s = some next → owed b k = some todo →
      (next.ingress.aborted = true ∨ Handle.ingress ∈ todo) ∧
        (next.egress.aborted = true ∨ Handle.egress ∈ todo)) : Safe d := by
  simp only [Lifecycle.update, Option.bind_eq_some_iff, Option.map_eq_some_iff] at taken
  obtain ⟨s, found, next, changed, rfl⟩ := taken
  rw [sessions] at found
  have advance := advances s next found changed
  refine ⟨?_, ?_, ?_, ?_, ?_, ordered⟩
  · intro write member
    simp only [writes, released] at member
    rcases List.mem_append.mp member with old | new
    · exact inv.writes write old
    · obtain ⟨some, rfl⟩ := List.mem_replicate.mp new
      by_cases low : k < c.released
      · have quiet := advance.emitted (inv.plain k s found) (inv.silent k s found low)
        rw [quiet, Nat.sub_self] at some
        exact absurd rfl some
      · exact Nat.le_of_not_lt low
  · simp only [released, sessions, List.length_set]
    exact inv.bound
  · intro j t set
    simp only [sessions] at set
    rcases getElem?_set_cases found set with ⟨rfl, rfl⟩ | ⟨_, old⟩
    · exact advance.plain (inv.plain j s found)
    · exact inv.plain j t old
  · intro j t set low
    simp only [sessions] at set
    rcases getElem?_set_cases found set with ⟨rfl, rfl⟩ | ⟨_, old⟩
    · exact advance.silent (inv.silent j s found (released ▸ low))
    · exact inv.silent j t old (released ▸ low)
  · intro j t todo set owing
    simp only [sessions] at set
    rcases getElem?_set_cases found set with ⟨rfl, rfl⟩ | ⟨other, old⟩
    · exact pays s t todo found changed owing
    · exact inv.aborted j t todo old ((others j other).symm.trans owing)

/-- When nothing is owed and every task is at rest, all sessions are silent. -/
theorem Safe.returned {c : Core} (inv : Safe c) (settled : ∀ k, owed c k = some [])
    (empty : c.slot = none) (rest : c.sessions.all atRest = true) : Safe (returned c) := by
  refine ⟨?_, Nat.le_refl _, inv.plain, ?_, ?_, ?_⟩
  · exact inv.writes
  · intro k s found _
    obtain ⟨ingress, egress⟩ := inv.aborted k s [] found (settled k)
    have member : s ∈ c.sessions := List.mem_of_getElem? found
    have still := List.all_eq_true.mp rest s member
    simp only [atRest, Bool.and_eq_true, Bool.or_eq_true, Option.isNone_iff_eq_none] at still
    constructor
    · rcases still.1 with (absent | parked) | done
      · exact .inl absent
      · exact .inr (.inr ⟨parked, by simpa using ingress⟩)
      · exact .inr (.inl done)
    · rcases still.2 with parked | done
      · exact .inr ⟨parked, by simpa using egress⟩
      · exact .inl done
  · intro k s todo found owing
    refine inv.aborted k s todo found ((settled k).trans ?_)
    simpa [owed, Lifecycle.returned, empty] using owing
  · intro present
    simp [Lifecycle.returned, empty] at present

/-- A start adds a session; nothing is owed for it on its way to the slot. -/
theorem Safe.install {c : Core} (inv : Safe c) (config : Config) (idle : c.control = .idle)
    (empty : c.slot = none) :
    Safe { c with sessions := c.sessions ++ [start config.interceptor config.carrier]
                  control := .installing c.sessions.length } := by
  have either : ∀ k s, (c.sessions ++ [start config.interceptor config.carrier])[k]? = some s →
      c.sessions[k]? = some s ∨
        (k = c.sessions.length ∧ s = start config.interceptor config.carrier) := by
    intro k s found
    rcases Nat.lt_trichotomy k c.sessions.length with low | rfl | high
    · rw [List.getElem?_append_left low] at found
      exact .inl found
    · rw [List.getElem?_concat_length] at found
      exact .inr ⟨rfl, (Option.some.inj found).symm⟩
    · rw [List.getElem?_eq_none (by simp; omega)] at found
      cases found
  refine ⟨inv.writes, ?_, ?_, ?_, ?_, empty⟩
  · simp only [List.length_append, List.length_cons, List.length_nil]
    exact Nat.le_succ_of_le inv.bound
  · intro k s found
    rcases either k s found with old | ⟨_, rfl⟩
    · exact inv.plain k s old
    · exact fun _ => rfl
  · intro k s found low
    rcases either k s found with old | ⟨rfl, _⟩
    · exact inv.silent k s old low
    · exact absurd inv.bound (Nat.not_le.mpr low)
  · intro k s todo found owing
    rcases either k s found with old | ⟨rfl, _⟩
    · refine inv.aborted k s todo old ?_
      simp only [owed] at owing
      split at owing
      · cases owing
      · simpa [owed, idle, empty] using owing
    · simp [owed] at owing

theorem issue_safe {c d : Core} {call : Call} (inv : Safe c) (taken : issue c call = some d) :
    Safe d := by
  unfold issue at taken
  split at taken
  · next idle =>
    have ordered := inv.ordered
    simp only [Ordered, idle] at ordered
    cases call with
    | start config =>
      cases config with
      | none => exact Option.some.inj taken ▸ inv
      | some config =>
        simp only at taken
        split at taken
        · exact Option.some.inj taken ▸ inv
        · next stopped =>
          have empty : c.slot = none := by
            cases slot : c.slot with
            | none => rfl
            | some k => exact absurd (ordered (by rw [slot]; rfl)) stopped
          exact Option.some.inj taken ▸ inv.install config idle empty
    | stop =>
      rw [← Option.some.inj taken]
      refine inv.frame rfl rfl rfl (fun k => .inl ?_) trivial
      simp [owed, idle]
    | stopBlocking =>
      rw [← Option.some.inj taken]
      refine inv.frame rfl rfl rfl (fun k => .inl ?_) trivial
      simp [owed, idle]
  · cases taken

/-- Letting go of the next part pays for it. -/
theorem letGo_pays {s : Session} {handle : Handle} {todo : List Handle}
    (ingress : s.ingress.aborted = true ∨ Handle.ingress ∈ handle :: todo)
    (egress : s.egress.aborted = true ∨ Handle.egress ∈ handle :: todo) :
    ((letGo s handle).ingress.aborted = true ∨ Handle.ingress ∈ todo) ∧
      ((letGo s handle).egress.aborted = true ∨ Handle.egress ∈ todo) := by
  have advances := letGo_advances s handle
  constructor
  · rcases ingress with aborted | later
    · exact .inl (advances.ingress aborted)
    · rcases List.mem_cons.mp later with rfl | later
      · exact .inl rfl
      · exact .inr later
  · rcases egress with aborted | later
    · exact .inl (advances.egress aborted)
    · rcases List.mem_cons.mp later with rfl | later
      · exact .inl rfl
      · exact .inr later

theorem stopOrder_complete (blocking : Bool) :
    Handle.ingress ∈ stopOrder blocking ∧ Handle.egress ∈ stopOrder blocking := by
  cases blocking <;> decide

theorem controlStep_safe {c d : Core} (inv : Safe c) (restful : restful c .control = true)
    (taken : controlStep c = some d) : Safe d := by
  have ordered := inv.ordered
  have rest : returns c = true → c.sessions.all atRest = true := by
    intro last
    simpa [Lifecycle.restful, last] using restful
  cases control : c.control with
  | idle => simp [controlStep, control] at taken
  | installing k =>
    simp only [controlStep, control, Option.some.injEq] at taken
    subst taken
    refine inv.frame rfl rfl rfl (fun j => ?_) trivial
    by_cases here : k = j
    · exact .inr (by simp [owed, here])
    · exact .inl (by simp [owed, control, here])
  | raising =>
    simp only [controlStep, control, Option.some.injEq] at taken
    subst taken
    exact inv.frame rfl rfl rfl (fun _ => .inl (by simp [owed, control])) (fun _ => rfl)
  | lowered blocking =>
    cases slot : c.slot with
    | none =>
      have settled : ∀ k, owed c k = some [] := by
        intro k
        simp [owed, control, slot]
      simp only [controlStep, control, slot, Option.some.injEq] at taken
      subst taken
      cases blocking with
      | true => exact inv.returned settled slot (rest (by simp [returns, control, slot]))
      | false =>
        refine inv.frame rfl rfl rfl (fun k => .inl ?_) ?_
        · simp [owed, control, slot]
        · intro present
          cases present
    | some k =>
      simp only [controlStep, control, slot, Option.some.injEq] at taken
      subst taken
      refine inv.frame rfl rfl rfl (fun j => ?_) rfl
      by_cases here : k = j
      · right
        intro todo owing
        obtain rfl : stopOrder blocking = todo := by simpa [owed, here] using owing
        exact stopOrder_complete blocking
      · exact .inl (by simp [owed, control, slot, here])
  | ending k todo blocking =>
    have empty : c.slot = none := by simpa [Ordered, control] using ordered
    cases todo with
    | nil =>
      have settled : ∀ j, owed c j = some [] := by
        intro j
        simp [owed, control]
      simp only [controlStep, control] at taken
      cases blocking with
      | true =>
        simp only [if_true] at taken
        split at taken
        · exact Option.some.inj taken ▸ inv.returned settled empty (rest (by simp [returns, control]))
        · cases taken
      | false =>
        simp only [Bool.false_eq_true, if_false, Option.some.injEq] at taken
        subst taken
        refine inv.frame rfl rfl rfl (fun j => .inl ?_) ?_
        · rw [settled]
          simp [owed, empty]
        · intro present
          simp [empty] at present
    | cons handle todo =>
      simp only [controlStep, control] at taken
      refine inv.update taken rfl rfl rfl ?_ empty ?_ ?_
      · intro j other
        simp [owed, control, Ne.symm other]
      · intro s next _ changed
        exact Option.some.inj changed ▸ letGo_advances s handle
      · intro s next todo' found changed owing
        obtain rfl : todo = todo' := by simpa [owed] using owing
        obtain ⟨ingress, egress⟩ := inv.aborted k s (handle :: todo) found (by simp [owed, control])
        exact Option.some.inj changed ▸ letGo_pays ingress egress

/-- Every step keeps the engine safe, tasks being at rest when `stop_blocking` returns. -/
theorem coreStep_safe {prims : Primitives} {c d : Core} {event : Event} (inv : Safe c)
    (restful : restful c event = true) (taken : coreStep prims c event = some d) : Safe d := by
  cases event with
  | call call => exact issue_safe inv taken
  | control => exact controlStep_safe inv restful taken
  | session k action =>
    simp only [coreStep] at taken
    split at taken
    · exact inv.update taken rfl rfl rfl (fun _ _ => rfl) inv.ordered (fun _ _ _ => step_advances)
        (fun _ _ todo found changed => inv.paid found (step_advances changed) todo)
    · cases taken
  | ingest pkt =>
    simp only [coreStep, ingest] at taken
    split at taken
    · exact Option.some.inj taken ▸ inv.frame rfl rfl rfl (fun _ => .inl rfl) inv.ordered
    · split at taken
      · exact Option.some.inj taken ▸ inv.frame rfl rfl rfl (fun _ => .inl rfl) inv.ordered
      · exact inv.update taken rfl rfl rfl (fun _ _ => rfl) inv.ordered (fun _ _ _ => step_advances)
          (fun _ _ todo found changed => inv.paid found (step_advances changed) todo)
  | trySend index =>
    simp only [coreStep, finishIngest, Option.bind_eq_some_iff] at taken
    obtain ⟨entry, _, s, found, taken⟩ := taken
    have queued : Advances s { (DataPlane.trySend s entry.2).1 with
        senders := (DataPlane.trySend s entry.2).1.senders - 1 } := by
      unfold DataPlane.trySend
      split
      · exact .same rfl rfl rfl rfl
      · split <;> exact .same rfl rfl rfl rfl
    refine inv.update taken rfl rfl rfl (fun _ _ => rfl) inv.ordered ?_ ?_
    · intro s' next found' changed
      obtain rfl : s = s' := Option.some.inj (found.symm.trans found')
      exact Option.some.inj changed ▸ queued
    · intro s' next todo found' changed
      obtain rfl : s = s' := Option.some.inj (found.symm.trans found')
      exact inv.paid found (Option.some.inj changed ▸ queued) todo

/-- In every run in which the tasks are at rest whenever `stop_blocking` returns, the writer is not
called for a session that may be released. -/
theorem writer_safe_when_restful (prims : Primitives) (c : Core)
    (reached : Reaches (coreStep prims) (fun c event => restful c event = true) initial c) :
    WriterSafe c :=
  (reached.invariant Safe (fun _ _ _ inv restful taken => coreStep_safe inv restful taken)
    initial_safe).writes

/-- A chinadns session that is started and takes a query to its domestic answer. -/
def sampleSession : List Event :=
  [.call (.start (some ⟨some sampleInterceptor, sampleCarrier⟩)), .control, .control,
    .ingest (sampleQueryPacket 7 5353), .trySend 0] ++
  (List.replicate 4 (.session 0 (.ingress sampleNonce true)) ++
    [.session 0 (.directArrives ⟨sampleInterceptor.dnsLocal, sampleEmptyAnswer 7, some 0⟩),
      .session 0 (.ingress sampleNonce true), .session 0 (.ingress sampleNonce true)])

/-- `stop_blocking` from its call to its return. -/
def sampleStop : List Event :=
  .call .stopBlocking :: List.replicate 5 .control ++ [.session 0 (.cancel .egress), .control]

/-- The answer is handed over before the session is stopped. -/
theorem sample_writer_safe : ∃ c, Reaches (coreStep samplePrims)
    (fun c event => restful c event = true) initial c ∧ c.released = 1 ∧ c.writes.length = 1 ∧
      WriterSafe c := by
  have ran : (testedRun (coreStep samplePrims) restful initial
      (sampleSession ++ [.session 0 (.ingress sampleNonce true), .session 0 (.park .ingress)] ++
        sampleStop)).map (fun c => (c.released, c.writes.length)) = some (1, 1) := by
    decide +kernel
  obtain ⟨c, ran, both⟩ := Option.map_eq_some_iff.mp ran
  obtain ⟨released, written⟩ := Prod.mk.inj both
  have reached := reaches_of_testedRun ran
  exact ⟨c, reached, released, written, writer_safe_when_restful samplePrims c reached⟩

/-- The ingress task hands the answer over after `stop_blocking` has returned. -/
theorem written_after_return : ∃ c, Reachable (coreStep samplePrims) initial c ∧ ¬WriterSafe c := by
  have ran : (run (coreStep samplePrims) initial
      (sampleSession ++ sampleStop ++ [.session 0 (.ingress sampleNonce true)])).map
      (fun c => c.writes.any fun write => write.session < write.released) = some true := by
    decide +kernel
  obtain ⟨c, ran, late⟩ := Option.map_eq_some_iff.mp ran
  refine ⟨c, reachable_of_run ran, ?_⟩
  intro safe
  obtain ⟨write, member, early⟩ := List.any_eq_true.mp late
  exact absurd (safe write member) (Nat.not_le.mpr (of_decide_eq_true early))

end ShadowVpn.Engine.Lifecycle
