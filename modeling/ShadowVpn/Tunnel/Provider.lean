import ShadowVpn.Lib.Transition

/-! The lifecycle of `PacketTunnelProvider.m`: the start that waits for the network settings,
the serial engine-control queue, debounced restarts and path updates, and the stage written to
state.json. One step is one callback or one block of the control queue. -/

namespace ShadowVpn.Tunnel.Provider
open ShadowVpn.Lib.Transition

inductive Stage where
  | connecting
  | connected
  | error
  | disconnected
  deriving DecidableEq

/-- The stage in state.json and the start call that wrote it, if one did. -/
structure Written where
  stage : Stage
  writer : Option Nat
  deriving DecidableEq

inductive Interface where
  | other
  | wifi
  | cellular
  | wired
  deriving DecidableEq

/-- A path as the network monitor reports it. -/
structure RawPath where
  satisfied : Bool
  usesWifi : Bool
  usesCellular : Bool
  usesWired : Bool
  hasIPv4 : Bool
  hasIPv6 : Bool

/-- The last path values that the provider remembers. -/
structure Path where
  satisfied : Bool
  interface : Interface
  hasIPv4 : Bool
  hasIPv6 : Bool
  deriving DecidableEq

def RawPath.read (raw : RawPath) : Path where
  satisfied := raw.satisfied
  interface :=
    if raw.satisfied then
      if raw.usesWifi then .wifi
      else if raw.usesCellular then .cellular
      else if raw.usesWired then .wired
      else .other
    else .other
  hasIPv4 := raw.satisfied && raw.hasIPv4
  hasIPv6 := raw.satisfied && raw.hasIPv6

/-- Connectivity regained, another interface, or another set of address families. -/
def shouldRestart (last now : Path) : Bool :=
  now.satisfied && (!last.satisfied || now.interface != last.interface ||
    now.hasIPv4 != last.hasIPv4 || now.hasIPv6 != last.hasIPv6)

/-- A block of the engine-control queue. A start block belongs to a start call, a stop block
knows how many start calls were issued before it, a restart block its generation. -/
inductive Block where
  | start (id : Nat)
  | stop (before : Nat)
  | restart (generation : Nat)
  deriving DecidableEq

/-- An engine that was brought up: the start call it belongs to, and how many start calls the
last completed stop had before it at that time. -/
structure Launch where
  id : Nat
  stopped : Nat
  deriving DecidableEq

/-- The provider, with the start calls numbered in the order they are issued. `starts`,
`stopped` and `launches` only record what happened. -/
structure PacketTunnelProvider where
  starts : Nat
  settings : List Nat
  control : List Block
  engine : Option Nat
  coreRunning : Bool
  ipcListener : Option Nat
  pathMonitor : Option Nat
  monitors : List Nat
  lastPath : Option Path
  deciding : Nat
  timers : List Nat
  restartGeneration : Nat
  pathGeneration : Nat
  state : Option Written
  stopped : Nat
  launches : List Launch
  deriving DecidableEq

def initial : PacketTunnelProvider where
  starts := 0
  settings := []
  control := []
  engine := none
  coreRunning := false
  ipcListener := none
  pathMonitor := none
  monitors := []
  lastPath := none
  deciding := 0
  timers := []
  restartGeneration := 0
  pathGeneration := 0
  state := none
  stopped := 0
  launches := []

/-- What can happen next. The flags are the outcomes that the provider does not control: whether
the settings were applied, whether bringing the engine up succeeds, whether state.json is written
when the step writes it. -/
inductive Event where
  | startTunnel (written : Bool)
  | settingsDone (id : Nat) (applied written : Bool)
  | stopTunnel
  | sleep
  | wake
  | pathUpdate (generation : Nat) (path : RawPath)
  | pathSchedule
  | timer (generation : Nat)
  | control (started written : Bool)

/-- A write that fails is logged and leaves the file as it is. -/
def writeState (p : PacketTunnelProvider) (stage : Stage) (writer : Option Nat) (written : Bool) :
    PacketTunnelProvider :=
  { p with state := if written then some ⟨stage, writer⟩ else p.state }

/-- Bump the generation and arm a delayed block that remembers it. -/
def scheduleEngineRestart (p : PacketTunnelProvider) : PacketTunnelProvider :=
  { p with restartGeneration := p.restartGeneration + 1
           timers := (p.restartGeneration + 1) :: p.timers }

def startPathMonitor (p : PacketTunnelProvider) (id : Nat) : PacketTunnelProvider :=
  { p with pathGeneration := p.pathGeneration + 1
           monitors := (p.pathGeneration + 1) :: p.monitors
           pathMonitor := some id
           lastPath := none }

def stopPathMonitor (p : PacketTunnelProvider) : PacketTunnelProvider :=
  { p with pathGeneration := p.pathGeneration + 1
           restartGeneration := p.restartGeneration + 1
           pathMonitor := none }

/-- The engine-control block of a start: engine, listener, path monitor, then the stage. The core
refuses a second start while it is running. -/
def runStart (p : PacketTunnelProvider) (id : Nat) (started written : Bool) : Option PacketTunnelProvider :=
  if started then
    if p.coreRunning then none
    else
      let p := { p with engine := some id, coreRunning := true, ipcListener := some id
                        launches := p.launches ++ [⟨id, p.stopped⟩] }
      some (writeState (startPathMonitor p id) .connected (some id) written)
  else some (writeState p .error (some id) written)

def runStop (p : PacketTunnelProvider) (before : Nat) (written : Bool) : PacketTunnelProvider :=
  let p := stopPathMonitor p
  let p := { p with engine := none, ipcListener := none
                    coreRunning := if p.engine.isSome then false else p.coreRunning
                    stopped := max p.stopped before }
  writeState p .disconnected none written

/-- The control block of a restart: superseded, without an engine, or in place. -/
def runRestart (p : PacketTunnelProvider) (generation : Nat) (started written : Bool) : PacketTunnelProvider :=
  if p.restartGeneration ≠ generation then p
  else
    match p.engine with
    | none => p
    | some id =>
      if started then
        { p with coreRunning := true, launches := p.launches ++ [⟨id, p.stopped⟩] }
      else writeState { p with engine := none, coreRunning := false } .error (some id) written

def runBlock (p : PacketTunnelProvider) (block : Block) (started written : Bool) : Option PacketTunnelProvider :=
  match block with
  | .start id => runStart p id started written
  | .stop before => some (runStop p before written)
  | .restart generation => some (runRestart p generation started written)

def step (p : PacketTunnelProvider) (event : Event) : Option PacketTunnelProvider :=
  match event with
  | .startTunnel written =>
    some (writeState { p with starts := p.starts + 1, settings := p.settings ++ [p.starts] }
      .connecting (some p.starts) written)
  | .settingsDone id applied written =>
    if id ∈ p.settings then
      let p := { p with settings := p.settings.erase id }
      if applied then some { p with control := p.control ++ [.start id] }
      else some (writeState p .error (some id) written)
    else none
  | .stopTunnel =>
    some { p with restartGeneration := p.restartGeneration + 1
                  control := p.control ++ [.stop p.starts] }
  | .sleep => some { p with restartGeneration := p.restartGeneration + 1 }
  | .wake => some (scheduleEngineRestart p)
  | .pathUpdate generation path =>
    if generation ∈ p.monitors then
      if p.pathGeneration ≠ generation then some p
      else
        let now := path.read
        match p.lastPath with
        | none => some { p with lastPath := some now }
        | some last =>
          if shouldRestart last now then
            some { p with lastPath := some now, deciding := p.deciding + 1 }
          else some { p with lastPath := some now }
    else none
  | .pathSchedule =>
    if 0 < p.deciding then some (scheduleEngineRestart { p with deciding := p.deciding - 1 }) else none
  | .timer generation =>
    if generation ∈ p.timers then
      let p := { p with timers := p.timers.erase generation }
      if p.restartGeneration = generation then
        some { p with control := p.control ++ [.restart generation] }
      else some p
    else none
  | .control started written =>
    match p.control with
    | [] => none
    | block :: rest => runBlock { p with control := rest } block started written

/-- What a completed stop promises about the start calls issued before it: none of their engines
was brought up afterwards, none is installed with its listener or path monitor, and the last
stage is not a `connected` of theirs. -/
structure StopWins (p : PacketTunnelProvider) : Prop where
  launched : ∀ launch ∈ p.launches, launch.stopped ≤ launch.id
  engine : ∀ id, p.engine = some id → p.stopped ≤ id
  listener : ∀ id, p.ipcListener = some id → p.stopped ≤ id
  monitor : ∀ id, p.pathMonitor = some id → p.stopped ≤ id
  stage : ∀ id, p.state = some ⟨.connected, some id⟩ → p.stopped ≤ id

/-- Settings are applied only for a start call after which no stop has been called, and a stop block
whose write fails leaves no `connected` of an earlier start behind. -/
def Settled (p : PacketTunnelProvider) (event : Event) : Prop :=
  match event with
  | .settingsDone id true _ => p.stopped ≤ id ∧ ∀ before, Block.stop before ∈ p.control → before ≤ id
  | .control _ false => ∀ before, p.control.head? = some (.stop before) →
    ∀ id, p.state = some ⟨.connected, some id⟩ → before ≤ id
  | _ => True

/-- A stop block is not followed by the start block of an earlier start call. -/
def InOrder (one two : Block) : Prop :=
  match one, two with
  | .stop before, .start id => before ≤ id
  | _, _ => True

/-- The queue holds no start that a stop has overtaken. -/
structure Ordered (p : PacketTunnelProvider) : Prop where
  wins : StopWins p
  queued : ∀ id, Block.start id ∈ p.control → p.stopped ≤ id
  order : p.control.Pairwise InOrder

theorem initial_ordered : Ordered initial where
  wins := ⟨by simp [initial], by simp [initial], by simp [initial], by simp [initial], by simp [initial]⟩
  queued := by simp [initial]
  order := List.Pairwise.nil

/-- Pending settings, timers, path values and generations do not matter for the order. -/
theorem Ordered.frame {p : PacketTunnelProvider} (inv : Ordered p) (starts : Nat) (settings monitors : List Nat)
    (lastPath : Option Path) (deciding : Nat) (timers : List Nat) (restartGeneration pathGeneration : Nat) :
    Ordered { p with starts := starts, settings := settings, monitors := monitors
                     lastPath := lastPath, deciding := deciding, timers := timers
                     restartGeneration := restartGeneration, pathGeneration := pathGeneration } :=
  ⟨⟨inv.wins.launched, inv.wins.engine, inv.wins.listener, inv.wins.monitor, inv.wins.stage⟩,
    inv.queued, inv.order⟩

/-- A `connected` that is there after a write was written now or is the one from before. -/
theorem writeState_connected {p : PacketTunnelProvider} {stage : Stage} {writer : Option Nat}
    {written : Bool} {id : Nat} (there : (writeState p stage writer written).state = some ⟨.connected, some id⟩) :
    (stage = .connected ∧ writer = some id) ∨
      (written = false ∧ p.state = some ⟨.connected, some id⟩) := by
  cases written with
  | true =>
    simp only [writeState, if_true, Option.some.injEq, Written.mk.injEq] at there
    exact .inl there
  | false => exact .inr ⟨rfl, there⟩

theorem Ordered.written {p : PacketTunnelProvider} (inv : Ordered p) (stage : Stage) (writer : Option Nat)
    (written : Bool) (other : stage ≠ .connected) : Ordered (writeState p stage writer written) := by
  refine ⟨⟨inv.wins.launched, inv.wins.engine, inv.wins.listener, inv.wins.monitor, ?_⟩,
    inv.queued, inv.order⟩
  intro id there
  rcases writeState_connected there with now | before
  · exact absurd now.1 other
  · exact inv.wins.stage id before.2

/-- A block may be queued when no stop before it comes after its start call. -/
theorem Ordered.push {p : PacketTunnelProvider} (inv : Ordered p) (block : Block)
    (fresh : ∀ id, block = .start id →
      p.stopped ≤ id ∧ ∀ before, Block.stop before ∈ p.control → before ≤ id) :
    Ordered { p with control := p.control ++ [block] } := by
  refine ⟨⟨inv.wins.launched, inv.wins.engine, inv.wins.listener, inv.wins.monitor, inv.wins.stage⟩,
    ?_, ?_⟩
  · intro id member
    rcases List.mem_append.mp member with old | new
    · exact inv.queued id old
    · exact (fresh id (List.mem_singleton.mp new).symm).1
  · rw [List.pairwise_append]
    refine ⟨inv.order, List.pairwise_singleton _ _, ?_⟩
    intro one member two last
    rw [List.mem_singleton.mp last]
    cases one with
    | stop before =>
      cases block with
      | start id => exact (fresh id rfl).2 before member
      | stop other => trivial
      | restart generation => trivial
    | start other => trivial
    | restart generation => trivial

/-- Taking the head block off the queue. -/
theorem Ordered.pop {p : PacketTunnelProvider} (inv : Ordered p) {block : Block} {rest : List Block}
    (head : p.control = block :: rest) : Ordered { p with control := rest } := by
  have order := inv.order
  rw [head, List.pairwise_cons] at order
  refine ⟨⟨inv.wins.launched, inv.wins.engine, inv.wins.listener, inv.wins.monitor, inv.wins.stage⟩,
    ?_, order.2⟩
  intro id member
  exact inv.queued id (by rw [head]; exact List.mem_cons_of_mem _ member)

theorem runStart_ordered {p q : PacketTunnelProvider} (inv : Ordered p) (id : Nat) (started written : Bool)
    (fresh : p.stopped ≤ id) (ran : runStart p id started written = some q) : Ordered q := by
  unfold runStart at ran
  cases started with
  | false =>
    simp only [Bool.false_eq_true, if_false, Option.some.injEq] at ran
    exact ran ▸ inv.written _ _ _ (by decide)
  | true =>
    by_cases running : p.coreRunning = true
    · simp [running] at ran
    · simp only [running, if_true, if_false, Bool.false_eq_true, Option.some.injEq] at ran
      subst ran
      refine ⟨⟨?_, ?_, ?_, ?_, ?_⟩, inv.queued, inv.order⟩
      · intro launch member
        rcases List.mem_append.mp member with old | new
        · exact inv.wins.launched launch old
        · rw [List.mem_singleton.mp new]
          exact fresh
      · intro other same
        exact Option.some.inj same ▸ fresh
      · intro other same
        exact Option.some.inj same ▸ fresh
      · intro other same
        exact Option.some.inj same ▸ fresh
      · intro other there
        rcases writeState_connected there with now | before
        · exact Option.some.inj now.2 ▸ fresh
        · exact inv.wins.stage other before.2

/-- When a stop block has run, no earlier start is left anywhere. -/
theorem runStop_ordered {p : PacketTunnelProvider} (inv : Ordered p) (before : Nat) (written : Bool)
    (rest : List Block) (head : p.control = .stop before :: rest)
    (kept : written = false → ∀ id, p.state = some ⟨.connected, some id⟩ → before ≤ id) :
    Ordered (runStop { p with control := rest } before written) := by
  have order := inv.order
  rw [head, List.pairwise_cons] at order
  have popped := inv.pop head
  refine ⟨⟨inv.wins.launched, ?_, ?_, ?_, ?_⟩, ?_, order.2⟩
  · intro id same
    exact absurd same (by simp [runStop, writeState])
  · intro id same
    exact absurd same (by simp [runStop, writeState])
  · intro id same
    exact absurd same (by simp [runStop, writeState, stopPathMonitor])
  · intro id there
    rcases writeState_connected there with now | earlier
    · exact absurd now.1 (by decide)
    · exact Nat.max_le.mpr ⟨inv.wins.stage id earlier.2, kept earlier.1 id earlier.2⟩
  · intro id member
    exact Nat.max_le.mpr ⟨popped.queued id member, order.1 _ member⟩

theorem runRestart_ordered {p : PacketTunnelProvider} (inv : Ordered p) (generation : Nat)
    (started written : Bool) : Ordered (runRestart p generation started written) := by
  unfold runRestart
  by_cases superseded : p.restartGeneration ≠ generation
  · rw [if_pos superseded]
    exact inv
  · rw [if_neg superseded]
    cases running : p.engine with
    | none => exact inv
    | some id =>
      have owner := inv.wins.engine id running
      cases started with
      | true =>
        refine ⟨⟨?_, ?_, inv.wins.listener, inv.wins.monitor, inv.wins.stage⟩, inv.queued, inv.order⟩
        · intro launch member
          rcases List.mem_append.mp member with old | new
          · exact inv.wins.launched launch old
          · rw [List.mem_singleton.mp new]
            exact owner
        · intro other same
          exact inv.wins.engine other (running.trans same)
      | false =>
        have cleared : Ordered { p with engine := none, coreRunning := false } := by
          refine ⟨⟨inv.wins.launched, ?_, inv.wins.listener, inv.wins.monitor, inv.wins.stage⟩,
            inv.queued, inv.order⟩
          intro other same
          exact absurd same (by simp)
        exact cleared.written .error (some id) written (by decide)

theorem control_ordered {p q : PacketTunnelProvider} (inv : Ordered p) (started written : Bool)
    (settled : Settled p (.control started written)) (taken : step p (.control started written) = some q) :
    Ordered q := by
  cases head : p.control with
  | nil => simp [step, head] at taken
  | cons block rest =>
    simp only [step, head] at taken
    have popped := inv.pop head
    cases block with
    | start id =>
      exact runStart_ordered popped id started written
        (inv.queued id (by rw [head]; exact List.mem_cons_self)) taken
    | stop before =>
      rw [runBlock, Option.some.injEq] at taken
      refine taken ▸ runStop_ordered inv before written rest head ?_
      rintro rfl
      exact settled before (congrArg List.head? head)
    | restart generation =>
      rw [runBlock, Option.some.injEq] at taken
      exact taken ▸ runRestart_ordered popped generation started written

theorem pathUpdate_ordered {p q : PacketTunnelProvider} (inv : Ordered p) (generation : Nat) (path : RawPath)
    (taken : step p (.pathUpdate generation path) = some q) : Ordered q := by
  simp only [step] at taken
  split at taken
  · split at taken
    · exact Option.some.inj taken ▸ inv
    · split at taken
      · exact Option.some.inj taken ▸ inv.frame _ _ _ _ _ _ _ _
      · split at taken
        · exact Option.some.inj taken ▸ inv.frame _ _ _ _ _ _ _ _
        · exact Option.some.inj taken ▸ inv.frame _ _ _ _ _ _ _ _
  · exact absurd taken (by simp)

theorem timer_ordered {p q : PacketTunnelProvider} (inv : Ordered p) (generation : Nat)
    (taken : step p (.timer generation) = some q) : Ordered q := by
  simp only [step] at taken
  split at taken
  · have erased : Ordered { p with timers := p.timers.erase generation } := inv.frame _ _ _ _ _ _ _ _
    split at taken
    · exact Option.some.inj taken ▸ erased.push (.restart generation) (fun _ other => by cases other)
    · exact Option.some.inj taken ▸ erased
  · exact absurd taken (by simp)

/-- Every step keeps the order, settings being applied only for starts without a later stop. -/
theorem step_ordered (p : PacketTunnelProvider) (event : Event) (q : PacketTunnelProvider) (inv : Ordered p)
    (settled : Settled p event) (taken : step p event = some q) : Ordered q := by
  cases event with
  | startTunnel written =>
    have issued : Ordered { p with starts := p.starts + 1, settings := p.settings ++ [p.starts] } :=
      inv.frame _ _ _ _ _ _ _ _
    exact Option.some.inj taken ▸ issued.written _ _ _ (by decide)
  | settingsDone id applied written =>
    have erased : Ordered { p with settings := p.settings.erase id } := inv.frame _ _ _ _ _ _ _ _
    simp only [step] at taken
    split at taken
    · cases applied with
      | true =>
        have pushed := erased.push (.start id) (fun other same => by cases same; exact settled)
        exact Option.some.inj taken ▸ pushed
      | false => exact Option.some.inj taken ▸ erased.written _ _ _ (by decide)
    · exact absurd taken (by simp)
  | stopTunnel =>
    have bumped : Ordered { p with restartGeneration := p.restartGeneration + 1 } :=
      inv.frame _ _ _ _ _ _ _ _
    have pushed := bumped.push (.stop p.starts) (fun _ other => by cases other)
    exact Option.some.inj taken ▸ pushed
  | sleep => exact Option.some.inj taken ▸ inv.frame _ _ _ _ _ _ _ _
  | wake => exact Option.some.inj taken ▸ inv.frame _ _ _ _ _ _ _ _
  | pathUpdate generation path => exact pathUpdate_ordered inv generation path taken
  | pathSchedule =>
    simp only [step] at taken
    split at taken
    · exact Option.some.inj taken ▸ inv.frame _ _ _ _ _ _ _ _
    · exact absurd taken (by simp)
  | timer generation => exact timer_ordered inv generation taken
  | control started written => exact control_ordered inv started written settled taken

/-- In every run in which settings are applied only for starts without a later stop, and no failed write
of a stop leaves an earlier `connected`, a completed stop wins over every start issued before it. -/
theorem stop_wins_when_settled (p : PacketTunnelProvider) (reached : Reaches step Settled initial p) :
    StopWins p :=
  (reached.invariant Ordered step_ordered initial_ordered).wins

/-- A session that is started, with a failed write, connected and stopped. -/
theorem sample_stop_wins : ∃ p, Reaches step Settled initial p ∧ p.stopped = 1 ∧ StopWins p := by
  have begun : Reaches step Settled initial _ := .next (.startTunnel false) .refl trivial rfl
  have applied : Reaches step Settled initial _ := .next (.settingsDone 0 true true) begun
    ⟨Nat.le_refl 0, fun _ none => absurd none List.not_mem_nil⟩ rfl
  have connected : Reaches step Settled initial _ := .next (.control true true) applied trivial rfl
  have called : Reaches step Settled initial _ := .next .stopTunnel connected trivial rfl
  have stopped : Reaches step Settled initial _ := .next (.control true true) called trivial rfl
  exact ⟨_, stopped, rfl, stop_wins_when_settled _ stopped⟩

/-- A stop between the request and the completion of the settings is overtaken: the start block
is queued after the stop has completed and connects. -/
theorem stop_overtaken : ∃ p, Reachable step initial p ∧ ¬StopWins p := by
  obtain ⟨p, ran, running, stopped⟩ : ∃ p, run step initial
      [.startTunnel true, .stopTunnel, .control true true, .settingsDone 0 true true,
        .control true true] = some p ∧
        p.engine = some 0 ∧ p.stopped = 1 := ⟨_, rfl, rfl, rfl⟩
  refine ⟨p, reachable_of_run ran, ?_⟩
  intro wins
  have late := wins.engine 0 running
  omega

end ShadowVpn.Tunnel.Provider
