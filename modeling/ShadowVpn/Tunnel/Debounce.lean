import ShadowVpn.Tunnel.Provider

/-! Debounced restarts, watched from outside: which request a restart was made for, what happened
between the request and the restart, and which engine it hit. -/

namespace ShadowVpn.Tunnel.Debounce
open ShadowVpn.Lib.Transition ShadowVpn.Tunnel.Provider

/-- A restart request: its generation, how many requests, sleeps and stops there were up to it, and
how many start calls had been issued. -/
structure Request where
  generation : Nat
  clock : Nat
  starts : Nat

/-- An executed restart: its generation, the requests, sleeps and stops so far, the engine it hit,
and the engines that had been stopped. -/
structure Execution where
  generation : Nat
  clock : Nat
  engine : Nat
  ended : List Nat

structure Watched where
  provider : PacketTunnelProvider
  clock : Nat
  requests : List Request
  executed : List Execution
  ended : List Nat

def watched : Watched := ⟨initial, 0, [], [], []⟩

/-- `wake`, or a path update that asks for a restart. -/
def asks : Event → Bool
  | .wake | .pathSchedule => true
  | _ => false

/-- Another request, a sleep or a stop. -/
def disturbs : Event → Bool
  | .wake | .pathSchedule | .sleep | .stopTunnel => true
  | _ => false

/-- The restart that the next control block executes, if it does. -/
def executes (w : Watched) : Event → Option Execution
  | .control _ _ => match w.provider.control, w.provider.engine with
    | .restart generation :: _, some id =>
      if w.provider.restartGeneration = generation then some ⟨generation, w.clock, id, w.ended⟩ else none
    | _, _ => none
  | _ => none

/-- The engine that the next control block stops. -/
def ends (w : Watched) : Event → Option Nat
  | .control _ _ => match w.provider.control with
    | .stop _ :: _ => w.provider.engine
    | _ => none
  | _ => none

def watch (w : Watched) (event : Event) : Option Watched :=
  (step w.provider event).map fun p =>
    { provider := p
      clock := w.clock + if disturbs event then 1 else 0
      requests := w.requests ++ if asks event then [⟨p.restartGeneration, w.clock + 1, p.starts⟩] else []
      executed := w.executed ++ (executes w event).toList
      ended := w.ended ++ (ends w event).toList }

/-- Every restart is executed for a request since which there was no other request, sleep or stop,
on an engine of an earlier start call that has not been stopped; there is at most one for a
request. -/
structure Exact (w : Watched) : Prop where
  timely : ∀ e ∈ w.executed, ∃ r ∈ w.requests, r.generation = e.generation ∧ r.clock = e.clock ∧
    e.engine < r.starts
  once : (w.executed.map Execution.clock).Nodup
  alive : ∀ e ∈ w.executed, e.engine ∉ e.ended

def generationOf : Block → Option Nat
  | .restart generation => some generation
  | _ => none

def startOf : Block → Option Nat
  | .start id => some id
  | _ => none

/-- The generations of the requests that wait for their timer or their control block. -/
def pending (p : PacketTunnelProvider) : List Nat := p.timers ++ p.control.filterMap generationOf

/-- When an engine is brought up, no request from before its start call is pending with the current
generation. -/
def unarmed (w : Watched) : Event → Bool
  | .control true _ => match w.provider.control with
    | .start id :: _ => w.requests.all fun r => r.generation != w.provider.restartGeneration ||
        !(pending w.provider).contains r.generation || id < r.starts
    | _ => true
  | _ => true

/-- How often a start call's engine is on its way, up or stopped. -/
def copies (w : Watched) (id : Nat) : Nat :=
  w.provider.settings.count id + (w.provider.control.filterMap startOf).count id +
    w.provider.engine.toList.count id + w.ended.count id

/-- Requests are pending or executed, never both; those of the current generation are undisturbed,
and none of them was made before the start call of the engine that is up. -/
structure Watching (w : Watched) : Prop where
  ordered : w.requests.Pairwise fun r s => r.generation < s.generation ∧ r.clock < s.clock
  recent : ∀ r ∈ w.requests, r.generation ≤ w.provider.restartGeneration ∧ r.clock ≤ w.clock ∧
    (r.generation = w.provider.restartGeneration → r.clock = w.clock)
  known : ∀ g ∈ pending w.provider, ∃ r ∈ w.requests, r.generation = g
  single : ∀ g, (pending w.provider).count g + (w.executed.map Execution.generation).count g ≤
    if g ≤ w.provider.restartGeneration then 1 else 0
  numbered : ∀ id, copies w id ≤ if id < w.provider.starts then 1 else 0
  guarded : ∀ id, w.provider.engine = some id → ∀ r ∈ w.requests,
    r.generation = w.provider.restartGeneration → r.generation ∈ pending w.provider → id < r.starts
  timely : ∀ e ∈ w.executed, ∃ r ∈ w.requests, r.generation = e.generation ∧ r.clock = e.clock ∧
    e.engine < r.starts
  alive : ∀ e ∈ w.executed, e.engine ∉ e.ended

theorem watched_watching : Watching watched where
  ordered := List.Pairwise.nil
  recent _ member := absurd member List.not_mem_nil
  known _ member := absurd member List.not_mem_nil
  single _ := Nat.zero_le _
  numbered _ := Nat.zero_le _
  guarded _ present := by cases present
  timely _ member := absurd member List.not_mem_nil
  alive _ member := absurd member List.not_mem_nil

/-- Two requests with one clock are of one generation. -/
theorem Watching.same_clock {w : Watched} (inv : Watching w) {r s : Request} (left : r ∈ w.requests)
    (right : s ∈ w.requests) (same : r.clock = s.clock) : r.generation = s.generation := by
  refine List.Pairwise.forall_of_forall_of_flip (R := fun r s : Request =>
    r.clock = s.clock → r.generation = s.generation) (fun _ _ _ => rfl) ?_ ?_ left right same
  · exact inv.ordered.imp fun both same => absurd same (Nat.ne_of_lt both.2)
  · exact inv.ordered.imp fun both same => absurd same.symm (Nat.ne_of_lt both.2)

/-- A generation that is pending or executed has been given out. -/
theorem Watching.given {w : Watched} (inv : Watching w) {g : Nat}
    (member : g ∈ pending w.provider) : g ≤ w.provider.restartGeneration := by
  have one := inv.single g
  have present := List.count_pos_iff.mpr member
  split at one <;> omega

/-- A change of the provider under which the same requests stay pending or fall away. -/
theorem Watching.frame {w : Watched} (inv : Watching w) (p : PacketTunnelProvider)
    (generation : p.restartGeneration = w.provider.restartGeneration)
    (fewer : ∀ g, (pending p).count g ≤ (pending w.provider).count g)
    (numbered : ∀ id, copies { w with provider := p } id ≤ if id < p.starts then 1 else 0)
    (engine : ∀ id, p.engine = some id → w.provider.engine = some id ∨ ∀ r ∈ w.requests,
      r.generation = w.provider.restartGeneration → r.generation ∈ pending w.provider → id < r.starts) :
    Watching { w with provider := p } := by
  have subset : ∀ g, g ∈ pending p → g ∈ pending w.provider := by
    intro g member
    have present := List.count_pos_iff.mpr member
    exact List.count_pos_iff.mp (Nat.lt_of_lt_of_le present (fewer g))
  refine ⟨inv.ordered, ?_, fun g member => inv.known g (subset g member), ?_, numbered, ?_, inv.timely,
    inv.alive⟩
  · intro r member
    have recent := inv.recent r member
    rwa [← generation] at recent
  · intro g
    have one := inv.single g
    have less := fewer g
    rw [← generation] at one
    exact Nat.le_trans (Nat.add_le_add_right less _) one
  · intro id present r member current waits
    have waited := subset _ waits
    rcases engine id present with up | guarded
    · exact inv.guarded id up r member (current.trans generation) waited
    · exact guarded r member (current.trans generation) waited

/-- Once the generation is bumped, nothing that is pending is current. -/
theorem Watching.bump {w : Watched} (inv : Watching w) (p : PacketTunnelProvider) (clock : Nat) (ended : List Nat)
    (generation : p.restartGeneration = w.provider.restartGeneration + 1) (later : w.clock ≤ clock)
    (same : pending p = pending w.provider)
    (numbered : ∀ id, copies { w with provider := p, ended := ended } id ≤ if id < p.starts then 1 else 0) :
    Watching { w with provider := p, clock := clock, ended := ended } := by
  refine ⟨inv.ordered, ?_, ?_, ?_, numbered, ?_, inv.timely, inv.alive⟩
  · intro r member
    obtain ⟨low, early, _⟩ := inv.recent r member
    dsimp only
    exact ⟨by omega, Nat.le_trans early later, fun current => absurd current (by omega)⟩
  · intro g member
    exact inv.known g (same ▸ member)
  · intro g
    have one := inv.single g
    dsimp only
    rw [same, generation]
    split at one
    · rw [if_pos (by omega)]
      exact one
    · omega
  · intro id _ r member current
    have low := (inv.recent r member).1
    dsimp only at current
    omega

/-- A new request is the only one of its generation, and the engine that is up was there before. -/
theorem Watching.request {w : Watched} (inv : Watching w) (p : PacketTunnelProvider)
    (generation : p.restartGeneration = w.provider.restartGeneration + 1)
    (waits : pending p = p.restartGeneration :: pending w.provider)
    (numbered : ∀ id, copies { w with provider := p } id ≤ if id < p.starts then 1 else 0) :
    Watching { w with provider := p, clock := w.clock + 1
                      requests := w.requests ++ [⟨p.restartGeneration, w.clock + 1, p.starts⟩] } := by
  refine ⟨?_, ?_, ?_, ?_, numbered, ?_, ?_, inv.alive⟩
  · rw [List.pairwise_append]
    refine ⟨inv.ordered, List.pairwise_singleton _ _, ?_⟩
    intro r member s last
    obtain ⟨low, early, _⟩ := inv.recent r member
    rw [List.mem_singleton.mp last]
    exact ⟨by simp only; omega, Nat.lt_succ_of_le early⟩
  · intro r member
    rcases List.mem_append.mp member with old | new
    · obtain ⟨low, early, _⟩ := inv.recent r old
      exact ⟨by simp only; omega, Nat.le_succ_of_le early, fun current => by simp only at current; omega⟩
    · rw [List.mem_singleton.mp new]
      exact ⟨Nat.le_refl _, Nat.le_refl _, fun _ => rfl⟩
  · intro g member
    rw [waits] at member
    rcases List.mem_cons.mp member with rfl | old
    · exact ⟨_, List.mem_append_right _ (List.mem_singleton.mpr rfl), rfl⟩
    · obtain ⟨r, known, same⟩ := inv.known g old
      exact ⟨r, List.mem_append_left _ known, same⟩
  · intro g
    have one := inv.single g
    dsimp only
    rw [waits, List.count_cons, generation]
    simp only [beq_iff_eq]
    split at one <;> split <;> split <;> omega
  · intro id present r member current _
    rcases List.mem_append.mp member with old | new
    · have low := (inv.recent r old).1
      exact absurd current (by simp only; omega)
    · rw [List.mem_singleton.mp new]
      have owned := numbered id
      have present : p.engine = some id := present
      simp only [copies, present, Option.toList_some, List.count_singleton_self] at owned
      split at owned
      · next low => exact low
      · omega
  · intro e member
    obtain ⟨r, known, facts⟩ := inv.timely e member
    exact ⟨r, List.mem_append_left _ known, facts⟩

/-- A restart that is executed takes its request out of those that are pending. -/
theorem Watching.execute {w : Watched} (inv : Watching w) (p : PacketTunnelProvider) (id : Nat)
    (generation : p.restartGeneration = w.provider.restartGeneration)
    (up : w.provider.engine = some id)
    (fewer : ∀ g, (pending w.provider).count g =
      (pending p).count g + if w.provider.restartGeneration = g then 1 else 0)
    (numbered : ∀ id, copies { w with provider := p } id ≤ if id < p.starts then 1 else 0)
    (engine : ∀ id, p.engine = some id → w.provider.engine = some id) :
    Watching { w with provider := p
                      executed := w.executed ++
                        [⟨w.provider.restartGeneration, w.clock, id, w.ended⟩] } := by
  have subset : ∀ g, g ∈ pending p → g ∈ pending w.provider := by
    intro g member
    have present := List.count_pos_iff.mpr member
    exact List.count_pos_iff.mp (by have more := fewer g; omega)
  have waited : w.provider.restartGeneration ∈ pending w.provider := by
    apply List.count_pos_iff.mp
    rw [fewer, if_pos rfl]
    exact Nat.succ_pos _
  refine ⟨inv.ordered, ?_, fun g member => inv.known g (subset g member), ?_, numbered, ?_, ?_, ?_⟩
  · intro r member
    have recent := inv.recent r member
    rwa [← generation] at recent
  · intro g
    have one := inv.single g
    have less := fewer g
    dsimp only
    rw [generation, List.map_append, List.count_append, List.map_cons, List.map_nil, List.count_singleton]
    simp only [beq_iff_eq]
    omega
  · intro other present r member current waits
    exact inv.guarded other (engine other present) r member (current.trans generation) (subset _ waits)
  · intro e member
    rcases List.mem_append.mp member with old | new
    · exact inv.timely e old
    · obtain ⟨r, known, same⟩ := inv.known _ waited
      have clock := (inv.recent r known).2.2 same
      have older := inv.guarded id up r known same (same.symm ▸ waited)
      rw [List.mem_singleton.mp new]
      exact ⟨r, known, same, clock, older⟩
  · intro e member
    rcases List.mem_append.mp member with old | new
    · exact inv.alive e old
    · rw [List.mem_singleton.mp new]
      have owned := inv.numbered id
      simp only [copies, up, Option.toList_some, List.count_singleton_self] at owned
      have absent : w.ended.count id = 0 := by split at owned <;> omega
      exact List.count_eq_zero.mp absent

theorem control_watching {w v : Watched} {started written : Bool} (inv : Watching w)
    (calm : unarmed w (.control started written) = true)
    (taken : watch w (.control started written) = some v) : Watching v := by
  simp only [watch, Option.map_eq_some_iff] at taken
  obtain ⟨p, stepped, rfl⟩ := taken
  cases head : w.provider.control with
  | nil => simp [step, head] at stepped
  | cons block rest =>
    simp only [step, head] at stepped
    cases block with
    | start id =>
      have still : ∀ g, (pending { w.provider with control := rest }).count g =
          (pending w.provider).count g := by
        intro g
        simp only [pending, head, List.filterMap_cons, generationOf]
      have counts : ∀ other, (w.provider.control.filterMap startOf).count other =
          (rest.filterMap startOf).count other + if id = other then 1 else 0 := by
        intro other
        simp only [head, List.filterMap_cons, startOf, List.count_cons, beq_iff_eq]
      simp only [runBlock, runStart] at stepped
      simp only [disturbs, asks, executes, ends, head, Bool.false_eq_true, if_false, Nat.add_zero,
        List.append_nil, Option.toList_none]
      cases started with
      | false =>
        simp only [Bool.false_eq_true, if_false, Option.some.injEq] at stepped
        subst stepped
        refine inv.frame _ rfl (fun g => Nat.le_of_eq (still g)) ?_ (fun other up => .inl up)
        intro other
        refine Nat.le_trans ?_ (inv.numbered other)
        simp only [copies, writeState, counts]
        omega
      | true =>
        simp only [if_true] at stepped
        split at stepped
        · cases stepped
        · rw [← Option.some.inj stepped]
          refine inv.frame _ rfl (fun g => Nat.le_of_eq (still g)) ?_ ?_
          · intro other
            refine Nat.le_trans ?_ (inv.numbered other)
            simp only [copies, writeState, startPathMonitor, Option.toList_some, List.count_singleton,
              beq_iff_eq, counts]
            omega
          · intro other up
            right
            intro r member current waits
            obtain rfl : id = other := Option.some.inj up
            simp only [unarmed, head, List.all_eq_true] at calm
            have older := calm r member
            simpa [current, current ▸ waits] using older
    | stop before =>
      rw [runBlock, Option.some.injEq] at stepped
      simp only [disturbs, asks, executes, ends, head, Bool.false_eq_true, if_false, Nat.add_zero,
        List.append_nil, Option.toList_none]
      subst stepped
      refine inv.bump _ _ _ rfl (Nat.le_refl _) ?_ ?_
      · simp only [pending, runStop, writeState, stopPathMonitor, head, List.filterMap_cons, generationOf]
      · intro other
        refine Nat.le_trans ?_ (inv.numbered other)
        simp only [copies, runStop, writeState, stopPathMonitor, head, List.filterMap_cons, startOf,
          Option.toList_none, List.count_nil, List.count_append]
        omega
    | restart generation =>
      rw [runBlock, Option.some.injEq] at stepped
      have counts : ∀ g, (pending w.provider).count g =
          (pending { w.provider with control := rest }).count g + if generation = g then 1 else 0 := by
        intro g
        simp only [pending, head, List.filterMap_cons, generationOf, List.count_append, List.count_cons,
          beq_iff_eq]
        omega
      have same : ∀ id, copies { w with provider := { w.provider with control := rest } } id =
          copies w id := by
        intro id
        simp only [copies, head, List.filterMap_cons, startOf]
      simp only [disturbs, asks, ends, head, Bool.false_eq_true, if_false, Nat.add_zero,
        List.append_nil, Option.toList_none]
      have dropped : Watching { w with provider := { w.provider with control := rest } } :=
        inv.frame _ rfl (fun g => by rw [counts]; exact Nat.le_add_right _ _)
          (fun other => same other ▸ inv.numbered other) (fun other up => .inl up)
      by_cases current : w.provider.restartGeneration = generation
      · subst current
        cases up : w.provider.engine with
        | none =>
          have idle : p = { w.provider with control := rest } := by
            rw [← stepped]
            simp [runRestart, up]
          have nothing : executes w (.control started written) = none := by simp [executes, head, up]
          rw [idle, nothing]
          simpa only [Option.toList_none, List.append_nil] using dropped
        | some id =>
          have hit : executes w (.control started written) =
              some ⟨w.provider.restartGeneration, w.clock, id, w.ended⟩ := by
            simp [executes, head, up]
          rw [hit, Option.toList_some]
          cases started with
          | true =>
            simp only [runRestart, up, ne_eq, not_true_eq_false, if_false, if_true] at stepped
            subst stepped
            refine inv.execute _ id rfl up counts ?_ (fun other present => up.trans present)
            intro other
            refine Nat.le_trans (Nat.le_of_eq ?_) (inv.numbered other)
            rw [← same other]
            simp only [copies, up]
          | false =>
            simp only [runRestart, up, ne_eq, not_true_eq_false, if_false, Bool.false_eq_true] at stepped
            subst stepped
            refine inv.execute _ id rfl up counts ?_ (fun other present => by cases present)
            intro other
            refine Nat.le_trans ?_ (inv.numbered other)
            rw [← same other]
            simp only [copies, writeState, Option.toList_none, List.count_nil]
            omega
      · have superseded : p = { w.provider with control := rest } := by
          rw [← stepped, runRestart, if_pos current]
        have nothing : executes w (.control started written) = none := by
          cases up : w.provider.engine <;> simp [executes, head, up, current]
        rw [superseded, nothing]
        simpa only [Option.toList_none, List.append_nil] using dropped

/-- An event that is no request, sleep, stop or control block leaves no mark. -/
theorem watch_quiet {w v : Watched} {event : Event} (calm : disturbs event = false) (unasked : asks event = false)
    (idle : executes w event = none) (lasts : ends w event = none) (taken : watch w event = some v) :
    ∃ p, step w.provider event = some p ∧ v = { w with provider := p } := by
  simp only [watch, Option.map_eq_some_iff] at taken
  obtain ⟨p, stepped, rfl⟩ := taken
  refine ⟨p, stepped, ?_⟩
  simp only [calm, unasked, idle, lasts, Bool.false_eq_true, if_false, Nat.add_zero, List.append_nil,
    Option.toList_none]

theorem pathUpdate_watching {w v : Watched} {generation : Nat} {path : RawPath} (inv : Watching w)
    (taken : watch w (.pathUpdate generation path) = some v) : Watching v := by
  obtain ⟨p, stepped, rfl⟩ := watch_quiet rfl rfl rfl rfl taken
  have frame : ∀ lastPath deciding, Watching { w with provider := { w.provider with
      lastPath := lastPath, deciding := deciding } } := by
    intro lastPath deciding
    exact inv.frame _ rfl (fun _ => Nat.le_refl _) inv.numbered (fun _ up => .inl up)
  simp only [step] at stepped
  split at stepped
  · split at stepped
    · exact Option.some.inj stepped ▸ inv
    · split at stepped
      · exact Option.some.inj stepped ▸ frame _ _
      · split at stepped <;> exact Option.some.inj stepped ▸ frame _ _
  · cases stepped

/-- An erased element counts once less. -/
theorem count_erase_add {numbers : List Nat} {n : Nat} (member : n ∈ numbers) (other : Nat) :
    (numbers.erase n).count other + (if n = other then 1 else 0) = numbers.count other := by
  rw [List.count_erase]
  have present := List.count_pos_iff.mpr member
  by_cases same : n = other
  · subst same
    simp only [beq_self_eq_true, if_true]
    omega
  · simp [same]

theorem timer_watching {w v : Watched} {generation : Nat} (inv : Watching w)
    (taken : watch w (.timer generation) = some v) : Watching v := by
  obtain ⟨p, stepped, rfl⟩ := watch_quiet rfl rfl rfl rfl taken
  simp only [step] at stepped
  split at stepped
  · next armed =>
    have erased := count_erase_add armed
    split at stepped
    · rw [← Option.some.inj stepped]
      refine inv.frame _ rfl ?_ ?_ (fun _ up => .inl up)
      · intro g
        simp only [pending, List.filterMap_append, List.filterMap_cons, List.filterMap_nil, generationOf,
          List.count_append, List.count_singleton, beq_iff_eq]
        have moved := erased g
        omega
      · intro id
        refine Nat.le_trans (Nat.le_of_eq ?_) (inv.numbered id)
        simp only [copies, List.filterMap_append, List.filterMap_cons, List.filterMap_nil, startOf,
          List.append_nil]
    · rw [← Option.some.inj stepped]
      refine inv.frame _ rfl ?_ inv.numbered (fun _ up => .inl up)
      intro g
      have moved := erased g
      simp only [pending, List.count_append]
      omega
  · cases stepped

theorem settingsDone_watching {w v : Watched} {id : Nat} {applied written : Bool} (inv : Watching w)
    (taken : watch w (.settingsDone id applied written) = some v) : Watching v := by
  obtain ⟨p, stepped, rfl⟩ := watch_quiet rfl rfl rfl rfl taken
  simp only [step] at stepped
  split at stepped
  · next asked =>
    have erased := count_erase_add asked
    cases applied with
    | true =>
      rw [← Option.some.inj stepped]
      refine inv.frame _ rfl ?_ ?_ (fun _ up => .inl up)
      · intro g
        simp only [pending, List.filterMap_append, List.filterMap_cons, List.filterMap_nil,
          generationOf, List.append_nil]
        exact Nat.le_refl _
      · intro other
        refine Nat.le_trans ?_ (inv.numbered other)
        have moved := erased other
        simp only [copies, List.filterMap_append, List.filterMap_cons, List.filterMap_nil, startOf,
          List.count_append, List.count_singleton, beq_iff_eq]
        omega
    | false =>
      rw [← Option.some.inj stepped]
      refine inv.frame _ rfl (fun _ => Nat.le_refl _) ?_ (fun _ up => .inl up)
      intro other
      refine Nat.le_trans ?_ (inv.numbered other)
      have moved := erased other
      simp only [copies, writeState]
      omega
  · cases stepped

/-- Every step keeps the restarts watched, as long as no engine comes up under an armed request. -/
theorem watch_watching {w v : Watched} {event : Event} (inv : Watching w)
    (calm : unarmed w event = true) (taken : watch w event = some v) : Watching v := by
  cases event with
  | startTunnel written =>
    obtain ⟨p, stepped, rfl⟩ := watch_quiet rfl rfl rfl rfl taken
    rw [← Option.some.inj stepped]
    refine inv.frame _ rfl (fun _ => Nat.le_refl _) ?_ (fun _ up => .inl up)
    intro id
    have owned := inv.numbered id
    change (w.provider.settings ++ [w.provider.starts]).count id +
      (w.provider.control.filterMap startOf).count id + w.provider.engine.toList.count id +
        w.ended.count id ≤ if id < w.provider.starts + 1 then 1 else 0
    simp only [copies] at owned
    simp only [List.count_append, List.count_singleton, beq_iff_eq]
    split at owned <;> split <;> split <;> omega
  | settingsDone id applied written => exact settingsDone_watching inv taken
  | stopTunnel =>
    rw [← Option.some.inj taken]
    simp only [disturbs, asks, executes, ends, Bool.false_eq_true, if_false, if_true,
      List.append_nil, Option.toList_none]
    refine inv.bump _ _ _ rfl (Nat.le_succ _) ?_ ?_
    · simp only [pending, List.filterMap_append, List.filterMap_cons, List.filterMap_nil, generationOf,
        List.append_nil]
    · intro id
      refine Nat.le_trans (Nat.le_of_eq ?_) (inv.numbered id)
      simp only [copies, List.filterMap_append, List.filterMap_cons, List.filterMap_nil, startOf,
        List.append_nil]
  | sleep =>
    rw [← Option.some.inj taken]
    simp only [disturbs, asks, executes, ends, Bool.false_eq_true, if_false, if_true,
      List.append_nil, Option.toList_none]
    exact inv.bump _ _ _ rfl (Nat.le_succ _) rfl inv.numbered
  | wake =>
    rw [← Option.some.inj taken]
    simp only [disturbs, asks, executes, ends, if_true, List.append_nil, Option.toList_none]
    exact inv.request _ rfl rfl inv.numbered
  | pathUpdate generation path => exact pathUpdate_watching inv taken
  | pathSchedule =>
    simp only [watch, Option.map_eq_some_iff] at taken
    obtain ⟨p, stepped, rfl⟩ := taken
    simp only [step] at stepped
    split at stepped
    · rw [← Option.some.inj stepped]
      simp only [disturbs, asks, executes, ends, if_true, List.append_nil, Option.toList_none]
      exact inv.request _ rfl rfl inv.numbered
    · cases stepped
  | timer generation => exact timer_watching inv taken
  | control started written => exact control_watching inv calm taken

theorem Watching.exact {w : Watched} (inv : Watching w) : Exact w where
  timely := inv.timely
  alive := inv.alive
  once := by
    have distinct : (w.executed.map Execution.generation).Nodup := by
      rw [List.nodup_iff_count]
      intro g
      have one := inv.single g
      split at one <;> omega
    rw [List.nodup_iff_pairwise_ne, List.pairwise_map] at distinct ⊢
    refine distinct.imp_of_mem ?_
    intro d e left right differ same
    obtain ⟨r, known, generation, clock, _⟩ := inv.timely d left
    obtain ⟨s, known', generation', clock', _⟩ := inv.timely e right
    have equal := inv.same_clock known known' (clock.trans (same.trans clock'.symm))
    exact differ (generation.symm.trans (equal.trans generation'))

/-- In every run in which no engine is brought up under an armed request of an earlier time, the
restarts are exact. -/
theorem restarts_exact (w : Watched)
    (reached : Reaches watch (fun w event => unarmed w event = true) watched w) : Exact w :=
  (reached.invariant Watching (fun _ _ _ inv calm taken => watch_watching inv calm taken)
    watched_watching).exact

/-- Two wakes in one session lead to one restart, for the second of them. -/
theorem sample_restarts_exact : ∃ w, Reaches watch (fun w event => unarmed w event = true) watched w ∧
    w.requests.map Request.generation = [1, 2] ∧ w.executed.map Execution.generation = [2] ∧ Exact w := by
  have ran : (testedRun watch unarmed watched [.startTunnel true, .settingsDone 0 true true,
      .control true false, .wake, .wake, .timer 1, .timer 2, .control true true]).map (fun w =>
        (w.requests.map Request.generation, w.executed.map Execution.generation)) = some ([1, 2], [2]) := by
    decide
  obtain ⟨w, ran, both⟩ := Option.map_eq_some_iff.mp ran
  obtain ⟨requests, executed⟩ := Prod.mk.inj both
  have reached := reaches_of_testedRun ran
  exact ⟨w, reached, requests, executed, restarts_exact w reached⟩

/-- A wake before the session restarts the engine that the session brings up. -/
theorem restart_crosses_sessions : ∃ w, Reachable watch watched w ∧ ¬Exact w := by
  have ran : (run watch watched [.wake, .startTunnel true, .settingsDone 0 true true,
      .control true true, .timer 1, .control true true]).map (fun w =>
        (w.requests.map Request.starts, w.executed.map Execution.engine)) = some ([0], [0]) := by
    decide
  obtain ⟨w, ran, both⟩ := Option.map_eq_some_iff.mp ran
  obtain ⟨requests, executed⟩ := Prod.mk.inj both
  refine ⟨w, reachable_of_run ran, ?_⟩
  intro exact
  obtain ⟨e, hit, engine⟩ := List.mem_map.mp (executed ▸ List.mem_singleton.mpr (Eq.refl 0))
  obtain ⟨r, known, _, _, older⟩ := exact.timely e hit
  have first : r.starts ∈ [0] := requests ▸ List.mem_map_of_mem known
  have never := List.mem_singleton.mp first
  omega

end ShadowVpn.Tunnel.Debounce
