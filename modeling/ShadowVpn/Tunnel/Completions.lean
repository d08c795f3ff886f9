import ShadowVpn.Lib.Histories
import ShadowVpn.Tunnel.Provider

/-! The completion handlers of `PacketTunnelProvider.m`: the system calls `startTunnel`, `stopTunnel`
and `sleep` with a handler that has to be called once, when what was asked for is done or has failed. Most
blocks hold the provider weakly and can outlive it. -/

namespace ShadowVpn.Tunnel.Completions
open ShadowVpn.Lib.Transition ShadowVpn.Lib.Histories ShadowVpn.Tunnel.Provider

/-- A call of the system with a completion handler. -/
inductive Call where
  | start (id : Nat)
  | stop
  | sleep
  deriving DecidableEq

/-- A handler that is called; the flag is that of a start without an error. -/
structure Answer where
  call : Call
  good : Bool
  deriving DecidableEq

/-- The provider, and whether the last reference to it is gone. -/
structure Process where
  provider : PacketTunnelProvider
  released : Bool

def initial : Process := ⟨Provider.initial, false⟩

inductive Event where
  | own (event : Provider.Event)
  | release

/-- A stop or restart block refers to the provider strongly, a start block weakly. -/
def holds : Block → Bool
  | .start _ => false
  | _ => true

/-- What still comes when the provider is gone. The completion of the settings and a start block only call
the handler; a timer and a path update return. -/
def late (p : PacketTunnelProvider) : Provider.Event → Option PacketTunnelProvider
  | .settingsDone id _ _ =>
    if id ∈ p.settings then some { p with settings := p.settings.erase id } else none
  | .control _ _ =>
    match p.control with
    | .start _ :: rest => some { p with control := rest }
    | _ => none
  | .timer generation =>
    if generation ∈ p.timers then some { p with timers := p.timers.erase generation } else none
  | .pathUpdate generation _ => if generation ∈ p.monitors then some p else none
  | _ => none

def move (released : Bool) (p : PacketTunnelProvider) (event : Provider.Event) : Option PacketTunnelProvider :=
  if released then late p event else Provider.step p event

/-- The provider can go when no block holds it and no path update is being handled. -/
def step (s : Process) : Event → Option Process
  | .own event => (move s.released s.provider event).map fun p => { s with provider := p }
  | .release =>
    if s.released || decide (0 < s.provider.deciding) || s.provider.control.any holds then none
    else some { s with released := true }

abbrev Moment := Lib.Histories.Event Process Event

/-- The calls that a step makes. -/
def calls (moment : Moment) : List Call :=
  match moment.label with
  | .own (.startTunnel _) => [.start moment.before.provider.starts]
  | .own .stopTunnel => [.stop]
  | .own .sleep => [.sleep]
  | _ => []

/-- The handler that a block of the control queue calls at its end. -/
def blockAnswers (good : Bool) : Block → List Answer
  | .start id => [⟨.start id, good⟩]
  | .stop _ => [⟨.stop, true⟩]
  | .restart _ => []

/-- The handlers that a step calls. Without a provider, the completion of the settings passes its error on,
and a start block reports none. -/
def answers (moment : Moment) : List Answer :=
  match moment.label with
  | .own (.settingsDone id applied _) =>
    if moment.before.released then [⟨.start id, applied⟩] else if applied then [] else [⟨.start id, false⟩]
  | .own .sleep => [⟨.sleep, true⟩]
  | .own (.control started _) =>
    moment.before.provider.control.head?.toList.flatMap (blockAnswers (started || moment.before.released))
  | _ => []

def waiting : Block → Option Call
  | .start id => some (.start id)
  | .stop _ => some .stop
  | .restart _ => none

/-- The calls whose handlers have not been called yet. -/
def pending (p : PacketTunnelProvider) : List Call := p.settings.map Call.start ++ p.control.filterMap waiting

/-- What is true when a handler is called; the stage if it could be written. -/
def Truthful (written : Bool) (answer : Answer) (p : PacketTunnelProvider) : Prop :=
  match answer with
  | ⟨.start id, true⟩ => p.engine = some id ∧ p.coreRunning = true ∧ p.ipcListener = some id ∧
    p.pathMonitor = some id ∧ (written = true → p.state = some ⟨.connected, some id⟩)
  | ⟨.start id, false⟩ => written = true → p.state = some ⟨.error, some id⟩
  | ⟨.stop, _⟩ => p.engine = none ∧ p.coreRunning = false ∧ p.ipcListener = none ∧ p.pathMonitor = none ∧
    (written = true → p.state = some ⟨.disconnected, none⟩)
  | ⟨.sleep, _⟩ => True

/-- Whether the stage that a step writes is written. -/
def writes : Event → Bool
  | .own (.startTunnel written) => written
  | .own (.settingsDone _ _ written) => written
  | .own (.control _ written) => written
  | _ => true

/-- An answer of the provider is true; when it is gone, only starts are answered. -/
def Reported (moment : Moment) (answer : Answer) : Prop :=
  if moment.before.released then ∃ id, answer.call = .start id
  else Truthful (writes moment.label) answer moment.after.provider

/-! ### One step -/

/-- The core runs for the engine that is installed and for no other. -/
def Matched (p : PacketTunnelProvider) : Prop := p.coreRunning = true → p.engine.isSome = true

/-- A stop leaves the core at rest. -/
theorem runStop_halts {p : PacketTunnelProvider} (matched : Matched p) (before : Nat) (written : Bool) :
    (runStop p before written).coreRunning = false := by
  change (if p.engine.isSome = true then false else p.coreRunning) = false
  split
  · rfl
  · next unheld =>
    rw [← Bool.not_eq_true]
    intro running
    exact unheld (matched running)

theorem runBlock_matched {p q : PacketTunnelProvider} {block : Block} {started written : Bool}
    (matched : Matched p) (taken : runBlock p block started written = some q) : Matched q := by
  cases block with
  | start id =>
    simp only [runBlock, runStart] at taken
    split at taken
    · split at taken
      · cases taken
      · rw [← Option.some.inj taken]
        exact fun _ => rfl
    · rw [← Option.some.inj taken]
      exact matched
  | stop before =>
    rw [← Option.some.inj taken]
    intro running
    rw [runStop_halts matched] at running
    cases running
  | restart generation =>
    simp only [runBlock, Option.some.injEq] at taken
    rw [← taken, runRestart]
    split
    · exact matched
    · split
      · exact matched
      · next id held =>
        split
        · intro _
          change p.engine.isSome = true
          rw [held]
          exact rfl
        · intro running
          cases running

theorem step_matched {p q : PacketTunnelProvider} {event : Provider.Event} (matched : Matched p)
    (taken : Provider.step p event = some q) : Matched q := by
  cases event with
  | control started written =>
    cases queue : p.control with
    | nil =>
      rw [Provider.step, queue] at taken
      cases taken
    | cons block rest =>
      rw [Provider.step, queue] at taken
      exact runBlock_matched (p := { p with control := rest }) matched taken
  | settingsDone id applied written =>
    simp only [Provider.step, Option.ite_none_right_eq_some] at taken
    obtain ⟨_, taken⟩ := taken
    split at taken
    · rw [← Option.some.inj taken]
      exact matched
    · rw [← Option.some.inj taken]
      exact matched
  | pathUpdate generation path =>
    simp only [Provider.step, Option.ite_none_right_eq_some] at taken
    obtain ⟨_, taken⟩ := taken
    repeat' split at taken
    all_goals
      rw [← Option.some.inj taken]
      exact matched
  | timer generation =>
    simp only [Provider.step, Option.ite_none_right_eq_some] at taken
    obtain ⟨_, taken⟩ := taken
    split at taken
    · rw [← Option.some.inj taken]
      exact matched
    · rw [← Option.some.inj taken]
      exact matched
  | pathSchedule =>
    simp only [Provider.step, Option.ite_none_right_eq_some] at taken
    obtain ⟨_, taken⟩ := taken
    rw [← Option.some.inj taken]
    exact matched
  | startTunnel written => rw [← Option.some.inj taken]; exact matched
  | stopTunnel => rw [← Option.some.inj taken]; exact matched
  | sleep => rw [← Option.some.inj taken]; exact matched
  | wake => rw [← Option.some.inj taken]; exact matched

/-- What a block answers is true when it has run. -/
theorem blockAnswers_truthful {p q : PacketTunnelProvider} {block : Block} {started written : Bool}
    (matched : Matched p) (taken : runBlock p block started written = some q) :
    ∀ answer ∈ blockAnswers started block, Truthful written answer q := by
  intro answer member
  cases block with
  | start id =>
    obtain rfl := List.mem_singleton.mp member
    simp only [runBlock, runStart] at taken
    split at taken
    · next good =>
      subst good
      split at taken
      · cases taken
      · rw [← Option.some.inj taken]
        exact ⟨rfl, rfl, rfl, rfl, fun good => if_pos good⟩
    · next bad =>
      rw [Bool.not_eq_true] at bad
      subst bad
      rw [← Option.some.inj taken]
      exact fun good => if_pos good
  | stop before =>
    obtain rfl := List.mem_singleton.mp member
    rw [← Option.some.inj taken]
    exact ⟨rfl, runStop_halts matched before written, rfl, rfl, fun good => if_pos good⟩
  | restart generation => cases member

/-- A start block is all that is left without a provider, and the settings of starts. -/
theorem late_reported {s t : Process} {event : Provider.Event} (gone : s.released = true)
    (taken : late s.provider event = some t.provider) :
    ∀ answer ∈ answers ⟨s, .own event, t⟩, Reported ⟨s, .own event, t⟩ answer := by
  intro answer member
  rw [Reported, if_pos gone]
  cases event with
  | settingsDone id applied written =>
    simp only [answers, gone, if_true] at member
    rw [List.mem_singleton.mp member]
    exact ⟨id, rfl⟩
  | control started written =>
    simp only [late] at taken
    split at taken
    · next id rest queue =>
      simp only [answers, queue, List.head?_cons, Option.toList_some, List.flatMap_singleton] at member
      rw [List.mem_singleton.mp member]
      exact ⟨id, rfl⟩
    · cases taken
  | sleep => cases taken
  | startTunnel written => cases taken
  | stopTunnel => cases taken
  | wake => cases taken
  | pathUpdate generation path => cases member
  | pathSchedule => cases taken
  | timer generation => cases member

theorem own_reported {s t : Process} {event : Provider.Event} (here : s.released = false)
    (matched : Matched s.provider) (taken : Provider.step s.provider event = some t.provider) :
    ∀ answer ∈ answers ⟨s, .own event, t⟩, Reported ⟨s, .own event, t⟩ answer := by
  intro answer member
  rw [Reported, here, if_neg (by decide)]
  cases event with
  | control started written =>
    cases queue : s.provider.control with
    | nil =>
      rw [Provider.step, queue] at taken
      cases taken
    | cons block rest =>
      rw [Provider.step, queue] at taken
      have given : answer ∈ blockAnswers started block := by
        simpa [answers, queue, here] using member
      exact blockAnswers_truthful (p := { s.provider with control := rest }) matched taken answer given
  | settingsDone id applied written =>
    simp only [answers, here, Bool.false_eq_true, if_false] at member
    cases applied with
    | true => cases member
    | false =>
      obtain rfl := List.mem_singleton.mp member
      simp only [Provider.step, Option.ite_none_right_eq_some] at taken
      change _ = true → t.provider.state = _
      rw [← Option.some.inj taken.2]
      exact fun good => if_pos good
  | sleep =>
    obtain rfl := List.mem_singleton.mp member
    trivial
  | startTunnel written => cases member
  | stopTunnel => cases member
  | wake => cases member
  | pathUpdate generation path => cases member
  | pathSchedule => cases member
  | timer generation => cases member

/-! ### The books -/

/-- A block leaves what waits behind it. -/
theorem runBlock_queues {p q : PacketTunnelProvider} {block : Block} {started written : Bool}
    (taken : runBlock p block started written = some q) :
    q.control = p.control ∧ q.settings = p.settings ∧ q.starts = p.starts := by
  cases block with
  | start id =>
    simp only [runBlock, runStart] at taken
    split at taken
    · split at taken
      · cases taken
      · rw [← Option.some.inj taken]
        exact ⟨rfl, rfl, rfl⟩
    · rw [← Option.some.inj taken]
      exact ⟨rfl, rfl, rfl⟩
  | stop before =>
    rw [← Option.some.inj taken]
    exact ⟨rfl, rfl, rfl⟩
  | restart generation =>
    simp only [runBlock, Option.some.injEq] at taken
    rw [← taken, runRestart]
    split
    · exact ⟨rfl, rfl, rfl⟩
    · split
      · exact ⟨rfl, rfl, rfl⟩
      · split
        · exact ⟨rfl, rfl, rfl⟩
        · exact ⟨rfl, rfl, rfl⟩

/-- What a step does to the calls that wait: those whose settings are applied, and the control queue. -/
def Queues (released : Bool) (p : PacketTunnelProvider) (event : Provider.Event) (q : PacketTunnelProvider) :
    Prop :=
  match event with
  | .startTunnel _ => q.settings = p.settings ++ [p.starts] ∧ q.control = p.control ∧ q.starts = p.starts + 1
  | .settingsDone id applied _ => id ∈ p.settings ∧ q.settings = p.settings.erase id ∧
    q.control = p.control ++ (if applied && !released then [.start id] else []) ∧ q.starts = p.starts
  | .stopTunnel => q.settings = p.settings ∧ q.control = p.control ++ [.stop p.starts] ∧ q.starts = p.starts
  | .control _ _ => ∃ block, p.control = block :: q.control ∧ q.settings = p.settings ∧ q.starts = p.starts
  | .timer generation => q.settings = p.settings ∧
    (q.control = p.control ∨ q.control = p.control ++ [.restart generation]) ∧ q.starts = p.starts
  | _ => q.settings = p.settings ∧ q.control = p.control ∧ q.starts = p.starts

theorem step_queues {p q : PacketTunnelProvider} {event : Provider.Event}
    (taken : Provider.step p event = some q) : Queues false p event q := by
  cases event with
  | startTunnel written =>
    rw [← Option.some.inj taken]
    exact ⟨rfl, rfl, rfl⟩
  | stopTunnel =>
    rw [← Option.some.inj taken]
    exact ⟨rfl, rfl, rfl⟩
  | sleep =>
    rw [← Option.some.inj taken]
    exact ⟨rfl, rfl, rfl⟩
  | wake =>
    rw [← Option.some.inj taken]
    exact ⟨rfl, rfl, rfl⟩
  | settingsDone id applied written =>
    simp only [Provider.step, Option.ite_none_right_eq_some] at taken
    obtain ⟨member, taken⟩ := taken
    cases applied with
    | true =>
      rw [if_pos rfl, Option.some.injEq] at taken
      rw [← taken]
      exact ⟨member, rfl, rfl, rfl⟩
    | false =>
      rw [if_neg (by decide), Option.some.injEq] at taken
      rw [← taken]
      exact ⟨member, rfl, (List.append_nil _).symm, rfl⟩
  | control started written =>
    cases queue : p.control with
    | nil =>
      rw [Provider.step, queue] at taken
      cases taken
    | cons block rest =>
      rw [Provider.step, queue] at taken
      obtain ⟨left, settings, starts⟩ := runBlock_queues taken
      refine ⟨block, ?_, settings, starts⟩
      rw [queue, left]
  | pathSchedule =>
    simp only [Provider.step, Option.ite_none_right_eq_some] at taken
    rw [← Option.some.inj taken.2]
    exact ⟨rfl, rfl, rfl⟩
  | pathUpdate generation path =>
    simp only [Provider.step, Option.ite_none_right_eq_some] at taken
    obtain ⟨_, taken⟩ := taken
    repeat' split at taken
    all_goals
      rw [← Option.some.inj taken]
      exact ⟨rfl, rfl, rfl⟩
  | timer generation =>
    simp only [Provider.step, Option.ite_none_right_eq_some] at taken
    obtain ⟨_, taken⟩ := taken
    split at taken
    · rw [← Option.some.inj taken]
      exact ⟨rfl, .inr rfl, rfl⟩
    · rw [← Option.some.inj taken]
      exact ⟨rfl, .inl rfl, rfl⟩

theorem late_queues {p q : PacketTunnelProvider} {event : Provider.Event} (taken : late p event = some q) :
    Queues true p event q := by
  cases event with
  | settingsDone id applied written =>
    simp only [late, Option.ite_none_right_eq_some] at taken
    obtain ⟨member, taken⟩ := taken
    rw [← Option.some.inj taken]
    refine ⟨member, rfl, ?_, rfl⟩
    rw [Bool.not_true, Bool.and_false, if_neg (by decide), List.append_nil]
  | control started written =>
    simp only [late] at taken
    split at taken
    · next id rest queue =>
      rw [← Option.some.inj taken]
      exact ⟨.start id, queue, rfl, rfl⟩
    · cases taken
  | timer generation =>
    simp only [late, Option.ite_none_right_eq_some] at taken
    rw [← Option.some.inj taken.2]
    exact ⟨rfl, .inl rfl, rfl⟩
  | pathUpdate generation path =>
    simp only [late, Option.ite_none_right_eq_some] at taken
    rw [← Option.some.inj taken.2]
    exact ⟨rfl, rfl, rfl⟩
  | startTunnel written => cases taken
  | stopTunnel => cases taken
  | sleep => cases taken
  | wake => cases taken
  | pathSchedule => cases taken

theorem move_queues {released : Bool} {p q : PacketTunnelProvider} {event : Provider.Event}
    (taken : move released p event = some q) : Queues released p event q := by
  cases released with
  | false => exact step_queues taken
  | true => exact late_queues taken

/-- A block that waits for its turn is answered in it. -/
theorem waiting_eq (good : Bool) (block : Block) :
    (waiting block).toList = (blockAnswers good block).map Answer.call := by
  cases block with
  | start id => rfl
  | stop before => rfl
  | restart generation => rfl

/-- What a step puts at the end of the control queue to be answered there. -/
def queued (moment : Moment) : List Call :=
  match moment.label with
  | .own (.settingsDone id applied _) => if applied && !moment.before.released then [.start id] else []
  | .own .stopTunnel => [.stop]
  | _ => []

/-- The handlers that a step of the control queue calls. -/
def served (moment : Moment) : List Answer :=
  match moment.label with
  | .own (.control _ _) => answers moment
  | _ => []

theorem served_eq {s t : Process} {started written : Bool} {block : Block} {rest : List Block}
    (queue : s.provider.control = block :: rest) :
    (served ⟨s, .own (.control started written), t⟩).map Answer.call = (waiting block).toList := by
  rw [waiting_eq (started || s.released)]
  simp [served, answers, queue]

/-- The control queue is served in its order. -/
theorem move_ordered {s t : Process} {event : Provider.Event}
    (taken : move s.released s.provider event = some t.provider) :
    s.provider.control.filterMap waiting ++ queued ⟨s, .own event, t⟩ =
      (served ⟨s, .own event, t⟩).map Answer.call ++ t.provider.control.filterMap waiting := by
  have queues := move_queues taken
  cases event with
  | control started written =>
    obtain ⟨block, queue, _⟩ := queues
    rw [served_eq queue, queue]
    cases block with
    | start id => exact List.append_nil _
    | stop before => exact List.append_nil _
    | restart generation => exact List.append_nil _
  | settingsDone id applied written =>
    rw [queues.2.2.1, List.filterMap_append]
    change _ ++ (if applied && !s.released then [Call.start id] else []) = _
    split
    · rfl
    · rfl
  | stopTunnel =>
    rw [queues.2.1, List.filterMap_append]
    exact rfl
  | timer generation =>
    rcases queues.2.1 with same | more
    · rw [same]
      exact List.append_nil _
    · rw [more, List.filterMap_append]
      exact rfl
  | startTunnel written => rw [queues.2.1]; exact List.append_nil _
  | sleep => rw [queues.2.1]; exact List.append_nil _
  | wake => rw [queues.2.1]; exact List.append_nil _
  | pathUpdate generation path => rw [queues.2.1]; exact List.append_nil _
  | pathSchedule => rw [queues.2.1]; exact List.append_nil _

/-- The settings of a start are done: its call goes over to the control queue or is answered. -/
theorem settings_balanced {s t : Process} {id : Nat} {applied written : Bool}
    (queues : Queues s.released s.provider (.settingsDone id applied written) t.provider) :
    (pending s.provider).Perm
      ((answers ⟨s, .own (.settingsDone id applied written), t⟩).map Answer.call ++ pending t.provider) := by
  obtain ⟨member, settings, control, _⟩ := queues
  have out := (List.perm_cons_erase member).map Call.start
  rw [List.map_cons] at out
  rw [pending, pending, settings, control, List.filterMap_append]
  have answered : ∀ good, (s.provider.settings.map Call.start ++ s.provider.control.filterMap waiting).Perm
      ([Answer.mk (.start id) good].map Answer.call ++ ((s.provider.settings.erase id).map Call.start ++
        (s.provider.control.filterMap waiting ++ []))) := by
    intro good
    rw [List.append_nil]
    exact out.append_right _
  cases released : s.released with
  | true =>
    rw [Bool.not_true, Bool.and_false, if_neg (by decide)]
    simp only [answers, released, if_true]
    exact answered applied
  | false =>
    simp only [answers, released, Bool.false_eq_true, if_false, Bool.not_false, Bool.and_true]
    cases applied with
    | true =>
      change (s.provider.settings.map Call.start ++ s.provider.control.filterMap waiting).Perm
        ((s.provider.settings.erase id).map Call.start ++
          (s.provider.control.filterMap waiting ++ [Call.start id]))
      rw [← List.append_assoc]
      apply (out.append_right _).trans
      exact @List.perm_append_comm _ [Call.start id] _
    | false => exact answered false

/-- A call comes to wait when it is made and waits no longer when it is answered. -/
theorem move_balanced {s t : Process} {event : Provider.Event}
    (taken : move s.released s.provider event = some t.provider) :
    (pending s.provider ++ calls ⟨s, .own event, t⟩).Perm
      ((answers ⟨s, .own event, t⟩).map Answer.call ++ pending t.provider) := by
  have queues := move_queues taken
  have order := move_ordered taken
  have still : t.provider.settings = s.provider.settings →
      queued ⟨s, .own event, t⟩ = calls ⟨s, .own event, t⟩ →
      served ⟨s, .own event, t⟩ = answers ⟨s, .own event, t⟩ →
      (pending s.provider ++ calls ⟨s, .own event, t⟩).Perm
        ((answers ⟨s, .own event, t⟩).map Answer.call ++ pending t.provider) := by
    intro settings made given
    rw [pending, List.append_assoc, ← made, order, given, pending, settings, ← List.append_assoc,
      ← List.append_assoc]
    exact List.perm_append_comm.append_right _
  cases event with
  | control started written =>
    obtain ⟨_, _, settings, _⟩ := queues
    exact still settings rfl rfl
  | stopTunnel => exact still queues.1 rfl rfl
  | wake => exact still queues.1 rfl rfl
  | pathUpdate generation path => exact still queues.1 rfl rfl
  | pathSchedule => exact still queues.1 rfl rfl
  | timer generation => exact still queues.1 rfl rfl
  | sleep =>
    rw [pending, pending, queues.1, queues.2.1]
    exact List.perm_append_comm
  | startTunnel written =>
    rw [pending, pending, queues.1, queues.2.1, List.map_append, List.append_assoc]
    change (s.provider.settings.map Call.start ++
        (s.provider.control.filterMap waiting ++ [Call.start s.provider.starts])).Perm
      (s.provider.settings.map Call.start ++ [Call.start s.provider.starts] ++
        s.provider.control.filterMap waiting)
    rw [List.append_assoc]
    exact List.perm_append_comm.append_left _
  | settingsDone id applied written =>
    change (pending s.provider ++ []).Perm _
    rw [List.append_nil]
    exact settings_balanced queues

/-! ### Whole runs -/

def startId : Call → Option Nat
  | .start id => some id
  | .stop => none
  | .sleep => none

theorem move_starts {s t : Process} {event : Provider.Event}
    (taken : move s.released s.provider event = some t.provider) :
    List.range t.provider.starts =
      List.range s.provider.starts ++ (calls ⟨s, .own event, t⟩).filterMap startId := by
  have queues := move_queues taken
  cases event with
  | startTunnel written =>
    rw [queues.2.2]
    exact List.range_succ
  | control started written =>
    obtain ⟨_, _, _, same⟩ := queues
    rw [same]
    exact (List.append_nil _).symm
  | settingsDone id applied written => rw [queues.2.2.2]; exact (List.append_nil _).symm
  | stopTunnel => rw [queues.2.2]; exact (List.append_nil _).symm
  | sleep => rw [queues.2.2]; exact (List.append_nil _).symm
  | wake => rw [queues.2.2]; exact (List.append_nil _).symm
  | pathUpdate generation path => rw [queues.2.2]; exact (List.append_nil _).symm
  | pathSchedule => rw [queues.2.2]; exact (List.append_nil _).symm
  | timer generation => rw [queues.2.2]; exact (List.append_nil _).symm

/-- A step is one of the provider's or late, or the provider goes with nothing left that holds it. -/
theorem step_cases {s t : Process} {event : Event} (taken : step s event = some t) :
    (∃ own, event = .own own ∧ t.released = s.released ∧
      move s.released s.provider own = some t.provider) ∨
    (event = .release ∧ s.released = false ∧ (∀ block ∈ s.provider.control, holds block = false) ∧
      t = { s with released := true }) := by
  cases event with
  | own event =>
    simp only [step, Option.map_eq_some_iff] at taken
    obtain ⟨p, moved, rfl⟩ := taken
    exact .inl ⟨event, rfl, rfl, moved⟩
  | release =>
    simp only [step, Option.ite_none_left_eq_some, Bool.or_eq_true, not_or, Bool.not_eq_true,
      List.any_eq_false] at taken
    obtain ⟨⟨⟨here, _⟩, free⟩, same⟩ := taken
    exact .inr ⟨rfl, here, free, (Option.some.inj same).symm⟩

/-- The start calls are numbered as they come. -/
theorem starts_counted {events : List Moment} {s : Process}
    (trace : Trace step (fun _ _ => True) initial events s) :
    (events.flatMap calls).filterMap startId = List.range s.provider.starts := by
  have counted := trace.gathered (fun s => List.range s.provider.starts)
    (fun moment => (calls moment).filterMap startId) (fun before label after _ taken => by
      rcases step_cases taken with ⟨own, rfl, _, moved⟩ | ⟨rfl, _, _, rfl⟩
      · exact move_starts moved
      · exact (List.append_nil _).symm)
  rw [List.filterMap_flatMap, counted]
  exact (List.nil_append _).symm

/-- The core is matched with an engine as long as the provider is there; afterwards only start blocks are
left. -/
structure Consistent (s : Process) : Prop where
  matched : s.released = false → Matched s.provider
  free : s.released = true → ∀ block ∈ s.provider.control, holds block = false

theorem step_consistent {s t : Process} {event : Event} (inv : Consistent s) (taken : step s event = some t) :
    Consistent t := by
  rcases step_cases taken with ⟨own, rfl, same, moved⟩ | ⟨rfl, here, free, rfl⟩
  · refine ⟨?_, ?_⟩
    · intro here
      rw [same] at here
      rw [here] at moved
      exact step_matched (inv.matched here) moved
    · intro gone block member
      rw [same] at gone
      rw [gone] at moved
      have free := inv.free gone
      have queues := late_queues moved
      cases own with
      | settingsDone id applied written =>
        rw [queues.2.2.1, Bool.not_true, Bool.and_false, if_neg (by decide), List.append_nil] at member
        exact free block member
      | control started written =>
        obtain ⟨head, queue, _⟩ := queues
        exact free block (by rw [queue]; exact List.mem_cons_of_mem _ member)
      | timer generation =>
        simp only [move, late, if_true, Option.ite_none_right_eq_some] at moved
        rw [← Option.some.inj moved.2] at member
        exact free block member
      | pathUpdate generation path => exact free block (queues.2.1 ▸ member)
      | startTunnel written => cases moved
      | stopTunnel => cases moved
      | sleep => cases moved
      | wake => cases moved
      | pathSchedule => cases moved
  · refine ⟨?_, fun _ => free⟩
    intro here
    cases here

theorem step_reported {s t : Process} {event : Event} (inv : Consistent s) (taken : step s event = some t) :
    ∀ answer ∈ answers ⟨s, event, t⟩, Reported ⟨s, event, t⟩ answer := by
  rcases step_cases taken with ⟨own, rfl, _, moved⟩ | ⟨rfl, _⟩
  · cases released : s.released with
    | false =>
      rw [released] at moved
      exact own_reported released (inv.matched released) moved
    | true =>
      rw [released] at moved
      exact late_reported released moved
  · intro answer member
    cases member

/-- Every answer of a run is as it should be. -/
theorem answers_hold {events : List Moment} {s : Process}
    (trace : Trace step (fun _ _ => True) initial events s) :
    Consistent s ∧ ∀ moment ∈ events, ∀ answer ∈ answers moment, Reported moment answer := by
  induction trace with
  | start =>
    refine ⟨⟨?_, ?_⟩, ?_⟩
    · intro _ running
      cases running
    · intro gone
      cases gone
    · intro moment member
      cases member
  | next label _ _ taken ih =>
    refine ⟨step_consistent ih.1 taken, ?_⟩
    intro moment member
    rcases List.mem_append.mp member with old | new
    · exact ih.2 moment old
    · rw [List.mem_singleton.mp new]
      exact step_reported ih.1 taken

theorem runBlock_fails (p : PacketTunnelProvider) (block : Block) :
    ∃ q, runBlock p block false false = some q ∧ q.control = p.control ∧ q.settings = p.settings := by
  have some : ∃ q, runBlock p block false false = some q := by
    cases block with
    | start id => exact ⟨_, rfl⟩
    | stop before => exact ⟨_, rfl⟩
    | restart generation => exact ⟨_, rfl⟩
  obtain ⟨q, taken⟩ := some
  exact ⟨q, taken, (runBlock_queues taken).1, (runBlock_queues taken).2.1⟩

/-- The next block of the control queue can always be taken. -/
theorem serves {s : Process} (inv : Consistent s) {block : Block} {rest : List Block}
    (queue : s.provider.control = block :: rest) : ∃ p, p.control = rest ∧ p.settings = s.provider.settings ∧
      step s (.own (.control false false)) = some { s with provider := p } := by
  cases released : s.released with
  | false =>
    obtain ⟨next, taken, left, same⟩ := runBlock_fails { s.provider with control := rest } block
    refine ⟨next, left, same, ?_⟩
    simp only [step, move, released, Provider.step, queue, taken, Bool.false_eq_true, if_false, Option.map_some]
  | true =>
    have free := inv.free released block (by rw [queue]; exact List.mem_cons_self)
    cases block with
    | start id =>
      refine ⟨{ s.provider with control := rest }, rfl, rfl, ?_⟩
      simp only [step, move, released, late, queue, if_true, Option.map_some]
    | stop before => cases free
    | restart generation => cases free

theorem drains_control {s : Process} (inv : Consistent s) (settled : s.provider.settings = []) :
    ∃ labels t, run step s labels = some t ∧ pending t.provider = [] := by
  induction queue : s.provider.control generalizing s with
  | nil => exact ⟨[], s, rfl, by rw [pending, settled, queue]; rfl⟩
  | cons block rest ih =>
    obtain ⟨p, left, same, first⟩ := serves inv queue
    obtain ⟨labels, t, ran, done⟩ := ih (step_consistent inv first) (same.trans settled) left
    refine ⟨.own (.control false false) :: labels, t, ?_, done⟩
    rw [run, first]
    exact ran

/-- The settings that are awaited can always fail. -/
theorem settles {s : Process} {id : Nat} {rest : List Nat} (waits : s.provider.settings = id :: rest) :
    ∃ p, p.settings = rest ∧
      step s (.own (.settingsDone id false false)) = some { s with provider := p } := by
  cases released : s.released with
  | false =>
    refine ⟨writeState { s.provider with settings := rest } .error (some id) false, rfl, ?_⟩
    simp [step, move, released, Provider.step, waits]
  | true =>
    refine ⟨{ s.provider with settings := rest }, rfl, ?_⟩
    simp [step, move, released, late, waits]

/-- No call is stuck: steps of the provider, or late ones, answer all that wait. -/
theorem drains {s : Process} (inv : Consistent s) :
    ∃ labels t, run step s labels = some t ∧ pending t.provider = [] := by
  induction waits : s.provider.settings generalizing s with
  | nil => exact drains_control inv waits
  | cons id rest ih =>
    obtain ⟨p, left, first⟩ := settles waits
    obtain ⟨labels, t, ran, done⟩ := ih (step_consistent inv first) left
    refine ⟨.own (.settingsDone id false false) :: labels, t, ?_, done⟩
    rw [run, first]
    exact ran

/-- Over any run, each call's handler is called once or is still pending, none is called for a start
call twice, starts whose settings were applied and stops are answered in the order they were queued,
what an answer of the provider reports holds when it is given, only starts are answered when it is gone, and
what is pending can still be answered. -/
theorem every_call_answered_once {events : List Moment} {s : Process}
    (trace : Trace step (fun _ _ => True) initial events s) :
    (events.flatMap calls).Perm ((events.flatMap answers).map Answer.call ++ pending s.provider) ∧
    (((events.flatMap answers).map Answer.call).filterMap startId).Nodup ∧
    events.flatMap queued =
      (events.flatMap served).map Answer.call ++ s.provider.control.filterMap waiting ∧
    (∀ moment ∈ events, ∀ answer ∈ answers moment, Reported moment answer) ∧
    ∃ labels t, run step s labels = some t ∧ pending t.provider = [] := by
  have balanced := trace.balanced (fun s => pending s.provider) calls
    (fun moment => (answers moment).map Answer.call) (fun before label after _ taken => by
      rcases step_cases taken with ⟨own, rfl, _, moved⟩ | ⟨rfl, _, _, rfl⟩
      · exact move_balanced moved
      · exact List.perm_append_comm)
  rw [← List.map_flatMap] at balanced
  have ordered := trace.conserved (fun s => s.provider.control.filterMap waiting) queued
    (fun moment => (served moment).map Answer.call) (fun _ => True) (fun _ _ _ _ _ _ => trivial)
    (fun before label after _ _ taken => by
      rcases step_cases taken with ⟨own, rfl, _, moved⟩ | ⟨rfl, _, _, rfl⟩
      · exact move_ordered moved
      · exact List.append_nil _) trivial
  rw [← List.map_flatMap] at ordered
  have starts : ((events.flatMap calls).filterMap startId).Nodup := by
    rw [starts_counted trace]
    exact List.nodup_range
  have perm : (events.flatMap calls).Perm ((events.flatMap answers).map Answer.call ++ pending s.provider) :=
    balanced
  obtain ⟨consistent, reported⟩ := answers_hold trace
  refine ⟨perm, ?_, ordered, reported, drains consistent⟩
  have split := (perm.filterMap startId).nodup_iff.mp starts
  rw [List.filterMap_append] at split
  exact (List.nodup_append.mp split).1

/-- A start whose settings fail, a sleep, a start that comes up although its stage cannot be written, and a
stop; then three starts, of which two are answered after the provider has gone and one waits. -/
def sampleEvents : List Event :=
  [.own (.startTunnel true), .own (.settingsDone 0 false true), .own .sleep, .own (.startTunnel true),
    .own (.settingsDone 1 true true), .own (.control true false), .own .stopTunnel, .own (.control true true),
    .own (.startTunnel true), .own (.settingsDone 2 true true), .own (.startTunnel true),
    .own (.startTunnel false), .release, .own (.control true true), .own (.settingsDone 3 false true)]

theorem sample_calls_answered : ∃ events s, Trace step (fun _ _ => True) initial events s ∧
    s.released = true ∧
    (events.flatMap calls).Perm ((events.flatMap answers).map Answer.call ++ [.start 4]) ∧
    ∀ moment ∈ events, ∀ answer ∈ answers moment, Reported moment answer := by
  have ran : (run step initial sampleEvents).map (fun s => (s.released, pending s.provider)) =
      some (true, [.start 4]) := by decide
  obtain ⟨s, ran, both⟩ := Option.map_eq_some_iff.mp ran
  obtain ⟨gone, waits⟩ := Prod.mk.inj both
  have trace := trace_of_run ran
  have answered := every_call_answered_once trace
  rw [waits] at answered
  exact ⟨_, s, trace, gone, answered.1, answered.2.2.2.1⟩

end ShadowVpn.Tunnel.Completions
