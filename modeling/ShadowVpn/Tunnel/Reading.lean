import ShadowVpn.Lib.Keyed
import ShadowVpn.Lib.Octets
import ShadowVpn.Lib.Transition

/-! The ingress loop of `SVTunnelEngine.m`: engines that are started, restarted and stopped on the
control queue while the completion handlers of `readPackets` run beside it. One step is one atomic
load or store, one call of the core or one callback. -/

namespace ShadowVpn.Tunnel.Reading
open ShadowVpn.Lib ShadowVpn.Lib.Octets ShadowVpn.Lib.Transition

/-- The fields of an `SVTunnelEngine` that its ingress loop depends on. `delivered` and `ingested`
only record what happened: the batches its reads were completed with, and the packets it passed to
`svpn_tun_ingest`. -/
structure Engine where
  started : Bool
  tunStarted : Bool
  ingressRunning : Bool
  ingressEpoch : Nat
  delivered : List (List Bytes)
  ingested : List Bytes

def newEngine : Engine := ⟨true, false, false, 0, [], []⟩

/-- Where a read stands: waiting for packets, or in its completion handler before one of the tests,
in the loop over the packets, or in the `readNextPackets` at the end. -/
inductive Stage where
  | armed
  | wakes
  | testsRunning
  | testsEpoch
  | ingests
  | retests
  | loadsEpoch
  | arms
  deriving DecidableEq

/-- A read of the packet flow with its completion handler; `epoch` is the captured one. -/
structure Link where
  engine : Nat
  epoch : Nat
  stage : Stage
  packets : List Bytes

/-- The block on the engine-control queue. -/
inductive Control where
  | idle
  | starting (k : Nat)
  | opening (k : Nat)
  | restarting (k : Nat)
  | failing (k : Nat) (cleared : Bool)
  | stopping (k : Nat) (bumped : Bool)
  deriving DecidableEq

/-- The engine a block works on. -/
def Control.on : Control → Option Nat
  | .idle => none
  | .starting k | .opening k | .restarting k | .failing k _ | .stopping k _ => some k

/-- The extension process; the provider's `_engine` is a number among the engines that were made. -/
structure Host where
  coreRunning : Bool
  engines : List Engine
  engine : Option Nat
  control : Control
  links : List Link

def initial : Host where
  coreRunning := false
  engines := []
  engine := none
  control := .idle
  links := []

/-- What can happen next. `ok` is what `svpn_tun_start` returns, `freed` whether the engine of a
handler is gone, which takes that nothing holds it any more. -/
inductive Event where
  | startTunnel
  | stopTunnel
  | restart
  | tunStart (ok : Bool)
  | proceed
  | deliver (index : Nat) (packets : List Bytes)
  | handle (index : Nat) (freed : Bool)

/-- A new engine, and `startWithError:` up to the call of the core. -/
def startTunnel (h : Host) : Option Host :=
  if h.control = .idle then
    some { h with engines := h.engines ++ [newEngine], control := .starting h.engines.length }
  else none

/-- `stop` of the engine the provider lets go of, up to the first store. -/
def stopTunnel (h : Host) : Option Host :=
  if h.control = .idle then
    match h.engine with
    | none => some h
    | some k => (h.engines[k]?).bind fun e =>
      if e.started then
        some { h with engines := h.engines.set k { e with started := false, ingressRunning := false }
                      engine := none
                      control := .stopping k false }
      else some { h with engine := none }
  else none

/-- `restartWithError:` of the engine the provider holds, up to `svpn_tun_start`. -/
def restart (h : Host) : Option Host :=
  if h.control = .idle then
    match h.engine with
    | none => some h
    | some k => (h.engines[k]?).bind fun e =>
      if e.started then
        some { h with coreRunning := if e.tunStarted then false else h.coreRunning
                      engines := h.engines.set k { e with tunStarted := false }
                      control := .restarting k }
      else some { h with engine := none }
  else none

/-- `svpn_tun_start` returns. It cannot succeed while the core is running. -/
def tunStart (h : Host) (ok : Bool) : Option Host :=
  if ok && h.coreRunning then none
  else
    match h.control with
    | .starting k => (h.engines[k]?).bind fun e =>
      if ok then
        some { h with coreRunning := true
                      engines := h.engines.set k { e with tunStarted := true }
                      control := .opening k }
      else some { h with engines := h.engines.set k { e with started := false }, control := .idle }
    | .restarting k => (h.engines[k]?).bind fun e =>
      if ok then
        some { h with coreRunning := true
                      engines := h.engines.set k { e with tunStarted := true }
                      control := .idle }
      else some { h with control := .failing k false }
    | _ => none

/-- The rest of a block: `startIngressLoop` for a new engine, which nothing else knows yet; the two
stores of a failed restart; the second store of a stop and the call of the core. -/
def proceed (h : Host) : Option Host :=
  match h.control with
  | .opening k => (h.engines[k]?).bind fun e =>
    some { h with engines := h.engines.set k { e with ingressRunning := true }
                  engine := some k
                  control := .idle
                  links := h.links ++ [⟨k, e.ingressEpoch, .armed, []⟩] }
  | .failing k false => (h.engines[k]?).bind fun e =>
    some { h with engines := h.engines.set k { e with ingressRunning := false }, control := .failing k true }
  | .failing k true => (h.engines[k]?).bind fun e =>
    some { h with engines := h.engines.set k { e with ingressEpoch := e.ingressEpoch + 1, started := false }
                  engine := none
                  control := .idle }
  | .stopping k false => (h.engines[k]?).bind fun e =>
    some { h with engines := h.engines.set k { e with ingressEpoch := e.ingressEpoch + 1 }
                  control := .stopping k true }
  | .stopping k true => (h.engines[k]?).bind fun e =>
    some { h with coreRunning := if e.tunStarted then false else h.coreRunning
                  engines := h.engines.set k { e with tunStarted := false }
                  control := .idle }
  | _ => none

/-- The flow completes a read. -/
def deliver (h : Host) (index : Nat) (packets : List Bytes) : Option Host := do
  let l ← h.links[index]?
  let e ← h.engines[l.engine]?
  if l.stage = .armed then
    some { h with engines := h.engines.set l.engine { e with delivered := e.delivered ++ [packets] }
                  links := h.links.set index { l with stage := .wakes, packets := packets } }
  else none

/-- The handler or its read goes on in another stage. -/
def goTo (h : Host) (index : Nat) (l : Link) : Option Host := some { h with links := h.links.set index l }

/-- The handler returns without another read. -/
def drop (h : Host) (index : Nat) : Option Host := some { h with links := h.links.eraseIdx index }

/-- The completion handler goes on. -/
def handle (h : Host) (index : Nat) (freed : Bool) : Option Host := do
  let l ← h.links[index]?
  let e ← h.engines[l.engine]?
  match l.stage with
  | .armed => none
  | .wakes =>
    if freed then
      if h.engine = some l.engine ∨ h.control.on = some l.engine then none else drop h index
    else goTo h index { l with stage := .testsRunning }
  | .testsRunning => if e.ingressRunning then goTo h index { l with stage := .testsEpoch } else drop h index
  | .testsEpoch => if e.ingressEpoch = l.epoch then goTo h index { l with stage := .ingests } else drop h index
  | .ingests =>
    match l.packets with
    | [] => goTo h index { l with stage := .retests }
    | pkt :: rest =>
      some { h with engines := h.engines.set l.engine { e with ingested := e.ingested ++ [pkt] }
                    links := h.links.set index { l with packets := rest } }
  | .retests => if e.ingressRunning then goTo h index { l with stage := .loadsEpoch } else drop h index
  | .loadsEpoch => goTo h index { l with epoch := e.ingressEpoch, stage := .arms }
  | .arms => goTo h index { l with stage := .armed }

def step (h : Host) (event : Event) : Option Host :=
  match event with
  | .startTunnel => startTunnel h
  | .stopTunnel => stopTunnel h
  | .restart => restart h
  | .tunStart ok => tunStart h ok
  | .proceed => proceed h
  | .deliver index packets => deliver h index packets
  | .handle index freed => handle h index freed

/-! ### The property -/

/-- The packets that a handler of the engine still holds. -/
def inHand (h : Host) (k : Nat) : List Bytes :=
  (h.links.filter fun l => l.engine == k).flatMap Link.packets

/-- The batches of an engine are passed on whole and in order, up to the one in hand; a batch is
dropped only at the very end, when the engine has no read any more. -/
def Fed (h : Host) (k : Nat) (e : Engine) : Prop :=
  ∃ taken lost, e.delivered = taken ++ lost ∧ e.ingested ++ inHand h k = taken.flatten ∧ lost.length ≤ 1 ∧
    (lost ≠ [] → e.ingressRunning = false ∧ ∀ l ∈ h.links, l.engine ≠ k)

/-- The engine whose core is just being brought up again. -/
def Control.reviving : Control → Option Nat
  | .restarting k | .failing k _ => some k
  | _ => none

structure Chained (h : Host) : Prop where
  single : (h.links.map Link.engine).Nodup
  alone : ∀ (j k : Nat) (one two : Engine), h.engines[j]? = some one → h.engines[k]? = some two →
    one.ingressRunning = true → two.ingressRunning = true → j = k
  alive : ∀ (k : Nat) (e : Engine), h.engines[k]? = some e → e.ingressRunning = true →
    ∃ l ∈ h.links, l.engine = k ∧ l.epoch = e.ingressEpoch
  served : ∀ (k : Nat) (e : Engine), h.engines[k]? = some e → e.ingressRunning = true →
    h.control.reviving ≠ some k → h.coreRunning = true
  fed : ∀ (k : Nat) (e : Engine), h.engines[k]? = some e → Fed h k e

/-! ### The invariant -/

/-- What the books of an engine say while its read is at the given stage. -/
def Holds (e : Engine) (l : Link) : Prop :=
  match l.stage with
  | .armed => l.packets = [] ∧ e.ingested = e.delivered.flatten
  | .wakes | .testsRunning | .testsEpoch =>
    ∃ before, e.delivered = before ++ [l.packets] ∧ e.ingested = before.flatten
  | .ingests => e.ingested ++ l.packets = e.delivered.flatten
  | .retests | .loadsEpoch | .arms => l.packets = [] ∧ e.ingested = e.delivered.flatten

/-- A read of a running engine has its current epoch, so that the test of the epoch passes. -/
structure Fits (e : Engine) (l : Link) : Prop where
  holds : Holds e l
  tuned : e.ingressRunning = true → l.epoch = e.ingressEpoch

/-- An engine without a read: not begun, or stopped with at most one batch dropped. -/
structure Ended (e : Engine) : Prop where
  stopped : e.ingressRunning = false
  books : ∃ taken lost, e.delivered = taken ++ lost ∧ e.ingested = taken.flatten ∧ lost.length ≤ 1

/-- The engine is being started and new to the packet flow. -/
def Unused (h : Host) (k : Nat) : Prop :=
  (∀ l ∈ h.links, l.engine ≠ k) ∧
    ∀ e, h.engines[k]? = some e → e.started = true ∧ e.ingested = [] ∧ e.delivered = []

/-- What the block on the control queue is in the middle of. -/
def Busy (h : Host) : Prop :=
  match h.control with
  | .idle => True
  | .starting k => Unused h k
  | .opening k => Unused h k ∧ h.engine = none ∧ h.coreRunning = true
  | .restarting k | .failing k false => h.engine = some k
  | .failing k true => h.engine = some k ∧ ∀ e, h.engines[k]? = some e → e.ingressRunning = false
  | .stopping k _ => h.engine = none ∧ ∀ e, h.engines[k]? = some e → e.ingressRunning = false

structure Sound (h : Host) : Prop where
  single : (h.links.map Link.engine).Nodup
  held : ∀ l ∈ h.links, ∃ e, h.engines[l.engine]? = some e ∧ Fits e l
  ended : ∀ (k : Nat) (e : Engine), h.engines[k]? = some e → (∀ l ∈ h.links, l.engine ≠ k) → Ended e
  current : ∀ (k : Nat) (e : Engine), h.engines[k]? = some e → e.ingressRunning = true → h.engine = some k
  begun : ∀ (k : Nat) (e : Engine), h.engines[k]? = some e → e.ingressRunning = true → e.started = true
  served : ∀ k, h.engine = some k → h.coreRunning = true ∨ h.control.reviving = some k
  busy : Busy h

theorem initial_sound : Sound initial where
  single := List.nodup_nil
  held := by intro l member; cases member
  ended := by intro k e found; cases found
  current := by intro k e found; cases found
  begun := by intro k e found; cases found
  served := by intro k held; cases held
  busy := trivial

theorem found_set {engines : List Engine} {k j : Nat} {new e : Engine} (found : (engines.set k new)[j]? = some e) :
    j = k ∧ e = new ∨ j ≠ k ∧ engines[j]? = some e := by
  by_cases same : j = k
  · subst same
    rw [List.getElem?_set_self'] at found
    cases old : engines[j]? with
    | none => rw [old] at found; cases found
    | some _ => rw [old] at found; exact Or.inl ⟨rfl, (Option.some.inj found).symm⟩
  · rw [List.getElem?_set_ne (fun equal => same equal.symm)] at found
    exact Or.inr ⟨same, found⟩

theorem set_found {engines : List Engine} {k : Nat} {e : Engine} (here : engines[k]? = some e) (new : Engine) :
    (engines.set k new)[k]? = some new := by
  rw [List.getElem?_set_self', here]
  exact rfl

theorem set_same {engines : List Engine} {k : Nat} {e : Engine} (here : engines[k]? = some e) :
    engines.set k e = engines := by
  obtain ⟨bound, rfl⟩ := List.getElem?_eq_some_iff.mp here
  exact List.set_getElem_self bound

/-- A block is not disturbed by what happens to the engines that have reads. -/
theorem Busy.frame {h : Host} {engines : List Engine} {links : List Link} (busy : Busy h)
    (kept : ∀ l ∈ links, ∃ old ∈ h.links, old.engine = l.engine)
    (same : ∀ (k : Nat) (e : Engine), engines[k]? = some e → ∃ old, h.engines[k]? = some old ∧
      e.ingressRunning = old.ingressRunning ∧ ((∀ l ∈ h.links, l.engine ≠ k) → e = old)) :
    Busy { h with engines := engines, links := links } := by
  have unused : ∀ k, Unused h k → Unused { h with engines := engines, links := links } k := by
    intro k unused
    constructor
    · intro l member
      obtain ⟨old, listed, equal⟩ := kept l member
      exact equal ▸ unused.1 old listed
    · intro e found
      obtain ⟨old, found', _, equal⟩ := same k e found
      rw [equal unused.1]
      exact unused.2 old found'
  have stopped : ∀ k : Nat, (∀ e : Engine, h.engines[k]? = some e → e.ingressRunning = false) →
      ∀ e : Engine, engines[k]? = some e → e.ingressRunning = false := by
    intro k stopped e found
    obtain ⟨old, found', equal, _⟩ := same k e found
    rw [equal]
    exact stopped old found'
  unfold Busy at busy ⊢
  dsimp only
  cases control : h.control with
  | idle => trivial
  | starting k =>
    rw [control] at busy
    exact unused k busy
  | opening k =>
    rw [control] at busy
    exact ⟨unused k busy.1, busy.2⟩
  | restarting k =>
    rw [control] at busy
    exact busy
  | failing k cleared =>
    rw [control] at busy
    cases cleared with
    | false => exact busy
    | true => exact ⟨busy.1, stopped k busy.2⟩
  | stopping k bumped =>
    rw [control] at busy
    exact ⟨busy.1, stopped k busy.2⟩

/-- A read and the books of its engine go on together. -/
theorem Sound.moves {h : Host} {index : Nat} {l : Link} {e : Engine} (sound : Sound h) (new : Link) (after : Engine)
    (listed : h.links[index]? = some l) (here : h.engines[l.engine]? = some e) (same : new.engine = l.engine)
    (running : after.ingressRunning = e.ingressRunning) (started : after.started = e.started)
    (fits : Fits after new) :
    Sound { h with engines := h.engines.set l.engine after, links := h.links.set index new } := by
  have single := sound.single
  have others : ∀ m ∈ h.links.set index new, m = new ∨ m ∈ h.links ∧ m.engine ≠ l.engine :=
    fun m member => Keyed.mem_set single listed same member
  constructor
  · change ((h.links.set index new).map Link.engine).Nodup
    rw [Keyed.map_set_same listed same]
    exact single
  · intro m member
    rcases others m member with rfl | ⟨kept, other⟩
    · exact ⟨after, same ▸ set_found here after, fits⟩
    · obtain ⟨held, found, fits'⟩ := sound.held m kept
      exact ⟨held, by rw [List.getElem?_set_ne (fun equal => other equal.symm), found], fits'⟩
  · intro k e' found unlinked
    rcases found_set found with ⟨rfl, _⟩ | ⟨other, found'⟩
    · obtain ⟨bound, _⟩ := List.getElem?_eq_some_iff.mp listed
      exact absurd same (unlinked new (List.mem_set bound new))
    · apply sound.ended k e' found'
      intro m member
      by_cases equal : m.engine = l.engine
      · rw [equal]
        exact fun hit => other hit.symm
      · exact unlinked m (Keyed.mem_set_other listed member equal)
  · intro k e' found on
    rcases found_set found with ⟨rfl, rfl⟩ | ⟨_, found'⟩
    · exact sound.current _ e here (running ▸ on)
    · exact sound.current k e' found' on
  · intro k e' found on
    rcases found_set found with ⟨rfl, rfl⟩ | ⟨_, found'⟩
    · rw [started]
      exact sound.begun _ e here (running ▸ on)
    · exact sound.begun k e' found' on
  · exact sound.served
  · apply sound.busy.frame
    · intro m member
      rcases others m member with rfl | ⟨kept, _⟩
      · exact ⟨l, List.mem_of_getElem? listed, same.symm⟩
      · exact ⟨m, kept, rfl⟩
    · intro k e' found
      rcases found_set found with ⟨rfl, rfl⟩ | ⟨_, found'⟩
      · exact ⟨e, here, running, fun unlinked => absurd rfl (unlinked l (List.mem_of_getElem? listed))⟩
      · exact ⟨e', found', rfl, fun _ => rfl⟩

/-- A read whose engine has stopped ends. -/
theorem Sound.drops {h : Host} {index : Nat} {l : Link} {e : Engine} (sound : Sound h)
    (listed : h.links[index]? = some l) (here : h.engines[l.engine]? = some e) (ended : Ended e) :
    Sound { h with links := h.links.eraseIdx index } := by
  have kept : ∀ m, m ∈ h.links.eraseIdx index ↔ m ∈ h.links ∧ m.engine ≠ l.engine :=
    fun m => Keyed.mem_eraseIdx sound.single listed
  constructor
  · exact sound.single.sublist ((List.eraseIdx_sublist _ _).map _)
  · intro m member
    exact sound.held m ((kept m).mp member).1
  · intro k e' found unlinked
    by_cases same : k = l.engine
    · rw [same, here] at found
      exact Option.some.inj found ▸ ended
    · apply sound.ended k e' found
      intro m member
      by_cases equal : m.engine = l.engine
      · rw [equal]
        exact fun hit => same hit.symm
      · exact unlinked m ((kept m).mpr ⟨member, equal⟩)
  · exact sound.current
  · exact sound.begun
  · exact sound.served
  · apply @Busy.frame h h.engines _ sound.busy
    · intro m member
      exact ⟨m, ((kept m).mp member).1, rfl⟩
    · intro k e' found
      exact ⟨e', found, rfl, fun _ => rfl⟩

theorem Sound.goes {h after : Host} {index : Nat} {l new : Link} {e : Engine} (sound : Sound h)
    (taken : goTo h index new = some after) (listed : h.links[index]? = some l)
    (here : h.engines[l.engine]? = some e) (same : new.engine = l.engine) (fits : Fits e new) : Sound after := by
  have moved := sound.moves new e listed here same rfl rfl fits
  rw [set_same here] at moved
  rw [← Option.some.inj taken]
  exact moved

theorem Sound.stops {h after : Host} {index : Nat} {l : Link} {e : Engine} (sound : Sound h)
    (taken : drop h index = some after) (listed : h.links[index]? = some l)
    (here : h.engines[l.engine]? = some e) (ended : Ended e) : Sound after := by
  rw [← Option.some.inj taken]
  exact sound.drops listed here ended

/-! ### The handlers -/

/-- A batch that is dropped is the last one. -/
theorem ended_of_before {e : Engine} {batch : List Bytes} (stopped : e.ingressRunning = false)
    (books : ∃ before, e.delivered = before ++ [batch] ∧ e.ingested = before.flatten) : Ended e := by
  obtain ⟨before, delivered, ingested⟩ := books
  exact ⟨stopped, before, [batch], delivered, ingested, Nat.le_refl 1⟩

theorem ended_of_flatten {e : Engine} (stopped : e.ingressRunning = false)
    (books : e.ingested = e.delivered.flatten) : Ended e :=
  ⟨stopped, e.delivered, [], (List.append_nil _).symm, books, Nat.zero_le 1⟩

theorem handle_sound {h after : Host} {index : Nat} {freed : Bool} (sound : Sound h)
    (taken : handle h index freed = some after) : Sound after := by
  simp only [handle, Option.bind_eq_bind, Option.bind_eq_some_iff] at taken
  obtain ⟨⟨k, epoch, stage, packets⟩, listed, e, here, taken⟩ := taken
  obtain ⟨e', found, fits⟩ := sound.held _ (List.mem_of_getElem? listed)
  rw [here, Option.some.injEq] at found
  subst found
  have tuned := fits.tuned
  have holds := fits.holds
  cases stage with
  | armed => cases taken
  | wakes =>
    cases freed with
    | false => exact sound.goes taken listed here rfl ⟨holds, tuned⟩
    | true =>
      dsimp only at taken
      rw [if_pos rfl] at taken
      split at taken
      · cases taken
      · next apart =>
        have stopped : e.ingressRunning = false := by
          rw [← Bool.not_eq_true]
          intro on
          exact apart (Or.inl (sound.current _ e here on))
        exact sound.stops taken listed here (ended_of_before stopped holds)
  | testsRunning =>
    dsimp only at taken
    split at taken
    · exact sound.goes taken listed here rfl ⟨holds, tuned⟩
    · next off => exact sound.stops taken listed here (ended_of_before (Bool.eq_false_iff.mpr off) holds)
  | testsEpoch =>
    dsimp only at taken
    split at taken
    · obtain ⟨before, delivered, ingested⟩ := holds
      have books : e.ingested ++ packets = e.delivered.flatten := by
        rw [delivered, ingested, List.flatten_append, List.flatten_singleton]
      exact sound.goes taken listed here rfl ⟨books, tuned⟩
    · next stale =>
      have stopped : e.ingressRunning = false := by
        rw [← Bool.not_eq_true]
        intro on
        exact stale (tuned on).symm
      exact sound.stops taken listed here (ended_of_before stopped holds)
  | ingests =>
    have books : e.ingested ++ packets = e.delivered.flatten := holds
    cases packets with
    | nil =>
      rw [List.append_nil] at books
      exact sound.goes taken listed here rfl ⟨⟨rfl, books⟩, tuned⟩
    | cons pkt rest =>
      rw [← Option.some.inj taken]
      apply sound.moves ⟨k, epoch, .ingests, rest⟩ { e with ingested := e.ingested ++ [pkt] } listed here rfl rfl rfl
      constructor
      · change (e.ingested ++ [pkt]) ++ rest = e.delivered.flatten
        rw [List.append_assoc]
        exact books
      · exact tuned
  | retests =>
    dsimp only at taken
    split at taken
    · exact sound.goes taken listed here rfl ⟨holds, tuned⟩
    · next off => exact sound.stops taken listed here (ended_of_flatten (Bool.eq_false_iff.mpr off) holds.2)
  | loadsEpoch => exact sound.goes taken listed here rfl ⟨holds, fun _ => rfl⟩
  | arms => exact sound.goes taken listed here rfl ⟨holds, tuned⟩

theorem deliver_sound {h after : Host} {index : Nat} {packets : List Bytes} (sound : Sound h)
    (taken : deliver h index packets = some after) : Sound after := by
  simp only [deliver, Option.bind_eq_bind, Option.bind_eq_some_iff, Option.ite_none_right_eq_some] at taken
  obtain ⟨l, listed, e, here, armed, taken⟩ := taken
  obtain ⟨e', found, fits⟩ := sound.held l (List.mem_of_getElem? listed)
  rw [here, Option.some.injEq] at found
  subst found
  have holds := fits.holds
  unfold Holds at holds
  rw [armed] at holds
  rw [← Option.some.inj taken]
  apply sound.moves { l with stage := .wakes, packets := packets }
    { e with delivered := e.delivered ++ [packets] } listed here rfl rfl rfl
  exact ⟨⟨e.delivered, rfl, holds.2⟩, fits.tuned⟩

/-! ### The control queue -/

/-- A block changes the flags of one engine; its loop is not set going. -/
theorem Sound.block {h : Host} {k : Nat} {e : Engine} {engine : Option Nat} {coreRunning : Bool}
    {control : Control} (sound : Sound h) (after : Engine) (here : h.engines[k]? = some e)
    (books : after.delivered = e.delivered ∧ after.ingested = e.ingested)
    (calm : after.ingressRunning = true →
      e.ingressRunning = true ∧ after.ingressEpoch = e.ingressEpoch ∧ after.started = e.started)
    (current : ∀ (j : Nat) (e' : Engine), (h.engines.set k after)[j]? = some e' → e'.ingressRunning = true →
      engine = some j)
    (served : ∀ j, engine = some j → coreRunning = true ∨ control.reviving = some j)
    (busy : Busy ⟨coreRunning, h.engines.set k after, engine, control, h.links⟩) :
    Sound ⟨coreRunning, h.engines.set k after, engine, control, h.links⟩ where
  single := sound.single
  held := by
    intro l member
    obtain ⟨held, found, fits⟩ := sound.held l member
    by_cases same : l.engine = k
    · rw [same, here, Option.some.injEq] at found
      subst found
      refine ⟨after, same ▸ set_found here after, ?_, ?_⟩
      · have holds := fits.holds
        unfold Holds at holds ⊢
        rw [books.1, books.2]
        exact holds
      · intro on
        rw [(calm on).2.1]
        exact fits.tuned (calm on).1
    · exact ⟨held, by rw [List.getElem?_set_ne (fun equal => same equal.symm), found], fits⟩
  ended := by
    intro j e' found unlinked
    rcases found_set found with ⟨rfl, rfl⟩ | ⟨_, found'⟩
    · have ended := sound.ended j e here unlinked
      refine ⟨?_, ?_⟩
      · rw [← Bool.not_eq_true]
        intro on
        exact absurd (calm on).1 (by rw [ended.stopped]; decide)
      · rw [books.1, books.2]
        exact ended.books
    · exact sound.ended j e' found' unlinked
  current := current
  begun := by
    intro j e' found on
    rcases found_set found with ⟨rfl, rfl⟩ | ⟨_, found'⟩
    · rw [(calm on).2.2]
      exact sound.begun j e here (calm on).1
    · exact sound.begun j e' found' on
  served := served
  busy := busy

/-- The engines whose loop runs after a block are those whose loop ran before. -/
theorem Sound.current_set {h : Host} {k : Nat} {e : Engine} (sound : Sound h) (after : Engine) (here : h.engines[k]? = some e)
    (calm : after.ingressRunning = true → e.ingressRunning = true) :
    ∀ (j : Nat) (e' : Engine), (h.engines.set k after)[j]? = some e' → e'.ingressRunning = true →
      h.engine = some j := by
  intro j e' found on
  rcases found_set found with ⟨rfl, rfl⟩ | ⟨_, found'⟩
  · exact sound.current j e here (calm on)
  · exact sound.current j e' found' on

theorem startTunnel_sound {h after : Host} (sound : Sound h) (taken : startTunnel h = some after) : Sound after := by
  simp only [startTunnel, Option.ite_none_right_eq_some, Option.some.injEq] at taken
  obtain ⟨idle, rfl⟩ := taken
  have old : ∀ (j : Nat) (e : Engine), (h.engines ++ [newEngine])[j]? = some e →
      h.engines[j]? = some e ∨ j = h.engines.length ∧ e = newEngine := by
    intro j e found
    rcases Nat.lt_trichotomy j h.engines.length with low | same | high
    · rw [List.getElem?_append_left low] at found
      exact Or.inl found
    · rw [same, List.getElem?_concat_length, Option.some.injEq] at found
      exact Or.inr ⟨same, found.symm⟩
    · rw [List.getElem?_eq_none (by simp; omega)] at found
      cases found
  have unlinked : ∀ l ∈ h.links, l.engine ≠ h.engines.length := by
    intro l member same
    obtain ⟨held, found, _⟩ := sound.held l member
    rw [same, List.getElem?_eq_none (Nat.le_refl _)] at found
    cases found
  constructor
  · exact sound.single
  · intro l member
    obtain ⟨held, found, fits⟩ := sound.held l member
    exact ⟨held, by rw [List.getElem?_append_left (List.getElem?_eq_some_iff.mp found).1, found], fits⟩
  · intro j e found free
    rcases old j e found with before | ⟨_, rfl⟩
    · exact sound.ended j e before free
    · exact ⟨rfl, [], [], rfl, rfl, Nat.zero_le 1⟩
  · intro j e found on
    rcases old j e found with before | ⟨_, rfl⟩
    · exact sound.current j e before on
    · cases on
  · intro j e found on
    rcases old j e found with before | ⟨_, rfl⟩
    · exact sound.begun j e before on
    · cases on
  · intro j held
    rcases sound.served j held with served | reviving
    · exact Or.inl served
    · rw [idle] at reviving
      cases reviving
  · refine ⟨unlinked, ?_⟩
    intro e found
    rcases old _ e found with before | ⟨_, rfl⟩
    · rw [List.getElem?_eq_none (Nat.le_refl _)] at before
      cases before
    · exact ⟨rfl, rfl, rfl⟩

/-- An engine that was not begun is let go of. -/
theorem Sound.forgets {h : Host} {k : Nat} {e : Engine} (sound : Sound h) (idle : h.control = .idle)
    (held : h.engine = some k) (here : h.engines[k]? = some e) (stopped : e.ingressRunning = false) :
    Sound { h with engine := none } where
  single := sound.single
  held := sound.held
  ended := sound.ended
  current := by
    intro j e' found on
    have same := held.symm.trans (sound.current j e' found on)
    rw [Option.some.injEq] at same
    subst same
    rw [here, Option.some.injEq] at found
    subst found
    rw [stopped] at on
    cases on
  begun := sound.begun
  served := by
    intro j none
    cases none
  busy := by
    unfold Busy
    dsimp only
    rw [idle]
    trivial

theorem stopped_of_not {e : Engine} (on : ¬e.ingressRunning = true) : e.ingressRunning = false :=
  Bool.eq_false_iff.mpr on

/-- The engine that was just stopped is the only one whose loop ran. -/
theorem Sound.none_current {h : Host} {k : Nat} {after : Engine} (sound : Sound h) (held : h.engine = some k)
    (stopped : after.ingressRunning = false) :
    ∀ (j : Nat) (e' : Engine), (h.engines.set k after)[j]? = some e' → e'.ingressRunning = true →
      none = some j := by
  intro j e' found on
  rcases found_set found with ⟨rfl, rfl⟩ | ⟨other, found'⟩
  · rw [stopped] at on
    cases on
  · have same := held.symm.trans (sound.current j e' found' on)
    exact absurd (Option.some.inj same).symm other

theorem stopTunnel_sound {h after : Host} (sound : Sound h) (taken : stopTunnel h = some after) : Sound after := by
  simp only [stopTunnel, Option.ite_none_right_eq_some] at taken
  obtain ⟨idle, taken⟩ := taken
  cases held : h.engine with
  | none =>
    rw [held] at taken
    rw [← Option.some.inj taken]
    exact sound
  | some k =>
    rw [held] at taken
    obtain ⟨e, here, taken⟩ := Option.bind_eq_some_iff.mp taken
    split at taken
    · rw [← Option.some.inj taken]
      apply sound.block { e with started := false, ingressRunning := false } here ⟨rfl, rfl⟩
      · intro on
        cases on
      · exact sound.none_current held rfl
      · intro j none
        cases none
      · refine ⟨rfl, ?_⟩
        intro e' found
        rw [set_found here] at found
        rw [← Option.some.inj found]
    · next idle' =>
      have stopped : e.ingressRunning = false := stopped_of_not fun on => idle' (sound.begun k e here on)
      rw [← Option.some.inj taken]
      exact sound.forgets idle held here stopped

theorem restart_sound {h after : Host} (sound : Sound h) (taken : restart h = some after) : Sound after := by
  simp only [restart, Option.ite_none_right_eq_some] at taken
  obtain ⟨idle, taken⟩ := taken
  cases held : h.engine with
  | none =>
    rw [held] at taken
    rw [← Option.some.inj taken]
    exact sound
  | some k =>
    rw [held] at taken
    obtain ⟨e, here, taken⟩ := Option.bind_eq_some_iff.mp taken
    split at taken
    · rw [← Option.some.inj taken]
      apply sound.block { e with tunStarted := false } here ⟨rfl, rfl⟩
      · intro on
        exact ⟨on, rfl, rfl⟩
      · have kept := sound.current_set { e with tunStarted := false } here id
        rw [held] at kept
        exact kept
      · intro j current
        exact Or.inr current
      · exact rfl
    · next idle' =>
      have stopped : e.ingressRunning = false := stopped_of_not fun on => idle' (sound.begun k e here on)
      rw [← Option.some.inj taken]
      exact sound.forgets idle held here stopped

theorem tunStart_sound {h after : Host} {ok : Bool} (sound : Sound h) (taken : tunStart h ok = some after) :
    Sound after := by
  simp only [tunStart, Option.ite_none_left_eq_some, Bool.and_eq_true, not_and] at taken
  obtain ⟨refused, taken⟩ := taken
  have busy := sound.busy
  unfold Busy at busy
  cases control : h.control with
  | starting k =>
    rw [control] at taken busy
    obtain ⟨e, here, taken⟩ := Option.bind_eq_some_iff.mp taken
    have stopped := (sound.ended k e here busy.1).stopped
    split at taken
    · next good =>
      have unheld : h.engine = none := by
        cases held : h.engine with
        | none => rfl
        | some j =>
          rcases sound.served j held with running | reviving
          · exact absurd running (refused good)
          · rw [control] at reviving
            cases reviving
      rw [← Option.some.inj taken]
      apply sound.block { e with tunStarted := true } here ⟨rfl, rfl⟩
      · intro on
        exact ⟨on, rfl, rfl⟩
      · exact sound.current_set { e with tunStarted := true } here id
      · intro j _
        exact Or.inl rfl
      · refine ⟨⟨busy.1, ?_⟩, unheld, rfl⟩
        intro e' found
        rw [set_found here] at found
        rw [← Option.some.inj found]
        exact busy.2 e here
    · rw [← Option.some.inj taken]
      apply sound.block { e with started := false } here ⟨rfl, rfl⟩
      · intro on
        change e.ingressRunning = true at on
        rw [stopped] at on
        cases on
      · exact sound.current_set { e with started := false } here id
      · intro j held
        rcases sound.served j held with running | reviving
        · exact Or.inl running
        · rw [control] at reviving
          cases reviving
      · trivial
  | restarting k =>
    rw [control] at taken busy
    obtain ⟨e, here, taken⟩ := Option.bind_eq_some_iff.mp taken
    split at taken
    · rw [← Option.some.inj taken]
      apply sound.block { e with tunStarted := true } here ⟨rfl, rfl⟩
      · intro on
        exact ⟨on, rfl, rfl⟩
      · exact sound.current_set { e with tunStarted := true } here id
      · intro j _
        exact Or.inl rfl
      · trivial
    · rw [← Option.some.inj taken]
      constructor
      · exact sound.single
      · exact sound.held
      · exact sound.ended
      · exact sound.current
      · exact sound.begun
      · intro j held
        exact Or.inr (busy.symm.trans held)
      · exact busy
  | idle => rw [control] at taken; cases taken
  | opening k => rw [control] at taken; cases taken
  | failing k cleared => rw [control] at taken; cases taken
  | stopping k bumped => rw [control] at taken; cases taken

/-- The ingress loop of a new engine begins with its first read. -/
theorem Sound.opens {h : Host} {k : Nat} {e : Engine} (sound : Sound h) (here : h.engines[k]? = some e)
    (unused : Unused h k) (unheld : h.engine = none) (running : h.coreRunning = true) :
    Sound { h with engines := h.engines.set k { e with ingressRunning := true }
                   engine := some k
                   control := .idle
                   links := h.links ++ [⟨k, e.ingressEpoch, .armed, []⟩] } := by
  have books := unused.2 e here
  have alone : ∀ (j : Nat) (e' : Engine), h.engines[j]? = some e' → ¬e'.ingressRunning = true := by
    intro j e' found on
    have held := sound.current j e' found on
    rw [unheld] at held
    cases held
  constructor
  · change ((h.links ++ [_]).map Link.engine).Nodup
    rw [List.map_append, List.nodup_append]
    refine ⟨sound.single, List.nodup_singleton _, ?_⟩
    intro j member i member'
    obtain ⟨l, listed, rfl⟩ := List.mem_map.mp member
    rw [List.map_singleton, List.mem_singleton] at member'
    subst member'
    exact unused.1 l listed
  · intro l member
    rcases List.mem_append.mp member with old | new
    · obtain ⟨held, found, fits⟩ := sound.held l old
      have other := unused.1 l old
      exact ⟨held, by rw [List.getElem?_set_ne (fun equal => other equal.symm), found], fits⟩
    · rw [List.mem_singleton] at new
      subst new
      refine ⟨_, set_found here _, ⟨rfl, ?_⟩, fun _ => rfl⟩
      change e.ingested = e.delivered.flatten
      rw [books.2.1, books.2.2, List.flatten_nil]
  · intro j e' found unlinked
    rcases found_set found with ⟨rfl, _⟩ | ⟨_, found'⟩
    · exact absurd rfl (unlinked ⟨j, e.ingressEpoch, .armed, []⟩ (by simp))
    · exact sound.ended j e' found' fun l member => unlinked l (List.mem_append_left _ member)
  · intro j e' found on
    rcases found_set found with ⟨rfl, _⟩ | ⟨_, found'⟩
    · rfl
    · exact absurd on (alone j e' found')
  · intro j e' found on
    rcases found_set found with ⟨_, rfl⟩ | ⟨_, found'⟩
    · exact books.1
    · exact sound.begun j e' found' on
  · intro j _
    exact Or.inl running
  · trivial

theorem proceed_sound {h after : Host} (sound : Sound h) (taken : proceed h = some after) : Sound after := by
  unfold proceed at taken
  have busy := sound.busy
  unfold Busy at busy
  cases control : h.control with
  | opening k =>
    rw [control] at taken busy
    obtain ⟨e, here, taken⟩ := Option.bind_eq_some_iff.mp taken
    rw [← Option.some.inj taken]
    exact sound.opens here busy.1 busy.2.1 busy.2.2
  | failing k cleared =>
    rw [control] at taken busy
    cases cleared with
    | false =>
      obtain ⟨e, here, taken⟩ := Option.bind_eq_some_iff.mp taken
      rw [← Option.some.inj taken]
      apply sound.block { e with ingressRunning := false } here ⟨rfl, rfl⟩
      · intro on
        cases on
      · apply sound.current_set { e with ingressRunning := false } here
        intro on
        cases on
      · intro j held
        exact Or.inr (busy.symm.trans held)
      · refine ⟨busy, ?_⟩
        intro e' found
        rw [set_found here] at found
        rw [← Option.some.inj found]
    | true =>
      obtain ⟨e, here, taken⟩ := Option.bind_eq_some_iff.mp taken
      have stopped := busy.2 e here
      rw [← Option.some.inj taken]
      apply sound.block { e with ingressEpoch := e.ingressEpoch + 1, started := false } here ⟨rfl, rfl⟩
      · intro on
        change e.ingressRunning = true at on
        rw [stopped] at on
        cases on
      · exact sound.none_current busy.1 stopped
      · intro j none
        cases none
      · trivial
  | stopping k bumped =>
    rw [control] at taken busy
    cases bumped with
    | false =>
      obtain ⟨e, here, taken⟩ := Option.bind_eq_some_iff.mp taken
      have stopped := busy.2 e here
      rw [← Option.some.inj taken]
      apply sound.block { e with ingressEpoch := e.ingressEpoch + 1 } here ⟨rfl, rfl⟩
      · intro on
        change e.ingressRunning = true at on
        rw [stopped] at on
        cases on
      · exact sound.current_set { e with ingressEpoch := e.ingressEpoch + 1 } here id
      · intro j held
        rw [busy.1] at held
        cases held
      · refine ⟨busy.1, ?_⟩
        intro e' found
        rw [set_found here] at found
        rw [← Option.some.inj found]
        exact stopped
    | true =>
      obtain ⟨e, here, taken⟩ := Option.bind_eq_some_iff.mp taken
      have stopped := busy.2 e here
      rw [← Option.some.inj taken]
      apply sound.block { e with tunStarted := false } here ⟨rfl, rfl⟩
      · intro on
        change e.ingressRunning = true at on
        rw [stopped] at on
        cases on
      · exact sound.current_set { e with tunStarted := false } here id
      · intro j held
        rw [busy.1] at held
        cases held
      · trivial
  | idle => rw [control] at taken; cases taken
  | starting k => rw [control] at taken; cases taken
  | restarting k => rw [control] at taken; cases taken

theorem step_sound {h after : Host} {event : Event} (sound : Sound h) (taken : step h event = some after) :
    Sound after := by
  cases event with
  | startTunnel => exact startTunnel_sound sound taken
  | stopTunnel => exact stopTunnel_sound sound taken
  | restart => exact restart_sound sound taken
  | tunStart ok => exact tunStart_sound sound taken
  | proceed => exact proceed_sound sound taken
  | deliver index packets => exact deliver_sound sound taken
  | handle index freed => exact handle_sound sound taken

/-! ### What the invariant says -/

theorem inHand_of_mem {h : Host} (single : (h.links.map Link.engine).Nodup) {l : Link} (member : l ∈ h.links) :
    inHand h l.engine = l.packets := by
  rw [inHand, Keyed.filter_key single member, List.flatMap_singleton]

theorem inHand_of_unlinked {h : Host} {k : Nat} (unlinked : ∀ l ∈ h.links, l.engine ≠ k) : inHand h k = [] := by
  have nothing : h.links.filter (fun l => l.engine == k) = [] := by
    apply List.filter_eq_nil_iff.mpr
    intro l member same
    exact unlinked l member (beq_iff_eq.mp same)
  rw [inHand, nothing, List.flatMap_nil]

/-- The books of an engine with a read: all that was delivered was passed on or is in hand. -/
theorem Holds.all {e : Engine} {l : Link} (holds : Holds e l) : e.ingested ++ l.packets = e.delivered.flatten := by
  obtain ⟨k, epoch, stage, packets⟩ := l
  have quiet : packets = [] ∧ e.ingested = e.delivered.flatten → e.ingested ++ packets = e.delivered.flatten := by
    rintro ⟨rfl, books⟩
    rw [List.append_nil, books]
  have waiting : (∃ before, e.delivered = before ++ [packets] ∧ e.ingested = before.flatten) →
      e.ingested ++ packets = e.delivered.flatten := by
    rintro ⟨before, delivered, ingested⟩
    rw [delivered, ingested, List.flatten_append, List.flatten_singleton]
  cases stage with
  | armed => exact quiet holds
  | wakes => exact waiting holds
  | testsRunning => exact waiting holds
  | testsEpoch => exact waiting holds
  | ingests => exact holds
  | retests => exact quiet holds
  | loadsEpoch => exact quiet holds
  | arms => exact quiet holds

theorem Sound.fed {h : Host} {k : Nat} {e : Engine} (sound : Sound h) (here : h.engines[k]? = some e) : Fed h k e := by
  by_cases linked : ∃ l ∈ h.links, l.engine = k
  · obtain ⟨l, member, rfl⟩ := linked
    obtain ⟨held, found, fits⟩ := sound.held l member
    rw [here, Option.some.injEq] at found
    subst found
    refine ⟨e.delivered, [], (List.append_nil _).symm, ?_, Nat.zero_le 1, fun lost => absurd rfl lost⟩
    rw [inHand_of_mem sound.single member, fits.holds.all]
  · have unlinked : ∀ l ∈ h.links, l.engine ≠ k := fun l member same => linked ⟨l, member, same⟩
    have ended := sound.ended k e here unlinked
    obtain ⟨taken, lost, delivered, ingested, few⟩ := ended.books
    refine ⟨taken, lost, delivered, ?_, few, fun _ => ⟨ended.stopped, unlinked⟩⟩
    rw [inHand_of_unlinked unlinked, List.append_nil, ingested]

theorem Sound.chained {h : Host} (sound : Sound h) : Chained h where
  single := sound.single
  alone := by
    intro j k one two foundOne foundTwo onOne onTwo
    have same := (sound.current j one foundOne onOne).symm.trans (sound.current k two foundTwo onTwo)
    exact Option.some.inj same
  alive := by
    intro k e found on
    by_contra none
    have ended := sound.ended k e found fun l member same => none ⟨l, member, same, by
      obtain ⟨held, found', fits⟩ := sound.held l member
      rw [same, found, Option.some.injEq] at found'
      subst found'
      exact fits.tuned on⟩
    rw [ended.stopped] at on
    cases on
  served := by
    intro k e found on other
    exact (sound.served k (sound.current k e found on)).resolve_right other
  fed := fun k e found => sound.fed found

/-- In every run each engine has at most one read, waiting or being handled, and exactly one, with its
current epoch, while its loop runs, across any number of restarts; the loop of at most one engine runs,
and the core with it unless it is just being restarted; and the packets of each engine are passed on in
the order of delivery, without one left out or repeated, but for a last batch that was dropped whole. -/
theorem read_chain (h : Host) (reached : Reachable step initial h) : Chained h :=
  (reached.invariant Sound (fun _ _ _ sound _ taken => step_sound sound taken) initial_sound).chained

/-- An engine reads a batch, is restarted in the middle of it, reads on, and is stopped while the next
batch waits to be handled. -/
def sampleRun : List Event :=
  [.startTunnel, .tunStart true, .proceed, .deliver 0 [[1], [2]], .handle 0 false, .handle 0 false,
    .handle 0 false, .handle 0 false, .restart, .tunStart true, .handle 0 false, .handle 0 false,
    .handle 0 false, .handle 0 false, .handle 0 false, .deliver 0 [[3]], .stopTunnel, .proceed, .proceed,
    .handle 0 false, .handle 0 false]

theorem sample_read_chain : ∃ h, run step initial sampleRun = some h ∧
    (h.engines.map Engine.ingested = [[[1], [2]]]) ∧ (h.engines.map Engine.delivered = [[[[1], [2]], [[3]]]]) ∧
    Chained h := by
  obtain ⟨h, ran, ingested, delivered⟩ : ∃ h, run step initial sampleRun = some h ∧
      h.engines.map Engine.ingested = [[[1], [2]]] ∧ h.engines.map Engine.delivered = [[[[1], [2]], [[3]]]] :=
    ⟨_, rfl, rfl, rfl⟩
  exact ⟨h, ran, ingested, delivered, read_chain h (reachable_of_run ran)⟩

end ShadowVpn.Tunnel.Reading
