import Mathlib.Algebra.Ring.Int.Defs
import ShadowVpn.Engine.Counters

/-! The traffic pump of `SVTunnelEngine.m`: the engines that the control queue starts, restarts and stops
one after another, their timers, and the snapshots they take of the core's counters. The core of the
process goes on between any two steps. -/

namespace ShadowVpn.Tunnel.Traffic
open ShadowVpn.Lib.Transition ShadowVpn.Wire.Crypto ShadowVpn.Engine ShadowVpn.Engine.DataPlane
open ShadowVpn.Engine.Lifecycle ShadowVpn.Engine.Books ShadowVpn.Engine.Counters
open ShadowVpn.Engine.Datagram (samplePrims)

/-- What the core has counted of the bytes sent. -/
def upCount (c : Core) : Nat := (c.sessions.map Session.up).sum

def downCount (c : Core) : Nat := (c.sessions.map Session.down).sum

/-- The fields of an `SVTunnelEngine` that its pump depends on. A timer fires until it is cancelled, which
also clears the field; here it is the number of the pump that it drives. -/
structure Engine where
  started : Bool
  tunStarted : Bool
  trafficTimer : Option Nat
  lastUp : Int
  lastDown : Int

/-- A pump that was started. `up` and `down` only record what the core had counted when it was started or
when its last snapshot read the counters. -/
structure Pump where
  engine : Nat
  up : Nat
  down : Nat

/-- What a handler has read of the counters. -/
inductive Reading where
  | nothing
  | up (up : Nat)
  | both (up down : Nat)

/-- A run of a timer's handler, `emitTrafficSnapshot`. -/
structure Handler where
  pump : Nat
  reading : Reading

/-- The byte deltas behind the two rates of a snapshot, and what the core counted since the previous
snapshot of the pump or since its start. -/
structure Snapshot where
  upDelta : Int
  downDelta : Int
  upCounted : Int
  downCounted : Int

/-- Where the block on the engine-control queue stands: in `svpn_tun_start` for a new engine, in
`svpn_tun_stop_blocking` or `svpn_tun_start` for a restart, or in the last stop. The flag is what
`svpn_tun_start` returns. -/
inductive Control where
  | idle
  | starting (k : Nat) (ok : Bool)
  | halting (k : Nat) (config : Option Config)
  | restarting (k : Nat) (ok : Bool)
  | closing

/-- The extension process: the provider's `_engine` is a number among the engines that were made. -/
structure Host where
  core : Core
  engines : List Engine
  engine : Option Nat
  control : Control
  pumps : List Pump
  handlers : List Handler
  snapshots : List Snapshot

def initial : Host where
  core := Lifecycle.initial
  engines := []
  engine := none
  control := .idle
  pumps := []
  handlers := []
  snapshots := []

/-- What can happen next. A start without a configuration is one that fails on it or on its socket. -/
inductive Event where
  | startEngine (config : Option Config)
  | restartEngine (config : Option Config)
  | stopEngine
  | proceed
  | core (event : Lifecycle.Event)
  | fire
  | handle (index : Nat)

/-- `svpn_tun_start` returns 0. -/
def accepts (core : Core) (config : Option Config) : Bool := config.isSome && !core.running

def startTrafficPump (h : Host) (k : Nat) (e : Engine) : Host :=
  { h with engines := h.engines.set k { e with trafficTimer := some h.pumps.length, lastUp := 0, lastDown := 0 }
           pumps := h.pumps ++ [⟨k, upCount h.core, downCount h.core⟩] }

def stopTrafficPump (e : Engine) : Engine := { e with trafficTimer := none }

/-- A new engine, and `startWithError:` up to the call of the core. -/
def startEngine (h : Host) (config : Option Config) : Option Host :=
  (issue h.core (.start config)).map fun core =>
    { h with core := core, engines := h.engines ++ [⟨true, false, none, 0, 0⟩]
             control := .starting h.engines.length (accepts h.core config) }

/-- `svpn_tun_stop_blocking`, if the core was started. -/
def haltCore (core : Core) (tunStarted : Bool) : Option Core :=
  if tunStarted then issue core .stopBlocking else some core

/-- `restartWithError:` up to the first call of the core. -/
def restartEngine (h : Host) (config : Option Config) : Option Host :=
  match h.engine with
  | none => some h
  | some k => (h.engines[k]?).bind fun e =>
    if e.started then
      (haltCore h.core e.tunStarted).map fun core =>
        { h with core := core, engines := h.engines.set k (stopTrafficPump e), control := .halting k config }
    else some { h with engine := none }

/-- `stop` up to the call of the core. -/
def stopEngine (h : Host) : Option Host :=
  match h.engine with
  | none => some h
  | some k => (h.engines[k]?).bind fun e =>
    if e.started then
      (haltCore h.core e.tunStarted).map fun core =>
        { h with core := core
                 engines := h.engines.set k { stopTrafficPump e with started := false, tunStarted := false }
                 engine := none
                 control := .closing }
    else some { h with engine := none }

/-- The block goes on when the core has returned. -/
def proceed (h : Host) : Option Host :=
  match h.control with
  | .idle => none
  | .starting k ok => (h.engines[k]?).map fun e =>
    if ok then { startTrafficPump h k { e with tunStarted := true } with engine := some k, control := .idle }
    else { h with engines := h.engines.set k { e with started := false }, control := .idle }
  | .halting k config => (h.engines[k]?).bind fun e => (issue h.core (.start config)).map fun core =>
    { h with core := core, engines := h.engines.set k { e with tunStarted := false }
             control := .restarting k (accepts h.core config) }
  | .restarting k ok => (h.engines[k]?).map fun e =>
    if ok then { startTrafficPump h k { e with tunStarted := true } with control := .idle }
    else { h with engines := h.engines.set k { e with started := false }, engine := none, control := .idle }
  | .closing => some { h with control := .idle }

/-- The timer of the engine fires; its handler does not run twice at the same time. -/
def fire (h : Host) : Option Host := do
  let k ← h.engine
  let e ← h.engines[k]?
  let pump ← e.trafficTimer
  if h.handlers.any (fun handler => handler.pump == pump) then none
  else some { h with handlers := h.handlers ++ [⟨pump, .nothing⟩] }

/-- `emitTrafficSnapshot` once it has read the counters. -/
def emitTrafficSnapshot (h : Host) (index p up down : Nat) : Option Host := do
  let pump ← h.pumps[p]?
  let e ← h.engines[pump.engine]?
  return { h with
    engines := h.engines.set pump.engine { e with lastUp := counter up, lastDown := counter down }
    pumps := h.pumps.set p { pump with up, down }
    handlers := h.handlers.eraseIdx index
    snapshots := h.snapshots ++
      [⟨counter up - e.lastUp, counter down - e.lastDown, (up : Int) - pump.up, (down : Int) - pump.down⟩] }

/-- The counters are loaded one after the other. -/
def handle (h : Host) (index : Nat) : Option Host := do
  let handler ← h.handlers[index]?
  match handler.reading with
  | .nothing => some { h with handlers := h.handlers.set index ⟨handler.pump, .up (upCount h.core)⟩ }
  | .up up => some { h with handlers := h.handlers.set index ⟨handler.pump, .both up (downCount h.core)⟩ }
  | .both up down => emitTrafficSnapshot h index handler.pump up down

def Control.isIdle : Control → Bool
  | .idle => true
  | _ => false

def coreReturned (core : Core) : Bool :=
  match core.control with
  | .idle => true
  | _ => false

/-- The steps of the core that are not calls of it. -/
def ownStep : Lifecycle.Event → Bool
  | .call _ => false
  | _ => true

section Steps

variable (prims : Primitives)

def step (h : Host) (event : Event) : Option Host :=
  match event with
  | .startEngine config => if h.control.isIdle then startEngine h config else none
  | .restartEngine config => if h.control.isIdle then restartEngine h config else none
  | .stopEngine => if h.control.isIdle then stopEngine h else none
  | .proceed => if coreReturned h.core then proceed h else none
  | .core event =>
    if ownStep event then (coreStep prims h.core event).map fun core => { h with core := core } else none
  | .fire => fire h
  | .handle index => handle h index

end Steps

/-- Every delta is what the core counted since the previous snapshot or the start of the pump, and they
add up to no more than it counted in all. -/
structure CountedOnce (h : Host) : Prop where
  exact : ∀ s ∈ h.snapshots, s.upDelta = s.upCounted ∧ s.downDelta = s.downCounted
  up : (h.snapshots.map Snapshot.upDelta).sum ≤ upCount h.core
  down : (h.snapshots.map Snapshot.downDelta).sum ≤ downCount h.core

def startsPump (h : Host) : Bool :=
  match h.control with
  | .starting _ true | .restarting _ true => true
  | _ => false

/-- A pump is started only while nothing has been counted and no handler is under way, and the counters
have not overflowed when they are read. -/
def fresh (h : Host) (event : Event) : Bool :=
  match event with
  | .proceed => !startsPump h || (upCount h.core == 0 && downCount h.core == 0 && h.handlers.isEmpty)
  | .handle _ => decide (upCount h.core < counterLimit ∧ downCount h.core < counterLimit)
  | _ => true

section Growth

variable {prims : Primitives}

/-- Neither count goes back. -/
def Grows (c d : Core) : Prop := upCount c ≤ upCount d ∧ downCount c ≤ downCount d

theorem Grows.refl (c : Core) : Grows c c := ⟨Nat.le_refl _, Nat.le_refl _⟩

theorem sum_set_le {Item : Type} (items : List Item) (f : Item → Nat) {k : Nat} {old new : Item}
    (found : items[k]? = some old) (more : f old ≤ f new) :
    (items.map f).sum ≤ ((items.set k new).map f).sum := by
  induction items generalizing k with
  | nil => simp at found
  | cons first rest ih =>
    cases k with
    | zero =>
      obtain rfl : first = old := by simpa using found
      simp only [List.set_cons_zero, List.map_cons, List.sum_cons]
      omega
    | succ k =>
      have later := ih (k := k) (by simpa using found)
      simp only [List.set_cons_succ, List.map_cons, List.sum_cons]
      omega

theorem update_grows {c d : Core} {k : Nat} {change : Session → Option Session}
    (taken : update c k change = some d)
    (grows : ∀ s next, c.sessions[k]? = some s → change s = some next →
      s.up ≤ next.up ∧ s.down ≤ next.down) :
    Grows c d := by
  obtain ⟨s, next, writes, found, changed, rfl⟩ := update_cases taken
  obtain ⟨up, down⟩ := grows s next found changed
  exact ⟨sum_set_le c.sessions Session.up found up, sum_set_le c.sessions Session.down found down⟩

theorem issue_grows {c d : Core} {call : Call} (taken : issue c call = some d) : Grows c d := by
  have same := Grows.refl c
  unfold issue at taken
  split at taken
  · cases call with
    | start config =>
      cases config with
      | none => exact Option.some.inj taken ▸ same
      | some config =>
        dsimp only at taken
        split at taken
        · exact Option.some.inj taken ▸ same
        · rw [← Option.some.inj taken]
          simp [Grows, upCount, downCount, start]
    | stop | stopBlocking => exact Option.some.inj taken ▸ same
  · cases taken

theorem controlStep_grows {c d : Core} (taken : controlStep c = some d) : Grows c d := by
  have same := Grows.refl c
  unfold controlStep at taken
  split at taken
  · cases taken
  · exact Option.some.inj taken ▸ same
  · exact Option.some.inj taken ▸ same
  · split at taken
    · rw [← Option.some.inj taken]
      split <;> exact same
    · exact Option.some.inj taken ▸ same
  · next k handle todo blocking _ =>
    refine @update_grows { c with control := .ending k todo blocking } d k _ taken ?_
    intro s next _ changed
    rw [← Option.some.inj changed]
    cases handle <;> exact ⟨Nat.le_refl _, Nat.le_refl _⟩
  · split at taken
    · split at taken
      · exact Option.some.inj taken ▸ same
      · cases taken
    · exact Option.some.inj taken ▸ same

theorem trySend_counts (s : Session) (pkt : ShadowVpn.Lib.Octets.Bytes) :
    (DataPlane.trySend s pkt).1.up = s.up ∧ (DataPlane.trySend s pkt).1.down = s.down := by
  unfold DataPlane.trySend
  split
  · exact ⟨rfl, rfl⟩
  · split <;> exact ⟨rfl, rfl⟩

/-- An entry in the books of a session takes nothing off its counts. -/
theorem entry_grows {s : Session} {action : Action} {a : Account} (entry : Entry prims s action a) :
    s.up ≤ a.up ∧ s.down ≤ a.down := by
  cases entry with
  | forwarded pkt wire pc => exact ⟨Nat.le_add_right _ _, Nat.le_refl _⟩
  | paired arrival pc => exact ⟨Nat.le_refl _, Nat.le_add_right _ _⟩
  | _ => exact ⟨Nat.le_refl _, Nat.le_refl _⟩

/-- The core only ever adds to its counts. -/
theorem coreStep_grows {c d : Core} {event : Lifecycle.Event} (taken : coreStep prims c event = some d) :
    Grows c d := by
  have same := Grows.refl c
  cases event with
  | call call => exact issue_grows taken
  | control => exact controlStep_grows taken
  | session k action =>
    simp only [coreStep] at taken
    split at taken
    · next own =>
      refine update_grows taken ?_
      intro s next _ changed
      exact entry_grows (step_entry own changed)
    · cases taken
  | ingest pkt =>
    simp only [coreStep, Lifecycle.ingest] at taken
    split at taken
    · exact Option.some.inj taken ▸ same
    · split at taken
      · exact Option.some.inj taken ▸ same
      · next k _ =>
        refine @update_grows { c with ingests := c.ingests ++ [(k, pkt)] } d k _ taken ?_
        intro s next _ changed
        rw [← Option.some.inj changed]
        exact ⟨Nat.le_refl _, Nat.le_refl _⟩
  | trySend index =>
    simp only [coreStep, finishIngest, Option.bind_eq_some_iff] at taken
    obtain ⟨entry, _, s, found, taken⟩ := taken
    refine @update_grows { c with ingests := c.ingests.eraseIdx index
                                  codes := c.codes ++ [(DataPlane.trySend s entry.2).2] } d entry.1 _ taken ?_
    intro t next here changed
    obtain rfl : s = t := Option.some.inj (found.symm.trans here)
    obtain ⟨up, down⟩ := trySend_counts s entry.2
    rw [← Option.some.inj changed]
    exact ⟨Nat.le_of_eq up.symm, Nat.le_of_eq down.symm⟩

end Growth

section Soundness

/-- What was read is no more than what is counted, and the counter held it exactly. -/
def Reading.Fits (c : Core) : Reading → Prop
  | .nothing => True
  | .up sent => sent ≤ upCount c ∧ sent < counterLimit
  | .both sent received =>
    (sent ≤ upCount c ∧ sent < counterLimit) ∧ received ≤ downCount c ∧ received < counterLimit

/-- The last pump: its engine remembers the counts of its last snapshot, and the deltas add up to them. -/
structure Tally (h : Host) (pump : Pump) : Prop where
  remembers : ∃ e, h.engines[pump.engine]? = some e ∧ e.lastUp = pump.up ∧ e.lastDown = pump.down
  upSum : (h.snapshots.map Snapshot.upDelta).sum = pump.up
  downSum : (h.snapshots.map Snapshot.downDelta).sum = pump.down
  up : pump.up ≤ upCount h.core
  down : pump.down ≤ downCount h.core

/-- The engine that is being restarted. -/
def restarted : Control → Option Nat
  | .halting k _ | .restarting k _ => some k
  | _ => none

/-- Only the last pump can fire or has a handler under way, one at most. -/
structure Sound (h : Host) : Prop where
  exact : ∀ s ∈ h.snapshots, s.upDelta = s.upCounted ∧ s.downDelta = s.downCounted
  none : h.pumps = [] → h.snapshots = []
  last : ∀ p pump, p + 1 = h.pumps.length → h.pumps[p]? = some pump → Tally h pump
  armed : ∀ k e p, h.engine = some k → h.engines[k]? = some e → e.trafficTimer = some p →
    p + 1 = h.pumps.length
  held : ∀ k, restarted h.control = some k → h.engine = some k
  alone : h.handlers = [] ∨ ∃ handler, h.handlers = [handler] ∧ handler.pump + 1 = h.pumps.length ∧
    handler.reading.Fits h.core

/-- Handlers come and go. -/
theorem Tally.handlers {h : Host} {pump : Pump} (tally : Tally h pump) (handlers : List Handler) :
    Tally { h with handlers } pump :=
  ⟨tally.remembers, tally.upSum, tally.downSum, tally.up, tally.down⟩

theorem initial_sound : Sound initial where
  exact _ member := absurd member List.not_mem_nil
  none _ := rfl
  last _ _ length := absurd length (Nat.succ_ne_zero _)
  armed _ _ _ here := nomatch here
  held _ here := nomatch here
  alone := .inl rfl

/-- The engines keep what they remember, and none gets a timer. -/
structure Keeps (old new : List Engine) : Prop where
  marks : ∀ (k : Nat) (e : Engine), old[k]? = some e →
    ∃ e', new[k]? = some e' ∧ e'.lastUp = e.lastUp ∧ e'.lastDown = e.lastDown
  timers : ∀ (k : Nat) (e' : Engine) (p : Nat), new[k]? = some e' → e'.trafficTimer = some p →
    ∃ e, old[k]? = some e ∧ e.trafficTimer = some p

theorem Keeps.refl (engines : List Engine) : Keeps engines engines where
  marks _ e found := ⟨e, found, rfl, rfl⟩
  timers _ e _ found timer := ⟨e, found, timer⟩

theorem keeps_append (engines : List Engine) : Keeps engines (engines ++ [⟨true, false, none, 0, 0⟩]) where
  marks k e found := by
    have inside := (List.getElem?_eq_some_iff.mp found).1
    exact ⟨e, by rw [List.getElem?_append_left inside, found], rfl, rfl⟩
  timers k e' p found timer := by
    by_cases inside : k < engines.length
    · rw [List.getElem?_append_left inside] at found
      exact ⟨e', found, timer⟩
    · rw [List.getElem?_append_right (Nat.le_of_not_lt inside)] at found
      rw [List.mem_singleton.mp (List.mem_of_getElem? found)] at timer
      cases timer

theorem keeps_set {engines : List Engine} {k : Nat} {e next : Engine} (found : engines[k]? = some e)
    (lastUp : next.lastUp = e.lastUp) (lastDown : next.lastDown = e.lastDown)
    (timer : ∀ p, next.trafficTimer = some p → e.trafficTimer = some p) : Keeps engines (engines.set k next) where
  marks j e' here := by
    by_cases same : k = j
    · subst same
      obtain rfl : e = e' := Option.some.inj (found.symm.trans here)
      exact ⟨next, by rw [List.getElem?_set_self (List.getElem?_eq_some_iff.mp here).1], lastUp, lastDown⟩
    · exact ⟨e', by rw [List.getElem?_set_ne same, here], rfl, rfl⟩
  timers j e' p here armed := by
    rcases getElem?_set_cases found here with ⟨rfl, rfl⟩ | ⟨_, old⟩
    · exact ⟨e, found, timer p armed⟩
    · exact ⟨e', old, armed⟩

theorem Reading.Fits.grows {c d : Core} {reading : Reading} (fits : reading.Fits c) (grows : Grows c d) :
    reading.Fits d := by
  cases reading with
  | nothing => trivial
  | up up => exact ⟨Nat.le_trans fits.1 grows.1, fits.2⟩
  | both up down => exact ⟨⟨Nat.le_trans fits.1.1 grows.1, fits.1.2⟩, Nat.le_trans fits.2.1 grows.2, fits.2.2⟩

/-- A step that starts no pump and takes no part in a handler. -/
theorem Sound.frame {h after : Host} (sound : Sound h) (keeps : Keeps h.engines after.engines)
    (grows : Grows h.core after.core) (pumps : after.pumps = h.pumps) (handlers : after.handlers = h.handlers)
    (snapshots : after.snapshots = h.snapshots) (engine : ∀ k, after.engine = some k → h.engine = some k)
    (held : ∀ k, restarted after.control = some k → after.engine = some k) : Sound after where
  exact := snapshots ▸ sound.exact
  none empty := snapshots ▸ sound.none (pumps ▸ empty)
  last p pump length found := by
    rw [pumps] at length found
    obtain ⟨⟨e, here, up, down⟩, upSum, downSum, upLe, downLe⟩ := sound.last p pump length found
    obtain ⟨e', here', sameUp, sameDown⟩ := keeps.marks pump.engine e here
    exact ⟨⟨e', here', sameUp.trans up, sameDown.trans down⟩, snapshots ▸ upSum, snapshots ▸ downSum,
      Nat.le_trans upLe grows.1, Nat.le_trans downLe grows.2⟩
  armed k e' p here found timer := by
    obtain ⟨e, old, armed⟩ := keeps.timers k e' p found timer
    rw [pumps]
    exact sound.armed k e p (engine k here) old armed
  held := held
  alone := by
    rw [handlers, pumps]
    rcases sound.alone with empty | ⟨handler, single, last, fits⟩
    · exact .inl empty
    · exact .inr ⟨handler, single, last, fits.grows grows⟩

/-- The deltas so far add up to nothing while nothing has been counted. -/
theorem Sound.zero {h : Host} (sound : Sound h) (up : upCount h.core = 0) (down : downCount h.core = 0) :
    (h.snapshots.map Snapshot.upDelta).sum = 0 ∧ (h.snapshots.map Snapshot.downDelta).sum = 0 := by
  cases length : h.pumps.length with
  | zero =>
    rw [sound.none (List.length_eq_zero_iff.mp length)]
    exact ⟨rfl, rfl⟩
  | succ p =>
    have inside : p < h.pumps.length := by omega
    have tally := sound.last p _ length.symm (List.getElem?_eq_getElem inside)
    have upLe := tally.up
    have downLe := tally.down
    rw [tally.upSum, tally.downSum]
    omega

/-- A pump is started while nothing has been counted. -/
theorem Sound.pump {h : Host} (sound : Sound h) {k : Nat} {e : Engine} (inside : k < h.engines.length)
    (up : upCount h.core = 0) (down : downCount h.core = 0) (still : h.handlers = []) :
    Sound { startTrafficPump h k e with engine := some k, control := .idle } := by
  obtain ⟨upSum, downSum⟩ := sound.zero up down
  constructor
  · exact sound.exact
  · intro empty
    simp [startTrafficPump] at empty
  · intro p pump length found
    simp only [startTrafficPump, List.length_append, List.length_singleton, Nat.add_right_cancel_iff] at length
    subst length
    simp only [startTrafficPump, List.getElem?_concat_length, Option.some.injEq] at found
    subst found
    refine ⟨⟨_, List.getElem?_set_self inside, ?_, ?_⟩, ?_, ?_, Nat.le_refl _, Nat.le_refl _⟩
    · simp [up]
    · simp [down]
    · simpa [startTrafficPump, up] using upSum
    · simpa [startTrafficPump, down] using downSum
  · intro j e' p here found timer
    cases here
    simp only [startTrafficPump, List.getElem?_set_self inside, Option.some.injEq] at found
    subst found
    cases timer
    simp [startTrafficPump]
  · intro _ here
    cases here
  · exact .inl still

theorem Sound.fire {h after : Host} (sound : Sound h) (taken : fire h = some after) : Sound after := by
  simp only [Traffic.fire, Option.bind_eq_bind, Option.bind_eq_some_iff, Option.ite_none_left_eq_some] at taken
  obtain ⟨k, here, e, found, p, timer, free, same⟩ := taken
  have last := sound.armed k e p here found timer
  have still : h.handlers = [] := by
    rcases sound.alone with empty | ⟨handler, single, latest, _⟩
    · exact empty
    · refine absurd ?_ free
      rw [single]
      simp
      omega
  rw [still] at same
  rw [← Option.some.inj same]
  exact ⟨sound.exact, sound.none, fun p pump length here => (sound.last p pump length here).handlers _,
    sound.armed, sound.held, .inr ⟨⟨p, .nothing⟩, rfl, last, trivial⟩⟩

/-- The handler that is under way has read one more counter. -/
theorem Sound.reads {h : Host} (sound : Sound h) {p : Nat} {reading : Reading} (last : p + 1 = h.pumps.length)
    (fits : reading.Fits h.core) : Sound { h with handlers := [⟨p, reading⟩] } :=
  ⟨sound.exact, sound.none, fun p pump length here => (sound.last p pump length here).handlers _,
    sound.armed, sound.held, .inr ⟨⟨p, reading⟩, rfl, last, fits⟩⟩

theorem sum_snapshot {snapshots : List Snapshot} {delta : Snapshot → Int} {s : Snapshot} {before now : Int}
    (total : (snapshots.map delta).sum = before) (counted : delta s = now - before) :
    ((snapshots ++ [s]).map delta).sum = now := by
  rw [List.map_append, List.sum_append, total, List.map_singleton, List.sum_singleton, counted]
  omega

/-- The snapshot: its deltas are counted from what the engine remembers. -/
theorem Sound.emits {h after : Host} (sound : Sound h) {handler : Handler} {up down : Nat}
    (single : h.handlers = [handler]) (last : handler.pump + 1 = h.pumps.length)
    (fits : (Reading.both up down).Fits h.core)
    (taken : emitTrafficSnapshot h 0 handler.pump up down = some after) : Sound after := by
  simp only [emitTrafficSnapshot, Option.bind_eq_bind, Option.bind_eq_some_iff, Option.pure_def,
    Option.some.injEq] at taken
  obtain ⟨pump, found, e, engine, rfl⟩ := taken
  obtain ⟨⟨e', engine', lastUp, lastDown⟩, upSum, downSum, _, _⟩ := sound.last _ pump last found
  obtain rfl : e = e' := Option.some.inj (engine.symm.trans engine')
  obtain ⟨⟨upLe, upFits⟩, downLe, downFits⟩ := fits
  have upExact := (counter_exact up).mpr upFits
  have downExact := (counter_exact down).mpr downFits
  constructor
  · intro s member
    rcases List.mem_append.mp member with old | new
    · exact sound.exact s old
    · rw [List.mem_singleton.mp new, upExact, downExact, lastUp, lastDown]
      exact ⟨rfl, rfl⟩
  · intro empty
    simp only [List.set_eq_nil_iff] at empty
    rw [empty] at last
    cases last
  · intro p pump' length here
    simp only [List.length_set] at length
    obtain rfl : p = handler.pump := by omega
    simp only [List.getElem?_set_self (List.getElem?_eq_some_iff.mp found).1, Option.some.injEq] at here
    subst here
    refine ⟨⟨_, List.getElem?_set_self (List.getElem?_eq_some_iff.mp engine).1, upExact, downExact⟩, ?_, ?_,
      upLe, downLe⟩
    · exact sum_snapshot upSum (by rw [upExact, lastUp])
    · exact sum_snapshot downSum (by rw [downExact, lastDown])
  · intro k e' p here armed timer
    rw [List.length_set]
    rcases getElem?_set_cases engine armed with ⟨rfl, rfl⟩ | ⟨_, old⟩
    · exact sound.armed _ e p here engine timer
    · exact sound.armed k e' p here old timer
  · exact sound.held
  · rw [single]
    exact .inl rfl

theorem Sound.handle {h after : Host} (sound : Sound h) {index : Nat}
    (limits : upCount h.core < counterLimit ∧ downCount h.core < counterLimit)
    (taken : handle h index = some after) : Sound after := by
  simp only [Traffic.handle, Option.bind_eq_bind, Option.bind_eq_some_iff] at taken
  obtain ⟨handler, found, taken⟩ := taken
  rcases sound.alone with empty | ⟨only, single, last, fits⟩
  · rw [empty] at found
    simp at found
  · have inside := (List.getElem?_eq_some_iff.mp found).1
    rw [single, List.length_singleton, Nat.lt_one_iff] at inside
    subst inside
    rw [single] at found
    obtain rfl : only = handler := by simpa using found
    cases reading : only.reading with
    | nothing =>
      rw [reading] at taken
      simp only [single, List.set_cons_zero, Option.some.injEq] at taken
      exact taken ▸ sound.reads last ⟨Nat.le_refl _, limits.1⟩
    | up up =>
      rw [reading] at taken fits
      simp only [single, List.set_cons_zero, Option.some.injEq] at taken
      exact taken ▸ sound.reads last ⟨fits, Nat.le_refl _, limits.2⟩
    | both up down =>
      rw [reading] at taken fits
      exact sound.emits single last fits taken

theorem Sound.proceed {h after : Host} (sound : Sound h) (ok : fresh h .proceed = true)
    (taken : proceed h = some after) : Sound after := by
  have same := Grows.refl h.core
  have quiet : ∀ k ok, (h.control = .starting k ok ∨ h.control = .restarting k ok) → ok = true →
      upCount h.core = 0 ∧ downCount h.core = 0 ∧ h.handlers = [] := by
    intro k ok' here started
    rcases here with here | here <;>
      simpa [fresh, startsPump, here, started, and_assoc] using ok
  unfold Traffic.proceed at taken
  cases control : h.control with
  | idle => simp [control] at taken
  | starting k ok' =>
    simp only [control, Option.map_eq_some_iff] at taken
    obtain ⟨e, found, rfl⟩ := taken
    split
    · next started =>
      obtain ⟨up, down, still⟩ := quiet k ok' (.inl control) started
      exact sound.pump (List.getElem?_eq_some_iff.mp found).1 up down still
    · exact sound.frame (keeps_set found rfl rfl fun _ timer => timer) same rfl rfl rfl (fun _ here => here) nofun
  | halting k config =>
    simp only [control, Option.bind_eq_some_iff, Option.map_eq_some_iff] at taken
    obtain ⟨e, found, core, issued, rfl⟩ := taken
    refine sound.frame (keeps_set found rfl rfl fun _ timer => timer) (issue_grows issued) rfl rfl rfl
      (fun _ here => here) ?_
    intro j here
    exact sound.held j (by rw [control]; exact here)
  | restarting k ok' =>
    simp only [control, Option.map_eq_some_iff] at taken
    obtain ⟨e, found, rfl⟩ := taken
    split
    · next started =>
      obtain ⟨up, down, still⟩ := quiet k ok' (.inr control) started
      have current : h.engine = some k := sound.held k (by rw [control]; rfl)
      have pumped := @Sound.pump h sound k { e with tunStarted := true }
        (List.getElem?_eq_some_iff.mp found).1 up down still
      rw [← current] at pumped
      exact pumped
    · exact sound.frame (keeps_set found rfl rfl fun _ timer => timer) same rfl rfl rfl nofun nofun
  | closing =>
    simp only [control, Option.some.injEq] at taken
    exact taken ▸ sound.frame (.refl _) same rfl rfl rfl (fun _ here => here) nofun

/-- The provider lets go of an engine that has stopped. -/
theorem Sound.forgets {h : Host} (sound : Sound h) (idle : h.control = .idle) :
    Sound { h with engine := .none } := by
  refine sound.frame (.refl _) (.refl _) rfl rfl rfl nofun ?_
  intro k same
  rw [idle] at same
  cases same

theorem haltCore_grows {c d : Core} {tunStarted : Bool} (taken : haltCore c tunStarted = some d) : Grows c d := by
  unfold haltCore at taken
  split at taken
  · exact issue_grows taken
  · exact Option.some.inj taken ▸ .refl _

/-- One step keeps the books of the pumps. -/
theorem step_sound {prims : Primitives} {h after : Host} {event : Event} (sound : Sound h)
    (ok : fresh h event = true) (taken : step prims h event = some after) : Sound after := by
  have idle : ∀ {found : Option Host}, (if h.control.isIdle then found else none) = some after →
      h.control = .idle ∧ found = some after := by
    intro found taken
    split at taken
    · next still =>
      refine ⟨?_, taken⟩
      cases control : h.control <;> simp_all [Control.isIdle]
    · cases taken
  cases event with
  | startEngine config =>
    obtain ⟨control, taken⟩ := idle taken
    simp only [Traffic.startEngine, Option.map_eq_some_iff] at taken
    obtain ⟨core, issued, rfl⟩ := taken
    exact sound.frame (keeps_append _) (issue_grows issued) rfl rfl rfl (fun _ here => here) nofun
  | restartEngine config =>
    obtain ⟨control, taken⟩ := idle taken
    unfold Traffic.restartEngine at taken
    split at taken
    · exact Option.some.inj taken ▸ sound
    · next k here =>
      obtain ⟨e, found, taken⟩ := Option.bind_eq_some_iff.mp taken
      split at taken
      · obtain ⟨core, halted, rfl⟩ := Option.map_eq_some_iff.mp taken
        refine sound.frame (keeps_set found rfl rfl nofun) (haltCore_grows halted) rfl rfl rfl (fun _ here => here) ?_
        intro j same
        cases same
        exact here
      · exact Option.some.inj taken ▸ sound.forgets control
  | stopEngine =>
    obtain ⟨control, taken⟩ := idle taken
    unfold Traffic.stopEngine at taken
    split at taken
    · exact Option.some.inj taken ▸ sound
    · next k here =>
      obtain ⟨e, found, taken⟩ := Option.bind_eq_some_iff.mp taken
      split at taken
      · obtain ⟨core, halted, rfl⟩ := Option.map_eq_some_iff.mp taken
        exact sound.frame (keeps_set found rfl rfl nofun) (haltCore_grows halted) rfl rfl rfl nofun nofun
      · exact Option.some.inj taken ▸ sound.forgets control
  | proceed =>
    simp only [step] at taken
    split at taken
    · exact sound.proceed ok taken
    · cases taken
  | core event =>
    simp only [step] at taken
    split at taken
    · obtain ⟨core, moved, rfl⟩ := Option.map_eq_some_iff.mp taken
      exact sound.frame (.refl _) (coreStep_grows moved) rfl rfl rfl (fun _ here => here) sound.held
    · cases taken
  | fire => exact sound.fire taken
  | handle index => exact sound.handle (of_decide_eq_true ok) taken

/-- Sound books count every byte once. -/
theorem Sound.countedOnce {h : Host} (sound : Sound h) : CountedOnce h := by
  have sums : (h.snapshots.map Snapshot.upDelta).sum ≤ upCount h.core ∧
      (h.snapshots.map Snapshot.downDelta).sum ≤ downCount h.core := by
    cases length : h.pumps.length with
    | zero =>
      rw [sound.none (List.length_eq_zero_iff.mp length)]
      exact ⟨Int.natCast_nonneg _, Int.natCast_nonneg _⟩
    | succ p =>
      have tally := sound.last p _ length.symm (List.getElem?_eq_getElem (show p < h.pumps.length by omega))
      rw [tally.upSum, tally.downSum]
      exact ⟨Int.ofNat_le.mpr tally.up, Int.ofNat_le.mpr tally.down⟩
  exact ⟨sound.exact, sums.1, sums.2⟩

end Soundness

/-- In every run in which pumps are started only before anything was counted, with no handler under way,
each snapshot's deltas are what the core counted since the one before. -/
theorem bytes_counted_once (prims : Primitives) (h : Host)
    (reached : Reaches (step prims) (fun h event => fresh h event = true) initial h) : CountedOnce h :=
  (reached.invariant Sound (fun _ _ _ sound ok taken => step_sound sound ok taken) initial_sound).countedOnce

def sampleConfig : Config := ⟨none, sampleCarrier⟩

/-- The timer fires and its handler runs. -/
def sampleTick : List Event := [.fire, .handle 0, .handle 0, .handle 0]

/-- A first engine, one packet sent, and a snapshot. -/
def sampleStart : List Event :=
  [.startEngine (some sampleConfig), .core .control, .core .control, .proceed,
    .core (.ingest (sampleQueryPacket 7 5353)), .core (.trySend 0)] ++
    List.replicate 3 (.core (.session 0 (.ingress sampleNonce true))) ++ sampleTick

/-- The engine is restarted in place. -/
def sampleRestart : List Event :=
  .restartEngine (some sampleConfig) :: List.replicate 5 (.core .control) ++
    [.core (.session 0 (.cancel .egress)), .core .control, .proceed, .core .control, .core .control, .proceed]

/-- The deltas of the snapshots for the upload, and what was counted for each. -/
def uploads (h : Host) : List (Int × Int) := h.snapshots.map fun s => (s.upDelta, s.upCounted)

theorem sample_counted_once : ∃ h, Reaches (step samplePrims) (fun h event => fresh h event = true) initial h ∧
    uploads h = [(45, 45)] ∧ CountedOnce h := by
  have ran : (testedRun (step samplePrims) fresh initial sampleStart).map uploads = some [(45, 45)] := by
    decide +kernel
  obtain ⟨h, ran, deltas⟩ := Option.map_eq_some_iff.mp ran
  have reached := reaches_of_testedRun ran
  exact ⟨h, reached, deltas, bytes_counted_once samplePrims h reached⟩

/-- The first snapshot after a restart counts the earlier bytes again. -/
theorem bytes_counted_twice : ∃ h, Reachable (step samplePrims) initial h ∧
    uploads h = [(45, 45), (45, 0)] ∧ upCount h.core = 45 ∧ ¬CountedOnce h := by
  have ran : (run (step samplePrims) initial (sampleStart ++ sampleRestart ++ sampleTick)).map
      (fun h => (uploads h, upCount h.core)) = some ([(45, 45), (45, 0)], 45) := by
    decide +kernel
  obtain ⟨h, ran, both⟩ := Option.map_eq_some_iff.mp ran
  obtain ⟨deltas, counted⟩ := Prod.mk.inj both
  refine ⟨h, reachable_of_run ran, deltas, counted, ?_⟩
  intro once
  have all : ∀ s ∈ uploads h, s.1 = s.2 := by
    intro s member
    obtain ⟨snapshot, inside, rfl⟩ := List.mem_map.mp member
    exact (once.exact snapshot inside).1
  rw [deltas] at all
  exact absurd (all (45, 0) (by simp)) (by decide)

end ShadowVpn.Tunnel.Traffic
