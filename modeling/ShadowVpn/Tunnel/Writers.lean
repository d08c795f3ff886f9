import ShadowVpn.Engine.Phases

/-! The writer contexts of `SVTunnelEngine.m`: an engine retains its writer, hands it to the core for the
callback of each of its sessions, and releases it when it is stopped or could not be started, while the
tasks of all sessions go on. -/

namespace ShadowVpn.Tunnel.Writers
open ShadowVpn.Lib.Transition ShadowVpn.Wire.Crypto ShadowVpn.Engine.Phases
open ShadowVpn.Engine.Datagram (samplePrims sampleWire)
open ShadowVpn.Engine.DataPlane (sampleCarrier)
open ShadowVpn.Engine.Lifecycle (Core Config coreStep issue)

/-- The fields of an `SVTunnelEngine` that its writer depends on. -/
structure Engine where
  started : Bool
  tunStarted : Bool
  writerCtx : Option Nat

/-- The block on the engine-control queue, at its call of the core: `svpn_tun_start` for a new engine or
for one that is restarted, with the number of sessions before it, or `svpn_tun_stop_blocking`, where a
restart has the configuration of its start still before it. -/
inductive Control where
  | idle
  | starting (k sessions : Nat)
  | reopening (k : Nat) (config : Option Config)
  | restarting (k sessions : Nat)
  | stopping (k : Nat)

/-- The engine a block works on. -/
def Control.on : Control → Option Nat
  | .idle => none
  | .starting k _ | .reopening k _ | .restarting k _ | .stopping k => some k

/-- The extension process. `writers` counts for each writer how often it was released, `contexts` has the
context that each session was started with; `uses` only records, for each call of the callback, whether
its context was good. -/
structure Host where
  core : Core
  writers : List Nat
  contexts : List (Option Nat)
  engines : List Engine
  engine : Option Nat
  control : Control
  uses : List Bool

def initial : Host where
  core := ShadowVpn.Engine.Lifecycle.initial
  writers := []
  contexts := []
  engines := []
  engine := none
  control := .idle
  uses := []

/-- What can happen next. The configuration is what a start comes to; the core does not call itself. -/
inductive Event where
  | startTunnel (config : Option Config)
  | stopTunnel
  | restart (config : Option Config)
  | proceed
  | core (event : ShadowVpn.Engine.Lifecycle.Event)

/-- Whether the context of a session is still good: NULL, of which the callback makes nothing, or a writer
that was not released. -/
def good (h : Host) (session : Nat) : Bool :=
  match h.contexts[session]? with
  | some none => true
  | some (some w) => h.writers[w]? == some 0
  | none => false

/-- `svpn_tun_start` up to its first step that others can see. -/
def tunStart (h : Host) (ctx : Option Nat) (config : Option Config) : Option Host :=
  (issue h.core (.start config)).map fun c =>
    { h with core := c
             contexts := h.contexts ++ List.replicate (c.sessions.length - h.core.sessions.length) ctx }

def releaseWriterContext (h : Host) (k : Nat) : Host :=
  match (h.engines[k]?).bind Engine.writerCtx with
  | none => h
  | some w =>
    { h with writers := h.writers.modify w (· + 1)
             engines := h.engines.modify k fun e => { e with writerCtx := none } }

/-- `startRuntimeWithError:` of an engine that is restarted. -/
def startRuntime (h : Host) (k : Nat) (config : Option Config) : Option Host :=
  tunStart { h with engines := h.engines.modify k fun e => { e with tunStarted := false }
                    control := .restarting k h.core.sessions.length }
    ((h.engines[k]?).bind Engine.writerCtx) config

/-- A new engine that has retained a new writer, at its call of the core. -/
def newEngine (h : Host) : Host :=
  { h with writers := h.writers ++ [0]
           engines := h.engines ++ [⟨true, false, some h.writers.length⟩]
           control := .starting h.engines.length h.core.sessions.length }

/-- `startWithError:` of a new engine, up to the call of the core. -/
def startTunnel (h : Host) (config : Option Config) : Option Host :=
  match h.control with
  | .idle => tunStart (newEngine h) (some h.writers.length) config
  | _ => none

/-- `stop` of the engine the provider lets go of, up to the call of the core. -/
def stopTunnel (h : Host) : Option Host :=
  match h.control, h.engine with
  | .idle, none => some h
  | .idle, some k => (h.engines[k]?).bind fun e =>
    if e.started then
      let stopped := { h with engines := h.engines.modify k fun e => { e with started := false }, engine := none }
      if e.tunStarted then
        (issue h.core .stopBlocking).map fun c => { stopped with core := c, control := .stopping k }
      else some (releaseWriterContext stopped k)
    else some { h with engine := none }
  | _, _ => none

/-- `restartWithError:` of the engine the provider holds, up to the call of the core. -/
def restart (h : Host) (config : Option Config) : Option Host :=
  match h.control, h.engine with
  | .idle, none => some h
  | .idle, some k => (h.engines[k]?).bind fun e =>
    if e.started then
      if e.tunStarted then
        (issue h.core .stopBlocking).map fun c => { h with core := c, control := .reopening k config }
      else startRuntime h k config
    else some { h with engine := none }
  | _, _ => none

/-- The core has returned to the block; a start that adds no session has failed. -/
def proceed (h : Host) : Option Host :=
  match h.core.control with
  | .idle =>
    match h.control with
    | .idle => none
    | .starting k sessions =>
      if h.core.sessions.length = sessions then
        let freed := releaseWriterContext h k
        some { freed with engines := freed.engines.modify k fun e => { e with started := false }
                          control := .idle }
      else
        some { h with engines := h.engines.modify k fun e => { e with tunStarted := true }
                      engine := some k
                      control := .idle }
    | .reopening k config => startRuntime h k config
    | .restarting k sessions =>
      if h.core.sessions.length = sessions then
        let freed := releaseWriterContext h k
        some { freed with engines := freed.engines.modify k fun e => { e with started := false }
                          engine := none
                          control := .idle }
      else some { h with engines := h.engines.modify k fun e => { e with tunStarted := true }, control := .idle }
    | .stopping k =>
      let freed := releaseWriterContext h k
      some { freed with engines := freed.engines.modify k fun e => { e with tunStarted := false }
                        control := .idle }
  | _ => none

section Steps

variable (prims : Primitives)

/-- A step of the core; what it hands to the writer finds the contexts as they are. -/
def coreMoves (h : Host) (event : ShadowVpn.Engine.Lifecycle.Event) : Option Host :=
  if isCall event then none
  else
    (coreStep prims h.core event).map fun c =>
      { h with core := c
               uses := h.uses ++ (c.writes.drop h.core.writes.length).map fun write => good h write.session }

def step (h : Host) (event : Event) : Option Host :=
  match event with
  | .startTunnel config => startTunnel h config
  | .stopTunnel => stopTunnel h
  | .restart config => restart h config
  | .proceed => proceed h
  | .core event => coreMoves prims h event

end Steps

/-- When `stop_blocking` returns, each ingress task with an interceptor is suspended or at its end. -/
def answersOut (h : Host) (event : Event) : Bool :=
  match event with
  | .core event => calm h.core event
  | _ => true

/-- The engine of the provider, or the one that the block on the queue works on. -/
def held (h : Host) (k : Nat) : Prop := h.engine = some k ∨ h.control.on = some k

/-- A writer was released once, or not at all and an engine in use has it. -/
def Counted (h : Host) : Prop :=
  ∀ (w : Nat) count, h.writers[w]? = some count → count = 1 ∨
    count = 0 ∧ ∃ k e, held h k ∧ h.engines[k]? = some e ∧ e.writerCtx = some w

/-- The callback has never been given a writer that was released, and no writer is released twice or
forgotten. -/
structure Spared (h : Host) : Prop where
  uses : ∀ use ∈ h.uses, use = true
  counted : Counted h

/-! ### The invariant -/

/-- A session that can still reach its writer has this one. -/
def Lives (h : Host) (w : Nat) : Prop :=
  ∀ j, h.core.released ≤ j → j < h.core.sessions.length → h.contexts[j]? = some (some w)

/-- The engine has the writer, which was not released. -/
structure Has (h : Host) (k : Nat) (e : Engine) (w : Nat) : Prop where
  engine : h.engines[k]? = some e
  writer : e.writerCtx = some w
  fresh : h.writers[w]? = some 0

/-- Between two blocks. -/
def Rests (h : Host) : Prop :=
  match h.engine with
  | none => Closed h.core
  | some k => Opened h.core ∧ ∃ w, Has h k ⟨true, true, some w⟩ w ∧ Lives h w

/-- A start has added its session. -/
structure Begun (h : Host) (sessions w : Nat) : Prop where
  added : h.core.sessions.length ≠ sessions
  phase : Opening h.core ∨ Opened h.core
  lives : Lives h w

/-- What the block on the control queue is in the middle of. -/
def Busy (h : Host) : Prop :=
  match h.control with
  | .idle => Rests h
  | .starting k sessions => ∃ w, Has h k ⟨true, false, some w⟩ w ∧
      (h.core.sessions.length = sessions ∧ Rests h ∧ h.engine ≠ some k ∨ h.engine = none ∧ Begun h sessions w)
  | .reopening k _ => h.engine = some k ∧
      ∃ w, Has h k ⟨true, true, some w⟩ w ∧ (Closing h.core ∨ Closed h.core) ∧ Lives h w
  | .restarting k sessions => h.engine = some k ∧ ∃ w, Has h k ⟨true, false, some w⟩ w ∧
      (h.core.sessions.length = sessions ∧ Closed h.core ∨ Begun h sessions w)
  | .stopping k => h.engine = none ∧
      ∃ w, Has h k ⟨false, true, some w⟩ w ∧ (Closing h.core ∨ Closed h.core) ∧ Lives h w

structure Sound (h : Host) : Prop where
  tidy : Tidy h.core
  contexts : h.contexts.length = h.core.sessions.length
  busy : Busy h
  apart : ∀ (j k : Nat) (one two : Engine) w, h.engines[j]? = some one → h.engines[k]? = some two →
    one.writerCtx = some w → two.writerCtx = some w → j = k
  known : ∀ (k : Nat) (e : Engine) w, h.engines[k]? = some e → e.writerCtx = some w → w < h.writers.length
  spared : Spared h

theorem initial_sound : Sound initial where
  tidy := initial_tidy
  contexts := rfl
  busy := ⟨rfl, rfl, rfl, rfl⟩
  apart := by
    intro j k one two w found
    cases found
  known := by
    intro k e w found
    cases found
  spared := by
    refine ⟨fun use member => absurd member List.not_mem_nil, ?_⟩
    intro w count found
    cases found

/-! ### Steps of the core -/

section Core

variable {h : Host} {c : Core}

theorem Lives.follows {w : Nat} (lives : Lives h w) (follows : Follows h.core c) (uses : List Bool) :
    Lives { h with core := c, uses := uses } w := by
  intro j low high
  exact lives j (Nat.le_trans follows.released low) (Nat.lt_of_lt_of_eq high follows.count)

theorem Rests.follows (rests : Rests h) (follows : Follows h.core c) (uses : List Bool) :
    Rests { h with core := c, uses := uses } := by
  unfold Rests at rests ⊢
  cases engine : h.engine with
  | none =>
    rw [engine] at rests
    exact follows.closed rests
  | some k =>
    rw [engine] at rests
    obtain ⟨opened, w, has, lives⟩ := rests
    exact ⟨follows.opened opened, w, ⟨has.engine, has.writer, has.fresh⟩, lives.follows follows uses⟩

theorem Begun.follows {sessions w : Nat} (begun : Begun h sessions w) (follows : Follows h.core c)
    (uses : List Bool) : Begun { h with core := c, uses := uses } sessions w where
  added := follows.count ▸ begun.added
  phase := by
    rcases begun.phase with opening | opened
    · exact follows.opening opening
    · exact .inr (follows.opened opened)
  lives := begun.lives.follows follows uses

theorem ending_follows (ending : Closing h.core ∨ Closed h.core) (follows : Follows h.core c) :
    Closing c ∨ Closed c := by
  rcases ending with closing | closed
  · exact follows.closing closing
  · exact .inr (follows.closed closed)

theorem Busy.follows (busy : Busy h) (follows : Follows h.core c) (uses : List Bool) :
    Busy { h with core := c, uses := uses } := by
  obtain ⟨core, writers, contexts, engines, engine, control, past⟩ := h
  cases control with
  | idle => exact Rests.follows busy follows uses
  | starting k sessions =>
    obtain ⟨w, has, stage⟩ := busy
    refine ⟨w, ⟨has.engine, has.writer, has.fresh⟩, ?_⟩
    rcases stage with ⟨same, rests, other⟩ | ⟨none, begun⟩
    · exact .inl ⟨follows.count.trans same, rests.follows follows uses, other⟩
    · exact .inr ⟨none, begun.follows follows uses⟩
  | reopening k config =>
    obtain ⟨engine, w, has, ending, lives⟩ := busy
    exact ⟨engine, w, ⟨has.engine, has.writer, has.fresh⟩, ending_follows ending follows,
      lives.follows follows uses⟩
  | restarting k sessions =>
    obtain ⟨engine, w, has, stage⟩ := busy
    refine ⟨engine, w, ⟨has.engine, has.writer, has.fresh⟩, ?_⟩
    rcases stage with ⟨same, closed⟩ | begun
    · exact .inl ⟨follows.count.trans same, follows.closed closed⟩
    · exact .inr (begun.follows follows uses)
  | stopping k =>
    obtain ⟨engine, w, has, ending, lives⟩ := busy
    exact ⟨engine, w, ⟨has.engine, has.writer, has.fresh⟩, ending_follows ending follows,
      lives.follows follows uses⟩

theorem Lives.good {j w : Nat} (lives : Lives h w) (fresh : h.writers[w]? = some 0) (low : h.core.released ≤ j)
    (high : j < h.core.sessions.length) : good h j = true := by
  rw [Writers.good, lives j low high]
  exact beq_iff_eq.mpr fresh

/-- No session is left that could reach a writer. -/
theorem Closed.good {j : Nat} (closed : Closed h.core) (low : h.core.released ≤ j)
    (high : j < h.core.sessions.length) : good h j = true :=
  absurd (closed.count ▸ high) (Nat.not_lt.mpr low)

theorem Rests.good {j : Nat} (rests : Rests h) (low : h.core.released ≤ j) (high : j < h.core.sessions.length) :
    good h j = true := by
  unfold Rests at rests
  cases engine : h.engine with
  | none =>
    rw [engine] at rests
    exact Closed.good rests low high
  | some k =>
    rw [engine] at rests
    obtain ⟨_, w, has, lives⟩ := rests
    exact lives.good has.fresh low high

/-- Whichever block is on the queue, a session that can still reach its writer finds it good. -/
theorem Busy.good {j : Nat} (busy : Busy h) (low : h.core.released ≤ j) (high : j < h.core.sessions.length) :
    good h j = true := by
  unfold Busy at busy
  cases control : h.control with
  | idle =>
    rw [control] at busy
    exact Rests.good busy low high
  | starting k sessions =>
    rw [control] at busy
    obtain ⟨w, has, stage⟩ := busy
    rcases stage with ⟨_, rests, _⟩ | ⟨_, begun⟩
    · exact rests.good low high
    · exact begun.lives.good has.fresh low high
  | reopening k config =>
    rw [control] at busy
    obtain ⟨_, w, has, _, lives⟩ := busy
    exact lives.good has.fresh low high
  | restarting k sessions =>
    rw [control] at busy
    obtain ⟨_, w, has, stage⟩ := busy
    rcases stage with ⟨_, closed⟩ | begun
    · exact Closed.good closed low high
    · exact begun.lives.good has.fresh low high
  | stopping k =>
    rw [control] at busy
    obtain ⟨_, w, has, _, lives⟩ := busy
    exact lives.good has.fresh low high

theorem coreMoves_sound {prims : Primitives} {h after : Host} {event : ShadowVpn.Engine.Lifecycle.Event}
    (sound : Sound h) (ok : calm h.core event = true) (taken : coreMoves prims h event = some after) :
    Sound after := by
  unfold coreMoves at taken
  split at taken
  · cases taken
  · next own =>
    have own := Bool.eq_false_iff.mpr own
    obtain ⟨c, moved, rfl⟩ := Option.map_eq_some_iff.mp taken
    obtain ⟨tidy, follows⟩ := sound.tidy.step own ok moved
    obtain ⟨more, writes, fits⟩ := coreStep_writes own moved
    refine ⟨tidy, sound.contexts.trans follows.count.symm, sound.busy.follows follows _, sound.apart, sound.known,
      ⟨?_, sound.spared.counted⟩⟩
    intro use member
    rcases List.mem_append.mp member with old | new
    · exact sound.spared.uses use old
    · rw [writes, List.drop_left] at new
      obtain ⟨write, listed, rfl⟩ := List.mem_map.mp new
      obtain ⟨released, inside⟩ := fits write listed
      have late := tidy.safe.writes write (writes ▸ List.mem_append_right _ listed)
      exact sound.busy.good (released ▸ late) inside

end Core

/-! ### Steps of the blocks -/

/-- The engines have no writers but those they had. -/
def Within (engines others : List Engine) : Prop :=
  ∀ (k : Nat) (e : Engine) w, others[k]? = some e → e.writerCtx = some w →
    ∃ old, engines[k]? = some old ∧ old.writerCtx = some w

theorem within_modify {engines others : List Engine} (within : Within engines others) (k : Nat)
    (change : Engine → Engine) (keeps : ∀ (e : Engine) w, (change e).writerCtx = some w → e.writerCtx = some w) :
    Within engines (others.modify k change) := by
  intro j e w found has
  rw [List.getElem?_modify] at found
  obtain ⟨old, listed, rfl⟩ := Option.map_eq_some_iff.mp found
  split at has
  · exact within j old w listed (keeps old w has)
  · exact within j old w listed has

section Blocks

variable {h : Host}

theorem held_idle {j : Nat} (holds : held h j) (idle : h.control = .idle) : h.engine = some j := by
  rcases holds with provider | block
  · exact provider
  · rw [idle] at block
    cases block

theorem held_cases {j k : Nat} (holds : held h j) (on : h.control.on = some k) : h.engine = some j ∨ j = k := by
  rcases holds with provider | block
  · exact .inl provider
  · exact .inr (Option.some.inj (block.symm.trans on))

/-- What a block does to the engines keeps their writers apart. -/
theorem Sound.within {after : Host} (sound : Sound h) (within : Within h.engines after.engines)
    (length : after.writers.length = h.writers.length) (tidy : Tidy after.core)
    (contexts : after.contexts.length = after.core.sessions.length) (busy : Busy after) (spared : Spared after) :
    Sound after where
  tidy := tidy
  contexts := contexts
  busy := busy
  apart := by
    intro j k one two w first second has same
    obtain ⟨old, listed, had⟩ := within j one w first has
    obtain ⟨other, listed', had'⟩ := within k two w second same
    exact sound.apart j k old other w listed listed' had had'
  known := by
    intro k e w found has
    obtain ⟨old, listed, had⟩ := within k e w found has
    exact length ▸ sound.known k old w listed had
  spared := spared

theorem modify_found {engines : List Engine} {k : Nat} {e : Engine} (found : engines[k]? = some e)
    (change : Engine → Engine) : (engines.modify k change)[k]? = some (change e) := by
  rw [List.getElem?_modify, found]
  exact congrArg some (if_pos rfl)

theorem release_eq {k w : Nat} {e : Engine} (has : Has h k e w) : releaseWriterContext h k =
    { h with writers := h.writers.modify w (· + 1)
             engines := h.engines.modify k fun e => { e with writerCtx := none } } := by
  have found : (h.engines[k]?).bind Engine.writerCtx = some w := by
    rw [has.engine]
    exact has.writer
  rw [releaseWriterContext, found]

/-- A step that releases nothing. -/
theorem Spared.kept {after : Host} (spared : Spared h) (uses : after.uses = h.uses)
    (writers : after.writers = h.writers)
    (engines : ∀ (j : Nat) (e : Engine), h.engines[j]? = some e →
      ∃ new, after.engines[j]? = some new ∧ new.writerCtx = e.writerCtx)
    (keeps : ∀ j, held h j → held after j) : Spared after where
  uses := uses ▸ spared.uses
  counted := by
    intro w count found
    rw [writers] at found
    rcases spared.counted w count found with once | ⟨zero, j, e, holds, listed, has⟩
    · exact .inl once
    · obtain ⟨new, there, same⟩ := engines j e listed
      exact .inr ⟨zero, j, new, keeps j holds, there, same.trans has⟩

/-- The engine gives up its writer. -/
theorem Spared.release {after : Host} {k w : Nat} {e : Engine} (spared : Spared h) (has : Has h k e w)
    (uses : after.uses = h.uses) (writers : after.writers = h.writers.modify w (· + 1))
    (engines : ∀ j, j ≠ k → after.engines[j]? = h.engines[j]?)
    (keeps : ∀ j, j ≠ k → held h j → held after j) : Spared after where
  uses := uses ▸ spared.uses
  counted := by
    intro other count found
    rw [writers, List.getElem?_modify] at found
    obtain ⟨old, listed, rfl⟩ := Option.map_eq_some_iff.mp found
    by_cases same : w = other
    · subst same
      rw [if_pos rfl, Option.some.inj (listed.symm.trans has.fresh)]
      exact .inl rfl
    · rw [if_neg same]
      rcases spared.counted other old listed with once | ⟨zero, j, e', holds, there, owns⟩
      · exact .inl once
      · have elsewhere : j ≠ k := by
          rintro rfl
          obtain rfl := Option.some.inj (has.engine.symm.trans there)
          exact same (Option.some.inj (has.writer.symm.trans owns))
        exact .inr ⟨zero, j, e', keeps j elsewhere holds, (engines j elsewhere).trans there, owns⟩

/-- A start has failed, and nothing has changed, or the new session has the context. -/
theorem tunStart_cases {after : Host} {ctx : Option Nat} {config : Option Config} (tidy : Tidy h.core)
    (taken : tunStart h ctx config = some after) :
    after = h ∨ ∃ c, after = { h with core := c, contexts := h.contexts ++ [ctx] } ∧ Tidy c ∧ Closed h.core ∧
      Opening c ∧ c.released = h.core.released ∧ c.sessions.length = h.core.sessions.length + 1 := by
  obtain ⟨c, issued, rfl⟩ := Option.map_eq_some_iff.mp taken
  obtain ⟨next, failed | ⟨closed, opening, released, count⟩⟩ := tidy.start issued
  · left
    rw [failed, Nat.sub_self, List.replicate_zero, List.append_nil]
  · right
    refine ⟨c, ?_, next, closed, opening, released, count⟩
    rw [count, Nat.add_sub_cancel_left, List.replicate_one]

/-- The only session that is not joined is the new one. -/
theorem begun_of_start {after : Host} {c : Core} {w : Nat} (contexts : h.contexts.length = h.core.sessions.length)
    (closed : Closed h.core) (opening : Opening c) (released : c.released = h.core.released)
    (count : c.sessions.length = h.core.sessions.length + 1) (core : after.core = c)
    (more : after.contexts = h.contexts ++ [some w]) : Begun after h.core.sessions.length w where
  added := by rw [core, count]; exact Nat.succ_ne_self _
  phase := core ▸ .inl opening
  lives := by
    intro j low high
    rw [core] at low high
    have last : j = h.contexts.length := by
      have bound := closed.count
      omega
    rw [more, last, List.getElem?_concat_length]

theorem newEngine_has :
    Has (newEngine h) h.engines.length ⟨true, false, some h.writers.length⟩ h.writers.length where
  engine := List.getElem?_concat_length
  writer := rfl
  fresh := List.getElem?_concat_length

/-- The engines before a new one are as they were. -/
theorem newEngine_old {j : Nat} {e : Engine} (found : h.engines[j]? = some e) :
    (newEngine h).engines[j]? = some e :=
  (List.getElem?_append_left (List.getElem?_eq_some_iff.mp found).1).trans found

theorem newEngine_cases {j : Nat} {e : Engine} (found : (newEngine h).engines[j]? = some e) :
    h.engines[j]? = some e ∨ j = h.engines.length ∧ e = ⟨true, false, some h.writers.length⟩ := by
  rcases Nat.lt_trichotomy j h.engines.length with low | rfl | high
  · left
    exact (List.getElem?_append_left low).symm.trans found
  · right
    exact ⟨rfl, (Option.some.inj (List.getElem?_concat_length.symm.trans found)).symm⟩
  · have inside := (List.getElem?_eq_some_iff.mp found).1
    have length : (newEngine h).engines.length = h.engines.length + 1 := List.length_append
    omega

theorem newEngine_fresh {w : Nat} (fresh : h.writers[w]? = some 0) : (newEngine h).writers[w]? = some 0 :=
  (List.getElem?_append_left (List.getElem?_eq_some_iff.mp fresh).1).trans fresh

theorem Sound.newEngine (sound : Sound h) (idle : h.control = .idle) {after : Host}
    (engines : after.engines = (newEngine h).engines) (writers : after.writers = (newEngine h).writers)
    (uses : after.uses = h.uses) (engine : after.engine = h.engine)
    (control : after.control = (newEngine h).control)
    (tidy : Tidy after.core) (contexts : after.contexts.length = after.core.sessions.length) (busy : Busy after) :
    Sound after where
  tidy := tidy
  contexts := contexts
  busy := busy
  apart := by
    intro j k one two w first second has same
    rw [engines] at first second
    rcases newEngine_cases first with old | ⟨rfl, rfl⟩
    · have bound := sound.known j one w old has
      rcases newEngine_cases second with old' | ⟨rfl, rfl⟩
      · exact sound.apart j k one two w old old' has same
      · exact absurd (Option.some.inj same) (Nat.ne_of_gt bound)
    · rcases newEngine_cases second with old' | ⟨rfl, rfl⟩
      · have bound := sound.known k two w old' same
        exact absurd (Option.some.inj has) (Nat.ne_of_gt bound)
      · rfl
  known := by
    intro k e w found has
    rw [engines] at found
    rw [writers, Writers.newEngine, List.length_append]
    rcases newEngine_cases found with old | ⟨rfl, rfl⟩
    · exact Nat.lt_succ_of_lt (sound.known k e w old has)
    · exact Option.some.inj has ▸ Nat.lt_succ_self _
  spared := by
    refine ⟨uses ▸ sound.spared.uses, ?_⟩
    intro w count found
    rw [writers] at found
    by_cases new : w = h.writers.length
    · subst new
      obtain rfl := Option.some.inj (newEngine_has.fresh.symm.trans found)
      refine .inr ⟨rfl, h.engines.length, ⟨true, false, some h.writers.length⟩, .inr ?_, ?_, rfl⟩
      · rw [control]
        rfl
      · rw [engines]
        exact newEngine_has.engine
    · have inside := (List.getElem?_eq_some_iff.mp found).1
      have length : (Writers.newEngine h).writers.length = h.writers.length + 1 := List.length_append
      have old : h.writers[w]? = some count := by
        rw [← found]
        exact (List.getElem?_append_left (by omega)).symm
      rcases sound.spared.counted w count old with once | ⟨zero, j, e, holds, listed, has⟩
      · exact .inl once
      · have provider := engine.trans (held_idle holds idle)
        exact .inr ⟨zero, j, e, .inl provider, engines ▸ newEngine_old listed, has⟩

theorem Sound.rests (sound : Sound h) (idle : h.control = .idle) : Rests h := by
  have busy := sound.busy
  rw [Busy, idle] at busy
  exact busy

theorem Rests.serves {k : Nat} (rests : Rests h) (engine : h.engine = some k) :
    Opened h.core ∧ ∃ w, Has h k ⟨true, true, some w⟩ w ∧ Lives h w := by
  rw [Rests, engine] at rests
  exact rests

theorem startTunnel_sound {after : Host} {config : Option Config} (sound : Sound h)
    (taken : startTunnel h config = some after) : Sound after := by
  unfold startTunnel at taken
  split at taken
  · next idle =>
    have rests := sound.rests idle
    obtain rfl | ⟨c, rfl, tidy, closed, opening, released, count⟩ :=
      tunStart_cases (h := newEngine h) sound.tidy taken
    · apply sound.newEngine idle rfl rfl rfl rfl rfl sound.tidy sound.contexts
      refine ⟨h.writers.length, newEngine_has, .inl ⟨rfl, ?_, ?_⟩⟩
      · unfold Rests at rests ⊢
        change match h.engine with | none => _ | some k => _
        cases engine : h.engine with
        | none =>
          rw [engine] at rests
          exact rests
        | some k =>
          rw [engine] at rests
          obtain ⟨opened, w, has, lives⟩ := rests
          exact ⟨opened, w, ⟨newEngine_old has.engine, rfl, newEngine_fresh has.fresh⟩, lives⟩
      · intro same
        obtain ⟨_, w, has, _⟩ := rests.serves same
        exact absurd (List.getElem?_eq_some_iff.mp has.engine).1 (Nat.lt_irrefl _)
    · have more : (h.contexts ++ [some h.writers.length]).length = c.sessions.length := by
        rw [List.length_append, List.length_singleton, sound.contexts]
        exact count.symm
      refine sound.newEngine idle rfl rfl rfl rfl rfl tidy more ?_
      refine ⟨h.writers.length, ⟨newEngine_has.engine, rfl, newEngine_has.fresh⟩, .inr ⟨?_, ?_⟩⟩
      · change h.engine = none
        cases engine : h.engine with
        | none => rfl
        | some k => exact absurd (closed.slot.symm.trans (rests.serves engine).1.slot) nofun
      · exact begun_of_start sound.contexts closed opening released count rfl rfl
  · cases taken

theorem modify_keeps {engines : List Engine} (k : Nat) {change : Engine → Engine}
    (keeps : ∀ e, (change e).writerCtx = e.writerCtx) (j : Nat) (e : Engine) (found : engines[j]? = some e) :
    ∃ new, (engines.modify k change)[j]? = some new ∧ new.writerCtx = e.writerCtx := by
  rw [List.getElem?_modify, found]
  refine ⟨_, rfl, ?_⟩
  split
  · exact keeps e
  · rfl

/-- The writer stays with the sessions of a core that is being stopped. -/
theorem Lives.stop {c : Core} {after : Host} {w : Nat} (lives : Lives h w) (core : after.core = c)
    (contexts : after.contexts = h.contexts) (released : c.released = h.core.released)
    (count : c.sessions.length = h.core.sessions.length) : Lives after w := by
  intro j low high
  rw [core] at low high
  rw [contexts]
  exact lives j (released ▸ low) (count ▸ high)

theorem stopTunnel_sound {after : Host} (sound : Sound h) (taken : stopTunnel h = some after) : Sound after := by
  unfold stopTunnel at taken
  split at taken
  · exact Option.some.inj taken ▸ sound
  · next k idle engine =>
    obtain ⟨opened, w, has, lives⟩ := (sound.rests idle).serves engine
    rw [has.engine] at taken
    obtain ⟨c, issued, rfl⟩ := Option.map_eq_some_iff.mp taken
    obtain ⟨tidy, closing, released, count⟩ := sound.tidy.stop opened issued
    refine sound.within ?_ rfl tidy (sound.contexts.trans count.symm) ?_ ?_
    · exact within_modify (fun j e w found had => ⟨e, found, had⟩) k _ (fun e w had => had)
    · exact ⟨rfl, w, ⟨modify_found has.engine _, rfl, has.fresh⟩, .inl closing, lives.stop rfl rfl released count⟩
    · refine sound.spared.kept rfl rfl (modify_keeps k fun _ => rfl) ?_
      exact fun j holds => .inr (engine.symm.trans (held_idle holds idle))
  · cases taken

/-- A start of an engine that is restarted, at rest or after its stop. -/
theorem startRuntime_sound {after : Host} {k w : Nat} {e : Engine} {config : Option Config} (sound : Sound h)
    (closed : Closed h.core) (engine : h.engine = some k) (has : Has h k e w) (started : e.started = true)
    (others : ∀ j, h.control.on = some j → j = k) (taken : startRuntime h k config = some after) : Sound after := by
  have context : (h.engines[k]?).bind Engine.writerCtx = some w := by
    rw [has.engine]
    exact has.writer
  have shape : ({ e with tunStarted := false } : Engine) = ⟨true, false, some w⟩ := by
    rw [started, has.writer]
  have kept : Has { h with engines := h.engines.modify k fun e => { e with tunStarted := false }
                           control := .restarting k h.core.sessions.length } k ⟨true, false, some w⟩ w :=
    ⟨shape ▸ modify_found has.engine _, rfl, has.fresh⟩
  have spared : Spared { h with engines := h.engines.modify k fun e => { e with tunStarted := false }
                                control := .restarting k h.core.sessions.length } := by
    refine sound.spared.kept rfl rfl (modify_keeps k fun _ => rfl) ?_
    intro j holds
    rcases holds with provider | block
    · exact .inl provider
    · exact .inl (others j block ▸ engine)
  have within : Within h.engines (h.engines.modify k fun e => { e with tunStarted := false }) :=
    within_modify (fun j e w found had => ⟨e, found, had⟩) k _ (fun e w had => had)
  rw [startRuntime, context] at taken
  obtain rfl | ⟨c, rfl, tidy, _, opening, released, count⟩ := tunStart_cases (by exact sound.tidy) taken
  · exact sound.within within rfl sound.tidy sound.contexts ⟨engine, w, kept, .inl ⟨rfl, closed⟩⟩ spared
  · have more : (h.contexts ++ [some w]).length = c.sessions.length := by
      rw [List.length_append, List.length_singleton, sound.contexts]
      exact count.symm
    refine sound.within within rfl tidy more ⟨engine, w, ⟨kept.engine, rfl, kept.fresh⟩, .inr ?_⟩
      ⟨spared.uses, spared.counted⟩
    exact begun_of_start sound.contexts closed opening released count rfl rfl

theorem restart_sound {after : Host} {config : Option Config} (sound : Sound h)
    (taken : restart h config = some after) : Sound after := by
  unfold restart at taken
  split at taken
  · exact Option.some.inj taken ▸ sound
  · next k idle engine =>
    obtain ⟨opened, w, has, lives⟩ := (sound.rests idle).serves engine
    rw [has.engine] at taken
    obtain ⟨c, issued, rfl⟩ := Option.map_eq_some_iff.mp taken
    obtain ⟨tidy, closing, released, count⟩ := sound.tidy.stop opened issued
    refine sound.within ?_ rfl tidy (sound.contexts.trans count.symm) ?_ ?_
    · exact fun j e w found had => ⟨e, found, had⟩
    · exact ⟨engine, w, ⟨has.engine, rfl, has.fresh⟩, .inl closing, lives.stop rfl rfl released count⟩
    · refine sound.spared.kept rfl rfl (fun j e found => ⟨e, found, rfl⟩) ?_
      exact fun j holds => .inl (held_idle (h := h) holds idle)
  · cases taken

theorem Begun.opened {sessions w : Nat} (begun : Begun h sessions w) (idle : h.core.control = .idle) :
    Opened h.core := by
  rcases begun.phase with opening | opened
  · exact absurd idle opening.busy
  · exact opened

theorem closed_of_ending (ending : Closing h.core ∨ Closed h.core) (idle : h.core.control = .idle) :
    Closed h.core := by
  rcases ending with closing | closed
  · exact absurd idle closing.busy
  · exact closed

/-- An engine gives up its writer at the end of its block. -/
theorem Sound.release {after : Host} {k w : Nat} {e : Engine} {change : Engine → Engine} (sound : Sound h)
    (has : Has h k e w) (core : after.core = h.core) (contexts : after.contexts = h.contexts)
    (uses : after.uses = h.uses) (writers : after.writers = h.writers.modify w (· + 1))
    (engines : after.engines = (h.engines.modify k fun e => { e with writerCtx := none }).modify k change)
    (writer : ∀ e, (change e).writerCtx = e.writerCtx) (keeps : ∀ j, j ≠ k → held h j → held after j)
    (busy : Busy after) : Sound after := by
  have within : Within h.engines after.engines := by
    rw [engines]
    refine within_modify (within_modify (fun j e w found had => ⟨e, found, had⟩) k _ ?_) k _ ?_
    · exact fun e w had => nomatch had
    · exact fun e w had => (writer e).symm.trans had
  have length : after.writers.length = h.writers.length := by
    rw [writers, List.length_modify]
  refine sound.within within length (core ▸ sound.tidy) ?_ busy ?_
  · rw [contexts, core]
    exact sound.contexts
  · refine sound.spared.release has uses writers ?_ keeps
    intro j other
    rw [engines, List.getElem?_modify_ne _ _ other.symm, List.getElem?_modify_ne _ _ other.symm]

/-- The provider's engine keeps its writer when another engine gives up its own. -/
theorem Rests.release {after : Host} {k w : Nat} {e : Engine} (rests : Rests h) (sound : Sound h) (has : Has h k e w)
    (other : h.engine ≠ some k) (core : after.core = h.core) (contexts : after.contexts = h.contexts)
    (engine : after.engine = h.engine) (writers : after.writers = h.writers.modify w (· + 1))
    (engines : ∀ j, j ≠ k → after.engines[j]? = h.engines[j]?) : Rests after := by
  unfold Rests at rests ⊢
  rw [engine, core]
  cases held : h.engine with
  | none =>
    rw [held] at rests
    exact rests
  | some j =>
    rw [held] at rests other
    obtain ⟨opened, first, had, lives⟩ := rests
    have elsewhere : j ≠ k := fun equal => other (congrArg some equal)
    have apart : w ≠ first := by
      intro equal
      exact elsewhere (sound.apart j k _ e first had.engine has.engine rfl (equal ▸ has.writer))
    refine ⟨opened, first, ⟨?_, rfl, ?_⟩, ?_⟩
    · rw [engines j elsewhere]
      exact had.engine
    · rw [writers, List.getElem?_modify_ne _ _ apart]
      exact had.fresh
    · exact lives.stop core contexts rfl rfl

theorem starting_sound {after : Host} {k sessions : Nat} (sound : Sound h) (idle : h.core.control = .idle)
    (control : h.control = .starting k sessions) (taken : proceed h = some after) : Sound after := by
  have busy := sound.busy
  have on : h.control.on = some k := congrArg Control.on control
  rw [Busy, control] at busy
  simp only [proceed, idle, control] at taken
  obtain ⟨w, has, ⟨same, rests, other⟩ | ⟨absent, begun⟩⟩ := busy
  · rw [if_pos same, release_eq has] at taken
    obtain rfl := Option.some.inj taken
    refine sound.release has rfl rfl rfl rfl rfl (fun _ => rfl) ?_ ?_
    · exact fun j elsewhere holds => .inl ((held_cases holds on).resolve_right elsewhere)
    · change Rests _
      refine rests.release sound has other rfl rfl rfl rfl ?_
      intro j elsewhere
      dsimp only
      rw [List.getElem?_modify_ne _ _ elsewhere.symm, List.getElem?_modify_ne _ _ elsewhere.symm]
  · rw [if_neg begun.added] at taken
    obtain rfl := Option.some.inj taken
    refine sound.within ?_ rfl sound.tidy sound.contexts ?_ ?_
    · exact within_modify (fun j e w found had => ⟨e, found, had⟩) k _ (fun e w had => had)
    · exact ⟨begun.opened idle, w, ⟨modify_found has.engine _, rfl, has.fresh⟩, begun.lives⟩
    · refine sound.spared.kept rfl rfl (modify_keeps k fun _ => rfl) ?_
      intro j holds
      rcases held_cases holds on with provider | rfl
      · rw [absent] at provider
        cases provider
      · exact .inl rfl

theorem restarting_sound {after : Host} {k sessions : Nat} (sound : Sound h) (idle : h.core.control = .idle)
    (control : h.control = .restarting k sessions) (taken : proceed h = some after) : Sound after := by
  have busy := sound.busy
  rw [Busy, control] at busy
  simp only [proceed, idle, control] at taken
  obtain ⟨engine, w, has, stage⟩ := busy
  have only : ∀ j, held h j → j = k := by
    intro j holds
    rcases held_cases holds (congrArg Control.on control) with provider | same
    · exact Option.some.inj (provider.symm.trans engine)
    · exact same
  rcases stage with ⟨same, closed⟩ | begun
  · rw [if_pos same, release_eq has] at taken
    obtain rfl := Option.some.inj taken
    refine sound.release has rfl rfl rfl rfl rfl (fun _ => rfl) ?_ closed
    exact fun j elsewhere holds => absurd (only j holds) elsewhere
  · rw [if_neg begun.added] at taken
    obtain rfl := Option.some.inj taken
    refine sound.within ?_ rfl sound.tidy sound.contexts ?_ ?_
    · exact within_modify (fun j e w found had => ⟨e, found, had⟩) k _ (fun e w had => had)
    · change Rests _
      rw [Rests]
      dsimp only
      rw [engine]
      exact ⟨begun.opened idle, w, ⟨modify_found has.engine _, rfl, has.fresh⟩, begun.lives⟩
    · refine sound.spared.kept rfl rfl (modify_keeps k fun _ => rfl) ?_
      exact fun j holds => .inl (only j holds ▸ engine)

theorem stopping_sound {after : Host} {k : Nat} (sound : Sound h) (idle : h.core.control = .idle)
    (control : h.control = .stopping k) (taken : proceed h = some after) : Sound after := by
  have busy := sound.busy
  rw [Busy, control] at busy
  simp only [proceed, idle, control] at taken
  obtain ⟨absent, w, has, ending, lives⟩ := busy
  rw [release_eq has] at taken
  obtain rfl := Option.some.inj taken
  refine sound.release has rfl rfl rfl rfl rfl (fun _ => rfl) ?_ ?_
  · intro j elsewhere holds
    exact .inl ((held_cases holds (congrArg Control.on control)).resolve_right elsewhere)
  · change Rests _
    rw [Rests]
    dsimp only
    rw [absent]
    exact closed_of_ending ending idle

theorem proceed_sound {after : Host} (sound : Sound h) (taken : proceed h = some after) : Sound after := by
  have idle : h.core.control = .idle := by
    by_contra busy
    unfold proceed at taken
    split at taken
    · next idle => exact busy idle
    · cases taken
  cases control : h.control with
  | idle =>
    simp only [proceed, idle, control] at taken
    cases taken
  | starting k sessions => exact starting_sound sound idle control taken
  | reopening k config =>
    have busy := sound.busy
    rw [Busy, control] at busy
    simp only [proceed, idle, control] at taken
    obtain ⟨engine, w, has, ending, lives⟩ := busy
    refine startRuntime_sound sound (closed_of_ending ending idle) engine has rfl ?_ taken
    intro j block
    rw [control] at block
    exact (Option.some.inj block).symm
  | restarting k sessions => exact restarting_sound sound idle control taken
  | stopping k => exact stopping_sound sound idle control taken

end Blocks

theorem step_sound {prims : Primitives} {h after : Host} {event : Event} (sound : Sound h)
    (ok : answersOut h event = true) (taken : step prims h event = some after) : Sound after := by
  cases event with
  | startTunnel config => exact startTunnel_sound sound taken
  | stopTunnel => exact stopTunnel_sound sound taken
  | restart config => exact restart_sound sound taken
  | proceed => exact proceed_sound sound taken
  | core event => exact coreMoves_sound sound ok taken

/-- The way `SVTunnelEngine` uses the core keeps its writers safe: in every run in which no ingress task of
a session with an interceptor is running, that is in the middle of a poll, when `stop_blocking` returns, each
call of the callback finds its writer, and each writer is released once, by the engine that has it. -/
theorem writers_spared (prims : Primitives) (h : Host)
    (reached : Reaches (step prims) (fun h event => answersOut h event = true) initial h) : Spared h :=
  (reached.invariant Sound (fun _ _ _ sound ok taken => step_sound sound ok taken) initial_sound).spared

/-- A packet comes through the tunnel before the engine is restarted, and the restart fails. -/
def sampleEvents : List Event :=
  [.startTunnel (some ⟨none, sampleCarrier⟩), .core .control, .core .control, .proceed,
    .core (.session 0 (.tunnelArrives ⟨sampleWire, none⟩)), .core (.session 0 (.egress true)),
    .core (.session 0 (.egress true)), .core (.session 0 (.egress true)), .core (.session 0 (.egress true)),
    .core (.session 0 (.park .egress)), .restart none] ++ List.replicate 5 (.core .control) ++
  [.core (.session 0 (.cancel .egress)), .core .control, .proceed, .proceed]

theorem sample_spared : ∃ h, Reaches (step samplePrims) (fun h event => answersOut h event = true) initial h ∧
    h.uses = [true] ∧ h.writers = [1] ∧ Spared h := by
  have ran : (testedRun (step samplePrims) answersOut initial sampleEvents).map
      (fun h => (h.uses, h.writers)) = some ([true], [1]) := by
    decide +kernel
  obtain ⟨h, ran, both⟩ := Option.map_eq_some_iff.mp ran
  obtain ⟨uses, writers⟩ := Prod.mk.inj both
  have reached := reaches_of_testedRun ran
  exact ⟨h, reached, uses, writers, writers_spared samplePrims h reached⟩

end ShadowVpn.Tunnel.Writers
