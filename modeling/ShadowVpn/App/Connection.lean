import ShadowVpn.Lib.Text
import ShadowVpn.Lib.Transition

/-! `VpnManager.swift`: the connection view of the app. All of it runs on the main actor, so a step is
what runs between two suspensions; what a step reads from outside comes with the event. -/

namespace ShadowVpn.App.Connection
open ShadowVpn.Lib.Text ShadowVpn.Lib.Transition

/-- Seconds since 1970. -/
abbrev Date := Int

inductive VpnStage where
  | disconnected
  | connecting
  | connected
  | error
  deriving DecidableEq

def VpnStage.isActive (stage : VpnStage) : Bool := stage == .connecting || stage == .connected

inductive NEVPNStatus where
  | invalid
  | disconnected
  | connecting
  | connected
  | reasserting
  | disconnecting
  | unknown
  deriving DecidableEq

/-- The extension's snapshot in `state.json`. -/
structure VpnState where
  stage : VpnStage
  message : Option Chars
  startedAt : Option Date
  deriving DecidableEq

structure TrafficSnapshot where
  uploadBytes : Int
  downloadBytes : Int
  uploadRate : Int
  downloadRate : Int
  timestamp : Date
  footprintMB : Int
  deriving DecidableEq

/-- `TrafficSnapshot.empty` is made once, and carries the time at which it was made. -/
def TrafficSnapshot.empty (made : Date) : TrafficSnapshot := ⟨0, 0, 0, 0, made, 0⟩

/-- What the user interface observes. -/
structure View where
  stage : VpnStage
  lastError : Option Chars
  connectedDate : Option Date
  traffic : TrafficSnapshot
  deriving DecidableEq

/-- What a step reads: the live status of the connection, the shared files, the clock, whether
on-demand is enabled, and how the awaited or throwing call ended (with the text of its error; for the
loading of the preferences, with whether a manager was there). -/
structure World where
  status : NEVPNStatus
  state : Option VpnState
  traffic : Option TrafficSnapshot
  now : Date
  onDemand : Bool
  result : Except Chars Bool

def map : NEVPNStatus → VpnStage
  | .invalid | .disconnected => .disconnected
  | .connecting | .reasserting | .disconnecting => .connecting
  | .connected => .connected
  | .unknown => .disconnected

def canStopTunnel : NEVPNStatus → Bool
  | .connected | .connecting | .reasserting | .disconnecting => true
  | .invalid | .disconnected => false
  | .unknown => false

section Handlers

variable (made : Date) (w : World) (v : View)

def applyConnectionStatus (status : NEVPNStatus) : View :=
  match map status with
  | .connected =>
    if v.stage = .connected then { v with stage := .connected }
    else { v with stage := .connected
                  connectedDate := some (((w.state.bind VpnState.startedAt)).getD w.now) }
  | .disconnected => { v with stage := .disconnected, connectedDate := none, traffic := .empty made }
  | .error => { v with stage := .error, connectedDate := none, traffic := .empty made }
  | .connecting => { v with stage := .connecting }

/-- `if let msg = state.message, !msg.isEmpty { lastError = msg }`. -/
def noted (message : Option Chars) : View :=
  match message with
  | some text => if text.isEmpty then v else { v with lastError := some text }
  | none => v

def applyExtensionError (state : VpnState) : View :=
  noted { v with stage := .error, connectedDate := none, traffic := .empty made } state.message

def applyDisconnectedBaseline : View :=
  { v with stage := .disconnected, connectedDate := none, traffic := .empty made }

/-- Clearing a stale `state.json` changes the file alone. -/
def reconcileExtensionState (state : VpnState) (status : NEVPNStatus) : View :=
  match status with
  | .invalid | .disconnected =>
    if state.stage = .error then applyExtensionError made v state else applyConnectionStatus made w v status
  | .connected =>
    noted { v with stage := .connected
                   connectedDate := some ((state.startedAt.or v.connectedDate).getD w.now) } state.message
  | .connecting | .reasserting =>
    if state.stage = .error then applyExtensionError made v state else { v with stage := .connecting }
  | .disconnecting =>
    if state.stage = .disconnected then applyDisconnectedBaseline made v
    else if state.stage = .error then applyExtensionError made v state
    else { v with stage := .connecting }
  | .unknown => applyConnectionStatus made w v status

def applyExtensionStateWithoutConnection (state : VpnState) : View :=
  let v := noted { v with stage := state.stage, connectedDate := state.startedAt } state.message
  if state.stage = .disconnected ∨ state.stage = .error then { v with connectedDate := none } else v

def applyExtensionState (manager : Bool) (state : VpnState) : View :=
  if manager then reconcileExtensionState made w v state w.status
  else applyExtensionStateWithoutConnection v state

def refreshTraffic : View :=
  match w.traffic with
  | some snapshot => { v with traffic := snapshot }
  | none => v

/-- The `catch` blocks of `refresh` and `connect`. -/
def failed (message : Chars) : View := { v with lastError := some message, stage := .error }

/-- The synchronous part of `startObserving`, before the observers are added. -/
def observed (manager : Bool) : View :=
  let v := refreshTraffic w v
  match w.state with
  | some state => applyExtensionState made w v manager state
  | none => v

end Handlers

/-- What goes on after a refresh. -/
inductive After where
  | done
  | connect
  | update
  deriving DecidableEq

/-- A suspended call at its `await`, or a task that a notification put on the main actor. -/
inductive Task where
  | loading (after : After)
  | saving (after : After)
  | reloading (after : After)
  | connectSaving
  | connectReloading
  | updateSaving
  | updateReloading
  | disconnecting (status : NEVPNStatus)
  | statusChange (status : NEVPNStatus)
  | traffic
  | state
  deriving DecidableEq

structure VpnManager where
  view : View
  manager : Bool
  observing : Bool
  tasks : List Task

inductive Call where
  | clearError
  | startObserving
  | refresh
  | updateConfiguration
  | connect
  | disconnect
  | statusDidChange
  | trafficPosted
  | statePosted
  | resume (index : Nat)

/-- A call or a notification, or a task that goes on, with what it reads. -/
structure Event where
  call : Call
  world : World

def initial (made : Date) : VpnManager :=
  ⟨⟨.disconnected, none, none, .empty made⟩, false, false, []⟩

section Steps

variable (made : Date)

def push (m : VpnManager) (task : Task) : VpnManager := { m with tasks := m.tasks ++ [task] }

def goOn (m : VpnManager) : After → VpnManager
  | .done => m
  | .connect => if m.manager then push m .connectSaving else m
  | .update => if m.manager then push m .updateSaving else m

def attach (m : VpnManager) (w : World) : VpnManager :=
  { m with manager := true, view := applyConnectionStatus made w m.view w.status }

/-- A task that was taken from the list goes on to its next suspension or to its end. -/
def resume (m : VpnManager) (w : World) : Task → VpnManager
  | .loading after =>
    match w.result with
    | .error message => goOn { m with view := failed m.view message } after
    | .ok true => goOn (attach made m w) after
    | .ok false => push m (.saving after)
  | .saving after =>
    match w.result with
    | .error message => goOn { m with view := failed m.view message } after
    | .ok _ => push m (.reloading after)
  | .reloading after =>
    match w.result with
    | .error message => goOn { m with view := failed m.view message } after
    | .ok _ => goOn (attach made m w) after
  | .connectSaving =>
    match w.result with
    | .error message => { m with view := failed m.view message }
    | .ok _ => push m .connectReloading
  | .connectReloading =>
    -- an error is the one of the reloading or of `startVPNTunnel`
    match w.result with
    | .error message => { m with view := failed m.view message }
    | .ok _ => m
  | .updateSaving =>
    match w.result with
    | .error message => { m with view := { m.view with lastError := some message } }
    | .ok _ => push m .updateReloading
  | .updateReloading =>
    match w.result with
    | .error message => { m with view := { m.view with lastError := some message } }
    | .ok _ => m
  | .disconnecting status =>
    if canStopTunnel status then m else { m with view := applyConnectionStatus made w m.view status }
  | .statusChange status =>
    let message := if status = .disconnected then w.state.bind VpnState.message else none
    { m with view := applyConnectionStatus made w (noted m.view message) status }
  | .traffic => { m with view := refreshTraffic w m.view }
  | .state =>
    match w.state with
    | some state => { m with view := applyExtensionState made w m.view m.manager state }
    | none => m

def step (m : VpnManager) (event : Event) : Option VpnManager :=
  let w := event.world
  match event.call with
  | .clearError => some { m with view := { m.view with lastError := none } }
  | .startObserving => some { m with view := observed made w m.view m.manager, observing := true }
  | .refresh => some (push m (.loading .done))
  | .updateConfiguration => some (if m.manager then push m .updateSaving else push m (.loading .update))
  | .connect =>
    let m := { m with view := { m.view with lastError := none } }
    some (if m.manager then push m .connectSaving else push m (.loading .connect))
  | .disconnect =>
    if m.manager then
      if w.onDemand then some (push m (.disconnecting w.status))
      else some (resume made m w (.disconnecting w.status))
    else some { m with view := applyDisconnectedBaseline made m.view }
  | .statusDidChange => if m.manager then some (push m (.statusChange w.status)) else none
  | .trafficPosted => if m.observing then some (push m .traffic) else none
  | .statePosted => if m.observing then some (push m .state) else none
  | .resume index => do
    let task ← m.tasks[index]?
    some (resume made { m with tasks := m.tasks.eraseIdx index } w task)

/-! When a step leaves the view consistent. -/

/-- A connecting status finds no start time. -/
def statusCalm (v : View) (status : NEVPNStatus) : Bool := map status != .connecting || v.connectedDate.isNone

/-- A failed call finds a view without start time and traffic. -/
def failureCalm (v : View) : Bool := v.connectedDate.isNone && v.traffic == .empty made

/-- Traffic is read while connecting or connected. -/
def trafficCalm (v : View) (w : World) : Bool :=
  w.traffic.all fun snapshot => v.stage.isActive || snapshot == .empty made

/-- A snapshot of the extension does not leave a start time behind or, where no manager is attached,
bring one along or leave traffic behind. -/
def stateCalm (v : View) (w : World) (manager : Bool) (state : VpnState) : Bool :=
  if manager then
    match w.status with
    | .connecting | .reasserting => state.stage == .error || v.connectedDate.isNone
    | .disconnecting => state.stage == .disconnected || state.stage == .error || v.connectedDate.isNone
    | _ => true
  else
    match state.stage with
    | .connected => true
    | .connecting => state.startedAt.isNone
    | .disconnected | .error => v.traffic == .empty made

def resumeCalm (v : View) (w : World) (manager : Bool) : Task → Bool
  | .loading _ =>
    match w.result with
    | .error _ => failureCalm made v
    | .ok found => !found || statusCalm v w.status
  | .reloading _ =>
    match w.result with
    | .error _ => failureCalm made v
    | .ok _ => statusCalm v w.status
  | .saving _ | .connectSaving | .connectReloading =>
    match w.result with
    | .error _ => failureCalm made v
    | .ok _ => true
  | .statusChange status => statusCalm v status
  | .traffic => trafficCalm made v w
  | .state => w.state.all (stateCalm made v w manager)
  | .updateSaving | .updateReloading | .disconnecting _ => true

def calm (m : VpnManager) (event : Event) : Bool :=
  match event.call with
  | .startObserving =>
    match event.world.state with
    | some state => stateCalm made (refreshTraffic event.world m.view) event.world m.manager state
    | none => trafficCalm made m.view event.world
  | .resume index => (m.tasks[index]?).all (resumeCalm made m.view event.world m.manager)
  | _ => true

end Steps

/-- The start time is there only while connected, and no traffic is shown without a connection. -/
structure Consistent (made : Date) (v : View) : Prop where
  date : v.connectedDate.isSome = true → v.stage = .connected
  traffic : v.stage = .disconnected ∨ v.stage = .error → v.traffic = .empty made

section Handlers

variable {made : Date}

theorem consistent_iff (v : View) : Consistent made v ↔
    (v.connectedDate.isSome = true → v.stage = .connected) ∧
      (v.stage = .disconnected ∨ v.stage = .error → v.traffic = .empty made) :=
  ⟨fun c => ⟨c.date, c.traffic⟩, fun c => ⟨c.1, c.2⟩⟩

@[simp] theorem noted_stage (v : View) (message : Option Chars) : (noted v message).stage = v.stage := by
  unfold noted
  split
  · split <;> rfl
  · rfl

@[simp] theorem noted_date (v : View) (message : Option Chars) :
    (noted v message).connectedDate = v.connectedDate := by
  unfold noted
  split
  · split <;> rfl
  · rfl

@[simp] theorem noted_traffic (v : View) (message : Option Chars) : (noted v message).traffic = v.traffic := by
  unfold noted
  split
  · split <;> rfl
  · rfl

theorem applyConnectionStatus_consistent (w : World) (v : View) (status : NEVPNStatus) :
    Consistent made (applyConnectionStatus made w v status) ↔ statusCalm v status = true := by
  unfold applyConnectionStatus statusCalm
  cases map status with
  | connected =>
    dsimp only
    split <;> simp [consistent_iff]
  | connecting => simp [consistent_iff]
  | disconnected => simp [consistent_iff]
  | error => simp [consistent_iff]

theorem applyExtensionError_consistent (v : View) (state : VpnState) :
    Consistent made (applyExtensionError made v state) := by
  simp [consistent_iff, applyExtensionError]

theorem failed_consistent (v : View) (message : Chars) :
    Consistent made (failed v message) ↔ failureCalm made v = true := by
  simp [consistent_iff, failed, failureCalm]

theorem connecting_consistent (v : View) :
    Consistent made { v with stage := .connecting } ↔ v.connectedDate.isNone = true := by
  simp [consistent_iff]

theorem reconcileExtensionState_consistent (w : World) (v : View) (state : VpnState) :
    Consistent made (reconcileExtensionState made w v state w.status) ↔
      stateCalm made v w true state = true := by
  have settled (status : NEVPNStatus) (down : map status = .disconnected) :
      Consistent made (applyConnectionStatus made w v status) :=
    (applyConnectionStatus_consistent w v status).mpr (by simp [statusCalm, down])
  have failing : Consistent made (applyExtensionError made v state) := applyExtensionError_consistent v state
  unfold reconcileExtensionState stateCalm
  cases w.status with
  | invalid | disconnected =>
    dsimp only
    split
    · exact iff_of_true failing rfl
    · exact iff_of_true (settled _ rfl) rfl
  | connected => simp [consistent_iff]
  | connecting | reasserting =>
    dsimp only
    split
    · next error => exact iff_of_true failing (by simp [error])
    · next other => rw [connecting_consistent]; simp [other]
  | disconnecting =>
    dsimp only
    split
    · next down => exact iff_of_true (by simp [consistent_iff, applyDisconnectedBaseline]) (by simp [down])
    · next up =>
      split
      · next error => exact iff_of_true failing (by simp [error])
      · next other => rw [connecting_consistent]; simp [up, other]
  | unknown => exact iff_of_true (settled _ rfl) rfl

theorem applyExtensionState_consistent (w : World) (v : View) (manager : Bool) (state : VpnState) :
    Consistent made (applyExtensionState made w v manager state) ↔ stateCalm made v w manager state = true := by
  cases manager with
  | true => exact reconcileExtensionState_consistent w v state
  | false =>
    unfold applyExtensionState applyExtensionStateWithoutConnection stateCalm
    cases stage : state.stage with
    | disconnected => simp [consistent_iff]
    | error => simp [consistent_iff]
    | connecting => simp [consistent_iff]
    | connected => simp [consistent_iff]

theorem refreshTraffic_consistent (w : World) (v : View) (consistent : Consistent made v) :
    Consistent made (refreshTraffic w v) ↔ trafficCalm made v w = true := by
  unfold refreshTraffic trafficCalm
  cases w.traffic with
  | none => exact iff_of_true consistent rfl
  | some snapshot =>
    have date := consistent.date
    cases stage : v.stage <;> simp_all [consistent_iff, VpnStage.isActive]

end Handlers

section Steps

variable {made : Date}

@[simp] theorem goOn_view (m : VpnManager) (after : After) : (goOn m after).view = m.view := by
  cases after with
  | done => rfl
  | connect | update =>
    dsimp only [goOn]
    split <;> rfl

theorem resume_consistent (m : VpnManager) (w : World) (task : Task) (consistent : Consistent made m.view) :
    Consistent made (resume made m w task).view ↔ resumeCalm made m.view w m.manager task = true := by
  have remark (message : Option Chars) : Consistent made { m.view with lastError := message } :=
    ⟨consistent.date, consistent.traffic⟩
  cases task with
  | loading after =>
    dsimp only [resume, resumeCalm]
    cases w.result with
    | error message => simp [failed_consistent]
    | ok found =>
      cases found with
      | true => simp [attach, applyConnectionStatus_consistent]
      | false => exact iff_of_true consistent rfl
  | saving after =>
    dsimp only [resume, resumeCalm]
    cases w.result with
    | error message => simp [failed_consistent]
    | ok _ => exact iff_of_true consistent rfl
  | reloading after =>
    dsimp only [resume, resumeCalm]
    cases w.result with
    | error message => simp [failed_consistent]
    | ok _ => simp [attach, applyConnectionStatus_consistent]
  | connectSaving | connectReloading =>
    dsimp only [resume, resumeCalm]
    cases w.result with
    | error message => exact failed_consistent _ _
    | ok _ => exact iff_of_true consistent rfl
  | updateSaving | updateReloading =>
    dsimp only [resume, resumeCalm]
    cases w.result with
    | error message => exact iff_of_true (remark _) rfl
    | ok _ => exact iff_of_true consistent rfl
  | disconnecting status =>
    dsimp only [resume, resumeCalm]
    split
    · exact iff_of_true consistent rfl
    · next idle =>
      refine iff_of_true ((applyConnectionStatus_consistent w m.view status).mpr ?_) rfl
      cases status <;> first | rfl | exact absurd rfl idle
  | statusChange status =>
    dsimp only [resume, resumeCalm]
    simp [applyConnectionStatus_consistent, statusCalm]
  | traffic => exact refreshTraffic_consistent w m.view consistent
  | state =>
    dsimp only [resume, resumeCalm]
    cases w.state with
    | none => exact iff_of_true consistent rfl
    | some state => exact applyExtensionState_consistent w m.view m.manager state

/-- From a consistent view, a step leads to a consistent view exactly if it is calm. -/
theorem step_consistent {m n : VpnManager} {event : Event} (consistent : Consistent made m.view)
    (taken : step made m event = some n) : Consistent made n.view ↔ calm made m event = true := by
  obtain ⟨call, w⟩ := event
  have remark (message : Option Chars) : Consistent made { m.view with lastError := message } :=
    ⟨consistent.date, consistent.traffic⟩
  cases call with
  | clearError =>
    rw [← Option.some.inj taken]
    exact iff_of_true (remark none) rfl
  | startObserving =>
    rw [← Option.some.inj taken]
    unfold calm observed
    cases w.state with
    | none => exact refreshTraffic_consistent w m.view consistent
    | some state => exact applyExtensionState_consistent w _ m.manager state
  | refresh =>
    rw [← Option.some.inj taken]
    exact iff_of_true consistent rfl
  | updateConfiguration =>
    rw [← Option.some.inj taken]
    split <;> exact iff_of_true consistent rfl
  | connect =>
    rw [← Option.some.inj taken]
    dsimp only
    split <;> exact iff_of_true (remark none) rfl
  | disconnect =>
    simp only [step] at taken
    split at taken
    · split at taken
      · rw [← Option.some.inj taken]
        exact iff_of_true consistent rfl
      · rw [← Option.some.inj taken]
        exact resume_consistent m w (.disconnecting w.status) consistent
    · rw [← Option.some.inj taken]
      exact iff_of_true (by simp [consistent_iff, applyDisconnectedBaseline]) rfl
  | statusDidChange | trafficPosted | statePosted =>
    simp only [step] at taken
    split at taken
    · rw [← Option.some.inj taken]
      exact iff_of_true consistent rfl
    · cases taken
  | resume index =>
    simp only [step, Option.bind_eq_bind, Option.bind_eq_some_iff] at taken
    obtain ⟨task, found, same⟩ := taken
    rw [← Option.some.inj same]
    dsimp only [calm]
    rw [found]
    exact resume_consistent _ w task consistent

end Steps

/-- After calm steps the view is consistent, and the next step keeps it so exactly if it is calm. -/
theorem view_consistent (made : Date) (m : VpnManager)
    (reached : Reaches (step made) (fun m event => calm made m event = true) (initial made) m) :
    Consistent made m.view ∧ ∀ event n, step made m event = some n →
      (Consistent made n.view ↔ calm made m event = true) := by
  have consistent : Consistent made m.view := reached.invariant (fun m => Consistent made m.view)
    (fun _ _ _ consistent ok taken => (step_consistent consistent taken).mpr ok)
    ⟨by simp [initial], fun _ => rfl⟩
  exact ⟨consistent, fun _ _ taken => step_consistent consistent taken⟩

/-- A step at 200 s that finds the connection in this status, started at 100 s. -/
def at200 (call : Call) (status : NEVPNStatus) : Event where
  call := call
  world := ⟨status, some ⟨.connected, none, some 100⟩, some ⟨7, 9, 0, 0, 150, 20⟩, 200, false, .ok true⟩

/-- The app is launched into a live tunnel. -/
def sampleLaunch : List Event := [at200 .refresh .connected, at200 (.resume 0) .connected]

theorem sample_view_consistent : ∃ m, Reaches (step 0) (fun m event => calm 0 m event = true) (initial 0) m ∧
    m.view.stage = .disconnected ∧ Consistent 0 m.view := by
  have ran : (testedRun (step 0) (calm 0) (initial 0) (sampleLaunch ++ [at200 .startObserving .connected,
      at200 .statusDidChange .disconnected, at200 (.resume 0) .disconnected])).map
      (fun m => m.view.stage) = some .disconnected := by
    decide
  obtain ⟨m, ran, stage⟩ := Option.map_eq_some_iff.mp ran
  have reached := reaches_of_testedRun ran
  exact ⟨m, reached, stage, (view_consistent 0 m reached).1⟩

/-- The tunnel reasserts: the stage is connecting and the start time stays. -/
theorem reasserting_keeps_date : ∃ m, Reachable (step 0) (initial 0) m ∧ ¬Consistent 0 m.view := by
  have ran : (run (step 0) (initial 0) (sampleLaunch ++ [at200 .statusDidChange .reasserting,
      at200 (.resume 0) .reasserting])).map (fun m => (m.view.stage, m.view.connectedDate)) =
      some (.connecting, some 100) := by
    decide
  obtain ⟨m, ran, both⟩ := Option.map_eq_some_iff.mp ran
  obtain ⟨stage, date⟩ := Prod.mk.inj both
  refine ⟨m, reachable_of_run ran, ?_⟩
  intro consistent
  have connected := consistent.date (by rw [date]; rfl)
  rw [stage] at connected
  cases connected

end ShadowVpn.App.Connection
