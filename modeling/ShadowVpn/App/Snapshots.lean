import ShadowVpn.App.Connection
import ShadowVpn.Lib.Json
import ShadowVpn.Lib.Nudge

/-! `state.json` and `traffic.json`: what the extension writes with `NSJSONSerialization` and the app
reads with `JSONDecoder`, over the Darwin notifications that tell the app to read. -/

namespace ShadowVpn.App.Snapshots
open ShadowVpn.Lib.Text ShadowVpn.Lib.Json ShadowVpn.Lib.Transition ShadowVpn.Lib.Histories ShadowVpn.Lib.Nudge
open ShadowVpn.App.Connection (VpnStage)

/-- Seconds since 1970 as they stand in the file. -/
structure Seconds where
  mantissa : Int
  places : Nat
  deriving DecidableEq

/-- What a file holds; nothing when it is missing or is no JSON. -/
abbrev File := Option Value

section State

/-- `VpnState` with all its fields. -/
structure VpnState where
  stage : VpnStage
  profileID : Option Chars
  profileName : Option Chars
  message : Option Chars
  startedAt : Option Seconds
  deriving DecidableEq

def rawValue : VpnStage → Chars
  | .disconnected => "disconnected".toList
  | .connecting => "connecting".toList
  | .connected => "connected".toList
  | .error => "error".toList

/-- `VpnStage(rawValue:)`. -/
def stageNamed (text : Chars) : Option VpnStage :=
  [VpnStage.disconnected, .connecting, .connected, .error].find? fun stage => rawValue stage = text

def asStage (value : Value) : Option VpnStage := (asString value).bind stageNamed

/-- A `Date` decoded with `.secondsSince1970`. -/
def asSeconds : Value → Option Seconds
  | .number value => some ⟨value, 0⟩
  | .decimal mantissa places => some ⟨mantissa, places⟩
  | _ => none

def Seconds.json (time : Seconds) : Value :=
  if time.places = 0 then .number time.mantissa else .decimal time.mantissa time.places

def decodeState (value : Value) : Option VpnState := do
  let fields ← asFields value
  let stage ← decodeField asStage fields "stage"
  let profileID ← decodeIfPresent asString fields "profileID"
  let profileName ← decodeIfPresent asString fields "profileName"
  let message ← decodeIfPresent asString fields "message"
  let startedAt ← decodeIfPresent asSeconds fields "startedAt"
  return ⟨stage, profileID, profileName, message, startedAt⟩

/-- `SharedStore.readState`. -/
def readState (file : File) : Option VpnState := file.bind decodeState

/-- `SVSharedStore.readState`, or an empty dictionary. -/
def readDict (file : File) : Fields := (file.bind asFields).getD []

def remove (fields : Fields) (key : String) : Fields := fields.filter fun entry => entry.1 != key

/-- `if (value) state[key] = value; else [state removeObjectForKey:key];`. -/
def assign (fields : Fields) (key : String) (value : Option Value) : Fields :=
  match value with
  | some value => put fields key value
  | none => remove fields key

/-- A call of the provider's `writeState:errorMessage:`, with the provider's fields and the clock. -/
structure Writing where
  stage : VpnStage
  errorMessage : Option Chars
  profileID : Option Chars
  profileName : Option Chars
  now : Seconds
  deriving DecidableEq

/-- The dictionary that is written: the one that was read, with the fields of this call. -/
def writeState (old : Fields) (w : Writing) : Fields :=
  let state := put old "stage" (.string (rawValue w.stage))
  let state := assign state "profileID" (w.profileID.map Value.string)
  let state := assign state "profileName" (w.profileName.map Value.string)
  let state := assign state "message" (w.errorMessage.map Value.string)
  assign state "startedAt" (if w.stage = .connected then some w.now.json else none)

/-- `JSONEncoder` leaves out what is nil. -/
def encodeState (state : VpnState) : Value :=
  let fields := [("stage", Value.string (rawValue state.stage))]
  let fields := assign fields "profileID" (state.profileID.map Value.string)
  let fields := assign fields "profileName" (state.profileName.map Value.string)
  let fields := assign fields "message" (state.message.map Value.string)
  .object (assign fields "startedAt" (state.startedAt.map Seconds.json))

def disconnected : VpnState := ⟨.disconnected, none, none, none, none⟩

/-- The writers of `state.json`: the provider, and the app's `clearStaleActiveExtensionState`. -/
inductive StateJob where
  | provider (w : Writing)
  | clearStale
  deriving DecidableEq

def StateJob.prepare (job : StateJob) (file : File) : Option File :=
  match job with
  | .provider w => some (some (.object (writeState (readDict file) w)))
  | .clearStale =>
    match readState file with
    | some state => if state.stage.isActive then some (some (encodeState disconnected)) else none
    | none => none

/-- The state that a job means. -/
def StateJob.state : StateJob → VpnState
  | .provider w =>
    ⟨w.stage, w.profileID, w.profileName, w.errorMessage, if w.stage = .connected then some w.now else none⟩
  | .clearStale => disconnected

theorem stageNamed_rawValue (stage : VpnStage) : stageNamed (rawValue stage) = some stage := by
  cases stage with
  | disconnected => rfl
  | connecting => rfl
  | connected => rfl
  | error => rfl

theorem asSeconds_json (time : Seconds) : asSeconds time.json = some time := by
  unfold Seconds.json
  split
  · next whole =>
    rw [asSeconds, ← whole]
  · rfl

theorem lookup_remove (fields : Fields) (key : String) : (remove fields key).lookup key = none := by
  rw [List.lookup_eq_none_iff]
  intro entry member
  have other := (List.mem_filter.mp member).2
  rw [bne_iff_ne] at other
  exact bne_iff_ne.mpr (Ne.symm other)

@[simp] theorem lookup_assign (fields : Fields) (key : String) (value : Option Value) :
    (assign fields key value).lookup key = value := by
  cases value with
  | none => exact lookup_remove fields key
  | some value => exact lookup_put fields key value

@[simp] theorem lookup_assign_other (fields : Fields) {key other : String} (value : Option Value)
    (differ : (other == key) = false) : (assign fields key value).lookup other = fields.lookup other := by
  cases value with
  | none => exact lookup_filter fields differ
  | some value => exact lookup_put_other fields value differ

/-- An optional field that is assigned is read back, and a removed one is read as missing. -/
theorem decodeIfPresent_lookup {α : Type} {decode : Value → Option α} {fields : Fields} {key : String}
    {encode : α → Value} (value : Option α) (found : fields.lookup key = value.map encode)
    (back : ∀ x, decode (encode x) = some x) (there : ∀ x, encode x ≠ .null) :
    decodeIfPresent decode fields key = some value := by
  cases value with
  | none =>
    rw [Option.map_none] at found
    rw [decodeIfPresent, found]
  | some x =>
    rw [decodeIfPresent_some found (there x), back, Option.map_some]

theorem json_not_null (time : Seconds) : time.json ≠ .null := by
  unfold Seconds.json
  split
  · exact Value.noConfusion
  · exact Value.noConfusion

/-- A dictionary with just these fields, whatever else it holds, is decoded to them. -/
theorem decode_fields {fields : Fields} (state : VpnState)
    (stage : fields.lookup "stage" = some (.string (rawValue state.stage)))
    (profileID : fields.lookup "profileID" = state.profileID.map Value.string)
    (profileName : fields.lookup "profileName" = state.profileName.map Value.string)
    (message : fields.lookup "message" = state.message.map Value.string)
    (startedAt : fields.lookup "startedAt" = state.startedAt.map Seconds.json) :
    decodeState (.object fields) = some state := by
  have text (value : Option Chars) {key : String} (found : fields.lookup key = value.map Value.string) :
      decodeIfPresent asString fields key = some value :=
    decodeIfPresent_lookup value found (fun _ => rfl) fun _ => Value.noConfusion
  have time := decodeIfPresent_lookup state.startedAt startedAt asSeconds_json json_not_null
  have named : decodeField asStage fields "stage" = some state.stage := by
    rw [decodeField_some stage]
    exact stageNamed_rawValue state.stage
  simp only [decodeState, asFields, named, text _ profileID, text _ profileName, text _ message, time,
    Option.bind_eq_bind, Option.bind_some]
  rfl

/-- Nothing of the dictionary that was read is left in what the app decodes. -/
theorem decode_writeState (old : Fields) (w : Writing) :
    decodeState (.object (writeState old w)) = some (StateJob.provider w).state := by
  apply decode_fields
  · simp [writeState, StateJob.state]
  · simp [writeState, StateJob.state]
  · simp [writeState, StateJob.state]
  · simp [writeState, StateJob.state]
  · simp only [writeState, lookup_assign, StateJob.state]
    split
    · rfl
    · rfl

theorem decode_encodeState (state : VpnState) : decodeState (encodeState state) = some state := by
  apply decode_fields
  · simp
  · simp
  · simp
  · simp
  · simp

theorem prepare_state (job : StateJob) (old file : File) (made : job.prepare old = some file) :
    readState file = some job.state := by
  cases job with
  | provider w =>
    rw [← Option.some.inj made]
    exact decode_writeState _ w
  | clearStale =>
    simp only [StateJob.prepare] at made
    split at made
    · split at made
      · rw [← Option.some.inj made]
        exact decode_encodeState disconnected
      · cases made
    · cases made

end State

section Traffic

/-- `TrafficSnapshot`. -/
structure TrafficSnapshot where
  uploadBytes : Int64
  downloadBytes : Int64
  uploadRate : Int64
  downloadRate : Int64
  timestamp : Seconds
  footprintMB : Int64
  deriving DecidableEq

def asInt64 (value : Value) : Option Int64 :=
  (asInteger Int64.minValue.toInt Int64.maxValue.toInt value).map Int64.ofInt

def decodeTraffic (value : Value) : Option TrafficSnapshot := do
  let fields ← asFields value
  let uploadBytes ← decodeField asInt64 fields "uploadBytes"
  let downloadBytes ← decodeField asInt64 fields "downloadBytes"
  let uploadRate ← decodeField asInt64 fields "uploadRate"
  let downloadRate ← decodeField asInt64 fields "downloadRate"
  let timestamp ← decodeField asSeconds fields "timestamp"
  let footprintMB ← decodeField asInt64 fields "footprintMB"
  return ⟨uploadBytes, downloadBytes, uploadRate, downloadRate, timestamp, footprintMB⟩

/-- `SharedStore.readTraffic`. -/
def readTraffic (file : File) : Option TrafficSnapshot := file.bind decodeTraffic

/-- What `emitTrafficSnapshot` has at hand; the footprint is negative when it is not known. -/
structure Sample where
  up : Int64
  down : Int64
  upRate : Int64
  downRate : Int64
  now : Seconds
  footprintMB : Int64

def Sample.footprint (sample : Sample) : Int64 := if sample.footprintMB < 0 then 0 else sample.footprintMB

/-- The dictionary that `emitTrafficSnapshot` writes. -/
def Sample.json (sample : Sample) : Value :=
  .object [("uploadBytes", .number sample.up.toInt), ("downloadBytes", .number sample.down.toInt),
    ("uploadRate", .number sample.upRate.toInt), ("downloadRate", .number sample.downRate.toInt),
    ("timestamp", sample.now.json), ("footprintMB", .number sample.footprint.toInt)]

def Sample.prepare (sample : Sample) (_ : File) : Option File := some (some sample.json)

def Sample.snapshot (sample : Sample) : TrafficSnapshot :=
  ⟨sample.up, sample.down, sample.upRate, sample.downRate, sample.now, sample.footprint⟩

theorem asInt64_number (n : Int64) : asInt64 (.number n.toInt) = some n := by
  have inside : asInteger Int64.minValue.toInt Int64.maxValue.toInt (.number n.toInt) = some n.toInt :=
    if_pos ⟨Int64.minValue_le_toInt n, Int64.toInt_le n⟩
  rw [asInt64, inside, Option.map_some, Int64.ofInt_toInt]

theorem decode_sample (sample : Sample) : decodeTraffic sample.json = some sample.snapshot := by
  simp [decodeTraffic, Sample.json, asFields, decodeField, List.lookup_cons, asInt64_number, asSeconds_json]
  rfl

theorem prepare_traffic (sample : Sample) (old file : File) (made : sample.prepare old = some file) :
    readTraffic file = some sample.snapshot := by
  rw [← Option.some.inj made]
  exact decode_sample sample

end Traffic

/-- Whatever `state.json` held at first, and however the writers of both processes overlap, fail and end,
the app always decodes the state that was written last: nothing of an older one comes through the
dictionary that the provider reads, completes and writes back. -/
theorem state_as_written {allowed : Shared StateJob File → Event StateJob → Prop} {file : File}
    {events : List (Moment StateJob File)} {s : Shared StateJob File}
    (trace : Trace (step StateJob.prepare) allowed (initial file) events s) :
    readState s.file = ((events.flatMap writes).getLast?.map fun job => some job.state).getD (readState file) :=
  run_last prepare_state trace

def sampleWriting (stage : VpnStage) : Writing := ⟨stage, none, some ['A'], none, ⟨17, 1⟩⟩

/-- A file of some other program. -/
def sampleFile : File := some (.object [("message", .string ['o', 'l', 'd']), ("stage", .number 3)])

/-- The provider writes that it is connected while the app clears the state that it was connecting. -/
def sampleRace : List (Event StateJob) :=
  [.begin (.provider (sampleWriting .connecting)), .write 0 true, .post 0, .look, .observe,
    .begin (.provider (sampleWriting .connected)), .begin .clearStale, .write 0 true, .post 0, .write 0 true,
    .post 0, .deliver, .read]

/-- The state of the write that is under way is the one that stays. -/
theorem sample_as_written : ∃ events s,
    Trace (step StateJob.prepare) (fun s event => punctual s event = true) (initial sampleFile) events s ∧
    readState s.file = some (StateJob.provider (sampleWriting .connected)).state := by
  have ran : (testedRun (step StateJob.prepare) punctual (initial sampleFile) (sampleRace.take 8)).isSome = true := by
    decide +kernel
  obtain ⟨s, ran⟩ := Option.isSome_iff_exists.mp ran
  have trace := trace_of_testedRun ran
  have last : ((record (step StateJob.prepare) (initial sampleFile) (sampleRace.take 8)).flatMap writes).getLast? =
      some (.provider (sampleWriting .connected)) := by decide +kernel
  have written := state_as_written trace
  rw [last, Option.map_some, Option.getD_some] at written
  exact ⟨_, s, trace, written⟩

/-- The app catches up: once nothing is under way, its observers have read the state and the traffic that
were written last, however many notifications were merged. -/
theorem app_catches_up :
    (∀ (file : File) (events : List (Moment StateJob File)) (s : Shared StateJob File),
      Trace (step StateJob.prepare) (fun s event => punctual s event = true) (initial file) events s →
      Quiet s → s.reader = .observing → ∀ job, (events.flatMap writes).getLast? = some job →
        (events.flatMap reads).getLast?.map readState = some (some job.state)) ∧
    ∀ (file : File) (events : List (Moment Sample File)) (s : Shared Sample File),
      Trace (step Sample.prepare) (fun s event => punctual s event = true) (initial file) events s →
      Quiet s → s.reader = .observing → ∀ sample, (events.flatMap writes).getLast? = some sample →
        (events.flatMap reads).getLast?.map readTraffic = some (some sample.snapshot) := by
  constructor
  · intro file events s trace quiet observing job last
    exact run_caught_up prepare_state trace quiet observing last
  · intro file events s trace quiet observing sample last
    exact run_caught_up prepare_traffic trace quiet observing last

/-- Two posts are one nudge, and the app reads what the second one is about. -/
theorem sample_catches_up : ∃ events s,
    Trace (step StateJob.prepare) (fun s event => punctual s event = true) (initial sampleFile) events s ∧
    (events.flatMap reads).getLast?.map readState = some (some disconnected) := by
  have ran : (testedRun (step StateJob.prepare) punctual (initial sampleFile) sampleRace).map (fun s =>
      (s.writers.length, s.pending, s.tasks, s.reader)) = some (0, false, 0, .observing) := by decide +kernel
  obtain ⟨s, ran, same⟩ := Option.map_eq_some_iff.mp ran
  obtain ⟨none, rest⟩ := Prod.mk.inj same
  obtain ⟨still, rest⟩ := Prod.mk.inj rest
  obtain ⟨idle, observing⟩ := Prod.mk.inj rest
  have trace := trace_of_testedRun ran
  have last : ((record (step StateJob.prepare) (initial sampleFile) sampleRace).flatMap writes).getLast? =
      some .clearStale := by decide +kernel
  exact ⟨_, s, trace,
    app_catches_up.1 _ _ s trace ⟨List.length_eq_zero_iff.mp none, still, idle⟩ observing _ last⟩

end ShadowVpn.App.Snapshots
