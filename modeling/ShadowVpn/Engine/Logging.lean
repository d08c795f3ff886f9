import ShadowVpn.Lib.Files
import ShadowVpn.Lib.Lines
import ShadowVpn.Lib.Histories

/-! The log file that the core mirrors its records into, `logging.rs`: records that are written under a
lock, calls of `set_log_file` that rotate and open the file, and the app, which replaces it. -/

namespace ShadowVpn.Engine.Logging
open ShadowVpn.Lib.Octets ShadowVpn.Lib.Text ShadowVpn.Lib.Utf8 ShadowVpn.Lib.Files ShadowVpn.Lib.Transition
open ShadowVpn.Lib.Histories ShadowVpn.Lib.Lines

inductive Level where
  | error | warn | info | debug | trace
  deriving DecidableEq

def Level.name : Level → String
  | .error => "ERROR"
  | .warn => "WARN"
  | .info => "INFO"
  | .debug => "DEBUG"
  | .trace => "TRACE"

/-- `record.level() <= Level::Info`. -/
def Level.mirrored : Level → Bool
  | .error | .warn | .info => true
  | .debug | .trace => false

/-- A record, with the seconds of the clock when it is written. -/
structure Record where
  level : Level
  message : Chars
  secs : Nat
  deriving DecidableEq

/-- `{:02}`. -/
def twoDigits (n : Nat) : Chars := if n < 10 then '0' :: Nat.toDigits 10 n else Nat.toDigits 10 n

/-- `{:<5}`. -/
def padded (text : Chars) : Chars := text ++ List.replicate (5 - text.length) ' '

def Record.text (r : Record) : Chars :=
  twoDigits (r.secs / 3600 % 24) ++ ':' :: twoDigits (r.secs / 60 % 60) ++ ':' :: twoDigits (r.secs % 60) ++
    ' ' :: padded r.level.name.toList ++ ' ' :: r.message

/-- What `writeln!` writes. -/
def Record.line (r : Record) : Bytes := utf8 r.text ++ [0x0A]

/-- `MAX_LOG_BYTES`. -/
def maxLogBytes : Nat := 512 * 1024

/-- The names in the `logs` directory; the last one is that of an atomic write. -/
inductive LogName where
  | log
  | rotated
  | auxiliary
  deriving DecidableEq

/-- Where a call of `set_log_file` stands. -/
inductive Opening where
  | measure
  | rotate
  | opening
  | install (file : Nat)
  deriving DecidableEq

/-- The log files, the open handle, the record that is being written with the lock held (what is left of
it), and the calls of `set_log_file` under way. -/
structure Logs where
  volume : Volume LogName
  mirror : Option Nat
  writing : Option (Nat × Bytes)
  calls : List Opening

def initial : Logs := ⟨.empty, none, none, []⟩

inductive Event where
  | log (record : Record)
  | write (count : Nat)
  | fault
  | setLogFile (made : Bool)
  | proceed (call : Nat) (ok : Bool)
  | clear (ok : Bool)
  | exit

/-- `writeln!` starts when the lock is free. -/
def startRecord (s : Logs) (record : Record) : Option Logs :=
  match s.mirror, s.writing with
  | none, _ => some s
  | some file, none => some { s with writing := some (file, record.line) }
  | some _, some _ => none

/-- One write of what is left of the record; after the last one the lock is free. -/
def writePart (s : Logs) (count : Nat) : Option Logs :=
  match s.writing with
  | none => none
  | some (file, rest) =>
    if 0 < count ∧ count ≤ rest.length then
      some { s with volume := s.volume.append file (rest.take count)
                    writing := if count = rest.length then none else some (file, rest.drop count) }
    else none

/-- A write fails, and `let _ =` drops the rest of the record. -/
def dropRest (s : Logs) : Option Logs :=
  match s.writing with
  | none => none
  | some _ => some { s with writing := none }

/-- The next step of a call; the file is installed when the lock is free. -/
def proceed (s : Logs) (call : Nat) (ok : Bool) : Option Logs :=
  match s.calls[call]? with
  | none => none
  | some .measure =>
    let next := if maxLogBytes < (s.volume.size .log).getD 0 then Opening.rotate else .opening
    some { s with calls := s.calls.set call next }
  | some .rotate =>
    let volume := if ok then (s.volume.rename .log .rotated).getD s.volume else s.volume
    some { s with volume := volume, calls := s.calls.set call .opening }
  | some .opening =>
    if ok then some { s with volume := s.volume.openAppend .log
                             calls := s.calls.set call (.install (s.volume.target .log)) }
    else some { s with calls := s.calls.eraseIdx call }
  | some (.install file) =>
    match s.writing with
    | none => some { s with mirror := some file, calls := s.calls.eraseIdx call }
    | some _ => none

/-- `Data().write(to:options: .atomic)` of the app: an empty file is made and takes the name. -/
def replaced (volume : Volume LogName) : Volume LogName :=
  ((volume.create .auxiliary).rename .auxiliary .log).getD volume

/-- A call starts once its directory is made; when the process ends, its handle and calls are gone. -/
def step (s : Logs) (event : Event) : Option Logs :=
  match event with
  | .log record => if record.level.mirrored then startRecord s record else some s
  | .write count => writePart s count
  | .fault => dropRest s
  | .setLogFile made => if made then some { s with calls := s.calls ++ [.measure] } else some s
  | .proceed call ok => proceed s call ok
  | .clear ok => if ok then some { s with volume := replaced s.volume } else some s
  | .exit => some { s with mirror := none, writing := none, calls := [] }

abbrev Moment := Lib.Histories.Event Logs Event

/-- The record that a step starts to write to a file. -/
def loggedTo (file : Nat) (moment : Moment) : List Record :=
  match moment.label with
  | .log record => if record.level.mirrored ∧ moment.before.mirror = some file then [record] else []
  | _ => []

/-- What a file still lacks of the record that is being written. -/
def unwritten (s : Logs) (file : Nat) : Bytes :=
  match s.writing with
  | some (other, rest) => if other = file then rest else []
  | none => []

theorem unwritten_here {s : Logs} {file : Nat} {rest : Bytes} (writing : s.writing = some (file, rest)) :
    unwritten s file = rest := by
  unfold unwritten
  rw [writing]
  exact if_pos rfl

theorem unwritten_other {s : Logs} {file other : Nat} {rest : Bytes} (writing : s.writing = some (file, rest))
    (apart : other ≠ file) : unwritten s other = [] := by
  unfold unwritten
  rw [writing]
  exact if_neg (Ne.symm apart)

theorem unwritten_free {s : Logs} (free : s.writing = none) (file : Nat) : unwritten s file = [] := by
  unfold unwritten
  rw [free]

/-- No write fails, and the process does not end within a record. -/
def whole (s : Logs) (event : Event) : Bool :=
  match event with
  | .fault => false
  | .exit => s.writing.isNone
  | _ => true

/-! ### What the files hold -/

theorem line_nonempty (r : Record) : r.line ≠ [] := by
  intro empty
  have length := congrArg List.length empty
  rw [Record.line, List.length_append] at length
  cases length

/-- Handles are of files that exist, and no atomic write is left behind. -/
structure Held (s : Logs) : Prop where
  auxiliary : s.volume.names .auxiliary = none
  mirror : ∀ file, s.mirror = some file → file < s.volume.next
  installing : ∀ file, Opening.install file ∈ s.calls → file < s.volume.next
  writing : ∀ file rest, s.writing = some (file, rest) → file < s.volume.next

/-- Each file holds the records that were written to it, but for the rest of the one that is being written. -/
structure Recorded (events : List Moment) (s : Logs) : Prop where
  writing : ∀ file rest, s.writing = some (file, rest) →
    ∃ before r k, events.flatMap (loggedTo file) = before ++ [r] ∧ k < r.line.length ∧ rest = r.line.drop k
  content : ∀ file < s.volume.next,
    s.volume.data file ++ unwritten s file = (events.flatMap (loggedTo file)).flatMap Record.line
  fresh : ∀ file, s.volume.next ≤ file → events.flatMap (loggedTo file) = []

theorem initial_held : Held initial where
  auxiliary := rfl
  mirror := fun _ held => nomatch held
  installing := fun _ member => nomatch member
  writing := fun _ _ writing => nomatch writing

theorem initial_recorded : Recorded [] initial where
  writing := fun _ _ writing => nomatch writing
  content := fun _ small => absurd small (Nat.not_lt_zero _)
  fresh := fun _ _ => rfl

/-- A step that starts no record adds none. -/
theorem logged_append {events : List Moment} {moment : Moment} {file : Nat} (quiet : loggedTo file moment = []) :
    (events ++ [moment]).flatMap (loggedTo file) = events.flatMap (loggedTo file) := by
  rw [List.flatMap_append, List.flatMap_singleton, quiet, List.append_nil]

variable {events : List Moment} {s : Logs}

/-- What a step may do to the volume apart from writing: names move, and new files are empty. -/
structure Arranged (one two : Volume LogName) : Prop where
  auxiliary : one.names .auxiliary = none → two.names .auxiliary = none
  next : one.next ≤ two.next
  kept : ∀ file < one.next, two.data file = one.data file
  made : ∀ file, one.next ≤ file → file < two.next → two.data file = []

theorem Arranged.refl (volume : Volume LogName) : Arranged volume volume :=
  ⟨id, Nat.le_refl _, fun _ _ => rfl, fun _ above below => absurd below (Nat.not_lt.mpr above)⟩

theorem create_arranged (volume : Volume LogName) (name : LogName) (absent : volume.names name = none)
    (other : name ≠ .auxiliary) : Arranged volume (volume.create name) := by
  obtain ⟨target, next⟩ := Volume.create_new absent
  refine ⟨?_, volume.next_le_create name, ?_, ?_⟩
  · intro none
    rw [volume.create_names_other (Ne.symm other)]
    exact none
  · intro file small
    apply volume.create_data_other
    rw [target]
    omega
  · intro file above below
    have same : file = volume.target name := by omega
    rw [same, volume.create_data]

theorem openAppend_arranged (volume : Volume LogName) : Arranged volume (volume.openAppend .log) ∧
    volume.target .log < (volume.openAppend .log).next ∧
      (volume.openAppend .log).names .log = some (volume.target .log) := by
  rcases volume.openAppend_cases .log with ⟨named, same⟩ | ⟨absent, target, made⟩
  · rw [same]
    exact ⟨.refl volume, volume.known _ _ named, named⟩
  · rw [made]
    refine ⟨create_arranged volume .log absent (by decide), ?_, volume.create_names .log⟩
    exact (volume.create .log).known _ _ (volume.create_names .log)

theorem rename_arranged (volume : Volume LogName) :
    Arranged volume ((volume.rename .log .rotated).getD volume) := by
  cases moved : volume.rename .log .rotated with
  | none => exact .refl volume
  | some renamed =>
    obtain ⟨file, _, data, next, names⟩ := Volume.rename_some moved
    rw [Option.getD_some]
    refine ⟨?_, by rw [next], fun file _ => by rw [data], fun file above below => ?_⟩
    · intro none
      rw [names, Function.update_of_ne (by decide), Function.update_of_ne (by decide)]
      exact none
    · rw [next] at below
      exact absurd below (Nat.not_lt.mpr above)

/-- The app's file is a new one. -/
theorem replaced_arranged (volume : Volume LogName) (none : volume.names .auxiliary = none) :
    Arranged volume (replaced volume) ∧ (replaced volume).names .log = some volume.next := by
  obtain ⟨target, last⟩ := Volume.create_new none
  have made : (volume.create .auxiliary).names .auxiliary = some volume.next := by
    rw [volume.create_names, target]
  unfold replaced
  cases moved : (volume.create .auxiliary).rename .auxiliary .log with
  | none =>
    unfold Volume.rename at moved
    split at moved
    · next absent =>
      rw [made] at absent
      cases absent
    · cases moved
  | some renamed =>
    obtain ⟨file, found, data, next, names⟩ := Volume.rename_some moved
    rw [made, Option.some.injEq] at found
    subst found
    rw [Option.getD_some]
    refine ⟨⟨?_, by omega, ?_, ?_⟩, ?_⟩
    · intro _
      rw [names, Function.update_of_ne (by decide), Function.update_self]
    · intro file small
      rw [data, volume.create_data_other]
      rw [target]
      omega
    · intro file above below
      have same : file = volume.target .auxiliary := by omega
      rw [data, same, volume.create_data]
    · rw [names, Function.update_self]

/-- Names and handles may move, as long as the handles stay among the files that exist. -/
theorem Held.arrange (held : Held s) {volume : Volume LogName} (arranged : Arranged s.volume volume)
    (mirror : Option Nat) (calls : List Opening) (handle : ∀ file, mirror = some file → file < volume.next)
    (installing : ∀ file, Opening.install file ∈ calls → file < volume.next) :
    Held { s with volume := volume, mirror := mirror, calls := calls } where
  auxiliary := arranged.auxiliary held.auxiliary
  mirror := handle
  installing := installing
  writing := fun file rest writing => Nat.lt_of_lt_of_le (held.writing file rest writing) arranged.next

theorem Held.still (held : Held s) (calls : List Opening)
    (installing : ∀ file, Opening.install file ∈ calls → file < s.volume.next) : Held { s with calls := calls } :=
  held.arrange (.refl s.volume) s.mirror calls held.mirror installing

theorem mem_set_call {calls : List Opening} {call file : Nat} {next : Opening} (other : next ≠ .install file)
    (member : Opening.install file ∈ calls.set call next) : Opening.install file ∈ calls := by
  rcases List.mem_or_eq_of_mem_set member with kept | same
  · exact kept
  · exact absurd same.symm other

/-- A step of a call arranges the volume and leaves the record that is being written alone. -/
theorem proceed_arranged (held : Held s) {t : Logs} {call : Nat} {ok : Bool} (taken : proceed s call ok = some t) :
    Arranged s.volume t.volume ∧ t.writing = s.writing ∧ Held t := by
  unfold proceed at taken
  split at taken
  · cases taken
  · -- the size is looked up
    rw [← Option.some.inj taken]
    refine ⟨.refl s.volume, rfl, held.still _ ?_⟩
    intro file member
    apply held.installing file
    apply mem_set_call _ member
    split
    · exact Opening.noConfusion
    · exact Opening.noConfusion
  · rw [← Option.some.inj taken]
    have arranged : Arranged s.volume (if ok then (s.volume.rename .log .rotated).getD s.volume else s.volume) := by
      split
      · exact rename_arranged s.volume
      · exact .refl s.volume
    refine ⟨arranged, rfl, held.arrange arranged s.mirror _ ?_ ?_⟩
    · exact fun file open_ => Nat.lt_of_lt_of_le (held.mirror file open_) arranged.next
    · intro file member
      exact Nat.lt_of_lt_of_le (held.installing file (mem_set_call Opening.noConfusion member)) arranged.next
  · split at taken
    · rw [← Option.some.inj taken]
      obtain ⟨arranged, below, _⟩ := openAppend_arranged s.volume
      refine ⟨arranged, rfl, held.arrange arranged s.mirror _ ?_ ?_⟩
      · exact fun file open_ => Nat.lt_of_lt_of_le (held.mirror file open_) arranged.next
      · intro file member
        rcases List.mem_or_eq_of_mem_set member with kept | same
        · exact Nat.lt_of_lt_of_le (held.installing file kept) arranged.next
        · exact Opening.install.inj same ▸ below
    · rw [← Option.some.inj taken]
      exact ⟨.refl s.volume, rfl, held.still _ fun file member => held.installing file (List.mem_of_mem_eraseIdx member)⟩
  · next file found =>
    split at taken
    · next free =>
      rw [← Option.some.inj taken]
      refine ⟨.refl s.volume, rfl, held.arrange (.refl s.volume) (some file) _ ?_ ?_⟩
      · intro other same
        exact Option.some.inj same ▸ held.installing file (List.mem_of_getElem? found)
      · exact fun other member => held.installing other (List.mem_of_mem_eraseIdx member)
    · cases taken

theorem step_held (held : Held s) {t : Logs} {event : Event} (taken : step s event = some t) : Held t := by
  cases event with
  | log record =>
    simp only [step] at taken
    split at taken
    · unfold startRecord at taken
      split at taken
      · exact Option.some.inj taken ▸ held
      · next file mirror free =>
        rw [← Option.some.inj taken]
        refine ⟨held.auxiliary, held.mirror, held.installing, ?_⟩
        intro other rest writing
        exact (Prod.mk.inj (Option.some.inj writing)).1 ▸ held.mirror file mirror
      · cases taken
    · exact Option.some.inj taken ▸ held
  | write count =>
    simp only [step, writePart] at taken
    split at taken
    · cases taken
    · next file rest writing =>
      split at taken
      · rw [← Option.some.inj taken]
        refine ⟨held.auxiliary, held.mirror, held.installing, ?_⟩
        intro other left now
        dsimp only at now
        split at now
        · cases now
        · exact (Prod.mk.inj (Option.some.inj now)).1 ▸ held.writing file rest writing
      · cases taken
  | fault =>
    simp only [step, dropRest] at taken
    split at taken
    · cases taken
    · rw [← Option.some.inj taken]
      refine ⟨held.auxiliary, held.mirror, held.installing, ?_⟩
      intro file rest none
      cases none
  | setLogFile made =>
    simp only [step] at taken
    split at taken
    · rw [← Option.some.inj taken]
      apply held.still
      intro file member
      rcases List.mem_append.mp member with old | new
      · exact held.installing file old
      · cases List.mem_singleton.mp new
    · exact Option.some.inj taken ▸ held
  | proceed call ok => exact (proceed_arranged held taken).2.2
  | clear ok =>
    simp only [step] at taken
    split at taken
    · rw [← Option.some.inj taken]
      have arranged := (replaced_arranged s.volume held.auxiliary).1
      apply held.arrange arranged s.mirror s.calls
      · exact fun file open_ => Nat.lt_of_lt_of_le (held.mirror file open_) arranged.next
      · exact fun file member => Nat.lt_of_lt_of_le (held.installing file member) arranged.next
    · exact Option.some.inj taken ▸ held
  | exit =>
    rw [← Option.some.inj taken]
    constructor
    · exact held.auxiliary
    · intro file none
      cases none
    · intro file member
      cases member
    · intro file rest none
      cases none

/-- What is recorded stays so while the volume is only arranged. -/
theorem Recorded.arrange (recorded : Recorded events s) (held : Held s) {t : Logs} {moment : Moment}
    (arranged : Arranged s.volume t.volume) (writing : t.writing = s.writing)
    (quiet : ∀ file, loggedTo file moment = []) : Recorded (events ++ [moment]) t where
  writing := by
    intro file rest now
    rw [logged_append (quiet file)]
    exact recorded.writing file rest (writing ▸ now)
  content := by
    intro file small
    have same : unwritten t file = unwritten s file := by rw [unwritten, writing, unwritten]
    rw [logged_append (quiet file), same]
    by_cases old : file < s.volume.next
    · rw [arranged.kept file old]
      exact recorded.content file old
    · have above : s.volume.next ≤ file := Nat.le_of_not_lt old
      have idle : unwritten s file = [] := by
        cases now : s.writing with
        | none => exact unwritten_free now file
        | some part =>
          have below := held.writing part.1 part.2 now
          exact unwritten_other now (by omega)
      rw [arranged.made file above small, recorded.fresh file above]
      exact idle
  fresh := by
    intro file above
    rw [logged_append (quiet file)]
    exact recorded.fresh file (Nat.le_trans arranged.next above)

/-- A record takes the lock, and nothing of it is written yet. -/
theorem Recorded.start (recorded : Recorded events s) (held : Held s) (record : Record) {file : Nat}
    {moment : Moment} (mirror : s.mirror = some file) (free : s.writing = none)
    (here : loggedTo file moment = [record]) (others : ∀ other ≠ file, loggedTo other moment = []) :
    Recorded (events ++ [moment]) { s with writing := some (file, record.line) } where
  writing := by
    intro other rest writing
    obtain ⟨rfl, rfl⟩ := Prod.mk.inj (Option.some.inj writing)
    refine ⟨events.flatMap (loggedTo file), record, 0, ?_, List.length_pos_iff.mpr (line_nonempty record),
      List.drop_zero.symm⟩
    rw [List.flatMap_append, List.flatMap_singleton, here]
  content := by
    intro other small
    have old := recorded.content other small
    rw [unwritten_free free, List.append_nil] at old
    by_cases same : other = file
    · subst same
      rw [unwritten_here (s := { s with writing := some (other, record.line) }) rfl, List.flatMap_append,
        List.flatMap_singleton, here, List.flatMap_append, List.flatMap_singleton, ← old]
    · rw [unwritten_other (s := { s with writing := some (file, record.line) }) rfl same,
        logged_append (others other same), List.append_nil, ← old]
  fresh := by
    intro other above
    have apart : other ≠ file := by
      have below := held.mirror file mirror
      change s.volume.next ≤ other at above
      omega
    rw [logged_append (others other apart)]
    exact recorded.fresh other above

/-- A part of the record goes to the end of its file. -/
theorem Recorded.write (recorded : Recorded events s) {moment : Moment} (quiet : ∀ file, loggedTo file moment = [])
    {file count : Nat} {rest : Bytes} (writing : s.writing = some (file, rest)) (fits : count ≤ rest.length) :
    Recorded (events ++ [moment]) { s with
      volume := s.volume.append file (rest.take count)
      writing := if count = rest.length then none else some (file, rest.drop count) } where
  writing := by
    intro other left now
    dsimp only at now
    split at now
    · cases now
    · next more =>
      obtain ⟨rfl, rfl⟩ := Prod.mk.inj (Option.some.inj now)
      obtain ⟨before, r, k, last, inside, rfl⟩ := recorded.writing file rest writing
      rw [List.length_drop] at fits more
      refine ⟨before, r, k + count, ?_, by omega, ?_⟩
      · rw [logged_append (quiet file)]
        exact last
      · rw [List.drop_drop]
  content := by
    intro other small
    have old := recorded.content other small
    rw [logged_append (quiet other), ← old]
    by_cases same : other = file
    · subst same
      rw [Volume.append_data, unwritten_here writing]
      by_cases all : count = rest.length
      · rw [unwritten_free (if_pos all), all, List.take_length]
        exact List.append_nil _
      · rw [unwritten_here (if_neg all), List.append_assoc, List.take_append_drop]
    · rw [Volume.append_data_other _ _ same, unwritten_other writing same]
      by_cases all : count = rest.length
      · rw [unwritten_free (if_pos all)]
      · rw [unwritten_other (if_neg all) same]
  fresh := by
    intro other above
    rw [logged_append (quiet other)]
    exact recorded.fresh other above

theorem step_recorded (held : Held s) (recorded : Recorded events s) {t : Logs} {event : Event}
    (ok : whole s event = true) (taken : step s event = some t) : Recorded (events ++ [⟨s, event, t⟩]) t := by
  cases event with
  | log record =>
    simp only [step] at taken
    split at taken
    · next mirrored =>
      unfold startRecord at taken
      split at taken
      · next closed =>
        rw [← Option.some.inj taken]
        apply recorded.arrange held (.refl s.volume) rfl
        intro file
        simp [loggedTo, closed]
      · next file mirror free =>
        rw [← Option.some.inj taken]
        apply recorded.start held record mirror free
        · exact if_pos ⟨mirrored, mirror⟩
        · intro other apart
          apply if_neg
          rintro ⟨_, same⟩
          exact apart (Option.some.inj (same.symm.trans mirror))
      · cases taken
    · next silent =>
      rw [← Option.some.inj taken]
      apply recorded.arrange held (.refl s.volume) rfl
      intro file
      exact if_neg fun both => silent both.1
  | write count =>
    simp only [step, writePart] at taken
    split at taken
    · cases taken
    · next file rest writing =>
      split at taken
      · next fits =>
        rw [← Option.some.inj taken]
        exact recorded.write (fun _ => rfl) writing fits.2
      · cases taken
  | fault => cases ok
  | setLogFile made =>
    simp only [step] at taken
    split at taken
    · rw [← Option.some.inj taken]
      exact recorded.arrange held (.refl s.volume) rfl fun _ => rfl
    · rw [← Option.some.inj taken]
      exact recorded.arrange held (.refl s.volume) rfl fun _ => rfl
  | proceed call ok =>
    obtain ⟨arranged, writing, _⟩ := proceed_arranged held taken
    exact recorded.arrange held arranged writing fun _ => rfl
  | clear ok =>
    simp only [step] at taken
    split at taken
    · rw [← Option.some.inj taken]
      exact recorded.arrange held (replaced_arranged s.volume held.auxiliary).1 rfl fun _ => rfl
    · rw [← Option.some.inj taken]
      exact recorded.arrange held (.refl s.volume) rfl fun _ => rfl
  | exit =>
    have free : s.writing = none := Option.isNone_iff_eq_none.mp ok
    rw [← Option.some.inj taken]
    exact recorded.arrange held (.refl s.volume) free.symm fun _ => rfl

theorem run_held {allowed : Logs → Event → Prop} {events : List Moment} {s : Logs}
    (trace : Trace step allowed initial events s) : Held s :=
  trace.invariant (fun _ s => Held s) (fun _ _ _ _ held _ taken => step_held held taken) initial_held

/-- In a run without failed writes the files hold what was logged. -/
theorem run_recorded {events : List Moment} {s : Logs}
    (trace : Trace step (fun s event => whole s event = true) initial events s) : Recorded events s := by
  have both := trace.invariant (fun events s => Held s ∧ Recorded events s)
    (fun _ _ _ _ kept ok taken => ⟨step_held kept.1 taken, step_recorded kept.1 kept.2 ok taken⟩)
    ⟨initial_held, initial_recorded⟩
  exact both.2

/-! ### After a clear -/

/-- A call opens the file at this step. -/
def opens (s : Logs) (event : Event) : Bool :=
  match event with
  | .proceed call ok => ok && s.calls[call]? == some .opening
  | _ => false

/-- The file that the app reads is empty, and the core has no handle of it. -/
structure Detached (s : Logs) : Prop where
  empty : ∀ file, s.volume.names .log = some file → s.volume.data file = []
  mirror : ∀ file, s.volume.names .log = some file → s.mirror ≠ some file
  installing : ∀ file, s.volume.names .log = some file → Opening.install file ∉ s.calls
  writing : ∀ file rest, s.volume.names .log = some file → s.writing ≠ some (file, rest)

theorem detached_calls (detached : Detached s) (calls : List Opening)
    (sub : ∀ file, Opening.install file ∈ calls → Opening.install file ∈ s.calls) :
    Detached { s with calls := calls } where
  empty := detached.empty
  mirror := detached.mirror
  installing := fun file named member => detached.installing file named (sub file member)
  writing := detached.writing

/-- Every handle is of an older file than the app's new one. -/
theorem clear_detached (held : Held s) : Detached { s with volume := replaced s.volume } := by
  obtain ⟨arranged, named⟩ := replaced_arranged s.volume held.auxiliary
  have new (file : Nat) (found : (replaced s.volume).names .log = some file) : file = s.volume.next :=
    Option.some.inj (found.symm.trans named)
  constructor
  · intro file found
    exact arranged.made file (new file found).ge ((replaced s.volume).known _ _ found)
  · intro file found open_
    exact absurd (held.mirror file open_) (new file found ▸ Nat.lt_irrefl _)
  · intro file found member
    exact absurd (held.installing file member) (new file found ▸ Nat.lt_irrefl _)
  · intro file rest found writing
    exact absurd (held.writing file rest writing) (new file found ▸ Nat.lt_irrefl _)

theorem proceed_detached (detached : Detached s) {t : Logs} {call : Nat} {ok : Bool}
    (quiet : opens s (.proceed call ok) = false) (taken : proceed s call ok = some t) : Detached t := by
  unfold proceed at taken
  split at taken
  · cases taken
  · rw [← Option.some.inj taken]
    apply detached_calls detached
    intro file member
    apply mem_set_call _ member
    split
    · exact Opening.noConfusion
    · exact Opening.noConfusion
  · rw [← Option.some.inj taken]
    -- once the file is rotated, the app has none to read
    have moved : (if ok then (s.volume.rename .log .rotated).getD s.volume else s.volume) = s.volume ∨
        (if ok then (s.volume.rename .log .rotated).getD s.volume else s.volume).names .log = none := by
      split
      · cases renamed : s.volume.rename .log .rotated with
        | none => exact .inl rfl
        | some volume =>
          obtain ⟨_, _, _, _, names⟩ := Volume.rename_some renamed
          right
          rw [Option.getD_some, names, Function.update_of_ne (by decide), Function.update_self]
      · exact .inl rfl
    rcases moved with same | absent
    · rw [same]
      apply detached_calls detached
      exact fun file member => mem_set_call Opening.noConfusion member
    · have lost (file : Nat) : ¬(if ok then (s.volume.rename .log .rotated).getD s.volume else s.volume).names .log =
          some file := by rw [absent]; exact (Option.some_ne_none file).symm
      constructor
      · exact fun file found => absurd found (lost file)
      · exact fun file found => absurd found (lost file)
      · exact fun file found => absurd found (lost file)
      · exact fun file _ found => absurd found (lost file)
  · next found =>
    split at taken
    · next succeeded =>
      rw [opens, succeeded, found] at quiet
      cases quiet
    · rw [← Option.some.inj taken]
      exact detached_calls detached _ fun file member => List.mem_of_mem_eraseIdx member
  · next file found =>
    split at taken
    · next free =>
      rw [← Option.some.inj taken]
      have member := List.mem_of_getElem? found
      refine ⟨detached.empty, ?_, ?_, detached.writing⟩
      · intro other named same
        exact detached.installing other named (Option.some.inj same ▸ member)
      · exact fun other named inside => detached.installing other named (List.mem_of_mem_eraseIdx inside)
    · cases taken

theorem step_detached (held : Held s) (detached : Detached s) {t : Logs} {event : Event}
    (quiet : opens s event = false) (taken : step s event = some t) : Detached t := by
  cases event with
  | log record =>
    simp only [step] at taken
    split at taken
    · unfold startRecord at taken
      split at taken
      · exact Option.some.inj taken ▸ detached
      · next file mirror free =>
        rw [← Option.some.inj taken]
        refine ⟨detached.empty, detached.mirror, detached.installing, ?_⟩
        intro other rest named writing
        have same := (Prod.mk.inj (Option.some.inj writing)).1
        exact detached.mirror other named (same ▸ mirror)
      · cases taken
    · exact Option.some.inj taken ▸ detached
  | write count =>
    simp only [step, writePart] at taken
    split at taken
    · cases taken
    · next file rest writing =>
      split at taken
      · rw [← Option.some.inj taken]
        refine ⟨?_, detached.mirror, detached.installing, ?_⟩
        · intro other named
          have apart : other ≠ file := fun same => detached.writing other rest named (same ▸ writing)
          rw [Volume.append_data_other _ _ apart]
          exact detached.empty other named
        · intro other left named now
          dsimp only at now
          split at now
          · cases now
          · have same := (Prod.mk.inj (Option.some.inj now)).1
            exact detached.writing other rest named (same ▸ writing)
      · cases taken
  | fault =>
    simp only [step, dropRest] at taken
    split at taken
    · cases taken
    · rw [← Option.some.inj taken]
      exact ⟨detached.empty, detached.mirror, detached.installing, fun _ _ _ => (Option.some_ne_none _).symm⟩
  | setLogFile made =>
    simp only [step] at taken
    split at taken
    · rw [← Option.some.inj taken]
      apply detached_calls detached
      intro file member
      rcases List.mem_append.mp member with old | new
      · exact old
      · cases List.mem_singleton.mp new
    · exact Option.some.inj taken ▸ detached
  | proceed call ok => exact proceed_detached detached quiet taken
  | clear ok =>
    simp only [step] at taken
    split at taken
    · rw [← Option.some.inj taken]
      exact clear_detached held
    · exact Option.some.inj taken ▸ detached
  | exit =>
    rw [← Option.some.inj taken]
    refine ⟨detached.empty, fun _ _ => (Option.some_ne_none _).symm, ?_, fun _ _ _ => (Option.some_ne_none _).symm⟩
    exact fun _ _ => List.not_mem_nil

end ShadowVpn.Engine.Logging
