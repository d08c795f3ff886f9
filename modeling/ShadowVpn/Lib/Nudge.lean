import ShadowVpn.Lib.Histories

/-! A file that is shared by several processes, with nudges that carry nothing: a writer looks at the
file, replaces it and posts; the reader looks at it first, then observes, and reads it again for each
nudge that is delivered. Posts that were not delivered yet are one nudge. -/

namespace ShadowVpn.Lib.Nudge
open ShadowVpn.Lib.Transition ShadowVpn.Lib.Histories

section Protocol

variable {Job Content : Type}

/-- A writer with what it made of the file as it was when it looked, or one that has still to post. -/
inductive Writer (Job Content : Type) where
  | writing (job : Job) (content : Content)
  | posting

inductive Reader where
  | absent
  | starting
  | observing
  deriving DecidableEq

structure Shared (Job Content : Type) where
  file : Content
  writers : List (Writer Job Content)
  reader : Reader
  pending : Bool
  tasks : Nat

def initial (file : Content) : Shared Job Content := ⟨file, [], .absent, false, 0⟩

inductive Event (Job : Type) where
  | begin (job : Job)
  | write (writer : Nat) (ok : Bool)
  | post (writer : Nat)
  | quit (writer : Nat)
  | look
  | observe
  | deliver
  | read
  | leave

variable (prepare : Job → Content → Option Content)

/-- A job may find nothing to write; a write that fails is not posted; a writer may end anywhere with its
process, and so may the reader. -/
def step (s : Shared Job Content) (event : Event Job) : Option (Shared Job Content) :=
  match event with
  | .begin job =>
    match prepare job s.file with
    | none => some s
    | some content => some { s with writers := s.writers ++ [.writing job content] }
  | .write i ok =>
    match s.writers[i]? with
    | some (.writing _ content) =>
      if ok then some { s with file := content, writers := s.writers.set i .posting }
      else some { s with writers := s.writers.eraseIdx i }
    | _ => none
  | .post i =>
    match s.writers[i]? with
    | some .posting => some { s with writers := s.writers.eraseIdx i, pending := s.pending || s.reader == .observing }
    | _ => none
  | .quit i => if i < s.writers.length then some { s with writers := s.writers.eraseIdx i } else none
  | .look => if s.reader = .absent then some { s with reader := .starting } else none
  | .observe => if s.reader = .starting then some { s with reader := .observing } else none
  | .deliver => if s.pending then some { s with pending := false, tasks := s.tasks + 1 } else none
  | .read => if 0 < s.tasks then some { s with tasks := s.tasks - 1 } else none
  | .leave => some { s with reader := .absent, pending := false, tasks := 0 }

abbrev Moment (Job Content : Type) := Histories.Event (Shared Job Content) (Event Job)

/-- What the reader finds. -/
def reads (moment : Moment Job Content) : List Content :=
  match moment.label with
  | .look | .read => [moment.before.file]
  | _ => []

/-- The job that replaces the file. -/
def writes (moment : Moment Job Content) : List Job :=
  match moment.label with
  | .write i true =>
    match moment.before.writers[i]? with
    | some (.writing job _) => [job]
    | _ => []
  | _ => []

/-- No post falls between the reader's first look and its observing, and no process ends between a write
and its post. -/
def punctual (s : Shared Job Content) (event : Event Job) : Bool :=
  match event with
  | .post _ => s.reader != .starting
  | .quit i =>
    match s.writers[i]? with
    | some .posting => false
    | _ => true
  | _ => true

/-- Nothing is under way. -/
def Quiet (s : Shared Job Content) : Prop := s.writers = [] ∧ s.pending = false ∧ s.tasks = 0

theorem last_same {Item : Type} {output : Moment Job Content → List Item} {events : List (Moment Job Content)}
    {moment : Moment Job Content} (none : output moment = []) :
    ((events ++ [moment]).flatMap output).getLast? = (events.flatMap output).getLast? := by
  rw [List.flatMap_append, List.flatMap_singleton, none, List.append_nil]

theorem last_new {Item : Type} {output : Moment Job Content → List Item} {events : List (Moment Job Content)}
    {moment : Moment Job Content} {item : Item} (one : output moment = [item]) :
    ((events ++ [moment]).flatMap output).getLast? = some item := by
  rw [List.flatMap_append, List.flatMap_singleton, one, List.getLast?_concat]

variable {prepare}

section Writing

variable {Meaning : Type} (reading : Content → Meaning) (meaning : Job → Meaning)

/-- Whatever a job found in the file, what it writes is read as the job means it. -/
def Prepared (writers : List (Writer Job Content)) : Prop :=
  ∀ job content, Writer.writing job content ∈ writers → reading content = meaning job

/-- The file is read as the last job that replaced it means it. -/
structure Last (events : List (Moment Job Content)) (first s : Shared Job Content) : Prop where
  prepared : Prepared reading meaning s.writers
  last : reading s.file = ((events.flatMap writes).getLast?.map meaning).getD (reading first.file)

variable {reading meaning}

theorem Prepared.erase {writers : List (Writer Job Content)} (prepared : Prepared reading meaning writers) (i : Nat) :
    Prepared reading meaning (writers.eraseIdx i) :=
  fun job content member => prepared job content (List.mem_of_mem_eraseIdx member)

theorem Prepared.posted {writers : List (Writer Job Content)} (prepared : Prepared reading meaning writers) (i : Nat) :
    Prepared reading meaning (writers.set i .posting) := by
  intro job content member
  rcases List.mem_or_eq_of_mem_set member with kept | same
  · exact prepared job content kept
  · cases same

theorem step_last (faithful : ∀ job old content, prepare job old = some content → reading content = meaning job)
    {events : List (Moment Job Content)} {first s t : Shared Job Content} {event : Event Job}
    (holds : Last reading meaning events first s) (taken : step prepare s event = some t) :
    Last reading meaning (events ++ [⟨s, event, t⟩]) first t := by
  have still (quiet : writes ⟨s, event, t⟩ = []) (file : t.file = s.file)
      (prepared : Prepared reading meaning t.writers) :
      Last reading meaning (events ++ [⟨s, event, t⟩]) first t :=
    ⟨prepared, by rw [file, last_same quiet]; exact holds.last⟩
  cases event with
  | begin job =>
    simp only [step] at taken
    split at taken
    · obtain rfl := Option.some.inj taken
      exact still rfl rfl holds.prepared
    · next content made =>
      obtain rfl := Option.some.inj taken
      apply still rfl rfl
      intro other written member
      rcases List.mem_append.mp member with old | new
      · exact holds.prepared other written old
      · obtain ⟨same, text⟩ := Writer.writing.inj (List.mem_singleton.mp new)
        rw [same, text]
        exact faithful job s.file content made
  | write i ok =>
    simp only [step] at taken
    split at taken
    · next job content found =>
      split at taken
      · next done =>
        obtain rfl := Option.some.inj taken
        subst done
        refine ⟨holds.prepared.posted i, ?_⟩
        have one (after : Shared Job Content) : writes ⟨s, .write i true, after⟩ = [job] := by
          simp only [writes, found]
        rw [last_new (one _)]
        exact holds.prepared job content (List.mem_of_getElem? found)
      · next failed =>
        obtain rfl := Option.some.inj taken
        rw [Bool.not_eq_true] at failed
        subst failed
        exact still rfl rfl (holds.prepared.erase i)
    · cases taken
  | post i =>
    simp only [step] at taken
    split at taken
    · obtain rfl := Option.some.inj taken
      exact still rfl rfl (holds.prepared.erase i)
    · cases taken
  | quit i =>
    simp only [step, Option.ite_none_right_eq_some, Option.some.injEq] at taken
    obtain ⟨_, rfl⟩ := taken
    exact still rfl rfl (holds.prepared.erase i)
  | look =>
    simp only [step, Option.ite_none_right_eq_some, Option.some.injEq] at taken
    obtain ⟨_, rfl⟩ := taken
    exact still rfl rfl holds.prepared
  | observe =>
    simp only [step, Option.ite_none_right_eq_some, Option.some.injEq] at taken
    obtain ⟨_, rfl⟩ := taken
    exact still rfl rfl holds.prepared
  | deliver =>
    simp only [step, Option.ite_none_right_eq_some, Option.some.injEq] at taken
    obtain ⟨_, rfl⟩ := taken
    exact still rfl rfl holds.prepared
  | read =>
    simp only [step, Option.ite_none_right_eq_some, Option.some.injEq] at taken
    obtain ⟨_, rfl⟩ := taken
    exact still rfl rfl holds.prepared
  | leave =>
    obtain rfl := Option.some.inj taken
    exact still rfl rfl holds.prepared

theorem run_last (faithful : ∀ job old content, prepare job old = some content → reading content = meaning job)
    {allowed : Shared Job Content → Event Job → Prop} {file : Content} {events : List (Moment Job Content)}
    {s : Shared Job Content} (trace : Trace (step prepare) allowed (initial file) events s) :
    reading s.file = ((events.flatMap writes).getLast?.map meaning).getD (reading file) := by
  have start : Last reading meaning [] (initial file) (initial file) := ⟨fun _ _ => List.not_mem_nil.elim, rfl⟩
  have holds := trace.invariant (fun events s => Last reading meaning events (initial file) s)
    (fun _ _ _ _ kept _ taken => step_last faithful kept taken) start
  exact holds.last

end Writing

section Reading

/-- The reader has seen the file as it is, or a writer has still to post, or a nudge is on its way. -/
def Covered (events : List (Moment Job Content)) (s : Shared Job Content) : Prop :=
  s.reader ≠ .absent → (events.flatMap reads).getLast? = some s.file ∨ Writer.posting ∈ s.writers ∨
    s.reader = .observing ∧ (s.pending = true ∨ 0 < s.tasks)

theorem mem_erase_other {Item : Type} {items : List Item} {i : Nat} {item : Item} (member : item ∈ items)
    (other : items[i]? ≠ some item) : item ∈ items.eraseIdx i := by
  obtain ⟨k, found⟩ := List.mem_iff_getElem?.mp member
  apply List.mem_eraseIdx_iff_getElem?.mpr
  refine ⟨k, ?_, found⟩
  rintro rfl
  exact other found

/-- The step neither reads nor touches the file, and only ends writers that have nothing to post. -/
theorem Covered.keep {events : List (Moment Job Content)} {s t : Shared Job Content} {moment : Moment Job Content}
    (covered : Covered events s) (silent : reads moment = []) (file : t.file = s.file)
    (posting : Writer.posting ∈ s.writers → Writer.posting ∈ t.writers)
    (reader : t.reader ≠ .absent → s.reader ≠ .absent ∧ (s.reader = .observing → t.reader = .observing))
    (nudged : s.pending = true ∨ 0 < s.tasks → t.pending = true ∨ 0 < t.tasks) : Covered (events ++ [moment]) t := by
  intro there
  obtain ⟨before, observing⟩ := reader there
  rw [last_same silent, file]
  rcases covered before with seen | waits | ⟨observed, coming⟩
  · exact .inl seen
  · exact .inr (.inl (posting waits))
  · exact .inr (.inr ⟨observing observed, nudged coming⟩)

theorem step_covered {events : List (Moment Job Content)} {s t : Shared Job Content} {event : Event Job}
    (covered : Covered events s) (ok : punctual s event = true) (taken : step prepare s event = some t) :
    Covered (events ++ [⟨s, event, t⟩]) t := by
  cases event with
  | begin job =>
    simp only [step] at taken
    split at taken
    · obtain rfl := Option.some.inj taken
      exact covered.keep rfl rfl id (fun there => ⟨there, id⟩) id
    · obtain rfl := Option.some.inj taken
      exact covered.keep rfl rfl (List.mem_append_left _) (fun there => ⟨there, id⟩) id
  | write i done =>
    simp only [step] at taken
    split at taken
    · next job content found =>
      split at taken
      · obtain rfl := Option.some.inj taken
        intro _
        have small := (List.getElem?_eq_some_iff.mp found).1
        exact .inr (.inl (List.mem_of_getElem? (List.getElem?_set_self small)))
      · obtain rfl := Option.some.inj taken
        refine covered.keep rfl rfl (fun member => mem_erase_other member ?_) (fun there => ⟨there, id⟩) id
        rw [found]
        exact fun same => nomatch Option.some.inj same
    · cases taken
  | post i =>
    simp only [step] at taken
    split at taken
    · obtain rfl := Option.some.inj taken
      intro there
      have observing : s.reader = .observing := by
        cases now : s.reader with
        | absent => exact absurd now there
        | starting =>
          rw [punctual, now] at ok
          cases ok
        | observing => rfl
      refine .inr (.inr ⟨observing, .inl ?_⟩)
      rw [observing]
      exact Bool.or_true _
    · cases taken
  | quit i =>
    simp only [step, Option.ite_none_right_eq_some, Option.some.injEq] at taken
    obtain ⟨_, rfl⟩ := taken
    refine covered.keep rfl rfl (fun member => mem_erase_other member ?_) (fun there => ⟨there, id⟩) id
    intro found
    rw [punctual, found] at ok
    cases ok
  | look =>
    simp only [step, Option.ite_none_right_eq_some, Option.some.injEq] at taken
    obtain ⟨_, rfl⟩ := taken
    exact fun _ => .inl (last_new rfl)
  | observe =>
    simp only [step, Option.ite_none_right_eq_some, Option.some.injEq] at taken
    obtain ⟨starting, rfl⟩ := taken
    have began : s.reader ≠ .absent := by
      rw [starting]
      exact Reader.noConfusion
    exact covered.keep rfl rfl id (fun _ => ⟨began, fun _ => rfl⟩) id
  | deliver =>
    simp only [step, Option.ite_none_right_eq_some, Option.some.injEq] at taken
    obtain ⟨_, rfl⟩ := taken
    exact covered.keep rfl rfl id (fun there => ⟨there, id⟩) fun _ => .inr (Nat.succ_pos _)
  | read =>
    simp only [step, Option.ite_none_right_eq_some, Option.some.injEq] at taken
    obtain ⟨_, rfl⟩ := taken
    exact fun _ => .inl (last_new rfl)
  | leave =>
    obtain rfl := Option.some.inj taken
    exact fun there => absurd rfl there

/-- No nudge is lost: once nothing is under way, a reader that observes has read the file as it is. -/
theorem run_covered {file : Content} {events : List (Moment Job Content)} {s : Shared Job Content}
    (trace : Trace (step prepare) (fun s event => punctual s event = true) (initial file) events s)
    (quiet : Quiet s) (observing : s.reader = .observing) : (events.flatMap reads).getLast? = some s.file := by
  have covered := trace.invariant Covered (fun _ _ _ _ kept ok taken => step_covered kept ok taken)
    (fun there => absurd rfl there)
  obtain ⟨none, still, idle⟩ := quiet
  rcases covered (by rw [observing]; exact Reader.noConfusion) with seen | waits | ⟨_, pending | tasks⟩
  · exact seen
  · rw [none] at waits
    cases waits
  · rw [still] at pending
    cases pending
  · rw [idle] at tasks
    cases tasks

/-- Once nothing is under way, what the reader read last is what the last job that wrote means. -/
theorem run_caught_up {Meaning : Type} {reading : Content → Meaning} {meaning : Job → Meaning}
    (faithful : ∀ job old content, prepare job old = some content → reading content = meaning job)
    {file : Content} {events : List (Moment Job Content)} {s : Shared Job Content}
    (trace : Trace (step prepare) (fun s event => punctual s event = true) (initial file) events s)
    (quiet : Quiet s) (observing : s.reader = .observing) {job : Job}
    (last : (events.flatMap writes).getLast? = some job) :
    (events.flatMap reads).getLast?.map reading = some (meaning job) := by
  rw [run_covered trace quiet observing, Option.map_some, run_last faithful trace, last]
  rfl

end Reading

end Protocol

end ShadowVpn.Lib.Nudge
