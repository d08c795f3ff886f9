import ShadowVpn.Lib.Transition

/-! Runs with their history: the steps that were taken, in order, and the rules that turn a fact
about one step into a fact about what an observer sees of a whole run. -/

namespace ShadowVpn.Lib.Histories
open ShadowVpn.Lib.Transition

/-- One step that was taken. -/
structure Event (State Label : Type) where
  before : State
  label : Label
  after : State

section Runs

variable {State Label : Type} (step : State → Label → Option State)

/-- The steps of a run from the start to the state it ends in. -/
inductive Trace (allowed : State → Label → Prop) (start : State) : List (Event State Label) → State → Prop
  | start : Trace allowed start [] start
  | next {events : List (Event State Label)} {before after : State} (label : Label)
      (trace : Trace allowed start events before) (ok : allowed before label)
      (taken : step before label = some after) :
      Trace allowed start (events ++ [⟨before, label, after⟩]) after

/-- The steps of a computed run. -/
def record : State → List Label → List (Event State Label)
  | _, [] => []
  | state, label :: rest =>
    match step state label with
    | none => []
    | some next => ⟨state, label, next⟩ :: record next rest

variable {step}
variable {allowed : State → Label → Prop} {start state : State} {events : List (Event State Label)}

theorem Trace.reaches (trace : Trace step allowed start events state) :
    Reaches step allowed start state := by
  induction trace with
  | start => exact .refl
  | next label _ ok taken ih => exact .next label ih ok taken

theorem Trace.mono {wider : State → Label → Prop} (weaker : ∀ before label, allowed before label → wider before label)
    (trace : Trace step allowed start events state) : Trace step wider start events state := by
  induction trace with
  | start => exact .start
  | next label _ ok taken ih => exact .next label ih (weaker _ label ok) taken

/-- What holds of the empty history and is kept by every allowed step holds of every history. -/
theorem Trace.invariant (inv : List (Event State Label) → State → Prop)
    (keeps : ∀ events before label after, inv events before → allowed before label →
      step before label = some after → inv (events ++ [⟨before, label, after⟩]) after)
    (holds : inv [] start) (trace : Trace step allowed start events state) : inv events state := by
  induction trace with
  | start => exact holds
  | next label _ ok taken ih => exact keeps _ _ label _ ih ok taken

/-- Nothing is lost, invented or reordered between what goes in and what comes out, if every step
appends what goes in to what is inside and takes what comes out off its front. -/
theorem Trace.conserved {Item : Type} (inside : State → List Item)
    (input output : Event State Label → List Item) (inv : State → Prop)
    (keeps : ∀ before label after, inv before → allowed before label →
      step before label = some after → inv after)
    (flow : ∀ before label after, inv before → allowed before label →
      step before label = some after →
      inside before ++ input ⟨before, label, after⟩ = output ⟨before, label, after⟩ ++ inside after)
    (holds : inv start) (trace : Trace step allowed start events state) :
    inside start ++ events.flatMap input = events.flatMap output ++ inside state := by
  suffices both : inv state ∧
      inside start ++ events.flatMap input = events.flatMap output ++ inside state from both.2
  induction trace with
  | start => exact ⟨holds, by simp⟩
  | next label _ ok taken ih =>
    refine ⟨keeps _ label _ ih.1 ok taken, ?_⟩
    simp only [List.flatMap_append, List.flatMap_cons, List.flatMap_nil, List.append_nil]
    rw [← List.append_assoc, ih.2, List.append_assoc, flow _ label _ ih.1 ok taken, List.append_assoc]

/-- What went in has come out or is still inside, whatever the order, if that holds of every step. -/
theorem Trace.balanced {Item : Type} (inside : State → List Item)
    (input output : Event State Label → List Item)
    (flow : ∀ before label after, allowed before label → step before label = some after →
      (inside before ++ input ⟨before, label, after⟩).Perm (output ⟨before, label, after⟩ ++ inside after))
    (trace : Trace step allowed start events state) :
    (inside start ++ events.flatMap input).Perm (events.flatMap output ++ inside state) := by
  induction trace with
  | start => simp
  | next label _ ok taken ih =>
    simp only [List.flatMap_append, List.flatMap_cons, List.flatMap_nil, List.append_nil]
    rw [← List.append_assoc]
    apply (ih.append_right _).trans
    rw [List.append_assoc, List.append_assoc]
    exact (flow _ label _ ok taken).append_left _

/-- What every step can show, a whole run can show. -/
theorem Trace.shows {Item : Type} (output : Event State Label → List Item) (fits : Item → Prop)
    (inv : State → Prop)
    (keeps : ∀ before label after, inv before → allowed before label →
      step before label = some after → inv after)
    (each : ∀ before label after, inv before → allowed before label →
      step before label = some after → ∀ item ∈ output ⟨before, label, after⟩, fits item)
    (holds : inv start) (trace : Trace step allowed start events state) :
    inv state ∧ ∀ item ∈ events.flatMap output, fits item := by
  induction trace with
  | start => exact ⟨holds, by simp⟩
  | next label _ ok taken ih =>
    refine ⟨keeps _ label _ ih.1 ok taken, fun item member => ?_⟩
    simp only [List.flatMap_append, List.flatMap_cons, List.flatMap_nil, List.append_nil,
      List.mem_append] at member
    rcases member with early | now
    · exact ih.2 item early
    · exact each _ label _ ih.1 ok taken item now

/-- A list that every step can only extend by what it shows holds all that was shown. -/
theorem Trace.gathered {Item : Type} (seen : State → List Item) (output : Event State Label → List Item)
    (adds : ∀ before label after, allowed before label → step before label = some after →
      seen after = seen before ++ output ⟨before, label, after⟩)
    (trace : Trace step allowed start events state) :
    seen state = seen start ++ events.flatMap output := by
  induction trace with
  | start => simp
  | next label _ ok taken ih =>
    rw [adds _ label _ ok taken, ih]
    simp

theorem trace_of_run_from {origin : State} {past : List (Event State Label)} {labels : List Label}
    (before : Trace step (fun _ _ => True) origin past start) (ran : run step start labels = some state) :
    Trace step (fun _ _ => True) origin (past ++ record step start labels) state := by
  induction labels generalizing start past with
  | nil =>
    rw [run, Option.some.injEq] at ran
    rw [record, List.append_nil]
    exact ran ▸ before
  | cons label rest ih =>
    rw [run, Option.bind_eq_some_iff] at ran
    obtain ⟨next, taken, later⟩ := ran
    have more := ih (.next label before trivial taken) later
    simpa only [record, taken, List.append_assoc, List.singleton_append] using more

/-- A computed run has its record for a history. -/
theorem trace_of_run {labels : List Label} (ran : run step start labels = some state) :
    Trace step (fun _ _ => True) start (record step start labels) state :=
  trace_of_run_from .start ran

theorem trace_of_testedRun_from {test : State → Label → Bool} {origin : State} {past : List (Event State Label)}
    {labels : List Label} (before : Trace step (fun s l => test s l = true) origin past start)
    (ran : testedRun step test start labels = some state) :
    Trace step (fun s l => test s l = true) origin (past ++ record step start labels) state := by
  induction labels generalizing start past with
  | nil =>
    rw [testedRun, Option.some.injEq] at ran
    rw [record, List.append_nil]
    exact ran ▸ before
  | cons label rest ih =>
    rw [testedRun] at ran
    split at ran
    · next ok =>
      rw [Option.bind_eq_some_iff] at ran
      obtain ⟨next, taken, later⟩ := ran
      have more := ih (.next label before ok taken) later
      simpa only [record, taken, List.append_assoc, List.singleton_append] using more
    · cases ran

/-- A computed run that passes a test has its record for a history of such steps. -/
theorem trace_of_testedRun {test : State → Label → Bool} {labels : List Label}
    (ran : testedRun step test start labels = some state) :
    Trace step (fun s l => test s l = true) start (record step start labels) state :=
  trace_of_testedRun_from .start ran

end Runs

end ShadowVpn.Lib.Histories
