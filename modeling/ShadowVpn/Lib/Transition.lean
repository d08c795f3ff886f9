/-! Runs of a partial step function: what is reached when every step is allowed, and the rule
that carries an invariant along such a run. -/

namespace ShadowVpn.Lib.Transition

variable {State Label : Type} (step : State → Label → Option State)

/-- The second state is reached from the first by steps that are all allowed where they are taken. -/
inductive Reaches (allowed : State → Label → Prop) (start : State) : State → Prop
  | refl : Reaches allowed start start
  | next {before after : State} (label : Label) (reached : Reaches allowed start before)
      (ok : allowed before label) (taken : step before label = some after) :
      Reaches allowed start after

/-- Every label is a possible step. -/
abbrev Reachable (start : State) : State → Prop := Reaches step (fun _ _ => True) start

def run : State → List Label → Option State
  | state, [] => some state
  | state, label :: rest => (step state label).bind fun next => run next rest

/-- A computed run all of whose steps pass a test. -/
def testedRun (test : State → Label → Bool) : State → List Label → Option State
  | state, [] => some state
  | state, label :: rest =>
    if test state label then (step state label).bind fun next => testedRun test next rest else none

variable {step}

/-- What holds at the start and is kept by every allowed step holds wherever a run leads. -/
theorem Reaches.invariant {allowed : State → Label → Prop} {start state : State} (inv : State → Prop)
    (keeps : ∀ before label after, inv before → allowed before label →
      step before label = some after → inv after)
    (holds : inv start) (reached : Reaches step allowed start state) : inv state := by
  induction reached with
  | refl => exact holds
  | next label _ ok taken ih => exact keeps _ label _ ih ok taken

/-- A run whose steps are allowed is a run where more is allowed. -/
theorem Reaches.mono {allowed wider : State → Label → Prop} {start state : State}
    (weaker : ∀ before label, allowed before label → wider before label)
    (reached : Reaches step allowed start state) : Reaches step wider start state := by
  induction reached with
  | refl => exact .refl
  | next label _ ok taken ih => exact .next label ih (weaker _ label ok) taken

theorem Reaches.trans {allowed : State → Label → Prop} {start middle state : State}
    (first : Reaches step allowed start middle) (second : Reaches step allowed middle state) :
    Reaches step allowed start state := by
  induction second with
  | refl => exact first
  | next label _ ok taken ih => exact .next label ih ok taken

theorem reaches_of_testedRun {test : State → Label → Bool} {start state : State} {labels : List Label}
    (ran : testedRun step test start labels = some state) :
    Reaches step (fun s l => test s l = true) start state := by
  induction labels generalizing start with
  | nil =>
    rw [testedRun, Option.some.injEq] at ran
    exact ran ▸ .refl
  | cons label rest ih =>
    rw [testedRun] at ran
    split at ran
    · next ok =>
      rw [Option.bind_eq_some_iff] at ran
      obtain ⟨next, taken, later⟩ := ran
      exact Reaches.trans (.next label .refl ok taken) (ih later)
    · exact absurd ran (by simp)

/-- A run that was computed is a run. -/
theorem reachable_of_run {start state : State} {labels : List Label}
    (ran : run step start labels = some state) : Reachable step start state := by
  induction labels generalizing start with
  | nil =>
    rw [run, Option.some.injEq] at ran
    exact ran ▸ .refl
  | cons label rest ih =>
    rw [run, Option.bind_eq_some_iff] at ran
    obtain ⟨next, taken, later⟩ := ran
    exact Reaches.trans (.next label .refl trivial taken) (ih later)

end ShadowVpn.Lib.Transition
