import ShadowVpn.Engine.Lifecycle

/-! The core under a caller that only ever stops it with `stop_blocking`: there is one session at most
that was not joined, and when `stop_blocking` returns all egress tasks have ended. -/

namespace ShadowVpn.Engine.Phases
open ShadowVpn.Lib.Octets ShadowVpn.Wire.Crypto ShadowVpn.Engine.DataPlane ShadowVpn.Engine.Moves
open ShadowVpn.Engine.Lifecycle

/-- No session, or only joined ones. -/
structure Closed (c : Core) : Prop where
  control : c.control = .idle
  slot : c.slot = none
  running : c.running = false
  count : c.sessions.length = c.released

/-- `start` is about to return. -/
structure Opening (c : Core) : Prop where
  control : c.control = .installing c.released ∧ c.slot = none ∨ c.control = .raising ∧ c.slot = some c.released
  count : c.sessions.length = c.released + 1

structure Opened (c : Core) : Prop where
  control : c.control = .idle
  slot : c.slot = some c.released
  running : c.running = true
  count : c.sessions.length = c.released + 1

/-- `stop_blocking` has not returned yet. -/
structure Closing (c : Core) : Prop where
  control : c.control = .lowered true ∧ c.slot = some c.released ∨
    ∃ todo, c.control = .ending c.released todo true ∧ c.slot = none
  running : c.running = false
  count : c.sessions.length = c.released + 1

/-- Every session that a `stop_blocking` has left behind was joined. -/
def Joined (c : Core) : Prop := ∀ (k : Nat) s, c.sessions[k]? = some s → k < c.released → s.egress.pc = .done

structure Tidy (c : Core) : Prop where
  safe : Safe c
  joined : Joined c
  phase : Closed c ∨ Opening c ∨ Opened c ∨ Closing c

/-- A step that is no call takes a phase to itself or to the next. -/
structure Follows (c d : Core) : Prop where
  count : d.sessions.length = c.sessions.length
  released : c.released ≤ d.released
  closed : Closed c → Closed d
  opening : Opening c → Opening d ∨ Opened d
  opened : Opened c → Opened d
  closing : Closing c → Closing d ∨ Closed d

/-- Only with an interceptor does the ingress task reach the writer, and not while it is suspended. -/
def answersRest (s : Session) : Bool := s.interceptor.isNone || s.ingress.parked || Ingress.ended s.ingress.pc

/-- When `stop_blocking` returns, no ingress task with an interceptor is in the middle of a poll. -/
def calm (c : Core) (event : Event) : Bool :=
  match event with
  | .control => !returns c || c.sessions.all answersRest
  | _ => true

def isCall : Event → Bool
  | .call _ => true
  | _ => false

theorem initial_tidy : Tidy initial where
  safe := initial_safe
  joined _ _ found := by simp [initial] at found
  phase := .inl ⟨rfl, rfl, rfl, rfl⟩

section Steps

variable {prims : Primitives} {c d : Core}

theorem letGo_done {s : Session} {handle : Handle} (done : s.egress.pc = .done) :
    (letGo s handle).egress.pc = .done := by
  cases handle <;> exact done

/-- An egress task that has ended stays so. -/
theorem step_done {s after : Session} {action : Action} (done : s.egress.pc = .done)
    (taken : DataPlane.step prims s action = some after) : after.egress.pc = .done := by
  cases action with
  | cloneSender => exact Option.some.inj taken ▸ done
  | dropSender =>
    simp only [DataPlane.step] at taken
    split at taken
    · exact Option.some.inj taken ▸ done
    · cases taken
  | trySend pkt =>
    simp only [DataPlane.step, DataPlane.trySend] at taken
    split at taken
    · rw [← Option.some.inj taken]
      split
      · exact done
      · split <;> exact done
    · cases taken
  | abort which =>
    obtain rfl := Option.some.inj taken
    cases which <;> exact done
  | park which =>
    cases which with
    | ingress =>
      obtain ⟨task, _, rfl⟩ := Option.map_eq_some_iff.mp taken
      exact done
    | egress =>
      obtain ⟨task, parked, rfl⟩ := Option.map_eq_some_iff.mp taken
      obtain ⟨_, rfl⟩ := DataPlane.Task.park_some parked
      exact done
    | keepalive =>
      obtain ⟨task, _, rfl⟩ := Option.map_eq_some_iff.mp taken
      exact done
  | cancel which =>
    cases which with
    | ingress =>
      obtain ⟨task, _, rfl⟩ := Option.map_eq_some_iff.mp taken
      exact done
    | egress =>
      obtain ⟨task, cancelled, rfl⟩ := Option.map_eq_some_iff.mp taken
      obtain ⟨_, _, rfl⟩ := DataPlane.Task.cancel_some cancelled
      exact rfl
    | keepalive =>
      obtain ⟨task, _, rfl⟩ := Option.map_eq_some_iff.mp taken
      exact done
  | directArrives datagram =>
    obtain ⟨queue, out, rfl⟩ := directArrives_some taken
    exact done
  | tunnelArrives arrival =>
    obtain ⟨queue, out, rfl⟩ := tunnelArrives_some taken
    exact done
  | ingress nonce ok => rw [(ingressStep_tasks taken).2.2.2, done]
  | egress ok => exact absurd done (egressStep_tasks taken).2.1
  | keepalive nonce ok => rw [(keepaliveStep_tasks taken).2, done]
  | cleanSend index ok =>
    simp only [DataPlane.step, cleanSend, Option.map_eq_some_iff] at taken
    obtain ⟨clean, _, rfl⟩ := taken
    split <;> exact done

/-- A change of one session. -/
theorem update_joined {b : Core} {k : Nat} {change : Session → Option Session} (joined : Joined c)
    (taken : update b k change = some d) (sessions : b.sessions = c.sessions) (released : b.released = c.released)
    (keeps : ∀ s next, change s = some next → s.egress.pc = .done → next.egress.pc = .done) : Joined d := by
  obtain ⟨s, next, writes, found, changed, rfl⟩ := update_cases taken
  intro j t set low
  simp only [sessions] at set found
  simp only [released] at low
  rcases getElem?_set_cases found set with ⟨rfl, rfl⟩ | ⟨_, old⟩
  · exact keeps s t changed (joined j s found low)
  · exact joined j t old low

theorem finishIngest_done {s : Session} (pkt : Bytes) (done : s.egress.pc = .done) :
    (DataPlane.trySend s pkt).1.egress.pc = .done := by
  unfold DataPlane.trySend
  split
  · exact done
  · split <;> exact done

/-- What the steps other than calls and `.control` leave alone. -/
structure Same (c d : Core) : Prop where
  control : d.control = c.control
  slot : d.slot = c.slot
  running : d.running = c.running
  released : d.released = c.released
  count : d.sessions.length = c.sessions.length

theorem update_same {b : Core} {k : Nat} {change : Session → Option Session} (same : Same c b)
    (taken : update b k change = some d) : Same c d := by
  obtain ⟨s, next, writes, found, changed, rfl⟩ := update_cases taken
  exact ⟨same.control, same.slot, same.running, same.released, List.length_set.trans same.count⟩

theorem Same.follows (same : Same c d) : Follows c d where
  count := same.count
  released := Nat.le_of_eq same.released.symm
  closed inv := ⟨same.control.trans inv.control, same.slot.trans inv.slot, same.running.trans inv.running,
    same.count.trans (inv.count.trans same.released.symm)⟩
  opening inv := by
    left
    refine ⟨?_, ?_⟩
    · rw [same.control, same.slot, same.released]
      exact inv.control
    · rw [same.count, same.released]
      exact inv.count
  opened inv := by
    refine ⟨same.control.trans inv.control, ?_, same.running.trans inv.running, ?_⟩
    · rw [same.slot, same.released]
      exact inv.slot
    · rw [same.count, same.released]
      exact inv.count
  closing inv := by
    left
    refine ⟨?_, same.running.trans inv.running, ?_⟩
    · rw [same.control, same.slot, same.released]
      exact inv.control
    · rw [same.count, same.released]
      exact inv.count

theorem steps_same {event : Event} (own : isCall event = false) (other : event ≠ .control)
    (taken : coreStep prims c event = some d) : Same c d ∧ (Joined c → Joined d) := by
  have start : Same c c := ⟨rfl, rfl, rfl, rfl, rfl⟩
  cases event with
  | call call => cases own
  | control => exact absurd rfl other
  | session k action =>
    simp only [coreStep] at taken
    split at taken
    · refine ⟨update_same start taken, fun joined => update_joined joined taken rfl rfl ?_⟩
      exact fun s next changed done => step_done done changed
    · cases taken
  | ingest pkt =>
    simp only [coreStep, ingest] at taken
    split at taken
    · obtain rfl := Option.some.inj taken
      exact ⟨⟨rfl, rfl, rfl, rfl, rfl⟩, id⟩
    · split at taken
      · obtain rfl := Option.some.inj taken
        exact ⟨⟨rfl, rfl, rfl, rfl, rfl⟩, id⟩
      · refine ⟨update_same ?_ taken, fun joined => update_joined joined taken rfl rfl ?_⟩
        · exact ⟨rfl, rfl, rfl, rfl, rfl⟩
        · exact fun s next changed done => step_done done changed
  | trySend index =>
    simp only [coreStep, finishIngest, Option.bind_eq_some_iff] at taken
    obtain ⟨entry, _, s, found, taken⟩ := taken
    have sent := update_cases taken
    obtain ⟨s', next, writes, found', changed, rfl⟩ := sent
    refine ⟨⟨rfl, rfl, rfl, rfl, List.length_set⟩, ?_⟩
    intro joined j t set low
    obtain rfl := Option.some.inj changed
    rcases getElem?_set_cases found' set with ⟨rfl, rfl⟩ | ⟨_, old⟩
    · exact finishIngest_done entry.2 (joined entry.1 s found low)
    · exact joined j t old low

theorem idle_stays (idle : c.control = .idle) : controlStep c ≠ some d := by
  rw [controlStep, idle]
  intro same
  cases same

theorem Opening.busy (opening : Opening c) : c.control ≠ .idle := by
  intro idle
  rcases opening.control with ⟨control, _⟩ | ⟨control, _⟩ <;> rw [idle] at control <;> cases control

theorem Closing.busy (closing : Closing c) : c.control ≠ .idle := by
  intro idle
  rcases closing.control with ⟨control, _⟩ | ⟨_, control, _⟩ <;> rw [idle] at control <;> cases control

theorem Opening.next (opening : Opening c) (joined : Joined c) (taken : controlStep c = some d) :
    (Opening d ∨ Opened d) ∧ Joined d ∧ d.sessions.length = c.sessions.length ∧ c.released ≤ d.released := by
  rcases opening.control with ⟨control, slot⟩ | ⟨control, slot⟩
  · rw [controlStep, control] at taken
    obtain rfl := Option.some.inj taken
    exact ⟨.inl ⟨.inr ⟨rfl, rfl⟩, opening.count⟩, joined, rfl, Nat.le_refl _⟩
  · rw [controlStep, control] at taken
    obtain rfl := Option.some.inj taken
    exact ⟨.inr ⟨rfl, slot, rfl, opening.count⟩, joined, rfl, Nat.le_refl _⟩

/-- The session that is joined is the last one. -/
theorem joined_all (joined : Joined c) (count : c.sessions.length = c.released + 1)
    (last : Lifecycle.joined c c.released = true) {k : Nat} {s : Session} (found : c.sessions[k]? = some s) :
    s.egress.pc = .done := by
  have inside := (List.getElem?_eq_some_iff.mp found).1
  by_cases low : k < c.released
  · exact joined k s found low
  · have same : k = c.released := by omega
    rw [Lifecycle.joined, ← same, found] at last
    cases pc : s.egress.pc with
    | done => rfl
    | recv | received | writing => simp [Egress.ended, pc] at last

theorem Closing.next (closing : Closing c) (joined : Joined c) (taken : controlStep c = some d) :
    (Closing d ∨ Closed d) ∧ Joined d ∧ d.sessions.length = c.sessions.length ∧ c.released ≤ d.released := by
  rcases closing.control with ⟨control, slot⟩ | ⟨todo, control, slot⟩
  · rw [controlStep, control] at taken
    simp only [slot, Option.some.injEq] at taken
    obtain rfl := taken
    exact ⟨.inl ⟨.inr ⟨_, rfl, rfl⟩, closing.running, closing.count⟩, joined, rfl, Nat.le_refl _⟩
  · cases todo with
    | nil =>
      rw [controlStep, control] at taken
      simp only [if_true] at taken
      split at taken
      · next last =>
        obtain rfl := Option.some.inj taken
        refine ⟨.inr ⟨rfl, slot, closing.running, rfl⟩, ?_, rfl, ?_⟩
        · exact fun k s found _ => joined_all joined closing.count last found
        · change c.released ≤ c.sessions.length
          exact closing.count ▸ Nat.le_succ _
      · cases taken
    | cons handle todo =>
      rw [controlStep, control] at taken
      have next := update_joined joined taken rfl rfl (fun s next changed done =>
        Option.some.inj changed ▸ letGo_done done)
      obtain ⟨s, after, writes, found, changed, rfl⟩ := update_cases taken
      refine ⟨.inl ⟨.inr ⟨todo, rfl, slot⟩, closing.running, ?_⟩, next, List.length_set, Nat.le_refl _⟩
      exact List.length_set.trans closing.count

/-- A step of the running call. -/
theorem Tidy.control (tidy : Tidy c) (taken : controlStep c = some d) : Follows c d ∧ Joined d := by
  have next : Joined d ∧ d.sessions.length = c.sessions.length ∧ c.released ≤ d.released := by
    rcases tidy.phase with closed | opening | opened | closing
    · exact absurd taken (idle_stays closed.control)
    · exact (opening.next tidy.joined taken).2
    · exact absurd taken (idle_stays opened.control)
    · exact (closing.next tidy.joined taken).2
  refine ⟨⟨next.2.1, next.2.2, ?_, ?_, ?_, ?_⟩, next.1⟩
  · exact fun closed => absurd taken (idle_stays closed.control)
  · exact fun opening => (opening.next tidy.joined taken).1
  · exact fun opened => absurd taken (idle_stays opened.control)
  · exact fun closing => (closing.next tidy.joined taken).1

/-- At the return of `stop_blocking` nothing but the ingress tasks can be in the middle of a poll. -/
theorem Tidy.restful (tidy : Tidy c) {event : Event} (calm : calm c event = true)
    (taken : coreStep prims c event = some d) : restful c event = true := by
  cases event with
  | call | session | ingest | trySend => rfl
  | control =>
    rw [Lifecycle.restful, Bool.or_eq_true_iff]
    rcases Bool.or_eq_true_iff.mp calm with elsewhere | rest
    · exact Or.inl elsewhere
    · rcases tidy.phase with closed | opening | opened | closing
      · exact absurd taken (idle_stays closed.control)
      · left
        rcases opening.control with ⟨control, _⟩ | ⟨control, _⟩ <;> rw [returns, control] <;> rfl
      · exact absurd taken (idle_stays opened.control)
      · rcases closing.control with ⟨control, slot⟩ | ⟨todo, control, slot⟩
        · left
          rw [returns, control, slot]
          rfl
        · cases todo with
          | cons handle todo =>
            left
            rw [returns, control]
            rfl
          | nil =>
            right
            apply List.all_eq_true.mpr
            intro s member
            obtain ⟨k, found⟩ := List.mem_iff_getElem?.mp member
            have last : Lifecycle.joined c c.released = true := by
              by_contra absent
              change controlStep c = some d at taken
              rw [controlStep, control] at taken
              simp [absent] at taken
            have done := joined_all tidy.joined closing.count last found
            rw [atRest, done]
            exact Bool.and_eq_true_iff.mpr ⟨List.all_eq_true.mp rest s member, Bool.or_true _⟩

/-- Every step that is no call keeps the core tidy. -/
theorem Tidy.step (tidy : Tidy c) {event : Event} (own : isCall event = false) (calm : calm c event = true)
    (taken : coreStep prims c event = some d) : Tidy d ∧ Follows c d := by
  have safe := coreStep_safe tidy.safe (tidy.restful calm taken) taken
  have follows : Follows c d ∧ Joined d := by
    by_cases here : event = .control
    · subst here
      exact tidy.control taken
    · have same := steps_same own here taken
      exact ⟨same.1.follows, same.2 tidy.joined⟩
  refine ⟨⟨safe, follows.2, ?_⟩, follows.1⟩
  rcases tidy.phase with closed | opening | opened | closing
  · exact .inl (follows.1.closed closed)
  · rcases follows.1.opening opening with still | now
    · exact .inr (.inl still)
    · exact .inr (.inr (.inl now))
  · exact .inr (.inr (.inl (follows.1.opened opened)))
  · rcases follows.1.closing closing with still | now
    · exact .inr (.inr (.inr still))
    · exact .inl now

/-- A start adds one session, or it fails and nothing has happened. -/
theorem Tidy.start (tidy : Tidy c) {config : Option Config} (taken : issue c (.start config) = some d) :
    Tidy d ∧ (d = c ∨ Closed c ∧ Opening d ∧ d.released = c.released ∧
      d.sessions.length = c.sessions.length + 1) := by
  have safe := issue_safe tidy.safe taken
  unfold issue at taken
  split at taken
  · next idle =>
    cases config with
    | none =>
      obtain rfl := Option.some.inj taken
      exact ⟨tidy, .inl rfl⟩
    | some config =>
      simp only at taken
      split at taken
      · obtain rfl := Option.some.inj taken
        exact ⟨tidy, .inl rfl⟩
      · next stopped =>
        have closed : Closed c := by
          rcases tidy.phase with closed | opening | opened | closing
          · exact closed
          · exact absurd idle opening.busy
          · exact absurd opened.running stopped
          · exact absurd idle closing.busy
        obtain rfl := Option.some.inj taken
        have more : (c.sessions ++ [DataPlane.start config.interceptor config.carrier]).length =
            c.released + 1 := by
          rw [List.length_append, closed.count, List.length_singleton]
        have opening : Opening
            { c with sessions := c.sessions ++ [DataPlane.start config.interceptor config.carrier]
                     control := .installing c.sessions.length } :=
          ⟨.inl ⟨congrArg Control.installing closed.count, closed.slot⟩, more⟩
        refine ⟨⟨safe, ?_, .inr (.inl opening)⟩, .inr ⟨closed, opening, rfl, List.length_append⟩⟩
        intro k s found low
        change (c.sessions ++ _)[k]? = some s at found
        rw [List.getElem?_append_left (closed.count ▸ low)] at found
        exact tidy.joined k s found low
  · cases taken

theorem Tidy.stop (tidy : Tidy c) (opened : Opened c) (taken : issue c .stopBlocking = some d) :
    Tidy d ∧ Closing d ∧ d.released = c.released ∧ d.sessions.length = c.sessions.length := by
  have safe := issue_safe tidy.safe taken
  rw [issue, opened.control] at taken
  obtain rfl := Option.some.inj taken
  have closing : Closing { c with running := false, control := .lowered true } :=
    ⟨.inl ⟨rfl, opened.slot⟩, rfl, opened.count⟩
  exact ⟨⟨safe, tidy.joined, .inr (.inr (.inr closing))⟩, closing, rfl, rfl⟩

/-- What a step hands to the writer is of one of the sessions so far. -/
theorem update_writes {b : Core} {k : Nat} {change : Session → Option Session} (taken : update b k change = some d)
    (sessions : b.sessions = c.sessions) (released : b.released = c.released) (writes : b.writes = c.writes) :
    ∃ more, d.writes = c.writes ++ more ∧
      ∀ write ∈ more, write.released = c.released ∧ write.session < c.sessions.length := by
  simp only [update, Option.bind_eq_some_iff, Option.map_eq_some_iff] at taken
  obtain ⟨s, found, next, _, rfl⟩ := taken
  refine ⟨_, congrArg (· ++ _) writes, ?_⟩
  intro write member
  obtain ⟨_, rfl⟩ := List.mem_replicate.mp member
  exact ⟨released, sessions ▸ (List.getElem?_eq_some_iff.mp found).1⟩

theorem coreStep_writes {event : Event} (own : isCall event = false) (taken : coreStep prims c event = some d) :
    ∃ more, d.writes = c.writes ++ more ∧
      ∀ write ∈ more, write.released = c.released ∧ write.session < c.sessions.length := by
  have nothing : d.writes = c.writes → ∃ more, d.writes = c.writes ++ more ∧
      ∀ write ∈ more, write.released = c.released ∧ write.session < c.sessions.length :=
    fun same => ⟨[], by rw [same, List.append_nil], fun _ member => absurd member List.not_mem_nil⟩
  cases event with
  | call call => cases own
  | control =>
    change controlStep c = some d at taken
    unfold controlStep at taken
    split at taken
    · cases taken
    · exact nothing (Option.some.inj taken ▸ rfl)
    · exact nothing (Option.some.inj taken ▸ rfl)
    · split at taken
      · obtain rfl := Option.some.inj taken
        apply nothing
        split <;> rfl
      · exact nothing (Option.some.inj taken ▸ rfl)
    · exact update_writes taken rfl rfl rfl
    · split at taken
      · split at taken
        · exact nothing (Option.some.inj taken ▸ rfl)
        · cases taken
      · exact nothing (Option.some.inj taken ▸ rfl)
  | session k action =>
    simp only [coreStep] at taken
    split at taken
    · exact update_writes taken rfl rfl rfl
    · cases taken
  | ingest pkt =>
    simp only [coreStep, ingest] at taken
    split at taken
    · exact nothing (Option.some.inj taken ▸ rfl)
    · split at taken
      · exact nothing (Option.some.inj taken ▸ rfl)
      · exact update_writes taken rfl rfl rfl
  | trySend index =>
    simp only [coreStep, finishIngest, Option.bind_eq_some_iff] at taken
    obtain ⟨entry, _, s, found, taken⟩ := taken
    exact update_writes taken rfl rfl rfl

end Steps

end ShadowVpn.Engine.Phases
