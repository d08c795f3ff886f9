import ShadowVpn.Engine.Books

/-! The two byte counters over all sessions. A packet is counted where the loops forward it; the
answers that the interceptor makes and the clean copies it sends pass both counters by. -/

namespace ShadowVpn.Engine.Counters
open ShadowVpn.Lib.Octets ShadowVpn.Lib.Transition ShadowVpn.Wire.Crypto
open ShadowVpn.Engine.Intercept ShadowVpn.Engine.Datagram ShadowVpn.Engine.DataPlane
open ShadowVpn.Engine.Lifecycle ShadowVpn.Engine.Books

def total (packets : List Bytes) : Nat := (packets.map List.length).sum

def packets (emitted : List Emission) : List Bytes := emitted.map Emission.packet

/-- The value of an `AtomicI64` to which this much was added. -/
def counter (added : Nat) : Int := (BitVec.ofNat 64 added).toInt

/-- One more than the largest value of a counter. -/
def counterLimit : Nat := 9223372036854775808

/-- `UP_BYTES`: every session adds to it, and no start sets it back. -/
def upBytes (c : Core) : Int := counter (c.sessions.map Session.up).sum

/-- `DOWN_BYTES`. -/
def downBytes (c : Core) : Int := counter (c.sessions.map Session.down).sum

/-- What all sessions sent to the server, keepalives apart. -/
def sentBytes (c : Core) : Nat := (c.sessions.map fun s => total s.sent).sum

/-- What all sessions handed to the writer. -/
def writtenBytes (c : Core) : Nat := (c.sessions.map fun s => total (packets s.emitted)).sum

def Conserved (c : Core) : Prop := upBytes c = sentBytes c ∧ downBytes c = writtenBytes c

/-- No packet is between its count and its call of the writer. -/
def quiet (c : Core) : Bool := c.sessions.all fun s => (held s.egress.pc).isEmpty

section Steps

variable (prims : Primitives)

/-- The interceptor answers a query, at once or by a tunneled reply, or sends its clean copy. -/
def uncounted (s : Session) : Action → Bool
  | .ingress _ _ => match s.ingress.pc with
    | .responding _ _ => true
    | _ => false
  | .egress _ => match s.egress.pc with
    | .received arrival => consumes prims s arrival.wire
    | _ => false
  | .cleanSend _ ok => ok
  | _ => false

def counted (c : Core) : Event → Bool
  | .session k action => !(c.sessions[k]?).any fun s => uncounted prims s action
  | _ => true

end Steps

/-- The counters of a session are even with its books, but for what egress still holds. -/
structure Balanced (a : Account) : Prop where
  up : a.up = total a.sent
  down : a.down = total (packets a.emitted) + total (held a.egress.pc)
  parked : a.egress.parked = true → held a.egress.pc = []

theorem total_append (one two : List Bytes) : total (one ++ two) = total one + total two := by
  simp only [total, List.map_append, List.sum_append]

theorem total_cons (packet : Bytes) (rest : List Bytes) :
    total (packet :: rest) = packet.length + total rest := by
  simp only [total, List.map_cons, List.sum_cons]

theorem packets_append (emitted : List Emission) (emission : Emission) :
    total (packets (emitted ++ [emission])) = total (packets emitted) + emission.packet.length := by
  simp only [packets, List.map_append, List.map_cons, List.map_nil, total_append, total_cons]
  rfl

/-- A counter is exact as long as it does not overflow. -/
theorem counter_exact (added : Nat) : counter added = (added : Int) ↔ added < counterLimit := by
  unfold counter counterLimit
  rw [BitVec.toInt_eq_toNat_cond, BitVec.toNat_ofNat]
  split <;> omega

section Balance

variable {prims : Primitives}

/-- A packet that the interceptor leaves alone is counted and handed over. -/
theorem deliver_counted {s : Session} {wire : Bytes} (left : consumes prims s wire = false) :
    (deliver prims s.carrier s.interceptor s.pending wire).down =
      total (deliver prims s.carrier s.interceptor s.pending wire).emitted := by
  unfold deliver
  cases decoded : decode prims s.carrier wire with
  | none => rfl
  | some plaintext =>
    by_cases short : plaintext.length < 20
    · simp only [short, if_true]
      rfl
    · simp only [short, if_false, handOver]
      cases present : s.interceptor with
      | none => rfl
      | some i =>
        have readable : readable prims s.carrier wire = some plaintext := by
          simp [DataPlane.readable, decoded, Nat.le_of_not_lt short]
        simp only [consumes, present, readable] at left
        simp only [left, Bool.false_eq_true, if_false]
        rfl

theorem entry_balanced {s : Session} {action : Action} {a : Account} (entry : Entry prims s action a)
    (counted : uncounted prims s action = false) (even : Balanced (account s)) : Balanced a := by
  cases entry with
  | nothing => exact even
  | moved t after before =>
    have empty : held s.egress.pc = [] := before.elim even.parked id
    have down : s.down = total (packets s.emitted) + total (held s.egress.pc) := even.down
    refine ⟨even.up, ?_, fun _ => after⟩
    simpa only [account, after, empty] using down
  | forwarded pkt wire pc =>
    have up : s.up = total s.sent := even.up
    refine ⟨?_, even.down, even.parked⟩
    simp only [total_append, total_cons, up]
    rfl
  | responded q answer pc => simp [uncounted, pc] at counted
  | paired arrival pc =>
    have left : consumes prims s arrival.wire = false := by simpa only [uncounted, pc] using counted
    have down : s.down = total (packets s.emitted) + total (held s.egress.pc) := even.down
    have empty : held s.egress.pc = [] := by rw [pc]; rfl
    refine ⟨even.up, ?_, nofun⟩
    change s.down + (deliver prims s.carrier s.interceptor s.pending arrival.wire).down =
      total (packets s.emitted) + total (deliver prims s.carrier s.interceptor s.pending arrival.wire).emitted
    rw [deliver_counted left, down, empty]
    rfl
  | wrote packet rest origin pc =>
    have down : s.down = total (packets s.emitted) + total (held s.egress.pc) := even.down
    refine ⟨even.up, ?_, nofun⟩
    change s.down = total (packets (s.emitted ++ [_])) + total rest
    rw [packets_append, down, pc]
    simp only [held, total_cons]
    omega
  | cleaned index clean found => simp [uncounted] at counted

theorem step_balanced {s after : Session} {action : Action} (own : free action = true)
    (counted : uncounted prims s action = false) (even : Balanced (account s))
    (taken : step prims s action = some after) : Balanced (account after) :=
  entry_balanced (step_entry own taken) counted even

/-- Letting go of a part moves nothing. -/
theorem letGo_balanced {s : Session} (handle : Handle) (even : Balanced (account s)) :
    Balanced (account (letGo s handle)) := by
  cases handle <;> exact ⟨even.up, even.down, even.parked⟩

theorem trySend_balanced {s : Session} (pkt : Bytes) (even : Balanced (account s)) :
    Balanced (account { (DataPlane.trySend s pkt).1 with senders := (DataPlane.trySend s pkt).1.senders - 1 }) := by
  unfold DataPlane.trySend
  split
  · exact ⟨even.up, even.down, even.parked⟩
  · split <;> exact ⟨even.up, even.down, even.parked⟩

theorem start_balanced (interceptor : Option Interceptor) (carrier : Carrier) :
    Balanced (account (start interceptor carrier)) :=
  ⟨rfl, rfl, fun _ => rfl⟩

/-- Every session is balanced. -/
def Even (c : Core) : Prop := ∀ s ∈ c.sessions, Balanced (account s)

theorem update_even {c d : Core} {k : Nat} {change : Session → Option Session} (even : Even c)
    (taken : update c k change = some d)
    (keeps : ∀ s next, c.sessions[k]? = some s → Balanced (account s) → change s = some next →
      Balanced (account next)) : Even d := by
  obtain ⟨s, next, writes, found, changed, rfl⟩ := update_cases taken
  intro t member
  rcases List.mem_or_eq_of_mem_set member with old | rfl
  · exact even t old
  · exact keeps s t found (even s (List.mem_of_getElem? found)) changed

theorem issue_even {c d : Core} {call : Call} (even : Even c) (taken : issue c call = some d) :
    Even d := by
  unfold issue at taken
  split at taken
  · cases call with
    | start config =>
      cases config with
      | none => exact Option.some.inj taken ▸ even
      | some config =>
        dsimp only at taken
        split at taken
        · exact Option.some.inj taken ▸ even
        · rw [← Option.some.inj taken]
          intro s member
          rcases List.mem_append.mp member with old | new
          · exact even s old
          · rw [List.mem_singleton.mp new]
            exact start_balanced _ _
    | stop => exact Option.some.inj taken ▸ even
    | stopBlocking => exact Option.some.inj taken ▸ even
  · cases taken

theorem controlStep_even {c d : Core} (even : Even c) (taken : controlStep c = some d) : Even d := by
  unfold controlStep at taken
  split at taken
  · cases taken
  · exact Option.some.inj taken ▸ even
  · exact Option.some.inj taken ▸ even
  · split at taken
    · rw [← Option.some.inj taken]
      split <;> exact even
    · exact Option.some.inj taken ▸ even
  · next k handle todo blocking _ =>
    apply update_even (c := { c with control := .ending k todo blocking }) even taken
    intro s next _ balanced changed
    exact Option.some.inj changed ▸ letGo_balanced handle balanced
  · split at taken
    · split at taken
      · exact Option.some.inj taken ▸ even
      · cases taken
    · exact Option.some.inj taken ▸ even

/-- The step lemma: a counted step keeps every session balanced. -/
theorem coreStep_even {c d : Core} {event : Event} (even : Even c) (ok : counted prims c event = true)
    (taken : coreStep prims c event = some d) : Even d := by
  cases event with
  | call call => exact issue_even even taken
  | control => exact controlStep_even even taken
  | session k action =>
    simp only [coreStep] at taken
    split at taken
    · next own =>
      apply update_even even taken
      intro s next found balanced changed
      have counted : uncounted prims s action = false := by
        simpa [Counters.counted, found] using ok
      exact step_balanced own counted balanced changed
    · cases taken
  | ingest pkt =>
    simp only [coreStep, ingest] at taken
    split at taken
    · exact Option.some.inj taken ▸ even
    · split at taken
      · exact Option.some.inj taken ▸ even
      · next k _ =>
        apply update_even (c := { c with ingests := c.ingests ++ [(k, pkt)] }) even taken
        intro s next _ balanced changed
        rw [← Option.some.inj changed]
        exact ⟨balanced.up, balanced.down, balanced.parked⟩
  | trySend index =>
    simp only [coreStep, finishIngest, Option.bind_eq_some_iff] at taken
    obtain ⟨entry, _, s, found, taken⟩ := taken
    apply update_even (c := { c with ingests := c.ingests.eraseIdx index
                                     codes := c.codes ++ [(DataPlane.trySend s entry.2).2] }) even taken
    intro t next same balanced changed
    obtain rfl : s = t := Option.some.inj (found.symm.trans same)
    exact Option.some.inj changed ▸ trySend_balanced entry.2 balanced

/-- Even books add up, once egress holds nothing. -/
theorem Even.sums {sessions : List Session} (even : ∀ s ∈ sessions, Balanced (account s))
    (still : ∀ s ∈ sessions, held s.egress.pc = []) :
    (sessions.map Session.up).sum = (sessions.map fun s => total s.sent).sum ∧
      (sessions.map Session.down).sum = (sessions.map fun s => total (packets s.emitted)).sum := by
  have up : sessions.map Session.up = sessions.map fun s => total s.sent :=
    List.map_congr_left fun s member => (even s member).up
  have down : sessions.map Session.down = sessions.map fun s => total (packets s.emitted) := by
    apply List.map_congr_left
    intro s member
    have balance : s.down = total (packets s.emitted) + total (held s.egress.pc) := (even s member).down
    rw [balance, still s member]
    rfl
  exact ⟨congrArg List.sum up, congrArg List.sum down⟩

end Balance

/-- In every run of counted steps, whenever egress holds nothing, the counters are exact for as
long as they do not overflow. -/
theorem counters_exact (prims : Primitives) (c : Core)
    (reached : Reaches (coreStep prims) (fun c event => counted prims c event = true) initial c)
    (still : quiet c = true) :
    Conserved c ↔ sentBytes c < counterLimit ∧ writtenBytes c < counterLimit := by
  have even : Even c := reached.invariant Even
    (fun _ _ _ even ok taken => coreStep_even even ok taken) (fun _ member => absurd member List.not_mem_nil)
  have empty : ∀ s ∈ c.sessions, held s.egress.pc = [] := by
    intro s member
    exact List.isEmpty_iff.mp (List.all_eq_true.mp still s member)
  obtain ⟨up, down⟩ := Even.sums even empty
  unfold Conserved upBytes downBytes
  rw [up, down]
  exact and_congr (counter_exact _) (counter_exact _)

/-- A plain session that forwards one packet and receives one. -/
def sampleForwarding : List Event :=
  [.call (.start (some ⟨none, sampleCarrier⟩)), .control, .control, .ingest (sampleQueryPacket 7 5353),
    .trySend 0] ++ List.replicate 3 (.session 0 (.ingress sampleNonce true)) ++
  .session 0 (.tunnelArrives ⟨sampleReply 7 5353, none⟩) ::
    List.replicate 4 (.session 0 (.egress true))

theorem sample_counters_exact : ∃ c, Reaches (coreStep samplePrims)
    (fun c event => counted samplePrims c event = true) initial c ∧ quiet c = true ∧
      sentBytes c = 45 ∧ writtenBytes c = 60 ∧ Conserved c := by
  have ran : (testedRun (coreStep samplePrims) (counted samplePrims) initial sampleForwarding).map
      (fun c => (quiet c, sentBytes c, writtenBytes c)) = some (true, 45, 60) := by
    decide +kernel
  obtain ⟨c, ran, all⟩ := Option.map_eq_some_iff.mp ran
  obtain ⟨still, both⟩ := Prod.mk.inj all
  obtain ⟨sent, written⟩ := Prod.mk.inj both
  have reached := reaches_of_testedRun ran
  have fits : sentBytes c < counterLimit ∧ writtenBytes c < counterLimit := by
    rw [sent, written]
    decide
  exact ⟨c, reached, still, sent, written, (counters_exact samplePrims c reached still).mpr fits⟩

/-- A direct answer is handed over and not counted. -/
theorem answer_uncounted : ∃ c, Reachable (coreStep samplePrims) initial c ∧ quiet c = true ∧
    downBytes c = 0 ∧ writtenBytes c = 40 ∧ ¬Conserved c := by
  have ran : (run (coreStep samplePrims) initial
      (sampleSession ++ [.session 0 (.ingress sampleNonce true)])).map
      (fun c => (quiet c, downBytes c, writtenBytes c)) = some (true, 0, 40) := by
    decide +kernel
  obtain ⟨c, ran, all⟩ := Option.map_eq_some_iff.mp ran
  obtain ⟨still, both⟩ := Prod.mk.inj all
  obtain ⟨counter, written⟩ := Prod.mk.inj both
  refine ⟨c, reachable_of_run ran, still, counter, written, ?_⟩
  rintro ⟨_, conserved⟩
  rw [counter, written] at conserved
  exact absurd conserved (by decide)

end ShadowVpn.Engine.Counters
