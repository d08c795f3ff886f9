import Mathlib.Data.List.Perm.Basic
import ShadowVpn.Engine.Moves

/-! How many answers a query gets: at most one, as long as no query gets both a domestic direct
answer and its tunneled reply. -/

namespace ShadowVpn.Engine.Answers
open ShadowVpn.Lib.Octets ShadowVpn.Lib.Transition ShadowVpn.Net.Ipv4 ShadowVpn.Net.Udp
open ShadowVpn.Wire.Crypto ShadowVpn.Engine.Intercept ShadowVpn.Engine.Datagram
open ShadowVpn.Engine.DataPlane ShadowVpn.Engine.Moves

/-- The answers to a query that were handed to the writer. -/
def handed (emitted : List Emission) (id : Nat) : Nat := emitted.countP fun e => e.query = some id

def AtMostOneAnswer (s : Session) : Prop := ∀ id, handed s.emitted id ≤ 1

/-- A direct answer is found domestic only for a query whose tunneled reply was not received, and
a tunneled reply is received only for a query whose direct answer is not returned. -/
def alone (s : Session) (action : Action) : Bool :=
  match action with
  | .ingress _ _ =>
    match s.interceptor, s.ingress.pc with
    | some i, .deciding q answer => !i.isDomestic answer || !s.history.replied.contains q.id
    | _, _ => true
  | .egress true =>
    match s.egress.pc, s.tunnelIn with
    | .recv, arrival :: _ => arrival.origin.all fun id => !s.history.answered.contains id
    | _, _ => true
  | _ => true

/-- Where the clean copy of a query or its reply is. -/
def copies (v : View) (id : Nat) : Nat :=
  (v.detached.map Clean.id).count id + v.history.cleanOut.count id +
    (v.tunnelIn.filterMap Arrival.origin).count id + v.history.replied.count id

/-- The answers that the ingress task is about to hand over. -/
def ingressLoad : Ingress → Nat → Nat
  | .responding q _, id => if q.id = id then 1 else 0
  | _, _ => 0

def egressLoad : Egress → Nat → Nat
  | .received arrival, id => if arrival.origin = some id then 1 else 0
  | .writing packets origin, id => if origin = some id then packets.length else 0
  | _, _ => 0

/-- The query whose direct answer is still open. -/
def undecided : Ingress → Option Query
  | .placing q | .sealing q | .asking q | .listening q | .deciding q _ => some q
  | _ => none

/-- The query whose clean copy is still to be made. -/
def uncopied : Ingress → Option Query
  | .placing q | .sealing q => some q
  | _ => none

/-- Every answer handed over, or about to be, is paid for by a direct answer returned or a
tunneled reply received, of which a query has at most one. -/
structure Spent (v : View) : Prop where
  known : ∀ id, v.history.queries ≤ id → copies v id = 0 ∧ v.history.answered.count id = 0
  current : ∀ q, query v.ingress = some q → q.id < v.history.queries
  unanswered : ∀ q, undecided v.ingress = some q → v.history.answered.count q.id = 0
  fresh : ∀ q, uncopied v.ingress = some q → q.relayed = false ∧ copies v q.id = 0
  relayed : ∀ q, query v.ingress = some q → q.relayed = true → copies v q.id = 0
  once : ∀ id, copies v id ≤ 1
  apart : ∀ id, v.history.answered.count id + v.history.replied.count id ≤ 1
  budget : ∀ id, handed v.emitted id + ingressLoad v.ingress id + egressLoad v.egress id ≤
    v.history.answered.count id + v.history.replied.count id

theorem start_spent (interceptor : Option Interceptor) (carrier : Carrier) :
    Spent (view (start interceptor carrier)) where
  known _ _ := ⟨rfl, rfl⟩
  current _ here := nomatch here
  unanswered _ here := nomatch here
  fresh _ here := nomatch here
  relayed _ here := nomatch here
  once _ := Nat.zero_le 1
  apart _ := Nat.zero_le 1
  budget _ := Nat.le_refl 0

/-- A move that takes on no new query, copy, direct answer or reply. -/
theorem Spent.frame {v w : View} (inv : Spent v) (queries : w.history.queries = v.history.queries)
    (answered : w.history.answered = v.history.answered) (replied : w.history.replied = v.history.replied)
    (copied : ∀ id, copies w id ≤ copies v id)
    (loads : ∀ id, handed w.emitted id + ingressLoad w.ingress id + egressLoad w.egress id ≤
      handed v.emitted id + ingressLoad v.ingress id + egressLoad v.egress id)
    (same : ∀ q, query w.ingress = some q → query v.ingress = some q)
    (earlier : ∀ q, undecided w.ingress = some q → undecided v.ingress = some q)
    (before : ∀ q, uncopied w.ingress = some q → uncopied v.ingress = some q) : Spent w where
  known id later := by
    rw [queries] at later
    rw [answered]
    exact ⟨Nat.le_zero.mp ((inv.known id later).1 ▸ copied id), (inv.known id later).2⟩
  current q here := queries ▸ inv.current q (same q here)
  unanswered q here := answered ▸ inv.unanswered q (earlier q here)
  fresh q here :=
    ⟨(inv.fresh q (before q here)).1, Nat.le_zero.mp ((inv.fresh q (before q here)).2 ▸ copied q.id)⟩
  relayed q here relay := Nat.le_zero.mp (inv.relayed q (same q here) relay ▸ copied q.id)
  once id := Nat.le_trans (copied id) (inv.once id)
  apart id := by rw [answered, replied]; exact inv.apart id
  budget id := by rw [answered, replied]; exact Nat.le_trans (loads id) (inv.budget id)

/-- A move that leaves the ingress task where it is. -/
theorem Spent.aside {v w : View} (inv : Spent v) (ingress : w.ingress = v.ingress)
    (queries : w.history.queries = v.history.queries) (answered : w.history.answered = v.history.answered)
    (replied : w.history.replied = v.history.replied) (copied : ∀ id, copies w id ≤ copies v id)
    (loads : ∀ id, handed w.emitted id + egressLoad w.egress id ≤
      handed v.emitted id + egressLoad v.egress id) : Spent w := by
  refine inv.frame queries answered replied copied ?_ ?_ ?_ ?_
  · intro id
    have egress := loads id
    rw [ingress]
    omega
  · intro q here
    rw [ingress] at here
    exact here
  · intro q here
    rw [ingress] at here
    exact here
  · intro q here
    rw [ingress] at here
    exact here

/-- A new query has no copy and no answer yet. -/
theorem Spent.enroll {v : View} (inv : Spent v) (q : Query) (pc : Ingress)
    (number : q.id = v.history.queries) (holds : query pc = some q) (silent : ∀ id, ingressLoad pc id = 0)
    (mode : ∀ q', uncopied pc = some q' → q' = q ∧ q.relayed = false) :
    Spent { v with ingress := pc, history.queries := v.history.queries + 1 } where
  known id later := inv.known id (Nat.le_of_succ_le later)
  current q' here := by
    obtain rfl : q = q' := Option.some.inj (holds.symm.trans here)
    exact number ▸ Nat.lt_succ_self _
  unanswered q' here := by
    have same : query pc = some q' := by
      cases pc <;> simp_all [undecided, query]
    obtain rfl : q = q' := Option.some.inj (holds.symm.trans same)
    exact (inv.known q.id (Nat.le_of_eq number.symm)).2
  fresh q' here := by
    obtain ⟨rfl, intercepted⟩ := mode q' here
    exact ⟨intercepted, (inv.known q'.id (Nat.le_of_eq number.symm)).1⟩
  relayed q' here _ := by
    obtain rfl : q = q' := Option.some.inj (holds.symm.trans here)
    exact (inv.known q.id (Nat.le_of_eq number.symm)).1
  once := inv.once
  apart := inv.apart
  budget id := by
    have paid := inv.budget id
    have none := silent id
    change handed v.emitted id + ingressLoad pc id + egressLoad v.egress id ≤
      v.history.answered.count id + v.history.replied.count id
    omega

theorem Spent.seal {v : View} (inv : Spent v) (q : Query) (clean : Clean) (pc : v.ingress = .sealing q)
    (same : clean.id = q.id) :
    Spent { v with ingress := .asking q, detached := v.detached ++ [clean] } := by
  have made : ∀ id, copies { v with ingress := .asking q, detached := v.detached ++ [clean] } id =
      copies v id + if q.id = id then 1 else 0 := by
    intro id
    simp only [copies, List.map_append, List.map_cons, List.map_nil, List.count_append,
      List.count_singleton, beq_iff_eq, same]
    omega
  have current := inv.current q (by rw [pc]; rfl)
  obtain ⟨intercepted, fresh⟩ := inv.fresh q (by rw [pc]; rfl)
  constructor
  · intro id later
    have other : q.id ≠ id := by
      intro same
      exact absurd (same ▸ later) (Nat.not_le.mpr current)
    rw [made, if_neg other]
    exact inv.known id later
  · intro q' here
    exact Option.some.inj here ▸ current
  · intro q' here
    exact inv.unanswered q' (by rw [pc]; exact here)
  · intro q' here
    cases here
  · intro q' here relay
    rw [← Option.some.inj here, intercepted] at relay
    cases relay
  · intro id
    rw [made]
    by_cases same : q.id = id
    · rw [if_pos same, ← same, fresh]
    · rw [if_neg same]
      exact inv.once id
  · exact inv.apart
  · intro id
    have paid := inv.budget id
    rw [pc] at paid
    exact paid

/-- A direct answer that is returned pays for the packet that carries it. -/
theorem Spent.answer {v w : View} (inv : Spent v) (q : Query) (answer : Bytes)
    (pc : undecided v.ingress = some q) (unreplied : v.history.replied.count q.id = 0)
    (next : w.ingress = .responding q answer) (queries : w.history.queries = v.history.queries)
    (answered : w.history.answered = q.id :: v.history.answered)
    (replied : w.history.replied = v.history.replied) (copied : ∀ id, copies w id = copies v id)
    (emitted : w.emitted = v.emitted) (egress : w.egress = v.egress) : Spent w := by
  have held : query v.ingress = some q := by
    cases here : v.ingress <;> simp_all [undecided, query]
  have silent : ∀ id, ingressLoad v.ingress id = 0 := by
    intro id
    cases here : v.ingress <;> simp_all [undecided, ingressLoad]
  have current := inv.current q held
  have unanswered := inv.unanswered q pc
  have count : ∀ id, w.history.answered.count id =
      v.history.answered.count id + if q.id = id then 1 else 0 := by
    intro id
    rw [answered, List.count_cons]
    simp only [beq_iff_eq]
  constructor
  · intro id later
    rw [queries] at later
    have other : q.id ≠ id := by
      intro same
      exact absurd (same ▸ later) (Nat.not_le.mpr current)
    rw [copied, count, if_neg other]
    exact inv.known id later
  · intro q' here
    rw [next] at here
    rw [queries]
    exact Option.some.inj here ▸ current
  · intro q' here
    rw [next] at here
    cases here
  · intro q' here
    rw [next] at here
    cases here
  · intro q' here relay
    rw [next] at here
    obtain rfl : q = q' := Option.some.inj here
    rw [copied]
    exact inv.relayed q held relay
  · intro id
    rw [copied]
    exact inv.once id
  · intro id
    rw [count, replied]
    by_cases same : q.id = id
    · rw [if_pos same, ← same, unanswered, unreplied]
    · rw [if_neg same]
      exact inv.apart id
  · intro id
    have paid := inv.budget id
    rw [silent] at paid
    rw [count, replied, emitted, egress, next, ingressLoad]
    omega

/-- A tunneled reply that is received pays for the packet that it leads to. -/
theorem Spent.receive {v : View} (inv : Spent v) (arrival : Arrival) (rest : List Arrival)
    (pc : v.egress = .recv) (head : v.tunnelIn = arrival :: rest)
    (alone : ∀ id, arrival.origin = some id → id ∉ v.history.answered) :
    Spent { v with egress := .received arrival, tunnelIn := rest
                   history.replied := arrival.origin.toList ++ v.history.replied } := by
  have count : ∀ id, (arrival.origin.toList ++ v.history.replied).count id =
      v.history.replied.count id + if arrival.origin = some id then 1 else 0 := by
    intro id
    rw [List.count_append, Nat.add_comm]
    cases arrival.origin with
    | none => rfl
    | some id' => simp [List.count_cons]
  have kept : ∀ id,
      copies { v with egress := .received arrival, tunnelIn := rest
                      history.replied := arrival.origin.toList ++ v.history.replied } id =
        copies v id := by
    intro id
    simp only [copies, count, head]
    cases origin : arrival.origin with
    | none => simp [origin]
    | some id' =>
      simp only [List.filterMap_cons, origin, List.count_cons, Option.some.injEq, beq_iff_eq]
      omega
  constructor
  · intro id later
    rw [kept]
    exact inv.known id later
  · exact inv.current
  · exact inv.unanswered
  · intro q here
    rw [kept]
    exact inv.fresh q here
  · intro q here relay
    rw [kept]
    exact inv.relayed q here relay
  · intro id
    rw [kept]
    exact inv.once id
  · intro id
    have apart := inv.apart id
    change v.history.answered.count id + (arrival.origin.toList ++ v.history.replied).count id ≤ 1
    rw [count]
    by_cases reply : arrival.origin = some id
    · have unanswered : v.history.answered.count id = 0 := List.count_eq_zero.mpr (alone id reply)
      have once := inv.once id
      have waiting : 0 < (v.tunnelIn.filterMap Arrival.origin).count id := by
        rw [List.count_pos_iff, head]
        exact List.mem_filterMap.mpr ⟨arrival, List.mem_cons_self, reply⟩
      rw [if_pos reply]
      unfold copies at once
      omega
    · rw [if_neg reply]
      exact apart
  · intro id
    have paid := inv.budget id
    rw [pc] at paid
    change handed v.emitted id + ingressLoad v.ingress id + _ ≤
      v.history.answered.count id + (arrival.origin.toList ++ v.history.replied).count id
    simp only [egressLoad] at paid ⊢
    rw [count]
    omega

/-- One round of the egress loop emits at most one packet. -/
theorem deliver_emitted (prims : Primitives) (carrier : Carrier) (interceptor : Option Interceptor)
    (pending : PendingTable) (wire : Bytes) :
    (deliver prims carrier interceptor pending wire).emitted.length ≤ 1 := by
  unfold deliver
  split
  · exact Nat.zero_le 1
  · split
    · exact Nat.zero_le 1
    · unfold handOver
      split
      · next i =>
        simp only
        split
        · next consumed =>
          obtain ⟨_, _, _, _, _, _, _, handled⟩ := (tryHandle_consumed i pending _).mp consumed
          rw [handled]
          exact Nat.le_refl 1
        · exact Nat.le_refl 1
      · exact Nat.le_refl 1

theorem handed_append (emitted : List Emission) (packet : Bytes) (direct : Bool) (origin : Option Nat)
    (id : Nat) : handed (emitted ++ [⟨packet, direct, origin⟩]) id =
      handed emitted id + if origin = some id then 1 else 0 := by
  simp [handed, List.countP_append, List.countP_cons]

theorem move_spent {prims : Primitives} {s : Session} {action : Action} {v : View}
    (inv : Spent (view s)) (alone : alone s action = true) (move : Move prims s action v) : Spent v := by
  cases move with
  | quiet => exact inv
  | release pc idle =>
    have silent : ∀ id, ingressLoad pc id = 0 := by
      intro id
      cases pc <;> simp_all [query, ingressLoad]
    refine inv.frame rfl rfl rfl (fun _ => Nat.le_refl _) ?_ ?_ ?_ ?_
    · intro id
      simp only [silent]
      omega
    · intro q here
      exact absurd (idle.symm.trans here) (by simp)
    · intro q here
      cases pc <;> simp_all [query, undecided]
    · intro q here
      cases pc <;> simp_all [query, uncopied]
  | rest pc idle =>
    have silent : ∀ id, egressLoad pc id = 0 := by
      intro id
      rcases idle with rfl | rfl <;> rfl
    refine inv.aside rfl rfl rfl rfl (fun _ => Nat.le_refl _) ?_
    intro id
    simp only [silent]
    omega
  | relayed q present fresh relayed =>
    exact inv.enroll q (.asking q) fresh rfl (fun _ => rfl) (fun _ here => by cases here)
  | intercepted q present fresh intercepted =>
    exact inv.enroll q (.placing q) fresh rfl (fun _ => rfl)
      (fun _ here => ⟨(Option.some.inj here).symm, intercepted⟩)
  | unplaced q pc unread =>
    refine inv.frame rfl rfl rfl (fun _ => Nat.le_refl _) ?_ ?_ ?_ ?_ <;>
      simp [view, pc, query, undecided, uncopied, ingressLoad]
  | placed q pc =>
    refine inv.frame rfl rfl rfl (fun _ => Nat.le_refl _) ?_ ?_ ?_ ?_ <;>
      simp [view, pc, query, undecided, uncopied, ingressLoad]
  | unsealed q i e pc present failed =>
    refine inv.frame rfl rfl rfl (fun _ => Nat.le_refl _) ?_ ?_ ?_ ?_ <;>
      simp [view, pc, query, undecided, uncopied, ingressLoad]
  | «sealed» q clean pc same => exact inv.seal q clean pc same
  | asked q pc =>
    refine inv.frame rfl rfl rfl (fun _ => Nat.le_refl _) ?_ ?_ ?_ ?_ <;>
      simp [view, pc, query, undecided, uncopied, ingressLoad]
  | tookRelayed q datagram rest pc head relayed =>
    have uncopied := inv.relayed q (by simp [view, pc, query]) relayed
    refine inv.answer q _ (by simp [view, pc, undecided]) ?_ rfl rfl rfl rfl (fun _ => rfl) rfl rfl
    unfold copies at uncopied
    omega
  | took q datagram rest pc head =>
    refine inv.frame rfl rfl rfl (fun _ => Nat.le_refl _) ?_ ?_ ?_ ?_ <;>
      simp [view, pc, query, undecided, uncopied, ingressLoad]
  | domestic q answer i pc present domestic =>
    have unreplied : q.id ∉ s.history.replied := by
      simpa [Answers.alone, present, pc, domestic] using alone
    exact inv.answer q answer (by simp [view, pc, undecided]) (List.count_eq_zero.mpr unreplied)
      rfl rfl rfl rfl (fun _ => rfl) rfl rfl
  | foreign q answer pc =>
    refine inv.frame rfl rfl rfl (fun _ => Nat.le_refl _) ?_ ?_ ?_ ?_ <;>
      simp [view, pc, query, undecided, uncopied, ingressLoad]
  | responded q answer pc =>
    refine inv.frame rfl rfl rfl (fun _ => Nat.le_refl _) ?_ ?_ ?_ ?_
    · intro id
      simp [view, pc, handed_append, ingressLoad]
    all_goals simp [query, undecided, uncopied]
  | received arrival rest pc head =>
    refine inv.receive arrival rest pc head ?_
    intro id reply
    have unanswered : id ∉ s.history.answered := by
      simpa [Answers.alone, pc, head, reply] using alone
    exact unanswered
  | paired arrival pc =>
    refine inv.aside rfl rfl rfl rfl (fun _ => Nat.le_refl _) ?_
    intro id
    have single := deliver_emitted prims s.carrier s.interceptor s.pending arrival.wire
    simp only [view, pairDatagram, Task.goto, pc, egressLoad]
    split
    · omega
    · omega
  | wrote packet rest origin pc =>
    refine inv.aside rfl rfl rfl rfl (fun _ => Nat.le_refl _) ?_
    intro id
    simp only [view, pc, handed_append, egressLoad, List.length_cons]
    split
    · omega
    · omega
  | cleanLost index =>
    refine inv.aside rfl rfl rfl rfl ?_ (fun _ => Nat.le_refl _)
    intro id
    have fewer := (List.eraseIdx_sublist s.detached index).map Clean.id |>.count_le id
    simp only [copies, view]
    omega
  | cleanSent index clean found =>
    refine inv.aside rfl rfl rfl rfl ?_ (fun _ => Nat.le_refl _)
    intro id
    have moved : (s.detached.map Clean.id).count id =
        ((s.detached.eraseIdx index).map Clean.id).count id + if clean.id = id then 1 else 0 := by
      obtain ⟨bound, rfl⟩ := List.getElem?_eq_some_iff.mp found
      have same := ((List.getElem_cons_eraseIdx_perm bound).map Clean.id).count_eq id
      rw [← same, List.map_cons, List.count_cons]
      simp only [beq_iff_eq]
    simp only [copies, view, List.count_cons, beq_iff_eq]
    omega
  | directStray datagram stray =>
    exact inv.aside rfl rfl rfl rfl (fun _ => Nat.le_refl _) (fun _ => Nat.le_refl _)
  | directReply datagram i q present member reply answers =>
    exact inv.aside rfl rfl rfl rfl (fun _ => Nat.le_refl _) (fun _ => Nat.le_refl _)
  | tunnelStray arrival stray =>
    refine inv.aside rfl rfl rfl rfl ?_ (fun _ => Nat.le_refl _)
    intro id
    simp [copies, view, stray]
  | tunnelReply arrival id reply member =>
    refine inv.aside rfl rfl rfl rfl ?_ (fun _ => Nat.le_refl _)
    intro other
    have moved := (List.perm_cons_erase member).count_eq other
    rw [List.count_cons] at moved
    simp only [copies, view, List.filterMap_append, List.filterMap_cons, reply, List.filterMap_nil,
      List.count_append, List.count_singleton]
    omega

/-- In every run in which no query gets both a domestic direct answer and its tunneled reply, no
query is answered twice. -/
theorem at_most_one_answer_when_alone (prims : Primitives) (interceptor : Option Interceptor)
    (carrier : Carrier) (s : Session)
    (reached : Reaches (step prims) (fun s action => alone s action = true) (start interceptor carrier) s) :
    AtMostOneAnswer s := by
  have spent := reached.invariant (fun s => Spent (view s))
    (fun _ _ _ inv alone taken => move_spent inv alone (step_move taken))
    (start_spent interceptor carrier)
  intro id
  have paid := spent.budget id
  have apart := spent.apart id
  change handed s.emitted id + ingressLoad s.ingress.pc id + egressLoad s.egress.pc id ≤ _ at paid
  omega

/-- A query without a domestic answer gets its tunneled reply. -/
theorem sample_one_answer : ∃ s, Reaches (step samplePrims) (fun s action => alone s action = true)
    (start (some sampleInterceptor) sampleCarrier) s ∧ handed s.emitted 0 = 1 ∧ AtMostOneAnswer s := by
  have ran : (testedRun (step samplePrims) alone (start (some sampleInterceptor) sampleCarrier)
      (sampleAsk 7 5353 ++ [.directArrives ⟨sampleInterceptor.dnsLocal, sampleAnswer 7, some 0⟩,
        .ingress sampleNonce true, .ingress sampleNonce true, .cleanSend 0 true,
        .tunnelArrives ⟨sampleReply 7 5353, some 0⟩, .egress true, .egress true, .egress true])).map
      (fun s => handed s.emitted 0) = some 1 := by
    decide +kernel
  obtain ⟨s, ran, one⟩ := Option.map_eq_some_iff.mp ran
  have reached := reaches_of_testedRun ran
  exact ⟨s, reached, one, at_most_one_answer_when_alone samplePrims _ _ s reached⟩

/-- After its domestic answer a query still gets its tunneled reply, as it came. -/
theorem answered_twice : ∃ s, Reachable (step samplePrims) (start (some sampleInterceptor) sampleCarrier) s ∧
    ¬AtMostOneAnswer s := by
  have ran : (run (step samplePrims) (start (some sampleInterceptor) sampleCarrier)
      (sampleAsk 7 5353 ++ [.directArrives ⟨sampleInterceptor.dnsLocal, sampleEmptyAnswer 7, some 0⟩,
        .ingress sampleNonce true, .ingress sampleNonce true, .ingress sampleNonce true,
        .cleanSend 0 true, .tunnelArrives ⟨sampleReply 7 5353, some 0⟩, .egress true, .egress true,
        .egress true])).map (fun s => handed s.emitted 0) = some 2 := by
    decide +kernel
  obtain ⟨s, ran, two⟩ := Option.map_eq_some_iff.mp ran
  refine ⟨s, reachable_of_run ran, ?_⟩
  intro once
  have bound := once 0
  omega

end ShadowVpn.Engine.Answers
