import ShadowVpn.Engine.Moves

/-! Whose answer the direct socket delivers: a query's own, as long as the socket is empty when the
query is sent and its reply arrives before anything else. -/

namespace ShadowVpn.Engine.Direct
open ShadowVpn.Lib.Octets ShadowVpn.Lib.Transition ShadowVpn.Net.Ipv4 ShadowVpn.Net.Udp ShadowVpn.Wire.Crypto
open ShadowVpn.Engine.Intercept ShadowVpn.Engine.Datagram ShadowVpn.Engine.DataPlane
open ShadowVpn.Engine.Moves

/-- The datagram is the reply of `dns_local` to this query. -/
def Own (i : Interceptor) (q : Query) (datagram : Datagram) : Prop :=
  datagram.origin = some q.id ∧ Answers i q datagram

/-- The text of an answer as `query_direct` returns it. -/
def body (datagram : Datagram) : Bytes := datagram.payload.take answerBuffer

/-- Every datagram read for a query is its own reply; what is classified or emitted for the query
is such a datagram, with the id of the query. -/
structure OwnAnswers (i : Interceptor) (s : Session) : Prop where
  taken : ∀ entry ∈ s.history.taken, Own i entry.1 entry.2
  classified : ∀ q answer, s.ingress.pc = .deciding q answer →
    ∃ datagram, (q, datagram) ∈ s.history.taken ∧ answer = body datagram
  emitted : ∀ emission ∈ s.emitted, emission.direct = true →
    ∃ q datagram, (q, datagram) ∈ s.history.taken ∧ emission.query = some q.id ∧
      emission.packet = responsePacket q.parsed (body datagram) ∧
      txid (body datagram) = txid q.parsed.dns

/-- A query is sent while nothing waits on the direct socket, and the first datagram to arrive
while its answer is awaited is its reply. -/
def punctual (s : Session) (action : Action) : Bool :=
  match action with
  | .ingress _ true =>
    match s.ingress.pc with
    | .asking _ => s.directIn.isEmpty
    | _ => true
  | .directArrives datagram =>
    match s.ingress.pc with
    | .listening q => !s.directIn.isEmpty || datagram.origin == some q.id
    | _ => true
  | _ => true

/-- The query that is still to be sent on the direct socket. -/
def unasked : Ingress → Option Query
  | .placing q | .sealing q | .asking q => some q
  | _ => none

def listening : Ingress → Option Query
  | .listening q => some q
  | _ => none

/-- The answer that the ingress task holds. -/
def answering : Ingress → Option (Query × Bytes)
  | .deciding q answer | .responding q answer => some (q, answer)
  | _ => none

/-- While an answer is awaited, the head of the direct socket can only be that answer. -/
structure Matched (i : Interceptor) (v : View) : Prop where
  present : v.interceptor = some i
  current : ∀ q, query v.ingress = some q → q.id < v.history.queries
  known : ∀ q ∈ v.history.directOut, q.id < v.history.queries
  unsent : ∀ q, unasked v.ingress = some q → ∀ other ∈ v.history.directOut, other.id ≠ q.id
  asked : ∀ q, listening v.ingress = some q → ∀ other ∈ v.history.directOut, other.id = q.id → other = q
  head : ∀ q datagram rest, listening v.ingress = some q → v.directIn = datagram :: rest →
    Own i q datagram
  taken : ∀ entry ∈ v.history.taken, Own i entry.1 entry.2
  held : ∀ q answer, answering v.ingress = some (q, answer) →
    ∃ datagram, (q, datagram) ∈ v.history.taken ∧ answer = body datagram
  emitted : ∀ emission ∈ v.emitted, emission.direct = true →
    ∃ q datagram, (q, datagram) ∈ v.history.taken ∧ emission.query = some q.id ∧
      emission.packet = responsePacket q.parsed (body datagram)

theorem start_matched (i : Interceptor) (carrier : Carrier) : Matched i (view (start (some i) carrier)) where
  present := rfl
  current _ here := nomatch here
  known _ member := absurd member List.not_mem_nil
  unsent _ here := nomatch here
  asked _ here := nomatch here
  head _ _ _ here := nomatch here
  taken _ member := absurd member List.not_mem_nil
  held _ _ here := nomatch here
  emitted _ member := absurd member List.not_mem_nil

/-- A move that leaves the direct socket and what was read from it alone. -/
theorem Matched.frame {i : Interceptor} {v w : View} (inv : Matched i v)
    (interceptor : w.interceptor = v.interceptor) (queries : w.history.queries = v.history.queries)
    (out : w.history.directOut = v.history.directOut) (socket : w.directIn = v.directIn)
    (taken : w.history.taken = v.history.taken)
    (same : ∀ q, query w.ingress = some q → query v.ingress = some q)
    (before : ∀ q, unasked w.ingress = some q → unasked v.ingress = some q)
    (waiting : ∀ q, listening w.ingress = some q → listening v.ingress = some q)
    (holding : ∀ entry, answering w.ingress = some entry → answering v.ingress = some entry)
    (emitted : ∀ emission ∈ w.emitted, emission.direct = true → emission ∈ v.emitted) :
    Matched i w where
  present := interceptor.trans inv.present
  current q here := queries ▸ inv.current q (same q here)
  known q member := queries ▸ inv.known q (out ▸ member)
  unsent q here other member := inv.unsent q (before q here) other (out ▸ member)
  asked q here other member := inv.asked q (waiting q here) other (out ▸ member)
  head q datagram rest here head := inv.head q datagram rest (waiting q here) (socket ▸ head)
  taken entry member := inv.taken entry (taken ▸ member)
  held q answer here := taken ▸ inv.held q answer (holding _ here)
  emitted emission member direct := taken ▸ inv.emitted emission (emitted emission member direct) direct

/-- A move that leaves the ingress task where it is. -/
theorem Matched.aside {i : Interceptor} {v w : View} (inv : Matched i v)
    (interceptor : w.interceptor = v.interceptor) (ingress : w.ingress = v.ingress)
    (queries : w.history.queries = v.history.queries) (out : w.history.directOut = v.history.directOut)
    (socket : w.directIn = v.directIn) (taken : w.history.taken = v.history.taken)
    (emitted : ∀ emission ∈ w.emitted, emission.direct = true → emission ∈ v.emitted) :
    Matched i w := by
  apply inv.frame interceptor queries out socket taken
  · intro q here
    rw [ingress] at here
    exact here
  · intro q here
    rw [ingress] at here
    exact here
  · intro q here
    rw [ingress] at here
    exact here
  · intro entry here
    rw [ingress] at here
    exact here
  · exact emitted

theorem Matched.enroll {i : Interceptor} {v : View} (inv : Matched i v) (q : Query) (pc : Ingress)
    (number : q.id = v.history.queries) (holds : unasked pc = some q) :
    Matched i { v with ingress := pc, history.queries := v.history.queries + 1 } := by
  have other : ∀ q', listening pc = some q' → False := by
    intro q' here
    cases pc <;> simp_all [unasked, listening]
  have empty : ∀ entry, answering pc = some entry → False := by
    intro entry here
    cases pc <;> simp_all [unasked, answering]
  constructor
  · exact inv.present
  · intro q' here
    have same : query pc = some q := by
      cases pc <;> simp_all [unasked, query]
    obtain rfl : q = q' := Option.some.inj (same.symm.trans here)
    exact number ▸ Nat.lt_succ_self _
  · intro q' member
    exact Nat.lt_succ_of_lt (inv.known q' member)
  · intro q' here earlier member
    obtain rfl : q = q' := Option.some.inj (holds.symm.trans here)
    rw [number]
    exact Nat.ne_of_lt (inv.known earlier member)
  · intro q' here
    exact (other q' here).elim
  · intro q' datagram rest here
    exact (other q' here).elim
  · exact inv.taken
  · intro q' answer here
    exact (empty _ here).elim
  · exact inv.emitted

/-- The query is sent while the socket is empty. -/
theorem Matched.ask {i : Interceptor} {v : View} (inv : Matched i v) (q : Query)
    (pc : v.ingress = .asking q) (empty : v.directIn = []) :
    Matched i { v with ingress := .listening q, history.directOut := q :: v.history.directOut } := by
  have current := inv.current q (by rw [pc]; rfl)
  constructor
  · exact inv.present
  · intro q' here
    exact Option.some.inj here ▸ current
  · intro q' member
    rcases List.mem_cons.mp member with rfl | old
    · exact current
    · exact inv.known q' old
  · intro q' here
    cases here
  · intro q' here other member same
    obtain rfl : q = q' := Option.some.inj here
    rcases List.mem_cons.mp member with rfl | old
    · rfl
    · exact absurd same (inv.unsent q (by rw [pc]; rfl) other old)
  · intro q' datagram rest here head
    change v.directIn = datagram :: rest at head
    rw [empty] at head
    cases head
  · exact inv.taken
  · intro q' answer here
    cases here
  · exact inv.emitted

/-- The head of the socket is read for the query that waits. -/
theorem Matched.take {i : Interceptor} {v w : View} (inv : Matched i v) (q : Query) (datagram : Datagram)
    (rest : List Datagram) (pc : v.ingress = .listening q) (head : v.directIn = datagram :: rest)
    (interceptor : w.interceptor = v.interceptor)
    (next : answering w.ingress = some (q, body datagram)) (queries : w.history.queries = v.history.queries)
    (out : w.history.directOut = v.history.directOut)
    (taken : w.history.taken = v.history.taken ++ [(q, datagram)]) (emitted : w.emitted = v.emitted) :
    Matched i w := by
  have own := inv.head q datagram rest (by rw [pc]; rfl) head
  have current := inv.current q (by rw [pc]; rfl)
  have done : ∀ q', unasked w.ingress = some q' ∨ listening w.ingress = some q' → False := by
    intro q' here
    cases stage : w.ingress <;> simp_all [unasked, listening, answering]
  constructor
  · exact interceptor.trans inv.present
  · intro q' here
    have same : query w.ingress = some q := by
      cases stage : w.ingress <;> simp_all [query, answering]
    rw [queries, ← Option.some.inj (same.symm.trans here)]
    exact current
  · intro q' member
    exact queries ▸ inv.known q' (out ▸ member)
  · intro q' here
    exact (done q' (.inl here)).elim
  · intro q' here
    exact (done q' (.inr here)).elim
  · intro q' _ _ here
    exact (done q' (.inr here)).elim
  · intro entry member
    rw [taken] at member
    rcases List.mem_append.mp member with old | new
    · exact inv.taken entry old
    · rw [List.mem_singleton.mp new]
      exact own
  · intro q' answer here
    obtain ⟨rfl, rfl⟩ := Prod.mk.inj (Option.some.inj (next.symm.trans here))
    exact ⟨datagram, taken ▸ List.mem_append_right _ List.mem_cons_self, rfl⟩
  · intro emission member direct
    rw [emitted] at member
    obtain ⟨q', earlier, old, rest⟩ := inv.emitted emission member direct
    exact ⟨q', earlier, taken ▸ List.mem_append_left _ old, rest⟩

/-- A datagram arrives behind what is there; alone, it is the reply that is awaited. -/
theorem Matched.arrive {i : Interceptor} {v : View} (inv : Matched i v) (datagram : Datagram)
    (out : List Query) (fewer : ∀ q ∈ out, q ∈ v.history.directOut)
    (first : ∀ q, listening v.ingress = some q → v.directIn = [] → Own i q datagram) :
    Matched i { v with directIn := v.directIn ++ [datagram], history.directOut := out } := by
  constructor
  · exact inv.present
  · exact inv.current
  · intro q member
    exact inv.known q (fewer q member)
  · intro q here other member
    exact inv.unsent q here other (fewer other member)
  · intro q here other member
    exact inv.asked q here other (fewer other member)
  · intro q head rest here socket
    change v.directIn ++ [datagram] = head :: rest at socket
    cases waiting : v.directIn with
    | nil =>
      rw [waiting] at socket
      rw [← (List.cons.inj socket).1]
      exact first q here waiting
    | cons earlier later =>
      rw [waiting] at socket
      rw [← (List.cons.inj socket).1]
      exact inv.head q earlier later here waiting
  · exact inv.taken
  · exact inv.held
  · exact inv.emitted

theorem Matched.respond {i : Interceptor} {v : View} (inv : Matched i v) (q : Query) (answer : Bytes)
    (pc : v.ingress = .responding q answer) :
    Matched i { v with ingress := .recv
                       emitted := v.emitted ++ [⟨responsePacket q.parsed answer, true, some q.id⟩] } := by
  obtain ⟨datagram, member, same⟩ := inv.held q answer (by rw [pc]; rfl)
  refine ⟨inv.present, nofun, inv.known, nofun, nofun, nofun, inv.taken, nofun, ?_⟩
  intro emission found direct
  rcases List.mem_append.mp found with old | new
  · exact inv.emitted emission old direct
  · rw [List.mem_singleton.mp new]
    exact ⟨q, datagram, member, rfl, by rw [same]⟩

theorem move_matched {prims : Primitives} {i : Interceptor} {s : Session} {action : Action} {v : View}
    (inv : Matched i (view s)) (punctual : punctual s action = true) (move : Move prims s action v) :
    Matched i v := by
  cases move with
  | quiet => exact inv
  | release pc idle =>
    refine inv.frame rfl rfl rfl rfl rfl ?_ ?_ ?_ ?_ (fun _ member _ => member)
    all_goals
      intro _ here
      cases pc <;> simp_all [query, unasked, listening, answering]
  | rest pc idle =>
    exact inv.aside rfl rfl rfl rfl rfl rfl (fun _ member _ => member)
  | relayed q present fresh relayed => exact inv.enroll q (.asking q) fresh rfl
  | intercepted q present fresh intercepted => exact inv.enroll q (.placing q) fresh rfl
  | unplaced q pc unread =>
    refine inv.frame rfl rfl rfl rfl rfl ?_ ?_ ?_ ?_ (fun _ member _ => member) <;>
      simp [view, pc, query, unasked, listening, answering]
  | placed q pc =>
    refine inv.frame rfl rfl rfl rfl rfl ?_ ?_ ?_ ?_ (fun _ member _ => member) <;>
      simp [view, pc, query, unasked, listening, answering]
  | unsealed q i' e pc present failed =>
    refine inv.frame rfl rfl rfl rfl rfl ?_ ?_ ?_ ?_ (fun _ member _ => member) <;>
      simp [view, pc, query, unasked, listening, answering]
  | «sealed» q clean pc same =>
    refine inv.frame rfl rfl rfl rfl rfl ?_ ?_ ?_ ?_ (fun _ member _ => member) <;>
      simp [view, pc, query, unasked, listening, answering]
  | asked q pc =>
    have empty : s.directIn = [] := by simpa [Direct.punctual, pc] using punctual
    exact inv.ask q pc empty
  | tookRelayed q datagram rest pc head relayed =>
    exact inv.take q datagram rest pc head rfl rfl rfl rfl rfl rfl
  | took q datagram rest pc head =>
    exact inv.take q datagram rest pc head rfl rfl rfl rfl rfl rfl
  | domestic q answer i' pc present domestic =>
    refine inv.frame rfl rfl rfl rfl rfl ?_ ?_ ?_ ?_ (fun _ member _ => member) <;>
      simp [view, pc, query, unasked, listening, answering]
  | foreign q answer pc =>
    refine inv.frame rfl rfl rfl rfl rfl ?_ ?_ ?_ ?_ (fun _ member _ => member) <;>
      simp [query, unasked, listening, answering]
  | responded q answer pc => exact inv.respond q answer pc
  | received arrival rest pc head =>
    exact inv.aside rfl rfl rfl rfl rfl rfl (fun _ member _ => member)
  | paired arrival pc =>
    exact inv.aside rfl rfl rfl rfl rfl rfl (fun _ member _ => member)
  | wrote packet rest origin pc =>
    refine inv.aside rfl rfl rfl rfl rfl rfl ?_
    intro emission member direct
    rcases List.mem_append.mp member with old | new
    · exact old
    · rw [List.mem_singleton.mp new] at direct
      cases direct
  | cleanLost index =>
    exact inv.aside rfl rfl rfl rfl rfl rfl (fun _ member _ => member)
  | cleanSent index clean found =>
    exact inv.aside rfl rfl rfl rfl rfl rfl (fun _ member _ => member)
  | directStray datagram stray =>
    refine inv.arrive datagram s.history.directOut (fun _ member => member) ?_
    intro q here empty
    change s.directIn = [] at empty
    have pc : s.ingress.pc = .listening q := by
      cases stage : s.ingress.pc <;> simp_all [view, listening]
    simp [Direct.punctual, pc, empty, stray] at punctual
  | directReply datagram i' q' present member reply answers =>
    refine inv.arrive datagram (withdraw s.history.directOut q'.id) ?_ ?_
    · intro q kept
      exact (List.mem_filter.mp kept).1
    · intro q here empty
      change s.directIn = [] at empty
      have pc : s.ingress.pc = .listening q := by
        cases stage : s.ingress.pc <;> simp_all [view, listening]
      have expected : q'.id = q.id := by
        simpa [Direct.punctual, pc, empty, reply] using punctual
      obtain rfl := inv.asked q here q' member expected
      obtain rfl : i = i' := Option.some.inj (inv.present.symm.trans present)
      exact ⟨reply, answers⟩
  | tunnelStray arrival stray =>
    exact inv.aside rfl rfl rfl rfl rfl rfl (fun _ member _ => member)
  | tunnelReply arrival id reply member =>
    exact inv.aside rfl rfl rfl rfl rfl rfl (fun _ member _ => member)

/-- Cutting an answer to the buffer keeps its id. -/
theorem txid_body (datagram : Datagram) : txid (body datagram) = txid datagram.payload := by
  unfold body
  cases datagram.payload with
  | nil => rfl
  | cons high rest =>
    cases rest with
    | nil => rfl
    | cons low rest =>
      have long : ∀ n, ¬n + 1 + 1 < 2 := fun n => by omega
      simp [txid, answerBuffer, be16At, long]

/-- In every run in which queries are sent on an empty socket and their replies come first, local
answers go to the queries they answer. -/
theorem own_answers_when_punctual (prims : Primitives) (i : Interceptor) (carrier : Carrier) (s : Session)
    (reached : Reaches (step prims) (fun s action => punctual s action = true)
      (start (some i) carrier) s) : OwnAnswers i s := by
  have matched := reached.invariant (fun s => Matched i (view s))
    (fun _ _ _ inv punctual taken => move_matched inv punctual (step_move taken))
    (start_matched i carrier)
  constructor
  · exact matched.taken
  · intro q answer pc
    exact matched.held q answer (by simp [view, pc, answering])
  · intro emission member direct
    obtain ⟨q, datagram, found, origin, packet⟩ := matched.emitted emission member direct
    refine ⟨q, datagram, found, origin, packet, ?_⟩
    rw [txid_body]
    exact (matched.taken _ found).2.2

/-- A query for an AAAA record, which is relayed. -/
def sampleRelayPacket (id port : BitVec 16) : Bytes :=
  buildUdpIpv4 (ofOctets 10 9 0 2) port (ofOctets 8 8 8 8) dnsPort
    (bytes16 id ++ [0x01, 0x00, 0x00, 0x01, 0, 0, 0, 0, 0, 0, 0, 0, 28, 0, 1])

/-- A query is answered at once, the next one times out, and a relayed one is answered just before the
late answer arrives. -/
def samplePunctual : List Action :=
  sampleAsk 7 5353 ++ [.directArrives ⟨sampleInterceptor.dnsLocal, sampleEmptyAnswer 7, some 0⟩,
    .ingress sampleNonce true, .ingress sampleNonce true, .ingress sampleNonce true] ++
  sampleAsk 8 5454 ++ [.ingress sampleNonce false] ++
  [.trySend (sampleRelayPacket 9 5555), .ingress sampleNonce true, .ingress sampleNonce true,
    .directArrives ⟨sampleInterceptor.dnsLocal, sampleEmptyAnswer 9, some 2⟩,
    .directArrives ⟨sampleInterceptor.dnsLocal, sampleEmptyAnswer 8, some 1⟩,
    .ingress sampleNonce true, .ingress sampleNonce true]

theorem sample_own_answers : ∃ s, Reaches (step samplePrims) (fun s action => punctual s action = true)
    (start (some sampleInterceptor) sampleCarrier) s ∧
      s.emitted.map Emission.query = [some 0, some 2] ∧ OwnAnswers sampleInterceptor s := by
  have ran : (testedRun (step samplePrims) punctual (start (some sampleInterceptor) sampleCarrier)
      samplePunctual).map (fun s => s.emitted.map Emission.query) = some [some 0, some 2] := by
    decide +kernel
  obtain ⟨s, ran, two⟩ := Option.map_eq_some_iff.mp ran
  have reached := reaches_of_testedRun ran
  exact ⟨s, reached, two, own_answers_when_punctual samplePrims sampleInterceptor _ s reached⟩

/-- The answer to a query that timed out is taken for the next one. -/
theorem late_answer_shifts : ∃ s, Reachable (step samplePrims)
    (start (some sampleInterceptor) sampleCarrier) s ∧ ¬OwnAnswers sampleInterceptor s := by
  have ran : (run (step samplePrims) (start (some sampleInterceptor) sampleCarrier)
      (sampleAsk 7 5353 ++ [.ingress sampleNonce false,
        .directArrives ⟨sampleInterceptor.dnsLocal, sampleEmptyAnswer 7, some 0⟩] ++
        sampleAsk 8 5454 ++ [.ingress sampleNonce true, .ingress sampleNonce true,
        .ingress sampleNonce true])).map
      (fun s => s.history.taken.all fun entry => entry.2.origin == some entry.1.id) = some false := by
    decide +kernel
  obtain ⟨s, ran, foreign⟩ := Option.map_eq_some_iff.mp ran
  refine ⟨s, reachable_of_run ran, ?_⟩
  intro own
  have all : (s.history.taken.all fun entry => entry.2.origin == some entry.1.id) = true :=
    List.all_eq_true.mpr fun entry member => beq_iff_eq.mpr (own.taken entry member).1
  rw [foreign] at all
  cases all

end ShadowVpn.Engine.Direct
