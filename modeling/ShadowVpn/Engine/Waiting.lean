import ShadowVpn.Engine.Moves

/-! The pending record of a query that is left waiting for its clean answer: it stays, as long as
no other query in flight has the same id. -/

namespace ShadowVpn.Engine.Waiting
open ShadowVpn.Lib.Octets ShadowVpn.Lib.Transition ShadowVpn.Net.Udp ShadowVpn.Wire.Crypto
open ShadowVpn.Engine.Intercept ShadowVpn.Engine.Datagram ShadowVpn.Engine.DataPlane
open ShadowVpn.Engine.Moves

/-- A foreign query whose clean copy was made and whose tunneled reply was not handled finds its
client and server under its id. -/
def RecordsKept (s : Session) : Prop :=
  ∀ q ∈ s.history.placed, q.id ∈ s.history.foreign → ∀ id, txid q.parsed.dns = some id →
    s.pending id = some (record q.parsed)

/-- Whether the query was found foreign or is the one being decided. -/
def live (v : View) (q : Query) : Bool :=
  v.history.foreign.contains q.id || (query v.ingress).any fun current => current.id == q.id

/-- The clean queries in flight. -/
def inFlight (v : View) : List Query := v.history.placed.filter (live v)

def sameId (one two : Query) : Bool := txid one.parsed.dns == txid two.parsed.dns

/-- Another query in flight has the same id. -/
def shares (v : View) (q : Query) : Bool :=
  (inFlight v).any fun other => other.id != q.id && sameId other q

section Waiting

variable (prims : Primitives)

def encrypts (s : Session) (i : Interceptor) (q : Query) (nonce : Nonce) : Bool :=
  (encode prims s.carrier (nonce.salt s.carrier.cipher) nonce.random (i.cleanPacket q.parsed)).isOk

/-- A query taken with the id of one in flight comes from the same client to the same server, its
clean copy can be encrypted and its direct answer is not domestic; and a tunneled packet to
`dns_remote:53` with the id of a query in flight is the reply to that query. -/
def undisturbed (s : Session) (action : Action) : Bool :=
  match action with
  | .ingress nonce _ =>
    match s.ingress.pc, s.interceptor with
    | .placing q, _ =>
      (inFlight (view s)).all fun other => !sameId other q || record other.parsed == record q.parsed
    | .sealing q, some i => encrypts prims s i q nonce || !shares (view s) q
    | .deciding q answer, some i => !i.isDomestic answer || !shares (view s) q
    | _, _ => true
  | .egress _ =>
    match s.egress.pc, s.interceptor with
    | .received arrival, some i =>
      match (readable prims s.carrier arrival.wire).bind parseUdpDnsQuery with
      | some reply => reply.serverIp != i.dnsRemote.ip || (inFlight (view s)).all fun other =>
          txid other.parsed.dns != txid reply.dns || arrival.origin == some other.id
      | none => true
    | _, _ => true
  | _ => true

/-- The record of every query in flight is in the table. -/
structure Kept (v : View) : Prop where
  known : ∀ q ∈ v.history.placed, q.id < v.history.queries
  decided : ∀ id ∈ v.history.foreign, id < v.history.queries
  current : ∀ q, query v.ingress = some q → q.id < v.history.queries
  fresh : ∀ q, v.ingress = .placing q → ∀ other ∈ v.history.placed, other.id ≠ q.id
  undecided : ∀ q, query v.ingress = some q → q.id ∉ v.history.foreign
  same : ∀ q, query v.ingress = some q → ∀ other ∈ v.history.placed, other.id = q.id → other = q
  kept : ∀ q ∈ inFlight v, ∀ id, txid q.parsed.dns = some id → v.pending id = some (record q.parsed)

variable {prims}

theorem mem_inFlight {v : View} {q : Query} : q ∈ inFlight v ↔ q ∈ v.history.placed ∧
    (q.id ∈ v.history.foreign ∨ ∃ current, query v.ingress = some current ∧ current.id = q.id) := by
  simp [inFlight, live, Option.any_eq_true]

theorem start_kept (interceptor : Option Interceptor) (carrier : Carrier) :
    Kept (view (start interceptor carrier)) where
  known _ member := absurd member List.not_mem_nil
  decided _ member := absurd member List.not_mem_nil
  current _ here := nomatch here
  fresh _ here := nomatch here
  undecided _ here := nomatch here
  same _ here := nomatch here
  kept _ member := absurd member List.not_mem_nil

/-- A move that puts no query in flight and leaves the table alone. -/
theorem Kept.frame {v w : View} (inv : Kept v) (queries : w.history.queries = v.history.queries)
    (foreign : w.history.foreign = v.history.foreign) (placed : w.history.placed = v.history.placed)
    (pending : w.pending = v.pending)
    (same : ∀ q, query w.ingress = some q → query v.ingress = some q)
    (placing : ∀ q, w.ingress = .placing q → v.ingress = .placing q) : Kept w where
  known q member := queries ▸ inv.known q (placed ▸ member)
  decided id member := queries ▸ inv.decided id (foreign ▸ member)
  current q here := queries ▸ inv.current q (same q here)
  fresh q here other member := inv.fresh q (placing q here) other (placed ▸ member)
  undecided q here := foreign ▸ inv.undecided q (same q here)
  same q here other member := inv.same q (same q here) other (placed ▸ member)
  kept q member := by
    rw [mem_inFlight, placed, foreign] at member
    rw [pending]
    refine inv.kept q (mem_inFlight.mpr ⟨member.1, ?_⟩)
    rcases member.2 with waiting | ⟨current, here, id⟩
    · exact .inl waiting
    · exact .inr ⟨current, same current here, id⟩

theorem Kept.enroll {v : View} (inv : Kept v) (q : Query) (pc : Ingress)
    (number : q.id = v.history.queries) (holds : query pc = some q) :
    Kept { v with ingress := pc, history.queries := v.history.queries + 1 } := by
  have other : ∀ q' ∈ v.history.placed, q'.id ≠ q.id := by
    intro q' member
    rw [number]
    exact Nat.ne_of_lt (inv.known q' member)
  constructor
  · intro q' member
    exact Nat.lt_succ_of_lt (inv.known q' member)
  · intro id member
    exact Nat.lt_succ_of_lt (inv.decided id member)
  · intro q' here
    obtain rfl : q = q' := Option.some.inj (holds.symm.trans here)
    exact number ▸ Nat.lt_succ_self _
  · intro q' here
    have held : query pc = some q' := by
      rw [show pc = .placing q' from here]
      rfl
    obtain rfl : q = q' := Option.some.inj (holds.symm.trans held)
    exact other
  · intro q' here member
    obtain rfl : q = q' := Option.some.inj (holds.symm.trans here)
    exact absurd (inv.decided q.id member) (by omega)
  · intro q' here earlier member same
    obtain rfl : q = q' := Option.some.inj (holds.symm.trans here)
    exact absurd same (other earlier member)
  · intro q' member
    rw [mem_inFlight] at member
    refine inv.kept q' (mem_inFlight.mpr ⟨member.1, ?_⟩)
    rcases member.2 with waiting | ⟨current, here, same⟩
    · exact .inl waiting
    · obtain rfl : q = current := Option.some.inj (holds.symm.trans here)
      exact absurd same.symm (other q' member.1)

/-- The record of a new query goes into the table beside those in flight. -/
theorem Kept.place {v : View} (inv : Kept v) (q : Query) (pc : v.ingress = .placing q)
    (undisturbed : ∀ other ∈ inFlight v, txid other.parsed.dns = txid q.parsed.dns →
      record other.parsed = record q.parsed) :
    Kept { v with ingress := .sealing q, pending := recordPending v.pending q.parsed
                  history.placed := q :: v.history.placed } := by
  have here : query v.ingress = some q := by rw [pc]; rfl
  constructor
  · intro q' member
    rcases List.mem_cons.mp member with rfl | old
    · exact inv.current q' here
    · exact inv.known q' old
  · exact inv.decided
  · intro q' same
    exact inv.current q' (by rw [pc]; exact same)
  · intro q' same
    cases same
  · intro q' same
    exact inv.undecided q' (by rw [pc]; exact same)
  · intro q' same other member id
    obtain rfl : q = q' := Option.some.inj same
    rcases List.mem_cons.mp member with rfl | old
    · rfl
    · exact absurd id (inv.fresh q pc other old)
  · intro q' member id read
    rw [mem_inFlight] at member
    change recordPending v.pending q.parsed id = some (record q'.parsed)
    rcases List.mem_cons.mp member.1 with rfl | old
    · exact recordPending_same read
    · have flying : q' ∈ inFlight v := by
        refine mem_inFlight.mpr ⟨old, ?_⟩
        rcases member.2 with waiting | ⟨current, holds, same⟩
        · exact .inl waiting
        · obtain rfl : q = current := Option.some.inj holds
          exact absurd same.symm (inv.fresh q pc q' old)
      by_cases clash : txid q.parsed.dns = some id
      · rw [recordPending_same clash, undisturbed q' flying (read.trans clash.symm)]
      · rw [recordPending_other clash]
        exact inv.kept q' flying id read

/-- A query that gives up its record takes no other record with it. -/
theorem Kept.withdraw {v w : View} (inv : Kept v) (q : Query) (here : query v.ingress = some q)
    (alone : ∀ other ∈ inFlight v, other.id ≠ q.id → txid other.parsed.dns ≠ txid q.parsed.dns)
    (next : query w.ingress = some q) (placing : ∀ q', w.ingress ≠ .placing q')
    (queries : w.history.queries = v.history.queries) (foreign : w.history.foreign = v.history.foreign)
    (placed : w.history.placed = withdraw v.history.placed q.id)
    (pending : w.pending = clearPending v.pending q.parsed.dns) : Kept w := by
  have fewer : ∀ other ∈ w.history.placed, other ∈ v.history.placed ∧ other.id ≠ q.id := by
    intro other member
    rw [placed] at member
    simpa [DataPlane.withdraw] using member
  constructor
  · intro q' member
    rw [queries]
    exact inv.known q' (fewer q' member).1
  · intro id member
    rw [queries]
    exact inv.decided id (foreign ▸ member)
  · intro q' same
    rw [queries]
    exact Option.some.inj (next.symm.trans same) ▸ inv.current q here
  · intro q' same
    exact absurd same (placing q')
  · intro q' same
    rw [foreign]
    exact Option.some.inj (next.symm.trans same) ▸ inv.undecided q here
  · intro q' same other member id
    obtain rfl : q = q' := Option.some.inj (next.symm.trans same)
    exact absurd id (fewer other member).2
  · intro q' member id read
    rw [mem_inFlight] at member
    obtain ⟨old, distinct⟩ := fewer q' member.1
    have flying : q' ∈ inFlight v := by
      refine mem_inFlight.mpr ⟨old, ?_⟩
      rcases member.2 with waiting | ⟨current, holds, same⟩
      · exact .inl (foreign ▸ waiting)
      · obtain rfl : q = current := Option.some.inj (next.symm.trans holds)
        exact absurd same.symm distinct
    have other := alone q' flying distinct
    rw [pending, clearPending_other (fun same => other (read.trans same.symm))]
    exact inv.kept q' flying id read

/-- A query found foreign stays in flight. -/
theorem Kept.leave {v : View} (inv : Kept v) (q : Query) (here : query v.ingress = some q) :
    Kept { v with ingress := .recv, history.foreign := q.id :: v.history.foreign } := by
  refine ⟨inv.known, ?_, nofun, nofun, nofun, nofun, ?_⟩
  · intro id member
    rcases List.mem_cons.mp member with rfl | old
    · exact inv.current q here
    · exact inv.decided id old
  · intro q' member
    rw [mem_inFlight] at member
    refine inv.kept q' (mem_inFlight.mpr ⟨member.1, ?_⟩)
    rcases member.2 with waiting | ⟨_, none, _⟩
    · rcases List.mem_cons.mp waiting with same | old
      · exact .inr ⟨q, here, same.symm⟩
      · exact .inl old
    · cases none

/-- What the egress loop does to the table: nothing, or it removes the entry under the id of a
packet for `dns_remote:53`. -/
theorem pairDatagram_pending (s : Session) (arrival : Arrival) :
    (consumes prims s arrival.wire = false ∧ (pairDatagram prims s arrival).pending = s.pending) ∨
      (consumes prims s arrival.wire = true ∧ ∃ i reply id, s.interceptor = some i ∧
        (readable prims s.carrier arrival.wire).bind parseUdpDnsQuery = some reply ∧
        reply.serverIp = i.dnsRemote.ip ∧ txid reply.dns = some id ∧
        (pairDatagram prims s arrival).pending = s.pending.remove id) := by
  cases mode : s.interceptor with
  | none =>
    refine .inl ⟨by simp [consumes, mode], ?_⟩
    simp only [pairDatagram, deliver, handOver, mode]
    split
    · rfl
    · split <;> rfl
  | some i =>
    cases decoded : decode prims s.carrier arrival.wire with
    | none =>
      have unread : readable prims s.carrier arrival.wire = none := by simp [readable, decoded]
      refine .inl ⟨by simp [consumes, mode, unread], ?_⟩
      simp only [pairDatagram, deliver, decoded]
    | some plaintext =>
      by_cases short : plaintext.length < 20
      · have unread : readable prims s.carrier arrival.wire = none := by
          simp [readable, decoded, Option.filter, Nat.not_le.mpr short]
        refine .inl ⟨by simp [consumes, mode, unread], ?_⟩
        simp only [pairDatagram, deliver, decoded, if_pos short]
      · have read : readable prims s.carrier arrival.wire = some plaintext := by
          simp [readable, decoded, Option.filter, Nat.not_lt.mp short]
        have same : (pairDatagram prims s arrival).pending =
            (tryHandleTunneledReply i s.pending plaintext).pending := by
          simp only [pairDatagram, deliver, decoded, if_neg short, mode, handOver]
          split <;> rfl
        have flag : consumes prims s arrival.wire =
            (tryHandleTunneledReply i s.pending plaintext).consumed := by
          simp only [consumes, mode, read]
        rw [flag, same, read]
        rcases tryHandle_pending i s.pending plaintext with kept | ⟨consumed, reply, id, handled⟩
        · exact .inl kept
        · exact .inr ⟨consumed, i, reply, id, rfl, handled⟩

/-- A reply that is handled takes only the record of its own query away. -/
theorem Kept.pair {s : Session} (inv : Kept (view s)) (arrival : Arrival)
    (own : ∀ i reply, s.interceptor = some i →
      (readable prims s.carrier arrival.wire).bind parseUdpDnsQuery = some reply →
      reply.serverIp = i.dnsRemote.ip → ∀ other ∈ inFlight (view s),
        txid other.parsed.dns = txid reply.dns → arrival.origin = some other.id) :
    Kept (view (pairDatagram prims s arrival)) := by
  have fewer : ∀ q ∈ (pairDatagram prims s arrival).history.placed, q ∈ s.history.placed ∧
      (consumes prims s arrival.wire = true → arrival.origin ≠ some q.id) := by
    intro q member
    unfold pairDatagram at member
    by_cases consumed : consumes prims s arrival.wire = true
    · simp only [if_pos consumed, List.mem_filter, decide_eq_true_eq] at member
      exact ⟨member.1, fun _ same => member.2 same.symm⟩
    · simp only [if_neg consumed] at member
      exact ⟨member, fun handled => absurd handled consumed⟩
  constructor
  · intro q member
    exact inv.known q (fewer q member).1
  · exact inv.decided
  · exact inv.current
  · intro q here other member
    exact inv.fresh q here other (fewer other member).1
  · exact inv.undecided
  · intro q here other member
    exact inv.same q here other (fewer other member).1
  · intro q member id read
    rw [mem_inFlight] at member
    obtain ⟨old, survived⟩ := fewer q member.1
    have flying : q ∈ inFlight (view s) := mem_inFlight.mpr ⟨old, member.2⟩
    have before := inv.kept q flying id read
    change (pairDatagram prims s arrival).pending id = some (record q.parsed)
    rcases @pairDatagram_pending prims s arrival with
      ⟨_, same⟩ | ⟨consumed, i, reply, id', present, parsed, source, key, removed⟩
    · rw [same]
      exact before
    · have apart : id ≠ id' := by
        intro same
        have origin := own i reply present parsed source q flying (read.trans (same ▸ key.symm))
        exact survived consumed origin
      rw [removed, PendingTable.remove_other _ _ _ apart]
      exact before

theorem move_kept {s : Session} {action : Action} {v : View} (inv : Kept (view s))
    (undisturbed : undisturbed prims s action = true) (move : Move prims s action v) : Kept v := by
  cases move with
  | quiet => exact inv
  | release pc idle =>
    refine inv.frame rfl rfl rfl rfl ?_ ?_
    · intro q here
      exact absurd (idle.symm.trans here) (by simp)
    · intro q here
      obtain rfl : pc = .placing q := here
      cases idle
  | rest pc idle => exact inv.frame rfl rfl rfl rfl (fun _ here => here) (fun _ here => here)
  | relayed q present fresh relayed => exact inv.enroll q (.asking q) fresh rfl
  | intercepted q present fresh intercepted => exact inv.enroll q (.placing q) fresh rfl
  | unplaced q pc unread =>
    refine inv.frame rfl rfl rfl rfl ?_ (fun _ here => by cases here)
    simp [view, pc, query]
  | placed q pc =>
    refine inv.place q pc ?_
    intro other member same
    have all := by simpa only [Waiting.undisturbed, pc, List.all_eq_true] using undisturbed
    simpa [sameId, same] using all other member
  | @unsealed nonce ok q i e pc present failed =>
    have apart : shares (view s) q = false := by
      have fails : encrypts prims s i q nonce = false := by
        unfold encrypts
        rw [failed]
        rfl
      simpa [Waiting.undisturbed, pc, present, fails] using undisturbed
    refine inv.withdraw q (by simp [view, pc, query]) ?_ rfl (fun _ here => by cases here) rfl rfl rfl rfl
    intro other member distinct same
    simp only [shares, List.any_eq_false] at apart
    exact apart other member (by simp [distinct, sameId, same])
  | «sealed» q clean pc same =>
    refine inv.frame rfl rfl rfl rfl ?_ (fun _ here => by cases here)
    simp [view, pc, query]
  | asked q pc =>
    refine inv.frame rfl rfl rfl rfl ?_ (fun _ here => by cases here)
    simp [view, pc, query]
  | tookRelayed q datagram rest pc head relayed =>
    refine inv.frame rfl rfl rfl rfl ?_ (fun _ here => by cases here)
    simp [view, pc, query]
  | took q datagram rest pc head =>
    refine inv.frame rfl rfl rfl rfl ?_ (fun _ here => by cases here)
    simp [view, pc, query]
  | domestic q answer i pc present domestic =>
    have apart : shares (view s) q = false := by
      simpa [Waiting.undisturbed, pc, present, domestic] using undisturbed
    refine inv.withdraw q (by simp [view, pc, query]) ?_ rfl (fun _ here => by cases here) rfl rfl rfl rfl
    intro other member distinct same
    simp only [shares, List.any_eq_false] at apart
    exact apart other member (by simp [distinct, sameId, same])
  | foreign q answer pc => exact inv.leave q (by simp [view, pc, query])
  | responded q answer pc =>
    exact inv.frame rfl rfl rfl rfl (fun _ here => by cases here) (fun _ here => by cases here)
  | received arrival rest pc head =>
    exact inv.frame rfl rfl rfl rfl (fun _ here => here) (fun _ here => here)
  | paired arrival pc =>
    refine inv.pair arrival ?_
    intro i reply present parsed source other member same
    have all := by simpa only [Waiting.undisturbed, pc, present, parsed] using undisturbed
    simp only [source, bne_self_eq_false, Bool.false_or, List.all_eq_true] at all
    simpa [same] using all other member
  | wrote packet rest origin pc =>
    exact inv.frame rfl rfl rfl rfl (fun _ here => here) (fun _ here => here)
  | cleanLost index => exact inv.frame rfl rfl rfl rfl (fun _ here => here) (fun _ here => here)
  | cleanSent index clean found =>
    exact inv.frame rfl rfl rfl rfl (fun _ here => here) (fun _ here => here)
  | directStray datagram stray =>
    exact inv.frame rfl rfl rfl rfl (fun _ here => here) (fun _ here => here)
  | directReply datagram i q present member reply answers =>
    exact inv.frame rfl rfl rfl rfl (fun _ here => here) (fun _ here => here)
  | tunnelStray arrival stray =>
    exact inv.frame rfl rfl rfl rfl (fun _ here => here) (fun _ here => here)
  | tunnelReply arrival id reply member =>
    exact inv.frame rfl rfl rfl rfl (fun _ here => here) (fun _ here => here)

end Waiting

/-- In every run in which queries in flight do not share their ids, save for harmless repetitions,
and replies are handled for their own queries, waiting queries keep their records. -/
theorem records_kept_when_undisturbed (prims : Primitives) (interceptor : Option Interceptor)
    (carrier : Carrier) (s : Session)
    (reached : Reaches (step prims) (fun s action => undisturbed prims s action = true)
      (start interceptor carrier) s) : RecordsKept s := by
  have kept := reached.invariant (fun s => Kept (view s))
    (fun _ _ _ inv undisturbed taken => move_kept inv undisturbed (step_move taken))
    (start_kept interceptor carrier)
  intro q member waiting
  exact kept.kept q (mem_inFlight.mpr ⟨member, .inl waiting⟩)

/-- The rest of a query whose direct answer has the address 93.184.216.34. -/
def sampleLeave (id : BitVec 16) (number : Nat) : List Action :=
  [.directArrives ⟨sampleInterceptor.dnsLocal, sampleAnswer id, some number⟩,
    .ingress sampleNonce true, .ingress sampleNonce true]

/-- Two clients with different ids are left waiting. -/
theorem sample_records_kept : ∃ s, Reaches (step samplePrims)
    (fun s action => undisturbed samplePrims s action = true)
    (start (some sampleInterceptor) sampleCarrier) s ∧ s.history.foreign = [1, 0] ∧
      s.history.placed.length = 2 ∧ RecordsKept s := by
  have ran : (testedRun (step samplePrims) (undisturbed samplePrims)
      (start (some sampleInterceptor) sampleCarrier)
      (sampleAsk 7 5353 ++ sampleLeave 7 0 ++ sampleAsk 8 5454 ++ sampleLeave 8 1)).map
      (fun s => (s.history.foreign, s.history.placed.length)) = some ([1, 0], 2) := by
    decide +kernel
  obtain ⟨s, ran, two⟩ := Option.map_eq_some_iff.mp ran
  obtain ⟨foreign, placed⟩ := Prod.mk.inj two
  have reached := reaches_of_testedRun ran
  exact ⟨s, reached, foreign, placed, records_kept_when_undisturbed samplePrims _ _ s reached⟩

/-- A query with the id of a waiting one replaces its record. -/
theorem record_replaced : ∃ s, Reachable (step samplePrims)
    (start (some sampleInterceptor) sampleCarrier) s ∧ ¬RecordsKept s := by
  have ran : (run (step samplePrims) (start (some sampleInterceptor) sampleCarrier)
      (sampleAsk 7 5353 ++ sampleLeave 7 0 ++ sampleAsk 7 5454)).map
      (fun s => s.history.placed.any fun q => s.history.foreign.contains q.id &&
        txid q.parsed.dns == some 7 && s.pending 7 != some (record q.parsed)) = some true := by
    decide +kernel
  obtain ⟨s, ran, lost⟩ := Option.map_eq_some_iff.mp ran
  refine ⟨s, reachable_of_run ran, ?_⟩
  intro kept
  obtain ⟨q, member, lost⟩ := List.any_eq_true.mp lost
  simp only [Bool.and_eq_true, List.contains_iff_mem, beq_iff_eq, bne_iff_ne] at lost
  exact lost.2 (kept q member lost.1.1 7 lost.1.2)

end ShadowVpn.Engine.Waiting
