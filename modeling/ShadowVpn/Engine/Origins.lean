import ShadowVpn.Engine.Books
import ShadowVpn.Engine.Pipe

/-! Where the packets of a session come from, over whole runs: the way back from the tunnel in
order, and the accepted packet or the arrived datagram behind everything that is handed to the
writer or sent to the server. -/

namespace ShadowVpn.Engine.Origins
open ShadowVpn.Lib.Octets ShadowVpn.Lib.Transition ShadowVpn.Lib.Histories ShadowVpn.Net.Ipv4
open ShadowVpn.Net.Udp
open ShadowVpn.Wire.Crypto ShadowVpn.Wire.Obfs ShadowVpn.Engine.Intercept ShadowVpn.Engine.Datagram
open ShadowVpn.Engine.DataPlane ShadowVpn.Engine.Moves ShadowVpn.Engine.Books
open ShadowVpn.Engine.Turns ShadowVpn.Engine.Pipe

def directArrivals (e : Event Session Action) : List Datagram :=
  match e.label with
  | .directArrives datagram => [datagram]
  | _ => []

def tunnelArrivals (e : Event Session Action) : List Bytes :=
  match e.label with
  | .tunnelArrives arrival => [arrival.wire]
  | _ => []

/-- The datagram that the egress task has read and not yet handled. -/
def inEgress : Egress → List Bytes
  | .received arrival => [arrival.wire]
  | _ => []

/-- The packets from the tunnel that were handed to the writer. -/
def tunneled (emitted : List Emission) : List Bytes :=
  (emitted.filter fun emission => !emission.direct).map Emission.packet

/-- A datagram that was handled, the table of waiting queries it met and the packet it was made into. -/
structure Handling where
  wire : Bytes
  waiting : PendingTable
  made : Option Bytes

section Handled

variable (prims : Primitives)

def handled (e : Event Session Action) : List Handling :=
  match e.label, e.before.egress.pc with
  | .egress _, .received arrival =>
    [⟨arrival.wire, e.before.pending, (deliver prims e.before.carrier e.before.interceptor
      e.before.pending arrival.wire).emitted.head?⟩]
  | _, _ => []

/-- `ingest` accepted a packet in which the interceptor finds this query. -/
def Asked (events : List (Event Session Action)) (q : ParsedQuery) : Prop :=
  ∃ pkt ∈ events.flatMap accepted, examine pkt = .relay q ∨ examine pkt = .intercept q

/-- `ingest` accepted a packet with this query for an address. -/
def Copied (events : List (Event Session Action)) (q : ParsedQuery) : Prop :=
  ∃ pkt ∈ events.flatMap accepted, examine pkt = .intercept q

/-- The interceptor takes the packet for the reply to a query that waits. -/
def Awaited (interceptor : Option Interceptor) (waiting : PendingTable) (plaintext : Bytes) : Prop :=
  ∃ i segment id entry, interceptor = some i ∧ IsUdp plaintext segment ∧
    segment.dst = ⟨i.dnsRemote.ip, dnsPort⟩ ∧ txid segment.payload = some id ∧ waiting id = some entry

/-- What becomes of a datagram from the tunnel: noise makes no packet, one that reached `dns_remote:53` with
the id of a query that waits goes back to the client of the query from the server it asked, and any other is
passed on as it is. -/
inductive Brought (events : List (Event Session Action)) (interceptor : Option Interceptor)
    (carrier : Carrier) : Handling → Prop
  | noise (wire : Bytes) (waiting : PendingTable) (unread : readable prims carrier wire = none) :
      Brought events interceptor carrier ⟨wire, waiting, none⟩
  | passed (wire : Bytes) (waiting : PendingTable) (plaintext : Bytes)
      (read : readable prims carrier wire = some plaintext)
      (unawaited : ¬Awaited interceptor waiting plaintext) :
      Brought events interceptor carrier ⟨wire, waiting, some plaintext⟩
  | rewritten (wire : Bytes) (waiting : PendingTable) (plaintext packet : Bytes) (i : Interceptor)
      (q : ParsedQuery) (segment : Segment) (id : BitVec 16)
      (read : readable prims carrier wire = some plaintext) (present : interceptor = some i)
      (asked : Copied events q) (queried : txid q.dns = some id)
      (waits : waiting id = some (Intercept.record q)) (is : IsUdp plaintext segment)
      (addressed : segment.dst = ⟨i.dnsRemote.ip, dnsPort⟩) (replied : txid segment.payload = some id)
      (returned : IsUdp packet ⟨⟨q.serverIp, q.serverPort⟩, ⟨q.clientIp, q.clientPort⟩, segment.payload⟩) :
      Brought events interceptor carrier ⟨wire, waiting, some packet⟩

/-- A direct answer to a query goes back to its client from the server it asked, with what arrived. -/
def Answered (events : List (Event Session Action)) (packet : Bytes) : Prop :=
  ∃ q, Asked events q ∧ ∃ datagram ∈ events.flatMap directArrivals,
    packet = responsePacket q (datagram.payload.take answerBuffer) ∧
    IsUdp packet ⟨⟨q.serverIp, q.serverPort⟩, ⟨q.clientIp, q.clientPort⟩, datagram.payload.take answerBuffer⟩

variable {prims}

theorem Asked.grow {events : List (Event Session Action)} {q : ParsedQuery} (asked : Asked events q)
    (e : Event Session Action) : Asked (events ++ [e]) q := by
  obtain ⟨pkt, member, verdict⟩ := asked
  refine ⟨pkt, ?_, verdict⟩
  rw [List.flatMap_append]
  exact List.mem_append_left _ member

theorem Copied.grow {events : List (Event Session Action)} {q : ParsedQuery} (copied : Copied events q)
    (e : Event Session Action) : Copied (events ++ [e]) q := by
  obtain ⟨pkt, member, verdict⟩ := copied
  refine ⟨pkt, ?_, verdict⟩
  rw [List.flatMap_append]
  exact List.mem_append_left _ member

theorem Copied.asked {events : List (Event Session Action)} {q : ParsedQuery}
    (copied : Copied events q) : Asked events q := by
  obtain ⟨pkt, member, verdict⟩ := copied
  exact ⟨pkt, member, .inr verdict⟩

theorem Brought.grow {events : List (Event Session Action)} {interceptor : Option Interceptor}
    {carrier : Carrier} {h : Handling} (brought : Brought prims events interceptor carrier h)
    (e : Event Session Action) : Brought prims (events ++ [e]) interceptor carrier h := by
  cases brought with
  | noise wire waiting unread => exact .noise wire waiting unread
  | passed wire waiting plaintext read unawaited => exact .passed wire waiting plaintext read unawaited
  | rewritten wire waiting plaintext packet i q segment id read present asked queried waits is addressed replied
      returned =>
    exact .rewritten wire waiting plaintext packet i q segment id read present (asked.grow e) queried waits is
      addressed replied returned

/-- The packet of a response that fits a datagram is what it is meant to be. -/
theorem responsePacket_isUdp (q : ParsedQuery) {payload : Bytes} (small : udpHeader + payload.length < 65536) :
    IsUdp (responsePacket q payload) ⟨⟨q.serverIp, q.serverPort⟩, ⟨q.clientIp, q.clientPort⟩, payload⟩ :=
  buildUdpIpv4_isUdp ⟨q.serverIp, q.serverPort⟩ ⟨q.clientIp, q.clientPort⟩ payload small

theorem Awaited.consumed {i : Interceptor} {waiting : PendingTable} {plaintext : Bytes}
    (awaited : Awaited (some i) waiting plaintext) :
    (tryHandleTunneledReply i waiting plaintext).consumed = true := by
  obtain ⟨_, segment, id, entry, same, is, addressed, replied, found⟩ := awaited
  cases same
  rw [tryHandle_of_destination is addressed replied found]

/-- What the egress loop makes of a datagram, by what it reads in it. -/
theorem deliver_cases (prims : Primitives) (carrier : Carrier) (interceptor : Option Interceptor) (pending : PendingTable)
    (wire : Bytes) :
    (readable prims carrier wire = none ∧
      deliver prims carrier interceptor pending wire = ⟨pending, [], 0⟩) ∨
    (∃ plaintext, readable prims carrier wire = some plaintext ∧ ¬Awaited interceptor pending plaintext ∧
      deliver prims carrier interceptor pending wire = ⟨pending, [plaintext], plaintext.length⟩) ∨
    ∃ plaintext i segment id entry, readable prims carrier wire = some plaintext ∧
      interceptor = some i ∧ IsUdp plaintext segment ∧ segment.dst = ⟨i.dnsRemote.ip, dnsPort⟩ ∧
      txid segment.payload = some id ∧ pending id = some entry ∧
      deliver prims carrier interceptor pending wire = ⟨pending.remove id,
        [buildUdpIpv4 entry.serverIp entry.serverPort entry.clientIp entry.clientPort
          segment.payload], 0⟩ := by
  unfold deliver
  cases decoded : decode prims carrier wire with
  | none => exact .inl ⟨by simp [readable, decoded], rfl⟩
  | some plaintext =>
    by_cases short : plaintext.length < 20
    · exact .inl ⟨by simp [readable, decoded, short], by simp only [if_pos short]⟩
    · have read : readable prims carrier wire = some plaintext := by
        simp [readable, decoded, Nat.le_of_not_lt short]
      simp only [if_neg short, handOver]
      right
      cases interceptor with
      | none =>
        refine .inl ⟨plaintext, read, ?_, rfl⟩
        rintro ⟨_, _, _, _, present, _⟩
        cases present
      | some i =>
        simp only
        rcases tryHandle_pending i pending plaintext with ⟨left, same⟩ | ⟨consumed, _⟩
        · refine .inl ⟨plaintext, read, ?_, ?_⟩
          · intro awaited
            rw [awaited.consumed] at left
            cases left
          · rw [left, same]
            rfl
        · obtain ⟨segment, id, entry, is, addressed, replied, found, done⟩ :=
            (tryHandle_consumed i pending plaintext).mp consumed
          refine .inr ⟨plaintext, i, segment, id, entry, read, rfl, is, addressed, replied, found, ?_⟩
          rw [done]
          rfl

end Handled

section Return

variable {prims : Primitives}

/-- A task that is not polled stands where it waits or at its end. -/
def Rests (s : Session) : Prop :=
  s.egress.parked = true → s.egress.pc = .recv ∨ s.egress.pc = .done

theorem rests_empty {s : Session} (rests : Rests s) (parked : s.egress.parked = true) :
    inEgress s.egress.pc = [] ∧ held s.egress.pc = [] := by
  rcases rests parked with pc | pc <;> exact ⟨by rw [pc]; rfl, by rw [pc]; rfl⟩

theorem change_rests {s after : Session} {action : Action} (rests : Rests s)
    (change : Change prims s action after) : Rests after := by
  cases change with
  | turned turn => cases turn <;> exact rests
  | flagged flag senders ingress egress keepalive places parks =>
    intro parked
    rcases parks parked with already | waits
    · exact places.2.1 ▸ rests already
    · exact .inl waits
  | egressCancelled parked => exact fun _ => .inr rfl
  | read | readFailed | drained | wrote => exact fun parked => by simp [Task.goto] at parked
  | paired => exact fun parked => by simp [pairDatagram, Task.goto] at parked
  | _ => exact rests

/-- The egress task takes a datagram off the front of what has arrived when it has handled it. -/
theorem change_read {s after : Session} {action : Action} (rests : Rests s)
    (change : Change prims s action after) :
    inEgress s.egress.pc ++ s.tunnelIn.map Arrival.wire ++ tunnelArrivals ⟨s, action, after⟩ =
      (handled prims ⟨s, action, after⟩).map Handling.wire ++
        (inEgress after.egress.pc ++ after.tunnelIn.map Arrival.wire) := by
  cases change with
  | turned turn => cases turn <;> simp [tunnelArrivals, handled, Session.enter, Session.emit]
  | flagged flag senders ingress egress keepalive places parks =>
    obtain ⟨_, second, _⟩ := places
    cases action <;> simp_all [isFlag, tunnelArrivals, handled]
  | egressCancelled parked =>
    rw [(rests_empty rests parked).1]
    simp [tunnelArrivals, handled, inEgress]
  | read arrival rest pc head => simp [tunnelArrivals, handled, pc, head, inEgress, Task.goto]
  | readFailed pc => simp [tunnelArrivals, handled, pc, inEgress, Task.goto]
  | paired arrival pc => simp [tunnelArrivals, handled, pc, inEgress, Task.goto, pairDatagram]
  | wrote packet rest origin pc =>
    simp [tunnelArrivals, handled, pc, inEgress, Task.goto, Session.emit]
  | drained origin pc => simp [tunnelArrivals, handled, pc, inEgress, Task.goto]
  | _ => simp [tunnelArrivals, handled]

/-- What is made of a datagram is handed to the writer behind all that was made before. -/
theorem change_written {s after : Session} {action : Action} (rests : Rests s)
    (change : Change prims s action after) :
    tunneled s.emitted ++ held s.egress.pc ++ (handled prims ⟨s, action, after⟩).filterMap Handling.made =
      tunneled after.emitted ++ held after.egress.pc := by
  cases change with
  | turned turn => cases turn <;> simp [handled, tunneled, Session.enter, Session.emit]
  | flagged flag senders ingress egress keepalive places parks =>
    obtain ⟨_, second, _⟩ := places
    cases action <;> simp_all [isFlag, handled]
  | egressCancelled parked =>
    rw [(rests_empty rests parked).2]
    simp [handled, held]
  | read arrival rest pc head => simp [handled, pc, held, Task.goto]
  | readFailed pc => simp [handled, pc, held, Task.goto]
  | paired arrival pc =>
    simp only [handled, pc, held, pairDatagram, Task.goto, List.append_nil]
    rcases deliver_cases prims s.carrier s.interceptor s.pending arrival.wire with
      ⟨_, made⟩ | ⟨_, _, _, made⟩ | ⟨_, _, _, _, _, _, _, _, _, _, _, made⟩
    all_goals simp [made]
  | wrote packet rest origin pc => simp [handled, pc, held, Task.goto, Session.emit, tunneled]
  | drained origin pc => simp [handled, pc, held, Task.goto]
  | _ => simp [handled]

/-- The counter of the framing plays no part in reading. -/
theorem unframe_next (pnLen : Nat) (one : Option Obfuscator) (random : Byte) (datagram wire : Bytes) :
    unframe (frameWith pnLen one random datagram).2 wire = unframe one wire := by
  cases one with
  | none => rfl
  | some o => cases o <;> rfl

/-- The session has the interceptor it started with and reads as it did then. -/
structure Framed (interceptor : Option Interceptor) (carrier : Carrier) (s : Session) : Prop where
  mode : s.interceptor = interceptor
  carrier : ∃ one, s.carrier = { carrier with obfuscator := one } ∧
    ∀ wire, unframe one wire = unframe carrier.obfuscator wire

theorem Framed.readable {interceptor : Option Interceptor} {carrier : Carrier} {s : Session}
    (framed : Framed interceptor carrier s) (wire : Bytes) :
    readable prims s.carrier wire = readable prims carrier wire := by
  obtain ⟨one, same, alike⟩ := framed.carrier
  rw [same]
  simp only [DataPlane.readable, decode, alike]

/-- The session after a packet was framed. -/
theorem Framed.moved {interceptor : Option Interceptor} {carrier : Carrier} {s : Session}
    {salt : Salt s.carrier.cipher} {random : Byte} {pkt wire : Bytes} {next : Option Obfuscator}
    (framed : Framed interceptor carrier s)
    (encoded : encode prims s.carrier salt random pkt = .ok (wire, next)) :
    ∃ one, { s.carrier with obfuscator := next } = { carrier with obfuscator := one } ∧
      ∀ wire, unframe one wire = unframe carrier.obfuscator wire := by
  obtain ⟨one, same, alike⟩ := framed.carrier
  obtain ⟨datagram, moved⟩ := encode_next encoded
  refine ⟨next, ?_, fun wire => ?_⟩
  · rw [same]
  · rw [moved, unframe_next, same]
    exact alike wire

theorem change_framed {interceptor : Option Interceptor} {carrier : Carrier} {s after : Session}
    {action : Action} (framed : Framed interceptor carrier s) (change : Change prims s action after) :
    Framed interceptor carrier after := by
  cases change with
  | turned turn =>
    cases turn with
    | sealed q i wire next pc present encoded => exact ⟨framed.mode, framed.moved encoded⟩
    | framed pkt wire next pc encoded => exact ⟨framed.mode, framed.moved encoded⟩
    | _ => exact ⟨framed.mode, framed.carrier⟩
  | beat wire next pc encoded => exact ⟨framed.mode, framed.moved encoded⟩
  | _ => exact ⟨framed.mode, framed.carrier⟩

theorem start_framed (interceptor : Option Interceptor) (carrier : Carrier) :
    Framed interceptor carrier (start interceptor carrier) :=
  ⟨rfl, carrier.obfuscator, rfl, fun _ => rfl⟩

/-- Where what the ingress task works on comes from. -/
def Place (interceptor : Option Interceptor) (events : List (Event Session Action)) : Ingress → Prop
  | .recv | .done => True
  | .placing q | .sealing q => Copied events q.parsed
  | .asking q | .listening q => Asked events q.parsed
  | .deciding q answer | .responding q answer => Asked events q.parsed ∧
      ∃ datagram ∈ events.flatMap directArrivals, answer = datagram.payload.take answerBuffer
  | .forwarding pkt | .sending pkt _ => pkt ∈ events.flatMap accepted ∧ Plain interceptor pkt

/-- Where what is sent to the server comes from. -/
def Sourced (interceptor : Option Interceptor) (events : List (Event Session Action)) (packet : Bytes) : Prop :=
  packet = keepalivePayload ∨ (packet ∈ events.flatMap accepted ∧ Plain interceptor packet) ∨
    ∃ i q, interceptor = some i ∧ Copied events q ∧ packet = i.cleanPacket q

/-- Where all that a session holds comes from. -/
structure Traced (interceptor : Option Interceptor) (carrier : Carrier)
    (events : List (Event Session Action)) (s : Session) : Prop where
  framed : Framed interceptor carrier s
  queue : ∀ pkt ∈ s.queue, pkt ∈ events.flatMap accepted
  place : Place interceptor events s.ingress.pc
  directIn : ∀ datagram ∈ s.directIn, datagram ∈ events.flatMap directArrivals
  pending : ∀ id entry, s.pending id = some entry →
    ∃ q, Copied events q ∧ txid q.dns = some id ∧ entry = Intercept.record q
  detached : ∀ clean ∈ s.detached, ∃ i q, interceptor = some i ∧ Copied events q ∧
    clean.pkt = i.cleanPacket q
  emitted : ∀ emission ∈ s.emitted, emission.direct = true → Answered events emission.packet

theorem member_grow {Item : Type} {output : Event Session Action → List Item} {item : Item}
    {events : List (Event Session Action)} (member : item ∈ events.flatMap output)
    (e : Event Session Action) : item ∈ (events ++ [e]).flatMap output := by
  rw [List.flatMap_append]
  exact List.mem_append_left _ member

theorem member_now {Item : Type} {output : Event Session Action → List Item} {item : Item}
    (events : List (Event Session Action)) {e : Event Session Action} (member : item ∈ output e) :
    item ∈ (events ++ [e]).flatMap output := by
  simpa using .inr member

section Grow

variable {interceptor : Option Interceptor} {carrier : Carrier} {events : List (Event Session Action)}

theorem Place.grow {pc : Ingress} (place : Place interceptor events pc) (e : Event Session Action) :
    Place interceptor (events ++ [e]) pc := by
  cases pc with
  | recv | done => trivial
  | placing q | sealing q => exact Copied.grow place e
  | asking q | listening q => exact Asked.grow place e
  | deciding q answer | responding q answer =>
    obtain ⟨asked, datagram, member, same⟩ := place
    exact ⟨asked.grow e, datagram, member_grow member e, same⟩
  | forwarding pkt | sending pkt wire => exact ⟨member_grow place.1 e, place.2⟩

/-- What was traced stays traced. -/
theorem Traced.grow {s : Session} (inv : Traced interceptor carrier events s)
    (e : Event Session Action) : Traced interceptor carrier (events ++ [e]) s where
  framed := inv.framed
  queue := fun pkt member => member_grow (inv.queue pkt member) e
  place := inv.place.grow e
  directIn := fun datagram member => member_grow (inv.directIn datagram member) e
  pending := fun id entry found =>
    have ⟨q, copied, read, same⟩ := inv.pending id entry found
    ⟨q, copied.grow e, read, same⟩
  detached := fun clean member =>
    have ⟨i, q, present, copied, same⟩ := inv.detached clean member
    ⟨i, q, present, copied.grow e, same⟩
  emitted := fun emission member direct =>
    have ⟨q, asked, datagram, arrived, facts⟩ := inv.emitted emission member direct
    ⟨q, asked.grow e, datagram, member_grow arrived e, facts⟩

/-- Only the places of the tasks and the queue of the channel change. -/
theorem Traced.aside {s after : Session} (inv : Traced interceptor carrier events s)
    (framed : Framed interceptor carrier after)
    (same : after.directIn = s.directIn ∧ after.pending = s.pending ∧ after.detached = s.detached ∧
      after.emitted = s.emitted)
    (queue : ∀ pkt ∈ after.queue, pkt ∈ events.flatMap accepted)
    (place : Place interceptor events after.ingress.pc) : Traced interceptor carrier events after := by
  obtain ⟨directIn, pending, detached, emitted⟩ := same
  exact ⟨framed, queue, place, directIn ▸ inv.directIn, pending ▸ inv.pending,
    detached ▸ inv.detached, emitted ▸ inv.emitted⟩

/-- Fewer waiting records than before. -/
theorem cleared_traced {pending : PendingTable} {dns : Bytes}
    (traced : ∀ id entry, pending id = some entry →
      ∃ q, Copied events q ∧ txid q.dns = some id ∧ entry = Intercept.record q)
    (id : BitVec 16) (entry : Pending) (found : clearPending pending dns id = some entry) :
    ∃ q, Copied events q ∧ txid q.dns = some id ∧ entry = Intercept.record q := by
  by_cases here : txid dns = some id
  · simp [clearPending, here] at found
  · rw [clearPending_other here] at found
    exact traced id entry found

theorem recorded_traced {pending : PendingTable} {asked : ParsedQuery} (copied : Copied events asked)
    (traced : ∀ id entry, pending id = some entry →
      ∃ q, Copied events q ∧ txid q.dns = some id ∧ entry = Intercept.record q)
    (id : BitVec 16) (entry : Pending) (found : recordPending pending asked id = some entry) :
    ∃ q, Copied events q ∧ txid q.dns = some id ∧ entry = Intercept.record q := by
  by_cases here : txid asked.dns = some id
  · rw [recordPending_same here, Option.some.injEq] at found
    exact ⟨asked, copied, here, found.symm⟩
  · rw [recordPending_other here] at found
    exact traced id entry found

theorem turn_traced {s after : Session} {nonce : Nonce} {ok : Bool}
    (inv : Traced interceptor carrier events s) (framed : Framed interceptor carrier after)
    (turn : Turn prims s nonce ok after) : Traced interceptor carrier events after := by
  have place := inv.place
  cases turn with
  | passed pkt rest pc head calm plain =>
    rw [inv.framed.mode] at plain
    exact inv.aside framed ⟨rfl, rfl, rfl, rfl⟩
      (fun other member => inv.queue other (head ▸ List.mem_cons_of_mem pkt member))
      ⟨inv.queue pkt (head ▸ List.mem_cons_self), plain⟩
  | relayed pkt rest q pc head calm present verdict =>
    exact inv.aside framed ⟨rfl, rfl, rfl, rfl⟩
      (fun other member => inv.queue other (head ▸ List.mem_cons_of_mem pkt member))
      ⟨pkt, inv.queue pkt (head ▸ List.mem_cons_self), .inl verdict⟩
  | intercepted pkt rest q pc head calm present verdict =>
    exact inv.aside framed ⟨rfl, rfl, rfl, rfl⟩
      (fun other member => inv.queue other (head ▸ List.mem_cons_of_mem pkt member))
      ⟨pkt, inv.queue pkt (head ▸ List.mem_cons_self), verdict⟩
  | unplaced q pc unread =>
    rw [pc] at place
    exact inv.aside framed ⟨rfl, rfl, rfl, rfl⟩ inv.queue (Copied.asked place)
  | placed q pc =>
    rw [pc] at place
    exact ⟨framed, inv.queue, place, inv.directIn, recorded_traced place inv.pending, inv.detached,
      inv.emitted⟩
  | unsealed q i e pc present failed =>
    rw [pc] at place
    exact ⟨framed, inv.queue, Copied.asked place, inv.directIn, cleared_traced inv.pending,
      inv.detached, inv.emitted⟩
  | sealed q i wire next pc present encoded =>
    rw [pc] at place
    refine ⟨framed, inv.queue, Copied.asked place, inv.directIn, inv.pending, ?_, inv.emitted⟩
    intro clean member
    rcases List.mem_append.mp member with earlier | now
    · exact inv.detached clean earlier
    · rw [List.mem_singleton.mp now]
      exact ⟨i, q.parsed, inv.framed.mode ▸ present, place, rfl⟩
  | asked q pc =>
    rw [pc] at place
    exact inv.aside framed ⟨rfl, rfl, rfl, rfl⟩ inv.queue place
  | tookRelayed q datagram rest pc head | took q datagram rest pc head =>
    rw [pc] at place
    have arrived := inv.directIn datagram (head ▸ List.mem_cons_self)
    exact ⟨framed, inv.queue, ⟨place, datagram, arrived, rfl⟩,
      fun other member => inv.directIn other (head ▸ List.mem_cons_of_mem datagram member),
      inv.pending, inv.detached, inv.emitted⟩
  | domestic q answer pc =>
    rw [pc] at place
    exact ⟨framed, inv.queue, place, inv.directIn, cleared_traced inv.pending, inv.detached,
      inv.emitted⟩
  | responded q answer pc =>
    rw [pc] at place
    obtain ⟨asked, datagram, arrived, same⟩ := place
    refine ⟨framed, inv.queue, trivial, inv.directIn, inv.pending, inv.detached, ?_⟩
    intro emission member direct
    rcases List.mem_append.mp member with earlier | now
    · exact inv.emitted emission earlier direct
    · rw [List.mem_singleton.mp now]
      have fits : udpHeader + (datagram.payload.take answerBuffer).length < 65536 := by
        have short := List.length_take_le answerBuffer datagram.payload
        simp only [udpHeader, answerBuffer] at short ⊢
        omega
      subst same
      exact ⟨q.parsed, asked, datagram, arrived, rfl, responsePacket_isUdp q.parsed fits⟩
  | framed pkt wire next pc encoded =>
    rw [pc] at place
    exact inv.aside framed ⟨rfl, rfl, rfl, rfl⟩ inv.queue place
  | _ => exact inv.aside framed ⟨rfl, rfl, rfl, rfl⟩ inv.queue trivial

theorem change_traced {s after : Session} {action : Action}
    (inv : Traced interceptor carrier events s) (change : Change prims s action after) :
    Traced interceptor carrier (events ++ [⟨s, action, after⟩]) after := by
  have framed := change_framed inv.framed change
  have inv := inv.grow ⟨s, action, after⟩
  cases change with
  | turned turn => exact turn_traced inv framed turn
  | flagged flag senders ingress egress keepalive places parks =>
    exact inv.aside framed ⟨rfl, rfl, rfl, rfl⟩ inv.queue (places.1 ▸ inv.place)
  | queued pkt listens room =>
    refine inv.aside framed ⟨rfl, rfl, rfl, rfl⟩ (fun other member => ?_) inv.place
    rcases List.mem_append.mp member with earlier | now
    · exact inv.queue other earlier
    · rw [List.mem_singleton.mp now]
      apply member_now
      simp [accepted, admits_of_room listens room]
  | ingressCancelled parked => exact inv.aside framed ⟨rfl, rfl, rfl, rfl⟩ inv.queue trivial
  | directArrived datagram out =>
    refine ⟨framed, inv.queue, inv.place, fun other member => ?_, inv.pending, inv.detached,
      inv.emitted⟩
    rcases List.mem_append.mp member with earlier | now
    · exact inv.directIn other earlier
    · rw [List.mem_singleton.mp now]
      exact member_now _ (by simp [directArrivals])
  | paired arrival pc =>
    refine ⟨framed, inv.queue, inv.place, inv.directIn, fun id entry found => ?_, inv.detached,
      inv.emitted⟩
    simp only [pairDatagram] at found
    rcases deliver_cases prims s.carrier s.interceptor s.pending arrival.wire with
      ⟨_, made⟩ | ⟨_, _, _, made⟩ | ⟨_, _, _, key, _, _, _, _, _, _, _, made⟩
    · rw [made] at found
      exact inv.pending id entry found
    · rw [made] at found
      exact inv.pending id entry found
    · rw [made] at found
      change s.pending.remove key id = some entry at found
      by_cases here : id = key
      · rw [here, PendingTable.remove_same] at found
        cases found
      · rw [PendingTable.remove_other _ _ _ here] at found
        exact inv.pending id entry found
  | wrote packet rest origin pc =>
    refine ⟨framed, inv.queue, inv.place, inv.directIn, inv.pending, inv.detached, ?_⟩
    intro emission member direct
    rcases List.mem_append.mp member with earlier | now
    · exact inv.emitted emission earlier direct
    · rw [List.mem_singleton.mp now] at direct
      cases direct
  | cleanSent index clean found | cleanLost index clean found =>
    exact ⟨framed, inv.queue, inv.place, inv.directIn, inv.pending,
      fun other member => inv.detached other (List.mem_of_mem_eraseIdx member), inv.emitted⟩
  | _ => exact inv.aside framed ⟨rfl, rfl, rfl, rfl⟩ inv.queue inv.place

theorem start_traced (interceptor : Option Interceptor) (carrier : Carrier) :
    Traced interceptor carrier [] (start interceptor carrier) where
  framed := start_framed interceptor carrier
  queue := by simp [start]
  place := trivial
  directIn := by simp [start]
  pending := by simp [start, PendingTable.empty]
  detached := by simp [start]
  emitted := by simp [start]

/-- The datagram that a step handles becomes what it should. -/
theorem handled_brought {s after : Session} {action : Action} (inv : Traced interceptor carrier events s) :
    ∀ h ∈ handled prims ⟨s, action, after⟩, Brought prims events interceptor carrier h := by
  intro h member
  unfold handled at member
  split at member
  · next arrival _ pc =>
    rw [List.mem_singleton.mp member]
    have mode := inv.framed.mode
    simp only
    rcases deliver_cases prims s.carrier s.interceptor s.pending arrival.wire with
      ⟨unread, made⟩ | ⟨plaintext, read, unawaited, made⟩ |
        ⟨plaintext, i, segment, id, entry, read, present, is, addressed, replied, found, made⟩
    · rw [inv.framed.readable] at unread
      rw [made]
      exact .noise arrival.wire s.pending unread
    · rw [inv.framed.readable] at read
      rw [made]
      exact .passed arrival.wire s.pending plaintext read (mode ▸ unawaited)
    · rw [inv.framed.readable] at read
      obtain ⟨q, copied, queried, rfl⟩ := inv.pending id entry found
      rw [made]
      exact .rewritten arrival.wire s.pending plaintext _ i q segment id read (mode ▸ present) copied queried
        found is addressed replied (responsePacket_isUdp q is.payload_small)
  · cases member

/-- What a step sends to the server is the keepalive, an accepted packet or the clean copy of an
accepted query. -/
theorem shipped_traced {s after : Session} {action : Action} (inv : Traced interceptor carrier events s) :
    ∀ p ∈ shipped ⟨s, action, after⟩, Sourced interceptor events p.1 := by
  intro p member
  unfold shipped at member
  split at member
  · next nonce ok label =>
    have place := inv.place
    cases pc : s.ingress.pc with
    | sending pkt wire =>
      rw [pc] at place
      cases ok with
      | true =>
        simp only [pc, if_true, List.mem_singleton] at member
        exact member ▸ .inr (.inl place)
      | false => simp [pc] at member
    | _ => simp [pc] at member
  · next index ok label =>
    cases ok with
    | true =>
      simp only [if_true, List.mem_map, Option.mem_toList] at member
      obtain ⟨clean, found, rfl⟩ := member
      exact .inr (.inr (inv.detached clean (List.mem_of_getElem? found)))
    | false => simp at member
  · next nonce ok label =>
    cases pc : s.keepalive.pc with
    | sending wire =>
      cases ok with
      | true =>
        simp only [pc, if_true, List.mem_singleton] at member
        exact .inl (by rw [member])
      | false => simp [pc] at member
    | _ => simp [pc] at member
  · cases member

end Grow

section Whole

variable {interceptor : Option Interceptor} {carrier : Carrier} {events : List (Event Session Action)}
  {s : Session}

theorem run_traced (trace : Trace (Turns.step prims) (fun _ _ => True) (start interceptor carrier) events s) :
    Traced interceptor carrier events s :=
  trace.invariant (Traced interceptor carrier)
    (fun _ _ _ _ inv _ taken => change_traced inv (step_change taken))
    (start_traced interceptor carrier)

theorem run_brought (trace : Trace (Turns.step prims) (fun _ _ => True) (start interceptor carrier) events s) :
    ∀ h ∈ events.flatMap (handled prims), Brought prims events interceptor carrier h := by
  refine (trace.invariant (fun events s => Traced interceptor carrier events s ∧
    ∀ h ∈ events.flatMap (handled prims), Brought prims events interceptor carrier h) ?_
    ⟨start_traced interceptor carrier, by simp⟩).2
  intro events before action after inv _ taken
  refine ⟨change_traced inv.1 (step_change taken), fun h member => ?_⟩
  simp only [List.flatMap_append, List.flatMap_cons, List.flatMap_nil, List.append_nil,
    List.mem_append] at member
  rcases member with earlier | now
  · exact (inv.2 h earlier).grow _
  · exact (handled_brought inv.1 h now).grow _

theorem start_rests (interceptor : Option Interceptor) (carrier : Carrier) :
    Rests (start interceptor carrier) := fun _ => .inl rfl

theorem run_read (trace : Trace (Turns.step prims) (fun _ _ => True) (start interceptor carrier) events s) :
    events.flatMap tunnelArrivals = (events.flatMap (handled prims)).map Handling.wire ++
      inEgress s.egress.pc ++ s.tunnelIn.map Arrival.wire := by
  have flow := trace.conserved (fun s => inEgress s.egress.pc ++ s.tunnelIn.map Arrival.wire)
    tunnelArrivals (fun e => (handled prims e).map Handling.wire) Rests
    (fun _ _ _ rests _ taken => change_rests rests (step_change taken))
    (fun _ _ _ rests _ taken => change_read rests (step_change taken)) (start_rests interceptor carrier)
  rw [← List.map_flatMap] at flow
  rw [List.append_assoc]
  exact flow

theorem run_written (trace : Trace (Turns.step prims) (fun _ _ => True) (start interceptor carrier) events s) :
    (events.flatMap (handled prims)).filterMap Handling.made = tunneled s.emitted ++ held s.egress.pc := by
  have flow := trace.conserved (fun s => tunneled s.emitted ++ held s.egress.pc)
    (fun e => (handled prims e).filterMap Handling.made) (fun _ => ([] : List Bytes)) Rests
    (fun _ _ _ rests _ taken => change_rests rests (step_change taken))
    (fun _ _ _ rests _ taken => by simpa using change_written rests (step_change taken))
    (start_rests interceptor carrier)
  have silent : events.flatMap (fun _ => ([] : List Bytes)) = [] :=
    List.flatMap_eq_nil_iff.mpr fun _ _ => rfl
  rw [silent, List.nil_append] at flow
  rw [List.filterMap_flatMap]
  exact flow

/-- In every run the datagrams from the tunnel are handled once each, in the order of arrival; what
they make is handed to the writer in that order; and each makes what it should. -/
theorem tunnel_packets_in_order (prims : Primitives) (interceptor : Option Interceptor)
    (carrier : Carrier) (s : Session) (events : List (Event Session Action))
    (trace : Trace (Turns.step prims) (fun _ _ => True) (start interceptor carrier) events s) :
    events.flatMap tunnelArrivals = (events.flatMap (handled prims)).map Handling.wire ++
        inEgress s.egress.pc ++ s.tunnelIn.map Arrival.wire ∧
      (events.flatMap (handled prims)).filterMap Handling.made = tunneled s.emitted ++ held s.egress.pc ∧
      ∀ h ∈ events.flatMap (handled prims), Brought prims events interceptor carrier h :=
  ⟨run_read trace, run_written trace, run_brought trace⟩

theorem Sourced.grow {packet : Bytes} (source : Sourced interceptor events packet) (e : Event Session Action) :
    Sourced interceptor (events ++ [e]) packet := by
  rcases source with beat | ⟨member, plain⟩ | ⟨i, q, present, copied, same⟩
  · exact .inl beat
  · exact .inr (.inl ⟨member_grow member _, plain⟩)
  · exact .inr (.inr ⟨i, q, present, copied.grow _, same⟩)

theorem run_sourced (trace : Trace (Turns.step prims) (fun _ _ => True) (start interceptor carrier) events s) :
    ∀ p ∈ events.flatMap shipped, Sourced interceptor events p.1 := by
  refine (trace.invariant (fun events s => Traced interceptor carrier events s ∧
    ∀ p ∈ events.flatMap shipped, Sourced interceptor events p.1) ?_
    ⟨start_traced interceptor carrier, by simp⟩).2
  intro events before action after inv _ taken
  refine ⟨change_traced inv.1 (step_change taken), fun p member => ?_⟩
  simp only [List.flatMap_append, List.flatMap_cons, List.flatMap_nil, List.append_nil,
    List.mem_append] at member
  rcases member with earlier | now
  · exact (inv.2 p earlier).grow _
  · exact Sourced.grow (shipped_traced inv.1 p now) _

/-- In every run what a session hands to the writer as a direct answer goes from the server that an
accepted query asked back to its client, with what arrived on the direct socket; everything else it
hands over was brought by a datagram from the tunnel; and all it sends to the server is accepted
packets that are not the interceptor's, clean copies of accepted queries, and keepalives, each in a
datagram that a peer with the same password, cipher and framing reads as that packet. -/
theorem nothing_invented (prims : Primitives) (interceptor : Option Interceptor)
    (carrier : Carrier) (s : Session) (events : List (Event Session Action))
    (trace : Trace (Turns.step prims) (fun _ _ => True) (start interceptor carrier) events s) :
    (∀ emission ∈ s.emitted, emission.direct = true → Answered events emission.packet) ∧
    (∀ emission ∈ s.emitted, emission.direct = false → ∃ h ∈ events.flatMap (handled prims),
      h.wire ∈ events.flatMap tunnelArrivals ∧ h.made = some emission.packet ∧
        Brought prims events interceptor carrier h) ∧
    (∀ p ∈ events.flatMap shipped, Sourced interceptor events p.1) ∧
    (prims.Lawful → ∀ cipher password obfuscator, carrier = ofPassword prims cipher password obfuscator →
      ∀ p ∈ events.flatMap shipped, Reads prims cipher password obfuscator p.1 p.2) := by
  refine ⟨(run_traced trace).emitted, ?_, run_sourced trace, ?_⟩
  · intro emission member tunnel
    have out : emission.packet ∈ tunneled s.emitted :=
      List.mem_map_of_mem (List.mem_filter.mpr ⟨member, by simp [tunnel]⟩)
    have made : emission.packet ∈ (events.flatMap (handled prims)).filterMap Handling.made := by
      rw [run_written trace]
      exact List.mem_append_left _ out
    obtain ⟨h, found, same⟩ := List.mem_filterMap.mp made
    refine ⟨h, found, ?_, same, run_brought trace h found⟩
    rw [run_read trace, List.append_assoc]
    exact List.mem_append_left _ (List.mem_map_of_mem found)
  · rintro lawful cipher password obfuscator rfl
    exact run_ships lawful trace

end Whole

end Return

section Sample

/-- A query with a clean copy, a packet of another exchange, the reply that its copy waits for, its direct
answer without an address, and a keepalive. -/
def sampleExchange : List Action :=
  sampleAsk 7 5353 ++ [.cleanSend 0 true, .tunnelArrives ⟨sampleReply 8 5354, none⟩, .egress true, .egress true,
    .egress true, .egress true, .tunnelArrives ⟨sampleTakenReply 7, some 0⟩, .egress true, .egress true,
    .egress true, .directArrives ⟨sampleInterceptor.dnsLocal, sampleEmptyAnswer 7, some 0⟩,
    .ingress sampleNonce true, .ingress sampleNonce true, .ingress sampleNonce true,
    .keepalive sampleNonce true, .keepalive sampleNonce true]

/-- What the exchange hands over from the tunnel: the packet of the other exchange as it came, and the reply
on its way to the client. -/
def sampleTunneled : List Bytes :=
  [buildUdpIpv4 (ofOctets 8 8 8 8) dnsPort (ofOctets 10 9 0 2) 5354 (sampleAnswer 8),
    responsePacket (sampleQuery 7) (sampleAnswer 7)]

theorem sampleExchange_ran : ∃ s, Trace (Turns.step samplePrims) (fun _ _ => True)
    (start (some sampleInterceptor) (ofPassword samplePrims .aes128Gcm samplePassword none))
    (Lib.Histories.record (Turns.step samplePrims) (start (some sampleInterceptor) sampleCarrier)
      sampleExchange) s ∧ s.emitted.map Emission.direct = [false, false, true] ∧
    tunneled s.emitted = sampleTunneled := by
  have ran : (run (Turns.step samplePrims) (start (some sampleInterceptor) sampleCarrier)
      sampleExchange).map (fun s => (s.emitted.map Emission.direct, tunneled s.emitted)) =
        some ([false, false, true], sampleTunneled) := by
    decide +kernel
  obtain ⟨s, ran, both⟩ := Option.map_eq_some_iff.mp ran
  obtain ⟨order, packets⟩ := Prod.mk.inj both
  rw [sample_carrier]
  exact ⟨s, trace_of_run ran, order, packets⟩

/-- One datagram passes as it is, the other is rewritten for the client that waits for it. -/
theorem sample_in_order : ∃ events s, Trace (Turns.step samplePrims) (fun _ _ => True)
    (start (some sampleInterceptor) (ofPassword samplePrims .aes128Gcm samplePassword none)) events s ∧
    events.flatMap tunnelArrivals = [sampleReply 8 5354, sampleTakenReply 7] ∧
    (events.flatMap (handled samplePrims)).filterMap Handling.made = sampleTunneled ++ held s.egress.pc ∧
    ∀ h ∈ events.flatMap (handled samplePrims), Brought samplePrims events (some sampleInterceptor)
      (ofPassword samplePrims .aes128Gcm samplePassword none) h := by
  obtain ⟨s, trace, _, packets⟩ := sampleExchange_ran
  have ordered := tunnel_packets_in_order samplePrims _ _ s _ trace
  rw [packets] at ordered
  exact ⟨_, s, trace, by decide +kernel, ordered.2⟩

/-- All packets of the exchange have their source. -/
theorem sample_sources : ∃ events s, Trace (Turns.step samplePrims) (fun _ _ => True)
    (start (some sampleInterceptor) (ofPassword samplePrims .aes128Gcm samplePassword none)) events s ∧
    s.emitted.map Emission.direct = [false, false, true] ∧
    (∀ emission ∈ s.emitted, emission.direct = true → Answered events emission.packet) ∧
    (events.flatMap shipped).length = 2 ∧
    ∀ p ∈ events.flatMap shipped, Reads samplePrims .aes128Gcm samplePassword none p.1 p.2 := by
  obtain ⟨s, trace, both, _⟩ := sampleExchange_ran
  have sources := nothing_invented samplePrims _ _ s _ trace
  exact ⟨_, s, trace, both, sources.1, by decide +kernel,
    sources.2.2.2 samplePrims_lawful .aes128Gcm samplePassword none rfl⟩

end Sample

end ShadowVpn.Engine.Origins
