import ShadowVpn.Engine.Turns

/-! The way out of a session over whole runs: what becomes of each packet that `ingest` accepted,
and what the server's side reads from the datagrams that were sent. -/

namespace ShadowVpn.Engine.Pipe
open ShadowVpn.Lib.Octets ShadowVpn.Lib.Panic ShadowVpn.Lib.Transition ShadowVpn.Lib.Histories ShadowVpn.Net.Udp
open ShadowVpn.Net.Inspect ShadowVpn.Wire.Crypto ShadowVpn.Wire.Obfs ShadowVpn.Engine.Intercept
open ShadowVpn.Engine.Datagram ShadowVpn.Engine.DataPlane ShadowVpn.Engine.Turns

/-- What became of a packet: sent as the given datagram, left out because it could not be
encrypted, taken by the interceptor, or lost with the send that ended the task. -/
inductive Fate where
  | sent (pkt wire : Bytes)
  | skipped (pkt : Bytes)
  | taken (pkt : Bytes) (q : ParsedQuery)
  | lost (pkt : Bytes)

namespace Fate

def packet : Fate → Bytes
  | sent pkt _ | skipped pkt | taken pkt _ | lost pkt => pkt

/-- The ingress task ends with this packet. -/
def ends : Fate → Bool
  | lost _ => true
  | _ => false

end Fate

/-- Whether the channel takes a packet now. -/
def admits (s : Session) : Bool :=
  match s.ingress.pc with
  | .done => false
  | _ => s.queue.length < ingestQueueDepth

/-- The packet that a step put into the channel. -/
def accepted (e : Event Session Action) : List Bytes :=
  match e.label with
  | .trySend pkt => if admits e.before then [pkt] else []
  | _ => []

/-- The fate of a packet that is settled when it leaves the channel. -/
def received (interceptor : Option Interceptor) (pkt : Bytes) : List Fate :=
  match interceptor, examine pkt with
  | some _, .relay q => [.taken pkt q]
  | some _, .intercept q => [.taken pkt q]
  | _, _ => []

section Runs

variable (prims : Primitives)

/-- The fate that a step settles. -/
def fates (e : Event Session Action) : List Fate :=
  match e.label with
  | .cancel .ingress => (inHand e.before.ingress.pc).map .lost
  | .ingress nonce ok =>
    match e.before.ingress.pc with
    | .recv => e.before.queue.head?.toList.flatMap (received e.before.interceptor)
    | .forwarding pkt =>
      match encode prims e.before.carrier (nonce.salt e.before.carrier.cipher) nonce.random pkt with
      | .error _ => [.skipped pkt]
      | .ok _ => []
    | .sending pkt wire => if ok then [.sent pkt wire] else [.lost pkt]
    | _ => []
  | _ => []

/-- The datagram that a step sent to the server, with the packet in it. -/
def shipped (e : Event Session Action) : List (Bytes × Bytes) :=
  match e.label with
  | .ingress _ ok =>
    match e.before.ingress.pc with
    | .sending pkt wire => if ok then [(pkt, wire)] else []
    | _ => []
  | .cleanSend index ok =>
    if ok then (e.before.detached[index]?).toList.map fun clean => (clean.pkt, clean.wire) else []
  | .keepalive _ ok =>
    match e.before.keepalive.pc with
    | .sending wire => if ok then [(keepalivePayload, wire)] else []
    | _ => []
  | _ => []

/-- The accepted packets that have no fate yet. -/
def inside (s : Session) : List Bytes := inHand s.ingress.pc ++ s.queue

variable {prims}

theorem received_plain {interceptor : Option Interceptor} {pkt : Bytes}
    (plain : Plain interceptor pkt) : received interceptor pkt = [] := by
  unfold received
  rcases plain with absent | forward
  · rw [absent]
  · rw [forward]
    cases interceptor <;> rfl

theorem received_taken {interceptor : Option Interceptor} {pkt : Bytes} {q : ParsedQuery}
    (present : interceptor ≠ none)
    (verdict : examine pkt = .relay q ∨ examine pkt = .intercept q) :
    received interceptor pkt = [.taken pkt q] := by
  obtain ⟨i, rfl⟩ := Option.ne_none_iff_exists'.mp present
  unfold received
  rcases verdict with relay | intercept
  · rw [relay]
  · rw [intercept]

/-- A turn of the ingress task takes what it settles off the front. -/
theorem turn_flow {s after : Session} {nonce : Nonce} {ok : Bool} (turn : Turn prims s nonce ok after) :
    inside s = (fates prims ⟨s, .ingress nonce ok, after⟩).map Fate.packet ++ inside after := by
  cases turn with
  | passed pkt rest pc head calm plain =>
    simp [inside, fates, pc, head, inHand, received_plain plain, Session.enter, Task.goto]
  | relayed pkt rest q pc head calm present verdict =>
    simp [inside, fates, pc, head, inHand, received_taken present (.inl verdict), Fate.packet,
      Session.enter, Task.goto]
  | intercepted pkt rest q pc head calm present verdict =>
    simp [inside, fates, pc, head, inHand, received_taken present (.inr verdict), Fate.packet,
      Session.enter, Task.goto]
  | closed pc empty => simp [inside, fates, pc, empty, inHand, Session.enter, Task.goto]
  | skipped pkt e pc failed =>
    simp [inside, fates, pc, failed, inHand, Fate.packet, Session.enter, Task.goto]
  | framed pkt wire next pc framed =>
    simp [inside, fates, pc, framed, inHand, Session.enter, Task.goto]
  | sent pkt wire pc => simp [inside, fates, pc, inHand, Fate.packet, Session.enter, Task.goto]
  | failed pkt wire pc => simp [inside, fates, pc, inHand, Fate.packet, Session.enter, Task.goto]
  | responded q answer pc =>
    simp [inside, fates, pc, inHand, Session.emit, Session.enter, Task.goto]
  | _ => simp_all [inside, fates, inHand, Session.enter, Task.goto]

theorem admits_of_room {s : Session} (listens : s.ingress.pc ≠ .done)
    (room : s.queue.length < ingestQueueDepth) : admits s = true := by
  unfold admits
  split
  · next done => exact absurd done listens
  · exact decide_eq_true room

theorem change_flow {s after : Session} {action : Action} (change : Change prims s action after) :
    inside s ++ accepted ⟨s, action, after⟩ =
      (fates prims ⟨s, action, after⟩).map Fate.packet ++ inside after := by
  cases change with
  | turned turn => simpa [accepted] using turn_flow turn
  | flagged flag senders ingress egress keepalive places rests =>
    cases action <;> simp_all [isFlag, accepted, fates, inside]
  | queued pkt listens room =>
    simp [accepted, fates, inside, admits_of_room listens room]
  | refused pkt full =>
    have denied : admits s = false := by
      unfold admits
      split
      · rfl
      · next going => exact decide_eq_false (Nat.not_lt.mpr (full.resolve_left going))
    simp [accepted, fates, inside, denied]
  | ingressCancelled parked => simp [accepted, fates, inside, inHand, Function.comp_def, Fate.packet]
  | _ => simp [accepted, fates, inside, pairDatagram, Session.emit]

/-- A step settles at most one fate, and one that ends the task leaves it ended. -/
theorem change_ends {s after : Session} {action : Action} (change : Change prims s action after) :
    (fates prims ⟨s, action, after⟩).length ≤ 1 ∧
      (∀ fate ∈ fates prims ⟨s, action, after⟩, fate.ends = true → after.ingress.pc = .done) ∧
      (s.ingress.pc = .done → fates prims ⟨s, action, after⟩ = [] ∧ after.ingress.pc = .done) := by
  cases change with
  | turned turn =>
    cases turn with
    | passed pkt rest pc head calm plain =>
      simp [fates, pc, head, received_plain plain]
    | relayed pkt rest q pc head calm present verdict =>
      simp [fates, pc, head, received_taken present (.inl verdict), Fate.ends]
    | intercepted pkt rest q pc head calm present verdict =>
      simp [fates, pc, head, received_taken present (.inr verdict), Fate.ends]
    | skipped pkt e pc failed => simp [fates, pc, failed, Fate.ends]
    | framed pkt wire next pc framed => simp [fates, pc, framed]
    | sent pkt wire pc => simp [fates, pc, Fate.ends]
    | failed pkt wire pc => simp [fates, pc, Fate.ends, Session.enter, Task.goto]
    | _ => simp_all [fates]
  | flagged flag senders ingress egress keepalive places rests =>
    cases action <;> simp_all [isFlag, fates]
  | ingressCancelled parked =>
    refine ⟨?_, fun _ _ _ => rfl, fun done => ⟨?_, rfl⟩⟩
    · cases pc : s.ingress.pc <;> simp [fates, pc, inHand]
    · simp [fates, done, inHand]
  | _ => simp_all [fates, pairDatagram, Session.emit]

end Runs

section Peer

variable {prims : Primitives} {cipher : Cipher} {password : Bytes} {obfuscator : Option Obfuscator}

/-- A peer with the same cipher, password and framing recovers the packet from the datagram, if it
fits UDP. -/
def Reads (prims : Primitives) (cipher : Cipher) (password : Bytes) (obfuscator : Option Obfuscator)
    (pkt wire : Bytes) : Prop :=
  ∀ two, Shared obfuscator two → wire.length ≤ udpLimit →
    decode prims (ofPassword prims cipher password two) wire = some pkt

/-- The session still frames as it did at its start. -/
def Kin (prims : Primitives) (cipher : Cipher) (password : Bytes) (obfuscator : Option Obfuscator)
    (carrier : Carrier) : Prop :=
  ∃ one, carrier = ofPassword prims cipher password one ∧ ∀ two, Shared obfuscator two → Shared one two

/-- What all tasks of a session rely on, and what those that have framed a packet know of it. -/
structure Sealing (prims : Primitives) (cipher : Cipher) (password : Bytes)
    (obfuscator : Option Obfuscator) (interceptor : Option Interceptor) (s : Session) : Prop where
  mode : s.interceptor = interceptor
  carrier : Kin prims cipher password obfuscator s.carrier
  plain : ∀ pkt ∈ inHand s.ingress.pc, panics pkt = false ∧ Plain interceptor pkt
  sending : ∀ pkt wire, s.ingress.pc = .sending pkt wire → Reads prims cipher password obfuscator pkt wire
  detached : ∀ clean ∈ s.detached, Reads prims cipher password obfuscator clean.pkt clean.wire
  keepalive : ∀ wire, s.keepalive.pc = .sending wire →
    Reads prims cipher password obfuscator keepalivePayload wire

/-- What a fate says of its packet. -/
def Fate.Fits (prims : Primitives) (cipher : Cipher) (password : Bytes)
    (obfuscator : Option Obfuscator) (interceptor : Option Interceptor) : Fate → Prop
  | .sent pkt wire =>
    Returns (describe pkt) ∧ Plain interceptor pkt ∧ Reads prims cipher password obfuscator pkt wire
  | .skipped pkt => Returns (describe pkt) ∧ Plain interceptor pkt ∧ ∃ salt e,
      encryptPacket prims cipher (evpBytesToKey prims password cipher.keyLen) salt pkt = .error e
  | .taken pkt q => Returns (describe pkt) ∧ interceptor ≠ none ∧
      (examine pkt = .relay q ∨ examine pkt = .intercept q)
  | .lost pkt => Returns (describe pkt) ∧ Plain interceptor pkt

theorem returns_of_calm {pkt : Bytes} (calm : panics pkt = false) : Returns (describe pkt) := by
  unfold panics at calm
  split at calm
  · next result read => exact ⟨result, read⟩
  · cases calm

/-- Framing moves the counter only. -/
theorem frameWith_kin {one two : Option Obfuscator} (pnLen : Nat) (random : Byte) (datagram : Bytes)
    (shared : Shared one two) : Shared (frameWith pnLen one random datagram).2 two := by
  cases one with
  | none => exact shared
  | some o =>
    cases o with
    | quic q =>
      match two, shared with
      | some (.quic r), shared => exact shared
    | base64 => exact shared

/-- The obfuscator that a packet leaves behind. -/
theorem encode_next {carrier : Carrier} {salt : Salt carrier.cipher} {random : Byte}
    {pkt wire : Bytes} {next : Option Obfuscator}
    (framed : encode prims carrier salt random pkt = .ok (wire, next)) :
    ∃ datagram, next = (frameWith pnLen carrier.obfuscator random datagram).2 := by
  unfold encode encodeWith at framed
  cases sealed : encryptPacket prims carrier.cipher carrier.masterKey salt pkt with
  | error e => simp [sealed, bind, Except.bind] at framed
  | ok datagram =>
    simp only [sealed, bind, Except.bind, Except.ok.injEq] at framed
    exact ⟨datagram, (congrArg Prod.snd framed).symm⟩

theorem encode_reads {carrier : Carrier} {salt : Salt carrier.cipher} {random : Byte}
    {pkt wire : Bytes} {next : Option Obfuscator} (lawful : prims.Lawful)
    (kin : Kin prims cipher password obfuscator carrier)
    (framed : encode prims carrier salt random pkt = .ok (wire, next)) :
    Reads prims cipher password obfuscator pkt wire ∧
      Kin prims cipher password obfuscator { carrier with obfuscator := next } := by
  obtain ⟨one, rfl, shared⟩ := kin
  constructor
  · intro two both fits
    exact decode_encodeWith lawful cipher password one two (shared two both) pnLen (by decide)
      (by decide) salt random pkt wire next framed fits
  · obtain ⟨datagram, moved⟩ := encode_next framed
    refine ⟨next, rfl, fun two both => ?_⟩
    rw [moved]
    exact frameWith_kin pnLen random datagram (shared two both)

theorem encode_skips {carrier : Carrier} {salt : Salt carrier.cipher} {random : Byte}
    {pkt : Bytes} {e : CryptoError} (kin : Kin prims cipher password obfuscator carrier)
    (failed : encode prims carrier salt random pkt = .error e) :
    ∃ salt e, encryptPacket prims cipher (evpBytesToKey prims password cipher.keyLen) salt pkt =
      .error e := by
  obtain ⟨one, rfl, _⟩ := kin
  unfold encode encodeWith at failed
  cases sealed : encryptPacket prims (ofPassword prims cipher password one).cipher
      (ofPassword prims cipher password one).masterKey salt pkt with
  | error e => exact ⟨salt, e, sealed⟩
  | ok datagram => simp [sealed, bind, Except.bind] at failed

/-- The ingress task moves to a place where it holds no packet and nothing else changes of what
the framing depends on. -/
theorem Sealing.aside {interceptor : Option Interceptor} {s after : Session}
    (inv : Sealing prims cipher password obfuscator interceptor s)
    (same : after.interceptor = s.interceptor ∧ after.carrier = s.carrier ∧
      after.detached = s.detached ∧ after.keepalive.pc = s.keepalive.pc)
    (free : inHand after.ingress.pc = []) :
    Sealing prims cipher password obfuscator interceptor after := by
  obtain ⟨mode, carrier, detached, keepalive⟩ := same
  refine ⟨mode ▸ inv.mode, carrier ▸ inv.carrier, ?_, ?_, detached ▸ inv.detached,
    keepalive ▸ inv.keepalive⟩
  · simp [free]
  · intro pkt wire pc
    simp [pc, inHand] at free

theorem turn_sealing {interceptor : Option Interceptor} {s after : Session} {nonce : Nonce} {ok : Bool}
    (lawful : prims.Lawful) (inv : Sealing prims cipher password obfuscator interceptor s)
    (turn : Turn prims s nonce ok after) :
    Sealing prims cipher password obfuscator interceptor after := by
  cases turn with
  | passed pkt rest pc head calm plain =>
    rw [inv.mode] at plain
    refine ⟨inv.mode, inv.carrier, ?_, ?_, inv.detached, inv.keepalive⟩
    · simpa [Session.enter, Task.goto, inHand] using ⟨calm, plain⟩
    · simp [Session.enter, Task.goto]
  | sealed q i wire next pc present framed =>
    obtain ⟨reads, kin⟩ := encode_reads lawful inv.carrier framed
    refine ⟨inv.mode, kin, ?_, ?_, ?_, inv.keepalive⟩
    · simp [Session.enter, Task.goto, inHand]
    · simp [Session.enter, Task.goto]
    · intro clean member
      rcases List.mem_append.mp member with earlier | now
      · exact inv.detached clean earlier
      · rw [List.mem_singleton.mp now]
        exact reads
  | framed pkt wire next pc framed =>
    obtain ⟨reads, kin⟩ := encode_reads lawful inv.carrier framed
    have held := inv.plain pkt (by rw [pc]; exact List.mem_singleton_self pkt)
    refine ⟨inv.mode, kin, ?_, ?_, inv.detached, inv.keepalive⟩
    · simpa [Session.enter, Task.goto, inHand] using held
    · intro other text place
      simp only [Session.enter, Task.goto, Ingress.sending.injEq] at place
      exact place.1 ▸ place.2 ▸ reads
  | _ => exact inv.aside ⟨rfl, rfl, rfl, rfl⟩ rfl

theorem change_sealing {interceptor : Option Interceptor} {s after : Session} {action : Action}
    (lawful : prims.Lawful) (inv : Sealing prims cipher password obfuscator interceptor s)
    (change : Change prims s action after) :
    Sealing prims cipher password obfuscator interceptor after := by
  cases change with
  | turned turn => exact turn_sealing lawful inv turn
  | flagged flag senders ingress egress keepalive places rests =>
    obtain ⟨first, _, third⟩ := places
    refine ⟨inv.mode, inv.carrier, ?_, ?_, inv.detached, ?_⟩
    · exact fun pkt member => inv.plain pkt (first ▸ member)
    · exact fun pkt wire pc => inv.sending pkt wire (first ▸ pc)
    · exact fun wire pc => inv.keepalive wire (third ▸ pc)
  | ingressCancelled parked => exact inv.aside ⟨rfl, rfl, rfl, rfl⟩ rfl
  | keepaliveCancelled =>
    exact ⟨inv.mode, inv.carrier, inv.plain, inv.sending, inv.detached, by simp⟩
  | ticked e pc failed =>
    exact ⟨inv.mode, inv.carrier, inv.plain, inv.sending, inv.detached, by simp [Task.goto]⟩
  | beat wire next pc framed =>
    obtain ⟨reads, kin⟩ := encode_reads lawful inv.carrier framed
    refine ⟨inv.mode, kin, inv.plain, inv.sending, inv.detached, ?_⟩
    intro text place
    simp only [Task.goto, Keepalive.sending.injEq] at place
    exact place ▸ reads
  | @beatSent nonce ok wire pc =>
    refine ⟨inv.mode, inv.carrier, inv.plain, inv.sending, inv.detached, ?_⟩
    cases ok <;> simp [Task.goto]
  | cleanSent index clean found | cleanLost index clean found =>
    exact ⟨inv.mode, inv.carrier, inv.plain, inv.sending,
      fun other member => inv.detached other (List.mem_of_mem_eraseIdx member), inv.keepalive⟩
  | _ => exact ⟨inv.mode, inv.carrier, inv.plain, inv.sending, inv.detached, inv.keepalive⟩

theorem start_sealing (interceptor : Option Interceptor) :
    Sealing prims cipher password obfuscator interceptor
      (start interceptor (ofPassword prims cipher password obfuscator)) where
  mode := rfl
  carrier := ⟨obfuscator, rfl, fun _ shared => shared⟩
  plain := by simp [start, DataPlane.Task.spawn, inHand]
  sending := by simp [start, DataPlane.Task.spawn]
  detached := by simp [start]
  keepalive := by simp [start, DataPlane.Task.spawn]

theorem turn_fits {interceptor : Option Interceptor} {s after : Session} {nonce : Nonce} {ok : Bool}
    (inv : Sealing prims cipher password obfuscator interceptor s) (turn : Turn prims s nonce ok after) :
    ∀ fate ∈ fates prims ⟨s, .ingress nonce ok, after⟩,
      fate.Fits prims cipher password obfuscator interceptor := by
  cases turn with
  | passed pkt rest pc head calm plain => simp [fates, pc, head, received_plain plain]
  | relayed pkt rest q pc head calm present verdict =>
    simp only [fates, pc, head, List.head?_cons, Option.toList_some, List.flatMap_cons,
      List.flatMap_nil, received_taken present (.inl verdict), List.append_nil,
      List.mem_singleton, forall_eq]
    exact ⟨returns_of_calm calm, inv.mode ▸ present, .inl verdict⟩
  | intercepted pkt rest q pc head calm present verdict =>
    simp only [fates, pc, head, List.head?_cons, Option.toList_some, List.flatMap_cons,
      List.flatMap_nil, received_taken present (.inr verdict), List.append_nil,
      List.mem_singleton, forall_eq]
    exact ⟨returns_of_calm calm, inv.mode ▸ present, .inr verdict⟩
  | skipped pkt e pc failed =>
    obtain ⟨calm, plain⟩ := inv.plain pkt (by rw [pc]; exact List.mem_singleton_self pkt)
    simpa only [fates, pc, failed, List.mem_singleton, forall_eq] using
      ⟨returns_of_calm calm, plain, encode_skips inv.carrier failed⟩
  | framed pkt wire next pc framed => simp [fates, pc, framed]
  | sent pkt wire pc =>
    obtain ⟨calm, plain⟩ := inv.plain pkt (by rw [pc]; exact List.mem_singleton_self pkt)
    simpa only [fates, pc, if_true, List.mem_singleton, forall_eq] using
      ⟨returns_of_calm calm, plain, inv.sending pkt wire pc⟩
  | failed pkt wire pc =>
    obtain ⟨calm, plain⟩ := inv.plain pkt (by rw [pc]; exact List.mem_singleton_self pkt)
    simpa [fates, pc, Fate.Fits] using And.intro (returns_of_calm calm) plain
  | _ => simp_all [fates]

/-- Every fate that a step settles is the true one. -/
theorem change_fits {interceptor : Option Interceptor} {s after : Session} {action : Action}
    (inv : Sealing prims cipher password obfuscator interceptor s)
    (change : Change prims s action after) :
    ∀ fate ∈ fates prims ⟨s, action, after⟩,
      fate.Fits prims cipher password obfuscator interceptor := by
  cases change with
  | turned turn => exact turn_fits inv turn
  | flagged flag senders ingress egress keepalive places rests =>
    cases action <;> simp_all [isFlag, fates]
  | ingressCancelled parked =>
    intro fate member
    obtain ⟨pkt, held, rfl⟩ := List.mem_map.mp member
    obtain ⟨calm, plain⟩ := inv.plain pkt held
    exact ⟨returns_of_calm calm, plain⟩
  | _ => simp [fates]

/-- Every datagram that a step sends can be read by the peer. -/
theorem change_ships {interceptor : Option Interceptor} {s after : Session} {action : Action}
    (inv : Sealing prims cipher password obfuscator interceptor s)
    (change : Change prims s action after) :
    ∀ p ∈ shipped ⟨s, action, after⟩, Reads prims cipher password obfuscator p.1 p.2 := by
  cases change with
  | turned turn =>
    cases turn with
    | sent pkt wire pc => simpa [shipped, pc] using inv.sending pkt wire pc
    | _ => simp_all [shipped]
  | flagged flag senders ingress egress keepalive places rests =>
    cases action <;> simp_all [isFlag, shipped]
  | @beatSent nonce ok wire pc =>
    cases ok with
    | true => simpa [shipped, pc] using inv.keepalive wire pc
    | false => simp [shipped, pc]
  | cleanSent index clean found =>
    simpa [shipped, found] using inv.detached clean (List.mem_of_getElem? found)
  | _ => simp_all [shipped]

/-- Once a fate has ended the ingress task nothing more is settled. -/
theorem ends_last {s : Session} {origin : Session} {events : List (Event Session Action)}
    (trace : Trace (Turns.step prims) (fun _ _ => True) origin events s) :
    (∀ fate ∈ (events.flatMap (fates prims)).dropLast, fate.ends = false) ∧
      ((∃ fate ∈ events.flatMap (fates prims), fate.ends = true) → s.ingress.pc = .done) := by
  refine trace.invariant (fun events s =>
    (∀ fate ∈ (events.flatMap (fates prims)).dropLast, fate.ends = false) ∧
      ((∃ fate ∈ events.flatMap (fates prims), fate.ends = true) → s.ingress.pc = .done)) ?_ (by simp)
  intro events before action after inv _ taken
  obtain ⟨short, ending, stays⟩ := change_ends (step_change taken)
  simp only [List.flatMap_append, List.flatMap_cons, List.flatMap_nil, List.append_nil,
    List.mem_append]
  cases settled : fates prims ⟨before, action, after⟩ with
  | nil =>
    simp only [List.append_nil, List.not_mem_nil, or_false]
    exact ⟨inv.1, fun ended => (stays (inv.2 ended)).2⟩
  | cons fate rest =>
    rw [settled] at short ending stays
    obtain rfl : rest = [] := List.eq_nil_of_length_eq_zero (by simpa using short)
    have open_ : ∀ earlier ∈ events.flatMap (fates prims), earlier.ends = false := by
      intro earlier member
      by_contra ended
      have done := inv.2 ⟨earlier, member, by simpa using ended⟩
      exact absurd (stays done).1 (by simp)
    rw [List.dropLast_concat]
    refine ⟨open_, ?_⟩
    rintro ⟨last, member | member, ended⟩
    · rw [open_ last member] at ended
      cases ended
    · exact ending last member ended

/-- A peer can read all that a session sends. -/
theorem run_ships (lawful : prims.Lawful) {interceptor : Option Interceptor} {s : Session}
    {events : List (Event Session Action)}
    (trace : Trace (Turns.step prims) (fun _ _ => True)
      (start interceptor (ofPassword prims cipher password obfuscator)) events s) :
    ∀ p ∈ events.flatMap shipped, Reads prims cipher password obfuscator p.1 p.2 :=
  (trace.shows shipped _ (Sealing prims cipher password obfuscator interceptor)
    (fun _ _ _ inv _ taken => change_sealing lawful inv (step_change taken))
    (fun _ _ _ inv _ taken => change_ships inv (step_change taken)) (start_sealing interceptor)).2

/-- In every run of a session, up to where a panic of the inspection aborts the process, each packet
that `ingest` accepted has one fate at most, in the order of acceptance, and those without one are in
hand or in the channel; no packet after one that ended the task has a fate; and each fate is the true
one: what was sent on the plain path the peer reads as the packet itself. -/
theorem packets_accounted (lawful : prims.Lawful) (interceptor : Option Interceptor) (s : Session)
    (events : List (Event Session Action))
    (trace : Trace (Turns.step prims) (fun _ _ => True)
      (start interceptor (ofPassword prims cipher password obfuscator)) events s) :
    events.flatMap accepted =
        (events.flatMap (fates prims)).map Fate.packet ++ inHand s.ingress.pc ++ s.queue ∧
      (∀ fate ∈ (events.flatMap (fates prims)).dropLast, fate.ends = false) ∧
      ∀ fate ∈ events.flatMap (fates prims),
        fate.Fits prims cipher password obfuscator interceptor := by
  refine ⟨?_, (ends_last trace).1, ?_⟩
  · have flow := trace.conserved inside accepted (fun e => (fates prims e).map Fate.packet)
      (fun _ => True) (fun _ _ _ _ _ _ => trivial)
      (fun _ _ _ _ _ taken => change_flow (step_change taken)) trivial
    rw [← List.map_flatMap] at flow
    rw [List.append_assoc]
    exact flow
  · exact (trace.shows (fates prims) _ (Sealing prims cipher password obfuscator interceptor)
      (fun _ _ _ inv _ taken => change_sealing lawful inv (step_change taken))
      (fun _ _ _ inv _ taken => change_fits inv (step_change taken)) (start_sealing interceptor)).2

end Peer

theorem sample_carrier : ofPassword samplePrims .aes128Gcm samplePassword none = sampleCarrier := by
  simp only [ofPassword, sampleCarrier, Carrier.mk.injEq, and_true, true_and]
  exact sample_master_key

/-- A packet is sent; the next one, a request with a torn line, is about to abort the process. -/
theorem sample_accounted : ∃ events s, Trace (Turns.step samplePrims) (fun _ _ => True)
    (start none (ofPassword samplePrims .aes128Gcm samplePassword none)) events s ∧
    events.flatMap accepted = [samplePacket, tornPacket.bytes] ∧
    s.queue = [tornPacket.bytes] ∧ crashes s = true ∧
    events.flatMap accepted =
      (events.flatMap (fates samplePrims)).map Fate.packet ++ inHand s.ingress.pc ++ s.queue := by
  have ran : (run (Turns.step samplePrims) (start none sampleCarrier)
      [.trySend samplePacket, .trySend tornPacket.bytes, .ingress sampleNonce true,
        .ingress sampleNonce true, .ingress sampleNonce true]).map (fun s => (s.queue, crashes s)) =
      some ([tornPacket.bytes], true) := by
    decide +kernel
  obtain ⟨s, ran, left⟩ := Option.map_eq_some_iff.mp ran
  have trace := trace_of_run ran
  rw [← sample_carrier] at trace
  obtain ⟨queue, crash⟩ := Prod.mk.inj left
  refine ⟨_, s, trace, ?_, queue, crash, (packets_accounted samplePrims_lawful none s _ trace).1⟩
  rw [sample_carrier]
  decide +kernel

end ShadowVpn.Engine.Pipe
