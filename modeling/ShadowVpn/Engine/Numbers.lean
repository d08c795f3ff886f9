import Mathlib.Data.List.Perm.Subperm
import ShadowVpn.Engine.Pipe

/-! The QUIC framing over whole runs: three tasks draw from one counter, and each datagram that they
frame is sent once at most. -/

namespace ShadowVpn.Engine.Numbers
open ShadowVpn.Lib.Octets ShadowVpn.Lib.Transition ShadowVpn.Lib.Histories ShadowVpn.Wire.Crypto
open ShadowVpn.Wire.Obfs ShadowVpn.Engine.Intercept ShadowVpn.Engine.Datagram
open ShadowVpn.Engine.DataPlane ShadowVpn.Engine.Turns ShadowVpn.Engine.Pipe

/-- The datagram holds, behind its form bits, the connection id and the low half of the packet number
that comes at the given place. -/
def Numbered (q : QuicObfs) (k : Nat) (wire : Bytes) : Prop :=
  ∃ first datagram, first &&& 0xC3#8 = 0x41#8 ∧ wire =
    first :: (q.dcid ++ (bytes16 ((q.pn + BitVec.ofNat 32 k).extractLsb' 0 16) ++ datagram))

/-- What a step is about to encrypt and frame. -/
def attempt (s : Session) (action : Action) : Option (Nonce × Bytes) :=
  match action with
  | .ingress nonce _ =>
    match s.ingress.pc with
    | .sealing q => s.interceptor.map fun i => (nonce, i.cleanPacket q.parsed)
    | .forwarding pkt => some (nonce, pkt)
    | _ => none
  | .keepalive nonce _ =>
    match s.keepalive.pc with
    | .tick => some (nonce, keepalivePayload)
    | _ => none
  | _ => none

def ingressWire : Ingress → List Bytes
  | .sending _ wire => [wire]
  | _ => []

def beatWire : Keepalive → List Bytes
  | .sending wire => [wire]
  | _ => []

/-- The framed datagrams that a task or a spawned send still holds. -/
def holding (s : Session) : List Bytes :=
  ingressWire s.ingress.pc ++ (s.detached.map Clean.wire ++ beatWire s.keepalive.pc)

section Runs

variable (prims : Primitives)

/-- The datagram that a step framed. -/
def framed (e : Event Session Action) : List Bytes :=
  match attempt e.before e.label with
  | none => []
  | some (nonce, pkt) =>
    match encode prims e.before.carrier (nonce.salt e.before.carrier.cipher) nonce.random pkt with
    | .ok (wire, _) => [wire]
    | .error _ => []

variable {prims}

theorem firstByte_form : ∀ random : Byte, QuicObfs.firstByte pnLen random &&& 0xC3#8 = 0x41#8 := by
  decide +kernel

theorem low_bytes (word : BitVec 32) : (bytes32 word).drop (4 - pnLen) = bytes16 (word.extractLsb' 0 16) := by
  have high : (word.extractLsb' 0 16).extractLsb' 8 8 = word.extractLsb' 8 8 := by
    apply BitVec.eq_of_getLsbD_eq
    intro i inside
    simp only [BitVec.getLsbD_extractLsb']
    simp [inside, show 8 + i < 16 by omega]
  have low : (word.extractLsb' 0 16).extractLsb' 0 8 = word.extractLsb' 0 8 := by
    apply BitVec.eq_of_getLsbD_eq
    intro i inside
    simp only [BitVec.getLsbD_extractLsb']
    simp [inside, show i < 16 by omega]
  rw [bytes16, high, low]
  rfl

/-- A framed datagram carries the number that the counter stands at, and moves it on. -/
theorem encode_numbered {q : QuicObfs} {k : Nat} {carrier : Carrier} {salt : Salt carrier.cipher}
    {random : Byte} {pkt wire : Bytes} {next : Option Obfuscator}
    (counter : carrier.obfuscator = some (.quic { q with pn := q.pn + BitVec.ofNat 32 k }))
    (encoded : encode prims carrier salt random pkt = .ok (wire, next)) :
    Numbered q k wire ∧ next = some (.quic { q with pn := q.pn + BitVec.ofNat 32 (k + 1) }) := by
  obtain ⟨datagram, sealed, shape⟩ := encodeWith_ok encoded
  unfold encode encodeWith at encoded
  simp only [sealed, bind, Except.bind, Except.ok.injEq, counter] at encoded
  have wires : (frameWith pnLen (some (.quic { q with pn := q.pn + BitVec.ofNat 32 k })) random
      datagram).1 = wire := congrArg Prod.fst encoded
  have moved : (frameWith pnLen (some (.quic { q with pn := q.pn + BitVec.ofNat 32 k })) random
      datagram).2 = next := congrArg Prod.snd encoded
  constructor
  · refine ⟨_, datagram, firstByte_form random, ?_⟩
    rw [← wires, ← low_bytes, ← List.append_assoc]
    rfl
  · rw [← moved]
    have sum : q.pn + BitVec.ofNat 32 k + 1 = q.pn + BitVec.ofNat 32 (k + 1) := by
      rw [BitVec.add_assoc]
      congr 1
      exact (BitVec.ofNat_add k 1).symm
    simp only [frameWith, Obfuscator.wrapWith, QuicObfs.wrapWith, sum]

/-- A step frames nothing, or the datagram of its attempt. -/
theorem change_framed {s after : Session} {action : Action} (change : Change prims s action after) :
    (framed prims ⟨s, action, after⟩ = [] ∧ after.carrier = s.carrier) ∨
    ∃ (nonce : Nonce) (pkt wire : Bytes) (next : Option Obfuscator),
      encode prims s.carrier (nonce.salt s.carrier.cipher) nonce.random pkt = .ok (wire, next) ∧
        framed prims ⟨s, action, after⟩ = [wire] ∧ after.carrier = { s.carrier with obfuscator := next } := by
  cases change with
  | turned turn =>
    cases turn with
    | @sealed _ q i wire next pc present encoded =>
      exact .inr ⟨_, _, wire, next, encoded, by simp [framed, attempt, pc, present, encoded], rfl⟩
    | @framed _ pkt wire next pc encoded =>
      exact .inr ⟨_, _, wire, next, encoded, by simp [framed, attempt, pc, encoded], rfl⟩
    | unsealed q i e pc present failed =>
      exact .inl ⟨by simp [framed, attempt, pc, present, failed], rfl⟩
    | skipped pkt e pc failed => exact .inl ⟨by simp [framed, attempt, pc, failed], rfl⟩
    | responded q answer pc => exact .inl ⟨by simp [framed, attempt, pc], rfl⟩
    | _ => exact .inl ⟨by simp_all [framed, attempt], rfl⟩
  | flagged flag senders ingress egress keepalive places rests =>
    exact .inl ⟨by cases action <;> simp_all [isFlag, framed, attempt], rfl⟩
  | beat wire next pc encoded =>
    exact .inr ⟨_, _, wire, next, encoded, by simp [framed, attempt, pc, encoded], rfl⟩
  | ticked e pc failed => exact .inl ⟨by simp [framed, attempt, pc, failed], rfl⟩
  | beatSent wire pc => exact .inl ⟨by simp [framed, attempt, pc], rfl⟩
  | _ => exact .inl ⟨by simp [framed, attempt], rfl⟩

/-- A turn that frames and sends nothing holds no more than before. -/
theorem turn_held {s after : Session} {nonce : Nonce} {ok : Bool} (turn : Turn prims s nonce ok after)
    (w : Bytes) :
    ((shipped ⟨s, .ingress nonce ok, after⟩).map Prod.snd).count w + (holding after).count w ≤
      (framed prims ⟨s, .ingress nonce ok, after⟩).count w + (holding s).count w := by
  cases turn with
  | sealed q i wire next pc present encoded =>
    simp only [shipped, framed, attempt, pc, present, encoded, Option.map_some, List.map_nil,
      List.count_nil, holding, Session.enter, Task.goto, ingressWire, List.map_append, List.map_cons,
      List.count_append]
    omega
  | framed pkt wire next pc encoded =>
    simp only [shipped, framed, attempt, pc, encoded, List.map_nil, List.count_nil, holding,
      Session.enter, Task.goto, ingressWire, List.count_append]
    omega
  | sent pkt wire pc =>
    simp only [shipped, framed, attempt, pc, if_true, List.map_cons, List.map_nil, List.count_nil,
      holding, Session.enter, Task.goto, ingressWire, List.count_append]
    omega
  | failed pkt wire pc =>
    simp only [shipped, framed, attempt, pc, Bool.false_eq_true, if_false, List.map_nil,
      List.count_nil, holding, Session.enter, Task.goto, ingressWire, List.count_append]
    omega
  | passed pkt rest pc head calm plain =>
    simp only [shipped, framed, attempt, pc, List.map_nil, List.count_nil, holding, Session.enter,
      Task.goto, ingressWire, Nat.le_refl]
  | responded q answer pc =>
    simp only [shipped, framed, attempt, pc, List.map_nil, List.count_nil, holding, Session.enter,
      Session.emit, Task.goto, ingressWire, Nat.le_refl]
  | _ => simp_all [shipped, holding, Session.enter, Task.goto, ingressWire]

/-- What a step sends it takes out of what was held, and it holds no more than what it framed. -/
theorem change_held {s after : Session} {action : Action} (change : Change prims s action after)
    (w : Bytes) :
    ((shipped ⟨s, action, after⟩).map Prod.snd).count w + (holding after).count w ≤
      (framed prims ⟨s, action, after⟩).count w + (holding s).count w := by
  cases change with
  | turned turn => exact turn_held turn w
  | flagged flag senders ingress egress keepalive places rests =>
    obtain ⟨first, _, third⟩ := places
    cases action <;> simp_all [isFlag, shipped, framed, attempt, holding]
  | ingressCancelled parked =>
    simp only [shipped, framed, attempt, List.map_nil, List.count_nil, holding, ingressWire,
      List.count_append]
    omega
  | keepaliveCancelled =>
    simp only [shipped, framed, attempt, List.map_nil, List.count_nil, holding, beatWire,
      List.count_append]
    omega
  | ticked e pc failed => simp [shipped, framed, attempt, pc, failed, holding, beatWire, Task.goto]
  | beat wire next pc encoded =>
    simp only [shipped, framed, attempt, pc, encoded, List.map_nil, List.count_nil, holding, beatWire,
      Task.goto, List.count_append]
    omega
  | @beatSent nonce ok wire pc =>
    cases ok with
    | true =>
      simp only [shipped, framed, attempt, pc, if_true, List.map_cons, List.map_nil, List.count_nil,
        holding, beatWire, Task.goto, List.count_append]
      omega
    | false =>
      simp only [shipped, framed, attempt, pc, Bool.false_eq_true, if_false, List.map_nil,
        List.count_nil, holding, beatWire, Task.goto, List.count_append]
      omega
  | cleanSent index clean found =>
    have moved : (s.detached.map Clean.wire).count w =
        ((s.detached.eraseIdx index).map Clean.wire).count w + [clean.wire].count w := by
      obtain ⟨bound, rfl⟩ := List.getElem?_eq_some_iff.mp found
      have same := ((List.getElem_cons_eraseIdx_perm bound).map Clean.wire).count_eq w
      rw [← same, List.map_cons, ← List.singleton_append, List.count_append, Nat.add_comm]
    simp only [shipped, framed, attempt, found, if_true, Option.toList_some, List.map_cons,
      List.map_nil, List.count_nil, holding, List.count_append, moved]
    omega
  | cleanLost index clean found =>
    have fewer := ((List.eraseIdx_sublist s.detached index).map Clean.wire).count_le w
    simp only [shipped, framed, attempt, Bool.false_eq_true, if_false, List.map_nil, List.count_nil,
      holding, List.count_append]
    omega
  | _ => simp [shipped, framed, attempt, holding, pairDatagram, Session.emit]

/-- With the QUIC framing the datagrams of a session, whichever task frames them, carry the connection
id and consecutive packet numbers in the order in which they are framed, and those that are sent
are among them, each sent once at most. -/
theorem quic_numbers_consecutive (prims : Primitives) (interceptor : Option Interceptor)
    (carrier : Carrier) (q : QuicObfs) (quic : carrier.obfuscator = some (.quic q)) (s : Session)
    (events : List (Event Session Action))
    (trace : Trace (Turns.step prims) (fun _ _ => True) (start interceptor carrier) events s) :
    (∀ k wire, (events.flatMap (framed prims))[k]? = some wire → Numbered q k wire) ∧
      ((events.flatMap shipped).map Prod.snd).Subperm (events.flatMap (framed prims)) := by
  constructor
  · refine (trace.invariant (fun events s =>
      s.carrier.obfuscator = some (.quic
        { q with pn := q.pn + BitVec.ofNat 32 (events.flatMap (framed prims)).length }) ∧
      ∀ k wire, (events.flatMap (framed prims))[k]? = some wire → Numbered q k wire) ?_ ?_).2
    · intro events before action after inv _ taken
      simp only [List.flatMap_append, List.flatMap_cons, List.flatMap_nil, List.append_nil]
      rcases change_framed (step_change taken) with
        ⟨none, same⟩ | ⟨nonce, pkt, wire, next, encoded, one, moved⟩
      · rw [none, same, List.append_nil]
        exact inv
      · obtain ⟨numbered, advanced⟩ := encode_numbered inv.1 encoded
        rw [one, moved, List.length_append, List.length_singleton]
        refine ⟨advanced, fun k other found => ?_⟩
        by_cases earlier : k < (events.flatMap (framed prims)).length
        · rw [List.getElem?_append_left earlier] at found
          exact inv.2 k other found
        · rw [List.getElem?_append_right (Nat.le_of_not_lt earlier), List.getElem?_singleton] at found
          split at found
          · next zero =>
            have last : k = (events.flatMap (framed prims)).length := by omega
            rw [last, ← Option.some.inj found]
            exact numbered
          · cases found
    · refine ⟨?_, by simp⟩
      simp only [start, List.flatMap_nil, List.length_nil, BitVec.add_zero]
      exact quic
  · rw [List.subperm_ext_iff]
    intro w _
    have count := trace.invariant (fun events s =>
      ((events.flatMap shipped).map Prod.snd).count w + (holding s).count w ≤
        (events.flatMap (framed prims)).count w) ?_
      (by simp [holding, start, DataPlane.Task.spawn, ingressWire, beatWire])
    · omega
    · intro events before action after inv _ taken
      have held := change_held (step_change taken) w
      simp only [List.flatMap_append, List.flatMap_cons, List.flatMap_nil, List.append_nil,
        List.map_append, List.count_append]
      omega

end Runs

section Sample

/-- A connection id of eight bytes, the counter about to pass into its high half. -/
def sampleQuic : QuicObfs := ⟨[1, 2, 3, 4, 5, 6, 7, 8], 8, rfl, 0xFFFF⟩

def sampleQuicCarrier : Carrier := { sampleCarrier with obfuscator := some (.quic sampleQuic) }

/-- A packet and a keepalive carry the numbers 0xFFFF and 0. -/
theorem sample_numbers : ∃ events s, Trace (Turns.step samplePrims) (fun _ _ => True)
    (start none sampleQuicCarrier) events s ∧
    (events.flatMap (framed samplePrims)).map (fun wire => (wire.drop 9).take 2) =
      [[0xFF, 0xFF], [0, 0]] ∧
    (events.flatMap shipped).length = 2 ∧
    ∀ k wire, (events.flatMap (framed samplePrims))[k]? = some wire → Numbered sampleQuic k wire := by
  have ran : (run (Turns.step samplePrims) (start none sampleQuicCarrier)
      [.trySend samplePacket, .ingress sampleNonce true, .ingress sampleNonce true,
        .ingress sampleNonce true, .keepalive sampleNonce true, .keepalive sampleNonce true]).isSome := by
    decide +kernel
  obtain ⟨s, ran⟩ := Option.isSome_iff_exists.mp ran
  have trace := trace_of_run ran
  exact ⟨_, s, trace, by decide +kernel, by decide +kernel,
    (quic_numbers_consecutive samplePrims none sampleQuicCarrier sampleQuic rfl s _ trace).1⟩

end Sample

end ShadowVpn.Engine.Numbers
