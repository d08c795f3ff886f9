import ShadowVpn.Engine.Lifecycle

/-! What one step of a session can do to its books: the senders of its channel, the two counters,
what went to the server and to the writer, and what the egress loop still holds for the writer. -/

namespace ShadowVpn.Engine.Books
open ShadowVpn.Lib.Octets ShadowVpn.Wire.Crypto
open ShadowVpn.Engine.Intercept ShadowVpn.Engine.Datagram ShadowVpn.Engine.DataPlane
open ShadowVpn.Engine.Moves ShadowVpn.Engine.Lifecycle

structure Account where
  senders : Nat
  up : Nat
  down : Nat
  sent : List Bytes
  emitted : List Emission
  egress : DataPlane.Task Egress

def account (s : Session) : Account where
  senders := s.senders
  up := s.up
  down := s.down
  sent := s.sent
  emitted := s.emitted
  egress := s.egress

/-- The packets that the egress loop has counted and not yet handed over. -/
def held : Egress → List Bytes
  | .writing packets _ => packets
  | _ => []

section Entries

variable (prims : Primitives)

/-- The entries that an action of the session's own can make. -/
inductive Entry (s : Session) : Action → Account → Prop
  | nothing {action : Action} : Entry s action (account s)
  | moved {action : Action} (t : DataPlane.Task Egress) (after : held t.pc = [])
      (before : s.egress.parked = true ∨ held s.egress.pc = []) :
      Entry s action { account s with egress := t }
  | forwarded {nonce : Nonce} (pkt wire : Bytes) (pc : s.ingress.pc = .sending pkt wire) :
      Entry s (.ingress nonce true) { account s with up := s.up + pkt.length, sent := s.sent ++ [pkt] }
  | responded {nonce : Nonce} {ok : Bool} (q : Query) (answer : Bytes)
      (pc : s.ingress.pc = .responding q answer) :
      Entry s (.ingress nonce ok)
        { account s with emitted := s.emitted ++ [⟨responsePacket q.parsed answer, true, some q.id⟩] }
  | paired {ok : Bool} (arrival : Arrival) (pc : s.egress.pc = .received arrival) :
      Entry s (.egress ok) (account (pairDatagram prims s arrival))
  | wrote {ok : Bool} (packet : Bytes) (rest : List Bytes) (origin : Option Nat)
      (pc : s.egress.pc = .writing (packet :: rest) origin) :
      Entry s (.egress ok) { account s with emitted := s.emitted ++ [⟨packet, false, origin⟩]
                                            egress := s.egress.goto (.writing rest origin) }
  | cleaned (index : Nat) (clean : Clean) (found : s.detached[index]? = some clean) :
      Entry s (.cleanSend index true) { account s with sent := s.sent ++ [clean.pkt] }

variable {prims}

theorem Entry.senders {s : Session} {action : Action} {b : Account} (entry : Entry prims s action b) :
    b.senders = s.senders := by
  cases entry <;> rfl

theorem receivePacket_account {s after : Session} (taken : receivePacket s = some after) :
    account after = account s := by
  simp only [receivePacket] at taken
  split at taken
  · split at taken
    · exact Option.some.inj taken ▸ rfl
    · cases taken
  · split at taken
    · exact Option.some.inj taken ▸ rfl
    · split at taken <;> exact Option.some.inj taken ▸ rfl

theorem place_account (s : Session) (q : Query) : account (place s q) = account s := by
  unfold place
  split <;> rfl

theorem sealClean_account (s : Session) (i : Interceptor) (q : Query) (nonce : Nonce) :
    account (sealClean prims s i q nonce) = account s := by
  unfold sealClean
  dsimp only
  split <;> rfl

theorem ask_account (s : Session) (q : Query) (ok : Bool) : account (ask s q ok) = account s := by
  cases ok <;> rfl

theorem awaitAnswer_account {s after : Session} {q : Query} {ok : Bool}
    (taken : awaitAnswer s q ok = some after) : account after = account s := by
  unfold awaitAnswer at taken
  split at taken
  · split at taken
    · cases taken
    · dsimp only at taken
      split at taken <;> exact Option.some.inj taken ▸ rfl
  · exact Option.some.inj taken ▸ rfl

theorem decideAnswer_account (s : Session) (i : Interceptor) (q : Query) (answer : Bytes) :
    account (decideAnswer s i q answer) = account s := by
  unfold decideAnswer
  split <;> rfl

theorem forward_account (s : Session) (pkt : Bytes) (nonce : Nonce) :
    account (forward prims s pkt nonce) = account s := by
  unfold forward
  split <;> rfl

theorem ingressStep_entry {s after : Session} {nonce : Nonce} {ok : Bool}
    (taken : ingressStep prims s nonce ok = some after) :
    Entry prims s (.ingress nonce ok) (account after) := by
  unfold ingressStep at taken
  split at taken
  · cases pc : s.ingress.pc with
    | recv =>
      simp only [pc] at taken
      exact receivePacket_account taken ▸ .nothing
    | placing q =>
      simp only [pc] at taken
      exact Option.some.inj taken ▸ place_account s q ▸ .nothing
    | sealing q =>
      simp only [pc, Option.map_eq_some_iff] at taken
      obtain ⟨i, _, same⟩ := taken
      exact same ▸ sealClean_account s i q nonce ▸ .nothing
    | asking q =>
      simp only [pc] at taken
      exact Option.some.inj taken ▸ ask_account s q ok ▸ .nothing
    | listening q =>
      simp only [pc] at taken
      exact awaitAnswer_account taken ▸ .nothing
    | deciding q answer =>
      simp only [pc, Option.map_eq_some_iff] at taken
      obtain ⟨i, _, same⟩ := taken
      exact same ▸ decideAnswer_account s i q answer ▸ .nothing
    | responding q answer =>
      simp only [pc] at taken
      exact Option.some.inj taken ▸ .responded q answer pc
    | forwarding pkt =>
      simp only [pc] at taken
      exact Option.some.inj taken ▸ forward_account s pkt nonce ▸ .nothing
    | sending pkt wire =>
      simp only [pc] at taken
      cases ok with
      | true => exact Option.some.inj taken ▸ .forwarded pkt wire pc
      | false => exact Option.some.inj taken ▸ .nothing
    | done => simp [pc] at taken
  · cases taken

theorem egressStep_entry {s after : Session} {ok : Bool} (taken : egressStep prims s ok = some after) :
    Entry prims s (.egress ok) (account after) := by
  unfold egressStep at taken
  split at taken
  · cases pc : s.egress.pc with
    | recv =>
      have empty : held s.egress.pc = [] := by rw [pc]; rfl
      simp only [pc, receiveDatagram] at taken
      split at taken
      · split at taken
        · cases taken
        · exact Option.some.inj taken ▸ .moved _ rfl (.inr empty)
      · exact Option.some.inj taken ▸ .moved _ rfl (.inr empty)
    | received arrival =>
      simp only [pc] at taken
      exact Option.some.inj taken ▸ .paired arrival pc
    | writing packets origin =>
      simp only [pc] at taken
      cases packets with
      | nil => exact Option.some.inj taken ▸ .moved _ rfl (.inr (by rw [pc]; rfl))
      | cons packet rest => exact Option.some.inj taken ▸ .wrote packet rest origin pc
    | done => simp [pc] at taken
  · cases taken

theorem keepaliveStep_account {s after : Session} {nonce : Nonce} {ok : Bool}
    (taken : keepaliveStep prims s nonce ok = some after) : account after = account s := by
  unfold keepaliveStep at taken
  split at taken
  · split at taken
    · split at taken <;> exact Option.some.inj taken ▸ rfl
    · exact Option.some.inj taken ▸ rfl
    · cases taken
  · cases taken

/-- A loop is parked only where it waits. -/
theorem parkTask_entry {s after : Session} {action : Action} {which : Which}
    (taken : parkTask s which = some after) : Entry prims s action (account after) := by
  cases which with
  | ingress | keepalive =>
    obtain ⟨task, _, rfl⟩ := Option.map_eq_some_iff.mp taken
    exact .nothing
  | egress =>
    obtain ⟨task, parked, rfl⟩ := Option.map_eq_some_iff.mp taken
    obtain ⟨waits, rfl⟩ := DataPlane.Task.park_some parked
    have empty : held s.egress.pc = [] := by
      cases pc : s.egress.pc <;> simp_all [Egress.waits, held]
    exact .moved _ empty (.inr empty)

theorem cancelTask_entry {s after : Session} {action : Action} {which : Which}
    (taken : cancelTask s which = some after) : Entry prims s action (account after) := by
  cases which with
  | ingress | keepalive =>
    obtain ⟨task, _, rfl⟩ := Option.map_eq_some_iff.mp taken
    exact .nothing
  | egress =>
    obtain ⟨task, cancelled, rfl⟩ := Option.map_eq_some_iff.mp taken
    obtain ⟨parked, _, rfl⟩ := DataPlane.Task.cancel_some cancelled
    exact .moved _ rfl (.inl parked)

/-- Every step of a session's own makes one of the entries. -/
theorem step_entry {s after : Session} {action : Action} (own : free action = true)
    (taken : step prims s action = some after) : Entry prims s action (account after) := by
  cases action with
  | cloneSender | dropSender => cases own
  | trySend pkt => cases own
  | abort which => cases own
  | park which => exact parkTask_entry taken
  | cancel which => exact cancelTask_entry taken
  | directArrives datagram =>
    obtain ⟨queue, out, rfl⟩ := directArrives_some taken
    exact .nothing
  | tunnelArrives arrival =>
    obtain ⟨queue, out, rfl⟩ := tunnelArrives_some taken
    exact .nothing
  | ingress nonce ok => exact ingressStep_entry taken
  | egress ok => exact egressStep_entry taken
  | keepalive nonce ok => exact keepaliveStep_account taken ▸ .nothing
  | cleanSend index ok =>
    simp only [step, cleanSend, Option.map_eq_some_iff] at taken
    obtain ⟨clean, found, rfl⟩ := taken
    cases ok with
    | true => exact .cleaned index clean found
    | false => exact .nothing

end Entries

end ShadowVpn.Engine.Books
