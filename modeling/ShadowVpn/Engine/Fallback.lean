import ShadowVpn.Engine.Calls

/-! A query whose clean copy was not transmitted: the client gets the local answer only if that
answer was the one to return anyway. -/

namespace ShadowVpn.Engine.Fallback
open ShadowVpn.Lib.Octets ShadowVpn.Lib.Transition ShadowVpn.Net.Udp ShadowVpn.Net.Dns
open ShadowVpn.Wire.Crypto ShadowVpn.Engine.Intercept ShadowVpn.Engine.Datagram
open ShadowVpn.Engine.DataPlane ShadowVpn.Engine.Calls
open ShadowVpn.Engine.Direct (body)

def transmits (q : Query) (s : Session) (action : Action) : Bool :=
  match action with
  | .cleanSend index true => s.detached[index]?.any fun clean => clean.id == q.id
  | _ => false

/-- A call whose clean copy could not be encrypted or could not be sent, during the call or later:
in the last session no copy is left to send, and none went out before. -/
structure Unsent (prims : Primitives) (i : Interceptor) (q : Query) (begun finished later : Session) : Prop where
  call : Call prims (fun s action => !transmits q s action) i q begun finished
  silent : Reaches (step prims) (fun s action => transmits q s action = false) finished later
  lost : ∀ clean ∈ later.detached, clean.id ≠ q.id

def Domestic (i : Interceptor) (answer : Bytes) : Prop :=
  ∀ ip, (aRecords answer).head? = some ip → i.chnroute.contains ip = true

theorem isDomestic_iff (i : Interceptor) (answer : Bytes) : i.isDomestic answer = true ↔ Domestic i answer := by
  rw [Interceptor.isDomestic, Domestic]
  cases (aRecords answer).head? with
  | none => simp
  | some ip => simp

/-- A query whose clean copy was not transmitted is served with its direct answer exactly if that is a
domestic one. -/
theorem served_iff_domestic (prims : Primitives) (i : Interceptor) (q : Query)
    (begun finished later : Session) (datagram : Datagram) (unsent : Unsent prims i q begun finished later)
    (received : finished.history.taken = begun.history.taken ++ [(q, datagram)]) :
    Handed q (body datagram) begun finished ↔ Domestic i (body datagram) := by
  obtain ⟨id, _, outcome⟩ := call_outcome unsent.call received
  rw [← isDomestic_iff]
  exact outcome.handed_iff (List.length_take_le _ _)

def sampleLoss (answer : Bytes) : List Action :=
  sampleAsking ++ [.cleanSend 0 false, .directArrives ⟨sampleInterceptor.dnsLocal, answer, some 0⟩] ++
    [.ingress sampleNonce true, .ingress sampleNonce true]

def sentOrLeft (s : Session) : List (Query × Datagram) × Nat :=
  (s.history.taken, s.sent.length + s.detached.length)

def anything (s : Session) : List (Query × Datagram) × Nat :=
  (s.history.taken, s.emitted.length + s.sent.length + s.detached.length)

/-- The send fails and the answer has no address: the client gets it. -/
theorem empty_answer_served : ∃ begun finished,
    Unsent samplePrims sampleInterceptor sampleTaken begun finished finished ∧
      Handed sampleTaken (sampleEmptyAnswer 7) begun finished := by
  obtain ⟨finished, call, same⟩ := @call_of_run _ samplePrims (fun s action => !transmits sampleTaken s action)
    sampleInterceptor sampleTaken sampleBegun sampleNonce true
    (sampleLoss (sampleEmptyAnswer 7) ++ [.ingress sampleNonce true]) sentOrLeft
    ([(sampleTaken, ⟨sampleInterceptor.dnsLocal, sampleEmptyAnswer 7, some 0⟩)], 0) rfl rfl (by decide +kernel)
  simp only [sentOrLeft, Prod.mk.injEq, Nat.add_eq_zero_iff, List.length_eq_zero_iff] at same
  have unsent : Unsent samplePrims sampleInterceptor sampleTaken sampleBegun finished finished :=
    ⟨call, .refl, by simp [same.2.2]⟩
  have empty : aRecords (sampleEmptyAnswer 7) = [] := by decide
  refine ⟨sampleBegun, finished, unsent, ?_⟩
  refine (served_iff_domestic samplePrims sampleInterceptor sampleTaken sampleBegun finished finished
    ⟨sampleInterceptor.dnsLocal, sampleEmptyAnswer 7, some 0⟩ unsent same.1).mpr ?_
  intro ip first
  rw [show body _ = sampleEmptyAnswer 7 from rfl, empty] at first
  cases first

/-- The send fails and the answer has the address 93.184.216.34: nothing is emitted and nothing sent. -/
theorem query_lost :
    ∃ begun finished, Reachable (step samplePrims) (start (some sampleInterceptor) sampleCarrier) begun ∧
      Unsent samplePrims sampleInterceptor sampleTaken begun finished finished ∧
      finished.history.taken = begun.history.taken ++ [(sampleTaken, sampleDatagram)] ∧
      finished.emitted = [] ∧ finished.sent = [] ∧ ¬Handed sampleTaken (body sampleDatagram) begun finished := by
  have begins : Reachable (step samplePrims) (start (some sampleInterceptor) sampleCarrier) sampleBegun :=
    .next (.trySend (sampleQueryPacket 7 5353)) .refl trivial rfl
  obtain ⟨finished, call, same⟩ := @call_of_run _ samplePrims (fun s action => !transmits sampleTaken s action)
    sampleInterceptor sampleTaken sampleBegun sampleNonce true (sampleLoss (sampleAnswer 7)) anything
    ([(sampleTaken, sampleDatagram)], 0) rfl rfl (by decide +kernel)
  simp only [anything, Prod.mk.injEq, Nat.add_eq_zero_iff, List.length_eq_zero_iff] at same
  obtain ⟨taken, ⟨silent, unsent⟩, none⟩ := same
  refine ⟨sampleBegun, finished, begins, ⟨call, .refl, by simp [none]⟩, taken, silent, unsent, ?_⟩
  rintro ⟨packet, more, _⟩
  rw [direct, silent] at more
  exact absurd more (by simp)

end ShadowVpn.Engine.Fallback
