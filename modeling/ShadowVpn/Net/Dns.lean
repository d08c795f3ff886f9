import ShadowVpn.Net.Ipv4

/-! The DNS wire reading of `vendor/dns.rs`: the first question of a message and the
IPv4 addresses of its answer section. -/

namespace ShadowVpn.Net.Dns
open ShadowVpn.Lib.Octets ShadowVpn.Net.Ipv4

def headerLen : Nat := 12
def typeA : BitVec 16 := 1
def classIn : BitVec 16 := 1

/-- `to_ascii_lowercase` on one byte. -/
def asciiLower (b : Byte) : Byte := if 65 ≤ b.toNat ∧ b.toNat ≤ 90 then b + 32 else b

/-- One round of the label loop: the budget bounds the pointers followed. The labels are kept
as bytes; the source joins them with dots. -/
def readNameLoop (msg : Bytes) : (budget pos : Nat) → (labels : List Bytes) → (jumped : Bool) →
    (afterPtr : Nat) → Option (List Bytes × Nat)
  | 0, _, _, _, _ => none
  | budget + 1, pos, labels, jumped, afterPtr =>
    if msg.length ≤ pos then none
    else
      let len := byteAt msg pos
      if len &&& 0xC0 = 0x00 then
        if len = 0 then some (labels.reverse, if jumped then afterPtr else pos + 1)
        else if msg.length < pos + 1 + len.toNat then none
        else
          let label := ((msg.drop (pos + 1)).take len.toNat).map asciiLower
          readNameLoop msg budget (pos + 1 + len.toNat) (label :: labels) jumped afterPtr
      else if len &&& 0xC0 = 0xC0 then
        if msg.length ≤ pos + 1 then none
        else
          let ptr := (len &&& 0x3F).toNat * 256 + (byteAt msg (pos + 1)).toNat
          if msg.length ≤ ptr then none
          else readNameLoop msg budget ptr labels true (if jumped then afterPtr else pos + 2)
      else none

/-- A possibly compressed name and the offset just past it. -/
def readName (msg : Bytes) (start : Nat) : Option (List Bytes × Nat) :=
  readNameLoop msg msg.length start [] false start

/-- The first question as name, type and class. -/
def question (msg : Bytes) : Option (List Bytes × BitVec 16 × BitVec 16) :=
  if msg.length < headerLen then none
  else if be16At msg 4 = 0 then none
  else do
    let (name, pos) ← readName msg headerLen
    if msg.length < pos + 4 then none
    else some (name, be16At msg pos, be16At msg (pos + 2))

/-- The skipping loop; every round moves ahead, so `msg.length` rounds are enough. -/
def skipNameLoop (msg : Bytes) : (rounds pos : Nat) → Option Nat
  | 0, _ => none
  | rounds + 1, pos =>
    if msg.length ≤ pos then none
    else
      let len := byteAt msg pos
      if len &&& 0xC0 = 0x00 then
        if len = 0 then some (pos + 1) else skipNameLoop msg rounds (pos + 1 + len.toNat)
      else if len &&& 0xC0 = 0xC0 then
        if pos + 1 < msg.length then some (pos + 2) else none
      else none

def skipName (msg : Bytes) (start : Nat) : Option Nat := skipNameLoop msg msg.length start

/-- Skip the remaining questions: name, type and class each. -/
def skipQuestions (msg : Bytes) : (count pos : Nat) → Option Nat
  | 0, pos => some pos
  | count + 1, pos => do
    let after ← skipName msg pos
    if msg.length < after + 4 then none else skipQuestions msg count (after + 4)

/-- Walk the answer records; the walk ends at the first one that does not fit. -/
def answerRecords (msg : Bytes) : (count pos : Nat) → List Ipv4Addr
  | 0, _ => []
  | count + 1, pos =>
    match skipName msg pos with
    | none => []
    | some pos =>
      if msg.length < pos + 10 then []
      else
        let rtype := be16At msg pos
        let rclass := be16At msg (pos + 2)
        let rdlength := (be16At msg (pos + 8)).toNat
        if msg.length < pos + 10 + rdlength then []
        else
          let rest := answerRecords msg count (pos + 10 + rdlength)
          if rtype = typeA ∧ rclass = classIn ∧ rdlength = 4 then
            ofOctets (byteAt msg (pos + 10)) (byteAt msg (pos + 11)) (byteAt msg (pos + 12))
              (byteAt msg (pos + 13)) :: rest
          else rest

/-- Every IPv4 address of the answer section. -/
def aRecords (msg : Bytes) : List Ipv4Addr :=
  if msg.length < headerLen then []
  else
    match skipQuestions msg (be16At msg 4).toNat headerLen with
    | none => []
    | some pos => answerRecords msg (be16At msg 6).toNat pos

/-- The number of rounds does not matter once it covers the rest of the message. -/
theorem skipNameLoop_rounds (msg : Bytes) (rounds more pos : Nat) (enough : msg.length ≤ pos + rounds) :
    skipNameLoop msg (rounds + more) pos = skipNameLoop msg rounds pos := by
  induction rounds generalizing pos with
  | zero =>
    cases more with
    | zero => rfl
    | succ more =>
      have past : msg.length ≤ pos := by omega
      simp only [skipNameLoop, if_pos past]
  | succ rounds ih =>
    rw [Nat.succ_add, skipNameLoop, skipNameLoop]
    simp only [ih (pos + 1 + (byteAt msg pos).toNat) (by omega)]

/-- The loop as the source writes it, without a bound on its rounds. -/
theorem skipName_eq (msg : Bytes) (pos : Nat) :
    skipName msg pos =
      if msg.length ≤ pos then none
      else if byteAt msg pos &&& 0xC0 = 0x00 then
        if byteAt msg pos = 0 then some (pos + 1)
        else skipName msg (pos + 1 + (byteAt msg pos).toNat)
      else if byteAt msg pos &&& 0xC0 = 0xC0 then
        if pos + 1 < msg.length then some (pos + 2) else none
      else none := by
  have unrolled := skipNameLoop_rounds msg msg.length 1 pos (by omega)
  rw [skipName, ← unrolled, skipNameLoop]
  rfl

/-- Skipping a name moves ahead and stays inside the message. -/
theorem skipName_bounds (msg : Bytes) (start stop : Nat) (skipped : skipName msg start = some stop) :
    start < stop ∧ stop ≤ msg.length := by
  have loop : ∀ rounds pos, skipNameLoop msg rounds pos = some stop → pos < stop ∧ stop ≤ msg.length := by
    intro rounds
    induction rounds with
    | zero =>
      intro pos found
      exact absurd found (by simp [skipNameLoop])
    | succ rounds ih =>
      intro pos found
      simp only [skipNameLoop] at found
      split at found
      · exact absurd found (by simp)
      · split at found
        · split at found
          · rw [Option.some.injEq] at found
            omega
          · have later := ih _ found
            omega
        · split at found
          · split at found
            · rw [Option.some.injEq] at found
              omega
            · exact absurd found (by simp)
          · exact absurd found (by simp)
  exact loop msg.length start skipped

end ShadowVpn.Net.Dns
