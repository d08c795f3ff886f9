import ShadowVpn.Lib.Utf8
import ShadowVpn.Net.Dns

/-! The question reader of `vendor/dns.rs` with everything that could stop it: the indices, the range of a
label and the sums of offsets. It never stops, and it reads what the plain reader does. -/

namespace ShadowVpn.Net.Guarded
open ShadowVpn.Lib.Octets ShadowVpn.Lib.Text ShadowVpn.Lib.Panic ShadowVpn.Lib.Utf8

/-- `to_ascii_lowercase` on a string. -/
def toAsciiLowercase (text : Chars) : Chars := text.map Char.toLower

def readNameLoop (msg : Bytes) : (budget pos : Nat) → (labels : List Chars) → (jumped : Bool) →
    (afterPtr : Nat) → Checked (Option (List Chars × Nat))
  | 0, _, _, _, _ => return none
  | budget + 1, pos, labels, jumped, afterPtr => do
    if msg.length ≤ pos then return none
    let len ← index msg pos
    if len &&& 0xC0 = 0x00 then
      if len = 0 then
        let pos ← add pos 1
        return some (labels.reverse, if jumped then afterPtr else pos)
      let s ← add pos 1
      let e ← add s len.toNat
      if msg.length < e then return none
      let label := toAsciiLowercase (lossy (← slice msg s e))
      readNameLoop msg budget e (label :: labels) jumped afterPtr
    else if len &&& 0xC0 = 0xC0 then
      if msg.length ≤ (← add pos 1) then return none
      let ptr := (len &&& 0x3F).toNat * 256 + (← index msg (← add pos 1)).toNat
      let afterPtr ← if jumped then pure afterPtr else add pos 2
      if msg.length ≤ ptr then return none
      readNameLoop msg budget ptr labels true afterPtr
    else return none

def readName (msg : Bytes) (start : Nat) : Checked (Option (Chars × Nat)) := do
  let some (labels, pos) ← readNameLoop msg msg.length start [] false start | return none
  return some (['.'].intercalate labels, pos)

def question (msg : Bytes) : Checked (Option (Chars × BitVec 16 × BitVec 16)) := do
  if msg.length < Dns.headerLen then return none
  let qdcount := be16 (← index msg 4) (← index msg 5)
  if qdcount = 0 then return none
  let some (name, pos) ← readName msg Dns.headerLen | return none
  if msg.length < (← add pos 4) then return none
  let qtype := be16 (← index msg pos) (← index msg (← add pos 1))
  let qclass := be16 (← index msg (← add pos 2)) (← index msg (← add pos 3))
  return some (name, qtype, qclass)

section Lowercase

theorem asciiLower_high (b : Byte) (high : 0x80 ≤ b) : Dns.asciiLower b = b := by
  have bound : 128 ≤ b.toNat := high
  rw [Dns.asciiLower, if_neg (by omega)]

theorem asciiLower_low (b : Byte) (low : ¬0x80 ≤ b) : ¬0x80 ≤ Dns.asciiLower b := by
  unfold Dns.asciiLower
  split
  · bv_omega
  · exact low

/-- What holds of high bytes only does not see the change of case. -/
theorem lower_unseen (p : Byte → Bool) (high : ∀ b, p b = true → 0x80 ≤ b) (b : Byte) :
    p (Dns.asciiLower b) = p b := by
  by_cases large : 0x80 ≤ b
  · rw [asciiLower_high b large]
  · have plain : p b = false := Bool.eq_false_iff.mpr fun hit => large (high b hit)
    have lowered : p (Dns.asciiLower b) = false :=
      Bool.eq_false_iff.mpr fun hit => asciiLower_low b large (high _ hit)
    rw [plain, lowered]

theorem toLower_large (n : Nat) (large : 128 ≤ n) : (Char.ofNat n).toLower = Char.ofNat n := by
  have outside : (Char.ofNat n).val.toNat = n ∨ (Char.ofNat n).val.toNat = 0 := by
    by_cases valid : n.isValidChar
    · have char : Char.ofNat n = Char.ofNatAux n valid := dif_pos valid
      rw [char]
      exact .inl rfl
    · have char : Char.ofNat n = '\x00' := dif_neg valid
      rw [char]
      exact .inr rfl
  unfold Char.toLower
  rw [dif_neg]
  rintro ⟨above, below⟩
  have low : 65 ≤ (Char.ofNat n).val.toNat := above
  have high : (Char.ofNat n).val.toNat ≤ 90 := below
  omega

theorem toLower_small (b : Byte) (low : ¬0x80 ≤ b) :
    (Char.ofNat b.toNat).toLower = Char.ofNat (Dns.asciiLower b).toNat := by
  have all : ∀ n : Fin 128, (Char.ofNat n.val).toLower =
      Char.ofNat (Dns.asciiLower (BitVec.ofNat 8 n.val)).toNat := by
    decide +kernel
  have bound : b.toNat < 128 := by bv_omega
  have read := all ⟨b.toNat, bound⟩
  rwa [BitVec.ofNat_toNat, BitVec.setWidth_eq] at read

theorem byteAt_lower (data : Bytes) (i : Nat) : byteAt (data.map Dns.asciiLower) i = Dns.asciiLower (byteAt data i) := by
  rw [byteAt, byteAt, List.getD_eq_getElem?_getD, List.getD_eq_getElem?_getD, List.getElem?_map]
  cases data[i]? <;> rfl

theorem first_lower (data : Bytes) :
    first (data.map Dns.asciiLower) = ((first data).1.map Char.toLower, (first data).2) := by
  dsimp only [first]
  simp only [byteAt_lower]
  generalize byteAt data 0 = b0
  generalize byteAt data 1 = b1
  generalize byteAt data 2 = b2
  generalize byteAt data 3 = b3
  by_cases high : 0x80 ≤ b0
  · have notLow : ¬b0 < 0x80 := BitVec.not_lt.mpr high
    rw [asciiLower_high b0 high, lower_unseen isTail isTail_high, lower_unseen isTail isTail_high,
      lower_unseen isTail isTail_high, lower_unseen (second3 b0) (second3_high b0),
      lower_unseen (second4 b0) (second4_high b0), if_neg notLow, if_neg notLow]
    split
    · next two =>
      split
      · next tail =>
        have lead : bits b0 0x1F = b0.toNat % 32 := bits_low b0 5 (by decide)
        have large : 128 ≤ bits b0 0x1F * 64 + bits b1 0x3F := by bv_omega
        rw [asciiLower_high b1 (isTail_high b1 tail), Option.map_some, toLower_large _ large]
      · rfl
    split
    · split
      · rfl
      · next second =>
        rw [Bool.not_eq_true', Bool.not_eq_false] at second
        split
        · rfl
        · next tail =>
          rw [Bool.not_eq_true', Bool.not_eq_false] at tail
          have large := second3_large b0 b1 second
          rw [asciiLower_high b1 (second3_high b0 b1 second), asciiLower_high b2 (isTail_high b2 tail),
            Option.map_some, toLower_large _ (by omega)]
    split
    · split
      · rfl
      · next second =>
        rw [Bool.not_eq_true', Bool.not_eq_false] at second
        split
        · rfl
        · next tail2 =>
          rw [Bool.not_eq_true', Bool.not_eq_false] at tail2
          split
          · rfl
          · next tail3 =>
            rw [Bool.not_eq_true', Bool.not_eq_false] at tail3
            have large := second4_large b0 b1 second
            rw [asciiLower_high b1 (second4_high b0 b1 second), asciiLower_high b2 (isTail_high b2 tail2),
              asciiLower_high b3 (isTail_high b3 tail3), Option.map_some, toLower_large _ (by omega)]
    · rfl
  · have low : b0 < 0x80 := BitVec.not_le.mp high
    rw [if_pos low, if_pos (BitVec.not_le.mp (asciiLower_low b0 high)), Option.map_some, toLower_small b0 high]

theorem chunksFrom_lower (skip : Nat) (data : Bytes) : chunksFrom skip (data.map Dns.asciiLower) =
    (chunksFrom skip data).map (Option.map Char.toLower) := by
  induction data generalizing skip with
  | nil => cases skip <;> rfl
  | cons b rest ih =>
    cases skip with
    | zero =>
      have head := first_lower (b :: rest)
      rw [List.map_cons] at head ⊢
      rw [chunksFrom, head, ih, chunksFrom, List.map_cons]
    | succ skip => exact ih skip

/-- Changing the case of the bytes changes the case of the text. -/
theorem lossy_lower (data : Bytes) : lossy (data.map Dns.asciiLower) = toAsciiLowercase (lossy data) := by
  rw [lossy, lossy, chunks, chunks, chunksFrom_lower, toAsciiLowercase, List.map_map, List.map_map]
  apply List.map_congr_left
  intro c _
  cases c with
  | none => rfl
  | some c => rfl

end Lowercase

section Reading

variable {msg : Bytes}

/-- No check of the loop fails; the labels are those of the plain loop as text. -/
theorem readNameLoop_eq (small : msg.length < 2 ^ 63) (budget pos : Nat) (labels : List Bytes) (jumped : Bool)
    (afterPtr : Nat) : readNameLoop msg budget pos (labels.map lossy) jumped afterPtr =
      .ok ((Dns.readNameLoop msg budget pos labels jumped afterPtr).map fun read => (read.1.map lossy, read.2)) := by
  induction budget generalizing pos labels jumped afterPtr with
  | zero => rfl
  | succ budget ih =>
    rw [readNameLoop, Dns.readNameLoop]
    by_cases past : msg.length ≤ pos
    · rw [if_pos past, if_pos past]
      rfl
    have wide (n : Nat) (near : n ≤ msg.length + 300) : n < usizeEnd := by
      unfold usizeEnd
      omega
    have byte := (byteAt msg pos).isLt
    rw [if_neg past, if_neg past, index_ok (by omega), ok_bind]
    dsimp only
    split
    · split
      · rw [add_ok (wide _ (by omega)), ok_bind, Option.map_some, List.map_reverse]
        rfl
      · rw [add_ok (wide _ (by omega)), ok_bind, add_ok (wide _ (by omega)), ok_bind]
        split
        · rfl
        · rw [slice_ok (by omega) (by omega), ok_bind, Nat.add_sub_cancel_left, ← lossy_lower, ← List.map_cons, ih]
    · split
      · rw [add_ok (wide _ (by omega)), ok_bind]
        split
        · rfl
        · next room =>
          rw [ok_bind, index_ok (by omega), ok_bind]
          cases jumped with
          | true =>
            simp only [if_true, pure_bind]
            split
            · rfl
            · exact ih _ _ _ _
          | false =>
            simp only [Bool.false_eq_true, if_false, add_ok (wide (pos + 2) (by omega)), ok_bind]
            split
            · rfl
            · exact ih _ _ _ _
      · rfl

theorem readNameLoop_bound (budget pos : Nat) (labels read : List Bytes) (jumped : Bool) (afterPtr stop : Nat)
    (inside : jumped = true → afterPtr ≤ msg.length)
    (found : Dns.readNameLoop msg budget pos labels jumped afterPtr = some (read, stop)) : stop ≤ msg.length := by
  induction budget generalizing pos labels jumped afterPtr with
  | zero => cases found
  | succ budget ih =>
    rw [Dns.readNameLoop] at found
    dsimp only at found
    split at found
    · cases found
    · next room =>
      split at found
      · split at found
        · obtain ⟨_, rfl⟩ := Prod.mk.inj (Option.some.inj found)
          split
          · next jump => exact inside jump
          · omega
        · split at found
          · cases found
          · exact ih _ _ _ _ inside found
      · split at found
        · split at found
          · cases found
          · split at found
            · cases found
            · refine ih _ _ _ _ ?_ found
              intro _
              split
              · next jump => exact inside jump
              · omega
        · cases found

/-- A name as text. -/
def nameText (labels : List Bytes) : Chars := ['.'].intercalate (labels.map lossy)

theorem readName_eq (small : msg.length < 2 ^ 63) (start : Nat) :
    readName msg start = .ok ((Dns.readName msg start).map fun read => (nameText read.1, read.2)) := by
  have loop := readNameLoop_eq small msg.length start [] false start
  rw [List.map_nil] at loop
  rw [readName, loop, ok_bind, Dns.readName]
  cases Dns.readNameLoop msg msg.length start [] false start with
  | none => rfl
  | some read => rfl

/-- The question reader comes to its end on every message, with what the plain reader gives. -/
theorem question_eq (small : msg.length < 2 ^ 63) :
    question msg = .ok ((Dns.question msg).map fun read => (nameText read.1, read.2)) := by
  have wide (n : Nat) (near : n ≤ msg.length + 300) : n < usizeEnd := by
    unfold usizeEnd
    omega
  rw [question, Dns.question]
  split
  · rfl
  · next header =>
    have long : 12 ≤ msg.length := Nat.le_of_not_lt header
    rw [index_ok (by omega), ok_bind, index_ok (by omega), ok_bind, be16At]
    dsimp only
    split
    · rfl
    · rw [readName_eq small, ok_bind]
      cases found : Dns.readName msg Dns.headerLen with
      | none => rfl
      | some read =>
        obtain ⟨labels, pos⟩ := read
        rw [Dns.readName] at found
        have bound : pos ≤ msg.length := readNameLoop_bound _ _ _ _ _ _ _ (fun jump => by cases jump) found
        simp only [Option.map_some, add_ok (wide (pos + 4) (by omega)), ok_bind, Option.bind_eq_bind, Option.bind_some]
        split
        · rfl
        · rw [index_ok (by omega), ok_bind, add_ok (wide _ (by omega)), ok_bind, index_ok (by omega), ok_bind,
            add_ok (wide _ (by omega)), ok_bind, index_ok (by omega), ok_bind, add_ok (wide _ (by omega)), ok_bind,
            index_ok (by omega), ok_bind]
          rfl

end Reading

end ShadowVpn.Net.Guarded
