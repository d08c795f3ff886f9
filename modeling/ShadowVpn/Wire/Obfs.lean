import ShadowVpn.Lib.Octets
import Mathlib.Data.Nat.Bitwise

/-! Carrier obfuscation of `obfs.rs`: the QUIC short-header prefix and the base64 text. -/

namespace ShadowVpn.Wire.Obfs
open ShadowVpn.Lib.Octets

def pnLen : Nat := 2

/-- `1 + max DCID + max PN`. -/
def maxHeader : Nat := 1 + 20 + 4

structure QuicObfs where
  dcid : Bytes
  dcidLen : Nat
  cached : dcid.length = dcidLen
  pn : BitVec 32

/-- `u32::to_be_bytes`. -/
def bytes32 (word : BitVec 32) : Bytes :=
  [word.extractLsb' 24 8, word.extractLsb' 16 8, word.extractLsb' 8 8, word.extractLsb' 0 8]

namespace QuicObfs

/-- The first byte: form bits, random middle bits and the packet-number length. -/
def firstByte (pnLen : Nat) (random : Byte) : Byte :=
  0x40#8 ||| (random &&& 0x3C#8) ||| (BitVec.ofNat 8 (pnLen - 1) &&& 0x03#8)

/-- `wrap` with a packet number of `pnLen` bytes; the counter moves on with every packet. -/
def wrapWith (pnLen : Nat) (quic : QuicObfs) (random : Byte) (datagram : Bytes) : Bytes × QuicObfs :=
  (firstByte pnLen random :: (quic.dcid ++ (bytes32 quic.pn).drop (4 - pnLen) ++ datagram),
    { quic with pn := quic.pn + 1 })

def unwrap (quic : QuicObfs) (pkt : Bytes) : Option Bytes := do
  let first ← pkt.head?
  if first &&& 0x80#8 ≠ 0 ∨ first &&& 0x40#8 = 0 then none
  else
    let pnLen := (first &&& 0x03#8).toNat + 1
    let hdr := 1 + quic.dcidLen + pnLen
    if pkt.length < hdr then none else some (pkt.drop hdr)

end QuicObfs

/-- The standard alphabet. -/
def b64 : Bytes :=
  "ABCDEFGHIJKLMNOPQRSTUVWXYZabcdefghijklmnopqrstuvwxyz0123456789+/".toList.map fun c =>
    BitVec.ofNat 8 c.toNat

/-- The reverse table, filled in the order of the alphabet; 0xFF marks an invalid byte. -/
def b64Rev : Bytes :=
  (List.range 64).foldl (fun table i => table.set (byteAt b64 i).toNat (BitVec.ofNat 8 i))
    (List.replicate 256 0xFF)

/-- The byte `'='`. -/
def pad : Byte := 61

/-- The 24-bit group of up to three bytes, missing ones counting as zero. -/
def group (a b c : Byte) : BitVec 32 :=
  a.setWidth 32 <<< 16 ||| b.setWidth 32 <<< 8 ||| c.setWidth 32

def symbol (n : BitVec 32) (shift : Nat) : Byte := byteAt b64 ((n >>> shift) &&& 63).toNat

def base64Encode : Bytes → Bytes
  | [] => []
  | [a] => [symbol (group a 0 0) 18, symbol (group a 0 0) 12, pad, pad]
  | [a, b] => [symbol (group a b 0) 18, symbol (group a b 0) 12, symbol (group a b 0) 6, pad]
  | a :: b :: c :: rest =>
    symbol (group a b c) 18 :: symbol (group a b c) 12 :: symbol (group a b c) 6 ::
      symbol (group a b c) 0 :: base64Encode rest

/-- The decoding loop; `out` is kept in reverse. -/
def decodeLoop : Bytes → (buf : BitVec 32) → (bits : Nat) → (out : Bytes) → Option Bytes
  | [], _, _, out => some out.reverse
  | c :: rest, buf, bits, out =>
    if c = pad then some out.reverse
    else
      let v := byteAt b64Rev c.toNat
      if v = 0xFF then none
      else
        let buf := buf <<< 6 ||| v.setWidth 32
        let bits := bits + 6
        if 8 ≤ bits then decodeLoop rest buf (bits - 8) ((buf >>> (bits - 8)).setWidth 8 :: out)
        else decodeLoop rest buf bits out

def base64Decode (input : Bytes) : Option Bytes := decodeLoop input 0 0 []

inductive Obfuscator where
  | quic (quic : QuicObfs)
  | base64

namespace Obfuscator

/-- `wrap` with the packet-number length of the sender. -/
def wrapWith (pnLen : Nat) : Obfuscator → (random : Byte) → (datagram : Bytes) → Bytes × Obfuscator
  | quic q, random, datagram =>
    let (wire, q) := q.wrapWith pnLen random datagram
    (wire, quic q)
  | base64, _, datagram => (base64Encode datagram, base64)

def unwrap : Obfuscator → Bytes → Option Bytes
  | quic q, pkt => q.unwrap pkt
  | base64, pkt => base64Decode pkt

end Obfuscator

/-- `match obfuscator`: wrap when there is one; its counter moves on. -/
def frameWith (pnLen : Nat) (obfuscator : Option Obfuscator) (random : Byte) (datagram : Bytes) :
    Bytes × Option Obfuscator :=
  match obfuscator with
  | some o => ((o.wrapWith pnLen random datagram).1, some (o.wrapWith pnLen random datagram).2)
  | none => (datagram, none)

def frame (obfuscator : Option Obfuscator) (random : Byte) (datagram : Bytes) :
    Bytes × Option Obfuscator :=
  frameWith pnLen obfuscator random datagram

def unframe (obfuscator : Option Obfuscator) (received : Bytes) : Option Bytes :=
  match obfuscator with
  | some o => o.unwrap received
  | none => some received

theorem firstByte_fields : ∀ (random : Byte) (k : Fin 4),
    QuicObfs.firstByte (k.val + 1) random &&& 0x80#8 = 0 ∧
      QuicObfs.firstByte (k.val + 1) random &&& 0x40#8 ≠ 0 ∧
      (QuicObfs.firstByte (k.val + 1) random &&& 0x03#8).toNat = k.val := by
  decide +kernel

/-- The prefix is stripped whatever it holds, as long as both ends agree on its length. -/
theorem QuicObfs.unwrap_wrapWith (sender receiver : QuicObfs) (pnLen : Nat) (random : Byte)
    (datagram : Bytes) (agree : sender.dcidLen = receiver.dcidLen) (low : 1 ≤ pnLen) (high : pnLen ≤ 4) :
    receiver.unwrap (sender.wrapWith pnLen random datagram).1 = some datagram := by
  obtain ⟨form, fixed, number⟩ := firstByte_fields random ⟨pnLen - 1, by omega⟩
  simp only [Nat.sub_add_cancel low] at form fixed number
  have header : (sender.dcid ++ (bytes32 sender.pn).drop (4 - pnLen)).length =
      receiver.dcidLen + pnLen := by
    rw [List.length_append, sender.cached, agree, List.length_drop]
    simp only [bytes32, List.length_cons, List.length_nil]
    omega
  have hdr : 1 + receiver.dcidLen + ((firstByte pnLen random &&& 0x03#8).toNat + 1) =
      (sender.dcid ++ (bytes32 sender.pn).drop (4 - pnLen)).length + 1 := by
    omega
  have keep : ¬(firstByte pnLen random &&& 0x80#8 ≠ 0 ∨ firstByte pnLen random &&& 0x40#8 = 0) := by
    intro drop
    rcases drop with long | unset
    · exact long form
    · exact fixed unset
  simp only [unwrap, wrapWith, List.head?_cons, Option.bind_eq_bind, Option.bind_some, if_neg keep, hdr]
  rw [if_neg (by simp only [List.length_cons, List.length_append]; omega),
    List.drop_succ_cons, List.drop_left]

theorem group_toNat (a b c : Byte) : (group a b c).toNat = a.toNat * 65536 + b.toNat * 256 + c.toNat := by
  have boundA := a.isLt
  have boundB := b.isLt
  have boundC := c.isLt
  have upper : a.toNat <<< 16 ||| b.toNat <<< 8 = (a.toNat * 256 + b.toNat) <<< 8 := by
    rw [← Nat.shiftLeft_add_eq_or_of_lt (show b.toNat <<< 8 < 2 ^ 16 by
      rw [Nat.shiftLeft_eq]; omega)]
    simp only [Nat.shiftLeft_eq]
    omega
  simp only [group, BitVec.toNat_or, BitVec.toNat_shiftLeft, BitVec.toNat_setWidth]
  rw [Nat.mod_eq_of_lt (show a.toNat < 2 ^ 32 by omega), Nat.mod_eq_of_lt (show b.toNat < 2 ^ 32 by omega),
    Nat.mod_eq_of_lt (show c.toNat < 2 ^ 32 by omega),
    Nat.mod_eq_of_lt (show a.toNat <<< 16 < 2 ^ 32 by rw [Nat.shiftLeft_eq]; omega),
    Nat.mod_eq_of_lt (show b.toNat <<< 8 < 2 ^ 32 by rw [Nat.shiftLeft_eq]; omega), upper,
    ← Nat.shiftLeft_add_eq_or_of_lt (show c.toNat < 2 ^ 8 by omega), Nat.shiftLeft_eq]
  omega

theorem b64_table : ∀ v : Fin 64, byteAt b64 v.val ≠ pad ∧
    byteAt b64Rev (byteAt b64 v.val).toNat = BitVec.ofNat 8 v.val := by
  decide +kernel

/-- The six bits a symbol stands for. -/
def sextet (n : BitVec 32) (shift : Nat) : Nat := n.toNat / 2 ^ shift % 64

/-- A symbol is not the padding and is looked up as the sextet it was made from. -/
theorem symbol_value (n : BitVec 32) (shift : Nat) : symbol n shift ≠ pad ∧
    byteAt b64Rev (symbol n shift).toNat = BitVec.ofNat 8 (sextet n shift) := by
  have index : ((n >>> shift) &&& 63).toNat = sextet n shift := by
    rw [BitVec.toNat_and, BitVec.toNat_ushiftRight, Nat.shiftRight_eq_div_pow]
    exact Nat.and_two_pow_sub_one_eq_mod (n.toNat / 2 ^ shift) 6
  have small : sextet n shift < 64 := Nat.mod_lt _ (by decide)
  rw [symbol, index]
  exact b64_table ⟨sextet n shift, small⟩

/-- Six more bits in the accumulator. -/
def feed (buf : BitVec 32) (v : Nat) : BitVec 32 := buf <<< 6 ||| (BitVec.ofNat 8 v).setWidth 32

theorem feed_toNat (buf : BitVec 32) (v : Nat) (small : v < 64) :
    (feed buf v).toNat = (buf.toNat * 64 + v) % 2 ^ 32 := by
  have low : ((BitVec.ofNat 8 v).setWidth 32).toNat = v := by
    rw [BitVec.toNat_setWidth, BitVec.toNat_ofNat]
    omega
  have room : buf.toNat <<< 6 % 2 ^ 32 = (buf.toNat % 2 ^ 26) <<< 6 := by
    simp only [Nat.shiftLeft_eq]
    omega
  rw [feed, BitVec.toNat_or, BitVec.toNat_shiftLeft, low, room,
    ← Nat.shiftLeft_add_eq_or_of_lt (show v < 2 ^ 6 by omega), Nat.shiftLeft_eq]
  omega

theorem sextet_lt (n : BitVec 32) (shift : Nat) : sextet n shift < 64 := Nat.mod_lt _ (by decide)

theorem decodeLoop_pad (rest : Bytes) (buf : BitVec 32) (bits : Nat) (out : Bytes) :
    decodeLoop (pad :: rest) buf bits out = some out.reverse := by
  rw [decodeLoop, if_pos rfl]

theorem decodeLoop_symbol (n : BitVec 32) (shift : Nat) (rest : Bytes) (buf : BitVec 32) (bits : Nat)
    (out : Bytes) :
    decodeLoop (symbol n shift :: rest) buf bits out =
      if 8 ≤ bits + 6 then
        decodeLoop rest (feed buf (sextet n shift)) (bits + 6 - 8)
          ((feed buf (sextet n shift) >>> (bits + 6 - 8)).setWidth 8 :: out)
      else decodeLoop rest (feed buf (sextet n shift)) (bits + 6) out := by
  obtain ⟨plain, value⟩ := symbol_value n shift
  have valid : BitVec.ofNat 8 (sextet n shift) ≠ 0xFF := by
    intro same
    have number := congrArg BitVec.toNat same
    have small := sextet_lt n shift
    rw [BitVec.toNat_ofNat] at number
    change sextet n shift % 256 = 255 at number
    omega
  simp only [decodeLoop, if_neg plain, value, if_neg valid]
  rfl

/-- The byte that leaves the accumulator once two sextets hold all of it. -/
theorem feed_byte (b : Byte) (buf : BitVec 32) (v k : Nat) (small : v < 64) (le : k ≤ 4)
    (value : (buf.toNat * 64 + v) / 2 ^ k % 256 = b.toNat) :
    (feed buf v >>> k).setWidth 8 = b := by
  apply BitVec.eq_of_toNat_eq
  rw [BitVec.toNat_setWidth, BitVec.toNat_ushiftRight, feed_toNat buf v small,
    Nat.shiftRight_eq_div_pow, ← value]
  have cases : k = 0 ∨ k = 1 ∨ k = 2 ∨ k = 3 ∨ k = 4 := by omega
  rcases cases with rfl | rfl | rfl | rfl | rfl <;> omega

section Chunk

variable (a b c : Byte) (buf : BitVec 32)

theorem first_byte :
    (feed (feed buf (sextet (group a b c) 18)) (sextet (group a b c) 12) >>> 4).setWidth 8 = a := by
  have boundA := a.isLt
  have boundB := b.isLt
  have boundC := c.isLt
  apply feed_byte a _ _ 4 (sextet_lt _ _) (by decide)
  rw [feed_toNat _ _ (sextet_lt _ _)]
  simp only [sextet, group_toNat]
  omega

theorem second_byte :
    (feed (feed buf (sextet (group a b c) 12)) (sextet (group a b c) 6) >>> 2).setWidth 8 = b := by
  have boundA := a.isLt
  have boundB := b.isLt
  have boundC := c.isLt
  apply feed_byte b _ _ 2 (sextet_lt _ _) (by decide)
  rw [feed_toNat _ _ (sextet_lt _ _)]
  simp only [sextet, group_toNat]
  omega

theorem third_byte :
    (feed (feed buf (sextet (group a b c) 6)) (sextet (group a b c) 0) >>> 0).setWidth 8 = c := by
  have boundA := a.isLt
  have boundB := b.isLt
  have boundC := c.isLt
  apply feed_byte c _ _ 0 (sextet_lt _ _) (by decide)
  rw [feed_toNat _ _ (sextet_lt _ _)]
  simp only [sextet, group_toNat]
  omega

end Chunk

/-- From any accumulator without pending bits, the text of `data` is read as `data`. -/
theorem decodeLoop_encode (data : Bytes) (buf : BitVec 32) (out : Bytes) :
    decodeLoop (base64Encode data) buf 0 out = some (out.reverse ++ data) := by
  induction data using base64Encode.induct generalizing buf out with
  | case1 => simp [base64Encode, decodeLoop]
  | case2 a =>
    simp only [base64Encode, decodeLoop_symbol, decodeLoop_pad, Nat.reduceAdd, Nat.reduceLeDiff,
      Nat.reduceSub, if_true, if_false, first_byte, List.reverse_cons]
  | case3 a b =>
    simp only [base64Encode, decodeLoop_symbol, decodeLoop_pad, Nat.reduceAdd, Nat.reduceLeDiff,
      Nat.reduceSub, if_true, if_false, first_byte, second_byte, List.reverse_cons,
      List.append_assoc, List.cons_append, List.nil_append]
  | case4 a b c rest ih =>
    simp only [base64Encode, decodeLoop_symbol, Nat.reduceAdd, Nat.reduceLeDiff,
      Nat.reduceSub, if_true, if_false, first_byte, second_byte, third_byte]
    rw [ih]
    simp

/-- Decoding inverts encoding, for every length modulo three. -/
theorem base64_round_trip (data : Bytes) : base64Decode (base64Encode data) = some data :=
  decodeLoop_encode data 0 []

/-- Both ends of a carrier select the same framing. -/
def Shared : Option Obfuscator → Option Obfuscator → Prop
  | none, none => True
  | some .base64, some .base64 => True
  | some (.quic sender), some (.quic receiver) => sender.dcidLen = receiver.dcidLen
  | _, _ => False

/-- The framing of one peer is undone by the other. -/
theorem unframe_frameWith (one two : Option Obfuscator) (shared : Shared one two) (pnLen : Nat)
    (low : 1 ≤ pnLen) (high : pnLen ≤ 4) (random : Byte) (datagram : Bytes) :
    unframe two (frameWith pnLen one random datagram).1 = some datagram := by
  cases one with
  | none =>
    cases two with
    | none => rfl
    | some receiver => exact absurd shared (by cases receiver <;> exact id)
  | some sender =>
    cases two with
    | none => exact absurd shared (by cases sender <;> exact id)
    | some receiver =>
      cases sender with
      | base64 =>
        cases receiver with
        | base64 => exact base64_round_trip datagram
        | quic receiver => exact absurd shared id
      | quic sender =>
        cases receiver with
        | base64 => exact absurd shared id
        | quic receiver => exact sender.unwrap_wrapWith receiver pnLen random datagram shared low high

end ShadowVpn.Wire.Obfs
