import ShadowVpn.Net.Dns

/-! Well-formed DNS messages as they travel, and the addresses that `vendor/dns.rs` finds in one:
those of the address records of its answer section. -/

namespace ShadowVpn.Net.Messages
open ShadowVpn.Lib.Octets ShadowVpn.Net.Ipv4 ShadowVpn.Net.Dns

/-- A label of a name: 1 to 63 bytes. -/
structure Label where
  bytes : Bytes
  present : bytes ≠ []
  short : bytes.length < 64

/-- The end of a name: the root, or a pointer to where the name goes on. -/
inductive Ending where
  | root
  | pointer (offset : BitVec 14)

structure Name where
  labels : List Label
  ending : Ending

structure Question where
  name : Name
  qtype : BitVec 16
  qclass : BitVec 16

structure Record where
  name : Name
  rtype : BitVec 16
  rclass : BitVec 16
  ttl : BitVec 32
  rdata : Bytes
  short : rdata.length < 65536

/-- `rest` holds the authority and the additional records. -/
structure Message where
  id : BitVec 16
  flags : BitVec 16
  questions : List Question
  answers : List Record
  authority : BitVec 16
  additional : BitVec 16
  rest : Bytes
  fewQuestions : questions.length < 65536
  fewAnswers : answers.length < 65536

def Label.encode (label : Label) : Bytes := BitVec.ofNat 8 label.bytes.length :: label.bytes

def Ending.encode : Ending → Bytes
  | .root => [0]
  | .pointer offset => [0b11#2 ++ offset.extractLsb' 8 6, offset.extractLsb' 0 8]

def Name.encode (name : Name) : Bytes := name.labels.flatMap Label.encode ++ name.ending.encode

def Question.encode (q : Question) : Bytes := q.name.encode ++ (bytes16 q.qtype ++ bytes16 q.qclass)

/-- Type, class, time to live and the length of the data. -/
def Record.fixed (r : Record) : Bytes :=
  bytes16 r.rtype ++ (bytes16 r.rclass ++ (bytes16 (r.ttl.extractLsb' 16 16) ++
    (bytes16 (r.ttl.extractLsb' 0 16) ++ bytes16 (BitVec.ofNat 16 r.rdata.length))))

def Record.encode (r : Record) : Bytes := r.name.encode ++ (r.fixed ++ r.rdata)

def Message.header (m : Message) : Bytes :=
  bytes16 m.id ++ (bytes16 m.flags ++ (bytes16 (BitVec.ofNat 16 m.questions.length) ++
    (bytes16 (BitVec.ofNat 16 m.answers.length) ++ (bytes16 m.authority ++ bytes16 m.additional))))

def Message.encode (m : Message) : Bytes :=
  m.header ++ (m.questions.flatMap Question.encode ++ (m.answers.flatMap Record.encode ++ m.rest))

/-- The address in a record of type A and class IN with four bytes of data. -/
def Record.address (r : Record) : Option Ipv4Addr :=
  if r.rtype = typeA ∧ r.rclass = classIn then
    match r.rdata with
    | [a, b, c, d] => some (ofOctets a b c d)
    | _ => none
  else none

section Reading

variable {msg rest : Bytes} {pos : Nat}

theorem drop_past {front : Bytes} (here : msg.drop pos = front ++ rest) :
    msg.drop (pos + front.length) = rest := by
  rw [← List.drop_drop, here, List.drop_left]

theorem drop_next {b : Byte} (here : msg.drop pos = b :: rest) : msg.drop (pos + 1) = rest := by
  rw [← List.drop_drop, here, List.drop_one, List.tail_cons]

theorem byteAt_here {b : Byte} (here : msg.drop pos = b :: rest) : pos < msg.length ∧ byteAt msg pos = b := by
  have inside : pos < msg.length := by
    have length := congrArg List.length here
    rw [List.length_drop, List.length_cons] at length
    omega
  refine ⟨inside, ?_⟩
  rw [List.drop_eq_getElem_cons inside] at here
  rw [byteAt, List.getD_eq_getElem?_getD, List.getElem?_eq_getElem inside, Option.getD_some]
  exact (List.cons.inj here).1

theorem room_here {front : Bytes} (here : msg.drop pos = front ++ rest) (present : front ≠ []) :
    pos + front.length ≤ msg.length := by
  have length := congrArg List.length here
  have some := List.length_pos_of_ne_nil present
  rw [List.length_drop, List.length_append] at length
  omega

theorem be16At_here {word : BitVec 16} (here : msg.drop pos = bytes16 word ++ rest) :
    be16At msg pos = word := by
  rw [be16At, (byteAt_here here).2, (byteAt_here (drop_next here)).2, be16_bytes16]

theorem skipName_label {label : Label} (here : msg.drop pos = label.encode ++ rest) :
    skipName msg pos = skipName msg (pos + label.encode.length) := by
  obtain ⟨inside, first⟩ := byteAt_here here
  have plain : ∀ n : Fin 64, BitVec.ofNat 8 n.val &&& 0xC0#8 = 0#8 := by decide
  have kind : byteAt msg pos &&& 0xC0 = 0x00 := first.symm ▸ plain ⟨_, label.short⟩
  have value : (byteAt msg pos).toNat = label.bytes.length := by
    have short := label.short
    rw [first, BitVec.toNat_ofNat, Nat.mod_eq_of_lt (by omega)]
  have length : byteAt msg pos ≠ 0 := by
    intro zero
    have none : label.bytes.length = 0 := value.symm.trans (congrArg BitVec.toNat zero)
    exact label.present (List.length_eq_zero_iff.mp none)
  rw [skipName_eq, if_neg (Nat.not_le.mpr inside), if_pos kind, if_neg length, value, Label.encode,
    List.length_cons, Nat.add_assoc, Nat.add_comm 1]

theorem skipName_ending {ending : Ending} (here : msg.drop pos = ending.encode ++ rest) :
    skipName msg pos = some (pos + ending.encode.length) := by
  obtain ⟨inside, first⟩ : pos < msg.length ∧ byteAt msg pos = byteAt ending.encode 0 := by
    cases ending with
    | root | pointer => exact byteAt_here here
  rw [skipName_eq, if_neg (Nat.not_le.mpr inside)]
  cases ending with
  | root =>
    have zero : byteAt msg pos = 0 := first
    have kind : byteAt msg pos &&& 0xC0 = 0x00 := by rw [zero]; rfl
    rw [if_pos kind, if_pos zero]
    rfl
  | pointer offset =>
    have marked : ∀ high : BitVec 6, (0b11#2 ++ high) &&& 0xC0#8 = 0xC0#8 := by decide
    have kind : byteAt msg pos &&& 0xC0 = 0xC0 := first.symm ▸ marked _
    have plain : byteAt msg pos &&& 0xC0 ≠ 0x00 := by
      rw [kind]
      decide
    have room : pos + 1 < msg.length := room_here here (List.cons_ne_nil _ _)
    rw [if_neg plain, if_pos kind, if_pos room]
    rfl

/-- A name is skipped as a whole, by induction on its labels. -/
theorem skipName_name {name : Name} (here : msg.drop pos = name.encode ++ rest) :
    skipName msg pos = some (pos + name.encode.length) := by
  have labels : ∀ (labels : List Label) (pos : Nat),
      msg.drop pos = labels.flatMap Label.encode ++ (name.ending.encode ++ rest) →
      skipName msg pos = some (pos + (labels.flatMap Label.encode ++ name.ending.encode).length) := by
    intro labels
    induction labels with
    | nil =>
      intro pos here
      exact skipName_ending here
    | cons label labels ih =>
      intro pos here
      rw [List.flatMap_cons, List.append_assoc] at here
      rw [skipName_label here, ih _ (drop_past here), List.flatMap_cons, List.append_assoc, Nat.add_assoc,
        ← List.length_append]
  exact labels name.labels pos (by rw [here, Name.encode, List.append_assoc])

end Reading

end ShadowVpn.Net.Messages
