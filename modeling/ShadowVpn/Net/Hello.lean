import ShadowVpn.Net.Inspect

/-! ClientHello records and their prefixes: what `tls_sni` of `inspect.rs` reads of them. A record cut
inside or before its server_name extension yields nothing, and every longer prefix the host. -/

namespace ShadowVpn.Net.Hello
open ShadowVpn.Lib.Octets ShadowVpn.Lib.Text ShadowVpn.Lib.Panic ShadowVpn.Lib.Utf8 ShadowVpn.Net.Inspect

/-- A field behind its length in one byte, or in two. -/
def field8 (data : Bytes) : Bytes := BitVec.ofNat 8 data.length :: data
def field16 (data : Bytes) : Bytes := bytes16 (BitVec.ofNat 16 data.length) ++ data

structure Extension where
  kind : BitVec 16
  body : Bytes

def Extension.encode (extension : Extension) : Bytes := bytes16 extension.kind ++ field16 extension.body

def encodeAll (extensions : List Extension) : Bytes := extensions.flatMap Extension.encode

/-- A ClientHello with one server_name extension, whose first entry names a host. What the reader passes
over is any bytes of the right length. -/
structure ClientHello where
  recordHeader : Bytes
  handshakeLength : Bytes
  opening : Bytes
  sessionId : Bytes
  cipherSuites : Bytes
  compressionMethods : Bytes
  before : List Extension
  listLength : BitVec 16
  host : Chars
  otherEntries : Bytes
  after : List Extension

namespace ClientHello

/-- List length, name type `host_name`, the name behind its length, and further entries. -/
def serverName (hello : ClientHello) : Extension :=
  ⟨0, bytes16 hello.listLength ++ 0 :: (field16 (utf8 hello.host) ++ hello.otherEntries)⟩

def extensions (hello : ClientHello) : List Extension := hello.before ++ hello.serverName :: hello.after

/-- The handshake message up to the session id, then with each field in turn. -/
def opened (hello : ClientHello) : Bytes := 0x01 :: (hello.handshakeLength ++ hello.opening)
def identified (hello : ClientHello) : Bytes := hello.opened ++ field8 hello.sessionId
def offered (hello : ClientHello) : Bytes := hello.identified ++ field16 hello.cipherSuites
def compressed (hello : ClientHello) : Bytes := hello.offered ++ field8 hello.compressionMethods

/-- The handshake message up to the list of extensions. -/
def front (hello : ClientHello) : Bytes :=
  hello.compressed ++ bytes16 (BitVec.ofNat 16 (encodeAll hello.extensions).length)

def message (hello : ClientHello) : Bytes := hello.front ++ encodeAll hello.extensions

def encode (hello : ClientHello) : Bytes := 0x16 :: (hello.recordHeader ++ hello.message)

/-- The number of bytes up to the end of the server_name extension. -/
def serverNameEnd (hello : ClientHello) : Nat :=
  5 + (hello.front.length + (encodeAll hello.before).length + hello.serverName.encode.length)

/-- Every length fits its field, and there is one server_name extension. -/
structure WellFormed (hello : ClientHello) : Prop where
  recordHeader : hello.recordHeader.length = 4
  handshakeLength : hello.handshakeLength.length = 3
  opening : hello.opening.length = 34
  sessionId : hello.sessionId.length < 256
  cipherSuites : hello.cipherSuites.length < 65536
  compressionMethods : hello.compressionMethods.length < 256
  extensions : (encodeAll hello.extensions).length < 65536
  once : ∀ extension ∈ hello.before ++ hello.after, extension.kind ≠ 0

end ClientHello

theorem word16 (n : Nat) (small : n < 65536) : (BitVec.ofNat 16 n).toNat = n := by
  rw [BitVec.toNat_ofNat, Nat.mod_eq_of_lt small]

theorem word8 (n : Nat) (small : n < 256) : (BitVec.ofNat 8 n).toNat = n := by
  rw [BitVec.toNat_ofNat, Nat.mod_eq_of_lt small]

theorem encode_length (extension : Extension) : extension.encode.length = 4 + extension.body.length := by
  simp only [Extension.encode, field16, List.length_append, bytes16_length]
  omega

theorem encodeAll_cons (extension : Extension) (rest : List Extension) :
    encodeAll (extension :: rest) = extension.encode ++ encodeAll rest := List.flatMap_cons

section Prefix

variable (front middle back : Bytes) (m : Nat)

/-- A byte of a prefix is there if the prefix is long enough. -/
theorem get_prefix (b : Byte) {p : Nat} (here : p = front.length + middle.length) :
    ((front ++ (middle ++ b :: back)).take m)[p]? = if p < m then some b else none := by
  subst here
  rw [List.getElem?_take, List.getElem?_append_right (Nat.le_add_right _ _), Nat.add_sub_cancel_left,
    List.getElem?_append_right (Nat.le_refl _), Nat.sub_self, List.getElem?_cons_zero]

theorem index_prefix (b : Byte) {p : Nat} (here : p = front.length + middle.length) (inside : p < m) :
    index ((front ++ (middle ++ b :: back)).take m) p = .ok b := by
  rw [index, get_prefix front middle back m b here, if_pos inside]

theorem getRange_prefix (part : Bytes) {start stop : Nat} (here : start = front.length + middle.length)
    (same : stop = start + part.length) :
    getRange ((front ++ (middle ++ (part ++ back))).take m) start stop = if stop ≤ m then some part else none := by
  subst here same
  have length : ((front ++ (middle ++ (part ++ back))).take m).length =
      min m (front.length + (middle.length + (part.length + back.length))) := by
    simp only [List.length_take, List.length_append]
  have drop : (front ++ (middle ++ (part ++ back))).drop (front.length + middle.length) = part ++ back := by
    rw [← List.append_assoc, ← List.length_append, List.drop_left]
  by_cases inside : front.length + middle.length + part.length ≤ m
  · have room : front.length + middle.length ≤ front.length + middle.length + part.length ∧
        front.length + middle.length + part.length ≤
          ((front ++ (middle ++ (part ++ back))).take m).length := by omega
    rw [getRange, if_pos room, if_pos inside, List.drop_take, drop, Nat.add_sub_cancel_left, List.take_take,
      Nat.min_eq_left (by omega), List.take_left]
  · rw [getRange, if_neg (by omega), if_neg inside]

end Prefix

section Loop

/-- The reading of a server_name body, a part of the loop. -/
def entryHost (body : Bytes) : Checked (Option Chars) := do
  if body.length < 5 then return none
  if (← index body 2) ≠ 0 then return none
  let nameLen := (be16 (← index body 3) (← index body 4)).toNat
  let some name := getRange body 5 (← add 5 nameLen) | return none
  return fromUtf8 name

/-- One round on a prefix: an extension that is not all there ends the loop. -/
theorem sniLoop_round (front back : Bytes) (extension : Extension) (m rounds : Nat)
    (small : front.length + extension.encode.length < 2 ^ 63) (fits : extension.body.length < 65536) :
    sniLoop ((front ++ (extension.encode ++ back)).take m) ((front ++ (extension.encode ++ back)).take m).length
        (rounds + 1) front.length =
      if front.length + extension.encode.length ≤ m then
        if extension.kind = 0 then entryHost extension.body
        else sniLoop ((front ++ (extension.encode ++ back)).take m)
          ((front ++ (extension.encode ++ back)).take m).length rounds (front.length + extension.encode.length)
      else .ok none := by
  have size := encode_length extension
  have length : ((front ++ (extension.encode ++ back)).take m).length =
      min m (front.length + (extension.encode.length + back.length)) := by
    rw [List.length_take, List.length_append, List.length_append]
  have sum (i j : Nat) (near : i ≤ front.length + 4) (le : j ≤ 65535) : add i j = .ok (i + j) :=
    add_ok (wide (by omega))
  let k1 := extension.kind.extractLsb' 8 8
  let k0 := extension.kind.extractLsb' 0 8
  let l1 := (BitVec.ofNat 16 extension.body.length).extractLsb' 8 8
  let l0 := (BitVec.ofNat 16 extension.body.length).extractLsb' 0 8
  have shape : front ++ (extension.encode ++ back) = front ++ (k1 :: k0 :: l1 :: l0 :: (extension.body ++ back)) := rfl
  rw [shape] at length ⊢
  rw [sniLoop, sum _ 4 (by omega) (by decide), ok_bind]
  by_cases header : front.length + 4 ≤ m
  · have index0 : index ((front ++ (k1 :: k0 :: l1 :: l0 :: (extension.body ++ back))).take m) front.length = .ok k1 :=
      index_prefix front [] _ m k1 rfl (by omega)
    have index1 : index ((front ++ (k1 :: k0 :: l1 :: l0 :: (extension.body ++ back))).take m) (front.length + 1) =
        .ok k0 := index_prefix front [k1] _ m k0 rfl (by omega)
    have index2 : index ((front ++ (k1 :: k0 :: l1 :: l0 :: (extension.body ++ back))).take m) (front.length + 2) =
        .ok l1 := index_prefix front [k1, k0] _ m l1 rfl (by omega)
    have index3 : index ((front ++ (k1 :: k0 :: l1 :: l0 :: (extension.body ++ back))).take m) (front.length + 3) =
        .ok l0 := index_prefix front [k1, k0, l1] _ m l0 rfl (by omega)
    have range : getRange ((front ++ (k1 :: k0 :: l1 :: l0 :: (extension.body ++ back))).take m) (front.length + 4)
        (front.length + 4 + extension.body.length) =
          if front.length + 4 + extension.body.length ≤ m then some extension.body else none :=
      getRange_prefix front [k1, k0, l1, l0] back m extension.body rfl rfl
    have kind : be16 k1 k0 = extension.kind := be16_bytes16 extension.kind
    have elen : (be16 l1 l0).toNat = extension.body.length := by
      rw [show be16 l1 l0 = _ from be16_bytes16 _, word16 _ fits]
    rw [if_pos (by omega), index0, ok_bind, sum _ 1 (by omega) (by decide), ok_bind, index1, ok_bind,
      sum _ 2 (by omega) (by decide), ok_bind, index2, ok_bind, sum _ 3 (by omega) (by decide), ok_bind, index3, ok_bind]
    simp only [ok_bind, kind, elen, sum _ _ (Nat.le_refl (front.length + 4)) (Nat.le_of_lt_succ fits), range]
    by_cases whole : front.length + extension.encode.length ≤ m
    · have next : front.length + 4 + extension.body.length = front.length + extension.encode.length := by omega
      rw [if_pos whole, if_pos (by omega)]
      dsimp only
      by_cases name : extension.kind = 0
      · rw [if_pos name, if_pos name]
        rfl
      · rw [if_neg name, if_neg name, checkedAdd_ok (wide (by omega)), ← next]
        dsimp only
        rw [checkedAdd_ok (wide (by omega))]
    · rw [if_neg whole, if_neg (by omega)]
      rfl
  · rw [if_neg (by omega), if_neg (by omega)]
    rfl

/-- The name of the first entry, whatever list length precedes it and whatever entries follow. -/
theorem entryHost_serverName (hello : ClientHello) (fits : hello.serverName.body.length < 65536) :
    entryHost hello.serverName.body = .ok (some hello.host) := by
  let host := utf8 hello.host
  let l1 := (BitVec.ofNat 16 host.length).extractLsb' 8 8
  let l0 := (BitVec.ofNat 16 host.length).extractLsb' 0 8
  have shape : hello.serverName.body =
      bytes16 hello.listLength ++ ([0, l1, l0] ++ (host ++ hello.otherEntries)) := rfl
  have length : hello.serverName.body.length = 5 + (host.length + hello.otherEntries.length) := by
    rw [shape]
    simp only [List.length_append, List.length_cons, List.length_nil, bytes16_length]
    omega
  have taken : hello.serverName.body.take hello.serverName.body.length = hello.serverName.body := List.take_length
  have index2 : index hello.serverName.body 2 = .ok 0 := by
    rw [← taken, length, shape]
    exact index_prefix (bytes16 hello.listLength) [] _ _ 0 rfl (by omega)
  have index3 : index hello.serverName.body 3 = .ok l1 := by
    rw [← taken, length, shape]
    exact index_prefix (bytes16 hello.listLength) [0] _ _ l1 rfl (by omega)
  have index4 : index hello.serverName.body 4 = .ok l0 := by
    rw [← taken, length, shape]
    exact index_prefix (bytes16 hello.listLength) [0, l1] _ _ l0 rfl (by omega)
  have range : getRange hello.serverName.body 5 (5 + host.length) = some host := by
    have part := getRange_prefix (bytes16 hello.listLength) [0, l1, l0] hello.otherEntries
      (5 + (host.length + hello.otherEntries.length)) host rfl rfl
    rw [← taken, length, shape]
    exact part.trans (if_pos (by change 5 + host.length ≤ _; omega))
  have nameLen : (be16 l1 l0).toNat = host.length := by
    rw [show be16 l1 l0 = _ from be16_bytes16 _, word16 _ (by omega)]
  rw [entryHost, if_neg (by omega), index2, ok_bind, if_neg (by decide), index3, ok_bind, index4, ok_bind]
  simp only [nameLen, add_ok (wide (by omega : 5 + host.length < 2 ^ 63 + 2 ^ 20)), ok_bind, range, host, fromUtf8_utf8]
  rfl

/-- The loop from its first round on: extensions of other types are passed over. -/
theorem sniLoop_prefix (front back : Bytes) (before : List Extension) (hello : ClientHello) (m rounds : Nat)
    (small : front.length + (encodeAll before).length + hello.serverName.encode.length < 2 ^ 63)
    (fits : (encodeAll before).length + hello.serverName.encode.length < 65540)
    (others : ∀ extension ∈ before, extension.kind ≠ 0) (positive : 0 < rounds)
    (enough : min m (front.length + ((encodeAll before).length + (hello.serverName.encode.length + back.length))) <
      front.length + rounds) :
    sniLoop ((front ++ (encodeAll before ++ (hello.serverName.encode ++ back))).take m)
        ((front ++ (encodeAll before ++ (hello.serverName.encode ++ back))).take m).length rounds front.length =
      .ok (if front.length + (encodeAll before).length + hello.serverName.encode.length ≤ m then some hello.host
        else none) := by
  obtain ⟨more, rfl⟩ : ∃ more, rounds = more + 1 := ⟨rounds - 1, by omega⟩
  induction before generalizing front more with
  | nil =>
    have size := encode_length hello.serverName
    have empty : front.length + (encodeAll []).length = front.length := rfl
    have round := sniLoop_round front back hello.serverName m more (by omega) (by omega)
    rw [if_pos (show hello.serverName.kind = 0 from rfl), entryHost_serverName hello (by omega)] at round
    rw [empty]
    by_cases whole : front.length + hello.serverName.encode.length ≤ m
    · rw [if_pos whole] at round ⊢
      exact round
    · rw [if_neg whole] at round ⊢
      exact round
  | cons extension rest ih =>
    have size := encode_length extension
    have joined : (encodeAll (extension :: rest)).length = extension.encode.length + (encodeAll rest).length := by
      rw [encodeAll_cons, List.length_append]
    have round := sniLoop_round front (encodeAll rest ++ (hello.serverName.encode ++ back)) extension m more
      (by omega) (by omega)
    have length : (front ++ extension.encode).length = front.length + extension.encode.length := List.length_append
    rw [encodeAll_cons, List.append_assoc, round, List.length_append]
    by_cases whole : front.length + extension.encode.length ≤ m
    · obtain ⟨fewer, rfl⟩ : ∃ fewer, more = fewer + 1 := ⟨more - 1, by omega⟩
      have later := ih (front ++ extension.encode) (by omega) (by omega)
        (fun other member => others other (List.mem_cons_of_mem _ member)) fewer (by omega) (by omega)
      rw [List.append_assoc, length] at later
      rw [if_pos whole, if_neg (others extension List.mem_cons_self), later, Nat.add_assoc front.length]
    · rw [if_neg whole, if_neg (by omega)]

end Loop

section Message

variable {hello : ClientHello} (formed : hello.WellFormed)
include formed

theorem opened_length : hello.opened.length = 38 := by
  simp only [ClientHello.opened, List.length_cons, List.length_append, formed.handshakeLength, formed.opening]

theorem identified_length : hello.identified.length = 39 + hello.sessionId.length := by
  rw [ClientHello.identified, List.length_append, opened_length formed, field8, List.length_cons]
  omega

omit formed in
theorem offered_length : hello.offered.length = hello.identified.length + 2 + hello.cipherSuites.length := by
  simp only [ClientHello.offered, List.length_append, field16, bytes16_length, Nat.add_assoc]

omit formed in
theorem compressed_length :
    hello.compressed.length = hello.offered.length + 1 + hello.compressionMethods.length := by
  rw [ClientHello.compressed, List.length_append, field8, List.length_cons]
  omega

omit formed in
theorem front_length : hello.front.length = hello.compressed.length + 2 := by
  rw [ClientHello.front, List.length_append, bytes16_length]

/-- What the reader finds in a prefix of the message at the offsets it computes. -/
structure Reads (hello : ClientHello) (m : Nat) (s c1 c0 k e1 e0 : Byte) : Prop where
  kind : (hello.message.take m)[0]? = if 0 < m then some 0x01 else none
  sid : (hello.message.take m)[38]? = if 38 < m then some s else none
  suites1 : (hello.message.take m)[hello.identified.length]? = if hello.identified.length < m then some c1 else none
  suites0 : (hello.message.take m)[hello.identified.length + 1]? =
    if hello.identified.length + 1 < m then some c0 else none
  methods : (hello.message.take m)[hello.offered.length]? = if hello.offered.length < m then some k else none
  total1 : (hello.message.take m)[hello.compressed.length]? = if hello.compressed.length < m then some e1 else none
  total0 : (hello.message.take m)[hello.compressed.length + 1]? =
    if hello.compressed.length + 1 < m then some e0 else none
  sidNumber : s.toNat = hello.sessionId.length
  suitesNumber : (be16 c1 c0).toNat = hello.cipherSuites.length
  methodsNumber : k.toNat = hello.compressionMethods.length
  totalNumber : (be16 e1 e0).toNat = (encodeAll hello.extensions).length

theorem reads (m : Nat) : ∃ sid c1 c0 cm e1 e0, Reads hello m sid c1 c0 cm e1 e0 := by
  let sid := BitVec.ofNat 8 hello.sessionId.length
  let suites := BitVec.ofNat 16 hello.cipherSuites.length
  let c1 := suites.extractLsb' 8 8
  let c0 := suites.extractLsb' 0 8
  let cm := BitVec.ofNat 8 hello.compressionMethods.length
  let total := BitVec.ofNat 16 (encodeAll hello.extensions).length
  let e1 := total.extractLsb' 8 8
  let e0 := total.extractLsb' 0 8
  let rest3 := hello.compressionMethods ++ e1 :: e0 :: encodeAll hello.extensions
  let rest2 := hello.cipherSuites ++ cm :: rest3
  let rest1 := hello.sessionId ++ c1 :: c0 :: rest2
  have shape4 : hello.message = hello.compressed ++ e1 :: e0 :: encodeAll hello.extensions := by
    rw [ClientHello.message, ClientHello.front, List.append_assoc]
    rfl
  have shape3 : hello.message = hello.offered ++ cm :: rest3 := by
    rw [shape4, ClientHello.compressed, List.append_assoc]
    rfl
  have shape2 : hello.message = hello.identified ++ c1 :: c0 :: rest2 := by
    rw [shape3, ClientHello.offered, List.append_assoc]
    rfl
  have shape1 : hello.message = hello.opened ++ sid :: rest1 := by
    rw [shape2, ClientHello.identified, List.append_assoc]
    rfl
  refine ⟨sid, c1, c0, cm, e1, e0, ?_, ?_, ?_, ?_, ?_, ?_, ?_, ?_, ?_, ?_, ?_⟩
  · rw [shape1]
    exact get_prefix [] [] _ m 0x01 rfl
  · rw [shape1]
    exact get_prefix hello.opened [] rest1 m sid (opened_length formed).symm
  · rw [shape2]
    exact get_prefix hello.identified [] (c0 :: rest2) m c1 rfl
  · rw [shape2]
    exact get_prefix hello.identified [c1] rest2 m c0 rfl
  · rw [shape3]
    exact get_prefix hello.offered [] rest3 m cm rfl
  · rw [shape4]
    exact get_prefix hello.compressed [] (e0 :: encodeAll hello.extensions) m e1 rfl
  · rw [shape4]
    exact get_prefix hello.compressed [e1] (encodeAll hello.extensions) m e0 rfl
  · exact word8 _ formed.sessionId
  · rw [be16_bytes16 suites, word16 _ formed.cipherSuites]
  · exact word8 _ formed.compressionMethods
  · rw [be16_bytes16 total, word16 _ formed.extensions]

omit formed in
theorem message_shape :
    hello.front ++ (encodeAll hello.before ++ (hello.serverName.encode ++ encodeAll hello.after)) = hello.message := by
  simp only [ClientHello.message, ClientHello.extensions, encodeAll, List.flatMap_append, List.flatMap_cons]

theorem drop_header (n : Nat) : (hello.encode.take n).drop 5 = hello.message.take (n - 5) := by
  have whole : hello.encode.drop 5 = hello.message := by
    rw [ClientHello.encode, List.drop_succ_cons, ← formed.recordHeader, List.drop_left]
  rw [List.drop_take, whole]

theorem encode_take_length (n : Nat) : (hello.encode.take n).length = min n (5 + hello.message.length) := by
  simp only [ClientHello.encode, List.length_take, List.length_cons, List.length_append, formed.recordHeader]
  omega

end Message

theorem too_short {needed m : Nat} (host : Chars) (short : m < needed) :
    (.ok none : Checked (Option Chars)) = .ok (if needed ≤ m then some host else none) := by
  rw [if_neg (by omega)]

/-- For a record that carries a ClientHello, and every prefix of it: the host as soon as the server_name
extension is all there, and nothing before. -/
theorem tls_sni_of_prefix (hello : ClientHello) (formed : hello.WellFormed) (n : Nat) :
    tlsSni (hello.encode.take n) = .ok (if hello.serverNameEnd ≤ n then some hello.host else none) := by
  have finish : hello.serverNameEnd =
      5 + (hello.front.length + (encodeAll hello.before).length + hello.serverName.encode.length) := rfl
  have length := encode_take_length formed n
  have identifiedLen := identified_length formed
  have offeredLen := @offered_length hello
  have compressedLen := @compressed_length hello
  have frontLen := @front_length hello
  have messageLen : hello.message.length = hello.front.length + (encodeAll hello.extensions).length :=
    List.length_append
  have sid := formed.sessionId
  have suites := formed.cipherSuites
  have methods := formed.compressionMethods
  have total := formed.extensions
  have sum (p q : Nat) (near : p ≤ 2 ^ 20) (le : q ≤ 2 ^ 20) : checkedAdd p q = some (p + q) :=
    checkedAdd_ok (wide (by omega))
  have kind : (hello.encode.take n)[0]? = if 0 < n then some 0x16 else none := get_prefix [] [] _ n 0x16 rfl
  rw [tlsSni, kind]
  -- each cut before the extensions ends the reading at the first byte that is missing
  by_cases some0 : 0 < n
  swap
  · rw [if_neg some0]
    exact too_short hello.host (by omega)
  rw [if_pos some0]
  dsimp only
  rw [if_neg (by decide)]
  by_cases header : 5 ≤ n
  swap
  · rw [getFrom, if_neg (by omega)]
    exact too_short hello.host (by omega)
  rw [getFrom, if_pos (by omega), drop_header formed]
  generalize same : n - 5 = m at *
  obtain ⟨sidByte, c1, c0, cm, e1, e0, read⟩ := @reads hello formed m
  dsimp only
  rw [read.kind]
  by_cases some1 : 0 < m
  swap
  · rw [if_neg some1]
    exact too_short hello.host (by omega)
  rw [if_pos some1]
  dsimp only
  rw [if_neg (by decide), sum 4 2 (by decide) (by decide)]
  dsimp only
  rw [sum (4 + 2) 32 (by decide) (by decide)]
  dsimp only
  rw [read.sid]
  by_cases someSid : 38 < m
  swap
  · rw [if_neg someSid]
    exact too_short hello.host (by omega)
  have at2 : 4 + 2 + 32 + 1 + hello.sessionId.length = hello.identified.length := by omega
  rw [if_pos someSid]
  dsimp only
  rw [sum (4 + 2 + 32) 1 (by decide) (by decide)]
  dsimp only
  rw [read.sidNumber, sum (4 + 2 + 32 + 1) _ (by decide) (by omega), at2]
  dsimp only
  rw [read.suites1]
  by_cases someSuites1 : hello.identified.length < m
  swap
  · rw [if_neg someSuites1]
    exact too_short hello.host (by omega)
  rw [if_pos someSuites1]
  dsimp only
  rw [add_ok (wide (by omega)), ok_bind, read.suites0]
  by_cases someSuites0 : hello.identified.length + 1 < m
  swap
  · rw [if_neg someSuites0]
    exact too_short hello.host (by omega)
  rw [if_pos someSuites0]
  dsimp only
  rw [sum hello.identified.length 2 (by omega) (by decide)]
  dsimp only
  rw [read.suitesNumber, sum (hello.identified.length + 2) _ (by omega) (by omega), ← offeredLen]
  dsimp only
  rw [read.methods]
  by_cases someMethods : hello.offered.length < m
  swap
  · rw [if_neg someMethods]
    exact too_short hello.host (by omega)
  rw [if_pos someMethods]
  dsimp only
  rw [sum hello.offered.length 1 (by omega) (by decide)]
  dsimp only
  rw [read.methodsNumber, sum (hello.offered.length + 1) _ (by omega) (by omega), ← compressedLen]
  dsimp only
  rw [read.total1]
  by_cases someTotal1 : hello.compressed.length < m
  swap
  · rw [if_neg someTotal1]
    exact too_short hello.host (by omega)
  rw [if_pos someTotal1]
  dsimp only
  rw [add_ok (wide (by omega)), ok_bind, read.total0]
  by_cases someTotal0 : hello.compressed.length + 1 < m
  swap
  · rw [if_neg someTotal0]
    exact too_short hello.host (by omega)
  rw [if_pos someTotal0]
  dsimp only
  rw [sum hello.compressed.length 2 (by omega) (by decide)]
  dsimp only
  rw [read.totalNumber, sum (hello.compressed.length + 2) _ (by omega) (by omega), ← frontLen, ← messageLen]
  dsimp only
  have cut : (hello.message.take m).length = min m hello.message.length := List.length_take
  have parts : (encodeAll hello.extensions).length = (encodeAll hello.before).length +
      (hello.serverName.encode.length + (encodeAll hello.after).length) := by
    simp only [ClientHello.extensions, encodeAll, List.flatMap_append, List.flatMap_cons, List.length_append]
  have others : ∀ extension ∈ hello.before, extension.kind ≠ 0 :=
    fun extension member => formed.once extension (List.mem_append_left _ member)
  have loop := sniLoop_prefix hello.front (encodeAll hello.after) hello.before hello m
    ((hello.message.take m).length + 1) (by omega) (by omega) others (Nat.succ_pos _) (by omega)
  rw [message_shape] at loop
  rw [Nat.min_eq_right (by omega), loop]
  by_cases whole : hello.serverNameEnd ≤ n
  · rw [if_pos whole, if_pos (by omega)]
  · rw [if_neg whole, if_neg (by omega)]

/-- A ClientHello with one cipher suite, a session ticket extension and the host `a.com`. -/
def sampleHello : ClientHello where
  recordHeader := [3, 1, 0, 64]
  handshakeLength := [0, 0, 60]
  opening := List.replicate 34 3
  sessionId := []
  cipherSuites := [0x13, 0x01]
  compressionMethods := [0]
  before := [⟨35, []⟩]
  listLength := 8
  host := ['a', '.', 'c', 'o', 'm']
  otherEntries := []
  after := []

theorem sampleHello_formed : sampleHello.WellFormed :=
  ⟨rfl, rfl, rfl, by decide, by decide, by decide, by decide, by decide⟩

theorem tls_sni_of_sample_prefix : tlsSni (sampleHello.encode.take 66) =
    .ok (if sampleHello.serverNameEnd ≤ 66 then some sampleHello.host else none) :=
  tls_sni_of_prefix sampleHello sampleHello_formed 66

end ShadowVpn.Net.Hello
