import ShadowVpn.Lib.Walk
import ShadowVpn.Net.Guarded
import ShadowVpn.Net.Messages

/-! Names in a DNS message as the wire format defines them, with pointers to where a name goes on,
and the reader of `vendor/dns.rs`, whose budget is the length of the message. -/

namespace ShadowVpn.Net.Names
open ShadowVpn.Lib.Octets ShadowVpn.Lib.Text ShadowVpn.Lib.Panic ShadowVpn.Lib.Utf8 ShadowVpn.Lib.Walk
open ShadowVpn.Net.Dns ShadowVpn.Net.Guarded

/-- The offset in a pointer at the given place. -/
def target (msg : Bytes) (pos : Nat) : Nat :=
  (byteAt msg pos &&& 0x3F).toNat * 256 + (byteAt msg (pos + 1)).toNat

/-- At the given place of the message stands a name with these labels. -/
inductive Named (msg : Bytes) : Nat → List Bytes → Prop
  | root {pos : Nat} (inside : pos < msg.length) (zero : byteAt msg pos = 0) : Named msg pos []
  | label {pos : Nat} {labels : List Bytes} (inside : pos < msg.length)
      (plain : byteAt msg pos &&& 0xC0 = 0x00) (filled : byteAt msg pos ≠ 0)
      (room : pos + 1 + (byteAt msg pos).toNat ≤ msg.length)
      (rest : Named msg (pos + 1 + (byteAt msg pos).toNat) labels) :
      Named msg pos ((msg.drop (pos + 1)).take (byteAt msg pos).toNat :: labels)
  | pointer {pos : Nat} {labels : List Bytes} (inside : pos + 1 < msg.length)
      (marked : byteAt msg pos &&& 0xC0 = 0xC0) (rest : Named msg (target msg pos) labels) :
      Named msg pos labels

/-- Where a name goes on. -/
def onward (msg : Bytes) (pos : Nat) : Option Nat :=
  if byteAt msg pos &&& 0xC0 = 0x00 then
    if byteAt msg pos = 0 then none else some (pos + 1 + (byteAt msg pos).toNat)
  else some (target msg pos)

section Reading

variable {msg : Bytes}

theorem marked_not_plain {b : Byte} (marked : b &&& 0xC0 = 0xC0) : ¬b &&& 0xC0 = 0x00 := by
  rw [marked]
  decide

theorem zero_plain {b : Byte} (zero : b = 0) : b &&& 0xC0 = 0x00 := by
  rw [zero]
  rfl

theorem Named.inside {pos : Nat} {labels : List Bytes} (named : Named msg pos labels) : pos < msg.length := by
  cases named with
  | root inside | label inside => exact inside
  | pointer inside => omega

theorem onward_root {pos : Nat} (zero : byteAt msg pos = 0) : onward msg pos = none := by
  simp only [onward, if_pos (zero_plain zero), if_pos zero]

theorem onward_label {pos : Nat} (plain : byteAt msg pos &&& 0xC0 = 0x00) (filled : byteAt msg pos ≠ 0) :
    onward msg pos = some (pos + 1 + (byteAt msg pos).toNat) := by
  simp only [onward, if_pos plain, if_neg filled]

theorem onward_pointer {pos : Nat} (marked : byteAt msg pos &&& 0xC0 = 0xC0) :
    onward msg pos = some (target msg pos) :=
  if_neg (marked_not_plain marked)

/-- A name is a walk that ends, inside the message all the way. -/
theorem Named.walk {pos : Nat} {labels : List Bytes} (named : Named msg pos labels) :
    ∃ n, EndsIn (onward msg) n pos ∧ ∀ place ∈ places (onward msg) n pos, place < msg.length := by
  induction named with
  | root inside zero =>
    refine ⟨0, .stop (onward_root zero), ?_⟩
    intro place visited
    rw [List.mem_singleton.mp visited]
    exact inside
  | label inside plain filled room rest ih =>
    obtain ⟨n, ends, all⟩ := ih
    have goes := onward_label plain filled
    refine ⟨n + 1, .step goes ends, ?_⟩
    intro place visited
    simp only [places, goes, List.mem_cons] at visited
    rcases visited with rfl | visited
    · exact inside
    · exact all place visited
  | pointer inside marked rest ih =>
    obtain ⟨n, ends, all⟩ := ih
    have goes := onward_pointer marked
    refine ⟨n + 1, .step goes ends, ?_⟩
    intro place visited
    simp only [places, goes, List.mem_cons] at visited
    rcases visited with rfl | visited
    · omega
    · exact all place visited

/-- The way to the end of a name is shorter than the message. -/
theorem Named.short {pos : Nat} {labels : List Bytes} (named : Named msg pos labels) :
    ∃ n < msg.length, EndsIn (onward msg) n pos := by
  obtain ⟨n, ends, all⟩ := named.walk
  have bound := ends.lt_card (Finset.range msg.length) fun place visited =>
    Finset.mem_range.mpr (all place visited)
  rw [Finset.card_range] at bound
  exact ⟨n, bound, ends⟩

/-- The loop reads a name whose way is shorter than its budget. -/
theorem loop_of_named {pos n : Nat} {labels : List Bytes} (named : Named msg pos labels)
    (ends : EndsIn (onward msg) n pos) (budget : Nat) (enough : n < budget) (read : List Bytes)
    (jumped : Bool) (afterPtr : Nat) : ∃ stop, skipName msg pos = some stop ∧
      Dns.readNameLoop msg budget pos read jumped afterPtr =
        some (read.reverse ++ labels.map (List.map asciiLower), if jumped then afterPtr else stop) := by
  induction named generalizing n budget read jumped afterPtr with
  | @root pos inside zero =>
    obtain ⟨budget, rfl⟩ : ∃ fewer, budget = fewer + 1 := ⟨budget - 1, by omega⟩
    refine ⟨pos + 1, ?_, ?_⟩
    · rw [skipName_eq, if_neg (Nat.not_le.mpr inside), if_pos (zero_plain zero), if_pos zero]
    · rw [Dns.readNameLoop, if_neg (Nat.not_le.mpr inside)]
      simp only [if_pos (zero_plain zero), if_pos zero, List.map_nil, List.append_nil]
  | @label pos labels inside plain filled room rest ih =>
    obtain ⟨budget, rfl⟩ : ∃ fewer, budget = fewer + 1 := ⟨budget - 1, by omega⟩
    have goes := onward_label plain filled
    cases ends with
    | stop last => rw [goes] at last; cases last
    | step elsewhere later =>
      rw [goes, Option.some.injEq] at elsewhere
      obtain ⟨stop, skipped, found⟩ := ih (elsewhere ▸ later) budget (by omega)
        (((msg.drop (pos + 1)).take (byteAt msg pos).toNat).map asciiLower :: read) jumped afterPtr
      refine ⟨stop, ?_, ?_⟩
      · rw [skipName_eq, if_neg (Nat.not_le.mpr inside), if_pos plain, if_neg filled, skipped]
      · rw [Dns.readNameLoop, if_neg (Nat.not_le.mpr inside)]
        simp only [if_pos plain, if_neg filled, if_neg (Nat.not_lt.mpr room), found, List.reverse_cons,
          List.append_assoc, List.singleton_append, List.map_cons]
  | @pointer pos labels inside marked rest ih =>
    obtain ⟨budget, rfl⟩ : ∃ fewer, budget = fewer + 1 := ⟨budget - 1, by omega⟩
    have goes := onward_pointer marked
    cases ends with
    | stop last => rw [goes] at last; cases last
    | step elsewhere later =>
      rw [goes, Option.some.injEq] at elsewhere
      obtain ⟨stop, _, found⟩ := ih (elsewhere ▸ later) budget (by omega) read true
        (if jumped then afterPtr else pos + 2)
      refine ⟨pos + 2, ?_, ?_⟩
      · rw [skipName_eq, if_neg (by omega), if_neg (marked_not_plain marked), if_pos marked, if_pos inside]
      · rw [Dns.readNameLoop, if_neg (by omega)]
        simp only [if_neg (marked_not_plain marked), if_pos marked, if_neg (Nat.not_le.mpr inside)]
        exact (if_neg (Nat.not_le.mpr rest.inside)).trans found

/-- What the loop reads is a name. -/
theorem named_of_loop {budget pos afterPtr stop : Nat} {read found : List Bytes} {jumped : Bool}
    (ran : Dns.readNameLoop msg budget pos read jumped afterPtr = some (found, stop)) :
    ∃ labels, Named msg pos labels ∧ found = read.reverse ++ labels.map (List.map asciiLower) := by
  induction budget generalizing pos read jumped afterPtr with
  | zero => cases ran
  | succ budget ih =>
    rw [Dns.readNameLoop] at ran
    dsimp only at ran
    split at ran
    · cases ran
    · next inside =>
      have inside := Nat.lt_of_not_le inside
      split at ran
      · next plain =>
        split at ran
        · next zero =>
          refine ⟨[], .root inside zero, ?_⟩
          rw [List.map_nil, List.append_nil]
          exact (Prod.mk.inj (Option.some.inj ran)).1.symm
        · next filled =>
          split at ran
          · cases ran
          · next room =>
            obtain ⟨labels, named, same⟩ := ih ran
            refine ⟨_, .label inside plain filled (Nat.le_of_not_lt room) named, ?_⟩
            rw [same, List.reverse_cons, List.append_assoc, List.singleton_append, List.map_cons]
      · split at ran
        · next marked =>
          split at ran
          · cases ran
          · next room =>
            split at ran
            · cases ran
            · obtain ⟨labels, named, same⟩ := ih ran
              exact ⟨labels, .pointer (Nat.lt_of_not_le room) marked named, same⟩
        · cases ran

/-- The reader accepts exactly the names of the wire format: its budget rejects only what never ends. -/
theorem readName_iff (start stop : Nat) (found : List Bytes) :
    Dns.readName msg start = some (found, stop) ↔ ∃ labels, Named msg start labels ∧
      found = labels.map (List.map asciiLower) ∧ skipName msg start = some stop := by
  constructor
  · intro ran
    obtain ⟨labels, named, same⟩ := named_of_loop ran
    obtain ⟨n, short, ends⟩ := named.short
    obtain ⟨past, skipped, again⟩ := loop_of_named named ends msg.length short [] false start
    rw [Dns.readName, again, Option.some.injEq, Prod.mk.injEq] at ran
    exact ⟨labels, named, same, skipped.trans (congrArg some ran.2)⟩
  · rintro ⟨labels, named, rfl, skipped⟩
    obtain ⟨n, short, ends⟩ := named.short
    obtain ⟨past, same, ran⟩ := loop_of_named named ends msg.length short [] false start
    rw [skipped, Option.some.injEq] at same
    rw [Dns.readName, ran, same]
    rfl

/-- On every message and from every offset the reader of names, none of whose checks fails, gives the
text of the name that stands there, and the offset that skipping it gives; and it gives nothing
exactly where no name stands, be it cut off, reserved or a loop of pointers. -/
theorem readName_exact (msg : Slice) (start : Nat) :
    (∀ text stop, Guarded.readName msg.bytes start = .ok (some (text, stop)) ↔
      ∃ labels, Named msg.bytes start labels ∧ text = nameText (labels.map (List.map asciiLower)) ∧
        skipName msg.bytes start = some stop) ∧
    (Guarded.readName msg.bytes start = .ok none ↔ ¬∃ labels, Named msg.bytes start labels) := by
  obtain ⟨msg, small⟩ := msg
  dsimp only
  rw [readName_eq small]
  constructor
  · intro text stop
    simp only [Except.ok.injEq, Option.map_eq_some_iff, Prod.mk.injEq, Prod.exists]
    constructor
    · rintro ⟨found, past, ran, rfl, rfl⟩
      obtain ⟨labels, named, rfl, skipped⟩ := (readName_iff start past found).mp ran
      exact ⟨labels, named, rfl, skipped⟩
    · rintro ⟨labels, named, rfl, skipped⟩
      exact ⟨_, stop, (readName_iff start stop _).mpr ⟨labels, named, rfl, skipped⟩, rfl, rfl⟩
  · simp only [Except.ok.injEq, Option.map_eq_none_iff]
    constructor
    · rintro nothing ⟨labels, named⟩
      obtain ⟨n, short, ends⟩ := named.short
      obtain ⟨stop, _, ran⟩ := loop_of_named named ends msg.length short [] false start
      rw [Dns.readName, ran] at nothing
      cases nothing
    · intro nowhere
      by_contra something
      obtain ⟨⟨found, stop⟩, ran⟩ := Option.ne_none_iff_exists'.mp something
      obtain ⟨labels, named, _⟩ := (readName_iff start stop found).mp ran
      exact nowhere ⟨labels, named⟩

end Reading

section Encoded

open ShadowVpn.Net.Messages

variable {msg rest : Bytes} {pos : Nat}

theorem named_label {label : Label} {labels : List Bytes} (here : msg.drop pos = label.encode ++ rest)
    (named : Named msg (pos + label.encode.length) labels) : Named msg pos (label.bytes :: labels) := by
  obtain ⟨inside, first⟩ := byteAt_here here
  have short := label.short
  have plain : ∀ n : Fin 64, BitVec.ofNat 8 n.val &&& 0xC0#8 = 0#8 := by decide
  have value : (byteAt msg pos).toNat = label.bytes.length := by
    rw [first, BitVec.toNat_ofNat, Nat.mod_eq_of_lt (by omega)]
  have filled : byteAt msg pos ≠ 0 := by
    intro zero
    exact label.present (List.length_eq_zero_iff.mp (value.symm.trans (congrArg BitVec.toNat zero)))
  have room := room_here here (List.cons_ne_nil _ _)
  have size : label.encode.length = 1 + (byteAt msg pos).toNat := by
    rw [value, Label.encode, List.length_cons, Nat.add_comm]
  have data : (msg.drop (pos + 1)).take (byteAt msg pos).toNat = label.bytes := by
    rw [drop_next here, value]
    exact List.take_left
  have next := Named.label inside (first.symm ▸ plain ⟨_, short⟩) filled (by omega)
    (show Named msg (pos + 1 + (byteAt msg pos).toNat) labels by
      rwa [Nat.add_assoc, ← size])
  rwa [data] at next

/-- Labels in front of a name. -/
theorem named_labels (front : List Label) {labels : List Bytes}
    (here : msg.drop pos = front.flatMap Label.encode ++ rest)
    (named : Named msg (pos + (front.flatMap Label.encode).length) labels) :
    Named msg pos (front.map Label.bytes ++ labels) := by
  induction front generalizing pos with
  | nil => exact named
  | cons label front ih =>
    rw [List.flatMap_cons, List.append_assoc] at here
    rw [List.flatMap_cons, List.length_append, ← Nat.add_assoc] at named
    exact named_label here (ih (drop_past here) named)

/-- A name that ends at the root stands where its bytes do. -/
theorem named_rooted (front : List Label)
    (here : msg.drop pos = front.flatMap Label.encode ++ (Ending.root.encode ++ rest)) :
    Named msg pos (front.map Label.bytes) := by
  have ending : msg.drop (pos + (front.flatMap Label.encode).length) = (0 : Byte) :: rest := drop_past here
  obtain ⟨inside, zero⟩ := byteAt_here ending
  have whole := named_labels front here (.root inside zero)
  rwa [List.append_nil] at whole

end Encoded

section Sample

/-- A message whose name at offset 12 is `a`, then a pointer to the name `b` at its end. -/
def samplePointing : Slice where
  bytes := [0, 0, 0, 0, 0, 0, 0, 0, 0, 0, 0, 0, 1, 97, 0xC0, 16, 1, 66, 0]
  small := by decide

/-- A pointer to itself is no name. -/
def sampleLooping : Slice where
  bytes := [0, 0, 0, 0, 0, 0, 0, 0, 0, 0, 0, 0, 0xC0, 12]
  small := by decide

example : Guarded.readName samplePointing.bytes 12 = .ok (some ("a.b".toList, 16)) := by decide +kernel
example : Guarded.readName sampleLooping.bytes 12 = .ok none := by decide +kernel

end Sample

end ShadowVpn.Net.Names
