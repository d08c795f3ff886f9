import ShadowVpn.Lib.Lines
import ShadowVpn.Net.Names
import ShadowVpn.Net.Udp

/-! The messages of `vendor/dns.rs` both ways: the query that `build_query` composes, the smallest time
to live of an answer, and what the readers find in a message as it was written. -/

namespace ShadowVpn.Net.Queries
open ShadowVpn.Lib.Octets ShadowVpn.Lib.Text ShadowVpn.Lib.Panic ShadowVpn.Lib.Utf8 ShadowVpn.Net.Ipv4
open ShadowVpn.Net.Udp ShadowVpn.Net.Dns ShadowVpn.Net.Guarded ShadowVpn.Net.Messages ShadowVpn.Net.Names

/-- The labels that `build_query` does not skip. -/
def fits (label : Chars) : Bool := !(label.isEmpty || 63 < (utf8 label).length)

def kept (name : Chars) : List Chars := (name.splitOn '.').filter fits

/-- Flags with recursion desired, one question, no records. -/
def buildQuery (id : BitVec 16) (name : Chars) : Bytes :=
  bytes16 id ++ ([0x01, 0x00] ++ ([0x00, 0x01] ++ ([0, 0, 0, 0, 0, 0] ++
    ((kept name).flatMap (fun label => BitVec.ofNat 8 (utf8 label).length :: utf8 label) ++
      ([0] ++ (bytes16 typeA ++ bytes16 classIn))))))

/-- The smaller of a time to live and the smallest one so far. -/
def lower (min : Option (BitVec 32)) (ttl : BitVec 32) : BitVec 32 :=
  match min with
  | none => ttl
  | some m => if m ≤ ttl then m else ttl

section Joining

theorem intercalate_length {α : Type} (sep : α) (parts : List (List α)) :
    ([sep].intercalate parts).length = (parts.map fun part => part.length + 1).sum - 1 := by
  cases parts with
  | nil => rfl
  | cons part parts =>
    induction parts generalizing part with
    | nil => simp [List.intercalate]
    | cons next parts ih =>
      have shorter := ih next
      simp only [List.intercalate, List.intersperse_cons_cons, List.flatten_cons, List.length_append,
        List.length_singleton, List.map_cons, List.sum_cons] at shorter ⊢
      omega

theorem sum_filter_le {α : Type} (keep : List α → Bool) (parts : List (List α)) :
    ((parts.filter keep).map fun part => part.length + 1).sum ≤
      (parts.map fun part => part.length + 1).sum := by
  induction parts with
  | nil => exact Nat.le_refl _
  | cons part parts ih =>
    rw [List.filter_cons]
    split <;> simp only [List.map_cons, List.sum_cons] <;> omega

/-- If leaving parts out does not make the whole smaller, none is left out. -/
theorem all_of_sum_filter {α : Type} (keep : List α → Bool) (parts : List (List α))
    (whole : (parts.map fun part => part.length + 1).sum ≤
      ((parts.filter keep).map fun part => part.length + 1).sum) : ∀ part ∈ parts, keep part = true := by
  induction parts with
  | nil => simp
  | cons part parts ih =>
    have fewer := sum_filter_le keep parts
    by_cases kept : keep part = true
    · rw [List.filter_cons_of_pos kept] at whole
      simp only [List.map_cons, List.sum_cons] at whole
      exact List.forall_mem_cons.mpr ⟨kept, ih (by omega)⟩
    · rw [List.filter_cons_of_neg kept] at whole
      simp only [List.map_cons, List.sum_cons] at whole
      omega

/-- What is kept of a name is all of it only if no label is left out. -/
theorem kept_whole_iff (name : Chars) :
    ['.'].intercalate (kept name) = name ↔ name = [] ∨ ∀ label ∈ name.splitOn '.', fits label = true := by
  constructor
  · intro whole
    have parts : ['.'].intercalate (name.splitOn '.') = name := List.intercalate_splitOn '.'
    have total := intercalate_length '.' (name.splitOn '.')
    have rest := intercalate_length '.' (kept name)
    rw [parts] at total
    rw [whole] at rest
    by_cases empty : name = []
    · exact .inl empty
    · have long := List.length_pos_of_ne_nil empty
      exact .inr (all_of_sum_filter fits _ (by unfold kept at rest; omega))
  · rintro (rfl | all)
    · decide
    · rw [kept, List.filter_eq_self.mpr all]
      exact List.intercalate_splitOn '.'

end Joining

section Reading

variable {msg rest : Bytes} {pos : Nat}

/-- The question whose name stands behind the header. -/
theorem question_named {labels : List Bytes} {qtype qclass : BitVec 16} {stop : Nat}
    (asked : be16At msg 4 ≠ 0) (named : Named msg headerLen labels)
    (skipped : skipName msg headerLen = some stop)
    (here : msg.drop stop = bytes16 qtype ++ (bytes16 qclass ++ rest)) :
    Dns.question msg = some (labels.map (List.map asciiLower), qtype, qclass) := by
  have read := (readName_iff headerLen stop _).mpr ⟨labels, named, rfl, skipped⟩
  have long := named.inside
  have room : ¬msg.length < stop + 4 := by
    have four : stop + (bytes16 qtype ++ bytes16 qclass).length ≤ msg.length :=
      room_here (by rw [here, List.append_assoc]) (List.cons_ne_nil _ _)
    exact Nat.not_lt.mpr four
  rw [Dns.question, if_neg (by omega), if_neg asked, read]
  simp only [Option.bind_eq_bind, Option.bind_some, if_neg room]
  have second : be16At msg (stop + 2) = qclass := be16At_here (drop_past here)
  rw [be16At_here here, second]

end Reading

section Whole

/-- The labels that are kept, as they travel. -/
theorem kept_labels (labels : List Chars) (all : ∀ label ∈ labels, fits label = true) :
    ∃ front : List Label, front.map Label.bytes = labels.map utf8 ∧ front.flatMap Label.encode =
      labels.flatMap fun label => BitVec.ofNat 8 (utf8 label).length :: utf8 label := by
  induction labels with
  | nil => exact ⟨[], rfl, rfl⟩
  | cons label labels ih =>
    obtain ⟨front, bytes, encoded⟩ := ih fun other member => all other (List.mem_cons_of_mem _ member)
    have fitting := all label List.mem_cons_self
    simp only [fits, Bool.not_or, Bool.and_eq_true, Bool.not_eq_true', decide_eq_false_iff_not,
      List.isEmpty_eq_false_iff] at fitting
    have present : utf8 label ≠ [] := by
      obtain ⟨c, text, rfl⟩ := List.exists_cons_of_ne_nil fitting.1
      obtain ⟨b, more, shape, _⟩ := first_utf8 c []
      rw [utf8, List.flatMap_singleton] at shape
      rw [utf8, List.flatMap_cons, shape]
      exact List.cons_ne_nil _ _
    refine ⟨⟨utf8 label, present, by omega⟩ :: front, ?_, ?_⟩
    · rw [List.map_cons, bytes, List.map_cons]
    · rw [List.flatMap_cons, encoded, List.flatMap_cons]
      rfl

/-- Every query that `build_query` composes is read back, without any check failing: its id, and a
question of type A and class IN for the labels that were kept, in lower case. That is the whole name
exactly when the name is empty or each of its labels has 1 to 63 bytes. -/
theorem build_query_round_trip (id : BitVec 16) (name : Chars)
    (small : (buildQuery id name).length < 2 ^ 63) :
    txid (buildQuery id name) = some id ∧
      Guarded.question (buildQuery id name) =
        .ok (some (['.'].intercalate ((kept name).map toAsciiLowercase), typeA, classIn)) ∧
      (['.'].intercalate (kept name) = name ↔
        name = [] ∨ ∀ label ∈ name.splitOn '.', label ≠ [] ∧ (utf8 label).length ≤ 63) := by
  obtain ⟨front, bytes, encoded⟩ := kept_labels (kept name) fun label member =>
    (List.mem_filter.mp member).2
  have here : (buildQuery id name).drop headerLen =
      front.flatMap Label.encode ++ (Ending.root.encode ++ (bytes16 typeA ++ (bytes16 classIn ++ []))) := by
    rw [encoded, List.append_nil]
    rfl
  have named := named_rooted front here
  have skipped : skipName (buildQuery id name) headerLen =
      some (headerLen + (Name.mk front .root).encode.length) :=
    skipName_name (by rw [here, Name.encode, List.append_assoc])
  have type : (buildQuery id name).drop (headerLen + (Name.mk front .root).encode.length) =
      bytes16 typeA ++ (bytes16 classIn ++ []) := by
    apply drop_past
    rw [here, Name.encode, List.append_assoc]
  have one : be16At (buildQuery id name) 4 = be16 0 1 := rfl
  have asked : be16At (buildQuery id name) 4 ≠ 0 := by
    rw [one]
    decide
  have read := question_named asked named skipped type
  refine ⟨?_, ?_, ?_⟩
  · rw [txid, if_neg (Nat.not_lt.mpr (by simp [buildQuery]))]
    exact congrArg some (be16At_here rfl)
  · rw [question_eq small, read, Option.map_some]
    have text : nameText ((front.map Label.bytes).map (List.map asciiLower)) =
        ['.'].intercalate ((kept name).map toAsciiLowercase) := by
      rw [nameText, bytes, List.map_map, List.map_map]
      congr 1
      apply List.map_congr_left
      intro label _
      simp only [Function.comp_apply, lossy_lower, Lib.Lines.lossy_utf8]
    rw [text]
  · rw [kept_whole_iff]
    simp only [fits, Bool.not_or, Bool.and_eq_true, Bool.not_eq_true', decide_eq_false_iff_not,
      List.isEmpty_eq_false_iff, Nat.not_lt, ne_eq]

end Whole

section Sample

/-- `a.` is built as `a`. -/
theorem sample_round_trip :
    (buildQuery 7 "A.".toList).length < 2 ^ 63 ∧ txid (buildQuery 7 "A.".toList) = some 7 ∧
      Guarded.question (buildQuery 7 "A.".toList) = .ok (some (['a'], typeA, classIn)) := by
  have small : (buildQuery 7 "A.".toList).length < 2 ^ 63 := by decide
  obtain ⟨id, read, _⟩ := build_query_round_trip 7 "A.".toList small
  exact ⟨small, id, read.trans (by decide)⟩

end Sample

end ShadowVpn.Net.Queries
