import ShadowVpn.Lib.Utf8

/-! Texts of lines: decoding around a byte that is a character of its own, splitting at line feeds, and
what is left of the lines behind a cut at some byte. -/

namespace ShadowVpn.Lib.Lines
open ShadowVpn.Lib.Octets ShadowVpn.Lib.Text ShadowVpn.Lib.Utf8

section Decoding

theorem low_not_tail (b : Byte) (low : b < 0x80) : isTail b = false :=
  Bool.eq_false_iff.mpr fun tail => absurd (isTail_high b tail) (BitVec.not_le.mpr low)

theorem low_not_second3 (lead b : Byte) (low : b < 0x80) : second3 lead b = false :=
  Bool.eq_false_iff.mpr fun second => absurd (second3_high lead b second) (BitVec.not_le.mpr low)

theorem low_not_second4 (lead b : Byte) (low : b < 0x80) : second4 lead b = false :=
  Bool.eq_false_iff.mpr fun second => absurd (second4_high lead b second) (BitVec.not_le.mpr low)

/-- A character ends before a byte below 0x80, as it does at the end of the bytes. -/
theorem first_append (lead b : Byte) (front rest : Bytes) (low : b < 0x80) :
    first (lead :: (front ++ b :: rest)) = first (lead :: front) ∧ (first (lead :: front)).2 ≤ front.length + 1 := by
  have zero : (0 : Byte) < 0x80 := by decide
  match front with
  | [] =>
    change first (lead :: b :: rest) = first [lead] ∧ _
    simp only [first, byteAt, List.getD_cons_zero, List.getD_cons_succ, List.getD_nil, low_not_tail b low,
      low_not_tail 0 zero, low_not_second3 _ b low, low_not_second3 _ 0 zero, low_not_second4 _ b low,
      low_not_second4 _ 0 zero]
    simp only [Bool.false_eq_true, if_false, Bool.not_false, if_true, List.length_nil, true_and]
    split_ifs <;> simp
  | [one] =>
    change first (lead :: one :: b :: rest) = first [lead, one] ∧ _
    simp only [first, byteAt, List.getD_cons_zero, List.getD_cons_succ, List.getD_nil, low_not_tail b low,
      low_not_tail 0 zero]
    simp only [Bool.not_false, if_true, List.length_cons, List.length_nil, true_and]
    split_ifs <;> simp
  | [one, two] =>
    change first (lead :: one :: two :: b :: rest) = first [lead, one, two] ∧ _
    simp only [first, byteAt, List.getD_cons_zero, List.getD_cons_succ, List.getD_nil, low_not_tail b low,
      low_not_tail 0 zero]
    simp only [Bool.not_false, if_true, List.length_cons, List.length_nil, true_and]
    split_ifs <;> simp
  | one :: two :: three :: more =>
    refine ⟨rfl, ?_⟩
    simp only [first, List.length_cons]
    split_ifs <;> simp

theorem first_low (b : Byte) (rest : Bytes) (low : b < 0x80) : first (b :: rest) = (some (Char.ofNat b.toNat), 1) :=
  if_pos low

theorem chunksFrom_append (b : Byte) (rest : Bytes) (low : b < 0x80) (front : Bytes) (skip : Nat)
    (inside : skip ≤ front.length) :
    chunksFrom skip (front ++ b :: rest) = chunksFrom skip front ++ some (Char.ofNat b.toNat) :: chunks rest := by
  induction front generalizing skip with
  | nil =>
    obtain rfl := Nat.le_zero.mp inside
    have round : chunksFrom 0 (b :: rest) = (first (b :: rest)).1 :: chunksFrom ((first (b :: rest)).2 - 1) rest := rfl
    rw [List.nil_append, round, first_low b rest low]
    exact rfl
  | cons lead front ih =>
    cases skip with
    | zero =>
      obtain ⟨same, short⟩ := first_append lead b front rest low
      rw [List.cons_append, chunksFrom, same, ih _ (by omega), chunksFrom, List.cons_append]
    | succ skip => exact ih skip (Nat.le_of_succ_le_succ inside)

/-- Text is decoded on both sides of a byte below 0x80 on its own. -/
theorem lossy_append (front rest : Bytes) (b : Byte) (low : b < 0x80) :
    lossy (front ++ b :: rest) = lossy front ++ Char.ofNat b.toNat :: lossy rest := by
  rw [lossy, chunks, chunksFrom_append b rest low front 0 (Nat.zero_le _), List.map_append, List.map_cons]
  exact rfl

/-- A character below 0x80, other than that of the byte zero, comes from its own byte. -/
theorem first_plain {b : Byte} {rest : Bytes} {c : Char} (decoded : (first (b :: rest)).1 = some c)
    (plain : c.toNat < 128) (some : c ≠ '\x00') : b.toNat = c.toNat := by
  have large (n : Nat) (high : 128 ≤ n) (same : Char.ofNat n = c) : False := by
    by_cases valid : n.isValidChar
    · have char : Char.ofNat n = Char.ofNatAux n valid := dif_pos valid
      rw [char] at same
      rw [← same] at plain
      exact absurd plain (Nat.not_lt.mpr high)
    · have char : Char.ofNat n = '\x00' := dif_neg valid
      exact some (same.symm.trans char)
  dsimp only [first] at decoded
  by_cases low : b < 0x80
  · have own : byteAt (b :: rest) 0 = b := rfl
    rw [own, if_pos low, Option.some.injEq] at decoded
    have small : b.toNat < 128 := low
    have valid : b.toNat.isValidChar := .inl (by omega)
    have char : Char.ofNat b.toNat = Char.ofNatAux b.toNat valid := dif_pos valid
    rw [← decoded, char]
    exact rfl
  · exfalso
    have own : byteAt (b :: rest) 0 = b := rfl
    rw [own, if_neg low] at decoded
    generalize byteAt (b :: rest) 1 = b1 at decoded
    generalize byteAt (b :: rest) 2 = b2 at decoded
    generalize byteAt (b :: rest) 3 = b3 at decoded
    split at decoded
    · next two =>
      split at decoded
      · have lead : bits b 0x1F = b.toNat % 32 := bits_low b 5 (by decide)
        refine large _ ?_ (Option.some.inj decoded)
        bv_omega
      · cases decoded
    split at decoded
    · split at decoded
      · cases decoded
      · next second =>
        rw [Bool.not_eq_true', Bool.not_eq_false] at second
        split at decoded
        · cases decoded
        · have above := second3_large b b1 second
          exact large _ (by omega) (Option.some.inj decoded)
    split at decoded
    · split at decoded
      · cases decoded
      · next second =>
        rw [Bool.not_eq_true', Bool.not_eq_false] at second
        split at decoded
        · cases decoded
        · split at decoded
          · cases decoded
          · have above := second4_large b b1 second
            exact large _ (by omega) (Option.some.inj decoded)
    · cases decoded

theorem mem_chunksFrom {data : Bytes} {skip : Nat} {c : Char} (member : some c ∈ chunksFrom skip data)
    (plain : c.toNat < 128) (nonzero : c ≠ '\x00') : ∃ b ∈ data, b.toNat = c.toNat := by
  induction data generalizing skip with
  | nil =>
    cases skip with
    | zero => cases member
    | succ skip => cases member
  | cons b rest ih =>
    cases skip with
    | zero =>
      rw [chunksFrom] at member
      rcases List.mem_cons.mp member with here | later
      · exact ⟨b, List.mem_cons_self, first_plain here.symm plain nonzero⟩
      · obtain ⟨d, inside, same⟩ := ih later
        exact ⟨d, List.mem_cons_of_mem _ inside, same⟩
    | succ skip =>
      obtain ⟨d, inside, same⟩ := ih member
      exact ⟨d, List.mem_cons_of_mem _ inside, same⟩

/-- The decoder makes no plain character of anything else. -/
theorem mem_lossy {data : Bytes} {c : Char} (member : c ∈ lossy data) (plain : c.toNat < 128)
    (nonzero : c ≠ '\x00') : ∃ b ∈ data, b.toNat = c.toNat := by
  obtain ⟨chunk, inside, same⟩ := List.mem_map.mp member
  cases chunk with
  | none =>
    rw [Option.getD_none] at same
    rw [← same] at plain
    exact absurd plain (by decide)
  | some d =>
    rw [Option.getD_some] at same
    subst same
    exact mem_chunksFrom inside plain nonzero

theorem lossy_utf8 (text : Chars) : lossy (utf8 text) = text := by
  rw [lossy, chunks_utf8, List.map_map]
  exact List.map_id text

theorem mem_utf8 {text : Chars} {b : Byte} (member : b ∈ utf8 text) (low : b < 0x80) :
    Char.ofNat b.toNat ∈ text := by
  obtain ⟨front, rest, shape⟩ := List.append_of_mem member
  have decoded := lossy_utf8 text
  rw [shape, lossy_append front rest b low] at decoded
  rw [← decoded]
  exact List.mem_append_right _ List.mem_cons_self

end Decoding

section Splitting

/-- Pieces between line feeds; one behind a carriage return belongs to it and separates nothing. -/
def splitFrom (behind : Bool) : Chars → List Chars
  | [] => [[]]
  | c :: rest =>
    if c = '\n' ∧ behind = false then [] :: splitFrom false rest
    else (splitFrom (c = '\r') rest).modifyHead (List.cons c)

/-- `split(separator: "\n", omittingEmptySubsequences: false)` on a string. -/
def splitFeeds (text : Chars) : List Chars := splitFrom false text

theorem splitFeeds_eq (text : Chars) (plain : '\r' ∉ text) : splitFeeds text = text.splitOn '\n' := by
  unfold splitFeeds
  induction text with
  | nil => rfl
  | cons c rest ih =>
    obtain ⟨other, later⟩ := not_or.mp (List.mem_cons.not.mp plain)
    rw [splitFrom, List.splitOn_cons_eq_if_modifyHead, decide_eq_false (Ne.symm other), ih later]
    by_cases feed : c = '\n'
    · rw [if_pos ⟨feed, rfl⟩, if_pos (beq_iff_eq.mpr feed)]
    · rw [if_neg fun both => feed both.1, if_neg fun same => feed (beq_iff_eq.mp same)]

/-- Each line with its line feed. -/
def joined (lines : List Bytes) : Bytes := lines.flatMap fun line => line ++ [0x0A]

theorem joined_cons (line : Bytes) (rest : List Bytes) : joined (line :: rest) = line ++ 0x0A :: joined rest := by
  rw [joined, List.flatMap_cons, List.append_assoc]
  exact rfl

theorem joined_append (front back : List Bytes) : joined (front ++ back) = joined front ++ joined back :=
  List.flatMap_append

/-- No line feed and no carriage return. -/
def Plain (line : Bytes) : Prop := 0x0A ∉ line ∧ 0x0D ∉ line

theorem Plain.drop {line : Bytes} (plain : Plain line) (n : Nat) : Plain (line.drop n) :=
  ⟨fun member => plain.1 (List.mem_of_mem_drop member), fun member => plain.2 (List.mem_of_mem_drop member)⟩

theorem Plain.take {line : Bytes} (plain : Plain line) (n : Nat) : Plain (line.take n) :=
  ⟨fun member => plain.1 (List.mem_of_mem_take member), fun member => plain.2 (List.mem_of_mem_take member)⟩

theorem Plain.decoded {line : Bytes} (plain : Plain line) : '\n' ∉ lossy line ∧ '\r' ∉ lossy line := by
  constructor
  · intro member
    obtain ⟨b, inside, same⟩ := mem_lossy member (by decide) (by decide)
    have byte : b = 0x0A := BitVec.eq_of_toNat_eq same
    exact plain.1 (byte ▸ inside)
  · intro member
    obtain ⟨b, inside, same⟩ := mem_lossy member (by decide) (by decide)
    have byte : b = 0x0D := BitVec.eq_of_toNat_eq same
    exact plain.2 (byte ▸ inside)

theorem plain_utf8 {text : Chars} (feed : '\n' ∉ text) (back : '\r' ∉ text) : Plain (utf8 text) :=
  ⟨fun member => feed (mem_utf8 member (by decide)), fun member => back (mem_utf8 member (by decide))⟩

theorem lossy_line (line rest : Bytes) : lossy (line ++ 0x0A :: rest) = lossy line ++ '\n' :: lossy rest :=
  lossy_append line rest 0x0A (by decide)

theorem no_return {lines : List Bytes} {rest : Bytes} (plain : ∀ line ∈ lines, Plain line) (last : Plain rest) :
    '\r' ∉ lossy (joined lines ++ rest) := by
  induction lines with
  | nil => exact last.decoded.2
  | cons line lines ih =>
    obtain ⟨first, later⟩ := List.forall_mem_cons.mp plain
    rw [joined_cons, List.append_assoc, List.cons_append, lossy_line, List.mem_append, List.mem_cons]
    rintro (here | same | there)
    · exact first.decoded.2 here
    · exact absurd same (by decide)
    · exact ih later there

/-- Whole lines and what follows them are split into just these. -/
theorem split_joined {lines : List Bytes} {rest : Bytes} (plain : ∀ line ∈ lines, Plain line) (last : Plain rest) :
    splitFeeds (lossy (joined lines ++ rest)) = lines.map lossy ++ [lossy rest] := by
  rw [splitFeeds_eq _ (no_return plain last)]
  induction lines with
  | nil => exact List.splitOn_eq_singleton last.decoded.1
  | cons line lines ih =>
    obtain ⟨first, later⟩ := List.forall_mem_cons.mp plain
    rw [joined_cons, List.append_assoc, List.cons_append, lossy_line,
      List.splitOn_append_cons_self_of_not_mem first.decoded.1, ih later]
    exact rfl

/-- A cut within the lines leaves the end of one of them and all behind it. -/
theorem cut_joined {lines : List Bytes} {n : Nat} (inside : n < (joined lines).length) :
    ∃ older line recent, lines = older ++ line :: recent ∧
      (joined lines).drop n = line.drop (n - (joined older).length) ++ 0x0A :: joined recent ∧
      (joined older).length ≤ n ∧ n < (joined older).length + (line.length + 1) := by
  induction lines generalizing n with
  | nil => cases inside
  | cons line rest ih =>
    have size : (joined (line :: rest)).length = line.length + 1 + (joined rest).length := by
      rw [joined_cons, List.length_append, List.length_cons]
      omega
    by_cases here : n ≤ line.length
    · refine ⟨[], line, rest, rfl, ?_, Nat.zero_le n, ?_⟩
      · rw [joined_cons, List.drop_append_of_le_length here]
        exact rfl
      · change n < 0 + (line.length + 1)
        omega
    · obtain ⟨older, last, recent, shape, cut, low, high⟩ := ih (n := n - (line.length + 1)) (by omega)
      have front : (joined (line :: older)).length = line.length + 1 + (joined older).length := by
        rw [joined_cons, List.length_append, List.length_cons]
        omega
      refine ⟨line :: older, last, recent, by rw [shape, List.cons_append], ?_, by omega, by omega⟩
      have past : (joined (line :: rest)).drop n = (joined rest).drop (n - (line.length + 1)) := by
        rw [joined_cons, List.append_cons, List.drop_append, List.length_append, List.length_singleton,
          List.drop_eq_nil_of_le (by simp; omega), List.nil_append]
      have offset : n - (joined (line :: older)).length = n - (line.length + 1) - (joined older).length := by
        omega
      rw [past, cut, offset]

/-- The same cut, seen from before it. -/
theorem head_joined {lines : List Bytes} {n : Nat} (inside : n < (joined lines).length) :
    ∃ front line back k, lines = front ++ line :: back ∧ k ≤ line.length ∧
      (joined lines).take n = joined front ++ line.take k := by
  obtain ⟨front, line, back, shape, _, low, high⟩ := cut_joined inside
  refine ⟨front, line, back, n - (joined front).length, shape, by omega, ?_⟩
  rw [shape, joined_append, joined_cons, List.take_append, List.take_of_length_le low,
    List.take_append_of_le_length (by omega)]

/-- The lines of a text. -/
def linesOf (text : Chars) : List Bytes := (text.splitOn '\n').map utf8

theorem utf8_cons (c : Char) (rest : Chars) :
    utf8 (c :: rest) = (String.utf8EncodeChar c).map UInt8.toBitVec ++ utf8 rest := List.flatMap_cons

theorem joined_lines (text : Chars) : joined (linesOf text) = utf8 text ++ [0x0A] := by
  unfold linesOf
  induction text with
  | nil => rfl
  | cons c rest ih =>
    rw [List.splitOn_cons_eq_if_modifyHead]
    split
    · next feed =>
      rw [beq_iff_eq.mp feed, List.map_cons, joined_cons, ih]
      exact rfl
    · cases pieces : rest.splitOn '\n' with
      | nil => exact absurd pieces (List.splitOn_ne_nil _ _)
      | cons piece pieces' =>
        rw [pieces, List.map_cons, joined_cons] at ih
        rw [List.modifyHead_cons, List.map_cons, joined_cons, utf8_cons, utf8_cons, List.append_assoc,
          List.append_assoc, ih]

theorem mem_splitOn {text piece : Chars} (member : piece ∈ text.splitOn '\n') :
    '\n' ∉ piece ∧ ∀ c ∈ piece, c ∈ text := by
  induction text generalizing piece with
  | nil =>
    obtain rfl := List.mem_singleton.mp member
    exact ⟨List.not_mem_nil, fun c inside => inside⟩
  | cons c rest ih =>
    rw [List.splitOn_cons_eq_if_modifyHead] at member
    split at member
    · rcases List.mem_cons.mp member with rfl | later
      · exact ⟨List.not_mem_nil, fun c inside => nomatch inside⟩
      · obtain ⟨clean, inside⟩ := ih later
        exact ⟨clean, fun d here => List.mem_cons_of_mem _ (inside d here)⟩
    · next other =>
      cases pieces : rest.splitOn '\n' with
      | nil => exact absurd pieces (List.splitOn_ne_nil _ _)
      | cons head tail =>
        rw [pieces] at ih member
        rcases List.mem_cons.mp member with rfl | later
        · obtain ⟨clean, inside⟩ := ih List.mem_cons_self
          have apart : '\n' ≠ c := fun same => other (beq_iff_eq.mpr same.symm)
          refine ⟨List.not_mem_cons_of_ne_of_not_mem apart clean, ?_⟩
          intro d here
          rcases List.mem_cons.mp here with rfl | there
          · exact List.mem_cons_self
          · exact List.mem_cons_of_mem _ (inside d there)
        · obtain ⟨clean, inside⟩ := ih (List.mem_cons_of_mem _ later)
          exact ⟨clean, fun d here => List.mem_cons_of_mem _ (inside d here)⟩

theorem plain_lines {text : Chars} (back : '\r' ∉ text) : ∀ line ∈ linesOf text, Plain line := by
  intro line member
  obtain ⟨piece, inside, rfl⟩ := List.mem_map.mp member
  obtain ⟨clean, sub⟩ := mem_splitOn inside
  exact plain_utf8 clean fun here => back (sub _ here)

end Splitting

end ShadowVpn.Lib.Lines
