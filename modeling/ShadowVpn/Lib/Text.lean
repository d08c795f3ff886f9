import Mathlib.Data.List.DropRight
import Mathlib.Data.List.Basic

/-! Text as a list of characters: trimming, splitting at the first separator and
reading decimal numerals. -/

namespace ShadowVpn.Lib.Text

abbrev Chars := List Char

def trim (space : Char → Bool) (text : Chars) : Chars :=
  (text.dropWhile space).rdropWhile space

/-- The text before and after the first `sep`, if there is one. -/
def splitOnce (sep : Char) : Chars → Option (Chars × Chars)
  | [] => none
  | c :: rest =>
    if c = sep then some ([], rest)
    else (splitOnce sep rest).map fun parts => (c :: parts.1, parts.2)

def isNumeral (text : Chars) : Bool := !text.isEmpty && text.all Char.isDigit

/-- A non-empty run of decimal digits, read as a number. -/
def numeral (text : Chars) : Option Nat :=
  if isNumeral text then some (Nat.ofDigitChars 10 text 0) else none

/-- Drop one final carriage return. -/
def stripReturn (line : Chars) : Chars :=
  if line.getLast? = some '\r' then line.dropLast else line

/-- `str::lines` on the pieces between line feeds: a piece that was ended by a line feed
loses one carriage return, and an empty last piece is no line. -/
def linesOf : List Chars → List Chars
  | [] => []
  | [last] => if last = [] then [] else [last]
  | piece :: rest => stripReturn piece :: linesOf rest

def lines (text : Chars) : List Chars := linesOf (text.splitOn '\n')

theorem splitOnce_append (sep : Char) (front back : Chars) (absent : sep ∉ front) :
    splitOnce sep (front ++ sep :: back) = some (front, back) := by
  induction front with
  | nil => simp [splitOnce]
  | cons c rest ih =>
    simp only [List.mem_cons, not_or] at absent
    simp only [List.cons_append, splitOnce, if_neg (Ne.symm absent.1), ih absent.2, Option.map_some]

theorem splitOnce_some (sep : Char) (text front back : Chars)
    (found : splitOnce sep text = some (front, back)) :
    text = front ++ sep :: back ∧ sep ∉ front := by
  induction text generalizing front with
  | nil => simp [splitOnce] at found
  | cons c rest ih =>
    by_cases here : c = sep
    · simp only [splitOnce, if_pos here, Option.some.injEq, Prod.mk.injEq] at found
      obtain ⟨rfl, rfl⟩ := found
      simp [here]
    · simp only [splitOnce, if_neg here, Option.map_eq_some_iff] at found
      obtain ⟨⟨inner, tail⟩, split, same⟩ := found
      simp only [Prod.mk.injEq] at same
      obtain ⟨rfl, rfl⟩ := same
      obtain ⟨rfl, absent⟩ := ih inner split
      exact ⟨rfl, by simp [absent, Ne.symm here]⟩

theorem lines_cons (line rest : Chars) (noFeed : '\n' ∉ line) :
    lines (line ++ '\n' :: rest) = stripReturn line :: lines rest := by
  have pieces : (line ++ '\n' :: rest).splitOn '\n' = line :: rest.splitOn '\n' := by
    rw [List.splitOn_eq_splitOnP, List.splitOn_eq_splitOnP]
    apply List.splitOnP_append_cons_of_forall_mem
    · intro c member
      simp only [beq_eq_false_iff_ne]
      intro same
      exact noFeed (same ▸ member)
    · rfl
  have nonempty : rest.splitOn '\n' ≠ [] := by
    rw [List.splitOn_eq_splitOnP]
    exact List.splitOnP_ne_nil _ _
  rw [lines, lines, pieces]
  obtain ⟨piece, more, shape⟩ := List.exists_cons_of_ne_nil nonempty
  rw [shape, linesOf]
  simp

theorem lines_nil : lines [] = [] := rfl

theorem stripReturn_of_not_mem (line : Chars) (absent : '\r' ∉ line) : stripReturn line = line := by
  rw [stripReturn, if_neg]
  intro last
  exact absent (List.mem_of_getLast? last)

theorem numeral_toDigits (n : Nat) : numeral (Nat.toDigits 10 n) = some n := by
  have digits : isNumeral (Nat.toDigits 10 n) = true := by
    simp only [isNumeral, Bool.and_eq_true, Bool.not_eq_true', List.isEmpty_eq_false_iff,
      List.all_eq_true]
    exact ⟨Nat.toDigits_ne_nil, fun c member =>
      Nat.isDigit_of_mem_toDigits (by decide) (by decide) member⟩
  rw [numeral, if_pos digits, Nat.ofDigitChars_ten_toDigits]

theorem not_mem_toDigits (c : Char) (n : Nat) (other : c.isDigit = false) :
    c ∉ Nat.toDigits 10 n := by
  intro member
  have digit := Nat.isDigit_of_mem_toDigits (by decide : 0 < 10) (by decide) member
  rw [other] at digit
  exact absurd digit (by decide)

/-- Text that neither starts nor ends with white space is left alone. -/
theorem trim_of_ends (space : Char → Bool) (text : Chars)
    (first : ∀ c ∈ text.head?, space c = false) (last : ∀ c ∈ text.getLast?, space c = false) :
    trim space text = text := by
  have front : text.dropWhile space = text := by
    cases text with
    | nil => rfl
    | cons c rest => simp [first c (by simp)]
  rw [trim, front, List.rdropWhile_eq_self_iff]
  intro nonempty
  rw [Bool.not_eq_true]
  exact last _ (by rw [List.getLast?_eq_getLast_of_ne_nil nonempty]; simp)

/-- Trimming takes white space off both ends and nothing else. -/
theorem trim_spec (space : Char → Bool) (text : Chars) :
    ∃ front back, text = front ++ trim space text ++ back ∧
      (∀ c ∈ front, space c = true) ∧ ∀ c ∈ back, space c = true := by
  refine ⟨text.takeWhile space, (text.dropWhile space).rtakeWhile space, ?_, ?_, ?_⟩
  · rw [trim, List.append_assoc, List.rdropWhile_append_rtakeWhile, List.takeWhile_append_dropWhile]
  · intro c member
    exact List.mem_takeWhile_imp member
  · intro c member
    exact List.mem_rtakeWhile_imp member

theorem trim_last (space : Char → Bool) (text : Chars) :
    ∀ c ∈ (trim space text).getLast?, space c = false := by
  intro c last
  have nonempty : trim space text ≠ [] := by
    intro empty
    rw [empty] at last
    exact absurd last (by simp)
  rw [List.getLast?_eq_getLast_of_ne_nil nonempty, Option.mem_some_iff] at last
  have kept := List.rdropWhile_last_not space (text.dropWhile space) nonempty
  rw [← last]
  exact Bool.not_eq_true _ ▸ kept

theorem trim_head (space : Char → Bool) (text : Chars) :
    ∀ c ∈ (trim space text).head?, space c = false := by
  intro c first
  obtain ⟨back, whole⟩ := List.rdropWhile_prefix space (l := text.dropWhile space)
  obtain ⟨rest, shape⟩ := List.head?_eq_some_iff.mp first
  have head : (text.dropWhile space).head? = some c := by
    rw [← whole]
    change (trim space text ++ back).head? = some c
    rw [shape, List.cons_append, List.head?_cons]
  have kept := List.head?_dropWhile_not space text
  rw [head] at kept
  simpa using kept

/-- Text with white space on both sides of a core that has none at its ends. -/
theorem trim_append (space : Char → Bool) (front core back : Chars) (nonempty : core ≠ [])
    (first : ∀ c ∈ core.head?, space c = false) (last : ∀ c ∈ core.getLast?, space c = false)
    (before : ∀ c ∈ front, space c = true) (after : ∀ c ∈ back, space c = true) :
    trim space (front ++ core ++ back) = core := by
  have left : (front ++ core ++ back).dropWhile space = core ++ back := by
    rw [List.append_assoc, List.dropWhile_append_of_pos before]
    obtain ⟨c, rest, rfl⟩ := List.exists_cons_of_ne_nil nonempty
    rw [List.cons_append, List.dropWhile_cons_of_neg]
    rw [first c (by simp)]
    decide
  rw [trim, left]
  clear left
  induction back using List.reverseRecOn with
  | nil =>
    rw [List.append_nil, List.rdropWhile_eq_self_iff]
    intro inside
    rw [Bool.not_eq_true]
    exact last _ (by rw [List.getLast?_eq_getLast_of_ne_nil inside]; simp)
  | append_singleton back c ih =>
    rw [← List.append_assoc, List.rdropWhile_concat_pos _ _ _ (after c (by simp))]
    exact ih fun d member => after d (by simp [member])

/-- Without white space at its end, a text is its core behind white space. -/
theorem trim_front (space : Char → Bool) (text : Chars) (last : ∀ c ∈ text.getLast?, space c = false) :
    ∃ front, text = front ++ trim space text ∧ ∀ c ∈ front, space c = true := by
  obtain ⟨front, back, whole, before, after⟩ := trim_spec space text
  have noBack : back = [] := by
    by_contra some
    obtain ⟨more, c, rfl⟩ := (List.eq_nil_or_concat' back).resolve_left some
    have white := after c (by simp)
    rw [last c (by rw [whole]; simp)] at white
    exact absurd white (by decide)
  rw [noBack, List.append_nil] at whole
  exact ⟨front, whole, before⟩

theorem mem_of_mem_trim (space : Char → Bool) (text : Chars) (c : Char) (member : c ∈ trim space text) :
    c ∈ text := by
  obtain ⟨front, back, whole, _⟩ := trim_spec space text
  rw [whole]
  simp [member]

theorem trim_nil_of_all (space : Char → Bool) (text : Chars) (all : ∀ c ∈ text, space c = true) :
    trim space text = [] := by
  have front : text.dropWhile space = [] := List.dropWhile_eq_nil_iff.mpr all
  rw [trim, front, List.rdropWhile_nil]

theorem trim_nil_iff (space : Char → Bool) (text : Chars) :
    trim space text = [] ↔ ∀ c ∈ text, space c = true := by
  refine ⟨?_, trim_nil_of_all space text⟩
  intro empty c member
  obtain ⟨front, back, whole, before, after⟩ := trim_spec space text
  rw [empty, List.append_nil] at whole
  rw [whole] at member
  exact (List.mem_append.mp member).elim (before c) (after c)

section Pieces

variable {α : Type} (stop : α → Bool)

/-- A list is free of separators or has a first one. -/
theorem first_stop (text : List α) : (∀ c ∈ text, stop c = false) ∨
    ∃ front c back, text = front ++ c :: back ∧ (∀ d ∈ front, stop d = false) ∧ stop c = true := by
  induction text with
  | nil => exact Or.inl (by simp)
  | cons c rest ih =>
    by_cases here : stop c = true
    · exact Or.inr ⟨[], c, rest, rfl, by simp, here⟩
    · rw [Bool.not_eq_true] at here
      rcases ih with free | ⟨front, d, back, same, free, hit⟩
      · refine Or.inl ?_
        intro d member
        rcases List.mem_cons.mp member with rfl | later
        · exact here
        · exact free d later
      · refine Or.inr ⟨c :: front, d, back, by rw [same, List.cons_append], ?_, hit⟩
        intro e member
        rcases List.mem_cons.mp member with rfl | later
        · exact here
        · exact free e later

/-- A piece between separators is a stretch of the text that is free of them. -/
theorem mem_splitOnP (text piece : List α) (member : piece ∈ text.splitOnP stop) :
    (∀ c ∈ piece, stop c = false) ∧ ∃ front back, text = front ++ piece ++ back := by
  induction length : text.length using Nat.strong_induction_on generalizing text with
  | _ n ih =>
    rcases first_stop stop text with free | ⟨front, c, back, same, free, hit⟩
    · rw [List.splitOnP_eq_singleton free, List.mem_singleton] at member
      subst member
      exact ⟨free, [], [], by simp⟩
    · rw [same, List.splitOnP_append_cons_of_forall_mem free c hit] at member
      rcases List.mem_cons.mp member with rfl | later
      · exact ⟨free, [], c :: back, by simp [same]⟩
      · have shorter : back.length < n := by
          rw [← length, same, List.length_append, List.length_cons]
          omega
        obtain ⟨clean, u, v, whole⟩ := ih back.length shorter back later rfl
        exact ⟨clean, front ++ c :: u, v, by rw [same, whole]; simp⟩

/-- A symbol that occurs once lies in one piece only. -/
theorem only_piece [BEq α] [LawfulBEq α] (mark : α) (text one two : List α)
    (once : text.count mark ≤ 1) (first : one ∈ text.splitOnP stop) (second : two ∈ text.splitOnP stop)
    (inOne : mark ∈ one) (inTwo : mark ∈ two) : one = two := by
  induction length : text.length using Nat.strong_induction_on generalizing text with
  | _ n ih =>
    rcases first_stop stop text with free | ⟨front, c, back, same, free, hit⟩
    · rw [List.splitOnP_eq_singleton free, List.mem_singleton] at first second
      rw [first, second]
    · have shorter : back.length < n := by
        rw [← length, same, List.length_append, List.length_cons]
        omega
      rw [same, List.count_append, List.count_cons] at once
      have apart : ∀ piece ∈ back.splitOnP stop, mark ∈ piece → mark ∉ front := by
        intro piece member inside before
        obtain ⟨_, u, v, whole⟩ := mem_splitOnP stop back piece member
        have left := List.count_pos_iff.mpr before
        have right : 0 < back.count mark := List.count_pos_iff.mpr (by rw [whole]; simp [inside])
        omega
      rw [same, List.splitOnP_append_cons_of_forall_mem free c hit] at first second
      rcases List.mem_cons.mp first with rfl | later
      · rcases List.mem_cons.mp second with rfl | next
        · rfl
        · exact absurd inOne (apart two next inTwo)
      · rcases List.mem_cons.mp second with rfl | next
        · exact absurd inTwo (apart one later inOne)
        · exact ih back.length shorter back (by omega) later next rfl

/-- Splitting at more separators splits the pieces further. -/
theorem splitOnP_flatMap (coarse : α → Bool) (finer : ∀ c, coarse c = true → stop c = true)
    (text : List α) :
    text.splitOnP stop = (text.splitOnP coarse).flatMap fun piece => piece.splitOnP stop := by
  induction length : text.length using Nat.strong_induction_on generalizing text with
  | _ n ih =>
    rcases first_stop coarse text with free | ⟨front, c, back, same, free, hit⟩
    · rw [List.splitOnP_eq_singleton free, List.flatMap_singleton]
    · have shorter : back.length < n := by
        rw [← length, same, List.length_append, List.length_cons]
        omega
      rw [same, List.splitOnP_append_cons_of_forall_mem free c hit,
        List.splitOnP_append_cons _ _ (finer c hit), List.flatMap_cons, ← ih _ shorter back rfl]

/-- A stretch without separators stays together when the text around it is split. -/
theorem core_in_piece (front core back : List α) (free : ∀ c ∈ core, stop c = false) :
    ∃ left right, left ++ core ++ right ∈ (front ++ core ++ back).splitOnP stop ∧
      (∀ c ∈ left, c ∈ front ∧ stop c = false) ∧ ∀ c ∈ right, c ∈ back ∧ stop c = false := by
  induction length : front.length using Nat.strong_induction_on generalizing front with
  | _ n ih =>
    rcases first_stop stop front with clean | ⟨u, c, v, same, clean, hit⟩
    · rcases first_stop stop back with tail | ⟨u, c, v, same, tail, hit⟩
      · refine ⟨front, back, ?_, fun c member => ⟨member, clean c member⟩,
          fun c member => ⟨member, tail c member⟩⟩
        rw [List.splitOnP_eq_singleton, List.mem_singleton]
        intro c member
        simp only [List.mem_append] at member
        rcases member with (one | two) | three
        · exact clean c one
        · exact free c two
        · exact tail c three
      · refine ⟨front, u, ?_, fun c member => ⟨member, clean c member⟩,
          fun d member => ⟨by rw [same]; simp [member], tail d member⟩⟩
        rw [same, ← List.append_assoc, List.splitOnP_append_cons_of_forall_mem _ c hit]
        · exact List.mem_cons_self
        · intro d member
          simp only [List.mem_append] at member
          rcases member with (one | two) | three
          · exact clean d one
          · exact free d two
          · exact tail d three
    · have shorter : v.length < n := by
        rw [← length, same, List.length_append, List.length_cons]
        omega
      obtain ⟨left, right, member, before, after⟩ := ih v.length shorter v rfl
      refine ⟨left, right, ?_, fun d inside => ⟨by rw [same]; simp [(before d inside).1],
        (before d inside).2⟩, after⟩
      have shape : front ++ core ++ back = u ++ c :: (v ++ core ++ back) := by
        rw [same]
        simp
      rw [shape, List.splitOnP_append_cons_of_forall_mem clean c hit]
      exact List.mem_cons_of_mem _ member

end Pieces

/-- Past empty pieces, the lines of a text are cut into the same pieces as the text. -/
theorem lines_pieces (stop : Char → Bool) (feed : stop '\n' = true) (back : stop '\r' = true)
    (text raw : Chars) (nonempty : raw ≠ []) :
    raw ∈ text.splitOnP stop ↔ ∃ line ∈ lines text, raw ∈ line.splitOnP stop := by
  have strip : ∀ piece : Chars, raw ∈ piece.splitOnP stop ↔ raw ∈ (stripReturn piece).splitOnP stop := by
    intro piece
    by_cases last : piece.getLast? = some '\r'
    · have shape : piece = piece.dropLast ++ '\r' :: [] := by
        obtain ⟨front, same⟩ := List.getLast?_eq_some_iff.mp last
        rw [same, List.dropLast_concat]
      rw [stripReturn, if_pos last]
      conv_lhs => rw [shape, List.splitOnP_append_cons _ _ back, List.splitOnP_nil]
      simp [nonempty]
    · rw [stripReturn, if_neg last]
  have pieces : ∀ list : List Chars, (∃ piece ∈ list, raw ∈ piece.splitOnP stop) ↔
      ∃ line ∈ linesOf list, raw ∈ line.splitOnP stop := by
    intro list
    induction list using linesOf.induct with
    | case1 => simp [linesOf]
    | case2 => simp [linesOf, nonempty]
    | case3 last line => simp [linesOf, line]
    | case4 piece rest more ih =>
      rw [linesOf.eq_3 piece rest more]
      simp only [List.exists_mem_cons_iff]
      rw [strip piece, ih]
  have finer : ∀ c, (c == '\n') = true → stop c = true := by
    intro c same
    rw [beq_iff_eq.mp same]
    exact feed
  rw [splitOnP_flatMap stop (fun c => c == '\n') finer text, List.mem_flatMap, lines,
    List.splitOn_eq_splitOnP]
  exact pieces _

/-! ### Numerals and what they are printed from -/

theorem digitChar_of_digit (c : Char) (digit : c.isDigit = true) :
    c.toNat - '0'.toNat < 10 ∧ Nat.digitChar (c.toNat - '0'.toNat) = c := by
  have bounds : 48 ≤ c.toNat ∧ c.toNat ≤ 57 := by
    simp only [Char.isDigit, Bool.and_eq_true, decide_eq_true_eq, ge_iff_le, UInt32.le_iff_toNat_le] at digit
    exact digit
  have zero : '0'.toNat = 48 := rfl
  have small : c.toNat - '0'.toNat < 10 := by omega
  refine ⟨small, Char.toNat_inj.mp ?_⟩
  rw [Nat.toNat_digitChar_of_lt_ten small]
  omega

/-- Digits behind a positive number continue its decimal form. -/
theorem toDigits_append_digits (text : Chars) (digits : ∀ c ∈ text, c.isDigit = true) (n : Nat) (positive : 0 < n) :
    Nat.toDigits 10 n ++ text = Nat.toDigits 10 (Nat.ofDigitChars 10 text n) := by
  induction text generalizing n with
  | nil => rw [List.append_nil, Nat.ofDigitChars_nil]
  | cons c rest ih =>
    obtain ⟨small, char⟩ := digitChar_of_digit c (digits c List.mem_cons_self)
    have step := @Nat.toDigits_append_toDigits 10 n (c.toNat - '0'.toNat) (by decide) positive small
    rw [Nat.toDigits_of_lt_base small, char] at step
    have later := ih (fun d member => digits d (List.mem_cons_of_mem _ member)) (10 * n + (c.toNat - '0'.toNat))
      (by omega)
    rw [Nat.ofDigitChars_cons, ← later, ← step, List.append_assoc, List.singleton_append]

/-- A numeral is leading zeros before the decimal form of its value. -/
theorem numeral_some_iff (text : Chars) (n : Nat) :
    numeral text = some n ↔ ∃ zeros, text = List.replicate zeros '0' ++ Nat.toDigits 10 n := by
  constructor
  · intro read
    have digits : isNumeral text = true := by
      by_contra other
      simp [numeral, other] at read
    rw [numeral, if_pos digits, Option.some.injEq] at read
    simp only [isNumeral, Bool.and_eq_true, Bool.not_eq_true', List.isEmpty_eq_false_iff, List.all_eq_true] at digits
    obtain ⟨nonempty, digits⟩ := digits
    subst read
    induction text with
    | nil => exact absurd rfl nonempty
    | cons c rest ih =>
      obtain ⟨small, char⟩ := digitChar_of_digit c (digits c List.mem_cons_self)
      have tail : ∀ d ∈ rest, d.isDigit = true := fun d member => digits d (List.mem_cons_of_mem _ member)
      by_cases zero : c = '0'
      · subst zero
        by_cases last : rest = []
        · subst last
          exact ⟨0, rfl⟩
        · obtain ⟨zeros, same⟩ := ih last tail
          refine ⟨zeros + 1, ?_⟩
          rw [Nat.ofDigitChars_cons, List.replicate_succ, List.cons_append]
          exact congrArg (List.cons '0') same
      · have positive : 0 < c.toNat - '0'.toNat := by
          by_contra none
          have value : c.toNat - '0'.toNat = 0 := by omega
          rw [value] at char
          exact zero char.symm
        have whole := toDigits_append_digits rest tail (c.toNat - '0'.toNat) positive
        rw [Nat.toDigits_of_lt_base small, char] at whole
        refine ⟨0, ?_⟩
        rw [Nat.ofDigitChars_cons, Nat.mul_zero, Nat.zero_add, ← whole]
        rfl
  · rintro ⟨zeros, rfl⟩
    have digits : isNumeral (List.replicate zeros '0' ++ Nat.toDigits 10 n) = true := by
      simp only [isNumeral, Bool.and_eq_true, Bool.not_eq_true', List.isEmpty_eq_false_iff, List.all_eq_true]
      refine ⟨fun empty => Nat.toDigits_ne_nil (List.append_eq_nil_iff.mp empty).2, fun c member => ?_⟩
      rcases List.mem_append.mp member with lead | tail
      · rw [List.eq_of_mem_replicate lead]
        rfl
      · exact Nat.isDigit_of_mem_toDigits (by decide) (by decide) tail
    rw [numeral, if_pos digits, Nat.ofDigitChars_append, Nat.ofDigitChars_replicate_zero, Nat.mul_zero,
      Nat.ofDigitChars_ten_toDigits]

end ShadowVpn.Lib.Text
