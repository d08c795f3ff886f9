import ShadowVpn.Engine.Logging

/-! The log view of the app, `LogsView`: it reads the end of the file that the core mirrors its records
into, and shows it line by line. -/

namespace ShadowVpn.App.LogsView
open ShadowVpn.Lib.Octets ShadowVpn.Lib.Text ShadowVpn.Lib.Utf8 ShadowVpn.Lib.Files ShadowVpn.Lib.Lines
open ShadowVpn.Lib.Transition ShadowVpn.Lib.Histories ShadowVpn.Engine.Logging

/-- `LogsView.tailByteLimit`. -/
def tailByteLimit : Nat := 256 * 1024

/-- `data.suffix(tailByteLimit)` of longer data. -/
def window (data : Bytes) : Bytes :=
  if tailByteLimit < data.length then data.drop (data.length - tailByteLimit) else data

/-- Without the empty row behind a final line feed. -/
def trimmed (rows : List Chars) : List Chars := if rows.getLast? = some [] then rows.dropLast else rows

/-- The rows of the view. -/
def reload (data : Option Bytes) : List Chars :=
  match data with
  | none | some [] => []
  | some data =>
    let rows := splitFeeds (lossy (window data))
    trimmed (if tailByteLimit < data.length ∧ 1 < rows.length then rows.tail else rows)

/-- The rows that the view has of the log as it is. -/
def view (s : Logs) : List Chars := reload ((s.volume.names .log).map s.volume.data)

/-- The row of an unfinished line. -/
def partRow (part : Bytes) : List Chars := if part = [] then [] else [lossy part]

/-- What is shown of whole lines and the part of one more: all of them if they fit; else as many as are
shorter together than the limit, even where one more would just fit. -/
def Shown (lines : List Bytes) (part : Bytes) (rows : List Chars) : Prop :=
  if tailByteLimit ≤ part.length then rows = [lossy (part.drop (part.length - tailByteLimit))]
  else if (joined lines).length + part.length ≤ tailByteLimit then rows = lines.map lossy ++ partRow part
  else ∃ older line recent, lines = older ++ line :: recent ∧ rows = recent.map lossy ++ partRow part ∧
    (joined recent).length + part.length < tailByteLimit ∧
      tailByteLimit ≤ (joined (line :: recent)).length + part.length

theorem lossy_nonempty {data : Bytes} (some : data ≠ []) : lossy data ≠ [] := by
  cases data with
  | nil => exact absurd rfl some
  | cons b rest =>
    intro none
    rw [lossy, List.map_eq_nil_iff] at none
    cases none

theorem trimmed_concat (rows : List Chars) (part : Bytes) : trimmed (rows ++ [lossy part]) = rows ++ partRow part := by
  rw [trimmed, List.getLast?_concat, List.dropLast_concat, partRow]
  by_cases none : part = []
  · rw [none]
    exact (List.append_nil rows).symm
  · rw [if_neg none, if_neg]
    exact fun same => lossy_nonempty none (Option.some.inj same)

theorem window_whole {data : Bytes} (fits : data.length ≤ tailByteLimit) : window data = data :=
  if_neg (Nat.not_lt.mpr fits)

theorem reload_some {data : Bytes} (some : data ≠ []) : reload (.some data) =
    trimmed (if tailByteLimit < data.length ∧ 1 < (splitFeeds (lossy (window data))).length then
      (splitFeeds (lossy (window data))).tail else splitFeeds (lossy (window data))) := by
  cases data with
  | nil => exact absurd rfl some
  | cons b rest => rfl

/-- Data that fits is shown whole. -/
theorem reload_whole {data : Bytes} (fits : data.length ≤ tailByteLimit) (some : data ≠ []) :
    reload (.some data) = trimmed (splitFeeds (lossy data)) := by
  rw [reload_some some, window_whole fits, if_neg]
  exact fun both => absurd both.1 (Nat.not_lt.mpr fits)

/-- Of longer data the window is shown, without its first row if there are more. -/
theorem reload_cut {data : Bytes} (long : tailByteLimit < data.length) {row : Chars} {rows : List Chars}
    (split : splitFeeds (lossy (data.drop (data.length - tailByteLimit))) = row :: rows) :
    reload (some data) = trimmed (if rows = [] then [row] else rows) := by
  have cut : window data = data.drop (data.length - tailByteLimit) := if_pos long
  rw [reload_some (List.ne_nil_of_length_pos (Nat.zero_lt_of_lt long)), cut, split]
  cases rows with
  | nil => rw [if_neg fun both => absurd both.2 (Nat.lt_irrefl 1), if_pos rfl]
  | cons second more =>
    rw [if_pos ⟨long, Nat.succ_lt_succ (Nat.succ_pos _)⟩, if_neg (List.cons_ne_nil second more), List.tail_cons]

theorem split_plain {text : Bytes} (plain : Plain text) : splitFeeds (lossy text) = [lossy text] :=
  @split_joined [] text (fun _ member => nomatch member) plain

variable {lines : List Bytes} {part : Bytes}

/-- The window lies within the part. -/
theorem reload_part (last : Plain part) (long : tailByteLimit ≤ part.length) :
    reload (some (joined lines ++ part)) = [lossy (part.drop (part.length - tailByteLimit))] := by
  have limit : 0 < tailByteLimit := by decide
  have total : (joined lines ++ part).length = (joined lines).length + part.length := List.length_append
  have single : trimmed [lossy (part.drop (part.length - tailByteLimit))] =
      [lossy (part.drop (part.length - tailByteLimit))] := by
    have nonempty : part.drop (part.length - tailByteLimit) ≠ [] := by
      rw [Ne, List.drop_eq_nil_iff]
      omega
    rw [trimmed, List.getLast?_singleton, if_neg fun same => lossy_nonempty nonempty (Option.some.inj same)]
  by_cases beyond : tailByteLimit < (joined lines ++ part).length
  · have cut : (joined lines ++ part).drop ((joined lines ++ part).length - tailByteLimit) =
        part.drop (part.length - tailByteLimit) := by
      have offset : (joined lines).length + part.length - tailByteLimit - (joined lines).length =
          part.length - tailByteLimit := by omega
      rw [total, List.drop_append, List.drop_eq_nil_of_le (by omega), List.nil_append, offset]
    have rows := split_plain (last.drop (part.length - tailByteLimit))
    rw [← cut] at rows
    rw [reload_cut beyond rows, if_pos rfl, cut]
    exact single
  · have none : joined lines = [] := List.length_eq_zero_iff.mp (by omega)
    have start : part.length - tailByteLimit = 0 := by omega
    rw [start, List.drop_zero] at single ⊢
    rw [none, List.nil_append] at beyond ⊢
    have nonempty : part ≠ [] := List.ne_nil_of_length_pos (Nat.lt_of_lt_of_le limit long)
    rw [reload_whole (Nat.le_of_not_lt beyond) nonempty, split_plain last]
    exact single

theorem reload_all (plain : ∀ line ∈ lines, Plain line) (last : Plain part)
    (fits : (joined lines).length + part.length ≤ tailByteLimit) :
    reload (some (joined lines ++ part)) = lines.map lossy ++ partRow part := by
  by_cases empty : joined lines ++ part = []
  · obtain ⟨whole, rfl⟩ := List.append_eq_nil_iff.mp empty
    cases lines with
    | nil => rfl
    | cons line rest =>
      rw [joined_cons] at whole
      exact absurd (List.append_eq_nil_iff.mp whole).2 (List.cons_ne_nil _ _)
  · rw [reload_whole (List.length_append.trans_le fits) empty, split_joined plain last, trimmed_concat]

/-- The window starts in a line, or at its start; that line is not shown. -/
theorem reload_recent (plain : ∀ line ∈ lines, Plain line) (last : Plain part) (short : part.length < tailByteLimit)
    (beyond : tailByteLimit < (joined lines).length + part.length) : ∃ older line recent,
    lines = older ++ line :: recent ∧
    reload (some (joined lines ++ part)) = recent.map lossy ++ partRow part ∧
      (joined recent).length + part.length < tailByteLimit ∧
        tailByteLimit ≤ (joined (line :: recent)).length + part.length := by
  have inside : (joined lines).length + part.length - tailByteLimit < (joined lines).length := by omega
  obtain ⟨older, line, recent, shape, cut, low, high⟩ := cut_joined inside
  have front : (joined (line :: recent)).length = line.length + 1 + (joined recent).length := by
    rw [joined_cons, List.length_append, List.length_cons]
    omega
  have sizes : (joined lines).length = (joined older).length + (joined (line :: recent)).length := by
    rw [shape, joined_append, List.length_append]
  refine ⟨older, line, recent, shape, ?_, by omega, by omega⟩
  have later : ∀ l ∈ line :: recent, Plain l :=
    fun l member => plain l (shape ▸ List.mem_append_right older member)
  obtain ⟨here, behind⟩ := List.forall_mem_cons.mp later
  generalize (joined lines).length + part.length - tailByteLimit - (joined older).length = k at cut
  have rows : splitFeeds (lossy ((joined lines ++ part).drop ((joined lines ++ part).length - tailByteLimit))) =
      lossy (line.drop k) :: (recent.map lossy ++ [lossy part]) := by
    have again := split_joined (List.forall_mem_cons.mpr ⟨here.drop k, behind⟩) last
    rw [joined_cons, List.map_cons, List.cons_append] at again
    rw [List.length_append, List.drop_append_of_le_length (by omega), cut]
    exact again
  have long : tailByteLimit < (joined lines ++ part).length := by
    rw [List.length_append]
    exact beyond
  rw [reload_cut long rows, if_neg (List.append_ne_nil_of_right_ne_nil _ (List.cons_ne_nil _ _)), trimmed_concat]

/-- A file of whole lines and a part of one more is shown so. -/
theorem reload_shown (plain : ∀ line ∈ lines, Plain line) (last : Plain part) :
    Shown lines part (reload (some (joined lines ++ part))) := by
  unfold Shown
  split
  · next long => exact reload_part last long
  · next short =>
    split
    · next fits => exact reload_all plain last fits
    · next beyond => exact reload_recent plain last (Nat.lt_of_not_le short) (Nat.lt_of_not_le beyond)

/-! ### What is shown of the records -/

/-- Nothing is lost on the way to the file, and no message has a carriage return. -/
def calm (s : Logs) (event : Event) : Bool :=
  whole s event && match event with
    | .log record => !record.message.contains '\r'
    | _ => true

/-- The lines of a record; a message can have several. -/
def recordLines (r : Record) : List Bytes := linesOf r.text

theorem joined_record (r : Record) : joined (recordLines r) = r.line := joined_lines r.text

theorem joined_records (records : List Record) :
    joined (records.flatMap recordLines) = records.flatMap Record.line := by
  induction records with
  | nil => rfl
  | cons r rest ih => rw [List.flatMap_cons, List.flatMap_cons, joined_append, joined_record, ih]

theorem text_no_return {r : Record} (clean : '\r' ∉ r.message) : '\r' ∉ r.text := by
  have number (n : Nat) : '\r' ∉ twoDigits n := by
    have digits : '\r' ∉ Nat.toDigits 10 n := not_mem_toDigits '\r' n (by decide)
    unfold twoDigits
    split
    · exact List.not_mem_cons_of_ne_of_not_mem (by decide) digits
    · exact digits
  have level : '\r' ∉ padded r.level.name.toList := by
    cases r.level with
    | error => decide
    | warn => decide
    | info => decide
    | debug => decide
    | trace => decide
  simp only [Record.text, List.mem_append, List.mem_cons, not_or]
  exact ⟨⟨⟨⟨number _, by decide, number _⟩, by decide, number _⟩, by decide, level⟩, by decide, clean⟩

theorem plain_records {records : List Record} (clean : ∀ r ∈ records, '\r' ∉ r.message) :
    ∀ line ∈ records.flatMap recordLines, Plain line := by
  intro line member
  obtain ⟨r, inside, here⟩ := List.mem_flatMap.mp member
  exact plain_lines (text_no_return (clean r inside)) line here

variable {events : List Moment} {s : Logs}

theorem logged_clean (trace : Trace step (fun s event => calm s event = true) Engine.Logging.initial events s)
    (file : Nat) : ∀ r ∈ events.flatMap (loggedTo file), '\r' ∉ r.message := by
  have shown := trace.shows (loggedTo file) (fun r => '\r' ∉ r.message) (fun _ => True)
    (fun _ _ _ _ _ _ => trivial)
    (fun before event after _ ok _ r member => by
      unfold loggedTo at member
      split at member
      · next record label =>
        dsimp only at label
        subst label
        split at member
        · rw [List.mem_singleton.mp member]
          have clean := (Bool.and_eq_true_iff.mp ok).2
          simpa using clean
        · cases member
      · cases member) trivial
  exact shown.2

/-- The view shows the records that were logged to the file under the log's name since it was made, whole
but for one that is being written, whose beginning comes last. -/
theorem log_view (trace : Trace step (fun s event => calm s event = true) Engine.Logging.initial events s) :
    (s.volume.names .log = none → view s = []) ∧
    ∀ file, s.volume.names .log = some file →
      (unwritten s file = [] → Shown ((events.flatMap (loggedTo file)).flatMap recordLines) [] (view s)) ∧
      (unwritten s file ≠ [] → ∃ before r front line back k,
        events.flatMap (loggedTo file) = before ++ [r] ∧ recordLines r = front ++ line :: back ∧
        k ≤ line.length ∧ r.line = joined front ++ line.take k ++ unwritten s file ∧
        Shown (before.flatMap recordLines ++ front) (line.take k) (view s)) := by
  have recorded : Recorded events s := run_recorded (trace.mono fun _ _ ok => (Bool.and_eq_true_iff.mp ok).1)
  refine ⟨fun absent => by rw [view, absent]; rfl, fun file named => ?_⟩
  have shows : view s = reload (some (s.volume.data file)) := by rw [view, named]; rfl
  have content := recorded.content file (s.volume.known _ _ named)
  have clean := logged_clean trace file
  constructor
  · intro finished
    rw [finished, List.append_nil, ← joined_records, ← List.append_nil (joined _)] at content
    rw [shows, content]
    exact reload_shown (plain_records clean) ⟨List.not_mem_nil, List.not_mem_nil⟩
  · intro open_
    have part : ∃ rest, s.writing = some (file, rest) := by
      cases now : s.writing with
      | none => exact absurd (unwritten_free now file) open_
      | some part =>
        obtain ⟨other, rest⟩ := part
        by_cases same : other = file
        · exact ⟨rest, same ▸ rfl⟩
        · exact absurd (unwritten_other now (Ne.symm same)) open_
    obtain ⟨rest, writing⟩ := part
    obtain ⟨before, r, k, last, inside, tail⟩ := recorded.writing file rest writing
    have rline := joined_record r
    obtain ⟨front, line, back, j, shape, short, head⟩ := head_joined (rline.symm ▸ inside)
    rw [rline] at head
    rw [last] at clean
    obtain ⟨early, own⟩ := List.forall_mem_append.mp clean
    have lines := plain_lines (text_no_return (own r List.mem_cons_self))
    change ∀ line ∈ recordLines r, Plain line at lines
    rw [shape] at lines
    obtain ⟨fronts, here⟩ := List.forall_mem_append.mp lines
    have whole : r.line = joined front ++ line.take j ++ unwritten s file := by
      rw [unwritten_here writing, tail, ← head, List.take_append_drop]
    refine ⟨before, r, front, line, back, j, last, shape, short, whole, ?_⟩
    have data : s.volume.data file = joined (before.flatMap recordLines ++ front) ++ line.take j := by
      rw [last, List.flatMap_append, List.flatMap_singleton, whole, ← List.append_assoc] at content
      rw [List.append_cancel_right content, joined_append, joined_records, List.append_assoc]
    rw [shows, data]
    exact reload_shown (List.forall_mem_append.mpr ⟨plain_records early, fronts⟩)
      ((here line List.mem_cons_self).take j)

def sampleOpened : List Event := [.setLogFile true, .proceed 0 true, .proceed 0 true, .proceed 0 true]

/-- A record of two lines, and the beginning of another one. -/
def sampleLogged : List Event :=
  [.log ⟨.info, ['u', 'p', '\n', 'o', 'n'], 0⟩, .write 21, .log ⟨.warn, ['l', 'a', 't', 'e'], 61⟩, .write 9]

/-- The unfinished record is shown up to what was written of it. -/
theorem sample_log_view : ∃ events s, Trace step (fun s event => calm s event = true) Engine.Logging.initial events s ∧
    view s = ["00:00:00 INFO  up".toList, "on".toList, "00:01:01 ".toList] ∧ unwritten s 0 ≠ [] ∧
    ∃ before r front line back k,
      events.flatMap (loggedTo 0) = before ++ [r] ∧ recordLines r = front ++ line :: back ∧
      k ≤ line.length ∧ r.line = joined front ++ line.take k ++ unwritten s 0 ∧
      Shown (before.flatMap recordLines ++ front) (line.take k) (view s) := by
  have ran : (testedRun step calm Engine.Logging.initial (sampleOpened ++ sampleLogged)).map
      (fun s => (view s, s.volume.names .log, decide (unwritten s 0 = []))) =
      some (["00:00:00 INFO  up".toList, "on".toList, "00:01:01 ".toList], some 0, false) := by decide +kernel
  obtain ⟨s, ran, same⟩ := Option.map_eq_some_iff.mp ran
  obtain ⟨rows, rest⟩ := Prod.mk.inj same
  obtain ⟨named, open_⟩ := Prod.mk.inj rest
  have trace := trace_of_testedRun ran
  exact ⟨_, s, trace, rows, of_decide_eq_false open_, ((log_view trace).2 0 named).2 (of_decide_eq_false open_)⟩

/-- Once the user has cleared the log, the view stays empty until a call opens the file again: what is
logged till then goes to the old file. -/
theorem cleared_stays_empty {cleared t : Logs} {later : List Moment}
    (trace : Trace step (fun _ _ => True) Engine.Logging.initial events s)
    (clear : step s (.clear true) = some cleared)
    (rest : Trace step (fun s event => opens s event = false) cleared later t) : view t = [] := by
  have held := run_held trace
  have detached : Detached cleared := Option.some.inj clear ▸ clear_detached held
  have both := rest.invariant (fun _ s => Held s ∧ Detached s)
    (fun _ _ _ _ kept quiet taken => ⟨step_held kept.1 taken, step_detached kept.1 kept.2 quiet taken⟩)
    ⟨step_held held clear, detached⟩
  unfold view
  cases named : t.volume.names .log with
  | none => rfl
  | some file =>
    rw [Option.map_some, both.2.empty file named]
    rfl

/-- A record that is logged after a clear does not show. -/
theorem sample_cleared : ∃ s cleared t later, step s (.clear true) = some cleared ∧
    Trace step (fun s event => opens s event = false) cleared later t ∧ (view s).length = 2 ∧
      (t.volume.data 0).length = 41 ∧ view t = [] := by
  have first : (run step Engine.Logging.initial (sampleOpened ++ sampleLogged.take 2)).map
      (fun s => (view s).length) = some 2 := by decide +kernel
  obtain ⟨s, before, shown⟩ := Option.map_eq_some_iff.mp first
  have second : (run step Engine.Logging.initial (sampleOpened ++ sampleLogged.take 2)).bind (fun s =>
      (step s (.clear true)).bind fun cleared =>
        (testedRun step (fun s event => !opens s event) cleared (sampleLogged.drop 2 ++ [.write 11])).map
          fun t => (t.volume.data 0).length) = some 41 := by decide +kernel
  rw [before, Option.bind_some] at second
  obtain ⟨cleared, clear, after⟩ := Option.bind_eq_some_iff.mp second
  obtain ⟨t, ran, size⟩ := Option.map_eq_some_iff.mp after
  have rest : Trace step (fun s event => opens s event = false) cleared _ t :=
    (trace_of_testedRun ran).mono fun _ _ ok => Bool.not_eq_true' _ ▸ ok
  exact ⟨s, cleared, t, _, clear, rest, shown, size, cleared_stays_empty (trace_of_run before) clear rest⟩

end ShadowVpn.App.LogsView
