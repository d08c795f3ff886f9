import ShadowVpn.Lib.Lines
import ShadowVpn.Lib.Histories
import ShadowVpn.Policy.Cache

/-! The path of a country's file over the C interface: the provider calls `svpn_country_cidrs_file` once
for the length of the path and once more with a buffer of that length. -/

namespace ShadowVpn.Policy.Resolving
open ShadowVpn.Lib.Octets ShadowVpn.Lib.Text ShadowVpn.Lib.Utf8 ShadowVpn.Lib.Files ShadowVpn.Lib.Transition
open ShadowVpn.Lib.Histories ShadowVpn.Policy.Country ShadowVpn.Policy.Cache

/-- What the function leaves in a buffer of `out_cap` bytes. -/
def copyOut (path : Bytes) (outCap : Nat) : Bytes :=
  if 0 < outCap then path.take (min path.length (outCap - 1)) ++ [0] else []

/-- `stringWithUTF8String:`. -/
def stringWithUTF8String (buffer : Bytes) : Option Chars := fromUtf8 (buffer.takeWhile fun b => b ≠ 0)

/-- What `resolveCountryCIDRURLForCountry:` makes of its two calls. -/
def resolve (first second : Except Chars Chars) : Option Chars :=
  match first, second with
  | .ok measured, .ok path =>
    match stringWithUTF8String (copyOut (utf8 path) ((utf8 measured).length + 1)) with
    | some path => if path.isEmpty then none else some path
    | none => none
  | _, _ => none

section Runs

variable {shipped : Shipped} {cacheDir : Chars}

abbrev Moment (shipped : Shipped) := Lib.Histories.Event (Directory shipped) (Cache.Event shipped)

/-- No two calls share a temporary file, and metadata that are there can be read. -/
def plain (c : Directory shipped) (event : Cache.Event shipped) : Bool :=
  unshared c event && match event with
    | .blind _ => false
    | _ => true

/-- A call that has returned a path by the first of the two moments settles those that look for the same
file at the second: they return the path without walking the database, the whole file is behind it, and
it comes whole over the C interface. -/
def Settles (cacheDir : Chars) (moment later : Moment shipped) : Prop :=
  ∀ first ∈ moment.after.calls, ∀ path, first.pc = .returned (.ok path) → ∀ index count other,
    later.label = .advance index count → later.before.calls[index]? = some other → other.pc = .stat →
    other.key = first.key →
      (later.after.calls[index]?).map Call.pc = some (.returned (.ok path)) ∧
      (∃ file text, later.after.volume.names first.key.cacheFile = some file ∧
        build shipped first.mmdb first.key.code = .ok text ∧ later.after.volume.data file = text) ∧
      ('\x00' ∉ cacheDir → resolve (.ok path) (.ok path) = some path)

/-- Whoever has a cache file by now has one for good. -/
def Kept (cacheDir : Chars) (events : List (Moment shipped)) (c : Directory shipped) : Prop :=
  ∀ moment ∈ events, ∀ first ∈ moment.after.calls, ∀ path, first.pc = .returned (.ok path) →
    path = pathString cacheDir first.key.cacheFile ∧ (c.volume.names first.key.cacheFile).isSome = true

theorem rename_keeps {volume renamed : Volume Chars} {key : Key} (moved : volume.rename key.tmpFile key.cacheFile =
    some renamed) (other : Key) (there : (volume.names other.cacheFile).isSome = true) :
    (renamed.names other.cacheFile).isSome = true := by
  obtain ⟨file, _, _, _, names⟩ := Volume.rename_some moved
  rw [names]
  by_cases same : other.cacheFile = key.cacheFile
  · rw [same, Function.update_self]
    rfl
  · rw [Function.update_of_ne same, Function.update_of_ne (cacheFile_ne_tmpFile other key)]
    exact there

/-- No step takes the name of a cache file away. -/
theorem step_keeps {c after : Directory shipped} {event : Cache.Event shipped}
    (taken : step cacheDir c event = some after) (key : Key) (there : (c.volume.names key.cacheFile).isSome = true) :
    (after.volume.names key.cacheFile).isSome = true := by
  cases event with
  | call mmdb held country =>
    obtain rfl := Option.some.inj taken
    exact there
  | advance index count =>
    obtain ⟨call, found, taken⟩ := Option.bind_eq_some_iff.mp taken
    unfold advance at taken
    split at taken
    · split at taken
      · split at taken
        · obtain rfl := Option.some.inj taken
          exact there
        · obtain rfl := Option.some.inj taken
          exact there
      · obtain rfl := Option.some.inj taken
        exact there
    · obtain rfl := Option.some.inj taken
      change ((c.volume.create call.key.tmpFile).names key.cacheFile).isSome = true
      rw [Volume.create_names_other _ (cacheFile_ne_tmpFile key call.key)]
      exact there
    · split at taken
      · split at taken
        · cases taken
        · obtain rfl := Option.some.inj taken
          exact there
      · split at taken
        · next renamed moved =>
          obtain rfl := Option.some.inj taken
          exact rename_keeps moved key there
        · obtain rfl := Option.some.inj taken
          exact there
    · cases taken
  | blind index =>
    obtain ⟨call, found, taken⟩ := Option.bind_eq_some_iff.mp taken
    split at taken
    · obtain rfl := Option.some.inj taken
      exact there
    · cases taken
  | fail index message =>
    obtain ⟨call, found, taken⟩ := Option.bind_eq_some_iff.mp taken
    obtain ⟨text, failed, taken⟩ := Option.bind_eq_some_iff.mp taken
    obtain rfl := Option.some.inj taken
    exact there
  | crash index =>
    obtain ⟨call, found, taken⟩ := Option.bind_eq_some_iff.mp taken
    split at taken
    · cases taken
    · obtain rfl := Option.some.inj taken
      exact there
  | openFile key =>
    obtain ⟨file, named, rfl⟩ := Option.map_eq_some_iff.mp taken
    exact there

theorem built_nonempty {mmdb text : Bytes} {code : Chars} (built : build shipped mmdb code = .ok text) : text ≠ [] := by
  unfold build at built
  split at built
  · cases built
  · split at built
    · cases built
    · next items read text' made =>
      have same := Except.ok.inj built
      unfold buildCountryCidrs at made
      dsimp only at made
      split at made
      · cases made
      · rw [← same, ← Except.ok.inj made]
        exact List.cons_ne_nil _ _

/-- A cache file is not empty, so the look at its metadata is enough. -/
theorem stat_returns {c after : Directory shipped} {call : Call shipped} {index count : Nat} (sound : Sound cacheDir c)
    (there : (c.volume.names call.key.cacheFile).isSome = true) (waits : call.pc = .stat)
    (taken : advance cacheDir c index count call = some after) :
    after = set c index call (.returned (.ok (pathString cacheDir call.key.cacheFile))) := by
  obtain ⟨file, named⟩ := Option.isSome_iff_exists.mp there
  obtain ⟨mmdb, text, _, _, built, content⟩ := sound.cached call.key file named
  have size : c.volume.size call.key.cacheFile = some (c.volume.data file).length := by
    rw [Volume.size, named, Option.map_some]
  have some : (c.volume.data file).length > 0 := by
    rw [content]
    exact List.length_pos_iff.mpr (built_nonempty built)
  unfold advance at taken
  rw [waits] at taken
  simp only [size, if_pos some, Option.some.injEq] at taken
  exact taken.symm

/-- A path without a NUL comes through a buffer of its length and one more. -/
theorem resolve_whole {path : Chars} (filled : path ≠ []) (clean : '\x00' ∉ path) :
    resolve (.ok path) (.ok path) = some path := by
  have copied : copyOut (utf8 path) ((utf8 path).length + 1) = utf8 path ++ [0] := by
    rw [copyOut, if_pos (Nat.succ_pos _), Nat.add_sub_cancel, Nat.min_self, List.take_length]
  have plain : ∀ b ∈ utf8 path, decide (b ≠ 0) = true := by
    intro b member
    rw [decide_eq_true_iff]
    rintro rfl
    exact clean (Lib.Lines.mem_utf8 member (by decide))
  have read : stringWithUTF8String (utf8 path ++ [0]) = some path := by
    rw [stringWithUTF8String, List.takeWhile_append_of_pos plain, List.takeWhile_cons_of_neg (by decide),
      List.append_nil, fromUtf8_utf8]
  have visible : ¬path.isEmpty = true := fun empty => filled (List.isEmpty_iff.mp empty)
  simp only [resolve, copied, read, if_neg visible]

theorem path_clean {key : Key} (clean : '\x00' ∉ cacheDir) (code : '\x00' ∉ key.code) :
    '\x00' ∉ pathString cacheDir key.cacheFile := by
  have digits : '\x00' ∉ Nat.toDigits 10 key.mmdbLen := not_mem_toDigits '\x00' _ (by decide)
  have front : '\x00' ∉ "chnroute-".toList := by decide
  have back : '\x00' ∉ ".txt".toList := by decide
  unfold pathString Key.cacheFile
  generalize "chnroute-".toList = one at front
  generalize ".txt".toList = two at back
  generalize Nat.toDigits 10 key.mmdbLen = number at digits
  split
  · simp [clean, front, code, digits, back]
  · simp [clean, front, code, digits, back]

theorem path_visible (cacheDir : Chars) (key : Key) : pathString cacheDir key.cacheFile ≠ [] := by
  have named : key.cacheFile ≠ [] := List.append_ne_nil_of_left_ne_nil (List.append_ne_nil_of_right_ne_nil _
    (List.cons_ne_nil _ _)) _
  unfold pathString
  split
  · exact List.append_ne_nil_of_right_ne_nil _ named
  · exact List.append_ne_nil_of_right_ne_nil _ (List.cons_ne_nil _ _)

theorem normalized_clean (country : Chars) : '\x00' ∉ normalizeCountry country := by
  intro member
  obtain ⟨c, inside, same⟩ := List.mem_map.mp member
  have large := toUpper_toNat c (List.mem_filter.mp inside).2
  rw [same] at large
  exact absurd large (by decide)

/-- At a moment at which a call looks for a file that a call before it has returned. -/
theorem settled {c after : Directory shipped} {first other : Call shipped} {path : Chars} {index count : Nat}
    (sound : Sound cacheDir c) (same : path = pathString cacheDir first.key.cacheFile)
    (there : (c.volume.names first.key.cacheFile).isSome = true) (found : c.calls[index]? = some other)
    (waits : other.pc = .stat) (key : other.key = first.key)
    (taken : step cacheDir c (.advance index count) = some after) :
    (after.calls[index]?).map Call.pc = some (.returned (.ok path)) ∧
    (∃ file text, after.volume.names first.key.cacheFile = some file ∧
      build shipped first.mmdb first.key.code = .ok text ∧ after.volume.data file = text) ∧
    ('\x00' ∉ cacheDir → resolve (.ok path) (.ok path) = some path) := by
  obtain ⟨call, here, taken⟩ := Option.bind_eq_some_iff.mp taken
  obtain rfl := Option.some.inj (found.symm.trans here)
  rw [stat_returns sound (key ▸ there) waits taken, key, ← same]
  refine ⟨?_, ?_, ?_⟩
  · have inside := (List.getElem?_eq_some_iff.mp found).1
    change ((c.calls.set index _)[index]?).map Call.pc = _
    rw [List.getElem?_set_self inside, Option.map_some]
  · obtain ⟨file, named⟩ := Option.isSome_iff_exists.mp there
    obtain ⟨mmdb, text, held, len, built, content⟩ := sound.cached first.key file named
    obtain rfl := shipped.lengths mmdb first.mmdb held first.held len
    exact ⟨file, text, named, built, content⟩
  · intro clean
    apply resolve_whole
    · rw [same]
      exact path_visible cacheDir first.key
    · rw [same]
      exact path_clean clean (normalized_clean first.country)

/-- The database is walked for a country only until a call for it has returned: from then on, whatever
other calls do, each call returns at its first step with the path of the whole file, and the provider
gets that path from its two calls. -/
theorem walked_before_return {events : List (Moment shipped)} {c : Directory shipped}
    (trace : Trace (step cacheDir) (fun c event => plain c event = true) (initial shipped) events c) :
    events.Pairwise (Settles cacheDir) := by
  have kept := trace.invariant
    (fun events c => Sound cacheDir c ∧ Kept cacheDir events c ∧ events.Pairwise (Settles cacheDir))
    ?_ ⟨initial_sound shipped cacheDir, fun _ member => absurd member List.not_mem_nil, .nil⟩
  · exact kept.2.2
  · rintro events c event after ⟨sound, kept, settles⟩ ok taken
    have calm := (Bool.and_eq_true_iff.mp ok).1
    have next : Sound cacheDir after := step_sound sound calm taken
    refine ⟨next, ?_, ?_⟩
    · intro moment member first listed path returned
      rcases List.mem_append.mp member with old | new
      · obtain ⟨same, there⟩ := kept moment old first listed path returned
        exact ⟨same, step_keeps taken first.key there⟩
      · rw [List.mem_singleton.mp new] at listed
        have fine := next.fine first listed
        rw [Fine, returned] at fine
        exact fine
    · apply List.pairwise_append.mpr
      refine ⟨settles, List.pairwise_singleton _ _, ?_⟩
      intro moment member later new first listed path returned index count other label found waits key
      rw [List.mem_singleton.mp new] at label found ⊢
      dsimp only at label
      subst label
      obtain ⟨same, there⟩ := kept moment member first listed path returned
      exact settled sound same there found waits key taken

theorem sample_held : sampleShipped.holds [1] := rfl

/-- The provider's second call, while a call for another country has begun. -/
def sampleCalls : List (Cache.Event sampleShipped) :=
  [ask, .advance 0 0, .advance 0 0, .advance 0 154, .call [1] sample_held ['x'], .advance 0 0, ask, .advance 2 0]

theorem sample_walked : ∃ events c, Trace (step ['d']) (fun c event => plain c event = true)
    (initial sampleShipped) events c ∧ events.Pairwise (Settles ['d']) ∧ c.calls.length = 3 := by
  have ran : (testedRun (step ['d']) plain (initial sampleShipped) sampleCalls).map (fun c => c.calls.length) =
      some 3 := by decide +kernel
  obtain ⟨c, ran, length⟩ := Option.map_eq_some_iff.mp ran
  have trace := trace_of_testedRun ran
  exact ⟨_, c, trace, walked_before_return trace, length⟩

end Runs

end ShadowVpn.Policy.Resolving
