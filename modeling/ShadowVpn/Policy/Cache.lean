import ShadowVpn.Lib.Files
import ShadowVpn.Lib.Transition
import ShadowVpn.Lib.Utf8
import ShadowVpn.Policy.Country

/-! The cache of `country.rs`: any number of `ensure_country_file` calls on one directory, cut at their
file-system steps, and readers that open a cache file at any time. -/

namespace ShadowVpn.Policy.Cache
open ShadowVpn.Lib ShadowVpn.Lib.Octets ShadowVpn.Lib.Text ShadowVpn.Lib.Transition ShadowVpn.Lib.Files
open ShadowVpn.Lib.Utf8 ShadowVpn.Policy.Country

/-- The databases that are ever shipped, and what a reader finds in one: its entries or an error. -/
structure Shipped where
  holds : Bytes → Prop
  read : Bytes → Except Chars (List Item)
  lengths : ∀ one two, holds one → holds two → one.length = two.length → one = two

/-- A country's normalized code and the length of a database. -/
structure Key where
  code : Chars
  mmdbLen : Nat
  deriving DecidableEq

namespace Key

def cacheFile (key : Key) : Chars :=
  "chnroute-".toList ++ key.code ++ '-' :: Nat.toDigits 10 key.mmdbLen ++ ".txt".toList

/-- `with_extension("txt.tmp")`. -/
def tmpFile (key : Key) : Chars := key.cacheFile ++ ".tmp".toList

end Key

section Calls

variable (shipped : Shipped) (cacheDir : Chars)

/-- `dir.join(name)` as a string: no slash is added behind one, or to an empty path. -/
def pathString (name : Chars) : Chars :=
  if cacheDir = [] ∨ cacheDir.getLast? = some '/' then cacheDir ++ name else cacheDir ++ '/' :: name

/-- `build_country_cidrs`, in bytes. -/
def build (mmdb : Bytes) (code : Chars) : Except Chars Bytes :=
  match shipped.read mmdb with
  | .error e => .error e
  | .ok items =>
    match buildCountryCidrs code items with
    | .error e => .error e
    | .ok text => .ok (utf8 text)

inductive Pc where
  | stat
  | create (text : Bytes)
  | write (text : Bytes) (file written : Nat)
  | returned (result : Except Chars Chars)
  | crashed

structure Call where
  mmdb : Bytes
  held : shipped.holds mmdb
  country : Chars
  pc : Pc

def Call.key (call : Call shipped) : Key := ⟨normalizeCountry call.country, call.mmdb.length⟩

structure Reader where
  key : Key
  file : Nat

structure Directory where
  volume : Volume Chars
  calls : List (Call shipped)
  readers : List Reader

inductive Event where
  | call (mmdb : Bytes) (held : shipped.holds mmdb) (country : Chars)
  /-- The next step of a call; a write takes this many bytes at most. -/
  | advance (index count : Nat)
  /-- The cache file is there, but its metadata cannot be read. -/
  | blind (index : Nat)
  /-- The next step fails, and so does the call. -/
  | fail (index : Nat) (message : Chars)
  | crash (index : Nat)
  | openFile (key : Key)

def initial : Directory shipped := ⟨.empty, [], []⟩

variable {shipped}

/-- The text is built; what follows is `write_atomic`. -/
def slowPath (call : Call shipped) : Pc :=
  match build shipped call.mmdb call.key.code with
  | .error e => .returned (.error e)
  | .ok text => .create text

def set (c : Directory shipped) (index : Nat) (call : Call shipped) (pc : Pc) : Directory shipped :=
  { c with calls := c.calls.set index { call with pc := pc } }

def advance (c : Directory shipped) (index count : Nat) (call : Call shipped) : Option (Directory shipped) :=
  match call.pc with
  | .stat =>
    match c.volume.size call.key.cacheFile with
    | some len =>
      if len > 0 then some (set c index call (.returned (.ok (pathString cacheDir call.key.cacheFile))))
      else some (set c index call (slowPath call))
    | none => some (set c index call (slowPath call))
  | .create text =>
    some (set { c with volume := c.volume.create call.key.tmpFile } index call
      (.write text (c.volume.target call.key.tmpFile) 0))
  | .write text file written =>
    if written < text.length then
      let chunk := (text.drop written).take count
      if count = 0 then none
      else some (set { c with volume := c.volume.write file written chunk } index call
        (.write text file (written + chunk.length)))
    else
      match c.volume.rename call.key.tmpFile call.key.cacheFile with
      | some renamed => some (set { c with volume := renamed } index call
          (.returned (.ok (pathString cacheDir call.key.cacheFile))))
      | none => some (set c index call (.returned (.error ("rename into ".toList ++
          pathString cacheDir call.key.cacheFile ++ ": No such file or directory (os error 2)".toList))))
  | _ => none

/-- The text of a step that fails: of reading the metadata or making the directory, of writing, of
renaming. -/
def failure (call : Call shipped) (message : Chars) : Option Chars :=
  match call.pc with
  | .stat => some message
  | .create _ => some ("write ".toList ++ pathString cacheDir call.key.tmpFile ++ ": ".toList ++ message)
  | .write text _ written =>
    if written < text.length then
      some ("write ".toList ++ pathString cacheDir call.key.tmpFile ++ ": ".toList ++ message)
    else some ("rename into ".toList ++ pathString cacheDir call.key.cacheFile ++ ": ".toList ++ message)
  | _ => none

def step (c : Directory shipped) : Event shipped → Option (Directory shipped)
  | .call mmdb held country =>
    let code := normalizeCountry country
    let pc := if code.isEmpty then Pc.returned (.error "country code is empty / not alphanumeric".toList) else .stat
    some { c with calls := c.calls ++ [⟨mmdb, held, country, pc⟩] }
  | .advance index count => do
    let call ← c.calls[index]?
    advance cacheDir c index count call
  | .blind index => do
    let call ← c.calls[index]?
    match call.pc with
    | .stat => some (set c index call (slowPath call))
    | _ => none
  | .fail index message => do
    let call ← c.calls[index]?
    let text ← failure cacheDir call message
    some (set c index call (.returned (.error text)))
  | .crash index => do
    let call ← c.calls[index]?
    match call.pc with
    | .returned _ => none
    | _ => some (set c index call .crashed)
  | .openFile key => (c.volume.names key.cacheFile).map fun file => { c with readers := c.readers ++ [⟨key, file⟩] }

/-- The call is between the creation of its temporary file and the renaming. -/
def Call.writing (call : Call shipped) : Bool :=
  match call.pc with
  | .write _ _ _ => true
  | _ => false

/-- A call creates its temporary file only while no call is writing the one of the same cache file. -/
def unshared (c : Directory shipped) : Event shipped → Bool
  | .advance index _ => (c.calls[index]?).all fun call =>
    match call.pc with
    | .create _ => c.calls.all fun other => !(other.writing && other.key == call.key)
    | _ => true
  | _ => true

variable (shipped) in
/-- The file holds the whole text for the country and the database of this length. -/
def Complete (volume : Volume Chars) (key : Key) (file : Nat) : Prop :=
  ∃ mmdb text, shipped.holds mmdb ∧ mmdb.length = key.mmdbLen ∧ build shipped mmdb key.code = .ok text ∧
    volume.data file = text

/-- Behind the path of every successful call is the whole text, and so it is in every cache file that a
reader has opened. -/
structure Whole (c : Directory shipped) : Prop where
  returned : ∀ call ∈ c.calls, ∀ path, call.pc = .returned (.ok path) →
    path = pathString cacheDir call.key.cacheFile ∧ ∃ file text,
      c.volume.names call.key.cacheFile = some file ∧ build shipped call.mmdb call.key.code = .ok text ∧
        c.volume.data file = text
  readers : ∀ reader ∈ c.readers, Complete shipped c.volume reader.key reader.file

/-- What each position of a call promises. -/
def Fine (volume : Volume Chars) (call : Call shipped) : Prop :=
  match call.pc with
  | .create text => build shipped call.mmdb call.key.code = .ok text
  | .write text file written => build shipped call.mmdb call.key.code = .ok text ∧
      volume.names call.key.tmpFile = some file ∧ volume.data file = text.take written
  | .returned (.ok path) => path = pathString cacheDir call.key.cacheFile ∧
      (volume.names call.key.cacheFile).isSome = true
  | _ => True

/-- Cache files and what readers have open are whole, temporary files are nobody else's, and each has
one writer. -/
structure Sound (c : Directory shipped) : Prop where
  cached : ∀ (key : Key) file, c.volume.names key.cacheFile = some file →
    Complete shipped c.volume key file
  reading : ∀ reader ∈ c.readers, reader.file < c.volume.next ∧
    Complete shipped c.volume reader.key reader.file
  own : ∀ (key : Key) file, c.volume.names key.tmpFile = some file →
    (∀ other : Key, c.volume.names other.cacheFile ≠ some file) ∧ (∀ reader ∈ c.readers, reader.file ≠ file) ∧
      ∀ other : Key, c.volume.names other.tmpFile = some file → other = key
  fine : ∀ call ∈ c.calls, Fine cacheDir c.volume call
  single : ∀ (i j : Nat) (one two : Call shipped), c.calls[i]? = some one → c.calls[j]? = some two →
    one.writing = true → two.writing = true → one.key = two.key → i = j

end Calls

section Names

theorem cacheFile_inj {one two : Key} (same : one.cacheFile = two.cacheFile) : one = two := by
  have middle : one.code ++ '-' :: Nat.toDigits 10 one.mmdbLen = two.code ++ '-' :: Nat.toDigits 10 two.mmdbLen := by
    have whole := List.append_cancel_right same
    rw [List.append_assoc, List.append_assoc] at whole
    exact List.append_cancel_left whole
  have split (key : Key) : splitOnce '-' (key.code ++ '-' :: Nat.toDigits 10 key.mmdbLen).reverse =
      some ((Nat.toDigits 10 key.mmdbLen).reverse, key.code.reverse) := by
    have shape : (key.code ++ '-' :: Nat.toDigits 10 key.mmdbLen).reverse =
        (Nat.toDigits 10 key.mmdbLen).reverse ++ '-' :: key.code.reverse := by simp
    rw [shape, splitOnce_append]
    rw [List.mem_reverse]
    exact not_mem_toDigits '-' _ (by decide)
  have parts := split one
  rw [middle, split two] at parts
  obtain ⟨digits, code⟩ := Prod.mk.inj (Option.some.inj parts)
  have len : two.mmdbLen = one.mmdbLen := by
    have read := numeral_toDigits one.mmdbLen
    rw [← List.reverse_inj.mp digits, numeral_toDigits] at read
    exact Option.some.inj read
  obtain ⟨code1, len1⟩ := one
  obtain ⟨code2, len2⟩ := two
  rw [Key.mk.injEq]
  exact ⟨(List.reverse_inj.mp code).symm, len.symm⟩

theorem tmpFile_inj {one two : Key} (same : one.tmpFile = two.tmpFile) : one = two :=
  cacheFile_inj (List.append_cancel_right same)

theorem ends_apart (a b : Chars) : a ++ ['.', 't', 'x', 't'] ≠ b ++ ['.', 't', 'm', 'p'] := by
  intro same
  have last := congrArg List.getLast? same
  rw [List.getLast?_append, List.getLast?_append] at last
  cases last

theorem cacheFile_ne_tmpFile (one two : Key) : one.cacheFile ≠ two.tmpFile := by
  have cacheEnd : ".txt".toList = ['.', 't', 'x', 't'] := by decide +kernel
  have tmpEnd : ".tmp".toList = ['.', 't', 'm', 'p'] := by decide +kernel
  unfold Key.tmpFile
  rw [tmpEnd]
  generalize two.cacheFile = stem
  dsimp only [Key.cacheFile]
  rw [cacheEnd]
  exact ends_apart _ _

end Names

section Steps

variable {shipped : Shipped} {cacheDir : Chars} {c : Directory shipped} {index : Nat} {call : Call shipped} {pc : Pc}

theorem mem_set {other : Call shipped} (member : other ∈ (set c index call pc).calls) :
    other = { call with pc := pc } ∨ ∃ j, j ≠ index ∧ c.calls[j]? = some other := by
  obtain ⟨j, found⟩ := List.mem_iff_getElem?.mp member
  rw [set, List.getElem?_set] at found
  split at found
  · split at found
    · exact .inl (Option.some.inj found).symm
    · cases found
  · next differ => exact .inr ⟨j, fun same => differ same.symm, found⟩

theorem Complete.kept {volume other : Volume Chars} {key : Key} {file : Nat}
    (whole : Complete shipped volume key file) (same : other.data file = volume.data file) :
    Complete shipped other key file := by
  obtain ⟨mmdb, text, held, len, built, content⟩ := whole
  exact ⟨mmdb, text, held, len, built, same.trans content⟩

/-- A call is not disturbed while its temporary file stays as it is and its cache file keeps its name. -/
theorem Fine.frame {volume next : Volume Chars} (fine : Fine cacheDir volume call)
    (temporary : ∀ file, call.writing = true → volume.names call.key.tmpFile = some file →
      next.names call.key.tmpFile = some file ∧ next.data file = volume.data file)
    (cache : (volume.names call.key.cacheFile).isSome = true → (next.names call.key.cacheFile).isSome = true) :
    Fine cacheDir next call := by
  unfold Fine Call.writing at *
  split at fine
  · exact fine
  · next text file written position =>
    simp only [position, forall_const] at temporary ⊢
    obtain ⟨built, named, content⟩ := fine
    obtain ⟨kept, same⟩ := temporary file named
    exact ⟨built, kept, same.trans content⟩
  · exact ⟨fine.1, cache fine.2⟩
  · trivial

/-- One call goes on and the volume changes: what is to be shown. -/
theorem Sound.update {volume : Volume Chars} (sound : Sound cacheDir c)
    (grown : c.volume.next ≤ volume.next)
    (cached : ∀ (key : Key) file, volume.names key.cacheFile = some file → Complete shipped volume key file)
    (reading : ∀ reader ∈ c.readers, Complete shipped volume reader.key reader.file)
    (own : ∀ (key : Key) file, volume.names key.tmpFile = some file →
      (∀ other : Key, volume.names other.cacheFile ≠ some file) ∧ (∀ reader ∈ c.readers, reader.file ≠ file) ∧
        ∀ other : Key, volume.names other.tmpFile = some file → other = key)
    (others : ∀ j other, j ≠ index → c.calls[j]? = some other → Fine cacheDir volume other)
    (new : Fine cacheDir volume { call with pc := pc })
    (alone : Call.writing { call with pc := pc } = true → ∀ j other, j ≠ index → c.calls[j]? = some other →
      other.writing = true → other.key ≠ call.key) :
    Sound cacheDir (set { c with volume := volume } index call pc) where
  cached := cached
  reading := fun reader member => ⟨Nat.lt_of_lt_of_le (sound.reading reader member).1 grown, reading reader member⟩
  own := own
  fine := by
    intro other member
    rcases mem_set member with rfl | ⟨j, differ, found⟩
    · exact new
    · exact others j other differ found
  single := by
    intro i j one two first second writes1 writes2 same
    rw [set, List.getElem?_set] at first second
    split at first
    · next here =>
      split at second
      · next there => exact here.symm.trans there
      · next there =>
        split at first
        · obtain rfl := Option.some.inj first
          exact absurd same.symm (alone writes1 j two (fun equal => there equal.symm) second writes2)
        · cases first
    · next here =>
      split at second
      · next there =>
        split at second
        · obtain rfl := Option.some.inj second
          exact absurd same (alone writes2 i one (fun equal => here equal.symm) first writes1)
        · cases second
      · exact sound.single i j one two first second writes1 writes2 same

/-- A call that touches no file goes on to a position that is not writing. -/
theorem Sound.goOn (sound : Sound cacheDir c) (new : Fine cacheDir c.volume { call with pc := pc })
    (idle : Call.writing { call with pc := pc } = false) : Sound cacheDir (set c index call pc) := by
  refine Sound.update sound (Nat.le_refl _) sound.cached (fun reader member => (sound.reading reader member).2)
    sound.own (fun j other _ found => sound.fine other (List.mem_of_getElem? found)) new ?_
  intro writes
  rw [idle] at writes
  cases writes

theorem slowPath_fine (volume : Volume Chars) : Fine cacheDir volume { call with pc := slowPath call } := by
  unfold slowPath
  split
  · trivial
  · next text built => exact built

theorem slowPath_idle : Call.writing { call with pc := slowPath call } = false := by
  unfold slowPath
  split <;> rfl

/-- A file that is no temporary one and not new is not the target of a creation. -/
theorem ne_target {key : Key} {file : Nat} (held : file < c.volume.next)
    (other : ∀ own : Key, c.volume.names own.tmpFile ≠ some file) : file ≠ c.volume.target key.tmpFile := by
  rintro rfl
  rcases c.volume.target_cases key.tmpFile with known | ⟨_, fresh⟩
  · exact other key known
  · omega

theorem Sound.create {text : Bytes} (sound : Sound cacheDir c)
    (built : build shipped call.mmdb call.key.code = .ok text)
    (unshared : ∀ other ∈ c.calls, other.writing = true → other.key ≠ call.key) :
    Sound cacheDir (set { c with volume := c.volume.create call.key.tmpFile } index call
      (.write text (c.volume.target call.key.tmpFile) 0)) := by
  have cachedNames (key : Key) : (c.volume.create call.key.tmpFile).names key.cacheFile =
      c.volume.names key.cacheFile := Volume.create_names_other _ (cacheFile_ne_tmpFile _ _)
  have tmpNames {key : Key} (differ : key ≠ call.key) : (c.volume.create call.key.tmpFile).names key.tmpFile =
      c.volume.names key.tmpFile := Volume.create_names_other _ fun same => differ (tmpFile_inj same)
  have cachedApart {key : Key} {file : Nat} (named : c.volume.names key.cacheFile = some file) :
      file ≠ c.volume.target call.key.tmpFile :=
    ne_target (c.volume.known _ _ named) fun own known => (sound.own own file known).1 key named
  have readApart {reader : Reader} (member : reader ∈ c.readers) :
      reader.file ≠ c.volume.target call.key.tmpFile :=
    ne_target (sound.reading reader member).1 fun own known => (sound.own own _ known).2.1 reader member rfl
  have tmpApart {key : Key} {file : Nat} (differ : key ≠ call.key)
      (named : c.volume.names key.tmpFile = some file) : file ≠ c.volume.target call.key.tmpFile := by
    rintro rfl
    rcases c.volume.target_cases call.key.tmpFile with known | ⟨_, fresh⟩
    · exact differ ((sound.own call.key _ known).2.2 key named)
    · have bound := c.volume.known _ _ named
      omega
  apply sound.update (c.volume.next_le_create _)
  case cached =>
    intro key file named
    rw [cachedNames] at named
    exact (sound.cached key file named).kept (Volume.create_data_other _ _ (cachedApart named))
  case reading =>
    intro reader member
    exact (sound.reading reader member).2.kept (Volume.create_data_other _ _ (readApart member))
  case own =>
    intro key file named
    by_cases same : key = call.key
    · subst same
      rw [Volume.create_names] at named
      obtain rfl := Option.some.inj named
      refine ⟨?_, fun reader member => readApart member, ?_⟩
      · intro other named
        rw [cachedNames] at named
        exact cachedApart named rfl
      · intro other named
        by_contra differ
        rw [tmpNames differ] at named
        exact tmpApart differ named rfl
    · rw [tmpNames same] at named
      obtain ⟨cached, reading, unique⟩ := sound.own key file named
      refine ⟨fun other => cachedNames other ▸ cached other, reading, ?_⟩
      intro other named2
      by_cases equal : other = call.key
      · subst equal
        rw [Volume.create_names] at named2
        exact absurd (Option.some.inj named2).symm (tmpApart same named)
      · rw [tmpNames equal] at named2
        exact unique other named2
  case others =>
    intro j other _ found
    have member := List.mem_of_getElem? found
    apply (sound.fine other member).frame
    · intro file writes named
      have differ := unshared other member writes
      exact ⟨(tmpNames differ).trans named, Volume.create_data_other _ _ (tmpApart differ named)⟩
    · intro there
      rw [cachedNames]
      exact there
  case new => exact ⟨built, Volume.create_names _ _, Volume.create_data _ _⟩
  case alone => exact fun _ j other _ found writes => unshared other (List.mem_of_getElem? found) writes

theorem Sound.write {text : Bytes} {file written : Nat} (count : Nat) (sound : Sound cacheDir c)
    (found : c.calls[index]? = some call) (position : call.pc = .write text file written)
    (more : written < text.length) :
    Sound cacheDir (set { c with volume := c.volume.write file written ((text.drop written).take count) } index call
      (.write text file (written + ((text.drop written).take count).length))) := by
  have here := sound.fine call (List.mem_of_getElem? found)
  simp only [Fine, position] at here
  obtain ⟨built, named, content⟩ := here
  obtain ⟨apart, unread, unique⟩ := sound.own call.key file named
  have callWrites : call.writing = true := by rw [Call.writing, position]
  apply sound.update (c.volume.write_next file written _).ge
  case cached =>
    intro key other known
    refine (sound.cached key other known).kept (Volume.write_data_other _ _ _ ?_)
    rintro rfl
    exact apart key known
  case reading =>
    intro reader member
    exact (sound.reading reader member).2.kept (Volume.write_data_other _ _ _ (unread reader member))
  case own => exact sound.own
  case others =>
    intro j other differ known
    apply (sound.fine other (List.mem_of_getElem? known)).frame
    · intro file2 otherWrites named2
      refine ⟨named2, Volume.write_data_other _ _ _ ?_⟩
      rintro rfl
      exact differ (sound.single j index other call known found otherWrites callWrites (unique _ named2))
    · exact fun there => there
  case new =>
    refine ⟨built, named, ?_⟩
    rw [Volume.write_data, content, writeAt_take _ _ _ _ (by rw [List.length_take]; omega), List.length_take,
      List.length_drop, List.take_eq_take_iff]
    omega
  case alone =>
    intro _ j other differ known otherWrites same
    exact differ (sound.single j index other call known found otherWrites callWrites same)

theorem Sound.rename {volume : Volume Chars} {text : Bytes} {file written : Nat} (sound : Sound cacheDir c)
    (found : c.calls[index]? = some call) (position : call.pc = .write text file written)
    (done : text.length ≤ written) (renamed : c.volume.rename call.key.tmpFile call.key.cacheFile = some volume) :
    Sound cacheDir (set { c with volume := volume } index call
      (.returned (.ok (pathString cacheDir call.key.cacheFile)))) := by
  have here := sound.fine call (List.mem_of_getElem? found)
  simp only [Fine, position] at here
  obtain ⟨built, named, content⟩ := here
  rw [List.take_of_length_le done] at content
  obtain ⟨moved, known, data, next, names⟩ := Volume.rename_some renamed
  obtain rfl := Option.some.inj (known.symm.trans named)
  obtain ⟨apart, unread, unique⟩ := sound.own call.key moved named
  have callWrites : call.writing = true := by rw [Call.writing, position]
  have cachedNew : volume.names call.key.cacheFile = some moved := by rw [names, Function.update_self]
  have cachedOld {key : Key} (differ : key ≠ call.key) :
      volume.names key.cacheFile = c.volume.names key.cacheFile := by
    rw [names, Function.update_of_ne fun same => differ (cacheFile_inj same),
      Function.update_of_ne (cacheFile_ne_tmpFile _ _)]
  have tmpNew : volume.names call.key.tmpFile = none := by
    rw [names, Function.update_of_ne (cacheFile_ne_tmpFile _ _).symm, Function.update_self]
  have tmpOld {key : Key} (differ : key ≠ call.key) : volume.names key.tmpFile = c.volume.names key.tmpFile := by
    rw [names, Function.update_of_ne (cacheFile_ne_tmpFile _ _).symm,
      Function.update_of_ne fun same => differ (tmpFile_inj same)]
  apply sound.update next.ge
  case cached =>
    intro key file open_
    by_cases same : key = call.key
    · subst same
      obtain rfl := Option.some.inj (cachedNew.symm.trans open_)
      exact ⟨call.mmdb, text, call.held, rfl, built, data ▸ content⟩
    · rw [cachedOld same] at open_
      exact (sound.cached key file open_).kept (congrFun data file)
  case reading => exact fun reader member => (sound.reading reader member).2.kept (congrFun data _)
  case own =>
    intro key file temporary
    by_cases same : key = call.key
    · subst same
      rw [tmpNew] at temporary
      cases temporary
    rw [tmpOld same] at temporary
    obtain ⟨apart2, unread2, unique2⟩ := sound.own key file temporary
    refine ⟨?_, unread2, ?_⟩
    · intro other cache
      by_cases equal : other = call.key
      · subst equal
        obtain rfl := Option.some.inj (cachedNew.symm.trans cache)
        exact same (unique key temporary)
      · rw [cachedOld equal] at cache
        exact apart2 other cache
    · intro other temporary2
      by_cases equal : other = call.key
      · subst equal
        rw [tmpNew] at temporary2
        cases temporary2
      · rw [tmpOld equal] at temporary2
        exact unique2 other temporary2
  case others =>
    intro j other differ known
    apply (sound.fine other (List.mem_of_getElem? known)).frame
    · intro file2 otherWrites named2
      have keys : other.key ≠ call.key := fun same =>
        differ (sound.single j index other call known found otherWrites callWrites same)
      exact ⟨(tmpOld keys).trans named2, congrFun data file2⟩
    · intro there
      by_cases same : other.key = call.key
      · rw [same, cachedNew]
        rfl
      · rw [cachedOld same]
        exact there
  case new =>
    refine ⟨rfl, ?_⟩
    change (volume.names call.key.cacheFile).isSome = true
    rw [cachedNew]
    rfl
  case alone => exact fun writes => absurd writes (by simp [Call.writing])

theorem Sound.begun {new : Call shipped} (sound : Sound cacheDir c)
    (start : new.pc = .stat ∨ ∃ e, new.pc = .returned (.error e)) :
    Sound cacheDir { c with calls := c.calls ++ [new] } where
  cached := sound.cached
  reading := sound.reading
  own := sound.own
  fine := by
    intro other member
    rcases List.mem_append.mp member with old | last
    · exact sound.fine other old
    · obtain rfl := List.mem_singleton.mp last
      rcases start with position | ⟨e, position⟩ <;> simp [Fine, position]
  single := by
    have idle : new.writing = false := by
      rcases start with position | ⟨e, position⟩ <;> simp [Call.writing, position]
    have old {i : Nat} {one : Call shipped} (first : (c.calls ++ [new])[i]? = some one)
        (writes : one.writing = true) : c.calls[i]? = some one := by
      rw [List.getElem?_append] at first
      split at first
      · exact first
      · obtain rfl := List.mem_singleton.mp (List.mem_of_getElem? first)
        rw [idle] at writes
        cases writes
    intro i j one two first second writes1 writes2
    exact sound.single i j one two (old first writes1) (old second writes2) writes1 writes2

theorem Sound.opened {key : Key} {file : Nat} (sound : Sound cacheDir c)
    (named : c.volume.names key.cacheFile = some file) :
    Sound cacheDir { c with readers := c.readers ++ [⟨key, file⟩] } where
  cached := sound.cached
  reading := by
    intro reader member
    rcases List.mem_append.mp member with old | last
    · exact sound.reading reader old
    · obtain rfl := List.mem_singleton.mp last
      exact ⟨c.volume.known _ _ named, sound.cached key file named⟩
  own := by
    intro other temporary known
    obtain ⟨apart, unread, unique⟩ := sound.own other temporary known
    refine ⟨apart, ?_, unique⟩
    intro reader member
    rcases List.mem_append.mp member with old | last
    · exact unread reader old
    · obtain rfl := List.mem_singleton.mp last
      rintro rfl
      exact apart key named
  fine := sound.fine
  single := sound.single

theorem advance_sound {count : Nat} {after : Directory shipped} (sound : Sound cacheDir c)
    (found : c.calls[index]? = some call) (calm : unshared c (.advance index count) = true)
    (taken : advance cacheDir c index count call = some after) : Sound cacheDir after := by
  unfold advance at taken
  split at taken
  · split at taken
    · next len there =>
      split at taken
      · obtain rfl := Option.some.inj taken
        refine sound.goOn ⟨rfl, ?_⟩ rfl
        rw [Volume.size, Option.map_eq_some_iff] at there
        obtain ⟨file, named, _⟩ := there
        exact Option.isSome_of_eq_some named
      · obtain rfl := Option.some.inj taken
        exact sound.goOn (slowPath_fine _) slowPath_idle
    · obtain rfl := Option.some.inj taken
      exact sound.goOn (slowPath_fine _) slowPath_idle
  · next text position =>
    obtain rfl := Option.some.inj taken
    have built := sound.fine call (List.mem_of_getElem? found)
    simp only [Fine, position] at built
    apply sound.create built
    intro other member writes same
    simp only [unshared, found, Option.all_some, position, List.all_eq_true] at calm
    have free := calm other member
    simp [writes, same] at free
  · next text file written position =>
    split at taken
    · next more =>
      split at taken
      · cases taken
      · obtain rfl := Option.some.inj taken
        exact sound.write count found position more
    · next done =>
      split at taken
      · next renamed moved =>
        obtain rfl := Option.some.inj taken
        exact sound.rename found position (Nat.le_of_not_lt done) moved
      · obtain rfl := Option.some.inj taken
        exact sound.goOn trivial rfl
  · cases taken

theorem step_sound {event : Event shipped} {after : Directory shipped} (sound : Sound cacheDir c)
    (calm : unshared c event = true) (taken : step cacheDir c event = some after) : Sound cacheDir after := by
  cases event with
  | call mmdb held country =>
    obtain rfl := Option.some.inj taken
    apply sound.begun
    split
    · exact .inr ⟨_, rfl⟩
    · exact .inl rfl
  | advance index count =>
    obtain ⟨call, found, taken⟩ := Option.bind_eq_some_iff.mp taken
    exact advance_sound sound found calm taken
  | blind index =>
    obtain ⟨call, found, taken⟩ := Option.bind_eq_some_iff.mp taken
    split at taken
    · obtain rfl := Option.some.inj taken
      exact sound.goOn (slowPath_fine _) slowPath_idle
    · cases taken
  | fail index message =>
    obtain ⟨call, found, taken⟩ := Option.bind_eq_some_iff.mp taken
    obtain ⟨text, failed, taken⟩ := Option.bind_eq_some_iff.mp taken
    obtain rfl := Option.some.inj taken
    exact sound.goOn trivial rfl
  | crash index =>
    obtain ⟨call, found, taken⟩ := Option.bind_eq_some_iff.mp taken
    split at taken
    · cases taken
    · obtain rfl := Option.some.inj taken
      exact sound.goOn trivial rfl
  | openFile key =>
    obtain ⟨file, named, rfl⟩ := Option.map_eq_some_iff.mp taken
    exact sound.opened named

/-- Two databases of one length are one, so what a cache file holds is what the call would build. -/
theorem Sound.whole (sound : Sound cacheDir c) : Whole cacheDir c where
  returned := by
    intro call member path position
    have fine := sound.fine call member
    simp only [Fine, position] at fine
    obtain ⟨same, there⟩ := fine
    obtain ⟨file, named⟩ := Option.isSome_iff_exists.mp there
    obtain ⟨mmdb, text, held, len, built, content⟩ := sound.cached call.key file named
    obtain rfl := shipped.lengths mmdb call.mmdb held call.held len
    exact ⟨same, file, text, named, built, content⟩
  readers := fun reader member => (sound.reading reader member).2

end Steps

theorem initial_sound (shipped : Shipped) (cacheDir : Chars) : Sound cacheDir (initial shipped) where
  cached := fun _ _ named => nomatch named
  reading := fun _ member => absurd member List.not_mem_nil
  own := fun _ _ named => nomatch named
  fine := fun _ member => absurd member List.not_mem_nil
  single := fun _ _ _ _ first => nomatch first

theorem cache_whole (shipped : Shipped) (cacheDir : Chars) (c : Directory shipped)
    (reached : Reaches (step cacheDir) (fun c event => unshared c event = true) (initial shipped) c) :
    Whole cacheDir c :=
  Sound.whole (reached.invariant (Sound cacheDir) (fun _ _ _ sound calm taken => step_sound sound calm taken)
    (initial_sound shipped cacheDir))

/-- One database, with one network of 1.0.1.0/24 under the code `CN`. -/
def sampleShipped : Shipped where
  holds := (· = [1])
  read := fun _ => .ok [sampleItem]
  lengths := fun _ _ first second _ => first.trans second.symm

def sampleKey : Key := ⟨['C', 'N'], 1⟩

def ask : Event sampleShipped := .call [1] rfl ['c', 'n']

/-- The lengths of what the readers read. -/
def readLengths (c : Directory sampleShipped) : List Nat :=
  c.readers.map fun reader => (c.volume.data reader.file).length

/-- A call crashes in the middle of its writing, another one writes the file, a third one finds it. -/
theorem sample_cache_whole : ∃ c, Reaches (step ['d']) (fun c event => unshared c event = true)
    (initial sampleShipped) c ∧ readLengths c = [154] ∧ Whole ['d'] c := by
  have ran : (testedRun (step ['d']) unshared (initial sampleShipped)
      [ask, .advance 0 0, .advance 0 0, .advance 0 40, .crash 0, ask, .advance 1 0, .advance 1 0, .advance 1 100,
        .advance 1 100, .advance 1 0, ask, .advance 2 0, .openFile sampleKey]).map readLengths = some [154] := by
    decide +kernel
  obtain ⟨c, ran, lengths⟩ := Option.map_eq_some_iff.mp ran
  have reached := reaches_of_testedRun ran
  exact ⟨c, reached, lengths, cache_whole sampleShipped ['d'] c reached⟩

theorem sample_text (text : Bytes) (built : build sampleShipped [1] ['C', 'N'] = .ok text) : text.length = 154 := by
  have size : (build sampleShipped [1] ['C', 'N']).toOption.map List.length = some 154 := by decide +kernel
  rw [built] at size
  exact Option.some.inj size

/-- Both calls find no file. The second one truncates what the first one has written, and the first one
renames the empty file and returns its path. -/
theorem shared_cache_empty : ∃ c, Reachable (step ['d']) (initial sampleShipped) c ∧ ¬Whole ['d'] c := by
  have ran : (run (step ['d']) (initial sampleShipped)
      [ask, ask, .advance 0 0, .advance 1 0, .advance 0 0, .advance 0 154, .advance 1 0, .advance 0 0,
        .openFile sampleKey]).map (fun c => (readLengths c, c.readers.map Reader.key)) =
        some ([0], [sampleKey]) := by
    decide +kernel
  obtain ⟨c, ran, seen⟩ := Option.map_eq_some_iff.mp ran
  obtain ⟨lengths, keys⟩ := Prod.mk.inj seen
  refine ⟨c, reachable_of_run ran, ?_⟩
  intro whole
  obtain ⟨reader, member, key⟩ := List.mem_map.mp (keys ▸ List.mem_singleton_self sampleKey)
  obtain ⟨mmdb, text, rfl, _, built, content⟩ := whole.readers reader member
  have size : (c.volume.data reader.file).length ∈ [0] := lengths ▸ List.mem_map_of_mem member
  rw [key] at built
  rw [content, sample_text text built] at size
  exact absurd size (by decide)

end ShadowVpn.Policy.Cache
