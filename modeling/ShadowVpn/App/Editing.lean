import Mathlib.Data.List.Nodup
import Mathlib.Data.List.Perm.Subperm
import ShadowVpn.App.Form
import ShadowVpn.App.Store
import ShadowVpn.Lib.Keyed

/-! The Profiles tab: the editor's form over the list of profiles, what saving it makes of a profile, and
the names of new profiles. -/

namespace ShadowVpn.App.Editing
open ShadowVpn.Lib.Text ShadowVpn.Lib.Transition ShadowVpn.App.Profiles ShadowVpn.App.Form ShadowVpn.App.Store
open ShadowVpn.Tunnel.Readers (isBlank)

/-- `EditableProfile(_:)`. -/
def edit (profile : Profile) : EditableProfile where
  id := profile.id
  name := profile.name
  server := profile.server
  portText := intText profile.port.toInt
  password := profile.password
  cipher := profile.cipher
  mode := profile.mode
  dnsLocal := profile.dnsLocal
  dnsRemote := profile.dnsRemote
  bypassCountry := profile.bypassCountry
  mtuText := intText profile.mtu.toInt
  obfuscation := profile.obfuscation
  peerIP := profile.peerIP

/-! ### Saving what was opened -/

theorem trimmed_trimmed (text : Chars) : trimmed (trimmed text) = trimmed text :=
  trim_of_ends _ _ (trim_head _ text) (trim_last _ text)

theorem digit_not_blank (c : Char) (digit : c.isDigit = true) : isBlank c = false := by
  by_contra blank
  rw [Bool.not_eq_false] at blank
  have bounds := Char.isDigit_iff_toNat.mp digit
  have zero : '0'.toNat = 48 := rfl
  have nine : '9'.toNat = 57 := rfl
  simp only [isBlank, decide_eq_true_eq, List.mem_cons, List.not_mem_nil, or_false] at blank
  omega

theorem toDigits_solid (n : Nat) : ∀ c ∈ Nat.toDigits 10 n, isBlank c = false := fun c member =>
  digit_not_blank c (Nat.isDigit_of_mem_toDigits (by decide) (by decide) member)

theorem intText_solid (n : Int) : ∀ c ∈ intText n, isBlank c = false := by
  cases n with
  | ofNat n => exact toDigits_solid n
  | negSucc n =>
    intro c member
    rcases List.mem_cons.mp member with rfl | later
    · decide
    · exact toDigits_solid (n + 1) c later

theorem trimmed_solid (text : Chars) (solid : ∀ c ∈ text, isBlank c = false) : trimmed text = text :=
  trim_of_ends _ _ (fun c head => solid c (List.mem_of_mem_head? head))
    fun c last => solid c (List.mem_of_getLast? last)

theorem toDigits_unsigned (n : Nat) (sign : Char) (other : sign.isDigit = false) :
    (Nat.toDigits 10 n).head? ≠ some sign := fun head =>
  not_mem_toDigits sign n other (List.mem_of_mem_head? head)

theorem intFromText_shown (value : Int) : intFromText (intText value) =
    if Int64.minValue.toInt ≤ value ∧ value ≤ Int64.maxValue.toInt then some (Int64.ofInt value) else none := by
  cases value with
  | ofNat k =>
    have plus : (Nat.toDigits 10 k).head? ≠ some '+' := toDigits_unsigned k '+' (by decide)
    have minus : (Nat.toDigits 10 k).head? ≠ some '-' := toDigits_unsigned k '-' (by decide)
    rw [intFromText, intText]
    simp only [plus, minus, or_self, if_false, numeral_toDigits, Option.bind_eq_bind, Option.bind_some,
      Int.ofNat_eq_natCast]
  | negSucc k =>
    have sign : -((k + 1 : Nat) : Int) = Int.negSucc k := (Int.negSucc_eq k).symm
    have first : ('-' :: Nat.toDigits 10 (k + 1)).head? = some '-' := List.head?_cons
    rw [intFromText, intText, if_pos (.inr first), List.tail_cons, numeral_toDigits, Option.bind_eq_bind,
      Option.bind_some, if_pos first, sign]

/-- A number that is shown in the form is read back. -/
theorem intFromText_intText (n : Int64) : intFromText (trimmed (intText n.toInt)) = some n := by
  rw [trimmed_solid _ (intText_solid _), intFromText_shown, if_pos ⟨n.minValue_le_toInt, n.toInt_le⟩,
    Int64.ofInt_toInt]

section Saving

variable (uppercased : Chars → Chars)

/-- What the editor leaves as it is. -/
structure Normal (p : Profile) : Prop where
  name : trimmed p.name = p.name
  named : p.name ≠ []
  server : trimmed p.server = p.server
  dnsLocal : trimmed p.dnsLocal = p.dnsLocal
  dnsRemote : trimmed p.dnsRemote = p.dnsRemote
  mtu : 576 ≤ p.mtu
  bypassCountry : uppercased (trimmed p.bypassCountry) = p.bypassCountry
  peerIP : trimmed p.peerIP = p.peerIP
  addressed : p.peerIP ≠ []

/-- A text field with a default for what is blank. -/
theorem filled_eq_iff (text fallback : Chars) (solid : trimmed fallback ≠ []) :
    (if (trimmed text).isEmpty then fallback else trimmed text) = text ↔ trimmed text = text ∧ text ≠ [] := by
  by_cases blank : trimmed text = []
  · rw [blank, if_pos List.isEmpty_nil]
    refine iff_of_false ?_ fun both => both.2 both.1.symm
    intro same
    exact solid (same ▸ blank)
  · have some : ¬(trimmed text).isEmpty = true := fun empty => blank (List.isEmpty_iff.mp empty)
    rw [if_neg some]
    refine ⟨fun same => ⟨same, ?_⟩, And.left⟩
    intro empty
    exact blank (same.trans empty)

theorem max_eq_iff (floor value : Int64) : max floor value = value ↔ floor ≤ value := by
  change (if floor ≤ value then value else floor) = value ↔ _
  by_cases above : floor ≤ value
  · rw [if_pos above]
    exact iff_of_true rfl above
  · rw [if_neg above]
    refine iff_of_false (fun same => above ?_) above
    rw [same]
    exact Int64.le_refl value

theorem le_max (floor value : Int64) : floor ≤ max floor value := by
  change floor ≤ if floor ≤ value then value else floor
  split
  · next above => exact above
  · exact Int64.le_refl floor

/-- Opening a profile and saving it changes nothing exactly when it is in normal form. -/
theorem saved_unchanged_iff (p : Profile) : (edit p).makeProfile uppercased = p ↔ Normal uppercased p := by
  have port : (edit p).port = p.port := by
    rw [EditableProfile.port, edit, intFromText_intText, Option.getD_some]
  have mtu : (edit p).mtu = max 576 p.mtu := by
    rw [EditableProfile.mtu, edit, intFromText_intText, Option.getD_some]
  have name := filled_eq_iff p.name "ShadowVPN".toList (by decide)
  have peer := filled_eq_iff p.peerIP defaultPeerIP (by decide)
  constructor
  · intro same
    have names := name.mp (congrArg Profile.name same)
    have peers := peer.mp (congrArg Profile.peerIP same)
    exact {
      name := names.1
      named := names.2
      server := congrArg Profile.server same
      dnsLocal := congrArg Profile.dnsLocal same
      dnsRemote := congrArg Profile.dnsRemote same
      mtu := (max_eq_iff 576 p.mtu).mp (mtu.symm.trans (congrArg Profile.mtu same))
      bypassCountry := congrArg Profile.bypassCountry same
      peerIP := peers.1
      addressed := peers.2 }
  · intro normal
    have names := name.mpr ⟨normal.name, normal.named⟩
    have peers := peer.mpr ⟨normal.peerIP, normal.addressed⟩
    have large := mtu.trans ((max_eq_iff 576 p.mtu).mpr normal.mtu)
    change Profile.mk p.id _ (trimmed p.server) (edit p).port p.password p.cipher p.mode (trimmed p.dnsLocal)
      (trimmed p.dnsRemote) (edit p).mtu (uppercased (trimmed p.bypassCountry)) p.obfuscation _ = p
    rw [port, large, normal.server, normal.dnsLocal, normal.dnsRemote, normal.bypassCountry]
    exact congrArg₂ (fun name peerIP => { p with name := name, peerIP := peerIP }) names peers

/-- What is used of the standard library's upper case. -/
structure Casing : Prop where
  again : ∀ text, uppercased (uppercased text) = uppercased text
  solid : ∀ text, trimmed text = text → trimmed (uppercased text) = uppercased text

variable {uppercased}

theorem filled_normal (text fallback : Chars) (clean : trimmed fallback = fallback) (nonempty : fallback ≠ []) :
    let field := if (trimmed text).isEmpty then fallback else trimmed text
    trimmed field = field ∧ field ≠ [] := by
  dsimp only
  split
  · exact ⟨clean, nonempty⟩
  · next shown =>
    refine ⟨trimmed_trimmed text, ?_⟩
    intro empty
    rw [empty] at shown
    exact shown rfl

/-- Whatever is typed, what is saved is in normal form. -/
theorem makeProfile_normal (casing : Casing uppercased) (form : EditableProfile) :
    Normal uppercased (form.makeProfile uppercased) where
  name := (filled_normal form.name "ShadowVPN".toList (by decide) (by decide)).1
  named := (filled_normal form.name "ShadowVPN".toList (by decide) (by decide)).2
  server := trimmed_trimmed form.server
  dnsLocal := trimmed_trimmed form.dnsLocal
  dnsRemote := trimmed_trimmed form.dnsRemote
  mtu := le_max _ _
  bypassCountry := by
    change uppercased (trimmed (uppercased (trimmed form.bypassCountry))) = uppercased (trimmed form.bypassCountry)
    rw [casing.solid _ (trimmed_trimmed _), casing.again]
  peerIP := (filled_normal form.peerIP defaultPeerIP (by decide) (by decide)).1
  addressed := (filled_normal form.peerIP defaultPeerIP (by decide) (by decide)).2

end Saving

/-! ### Names of new profiles -/

section Names

variable (canonical : Chars → Chars) (base : Chars)

def numbered (n : Nat) : Chars := base ++ ' ' :: Nat.toDigits 10 n

/-- `existing.contains(name)`: strings are equal when their canonical forms are. -/
def taken (names : List Chars) (name : Chars) : Bool := (names.map canonical).contains (canonical name)

/-- The search from a number on; `rounds` bounds it. -/
def firstFree (names : List Chars) : (rounds n : Nat) → Option Chars
  | 0, _ => none
  | rounds + 1, n =>
    if taken canonical names (numbered base n) then firstFree names rounds (n + 1) else some (numbered base n)

def defaultNewName (names : List Chars) : Option Chars :=
  if taken canonical names base then firstFree canonical base names (names.length + 1) 2 else some base

/-- `draftProfile()`, with the identifier that `UUID()` made. -/
def draftProfile (m : AppModel) (id : Uuid) : Option Profile :=
  (defaultNewName canonical base (m.profiles.map Profile.name)).map fun name => { fresh id with name := name }

variable {canonical base} {names : List Chars}

theorem firstFree_cases (rounds n : Nat) :
    (firstFree canonical base names rounds n = none ∧
      ∀ i < rounds, taken canonical names (numbered base (n + i)) = true) ∨
    ∃ k, n ≤ k ∧ firstFree canonical base names rounds n = some (numbered base k) ∧
      taken canonical names (numbered base k) = false ∧
      ∀ j, n ≤ j → j < k → taken canonical names (numbered base j) = true := by
  induction rounds generalizing n with
  | zero =>
    refine .inl ⟨rfl, ?_⟩
    intro i small
    exact absurd small (Nat.not_lt_zero i)
  | succ rounds ih =>
    rw [firstFree]
    by_cases used : taken canonical names (numbered base n) = true
    · rw [if_pos used]
      rcases ih (n + 1) with ⟨spent, all⟩ | ⟨k, beyond, found, free, before⟩
      · refine .inl ⟨spent, ?_⟩
        intro i small
        cases i with
        | zero => exact used
        | succ i =>
          rw [Nat.add_comm i 1, ← Nat.add_assoc]
          exact all i (by omega)
      · refine .inr ⟨k, by omega, found, free, ?_⟩
        intro j low high
        rcases Nat.eq_or_lt_of_le low with rfl | later
        · exact used
        · exact before j later high
    · rw [if_neg used]
      rw [Bool.not_eq_true] at used
      refine .inr ⟨n, Nat.le_refl n, rfl, used, ?_⟩
      intro j low high
      omega

/-- There are more numbers than names, so the search ends. -/
theorem firstFree_some (names : List Chars)
    (distinct : ∀ m n, canonical (numbered base m) = canonical (numbered base n) → m = n) (n : Nat) :
    ∃ k, n ≤ k ∧ firstFree canonical base names (names.length + 1) n = some (numbered base k) ∧
      taken canonical names (numbered base k) = false ∧
      ∀ j, n ≤ j → j < k → taken canonical names (numbered base j) = true := by
  rcases @firstFree_cases canonical base names (names.length + 1) n with ⟨_, all⟩ | found
  · exfalso
    let tried := (List.range (names.length + 1)).map fun i => canonical (numbered base (n + i))
    have apart : tried.Nodup := by
      apply List.nodup_range.map
      intro i j same
      have sums := distinct _ _ same
      omega
    have inside : tried ⊆ names.map canonical := by
      intro name member
      obtain ⟨i, small, rfl⟩ := List.mem_map.mp member
      exact List.contains_iff_mem.mp (all i (List.mem_range.mp small))
    have fits := (apart.subperm inside).length_le
    rw [List.length_map, List.length_map, List.length_range] at fits
    omega
  · exact found

/-- A new profile gets a name that no profile has: the plain one or the first free numbered one. -/
theorem defaultNewName_free (names : List Chars)
    (distinct : ∀ m n, canonical (numbered base m) = canonical (numbered base n) → m = n) :
    ∃ name, defaultNewName canonical base names = some name ∧ taken canonical names name = false ∧
      (name = base ∨ ∃ k, name = numbered base k) := by
  unfold defaultNewName
  split
  · obtain ⟨k, _, found, free, _⟩ := firstFree_some names distinct 2
    exact ⟨numbered base k, found, free, .inr ⟨k, rfl⟩⟩
  · next free => exact ⟨base, rfl, Bool.eq_false_iff.mpr free, .inl rfl⟩

theorem numbered_tidy (tidy : trimmed base = base) (nonempty : base ≠ []) (n : Nat) :
    trimmed (numbered base n) = numbered base n ∧ numbered base n ≠ [] := by
  obtain ⟨first, rest, rfl⟩ := List.exists_cons_of_ne_nil nonempty
  have head : isBlank first = false := by
    apply trim_head isBlank (first :: rest)
    change first ∈ (trimmed (first :: rest)).head?
    rw [tidy]
    exact rfl
  refine ⟨?_, by simp [numbered]⟩
  apply trim_of_ends
  · intro c same
    rw [numbered, List.cons_append, List.head?_cons, Option.mem_some_iff] at same
    exact same ▸ head
  · intro c last
    have digits : Nat.toDigits 10 n ≠ [] := Nat.toDigits_ne_nil
    rw [numbered, List.getLast?_append_of_ne_nil _ (by simp), List.getLast?_cons_of_ne_nil digits] at last
    exact toDigits_solid n c (List.mem_of_getLast? last)

end Names

/-! ### The tab -/

/-- The list of profiles, and the form while the editor's sheet is up. -/
structure Screen where
  model : AppModel
  form : Option EditableProfile

inductive Gesture where
  | add (id : Uuid)
  | edit (id : Uuid)
  | type (form : EditableProfile)
  | save
  | cancel
  | select (id : Uuid)
  | delete (id : Uuid)
  | relaunch (uuid : Nat → Uuid)

/-- A profile is saved when the form is complete; typing changes everything but the identifier. -/
def step (uppercased canonical : Chars → Chars) (base : Chars) (s : Screen) (gesture : Gesture) : Option Screen :=
  match gesture with
  | .add id =>
    if s.form.isSome then none
    else (draftProfile canonical base s.model id).map fun draft => { s with form := some (Editing.edit draft) }
  | .edit id =>
    if s.form.isSome then none
    else (find s.model.profiles id).map fun profile => { s with form := some (Editing.edit profile) }
  | .type form => s.form.bind fun shown => if form.id = shown.id then some { s with form := some form } else none
  | .save => s.form.bind fun form =>
    if form.isComplete then some ⟨s.model.updateProfile (form.makeProfile uppercased), none⟩ else none
  | .cancel => s.form.map fun _ => { s with form := none }
  | .select id => some { s with model := s.model.selectProfile id }
  | .delete id => some { s with model := s.model.deleteProfile id }
  | .relaunch uuid => some ⟨launch uuid s.model.defaults, none⟩

def opened (m : AppModel) : Screen := ⟨m, none⟩

/-- An update replaces the profile with its identifier or adds one. -/
theorem updateProfile_profiles (m : AppModel) (new : Profile) :
    (∃ idx old, m.profiles[idx]? = some old ∧ new.id = old.id ∧
      (m.updateProfile new).profiles = m.profiles.set idx new) ∨
    new.id ∉ m.profiles.map Profile.id ∧ (m.updateProfile new).profiles = m.profiles ++ [new] := by
  unfold AppModel.updateProfile
  cases found : m.profiles.findIdx? fun p => p.id == new.id with
  | some idx =>
    obtain ⟨inside, hit, _⟩ := List.findIdx?_eq_some_iff_getElem.mp found
    exact .inl ⟨idx, m.profiles[idx], List.getElem?_eq_getElem inside, (beq_iff_eq.mp hit).symm, rfl⟩
  | none =>
    refine .inr ⟨?_, rfl⟩
    intro member
    obtain ⟨p, inside, same⟩ := List.mem_map.mp member
    have other := List.findIdx?_eq_none_iff.mp found p inside
    rw [same, beq_self_eq_true] at other
    cases other

theorem selectProfile_profiles (m : AppModel) (id : Uuid) : (m.selectProfile id).profiles = m.profiles := by
  unfold AppModel.selectProfile
  split
  · rfl
  · rfl

theorem deleteProfile_profiles (m : AppModel) (id : Uuid) : (m.deleteProfile id).profiles = m.profiles ∨
    (m.deleteProfile id).profiles = m.profiles.filter fun p => p.id ≠ id := by
  unfold AppModel.deleteProfile
  split
  · exact .inr rfl
  · exact .inl rfl

section Runs

variable {uppercased canonical : Chars → Chars} {base : Chars}

/-- The list is sound and persisted, and the editor would leave each profile as it is. -/
structure Settled (uppercased : Chars → Chars) (m : AppModel) : Prop where
  sound : Sound m
  persisted : Persisted m
  normal : ∀ p ∈ m.profiles, Normal uppercased p

theorem Settled.update {m : AppModel} (settled : Settled uppercased m) (new : Profile)
    (normal : Normal uppercased new) : Settled uppercased (m.updateProfile new) := by
  have both := updateProfile_sound settled.sound new
  refine ⟨both.1, both.2, ?_⟩
  intro p member
  rcases updateProfile_profiles m new with ⟨idx, old, _, _, profiles⟩ | ⟨_, profiles⟩
  · rw [profiles] at member
    rcases List.mem_or_eq_of_mem_set member with kept | rfl
    · exact settled.normal p kept
    · exact normal
  · rw [profiles] at member
    rcases List.mem_append.mp member with kept | added
    · exact settled.normal p kept
    · exact List.mem_singleton.mp added ▸ normal

theorem Settled.select {m : AppModel} (settled : Settled uppercased m) (id : Uuid) :
    Settled uppercased (m.selectProfile id) := by
  have both := selectProfile_sound settled.sound settled.persisted id
  refine ⟨both.1, both.2, ?_⟩
  rw [selectProfile_profiles]
  exact settled.normal

theorem Settled.delete {m : AppModel} (settled : Settled uppercased m) (id : Uuid) :
    Settled uppercased (m.deleteProfile id) := by
  have both := deleteProfile_sound settled.sound settled.persisted id
  refine ⟨both.1, both.2, ?_⟩
  intro p member
  rcases deleteProfile_profiles m id with profiles | profiles
  · exact settled.normal p (profiles ▸ member)
  · rw [profiles] at member
    exact settled.normal p (List.mem_filter.mp member).1

theorem Settled.relaunch {m : AppModel} (settled : Settled uppercased m) (uuid : Nat → Uuid) :
    Settled uppercased (launch uuid m.defaults) := by
  have taken : Store.step m (.relaunch uuid) = some (launch uuid m.defaults) := rfl
  have both := step_sound ⟨settled.sound, settled.persisted⟩ taken
  refine ⟨both.1, both.2, ?_⟩
  rw [(launch_restores settled.sound settled.persisted uuid).1]
  exact settled.normal

theorem step_settled (casing : Casing uppercased) {s t : Screen} {gesture : Gesture}
    (settled : Settled uppercased s.model) (taken : step uppercased canonical base s gesture = some t) :
    Settled uppercased t.model := by
  cases gesture with
  | add id =>
    simp only [step, Option.ite_none_left_eq_some, Option.map_eq_some_iff] at taken
    obtain ⟨_, draft, _, rfl⟩ := taken
    exact settled
  | edit id =>
    simp only [step, Option.ite_none_left_eq_some, Option.map_eq_some_iff] at taken
    obtain ⟨_, profile, _, rfl⟩ := taken
    exact settled
  | type form =>
    simp only [step, Option.bind_eq_some_iff, Option.ite_none_right_eq_some, Option.some.injEq] at taken
    obtain ⟨shown, _, _, rfl⟩ := taken
    exact settled
  | save =>
    simp only [step, Option.bind_eq_some_iff, Option.ite_none_right_eq_some, Option.some.injEq] at taken
    obtain ⟨form, _, _, rfl⟩ := taken
    exact settled.update _ (makeProfile_normal casing form)
  | cancel =>
    simp only [step, Option.map_eq_some_iff] at taken
    obtain ⟨_, _, rfl⟩ := taken
    exact settled
  | select id => exact Option.some.inj taken ▸ settled.select id
  | delete id => exact Option.some.inj taken ▸ settled.delete id
  | relaunch uuid => exact Option.some.inj taken ▸ settled.relaunch uuid

theorem launch_settled (uuid : Nat → Uuid) (d : Defaults)
    (distinct : ((readProfiles uuid d).map Profile.id).Nodup)
    (normal : ∀ p ∈ (launch uuid d).profiles, Normal uppercased p) : Settled uppercased (launch uuid d) := by
  have started := init_sound uuid d distinct
  exact ⟨started.persist, started.persisted, normal⟩

theorem find_self {m : AppModel} (sound : Sound m) {p : Profile} (member : p ∈ m.profiles) :
    find m.profiles p.id = some p := by
  obtain ⟨q, inside, same, found⟩ := find_some (List.mem_map_of_mem member : p.id ∈ m.profiles.map Profile.id)
  rw [found, List.inj_on_of_nodup_map sound.distinct inside member same]

theorem update_same {m : AppModel} (sound : Sound m) {p : Profile} (member : p ∈ m.profiles) :
    (m.updateProfile p).profiles = m.profiles := by
  rcases updateProfile_profiles m p with ⟨idx, old, found, same, profiles⟩ | ⟨absent, _⟩
  · have here := List.inj_on_of_nodup_map sound.distinct member (List.mem_of_getElem? found) same
    obtain ⟨bound, rfl⟩ := List.getElem?_eq_some_iff.mp found
    rw [profiles, here, List.set_getElem_self]
  · exact absurd (List.mem_map_of_mem member) absent

/-- From a list that is in normal form on, as after a clean install, whatever is done and typed: each
profile is in the form that the editor gives it, and opening one and saving it changes nothing. -/
theorem saving_changes_nothing (casing : Casing uppercased) (uuid : Nat → Uuid) (d : Defaults)
    (distinct : ((readProfiles uuid d).map Profile.id).Nodup)
    (normal : ∀ p ∈ (launch uuid d).profiles, Normal uppercased p) (s : Screen)
    (reached : Reachable (step uppercased canonical base) (opened (launch uuid d)) s) :
    ∀ p ∈ s.model.profiles, Normal uppercased p ∧ (edit p).makeProfile uppercased = p ∧
      (p.isComplete = true → ∃ after,
        run (step uppercased canonical base) (opened s.model) [.edit p.id, .save] = some (opened after) ∧
          after.profiles = s.model.profiles) := by
  have settled : Settled uppercased s.model := reached.invariant (fun s => Settled uppercased s.model)
    (fun _ _ _ settled _ taken => step_settled casing settled taken) (launch_settled uuid d distinct normal)
  intro p member
  have form := settled.normal p member
  have same := (saved_unchanged_iff uppercased p).mpr form
  refine ⟨form, same, ?_⟩
  intro complete
  refine ⟨s.model.updateProfile p, ?_, update_same settled.sound member⟩
  have ready : (edit p).isComplete = true := by
    have port : (edit p).port = p.port := congrArg Profile.port same
    rw [EditableProfile.isComplete, port]
    change (!(trimmed p.server).isEmpty && decide (0 < p.port) && !p.password.isEmpty) = true
    rw [form.server]
    exact complete
  simp only [run, step, opened, Option.isSome_none, Bool.false_eq_true, if_false, find_self settled.sound member,
    Option.map_some, Option.bind_some, ready, if_true, same]

/-- Names are told apart, and the form that is open is a profile's or has a name of its own. -/
structure Named (canonical : Chars → Chars) (s : Screen) : Prop where
  apart : ((s.model.profiles.map Profile.name).map canonical).Nodup
  form : ∀ form, s.form = some form → trimmed form.name = form.name ∧ form.name ≠ [] ∧
    ((∃ p ∈ s.model.profiles, p.id = form.id ∧ p.name = form.name) ∨
      form.id ∉ s.model.profiles.map Profile.id ∧
        taken canonical (s.model.profiles.map Profile.name) form.name = false)

/-- No name is typed, and `UUID()` makes an identifier that is not in the list. -/
def untyped (s : Screen) (gesture : Gesture) : Bool :=
  match gesture with
  | .add id => !(s.model.profiles.map Profile.id).contains id
  | .type form => s.form.all fun shown => form.name == shown.name
  | _ => true

theorem Named.closed {s : Screen} (named : Named canonical s) {m : AppModel}
    (names : m.profiles.map Profile.name = s.model.profiles.map Profile.name) : Named canonical ⟨m, none⟩ := by
  refine ⟨?_, ?_⟩
  · rw [names]
    exact named.apart
  · intro form shown
    cases shown

/-- The profile of the form goes into the list under its name. -/
theorem Named.save {s : Screen} {form : EditableProfile} (named : Named canonical s)
    (sound : Sound s.model) (shown : s.form = some form) :
    Named canonical ⟨s.model.updateProfile (form.makeProfile uppercased), none⟩ := by
  obtain ⟨tidy, titled, origin⟩ := named.form form shown
  have name : (form.makeProfile uppercased).name = form.name := (filled_eq_iff form.name _ (by decide)).mpr ⟨tidy, titled⟩
  rcases updateProfile_profiles s.model (form.makeProfile uppercased) with
    ⟨idx, old, found, same, profiles⟩ | ⟨absent, profiles⟩
  · apply named.closed
    rw [profiles]
    apply Lib.Keyed.map_set_same found
    rcases origin with ⟨p, member, id, title⟩ | ⟨fresh, _⟩
    · have here := List.inj_on_of_nodup_map sound.distinct member (List.mem_of_getElem? found) (id.trans same)
      rw [name, ← here, title]
    · exact absurd (List.mem_map.mpr ⟨old, List.mem_of_getElem? found, same.symm⟩) fresh
  · refine ⟨?_, fun form shown => by cases shown⟩
    rcases origin with ⟨p, member, id, _⟩ | ⟨_, free⟩
    · exact absurd (List.mem_map.mpr ⟨p, member, id⟩) absent
    · rw [profiles, List.map_append, List.map_append, List.nodup_append]
      refine ⟨named.apart, List.nodup_singleton _, ?_⟩
      intro one left two right same
      obtain rfl := List.mem_singleton.mp right
      rw [same, name] at left
      rw [taken, List.contains_iff_mem.mpr left] at free
      cases free

theorem Named.delete {s : Screen} (named : Named canonical s) (id : Uuid) :
    Named canonical { s with model := s.model.deleteProfile id } := by
  rcases deleteProfile_profiles s.model id with profiles | profiles
  · refine ⟨?_, ?_⟩
    · change (((s.model.deleteProfile id).profiles.map Profile.name).map canonical).Nodup
      rw [profiles]
      exact named.apart
    · change ∀ form, s.form = some form → _
      rw [profiles]
      exact named.form
  · have left : (s.model.profiles.filter fun p => p.id ≠ id).Sublist s.model.profiles := List.filter_sublist
    refine ⟨?_, ?_⟩
    · change (((s.model.deleteProfile id).profiles.map Profile.name).map canonical).Nodup
      rw [profiles]
      exact named.apart.sublist ((left.map _).map _)
    · intro form shown
      change _ ∧ _ ∧ ((∃ p ∈ (s.model.deleteProfile id).profiles, _) ∨
        _ ∉ (s.model.deleteProfile id).profiles.map Profile.id ∧
          taken canonical ((s.model.deleteProfile id).profiles.map Profile.name) form.name = false)
      rw [profiles]
      obtain ⟨tidy, titled, origin⟩ := named.form form shown
      refine ⟨tidy, titled, ?_⟩
      have names := (left.map Profile.name).map canonical
      rcases origin with ⟨p, member, same, title⟩ | ⟨fresh, free⟩
      · by_cases gone : p.id = id
        · refine .inr ⟨?_, ?_⟩
          · intro inside
            obtain ⟨q, kept, equal⟩ := List.mem_map.mp inside
            have other := (List.mem_filter.mp kept).2
            simp [equal, ← same, gone] at other
          · rw [taken, Bool.eq_false_iff]
            intro used
            obtain ⟨title', inside, equal⟩ := List.mem_map.mp (List.contains_iff_mem.mp used)
            obtain ⟨q, kept, rfl⟩ := List.mem_map.mp inside
            obtain ⟨stays, other⟩ := List.mem_filter.mp kept
            have apart := named.apart
            rw [List.map_map] at apart
            have one : q = p := by
              apply List.inj_on_of_nodup_map apart stays member
              change canonical q.name = canonical p.name
              rw [equal, title]
            simp [one, gone] at other
        · exact .inl ⟨p, List.mem_filter.mpr ⟨member, by simpa using gone⟩, same, title⟩
      · refine .inr ⟨fun inside => fresh ((left.map Profile.id).mem inside), ?_⟩
        rw [taken, Bool.eq_false_iff]
        intro used
        have before := names.mem (List.contains_iff_mem.mp used)
        rw [taken, List.contains_iff_mem.mpr before] at free
        cases free

theorem step_named (distinct : ∀ m n, canonical (numbered base m) = canonical (numbered base n) → m = n)
    (tidy : trimmed base = base) (nonempty : base ≠ []) {s t : Screen} {gesture : Gesture}
    (settled : Settled uppercased s.model) (named : Named canonical s) (ok : untyped s gesture = true)
    (taken : step uppercased canonical base s gesture = some t) : Named canonical t := by
  cases gesture with
  | add id =>
    simp only [step, Option.ite_none_left_eq_some, Option.map_eq_some_iff] at taken
    obtain ⟨_, draft, made, rfl⟩ := taken
    refine ⟨named.apart, ?_⟩
    intro form shown
    obtain ⟨name, chosen, free, shape⟩ := defaultNewName_free (s.model.profiles.map Profile.name) distinct
    rw [draftProfile, chosen, Option.map_some, Option.some.injEq] at made
    subst made
    obtain rfl := Option.some.inj shown
    have clean : trimmed name = name ∧ name ≠ [] := by
      rcases shape with rfl | ⟨k, rfl⟩
      · exact ⟨tidy, nonempty⟩
      · exact numbered_tidy tidy nonempty k
    refine ⟨clean.1, clean.2, .inr ⟨?_, free⟩⟩
    intro member
    have inside : (s.model.profiles.map Profile.id).contains id = true := List.contains_iff_mem.mpr member
    rw [untyped, inside] at ok
    cases ok
  | edit id =>
    simp only [step, Option.ite_none_left_eq_some, Option.map_eq_some_iff] at taken
    obtain ⟨_, profile, found, rfl⟩ := taken
    refine ⟨named.apart, ?_⟩
    intro form shown
    obtain rfl := Option.some.inj shown
    have member := List.mem_of_find?_eq_some found
    have normal := settled.normal profile member
    exact ⟨normal.name, normal.named, .inl ⟨profile, member, rfl, rfl⟩⟩
  | type form =>
    simp only [step, Option.bind_eq_some_iff, Option.ite_none_right_eq_some, Option.some.injEq] at taken
    obtain ⟨shown, up, same, rfl⟩ := taken
    refine ⟨named.apart, ?_⟩
    intro other typed
    obtain rfl := Option.some.inj typed
    rw [untyped, up, Option.all_some, beq_iff_eq] at ok
    rw [ok, same]
    exact named.form shown up
  | save =>
    simp only [step, Option.bind_eq_some_iff, Option.ite_none_right_eq_some, Option.some.injEq] at taken
    obtain ⟨form, shown, _, rfl⟩ := taken
    exact named.save settled.sound shown
  | cancel =>
    simp only [step, Option.map_eq_some_iff] at taken
    obtain ⟨_, _, rfl⟩ := taken
    exact named.closed rfl
  | select id =>
    rw [← Option.some.inj taken]
    refine ⟨?_, ?_⟩
    · change (((s.model.selectProfile id).profiles.map Profile.name).map canonical).Nodup
      rw [selectProfile_profiles]
      exact named.apart
    · change ∀ form, s.form = some form → _
      rw [selectProfile_profiles]
      exact named.form
  | delete id => exact Option.some.inj taken ▸ named.delete id
  | relaunch uuid =>
    rw [← Option.some.inj taken]
    apply named.closed
    rw [(launch_restores settled.sound settled.persisted uuid).1]

/-- Whatever the list, a new profile gets a name that no profile of it has. -/
theorem draftProfile_free (distinct : ∀ m n, canonical (numbered base m) = canonical (numbered base n) → m = n)
    (m : AppModel) (id : Uuid) : ∃ draft, draftProfile canonical base m id = some draft ∧
      ∀ p ∈ m.profiles, canonical p.name ≠ canonical draft.name := by
  obtain ⟨name, chosen, free, _⟩ := defaultNewName_free (m.profiles.map Profile.name) distinct
  refine ⟨{ fresh id with name := name }, by rw [draftProfile, chosen, Option.map_some], ?_⟩
  intro p member same
  have used : taken canonical (m.profiles.map Profile.name) name = true :=
    List.contains_iff_mem.mpr (same ▸ List.mem_map_of_mem (List.mem_map_of_mem member))
  rw [used] at free
  cases free

/-- A name for one more profile is always found, and as long as no name is typed, the names that new
profiles get keep all profiles of the list apart. -/
theorem names_stay_apart (uppercased : Chars → Chars)
    (distinct : ∀ m n, canonical (numbered base m) = canonical (numbered base n) → m = n) :
    (∀ (m : AppModel) id, ∃ draft, draftProfile canonical base m id = some draft ∧
      ∀ p ∈ m.profiles, canonical p.name ≠ canonical draft.name) ∧
    (Casing uppercased → trimmed base = base → base ≠ [] → ∀ (uuid : Nat → Uuid) (d : Defaults),
      ((readProfiles uuid d).map Profile.id).Nodup →
      (∀ p ∈ (launch uuid d).profiles, Normal uppercased p) →
      (((launch uuid d).profiles.map Profile.name).map canonical).Nodup → ∀ s,
        Reaches (step uppercased canonical base) (fun s gesture => untyped s gesture = true)
          (opened (launch uuid d)) s →
        ((s.model.profiles.map Profile.name).map canonical).Nodup) := by
  refine ⟨draftProfile_free distinct, ?_⟩
  intro casing tidy nonempty uuid d ids normal apart s reached
  have inv : Settled uppercased s.model ∧ Named canonical s := by
    apply reached.invariant (fun s => Settled uppercased s.model ∧ Named canonical s)
    · intro before gesture after inv ok taken
      exact ⟨step_settled casing inv.1 taken, step_named distinct tidy nonempty inv.1 inv.2 ok taken⟩
    · refine ⟨launch_settled uuid d ids normal, apart, ?_⟩
      intro form shown
      cases shown
  exact inv.2.apart

end Runs

section Sample

def upperChar (c : Char) : Char := if 97 ≤ c.toNat ∧ c.toNat ≤ 122 then Char.ofNat (c.toNat - 32) else c

/-- Upper case where all letters are ASCII. -/
def asciiUpper (text : Chars) : Chars := text.map upperChar

theorem upperChar_letter {c : Char} (lower : 97 ≤ c.toNat ∧ c.toNat ≤ 122) : (upperChar c).toNat = c.toNat - 32 := by
  have valid : (c.toNat - 32).isValidChar := .inl (by omega)
  rw [upperChar, if_pos lower, Char.ofNat, dif_pos valid]
  exact rfl

theorem isBlank_upperChar (c : Char) (solid : isBlank c = false) : isBlank (upperChar c) = false := by
  by_cases lower : 97 ≤ c.toNat ∧ c.toNat ≤ 122
  · have code := upperChar_letter lower
    rw [Bool.eq_false_iff]
    intro blank
    simp only [isBlank, decide_eq_true_eq, List.mem_cons, List.not_mem_nil, or_false] at blank
    omega
  · rw [upperChar, if_neg lower]
    exact solid

theorem upperChar_again (c : Char) : upperChar (upperChar c) = upperChar c := by
  by_cases lower : 97 ≤ c.toNat ∧ c.toNat ≤ 122
  · have code := upperChar_letter lower
    rw [upperChar, if_neg (by omega)]
  · have same : upperChar c = c := if_neg lower
    rw [same, same]

theorem asciiUpper_casing : Casing asciiUpper where
  again text := by
    rw [asciiUpper, asciiUpper, List.map_map]
    exact List.map_congr_left fun c _ => upperChar_again c
  solid text tidy := by
    have head := trim_head isBlank text
    have last := trim_last isBlank text
    rw [show trim isBlank text = text from tidy] at head last
    apply trim_of_ends
    · intro c first
      rw [asciiUpper, List.head?_map, Option.mem_def, Option.map_eq_some_iff] at first
      obtain ⟨d, first, rfl⟩ := first
      exact isBlank_upperChar d (head d first)
    · intro c final
      rw [asciiUpper, List.getLast?_map, Option.mem_def, Option.map_eq_some_iff] at final
      obtain ⟨d, final, rfl⟩ := final
      exact isBlank_upperChar d (last d final)

/-- What is typed over a draft; the name is left alone, the rest is as sloppy as the form allows. -/
def sampleTyped (id : Uuid) (name : Chars) : EditableProfile :=
  { edit (fresh id) with
    name := name, server := " vpn.example.org ".toList, password := "secret".toList
    portText := "".toList, mtuText := " 100".toList, bypassCountry := " jp".toList, peerIP := [] }

def newProfile : Chars := "New Profile".toList

def sampleGestures : List Gesture :=
  [.add 2#128, .type (sampleTyped 2#128 newProfile), .save, .add 3#128,
    .type (sampleTyped 3#128 (numbered newProfile 2)), .save, .select 3#128, .relaunch fun _ => 4#128, .add 5#128]

theorem cleanInstall_normal : ∀ p ∈ (launch (fun _ => 1#128) cleanInstall).profiles, Normal asciiUpper p := by
  intro p member
  have one : (launch (fun _ => 1#128) cleanInstall).profiles = [fresh 1#128] := rfl
  rw [one] at member
  rw [List.mem_singleton.mp member, ← saved_unchanged_iff]
  decide +kernel

theorem sample_saving : ∃ s, Reachable (step asciiUpper id newProfile)
    (opened (launch (fun _ => 1#128) cleanInstall)) s ∧ s.model.profiles.length = 3 ∧
      ∀ p ∈ s.model.profiles, (edit p).makeProfile asciiUpper = p := by
  have ran : (run (step asciiUpper id newProfile) (opened (launch (fun _ => 1#128) cleanInstall))
      sampleGestures).map (fun s => s.model.profiles.length) = some 3 := by
    decide +kernel
  obtain ⟨s, ran, three⟩ := Option.map_eq_some_iff.mp ran
  have reached := reachable_of_run ran
  have kept := saving_changes_nothing asciiUpper_casing (fun _ => 1#128) cleanInstall List.nodup_nil
    cleanInstall_normal s reached
  exact ⟨s, reached, three, fun p member => (kept p member).2.1⟩

theorem numbered_apart (base : Chars) (m n : Nat) (same : numbered base m = numbered base n) : m = n := by
  have digits := (List.cons.inj (List.append_cancel_left same)).2
  have read := numeral_toDigits m
  rw [digits, numeral_toDigits] at read
  exact (Option.some.inj read).symm

theorem sample_names : ∃ s, Reaches (step asciiUpper id newProfile) (fun s gesture => untyped s gesture = true)
    (opened (launch (fun _ => 1#128) cleanInstall)) s ∧
      s.model.profiles.map Profile.name = ["ShadowVPN".toList, newProfile, numbered newProfile 2] ∧
        ((s.model.profiles.map Profile.name).map id).Nodup := by
  have ran : (testedRun (step asciiUpper id newProfile) untyped (opened (launch (fun _ => 1#128) cleanInstall))
      sampleGestures).map (fun s => s.model.profiles.map Profile.name) =
        some ["ShadowVPN".toList, newProfile, numbered newProfile 2] := by
    decide +kernel
  obtain ⟨s, ran, names⟩ := Option.map_eq_some_iff.mp ran
  have reached := reaches_of_testedRun ran
  have apart := (names_stay_apart asciiUpper (numbered_apart newProfile)).2 asciiUpper_casing (by decide)
    (by decide) (fun _ => 1#128) cleanInstall List.nodup_nil cleanInstall_normal (List.nodup_singleton _) s reached
  exact ⟨s, reached, names, apart⟩

end Sample

end ShadowVpn.App.Editing
