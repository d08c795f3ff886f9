import Mathlib.Data.List.Nodup
import ShadowVpn.App.Profiles
import ShadowVpn.Lib.Transition

/-! The profiles of the app: the list, the selection and their three copies in the shared
defaults. -/

namespace ShadowVpn.App.Store
open ShadowVpn.Lib ShadowVpn.Lib.Text ShadowVpn.Lib.Json ShadowVpn.Lib.Transition
open ShadowVpn.App.Profiles

/-- The keys of the shared defaults that the app reads at its start. -/
structure Defaults where
  profileList : Option Value
  profile : Option Value
  selectedProfileID : Option Chars

def readProfile (id : Uuid) (d : Defaults) : Option Profile := d.profile.bind (decode id)

/-- One element that cannot be decoded fails the whole list. -/
def decodeList (uuid : Nat → Uuid) : List Value → Option (List Profile)
  | [] => some []
  | item :: rest => do
    let first ← decode (uuid rest.length) item
    let others ← decodeList uuid rest
    some (first :: others)

def readProfiles (uuid : Nat → Uuid) (d : Defaults) : List Profile :=
  (d.profileList.bind fun data => (asArray data).bind (decodeList uuid)).getD []

def readSelectedProfileID (d : Defaults) : Option Uuid := d.selectedProfileID.bind uuidFromString

/-- `uuid` is what the calls of `UUID()` give in this process. -/
structure AppModel where
  profiles : List Profile
  selectedProfileID : Uuid
  uuid : Nat → Uuid
  defaults : Defaults

/-- The first profile with the identifier. -/
def find (profiles : List Profile) (id : Uuid) : Option Profile := profiles.find? fun p => p.id == id

def init (uuid : Nat → Uuid) (d : Defaults) : AppModel :=
  match readProfiles uuid d with
  | [] =>
    let legacy := (readProfile (uuid 0) d).getD (fresh (uuid 0))
    ⟨[legacy], legacy.id, uuid, d⟩
  | first :: rest =>
    let saved := (readSelectedProfileID d).bind (find (first :: rest))
    ⟨first :: rest, (saved.getD first).id, uuid, d⟩

namespace AppModel

/-- The active profile. -/
def profile (m : AppModel) : Profile :=
  (find m.profiles m.selectedProfileID).getD (m.profiles.head?.getD (fresh (m.uuid 0)))

def persist (m : AppModel) : AppModel :=
  { m with defaults := { profileList := some (.array (m.profiles.map encode))
                         profile := some (encode m.profile)
                         selectedProfileID := some (uuidString m.selectedProfileID) } }

def updateProfile (m : AppModel) (newProfile : Profile) : AppModel :=
  match m.profiles.findIdx? fun p => p.id == newProfile.id with
  | some idx => { m with profiles := m.profiles.set idx newProfile }.persist
  | none => { m with profiles := m.profiles ++ [newProfile] }.persist

def selectProfile (m : AppModel) (id : Uuid) : AppModel :=
  if id ≠ m.selectedProfileID ∧ (m.profiles.any fun p => p.id == id) = true then
    { m with selectedProfileID := id }.persist
  else m

def deleteProfile (m : AppModel) (id : Uuid) : AppModel :=
  if 1 < m.profiles.length ∧ (m.profiles.any fun p => p.id == id) = true then
    let profiles := m.profiles.filter fun p => p.id ≠ id
    let selected :=
      if id = m.selectedProfileID then (profiles.head?.map Profile.id).getD m.selectedProfileID
      else m.selectedProfileID
    { m with profiles := profiles, selectedProfileID := selected }.persist
  else m

end AppModel

/-- A start of the app: `init`, then what `bootstrap` persists. -/
def launch (uuid : Nat → Uuid) (d : Defaults) : AppModel := (init uuid d).persist

inductive Operation where
  | update (newProfile : Profile)
  | select (id : Uuid)
  | delete (id : Uuid)
  | relaunch (uuid : Nat → Uuid)

def step (m : AppModel) (operation : Operation) : Option AppModel :=
  match operation with
  | .update newProfile => some (m.updateProfile newProfile)
  | .select id => some (m.selectProfile id)
  | .delete id => some (m.deleteProfile id)
  | .relaunch uuid => some (launch uuid m.defaults)

/-- The profile that an operation may change. -/
def Operation.named : Operation → Option Uuid
  | .update newProfile => some newProfile.id
  | .delete id => some id
  | .select _ | .relaunch _ => none

/-- The list and the selection are sound. -/
structure Sound (m : AppModel) : Prop where
  nonempty : m.profiles ≠ []
  distinct : (m.profiles.map Profile.id).Nodup
  selected : m.selectedProfileID ∈ m.profiles.map Profile.id

/-- The three persisted copies are those in memory; the active profile is the selected member. -/
structure Persisted (m : AppModel) : Prop where
  list : m.defaults.profileList = some (.array (m.profiles.map encode))
  selection : m.defaults.selectedProfileID = some (uuidString m.selectedProfileID)
  active : ∃ p ∈ m.profiles, p.id = m.selectedProfileID ∧ m.defaults.profile = some (encode p)

/-- Every profile that is not named is where it was. -/
def Spares (named : Option Uuid) (m n : AppModel) : Prop :=
  (n.profiles.filter fun p => some p.id ≠ named) = m.profiles.filter fun p => some p.id ≠ named

theorem find_some {profiles : List Profile} {id : Uuid} (member : id ∈ profiles.map Profile.id) :
    ∃ p ∈ profiles, p.id = id ∧ find profiles id = some p := by
  obtain ⟨q, inside, same⟩ := List.mem_map.mp member
  cases found : find profiles id with
  | none =>
    have absent := List.find?_eq_none.mp found q inside
    exact absurd (beq_iff_eq.mpr same) absent
  | some p =>
    have hit := List.find?_some found
    exact ⟨p, List.mem_of_find?_eq_some found, beq_iff_eq.mp hit, rfl⟩

theorem Sound.persisted {m : AppModel} (sound : Sound m) : Persisted m.persist where
  list := rfl
  selection := rfl
  active := by
    obtain ⟨p, inside, same, found⟩ := find_some sound.selected
    refine ⟨p, inside, same, ?_⟩
    simp only [AppModel.persist, AppModel.profile, found, Option.getD_some]

theorem Sound.persist {m : AppModel} (sound : Sound m) : Sound m.persist :=
  ⟨sound.nonempty, sound.distinct, sound.selected⟩

theorem decodeList_encode (uuid : Nat → Uuid) (profiles : List Profile) :
    decodeList uuid (profiles.map encode) = some profiles := by
  induction profiles with
  | nil => rfl
  | cons p rest ih =>
    simp only [List.map_cons, decodeList, decode_encode, ih, Option.bind_eq_bind, Option.bind_some]

theorem init_sound (uuid : Nat → Uuid) (d : Defaults)
    (distinct : ((readProfiles uuid d).map Profile.id).Nodup) : Sound (init uuid d) := by
  unfold init
  cases stored : readProfiles uuid d with
  | nil => exact ⟨List.cons_ne_nil _ _, List.nodup_singleton _, List.mem_singleton.mpr rfl⟩
  | cons first rest =>
    rw [stored] at distinct
    refine ⟨List.cons_ne_nil _ _, distinct, ?_⟩
    dsimp only
    cases saved : (readSelectedProfileID d).bind (find (first :: rest)) with
    | none => exact List.mem_cons_self
    | some p =>
      obtain ⟨id, _, found⟩ := Option.bind_eq_some_iff.mp saved
      exact List.mem_map_of_mem (List.mem_of_find?_eq_some found)

/-- What was persisted is restored, whatever identifiers the next process makes. -/
theorem launch_restores {m : AppModel} (sound : Sound m) (persisted : Persisted m) (uuid : Nat → Uuid) :
    (launch uuid m.defaults).profiles = m.profiles ∧
      (launch uuid m.defaults).selectedProfileID = m.selectedProfileID := by
  have stored : readProfiles uuid m.defaults = m.profiles := by
    simp only [readProfiles, persisted.list, Option.bind_some, asArray, decodeList_encode, Option.getD_some]
  have saved : readSelectedProfileID m.defaults = some m.selectedProfileID := by
    simp only [readSelectedProfileID, persisted.selection, Option.bind_some, uuidFromString_uuidString]
  obtain ⟨p, _, same, found⟩ := find_some sound.selected
  simp only [launch, AppModel.persist, init, stored]
  cases profiles : m.profiles with
  | nil => exact absurd profiles sound.nonempty
  | cons first rest =>
    rw [profiles] at found
    simp only [saved, Option.bind_some, found, Option.getD_some, same, and_self]

theorem set_ids {profiles : List Profile} {idx : Nat} {new : Profile}
    (found : profiles.findIdx? (fun p => p.id == new.id) = some idx) :
    (profiles.set idx new).map Profile.id = profiles.map Profile.id := by
  obtain ⟨inside, hit, _⟩ := List.findIdx?_eq_some_iff_getElem.mp found
  rw [List.map_set]
  apply List.ext_getElem
  · rw [List.length_set]
  · intro k low high
    rw [List.getElem_set]
    split
    · next here =>
      subst here
      rw [List.getElem_map]
      exact (beq_iff_eq.mp hit).symm
    · rfl

theorem updateProfile_sound {m : AppModel} (sound : Sound m) (new : Profile) :
    Sound (m.updateProfile new) ∧ Persisted (m.updateProfile new) := by
  unfold AppModel.updateProfile
  cases found : m.profiles.findIdx? fun p => p.id == new.id with
  | some idx =>
    have next : Sound { m with profiles := m.profiles.set idx new } := by
      refine ⟨?_, ?_, ?_⟩
      · simpa using sound.nonempty
      · rw [set_ids found]
        exact sound.distinct
      · rw [set_ids found]
        exact sound.selected
    exact ⟨next.persist, next.persisted⟩
  | none =>
    have absent : new.id ∉ m.profiles.map Profile.id := by
      intro member
      obtain ⟨p, inside, same⟩ := List.mem_map.mp member
      have other := List.findIdx?_eq_none_iff.mp found p inside
      simp [same] at other
    have next : Sound { m with profiles := m.profiles ++ [new] } := by
      refine ⟨by simp, ?_, ?_⟩
      · rw [List.map_append, List.map_singleton]
        exact List.nodup_append.mpr ⟨sound.distinct, List.nodup_singleton _, by
          intro a left b right same
          rw [List.mem_singleton.mp right] at same
          exact absent (same ▸ left)⟩
      · rw [List.map_append]
        exact List.mem_append_left _ sound.selected
    exact ⟨next.persist, next.persisted⟩

theorem selectProfile_sound {m : AppModel} (sound : Sound m) (persisted : Persisted m) (id : Uuid) :
    Sound (m.selectProfile id) ∧ Persisted (m.selectProfile id) := by
  unfold AppModel.selectProfile
  split
  · next allowed =>
    obtain ⟨p, inside, same⟩ := List.any_eq_true.mp allowed.2
    have next : Sound { m with selectedProfileID := id } :=
      ⟨sound.nonempty, sound.distinct, List.mem_map.mpr ⟨p, inside, beq_iff_eq.mp same⟩⟩
    exact ⟨next.persist, next.persisted⟩
  · exact ⟨sound, persisted⟩

/-- Among several profiles with distinct identifiers one differs from the given one. -/
theorem filter_ne_nil {profiles : List Profile} (several : 1 < profiles.length)
    (distinct : (profiles.map Profile.id).Nodup) (id : Uuid) :
    (profiles.filter fun p => p.id ≠ id) ≠ [] := by
  match profiles, several with
  | first :: second :: rest, _ =>
    intro empty
    have all := List.filter_eq_nil_iff.mp empty
    have one : first.id = id := by simpa using all first List.mem_cons_self
    have two : second.id = id := by simpa using all second (List.mem_cons_of_mem _ List.mem_cons_self)
    simp [one, two] at distinct

theorem deleteProfile_sound {m : AppModel} (sound : Sound m) (persisted : Persisted m) (id : Uuid) :
    Sound (m.deleteProfile id) ∧ Persisted (m.deleteProfile id) := by
  unfold AppModel.deleteProfile
  split
  · next allowed =>
    have left := filter_ne_nil allowed.1 sound.distinct id
    have distinct : ((m.profiles.filter fun p => p.id ≠ id).map Profile.id).Nodup :=
      sound.distinct.sublist (List.Sublist.map _ List.filter_sublist)
    dsimp only
    split
    · cases profiles : m.profiles.filter fun p => p.id ≠ id with
      | nil => exact absurd profiles left
      | cons first rest =>
        have next : Sound { m with profiles := first :: rest, selectedProfileID := first.id } :=
          ⟨List.cons_ne_nil _ _, profiles ▸ distinct, List.mem_cons_self⟩
        exact ⟨next.persist, next.persisted⟩
    · next other =>
      have next : Sound { m with profiles := m.profiles.filter fun p => p.id ≠ id } := by
        refine ⟨left, distinct, ?_⟩
        obtain ⟨p, inside, same⟩ := List.mem_map.mp sound.selected
        refine List.mem_map.mpr ⟨p, List.mem_filter.mpr ⟨inside, ?_⟩, same⟩
        simpa [same] using Ne.symm other
      exact ⟨next.persist, next.persisted⟩
  · exact ⟨sound, persisted⟩

theorem step_sound {m n : AppModel} {operation : Operation} (inv : Sound m ∧ Persisted m)
    (taken : step m operation = some n) : Sound n ∧ Persisted n := by
  obtain ⟨sound, persisted⟩ := inv
  cases operation with
  | update new => exact Option.some.inj taken ▸ updateProfile_sound sound new
  | select id => exact Option.some.inj taken ▸ selectProfile_sound sound persisted id
  | delete id => exact Option.some.inj taken ▸ deleteProfile_sound sound persisted id
  | relaunch uuid =>
    rw [← Option.some.inj taken]
    obtain ⟨profiles, selected⟩ := launch_restores sound persisted uuid
    have started : Sound (init uuid m.defaults) := by
      apply init_sound
      simp only [readProfiles, persisted.list, Option.bind_some, asArray, decodeList_encode,
        Option.getD_some]
      exact sound.distinct
    exact ⟨started.persist, started.persisted⟩

theorem updateProfile_spares {m : AppModel} (new : Profile) :
    Spares (some new.id) m (m.updateProfile new) := by
  unfold AppModel.updateProfile Spares
  cases found : m.profiles.findIdx? fun p => p.id == new.id with
  | some idx =>
    obtain ⟨inside, hit, _⟩ := List.findIdx?_eq_some_iff_getElem.mp found
    have named : m.profiles[idx].id = new.id := beq_iff_eq.mp hit
    have cut : m.profiles = m.profiles.take idx ++ m.profiles[idx] :: m.profiles.drop (idx + 1) := by
      rw [List.getElem_cons_drop, List.take_append_drop]
    have put : m.profiles.set idx new = m.profiles.take idx ++ new :: m.profiles.drop (idx + 1) :=
      List.set_eq_take_append_cons_drop.trans (if_pos inside)
    simp only [AppModel.persist]
    rw [put]
    conv => rhs; rw [cut]
    simp only [List.filter_append, List.filter_cons, named, ne_eq, not_true_eq_false, decide_false,
      Bool.false_eq_true, if_false]
  | none => simp [AppModel.persist]

/-- A step changes no profile but the one it names. -/
theorem step_spares {m n : AppModel} {operation : Operation} (inv : Sound m ∧ Persisted m)
    (taken : step m operation = some n) : Spares operation.named m n := by
  obtain ⟨sound, persisted⟩ := inv
  cases operation with
  | update new => exact Option.some.inj taken ▸ updateProfile_spares new
  | select id =>
    rw [← Option.some.inj taken, AppModel.selectProfile]
    split <;> rfl
  | delete id =>
    rw [← Option.some.inj taken, AppModel.deleteProfile]
    split
    · simp [Spares, AppModel.persist, Operation.named, List.filter_filter]
    · rfl
  | relaunch uuid =>
    rw [← Option.some.inj taken, Spares, (launch_restores sound persisted uuid).1]

/-- From the first start on, clean or with distinct identifiers in store, whatever the user does: the
list is sound and persisted, an operation changes no profile but the one it names, and a relaunch
restores the list and the selection. -/
theorem profile_store_consistent (uuid : Nat → Uuid) (d : Defaults)
    (distinct : ((readProfiles uuid d).map Profile.id).Nodup) (m : AppModel)
    (reached : Reachable step (launch uuid d) m) :
    Sound m ∧ Persisted m ∧
      (∀ operation n, step m operation = some n → Spares operation.named m n) ∧
      ∀ later, (launch later m.defaults).profiles = m.profiles ∧
        (launch later m.defaults).selectedProfileID = m.selectedProfileID := by
  have started : Sound (init uuid d) := init_sound uuid d distinct
  have inv : Sound m ∧ Persisted m := reached.invariant (fun m => Sound m ∧ Persisted m)
    (fun _ _ _ inv _ taken => step_sound inv taken) ⟨started.persist, started.persisted⟩
  exact ⟨inv.1, inv.2, fun _ _ taken => step_spares inv taken, launch_restores inv.1 inv.2⟩

/-- A clean install. -/
def cleanInstall : Defaults := ⟨none, none, none⟩

/-- A second profile is added and selected, and the first one is deleted. -/
theorem sample_store_consistent : ∃ m, Reachable step (launch (fun _ => 1#128) cleanInstall) m ∧
    m.profiles = [fresh 2#128] ∧ m.selectedProfileID = 2#128 ∧ Sound m ∧ Persisted m := by
  have ran : (run step (launch (fun _ => 1#128) cleanInstall)
      [.update (fresh 2#128), .select 2#128, .delete 1#128, .relaunch fun _ => 3#128]).map
      (fun m => (m.profiles, m.selectedProfileID)) = some ([fresh 2#128], 2#128) := by
    decide +kernel
  obtain ⟨m, ran, both⟩ := Option.map_eq_some_iff.mp ran
  obtain ⟨profiles, selected⟩ := Prod.mk.inj both
  have reached := reachable_of_run ran
  have consistent := profile_store_consistent (fun _ => 1#128) cleanInstall List.nodup_nil m reached
  exact ⟨m, reached, profiles, selected, consistent.1, consistent.2.1⟩

end ShadowVpn.App.Store
