import ShadowVpn.App.Store

/-! What a launch leaves of the stored profiles when some element of the list cannot be decoded. -/

namespace ShadowVpn.App.Tolerance
open ShadowVpn.Lib.Text ShadowVpn.Lib.Json ShadowVpn.App.Profiles ShadowVpn.App.Store

/-- The identifier that an element of the list carries. -/
def elementId : Value → Option Uuid
  | .object c => (c.lookup "id").bind asUuid
  | _ => none

/-- The profile stands for the element: it has its identifier or, where the element has none, its
content. -/
def StandsFor (p : Profile) (element : Value) : Prop :=
  match elementId element with
  | some id => p.id = id
  | none => decode p.id element = some p

def Kept (d : Defaults) (element : Value) : Prop :=
  ∃ items p, d.profileList = some (.array items) ∧ encode p ∈ items ∧ StandsFor p element

/-- What a launch falls back to: the active profile that was saved beside the list, or a new one. -/
def fallback (uuid : Nat → Uuid) (profile : Option Value) : Profile :=
  (profile.bind (decode (uuid 0))).getD (fresh (uuid 0))

theorem asUuid_null : asUuid .null = none := rfl

theorem decode_id {id : Uuid} {element : Value} {p : Profile} (read : decode id element = some p) :
    p.id = (elementId element).getD id := by
  cases element with
  | object c =>
    dsimp only [decode, asFields, Option.bind_eq_bind, Option.bind_some] at read
    simp only [Option.bind_eq_some_iff] at read
    obtain ⟨given, found, read⟩ := read
    have named : given = (c.lookup "id").bind asUuid := by
      unfold decodeIfPresent at found
      cases field : c.lookup "id" with
      | none => simpa [field] using found.symm
      | some value =>
        rw [field] at found
        cases value with
        | null => simpa [asUuid_null] using found.symm
        | _ =>
          simp only [Option.map_eq_some_iff] at found
          obtain ⟨u, same, rfl⟩ := found
          exact same.symm
    obtain ⟨_, _, _, _, _, _, _, _, _, _, _, _, _, _, _, _, _, _, _, _, made⟩ := read
    rw [← Option.some.inj made, elementId, ← named]
    rfl
  | _ => cases read

/-- A decoded element stands for itself. -/
theorem decode_standsFor {id : Uuid} {element : Value} {p : Profile} (read : decode id element = some p) :
    StandsFor p element := by
  have named := decode_id read
  unfold StandsFor
  cases own : elementId element with
  | some other => simpa [own] using named
  | none =>
    have same : p.id = id := by simpa [own] using named
    exact same ▸ read

theorem decodeList_isSome (uuid : Nat → Uuid) (elements : List Value) :
    (decodeList uuid elements).isSome = true ↔ ∀ e ∈ elements, ∃ c, e = .object c ∧ Decodable c := by
  induction elements with
  | nil => simp [decodeList]
  | cons first rest ih =>
    rw [List.forall_mem_cons, ← ih, ← decode_isSome_iff (uuid rest.length)]
    cases one : decode (uuid rest.length) first <;> cases others : decodeList uuid rest <;>
      simp [decodeList, one, others]

theorem decodeList_mem {uuid : Nat → Uuid} {elements : List Value} {profiles : List Profile}
    (read : decodeList uuid elements = some profiles) :
    ∀ e ∈ elements, ∃ p ∈ profiles, StandsFor p e := by
  induction elements generalizing profiles with
  | nil => exact fun e member => absurd member List.not_mem_nil
  | cons first rest ih =>
    simp only [decodeList, Option.bind_eq_bind, Option.bind_eq_some_iff, Option.some.injEq] at read
    obtain ⟨p, one, others, more, rfl⟩ := read
    intro e member
    rcases List.mem_cons.mp member with rfl | later
    · exact ⟨p, List.mem_cons_self, decode_standsFor one⟩
    · obtain ⟨q, inside, stands⟩ := ih more e later
      exact ⟨q, List.mem_cons_of_mem _ inside, stands⟩

/-- What is kept after a launch is what is in the list that it made. -/
theorem kept_launch (uuid : Nat → Uuid) (d : Defaults) (element : Value) :
    Kept (launch uuid d).defaults element ↔ ∃ p ∈ (init uuid d).profiles, StandsFor p element := by
  constructor
  · rintro ⟨items, p, stored, member, stands⟩
    obtain rfl : (init uuid d).profiles.map encode = items := by
      simpa [launch, AppModel.persist] using stored
    obtain ⟨q, inside, same⟩ := List.mem_map.mp member
    have equal : q = p := by
      have read := decode_encode 0 q
      rw [same, decode_encode] at read
      exact (Option.some.inj read).symm
    exact ⟨p, equal ▸ inside, stands⟩
  · rintro ⟨p, inside, stands⟩
    exact ⟨_, p, rfl, List.mem_map_of_mem inside, stands⟩

/-- A launch keeps every well-typed element exactly if every element of the list is decodable, or the
saved active profile stands for all the well-typed ones. -/
theorem launch_keeps_iff (uuid : Nat → Uuid) (elements : List Value) (profile : Option Value)
    (selected : Option Chars) :
    (∀ e ∈ elements, WellTyped e → Kept (launch uuid ⟨some (.array elements), profile, selected⟩).defaults e) ↔
      (∀ e ∈ elements, ∃ c, e = .object c ∧ Decodable c) ∨
        ∀ e ∈ elements, WellTyped e → StandsFor (fallback uuid profile) e := by
  simp only [kept_launch]
  rw [← decodeList_isSome uuid]
  cases read : decodeList uuid elements with
  | none =>
    have stored : readProfiles uuid ⟨some (.array elements), profile, selected⟩ = [] := by
      simp [readProfiles, asArray, read]
    have only : (init uuid ⟨some (.array elements), profile, selected⟩).profiles = [fallback uuid profile] := by
      simp only [init, stored]
      rfl
    simp [only]
  | some profiles =>
    have stored : readProfiles uuid ⟨some (.array elements), profile, selected⟩ = profiles := by
      simp [readProfiles, asArray, read]
    refine iff_of_true ?_ (.inl rfl)
    intro e member _
    obtain ⟨p, inside, stands⟩ := decodeList_mem read e member
    refine ⟨p, ?_, stands⟩
    cases profiles with
    | nil => exact absurd inside List.not_mem_nil
    | cons first rest =>
      simp only [init, stored]
      exact inside

theorem typed_of_lookup {α : Type} {decode : Value → Option α} {c : Fields} {key : String} {value : Value}
    (found : c.lookup key = some value) (read : (decode value).isSome = true) : Typed decode c key := by
  intro other same
  rw [found] at same
  exact .inr (Option.some.inj same ▸ read)

theorem typed_of_absent {α : Type} {decode : Value → Option α} {c : Fields} {key : String}
    (absent : c.lookup key = none) : Typed decode c key := by
  intro value found
  rw [absent] at found
  cases found

theorem elementId_encode (p : Profile) : elementId (encode p) = some p.id := by
  have found : elementId (encode p) = (some (.string (uuidString p.id))).bind asUuid := rfl
  rw [found, Option.bind_some, asUuid_uuidString]

theorem encode_wellTyped (p : Profile) : WellTyped (encode p) := by
  refine ⟨_, rfl, ?_, ?_, ?_⟩
  · exact typed_of_lookup rfl (Option.isSome_iff_exists.mpr ⟨_, asUuid_uuidString p.id⟩)
  · simp only [List.forall_mem_cons]
    exact ⟨typed_of_lookup rfl rfl, typed_of_lookup rfl rfl, typed_of_lookup rfl rfl,
      typed_of_lookup rfl rfl, typed_of_lookup rfl rfl, typed_of_lookup rfl rfl, typed_of_lookup rfl rfl,
      typed_of_lookup rfl rfl, typed_of_lookup rfl rfl, typed_of_lookup rfl rfl, by simp⟩
  · simp only [List.forall_mem_cons]
    exact ⟨typed_of_lookup rfl (Option.isSome_iff_exists.mpr ⟨_, asInt_toInt p.port⟩),
      typed_of_lookup rfl (Option.isSome_iff_exists.mpr ⟨_, asInt_toInt p.mtu⟩), by simp⟩

/-- A stored profile of another build, with a cipher that this one does not know. -/
def sampleForeign : Value :=
  .object [("id", .string (uuidString 6#128)), ("cipher", .string "aes-192-gcm".toList)]

theorem sampleForeign_wellTyped : WellTyped sampleForeign := by
  refine ⟨_, rfl, ?_, ?_, ?_⟩
  · exact typed_of_lookup rfl (Option.isSome_iff_exists.mpr ⟨_, asUuid_uuidString 6#128⟩)
  · simp only [List.forall_mem_cons]
    exact ⟨typed_of_absent rfl, typed_of_absent rfl, typed_of_absent rfl, typed_of_lookup rfl rfl,
      typed_of_absent rfl, typed_of_absent rfl, typed_of_absent rfl, typed_of_absent rfl,
      typed_of_absent rfl, typed_of_absent rfl, by simp⟩
  · simp only [List.forall_mem_cons]
    exact ⟨typed_of_absent rfl, typed_of_absent rfl, by simp⟩

/-- The foreign cipher costs a profile of this build its place in the list. -/
theorem foreign_cipher_loses_profile : ∃ e ∈ [encode (fresh 5#128), sampleForeign],
    WellTyped e ∧ WellTyped sampleForeign ∧ ¬Kept (launch (fun _ => 1#128)
      ⟨some (.array [encode (fresh 5#128), sampleForeign]), none, none⟩).defaults e := by
  refine ⟨_, List.mem_cons_self, encode_wellTyped _, sampleForeign_wellTyped, ?_⟩
  have only : (init (fun _ => 1#128) ⟨some (.array [encode (fresh 5#128), sampleForeign]), none, none⟩).profiles =
      [fresh 1#128] := by
    decide +kernel
  rw [kept_launch, only]
  rintro ⟨p, inside, stands⟩
  rw [List.mem_singleton.mp inside, StandsFor, elementId_encode] at stands
  exact absurd stands (by decide)

end ShadowVpn.App.Tolerance
