import ShadowVpn.App.Form
import ShadowVpn.Engine.Config
import ShadowVpn.Engine.Datagram
import ShadowVpn.Tunnel.ConfigJson

/-! From the profile form to the running configuration: the form makes a profile, the app stamps it
into the tunnel's preferences, the provider rebuilds the JSON and the data plane reads it. -/

namespace ShadowVpn.App.Starting
open ShadowVpn.Lib ShadowVpn.Lib.Text ShadowVpn.Lib.Json ShadowVpn.Lib.Utf8 ShadowVpn.Wire.Crypto
open ShadowVpn.Policy.Chnroute ShadowVpn.App.Profiles ShadowVpn.App.Form ShadowVpn.Engine.Config
open ShadowVpn.Tunnel.Readers ShadowVpn.Tunnel.ConfigJson
open ShadowVpn.Tunnel.Settings (isSplit)
open ShadowVpn.Engine.Datagram (samplePrims)

def runtimeMode : TunnelMode → Mode
  | .full => .full
  | .chinadns => .chinadns

def runtimeObfs : Obfuscation → Obfs
  | .none => .none
  | .quic => .quic
  | .base64 => .base64

/-- An upstream of the profile, or the provider's default where it is blank. -/
def upstream (text fallback : Chars) : Chars := if text = [] then fallback else text

/-- The JSON configuration of the profile that the app connects with. -/
def profileJson (parseObject : Chars → Option Fields) (p : Profile) (chnrouteURL : Option FileUrl) : Value :=
  let cfg := (configure (some p)).providerConfiguration
  buildConfigJSON parseObject cfg ((stringFromConfig cfg "mode").getD "full".toList) chnrouteURL

theorem modeNamed_raw (mode : TunnelMode) : modeNamed mode.rawValue.toList = some (runtimeMode mode) := by
  cases mode <;> decide +kernel

theorem obfsNamed_raw (obfs : Obfuscation) : obfsNamed obfs.rawValue.toList = some (runtimeObfs obfs) := by
  cases obfs <;> decide +kernel

theorem fromName_raw (cipher : Cipher) : fromName (cipherRaw cipher).toList = .ok cipher := by
  cases cipher <;> decide +kernel

theorem stringFromConfig_getD {cfg : Fields} {key : String} {text : Chars}
    (found : cfg.lookup key = some (.string text)) (fallback : Chars) :
    (stringFromConfig cfg key).getD fallback = upstream text fallback := by
  unfold stringFromConfig upstream
  rw [found]
  dsimp only
  split <;> rfl

theorem upstream_nonempty {text : Chars} (nonempty : text ≠ []) (fallback : Chars) :
    upstream text fallback = text := if_neg nonempty

theorem upstream_nil (text : Chars) : upstream text [] = text := by
  unfold upstream
  split
  · next empty => exact empty.symm
  · rfl

/-- The texts that the app stamps into the provider's configuration, under their keys. -/
def stampedTexts (p : Profile) : List (String × Chars) :=
  [("server", p.serverAddress), ("password", p.password), ("cipher", (cipherRaw p.cipher).toList),
    ("mode", p.mode.rawValue.toList), ("dns_local", p.dnsLocal), ("dns_remote", p.dnsRemote),
    ("obfs", p.obfuscation.rawValue.toList)]

theorem configure_texts (p : Profile) : ∀ entry ∈ stampedTexts p,
    (configure (some p)).providerConfiguration.lookup entry.1 = some (.string entry.2) := by
  dsimp only [configure]
  simp [stampedTexts, List.lookup_cons]

theorem configure_mtu (p : Profile) :
    (configure (some p)).providerConfiguration.lookup "mtu" = some (.number p.mtu.toInt) := by
  dsimp only [configure]
  simp [List.lookup_cons]

theorem configure_provided (p : Profile) :
    (configure (some p)).providerConfiguration.lookup "config_json" = none := by
  dsimp only [configure]
  simp [List.lookup_cons]

/-- The route file that a profile's configuration names. -/
def routePath (p : Profile) (url : Option FileUrl) : Option Chars :=
  if p.mode = .chinadns then url.map FileUrl.path else none

/-- A JSON object tells the data plane the profile. -/
structure Tells (p : Profile) (path : Option Chars) (c : Fields) : Prop where
  distinct : (c.map Prod.fst).Nodup
  server : c.lookup "server" = some (.string p.serverAddress)
  password : c.lookup "password" = some (.string p.password)
  cipher : c.lookup "cipher" = some (.string (cipherRaw p.cipher).toList)
  mode : c.lookup "mode" = some (.string p.mode.rawValue.toList)
  mtu : c.lookup "mtu" = some (.number p.mtu.toInt)
  dnsLocal : c.lookup "dns_local" = some (.string (upstream p.dnsLocal defaultDNSLocal))
  dnsRemote : c.lookup "dns_remote" = some (.string (upstream p.dnsRemote defaultDNSRemote))
  obfs : c.lookup "obfs" = some (.string p.obfuscation.rawValue.toList)
  chnroutePath : c.lookup "chnroute_path" = path.map .string

theorem Tells.addPath {p : Profile} {c : Fields} (tells : Tells p none c) (path : Chars) :
    Tells p (some path) (put c "chnroute_path" (.string path)) := by
  constructor
  case distinct => exact put_distinct tells.distinct _ _
  case chnroutePath => exact lookup_put c _ _
  all_goals rw [lookup_put_other _ _ (by decide)]
  exacts [tells.server, tells.password, tells.cipher, tells.mode, tells.mtu, tells.dnsLocal, tells.dnsRemote,
    tells.obfs]

theorem localDefault : defaultDNSLocal = "114.114.114.114:53".toList := rfl

theorem remoteDefault : defaultDNSRemote = "8.8.8.8:53".toList := rfl

/-- The app's dictionary and the provider's fallbacks leave the profile as it is. -/
theorem profileJson_tells (parse : Chars → Option Fields) (p : Profile) (url : Option FileUrl) :
    ∃ c, profileJson parse p url = .object c ∧ Tells p (routePath p url) c := by
  have cipher : (cipherRaw p.cipher).toList ≠ [] := by cases p.cipher <;> decide
  have mode : p.mode.rawValue.toList ≠ [] := by cases p.mode <;> decide
  have obfs : p.obfuscation.rawValue.toList ≠ [] := by cases p.obfuscation <;> decide
  have server : p.serverAddress ≠ [] := by simp [Profile.serverAddress]
  have split : isSplit p.mode.rawValue.toList = decide (p.mode = .chinadns) := by cases p.mode <;> decide
  have texts := configure_texts p
  have mtu := configure_mtu p
  have provided := configure_provided p
  dsimp only [profileJson]
  generalize (configure (some p)).providerConfiguration = cfg at texts mtu provided ⊢
  simp only [stampedTexts, List.forall_mem_cons] at texts
  obtain ⟨hserver, hpassword, hcipher, hmode, hlocal, hremote, hobfs, _⟩ := texts
  have none : stringFromConfig cfg "config_json" = none := by rw [stringFromConfig, provided]
  have number : integerFromConfig cfg "mtu" 1400 = p.mtu.toInt := by rw [integerFromConfig, mtu]
  have plain : Tells p Option.none (put (rebuilt cfg p.mode.rawValue.toList) "obfs"
      (.string p.obfuscation.rawValue.toList)) := by
    unfold rebuilt
    rw [stringFromConfig_getD hserver, upstream_nonempty server, stringFromConfig_getD hpassword,
      upstream_nil, stringFromConfig_getD hcipher, upstream_nonempty cipher, number,
      stringFromConfig_getD hlocal, stringFromConfig_getD hremote]
    constructor
    case distinct =>
      have empty : (([] : Fields).map Prod.fst).Nodup := List.nodup_nil
      refine put_distinct (put_distinct (put_distinct (put_distinct ?_ _ _) _ _) _ _) _ _
      exact put_distinct (put_distinct (put_distinct (put_distinct empty _ _) _ _) _ _) _ _
    all_goals repeat rw [lookup_put_other _ _ (by decide)]
    case chnroutePath => rfl
    case dnsLocal => rw [lookup_put, localDefault]
    case dnsRemote => rw [lookup_put, remoteDefault]
    all_goals exact lookup_put _ _ _
  dsimp only [buildConfigJSON]
  rw [stringFromConfig_getD hmode, upstream_nonempty mode, none, Option.bind_none, Option.getD_none,
    stringFromConfig_getD hobfs, upstream_nonempty obfs, split, routePath]
  cases url with
  | none => exact ⟨_, rfl, by simpa using plain⟩
  | some url =>
    by_cases chinadns : p.mode = .chinadns
    · rw [if_pos chinadns]
      dsimp only
      rw [if_pos (decide_eq_true chinadns)]
      exact ⟨_, rfl, plain.addPath url.path⟩
    · rw [if_neg chinadns]
      dsimp only
      rw [if_neg (by simpa using chinadns)]
      exact ⟨_, rfl, plain⟩

/-- What is read of it, with the MTU that was found. -/
def told (p : Profile) (path : Option Chars) (mtu : BitVec 16) : RawConfig where
  server := p.serverAddress
  password := p.password
  cipher := (cipherRaw p.cipher).toList
  mode := runtimeMode p.mode
  mtu := some mtu
  dnsLocal := some (upstream p.dnsLocal defaultDNSLocal)
  dnsRemote := some (upstream p.dnsRemote defaultDNSRemote)
  chnroutePath := path
  obfs := runtimeObfs p.obfuscation

theorem Tells.read {p : Profile} {path : Option Chars} {c : Fields} (tells : Tells p path c) :
    RawConfig.read (.object c) = (asU16 (.number p.mtu.toInt)).map (told p path) := by
  have once : structFields (.object c) = some c := by
    rw [structFields, if_pos]
    exact fun key _ => List.nodup_iff_count_le_one.mp tells.distinct key
  have path : decodeIfPresent asString c "chnroute_path" = some path := by
    rw [decodeIfPresent, tells.chnroutePath]
    cases path <;> rfl
  have text (key : String) (value : Chars) (found : c.lookup key = some (.string value)) :
      decodeIfPresent asString c key = some (some value) := decodeIfPresent_some found Value.noConfusion
  have mtu : decodeIfPresent asU16 c "mtu" = (asU16 (.number p.mtu.toInt)).map some :=
    decodeIfPresent_some tells.mtu Value.noConfusion
  have mode : decodeOr Mode.full (asVariant modeNamed) c "mode" = some (runtimeMode p.mode) :=
    (decodeOr_some tells.mode).trans (modeNamed_raw p.mode)
  have obfs : decodeOr Obfs.none (asVariant obfsNamed) c "obfs" = some (runtimeObfs p.obfuscation) :=
    (decodeOr_some tells.obfs).trans (obfsNamed_raw p.obfuscation)
  dsimp only [RawConfig.read, Option.bind_eq_bind]
  rw [once, Option.bind_some, decodeField_some tells.server, decodeField_some tells.password,
    decodeField_some tells.cipher, mode, mtu, text _ _ tells.dnsLocal,
    text _ _ tells.dnsRemote, path, obfs]
  cases asU16 (.number p.mtu.toInt) <;> rfl

/-- The data plane runs with what the profile says. -/
structure Carries (prims : Primitives) (p : Profile) (cfg : RuntimeConfig) : Prop where
  server : cfg.server = p.serverAddress
  cipher : cfg.cipher = p.cipher
  masterKey : cfg.masterKey = evpBytesToKey prims (utf8 p.password) p.cipher.keyLen
  mode : cfg.mode = runtimeMode p.mode
  mtu : (cfg.mtu.toNat : Int) = p.mtu.toInt
  dnsLocal : cfg.dnsLocal = some (upstream p.dnsLocal defaultDNSLocal)
  dnsRemote : cfg.dnsRemote = some (upstream p.dnsRemote defaultDNSRemote)
  obfs : cfg.obfs = runtimeObfs p.obfuscation

/-- The MTU fits, and no upstream of a split profile is made of newline characters alone. -/
structure Startable (form : EditableProfile) : Prop where
  mtu : ∀ n, intFromText (trimmed form.mtuText) = some n → n ≤ 65535
  upstreams : form.mode = .chinadns → ∀ text ∈ [form.dnsLocal, form.dnsRemote],
    (∃ c ∈ text, isBlank c = false) → ∃ c ∈ text, isWhitespace c = false

/-- Foundation's white space goes first, then Rust's: what is left is left by Rust's alone. -/
theorem white_trimmed (text : Chars) :
    (∀ c ∈ trimmed text, isWhitespace c = true) ↔ ∀ c ∈ text, isWhitespace c = true := by
  obtain ⟨front, back, whole, before, after⟩ := trim_spec isBlank text
  constructor
  · intro inner c member
    rw [whole] at member
    rcases List.mem_append.mp member with member | last
    · rcases List.mem_append.mp member with first | middle
      · exact (white_iff c).mpr (.inl (before c first))
      · exact inner c middle
    · exact (white_iff c).mpr (.inl (after c last))
  · exact fun all c member => all c (mem_of_mem_trim isBlank text c member)

theorem missing_upstream (text fallback : Chars) (usable : ∃ c ∈ fallback, isWhitespace c = false) :
    missing (some (upstream (trimmed text) fallback)) = false ↔
      ((∃ c ∈ text, isBlank c = false) → ∃ c ∈ text, isWhitespace c = false) := by
  have white (t : Chars) : missing (some t) = false ↔ ∃ c ∈ t, isWhitespace c = false := by
    rw [missing, Option.getD_some, Bool.eq_false_iff, Ne, List.isEmpty_iff, trim_nil_iff]
    simp
  rw [white, upstream]
  split
  · next blank =>
    refine iff_of_true usable ?_
    rintro ⟨c, member, seen⟩
    have space := (trim_nil_iff isBlank text).mp blank c member
    rw [seen] at space
    cases space
  · next filled =>
    have some : ∃ c ∈ text, isBlank c = false := by
      by_contra none
      exact filled (trim_nil_of_all isBlank text (by simpa using none))
    have same := not_congr (white_trimmed text)
    simp only [not_forall, exists_prop, Bool.not_eq_true] at same
    rw [same]
    exact ⟨fun seen _ => seen, fun seen => seen some⟩

theorem validate_told (prims : Primitives) (p : Profile) (path : Option Chars) (mtu : BitVec 16)
    (fits : (mtu.toNat : Int) = p.mtu.toInt) (found : p.mode = .chinadns → missing path = false) :
    (∃ cfg, (told p path mtu).validate prims = .ok cfg ∧ Carries prims p cfg) ↔
      (p.mode = .chinadns → missing (some (upstream p.dnsLocal defaultDNSLocal)) = false ∧
        missing (some (upstream p.dnsRemote defaultDNSRemote)) = false) := by
  have named : (trim isWhitespace p.serverAddress).isEmpty = false := by
    rw [Bool.eq_false_iff, Ne, List.isEmpty_iff, trim_nil_iff]
    intro all
    exact absurd (all ':' (by simp [Profile.serverAddress])) (by decide)
  have carried : Carries prims p
      { server := p.serverAddress, cipher := p.cipher
        masterKey := evpBytesToKey prims (utf8 p.password) p.cipher.keyLen, mode := runtimeMode p.mode
        mtu := mtu, dnsLocal := some (upstream p.dnsLocal defaultDNSLocal)
        dnsRemote := some (upstream p.dnsRemote defaultDNSRemote), chnroutePath := path
        obfs := runtimeObfs p.obfuscation } := by
    constructor <;> first | rfl | exact fits
  have mode : runtimeMode p.mode = .chinadns ↔ p.mode = .chinadns := by cases p.mode <;> decide
  dsimp only [RawConfig.validate, told]
  rw [named, fromName_raw]
  simp only [Bool.false_eq_true, if_false, mode]
  by_cases chinadns : p.mode = .chinadns
  · rw [if_pos chinadns, found chinadns, imp_iff_right chinadns]
    cases missing (some (upstream p.dnsLocal defaultDNSLocal)) with
    | true => simp
    | false =>
      cases missing (some (upstream p.dnsRemote defaultDNSRemote)) with
      | true => simp
      | false => exact iff_of_true ⟨_, rfl, carried⟩ ⟨rfl, rfl⟩
  · rw [if_neg chinadns]
    exact iff_of_true ⟨_, rfl, carried⟩ fun split => absurd split chinadns

theorem asU16_number (n : Int) :
    asU16 (.number n) = if 0 ≤ n ∧ n ≤ 65535 then some (BitVec.ofInt 16 n) else none := by
  rw [asU16, asInteger]
  split <;> rfl

/-- The form's MTU is the one of its text, or the default, but never below 576. -/
theorem mtu_fits (form : EditableProfile) : 0 ≤ form.mtu.toInt ∧ (form.mtu.toInt ≤ 65535 ↔
    ∀ n, intFromText (trimmed form.mtuText) = some n → n ≤ 65535) := by
  unfold EditableProfile.mtu
  cases intFromText (trimmed form.mtuText) with
  | none => exact ⟨by decide, iff_of_true (by decide) (by simp)⟩
  | some n =>
    have large : (65535 : Int64).toInt = 65535 := by decide
    have floor : (576 : Int64).toInt = 576 := by decide
    simp only [Option.getD_some, Option.some.injEq, forall_eq', Int64.le_iff_toInt_le, large]
    change 0 ≤ (if (576 : Int64) ≤ n then n else 576).toInt ∧
      ((if (576 : Int64) ≤ n then n else 576).toInt ≤ 65535 ↔ _)
    by_cases above : (576 : Int64) ≤ n
    · rw [if_pos above]
      rw [Int64.le_iff_toInt_le, floor] at above
      exact ⟨by omega, Iff.rfl⟩
    · rw [if_neg above, floor]
      rw [Int64.le_iff_toInt_le, floor] at above
      exact ⟨by decide, iff_of_true (by decide) (by omega)⟩

theorem path_found (url : FileUrl) : missing (some url.path) = false := by
  obtain ⟨rest, shape⟩ := List.head?_eq_some_iff.mp url.absolute
  rw [missing, Option.getD_some, Bool.eq_false_iff, Ne, List.isEmpty_iff, trim_nil_iff]
  intro all
  exact absurd (all '/' (by rw [shape]; exact List.mem_cons_self)) (by decide)

/-- A form, complete or not, starts the data plane with its profile exactly if its MTU fits sixteen
bits and, for a split profile, each upstream is blank for Foundation or not blank for Rust. -/
theorem form_starts_iff (prims : Primitives) (problem : Value → Chars) (parseObject : Chars → Option Fields)
    (uppercased : Chars → Chars) (form : EditableProfile)
    (url : Option FileUrl) (resolved : form.mode = .chinadns → url.isSome = true) :
    (∃ cfg, fromJson prims problem (profileJson parseObject (form.makeProfile uppercased) url) = .ok cfg ∧
      Carries prims (form.makeProfile uppercased) cfg) ↔ Startable form := by
  obtain ⟨low, high⟩ := mtu_fits form
  obtain ⟨c, json, tells⟩ := profileJson_tells parseObject (form.makeProfile uppercased) url
  rw [json, fromJson, tells.read, asU16_number]
  by_cases fits : form.mtu.toInt ≤ 65535
  · have within : 0 ≤ (form.makeProfile uppercased).mtu.toInt ∧ (form.makeProfile uppercased).mtu.toInt ≤ 65535 :=
      ⟨low, fits⟩
    have same : ((BitVec.ofInt 16 (form.makeProfile uppercased).mtu.toInt).toNat : Int) =
        (form.makeProfile uppercased).mtu.toInt := by
      rw [BitVec.toNat_ofInt]
      omega
    have path : form.mode = .chinadns → missing (routePath (form.makeProfile uppercased) url) = false := by
      intro chinadns
      obtain ⟨file, rfl⟩ := Option.isSome_iff_exists.mp (resolved chinadns)
      have named : routePath (form.makeProfile uppercased) (some file) = some file.path := if_pos chinadns
      rw [named]
      exact path_found file
    have near := missing_upstream form.dnsLocal defaultDNSLocal ⟨'1', by simp [localDefault], by decide⟩
    have far := missing_upstream form.dnsRemote defaultDNSRemote ⟨'8', by simp [remoteDefault], by decide⟩
    rw [if_pos within, Option.map_some, validate_told prims _ _ _ same path]
    change (form.mode = .chinadns → missing (some (upstream (trimmed form.dnsLocal) defaultDNSLocal)) = false ∧
      missing (some (upstream (trimmed form.dnsRemote) defaultDNSRemote)) = false) ↔ _
    rw [near, far]
    constructor
    · intro both
      refine ⟨high.mp fits, ?_⟩
      intro chinadns
      simp only [List.forall_mem_cons]
      exact ⟨(both chinadns).1, (both chinadns).2, by simp⟩
    · intro startable chinadns
      have texts := startable.upstreams chinadns
      simp only [List.forall_mem_cons] at texts
      exact ⟨texts.1, texts.2.1⟩
  · have without : ¬(0 ≤ (form.makeProfile uppercased).mtu.toInt ∧ (form.makeProfile uppercased).mtu.toInt ≤ 65535) :=
      fun both => fits both.2
    rw [if_neg without, Option.map_none]
    refine iff_of_false ?_ fun startable => fits (high.mpr startable.mtu)
    rintro ⟨cfg, refused, _⟩
    cases refused

/-- A split profile with everything filled in, and a text for the MTU. -/
def sampleForm (mtuText : Chars) : EditableProfile where
  id := 1#128
  name := []
  server := " vpn.example ".toList
  portText := "8388".toList
  password := "secret".toList
  cipher := .chaCha20Poly1305
  mode := .chinadns
  dnsLocal := "223.5.5.5:53".toList
  dnsRemote := []
  bypassCountry := "cn".toList
  mtuText := mtuText
  obfuscation := .quic
  peerIP := []

def sampleUrl : FileUrl := ⟨"/chnroute.txt".toList, by decide⟩

theorem sample_form_starts : (sampleForm "1280".toList).isComplete = true ∧ Startable (sampleForm "1280".toList) ∧
    ∃ cfg, fromJson samplePrims (fun _ => []) (profileJson (fun _ => none)
      ((sampleForm "1280".toList).makeProfile id) (some sampleUrl)) = .ok cfg ∧
        Carries samplePrims ((sampleForm "1280".toList).makeProfile id) cfg := by
  have complete : (sampleForm "1280".toList).isComplete = true := by decide +kernel
  have startable : Startable (sampleForm "1280".toList) := by
    constructor
    · have read : intFromText (trimmed "1280".toList) = some 1280 := by decide +kernel
      intro n other
      rw [← Option.some.inj (read.symm.trans other)]
      decide
    · rintro -
      simp only [List.forall_mem_cons]
      refine ⟨fun _ => ⟨'2', by simp [sampleForm], by decide⟩, ?_, by simp⟩
      rintro ⟨c, member, _⟩
      exact absurd member List.not_mem_nil
  exact ⟨complete, startable, (form_starts_iff samplePrims (fun _ => []) (fun _ => none) id _ (some sampleUrl)
    fun _ => rfl).mpr startable⟩

/-- An MTU beyond sixteen bits is taken by the form and refused by the data plane. -/
theorem large_mtu_refused : (sampleForm "70000".toList).isComplete = true ∧
    ∀ cfg, fromJson samplePrims (fun _ => []) (profileJson (fun _ => none)
      ((sampleForm "70000".toList).makeProfile id) (some sampleUrl)) ≠ .ok cfg := by
  refine ⟨by decide +kernel, ?_⟩
  obtain ⟨c, json, tells⟩ := profileJson_tells (fun _ => none) ((sampleForm "70000".toList).makeProfile id)
    (some sampleUrl)
  have large : ¬(0 ≤ ((sampleForm "70000".toList).makeProfile id).mtu.toInt ∧
      ((sampleForm "70000".toList).makeProfile id).mtu.toInt ≤ 65535) := by
    decide +kernel
  rw [json, fromJson, tells.read, asU16_number, if_neg large]
  intro cfg accepted
  cases accepted

end ShadowVpn.App.Starting
