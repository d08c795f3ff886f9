import ShadowVpn.Lib.Hex
import ShadowVpn.Lib.Json
import ShadowVpn.Wire.Crypto

/-! The user's connection profile, its defaults and its JSON form with the tolerant decoder. -/

namespace ShadowVpn.App.Profiles
open ShadowVpn.Lib ShadowVpn.Lib.Text ShadowVpn.Lib.Json ShadowVpn.Wire.Crypto

abbrev Uuid := BitVec 128

/-- The widths of `8-4-4-4-12`. -/
def uuidWidths : List Nat := [8, 4, 4, 4, 12]

def uuidString (id : Uuid) : Chars := Hex.joined uuidWidths id.toNat

/-- `UUID(uuidString:)`. -/
def uuidFromString (text : Chars) : Option Uuid :=
  (Hex.readJoined uuidWidths text).map fun n => BitVec.ofNat 128 n

inductive TunnelMode where
  | full
  | chinadns
  deriving DecidableEq

inductive Obfuscation where
  | none
  | quic
  | base64
  deriving DecidableEq

def cipherRaw : Cipher → String
  | .aes128Gcm => "aes-128-gcm"
  | .aes256Gcm => "aes-256-gcm"
  | .chaCha20Poly1305 => "chacha20-poly1305"

def TunnelMode.rawValue : TunnelMode → String
  | .full => "full"
  | .chinadns => "chinadns"

def Obfuscation.rawValue : Obfuscation → String
  | .none => "none"
  | .quic => "quic"
  | .base64 => "base64"

/-- `init(rawValue:)` of an enumeration with these cases. -/
def fromRaw {α : Type} (cases : List α) (rawValue : α → String) (text : Chars) : Option α :=
  cases.find? fun value => (rawValue value).toList == text

def cipherFromRaw : Chars → Option Cipher :=
  fromRaw [.aes128Gcm, .aes256Gcm, .chaCha20Poly1305] cipherRaw

def TunnelMode.fromRaw : Chars → Option TunnelMode :=
  Profiles.fromRaw [.full, .chinadns] TunnelMode.rawValue

def Obfuscation.fromRaw : Chars → Option Obfuscation :=
  Profiles.fromRaw [.none, .quic, .base64] Obfuscation.rawValue

structure Profile where
  id : Uuid
  name : Chars
  server : Chars
  port : Int64
  password : Chars
  cipher : Cipher
  mode : TunnelMode
  dnsLocal : Chars
  dnsRemote : Chars
  mtu : Int64
  bypassCountry : Chars
  obfuscation : Obfuscation
  peerIP : Chars
  deriving DecidableEq

def defaultDNSLocal : Chars := "114.114.114.114:53".toList
def defaultDNSRemote : Chars := "8.8.8.8:53".toList
def defaultMTU : Int64 := 1400
def defaultBypassCountry : Chars := "CN".toList
def defaultPeerIP : Chars := "10.9.0.2".toList

/-- `Profile()`, with the identifier that `UUID()` made. -/
def fresh (id : Uuid) : Profile where
  id := id
  name := "ShadowVPN".toList
  server := []
  port := 8388
  password := []
  cipher := .chaCha20Poly1305
  mode := .full
  dnsLocal := defaultDNSLocal
  dnsRemote := defaultDNSRemote
  mtu := defaultMTU
  bypassCountry := defaultBypassCountry
  obfuscation := .none
  peerIP := defaultPeerIP

/-- An `Int` as text. -/
def intText (n : Int) : Chars :=
  match n with
  | .ofNat n => Nat.toDigits 10 n
  | .negSucc n => '-' :: Nat.toDigits 10 (n + 1)

def Profile.serverAddress (p : Profile) : Chars := p.server ++ ':' :: intText p.port.toInt

def Profile.isComplete (p : Profile) : Bool := !p.server.isEmpty && decide (0 < p.port) && !p.password.isEmpty

def encode (p : Profile) : Value :=
  .object [("id", .string (uuidString p.id)), ("name", .string p.name), ("server", .string p.server),
    ("port", .number p.port.toInt), ("password", .string p.password),
    ("cipher", .string (cipherRaw p.cipher).toList), ("mode", .string p.mode.rawValue.toList),
    ("dnsLocal", .string p.dnsLocal), ("dnsRemote", .string p.dnsRemote),
    ("mtu", .number p.mtu.toInt), ("bypassCountry", .string p.bypassCountry),
    ("obfuscation", .string p.obfuscation.rawValue.toList), ("peerIP", .string p.peerIP)]

def asUuid (value : Value) : Option Uuid := (asString value).bind uuidFromString

def asInt (value : Value) : Option Int64 :=
  (asInteger Int64.minValue.toInt Int64.maxValue.toInt value).map Int64.ofInt

def asCipher (value : Value) : Option Cipher := (asString value).bind cipherFromRaw

def asMode (value : Value) : Option TunnelMode := (asString value).bind TunnelMode.fromRaw

def asObfuscation (value : Value) : Option Obfuscation := (asString value).bind Obfuscation.fromRaw

/-- `init(from:)`; the identifier is the one that `Profile()` makes for the defaults. -/
def decode (id : Uuid) (value : Value) : Option Profile := do
  let c ← asFields value
  let d := fresh id
  let id ← decodeIfPresent asUuid c "id"
  let name ← decodeIfPresent asString c "name"
  let server ← decodeIfPresent asString c "server"
  let port ← decodeIfPresent asInt c "port"
  let password ← decodeIfPresent asString c "password"
  let cipher ← decodeIfPresent asCipher c "cipher"
  -- `try? c.decode`: a mode or obfuscation that cannot be read is the default
  let mode := (c.lookup "mode").bind asMode
  let dnsLocal ← decodeIfPresent asString c "dnsLocal"
  let dnsRemote ← decodeIfPresent asString c "dnsRemote"
  let mtu ← decodeIfPresent asInt c "mtu"
  let bypassCountry ← decodeIfPresent asString c "bypassCountry"
  let obfuscation := (c.lookup "obfuscation").bind asObfuscation
  let peerIP ← decodeIfPresent asString c "peerIP"
  some { id := id.getD d.id, name := name.getD d.name, server := server.getD d.server
         port := port.getD d.port, password := password.getD d.password
         cipher := cipher.getD d.cipher, mode := mode.getD d.mode
         dnsLocal := dnsLocal.getD d.dnsLocal, dnsRemote := dnsRemote.getD d.dnsRemote
         mtu := mtu.getD d.mtu, bypassCountry := bypassCountry.getD d.bypassCountry
         obfuscation := obfuscation.getD d.obfuscation, peerIP := peerIP.getD d.peerIP }

theorem uuidFromString_uuidString (id : Uuid) : uuidFromString (uuidString id) = some id := by
  have fits : id.toNat < 16 ^ uuidWidths.sum := id.isLt
  rw [uuidFromString, uuidString, Hex.readJoined_joined _ _ (by decide) fits, Option.map_some,
    BitVec.ofNat_toNat, BitVec.setWidth_eq]

theorem asUuid_uuidString (id : Uuid) : asUuid (.string (uuidString id)) = some id :=
  uuidFromString_uuidString id

theorem asInt_toInt (n : Int64) : asInt (.number n.toInt) = some n := by
  have low := n.minValue_le_toInt
  have high := n.toInt_le
  simp only [asInt, asInteger]
  rw [if_pos ⟨low, high⟩, Option.map_some, Int64.ofInt_toInt]

theorem cipherFromRaw_raw (cipher : Cipher) : cipherFromRaw (cipherRaw cipher).toList = some cipher := by
  cases cipher <;> decide +kernel

theorem mode_fromRaw (mode : TunnelMode) : TunnelMode.fromRaw mode.rawValue.toList = some mode := by
  cases mode <;> decide +kernel

theorem obfuscation_fromRaw (obfuscation : Obfuscation) :
    Obfuscation.fromRaw obfuscation.rawValue.toList = some obfuscation := by
  cases obfuscation <;> decide +kernel

/-- The decoder recovers what the encoder wrote, whatever identifier it has at hand. -/
theorem decode_encode (id : Uuid) (p : Profile) : decode id (encode p) = some p := by
  have uuid := asUuid_uuidString p.id
  have cipher : asCipher (.string (cipherRaw p.cipher).toList) = some p.cipher := cipherFromRaw_raw p.cipher
  have mode : asMode (.string p.mode.rawValue.toList) = some p.mode := mode_fromRaw p.mode
  have obfuscation : asObfuscation (.string p.obfuscation.rawValue.toList) = some p.obfuscation :=
    obfuscation_fromRaw p.obfuscation
  have port := asInt_toInt p.port
  have mtu := asInt_toInt p.mtu
  dsimp only [decode, encode, asFields, Option.bind_eq_bind, Option.bind_some]
  simp [decodeIfPresent, List.lookup_cons, uuid, cipher, mode, obfuscation, port, mtu, asString]

/-- The fields that the decoder insists on have their JSON types; a cipher, a mode and an
obfuscation may be any text. -/
structure RightTypes (c : Fields) : Prop where
  id : Typed asUuid c "id"
  texts : ∀ key ∈ ["name", "server", "password", "cipher", "mode", "dnsLocal", "dnsRemote",
    "bypassCountry", "obfuscation", "peerIP"], Typed asString c key
  numbers : ∀ key ∈ ["port", "mtu"], Typed asInt c key

/-- A profile object as some build may have written it. -/
def WellTyped (value : Value) : Prop := ∃ c, value = .object c ∧ RightTypes c

/-- What this build's decoder takes: of the three enumerations it is strict on the cipher only. -/
structure Decodable (c : Fields) : Prop where
  id : Typed asUuid c "id"
  texts : ∀ key ∈ ["name", "server", "password", "dnsLocal", "dnsRemote", "bypassCountry", "peerIP"],
    Typed asString c key
  numbers : ∀ key ∈ ["port", "mtu"], Typed asInt c key
  cipher : Typed asCipher c "cipher"

/-- The parts of a decoded profile were all read. -/
theorem bind_isSome {α β : Type} {read : Option α} {rest : α → Option β}
    (decoded : (read.bind rest).isSome = true) :
    read.isSome = true ∧ ∃ value, read = some value ∧ (rest value).isSome = true := by
  cases read with
  | none => cases decoded
  | some value => exact ⟨rfl, value, rfl, decoded⟩

theorem decode_isSome_iff (id : Uuid) (value : Value) :
    (decode id value).isSome = true ↔ ∃ c, value = .object c ∧ Decodable c := by
  constructor
  · intro read
    cases value with
    | object c =>
      refine ⟨c, rfl, ?_⟩
      dsimp only [decode, asFields, Option.bind_eq_bind, Option.bind_some] at read
      obtain ⟨hasId, _, _, read⟩ := bind_isSome read
      obtain ⟨name, _, _, read⟩ := bind_isSome read
      obtain ⟨server, _, _, read⟩ := bind_isSome read
      obtain ⟨port, _, _, read⟩ := bind_isSome read
      obtain ⟨password, _, _, read⟩ := bind_isSome read
      obtain ⟨cipher, _, _, read⟩ := bind_isSome read
      obtain ⟨dnsLocal, _, _, read⟩ := bind_isSome read
      obtain ⟨dnsRemote, _, _, read⟩ := bind_isSome read
      obtain ⟨mtu, _, _, read⟩ := bind_isSome read
      obtain ⟨bypassCountry, _, _, read⟩ := bind_isSome read
      obtain ⟨peerIP, _⟩ := bind_isSome read
      rw [decodeIfPresent_isSome] at hasId name server port password cipher
      rw [decodeIfPresent_isSome] at dnsLocal dnsRemote mtu bypassCountry peerIP
      refine ⟨hasId, ?_, ?_, cipher⟩
      · simp only [List.forall_mem_cons]
        exact ⟨name, server, password, dnsLocal, dnsRemote, bypassCountry, peerIP, by simp⟩
      · simp only [List.forall_mem_cons]
        exact ⟨port, mtu, by simp⟩
    | _ => cases read
  · rintro ⟨c, rfl, decodable⟩
    have texts := decodable.texts
    have numbers := decodable.numbers
    simp only [List.forall_mem_cons, ← decodeIfPresent_isSome, Option.isSome_iff_exists] at texts numbers
    obtain ⟨⟨name, hname⟩, ⟨server, hserver⟩, ⟨password, hpassword⟩, ⟨dnsLocal, hdnsLocal⟩,
      ⟨dnsRemote, hdnsRemote⟩, ⟨country, hcountry⟩, ⟨peer, hpeer⟩, _⟩ := texts
    obtain ⟨⟨port, hport⟩, ⟨mtu, hmtu⟩, _⟩ := numbers
    obtain ⟨read, hid⟩ := Option.isSome_iff_exists.mp ((decodeIfPresent_isSome _ _ _).mpr decodable.id)
    obtain ⟨cipher, hcipher⟩ :=
      Option.isSome_iff_exists.mp ((decodeIfPresent_isSome _ _ _).mpr decodable.cipher)
    dsimp only [decode, asFields, Option.bind_eq_bind, Option.bind_some]
    simp only [hid, hname, hserver, hport, hpassword, hcipher, hdnsLocal, hdnsRemote, hmtu, hcountry, hpeer,
      Option.bind_some, Option.isSome_some]

end ShadowVpn.App.Profiles
