import ShadowVpn.Lib.Json
import ShadowVpn.Lib.Utf8
import ShadowVpn.Policy.Chnroute
import ShadowVpn.Wire.Crypto

/-! `config.rs`: the data plane's configuration from its JSON text. -/

namespace ShadowVpn.Engine.Config
open ShadowVpn.Lib ShadowVpn.Lib.Octets ShadowVpn.Lib.Text ShadowVpn.Lib.Json ShadowVpn.Lib.Utf8
open ShadowVpn.Policy.Chnroute ShadowVpn.Wire.Crypto

inductive Mode where
  | full
  | chnroute
  | chinadns
  deriving DecidableEq

inductive Obfs where
  | none
  | quic
  | base64
  deriving DecidableEq

/-- `rename_all = "lowercase"`. -/
def modeNamed (name : Chars) : Option Mode :=
  if name = "full".toList then some .full
  else if name = "chnroute".toList then some .chnroute
  else if name = "chinadns".toList then some .chinadns
  else none

def obfsNamed (name : Chars) : Option Obfs :=
  if name = "none".toList then some .none
  else if name = "quic".toList then some .quic
  else if name = "base64".toList then some .base64
  else none

structure RawConfig where
  server : Chars
  password : Chars
  cipher : Chars
  mode : Mode
  mtu : Option (BitVec 16)
  dnsLocal : Option Chars
  dnsRemote : Option Chars
  chnroutePath : Option Chars
  obfs : Obfs

/-- The fields of `RawConfig`, in their order. -/
def rawFields : List String :=
  ["server", "password", "cipher", "mode", "mtu", "dns_local", "dns_remote", "chnroute_path", "obfs"]

def asU16 (value : Value) : Option (BitVec 16) := (asInteger 0 65535 value).map (BitVec.ofInt 16)

/-- The derived visitor takes an object, unknown fields apart without repetition, or the fields in
their order as an array. -/
def structFields : Value → Option Fields
  | .object c => if ∀ key ∈ rawFields, (c.map Prod.fst).count key ≤ 1 then some c else none
  | .array items => if items.length ≤ rawFields.length then some (rawFields.zip items) else none
  | _ => none

/-- `serde_json::from_str`. -/
def RawConfig.read (json : Value) : Option RawConfig := do
  let c ← structFields json
  let server ← decodeField asString c "server"
  let password ← decodeField asString c "password"
  let cipher ← decodeField asString c "cipher"
  let mode ← decodeOr .full (asVariant modeNamed) c "mode"
  let mtu ← decodeIfPresent asU16 c "mtu"
  let dnsLocal ← decodeIfPresent asString c "dns_local"
  let dnsRemote ← decodeIfPresent asString c "dns_remote"
  let chnroutePath ← decodeIfPresent asString c "chnroute_path"
  let obfs ← decodeOr .none (asVariant obfsNamed) c "obfs"
  some { server, password, cipher, mode, mtu, dnsLocal, dnsRemote, chnroutePath, obfs }

structure RuntimeConfig where
  server : Chars
  cipher : Cipher
  masterKey : Bytes
  mode : Mode
  mtu : BitVec 16
  dnsLocal : Option Chars
  dnsRemote : Option Chars
  chnroutePath : Option Chars
  obfs : Obfs

def defaultTunMtu : BitVec 16 := 1400

/-- `Cipher::from_name`, with the text of its error. -/
def fromName (name : Chars) : Except Chars Cipher :=
  if name = "aes-128-gcm".toList then .ok .aes128Gcm
  else if name = "aes-256-gcm".toList then .ok .aes256Gcm
  else if name = "chacha20-poly1305".toList ∨ name = "chacha20-ietf-poly1305".toList then
    .ok .chaCha20Poly1305
  else .error ("unknown cipher: ".toList ++ name)

/-- Only white space, or nothing at all. -/
def missing (field : Option Chars) : Bool := (trim isWhitespace (field.getD [])).isEmpty

def requires (field : String) : Chars := "config_json: chinadns mode requires `".toList ++ field.toList ++ "`".toList

section Reading

variable (prims : Primitives) (problem : Value → Chars)

/-- The checks of `from_json` on what was read. -/
def RawConfig.validate (raw : RawConfig) : Except Chars RuntimeConfig :=
  if (trim isWhitespace raw.server).isEmpty then .error "config_json: `server` is empty".toList
  else
    match fromName raw.cipher with
    | .error e => .error ("config_json: unsupported cipher: ".toList ++ e)
    | .ok cipher =>
      let config : RuntimeConfig :=
        { server := raw.server, cipher, masterKey := evpBytesToKey prims (utf8 raw.password) cipher.keyLen
          mode := raw.mode, mtu := raw.mtu.getD defaultTunMtu, dnsLocal := raw.dnsLocal
          dnsRemote := raw.dnsRemote, chnroutePath := raw.chnroutePath, obfs := raw.obfs }
      if raw.mode = .chinadns then
        if missing raw.dnsLocal then .error (requires "dns_local")
        else if missing raw.dnsRemote then .error (requires "dns_remote")
        else if missing raw.chnroutePath then .error (requires "chnroute_path")
        else .ok config
      else .ok config

/-- `from_json`; `problem` is what the JSON reader says of data that it refuses. -/
def fromJson (json : Value) : Except Chars RuntimeConfig :=
  match RawConfig.read json with
  | none => .error ("invalid config_json: ".toList ++ problem json)
  | some raw => raw.validate prims

end Reading

theorem validate_server {prims : Primitives} {raw : RawConfig} {config : RuntimeConfig}
    (valid : raw.validate prims = .ok config) : config.server = raw.server := by
  unfold RawConfig.validate at valid
  repeat' split at valid
  all_goals cases valid
  all_goals rfl

end ShadowVpn.Engine.Config
