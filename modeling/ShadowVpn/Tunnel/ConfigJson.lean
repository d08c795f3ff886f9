import ShadowVpn.Lib.Json
import ShadowVpn.Tunnel.Settings

/-! `buildConfigJSONFromConfig`: the data plane's JSON configuration from the dictionary that the app
gave the provider. -/

namespace ShadowVpn.Tunnel.ConfigJson
open ShadowVpn.Lib ShadowVpn.Lib.Text ShadowVpn.Lib.Json
open ShadowVpn.Tunnel.Readers ShadowVpn.Tunnel.Settings

/-- The path of a file URL. -/
structure FileUrl where
  path : Chars
  absolute : path.head? = some '/'

def stringFromConfig (cfg : Fields) (key : String) : Option Chars :=
  match cfg.lookup key with
  | some (.string text) => if text = [] then none else some text
  | _ => none

/-- `integerValue` of a number or a string. -/
def integerFromConfig (cfg : Fields) (key : String) (fallback : Int) : Int :=
  match cfg.lookup key with
  | some (.number value) => value
  | some (.decimal mantissa places) => mantissa.tdiv (10 ^ places)
  | some (.bool value) => if value then 1 else 0
  | some (.string text) => integerValue text
  | _ => fallback

/-- The dictionary that is made when the app provides no JSON of its own. -/
def rebuilt (cfg : Fields) (mode : Chars) : Fields :=
  let dict := put [] "server" (.string ((stringFromConfig cfg "server").getD []))
  let dict := put dict "password" (.string ((stringFromConfig cfg "password").getD []))
  let dict := put dict "cipher" (.string ((stringFromConfig cfg "cipher").getD "chacha20-poly1305".toList))
  let dict := put dict "mode" (.string mode)
  let dict := put dict "mtu" (.number (integerFromConfig cfg "mtu" 1400))
  let dict := put dict "dns_local" (.string ((stringFromConfig cfg "dns_local").getD "114.114.114.114:53".toList))
  put dict "dns_remote" (.string ((stringFromConfig cfg "dns_remote").getD "8.8.8.8:53".toList))

/-- `parseObject` reads a provided JSON text, if it is an object. -/
def buildConfigJSON (parseObject : Chars → Option Fields) (cfg : Fields) (mode : Chars)
    (chnrouteURL : Option FileUrl) : Value :=
  let provided := (stringFromConfig cfg "config_json").bind parseObject
  let dict := provided.getD (rebuilt cfg mode)
  let dict := put dict "obfs" (.string ((stringFromConfig cfg "obfs").getD "none".toList))
  match chnrouteURL with
  | some url => if isSplit mode then .object (put dict "chnroute_path" (.string url.path)) else .object dict
  | none => .object dict

end ShadowVpn.Tunnel.ConfigJson
