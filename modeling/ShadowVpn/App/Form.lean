import ShadowVpn.App.Profiles
import ShadowVpn.Tunnel.Readers

/-! The profile form of the settings screen, and what a profile puts into the tunnel's preferences. -/

namespace ShadowVpn.App.Form
open ShadowVpn.Lib ShadowVpn.Lib.Text ShadowVpn.Lib.Json ShadowVpn.Wire.Crypto ShadowVpn.App.Profiles
open ShadowVpn.Tunnel.Readers

structure EditableProfile where
  id : Uuid
  name : Chars
  server : Chars
  portText : Chars
  password : Chars
  cipher : Cipher
  mode : TunnelMode
  dnsLocal : Chars
  dnsRemote : Chars
  bypassCountry : Chars
  mtuText : Chars
  obfuscation : Obfuscation
  peerIP : Chars

/-- `trimmingCharacters(in: .whitespaces)`. -/
def trimmed (text : Chars) : Chars := trim isBlank text

/-- `Int(_:)`: one sign or none, digits, and a value that fits. -/
def intFromText (text : Chars) : Option Int64 := do
  let unsigned := if text.head? = some '+' ∨ text.head? = some '-' then text.tail else text
  let digits ← numeral unsigned
  let value : Int := if text.head? = some '-' then -digits else digits
  if Int64.minValue.toInt ≤ value ∧ value ≤ Int64.maxValue.toInt then some (Int64.ofInt value) else none

namespace EditableProfile

variable (form : EditableProfile)

def port : Int64 := (intFromText (trimmed form.portText)).getD 8388

def mtu : Int64 := max 576 ((intFromText (trimmed form.mtuText)).getD defaultMTU)

def isComplete : Bool :=
  !(trimmed form.server).isEmpty && decide (0 < form.port) && !form.password.isEmpty

/-- `uppercased` is the standard library's, for all of Unicode. -/
def makeProfile (uppercased : Chars → Chars) : Profile where
  id := form.id
  name := if (trimmed form.name).isEmpty then "ShadowVPN".toList else trimmed form.name
  server := trimmed form.server
  port := form.port
  password := form.password
  cipher := form.cipher
  mode := form.mode
  dnsLocal := trimmed form.dnsLocal
  dnsRemote := trimmed form.dnsRemote
  mtu := form.mtu
  bypassCountry := uppercased (trimmed form.bypassCountry)
  obfuscation := form.obfuscation
  peerIP := if (trimmed form.peerIP).isEmpty then defaultPeerIP else trimmed form.peerIP

end EditableProfile

/-- What `configure` stamps into `NETunnelProviderProtocol`. -/
structure TunnelProtocol where
  serverAddress : Chars
  providerConfiguration : Fields

def appGroup : Chars := "group.com.tangzixiang.shadowvpn".toList

def configure (profile : Option Profile) : TunnelProtocol where
  serverAddress := match profile with
    | some p => if p.server.isEmpty then "192.0.2.1".toList else p.serverAddress
    | none => "192.0.2.1".toList
  providerConfiguration := ("appGroup", .string appGroup) :: match profile with
    | some p =>
      [("server", .string p.serverAddress), ("password", .string p.password),
        ("cipher", .string (cipherRaw p.cipher).toList), ("mode", .string p.mode.rawValue.toList),
        ("mtu", .number p.mtu.toInt), ("dns_local", .string p.dnsLocal), ("dns_remote", .string p.dnsRemote),
        ("country", .string p.bypassCountry), ("obfs", .string p.obfuscation.rawValue.toList),
        ("peer_ip", .string p.peerIP), ("profileID", .string (uuidString p.id)),
        ("profileName", .string p.name)]
    | none => []

end ShadowVpn.App.Form
