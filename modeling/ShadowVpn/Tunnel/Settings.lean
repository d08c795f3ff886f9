import ShadowVpn.Tunnel.Readers

/-! `makeWithServerAddress`: the network settings that one profile gives the tunnel. -/

namespace ShadowVpn.Tunnel.Settings
open ShadowVpn.Lib ShadowVpn.Lib.Text ShadowVpn.Net.Ipv4
open ShadowVpn.Tunnel.Routes ShadowVpn.Tunnel.Readers

def kDefaultTunnelAddress : Chars := "10.9.0.2".toList
def kTunnelSubnetMask : Chars := "255.255.255.252".toList

/-- The part of `NEPacketTunnelNetworkSettings` that is filled in. -/
structure NetworkSettings where
  tunnelRemoteAddress : Chars
  addresses : List Chars
  subnetMasks : List Chars
  includedRoutes : List Route
  excludedRoutes : List Route
  dnsServers : Option (List Chars)
  mtu : Int

/-- The arguments of `makeWithServerAddress`; `chnroute` is the text behind `chnrouteURL`,
`none` without a URL or when it cannot be read. -/
structure Profile where
  serverAddress : Chars
  tunnelIP : Chars
  mode : Chars
  dnsLocal : Option Chars
  dnsRemote : Option Chars
  mtu : Int
  chnroute : Option Chars
  serverExclusions : List Chars

def isChinadns (mode : Chars) : Bool := mode == "chinadns".toList

def isSplit (mode : Chars) : Bool := mode == "chnroute".toList || isChinadns mode

/-- The text before the last colon, or all of it; `none` for missing or empty text. -/
def hostFromHostPort (hostPort : Option Chars) : Option Chars :=
  match hostPort with
  | none => none
  | some text =>
    if text = [] then none
    else
      match splitOnce ':' text.reverse with
      | none => some text
      | some (_, host) => some host.reverse

/-- The configured tunnel address, or the default when it is not a dotted IPv4. -/
def usedTunnelIP (tunnelIP : Chars) : Chars :=
  if tunnelIP = [] ∨ inetPton tunnelIP = none then kDefaultTunnelAddress else tunnelIP

/-- The server's own addresses as host routes; anything else in the list is passed over. -/
def serverRoutes (serverExclusions : List Chars) : List Route :=
  (serverExclusions.filter fun ip => !ip.isEmpty && (inetPton ip).isSome).map fun ip =>
    ⟨ip, "255.255.255.255".toList⟩

def excludedRoutes (profile : Profile) : List Route :=
  let lan := ipv4LanExcludedRoutesForTunnelIP (usedTunnelIP profile.tunnelIP)
  let bypass :=
    if isSplit profile.mode then
      match profile.chnroute with
      | some text => appendChnrouteExclusions lan text
      | none => lan
    else lan
  bypass ++ serverRoutes profile.serverExclusions

def dnsServers (profile : Profile) : Option (List Chars) :=
  if isChinadns profile.mode then
    let servers := [hostFromHostPort profile.dnsLocal, hostFromHostPort profile.dnsRemote].filterMap id
    if servers = [] then none else some servers
  else some [(hostFromHostPort profile.dnsRemote).getD "8.8.8.8".toList]

def makeWithServerAddress (profile : Profile) : NetworkSettings where
  tunnelRemoteAddress := profile.serverAddress
  addresses := [usedTunnelIP profile.tunnelIP]
  subnetMasks := [kTunnelSubnetMask]
  includedRoutes := [⟨"0.0.0.0".toList, "0.0.0.0".toList⟩]
  excludedRoutes := excludedRoutes profile
  dnsServers := dnsServers profile
  mtu := if profile.mtu > 0 then profile.mtu else 1400

/-- The tunnel address handed to the system is always a dotted IPv4. -/
theorem usedTunnelIP_parses (tunnelIP : Chars) : ∃ ip, inetPton (usedTunnelIP tunnelIP) = some ip := by
  by_cases bad : tunnelIP = [] ∨ inetPton tunnelIP = none
  · refine ⟨ofOctets 10 9 0 2, ?_⟩
    rw [usedTunnelIP, if_pos bad]
    decide +kernel
  · rw [usedTunnelIP, if_neg bad]
    exact Option.ne_none_iff_exists'.mp (not_or.mp bad).2

/-- Outside the split modes and without server routes, only the LAN routes are excluded. -/
theorem excludedRoutes_full (profile : Profile) (full : isSplit profile.mode = false)
    (direct : profile.serverExclusions = []) :
    (makeWithServerAddress profile).excludedRoutes =
      ipv4LanExcludedRoutesForTunnelIP (usedTunnelIP profile.tunnelIP) := by
  simp only [makeWithServerAddress, excludedRoutes, full, direct, serverRoutes, List.filter_nil,
    List.map_nil, List.append_nil, Bool.false_eq_true, if_false]

/-- In full mode the excluded routes are exactly the LAN ranges without the tunnel's /30 if and
only if the tunnel address lies in 10/8. -/
theorem lan_bypass_exact_iff_ten8 (profile : Profile) (full : isSplit profile.mode = false)
    (direct : profile.serverExclusions = []) :
    ∃ ip, inetPton (usedTunnelIP profile.tunnelIP) = some ip ∧
      ((∀ x, Covered (makeWithServerAddress profile).excludedRoutes x ↔ LanBypass ip x) ↔ Ten8 ip) := by
  obtain ⟨ip, read⟩ := usedTunnelIP_parses profile.tunnelIP
  refine ⟨ip, read, ?_⟩
  rw [excludedRoutes_full profile full direct]
  exact lanExcluded_exact_iff _ ip read

def sampleProfile (tunnelIP : Chars) : Profile where
  serverAddress := "203.0.113.7".toList
  tunnelIP := tunnelIP
  mode := "full".toList
  dnsLocal := none
  dnsRemote := some "8.8.8.8:53".toList
  mtu := 1400
  chnroute := none
  serverExclusions := []

theorem sample_lan_bypass :
    ∃ ip, inetPton (usedTunnelIP (sampleProfile "10.9.0.2".toList).tunnelIP) = some ip ∧
      ((∀ x, Covered (makeWithServerAddress (sampleProfile "10.9.0.2".toList)).excludedRoutes x ↔
        LanBypass ip x) ↔ Ten8 ip) :=
  lan_bypass_exact_iff_ten8 (sampleProfile "10.9.0.2".toList) (by decide +kernel) rfl

/-- With the tunnel at 192.168.1.2 the LAN address 10.0.0.1 is not excluded. -/
theorem tunnel_outside_ten8 :
    ¬∀ x, Covered (makeWithServerAddress (sampleProfile "192.168.1.2".toList)).excludedRoutes x ↔
      LanBypass (ofOctets 192 168 1 2) x := by
  intro same
  have read : inetPton (usedTunnelIP "192.168.1.2".toList) = some (ofOctets 192 168 1 2) := by
    decide +kernel
  have outside : ¬Ten8 (ofOctets 192 168 1 2) := by
    unfold Ten8
    decide
  rw [excludedRoutes_full _ (by decide +kernel) rfl] at same
  exact outside ((lanExcluded_exact_iff _ _ read).mp same)

end ShadowVpn.Tunnel.Settings
