import ShadowVpn.App.Starting
import ShadowVpn.Tunnel.Provider

/-! The carrier's peer. The provider resolves the server once, at the start call, for the routes that
leave the tunnel; the core resolves the same name again by itself whenever it is brought up. -/

namespace ShadowVpn.Tunnel.Carrier
open ShadowVpn.Lib ShadowVpn.Lib.Text ShadowVpn.Lib.Json ShadowVpn.Lib.Transition ShadowVpn.Net.Ipv4
open ShadowVpn.Policy.Chnroute ShadowVpn.Wire.Crypto ShadowVpn.App.Profiles ShadowVpn.App.Form
open ShadowVpn.App.Starting ShadowVpn.Engine.Config ShadowVpn.Tunnel.Routes ShadowVpn.Tunnel.ConfigJson
open ShadowVpn.Tunnel.Settings (NetworkSettings makeWithServerAddress)
open ShadowVpn.Tunnel.Provider (PacketTunnelProvider)
open ShadowVpn.Engine.Datagram (samplePrims)

/-- The text before the last colon, or all of it. -/
def hostFromHostPort (hostPort : Chars) : Chars :=
  match splitOnce ':' hostPort.reverse with
  | none => hostPort
  | some (_, host) => host.reverse

/-- `found` is what `getaddrinfo` answers, nothing when it fails. -/
def resolveIPv4ForHost (host : Chars) (found : List Ipv4Addr) : List Chars :=
  if host = [] then []
  else if (inetPton host).isSome then [host]
  else (found.map dotted).eraseDups

/-- One start call: the profile in the preferences, the route file of its country with its text if it
can be read, and the answer of the name lookup. -/
structure Call where
  profile : Option Profile
  chnroute : Option (FileUrl × Option Chars)
  found : List Ipv4Addr

namespace Call

variable (call : Call)

def cfg : Fields := (configure call.profile).providerConfiguration

def serverHost : Chars := hostFromHostPort (configure call.profile).serverAddress

def serverIPs : List Chars := resolveIPv4ForHost call.serverHost call.found

def mode : Chars := (stringFromConfig call.cfg "mode").getD "full".toList

/-- The network settings of the call, with these server exclusions. -/
def settings (serverExclusions : List Chars) : NetworkSettings :=
  makeWithServerAddress
    { serverAddress := serverExclusions.head?.getD call.serverHost
      tunnelIP := (stringFromConfig call.cfg "peer_ip").getD "10.9.0.2".toList
      mode := call.mode
      dnsLocal := stringFromConfig call.cfg "dns_local"
      dnsRemote := stringFromConfig call.cfg "dns_remote"
      mtu := integerFromConfig call.cfg "mtu" 1400
      chnroute := call.chnroute.bind Prod.snd
      serverExclusions := serverExclusions }

def configJSON (parseObject : Chars → Option Fields) : Value :=
  buildConfigJSON parseObject call.cfg call.mode (call.chnroute.map Prod.fst)

/-- The routes that leave the tunnel whatever the server is. -/
def bypass : List Route := (call.settings []).excludedRoutes

def excludedRoutes : List Route := (call.settings call.serverIPs).excludedRoutes

/-- The server's addresses as the call knows them: the literal itself, or the answer of its lookup. -/
def lookup : List Ipv4Addr :=
  if call.serverHost = [] then []
  else
    match inetPton call.serverHost with
    | some ip => [ip]
    | none => call.found

end Call

/-- The addresses of a host: itself, if it is a literal, or what the lookup answers. -/
def candidates (host : Chars) (answers : List Ipv4Addr) : List Ipv4Addr :=
  match parse host with
  | some ip => [ip]
  | none => answers

/-- `UdpSocket::connect` to `host:port`: the first address that the socket can be connected to. -/
def connect (server : Chars) (answers : List Ipv4Addr) (reachable : Ipv4Addr → Bool) : Option Ipv4Addr := do
  let (port, host) ← splitOnce ':' server.reverse
  let _ ← (parseU32 port.reverse).filter fun port => decide (port ≤ 65535)
  (candidates host.reverse answers).find? reachable

/-- A carrier socket and the routes that were installed when it was connected. -/
structure Connection where
  peer : Ipv4Addr
  excluded : List Route

/-- The provider with its start calls. Of three of them the number is kept: the one whose configuration
is stored, the one whose settings are installed and the one whose configuration the engine has. -/
structure State where
  provider : PacketTunnelProvider
  calls : List Call
  stored : Option Nat
  installed : Option Nat
  engine : Option Nat
  connections : List Connection

def initial : State := ⟨Provider.initial, [], none, none, none, []⟩

/-- What can happen next. A block that brings the core up comes with the answer of the core's own
lookup and the addresses that the socket can be connected to. -/
inductive Event where
  | startTunnel (call : Call) (written : Bool)
  | settingsDone (id : Nat) (applied written : Bool)
  | control (started written : Bool) (answers : List Ipv4Addr) (reachable : Ipv4Addr → Bool)
  | other (event : Provider.Event)

/-- The call whose configuration a core has that this block brings up. -/
def launching (c : State) : Option Nat :=
  match c.provider.control with
  | .start _ :: _ => c.stored
  | _ => c.engine

/-- The next block brings the core up, if that is to succeed. -/
def brings (p : PacketTunnelProvider) (started : Bool) : Bool :=
  started && match p.control with
    | .start _ :: _ => !p.coreRunning
    | .restart generation :: _ => p.restartGeneration == generation && p.engine.isSome
    | _ => false

/-- The block brought the core up. -/
def launched (before after : PacketTunnelProvider) : Bool := before.launches.length < after.launches.length

def State.call? (c : State) (id : Option Nat) : Option Call := id.bind fun i => c.calls[i]?

/-- The routes that are installed. -/
def installedRoutes (c : State) : List Route := ((c.call? c.installed).map Call.excludedRoutes).getD []

section Steps

variable (prims : Primitives) (problem : Value → Chars) (parseObject : Chars → Option Fields)

/-- The server that the core reads in its configuration. -/
def coreServer (call : Call) : Option Chars :=
  match fromJson prims problem (call.configJSON parseObject) with
  | .ok config => some config.server
  | .error _ => none

/-- The peer of a core that is brought up now. -/
def peer (c : State) (answers : List Ipv4Addr) (reachable : Ipv4Addr → Bool) : Option Ipv4Addr := do
  let call ← c.call? (launching c)
  let server ← coreServer prims problem parseObject call
  connect server answers reachable

def step (c : State) : Event → Option State
  | .startTunnel call written => do
    let p ← Provider.step c.provider (.startTunnel written)
    some { c with provider := p, calls := c.calls ++ [call], stored := some c.calls.length }
  | .settingsDone id applied written => do
    let p ← Provider.step c.provider (.settingsDone id applied written)
    some { c with provider := p, installed := if applied then some id else c.installed }
  | .control started written answers reachable => do
    let p ← Provider.step c.provider (.control started written)
    if launched c.provider p then
      let peer ← peer prims problem parseObject c answers reachable
      some { c with provider := p, engine := launching c
                    connections := c.connections ++ [⟨peer, installedRoutes c⟩] }
    else some { c with provider := p, engine := if p.engine.isSome then c.engine else none }
  | .other event =>
    match event with
    | .startTunnel _ | .settingsDone _ _ _ | .control _ _ => none
    | _ => do
      let p ← Provider.step c.provider event
      some { c with provider := p }

end Steps

/-- A core is brought up only where each address of its server that the socket can be connected to (the
literal itself, or one in the answer of the core's lookup) is known to the call of the installed settings:
as the server, or as an address that bypasses the tunnel anyway. -/
def foreseen (c : State) : Event → Bool
  | .control started _ answers reachable =>
    !brings c.provider started || (c.call? (launching c)).any fun core =>
      (c.call? c.installed).any fun call => core.profile.any fun p =>
        (candidates p.server answers).all fun ip =>
          !reachable ip || decide (ip ∈ call.lookup) || decide (Covered call.bypass ip)
  | _ => true

/-- Every carrier socket is connected to an address that was excluded from the tunnel. -/
def Excluded (c : State) : Prop := ∀ connection ∈ c.connections, Covered connection.excluded connection.peer

section Routes

theorem excludedRoutes_eq (call : Call) :
    call.excludedRoutes = call.bypass ++ Settings.serverRoutes call.serverIPs := by
  have none : Settings.serverRoutes [] = [] := rfl
  simp only [Call.excludedRoutes, Call.bypass, Call.settings, makeWithServerAddress, Settings.excludedRoutes, none,
    List.append_nil]

theorem inetPton_nonempty {text : Chars} {ip : Ipv4Addr} (read : inetPton text = some ip) : text ≠ [] := by
  rintro rfl
  have none : inetPton [] = none := by decide +kernel
  rw [none] at read
  cases read

theorem serverRoutes_cover {ips : List Chars} {text : Chars} {ip : Ipv4Addr} (listed : text ∈ ips)
    (read : inetPton text = some ip) : Covered (Settings.serverRoutes ips) ip := by
  have nonempty : text ≠ [] := inetPton_nonempty read
  have mask : "255.255.255.255".toList = dottedMaskForPrefix 32 := by decide +kernel
  refine ⟨⟨text, "255.255.255.255".toList⟩, ?_, ?_⟩
  · apply List.mem_map_of_mem
    exact List.mem_filter.mpr ⟨listed, by simp [nonempty, read]⟩
  · rw [mask, has_prefixMask text ip ip 32 (by decide) read]
    exact (Prefix.sameBlock_iff_div _ _ _).mpr rfl

theorem colon_not_mem_intText (n : Int) : ':' ∉ intText n := by
  have digits (m : Nat) : ':' ∉ Nat.toDigits 10 m := not_mem_toDigits ':' m (by decide)
  cases n with
  | ofNat n => exact digits n
  | negSucc n => exact fun member => (List.mem_cons.mp member).elim (by decide) (digits (n + 1))

/-- The last colon of a server address is the one before the port. -/
theorem split_serverAddress (p : Profile) : splitOnce ':' p.serverAddress.reverse =
    some ((intText p.port.toInt).reverse, p.server.reverse) := by
  have shape : p.serverAddress.reverse = (intText p.port.toInt).reverse ++ ':' :: p.server.reverse := by
    simp [Profile.serverAddress]
  have absent : ':' ∉ (intText p.port.toInt).reverse := by
    rw [List.mem_reverse]
    exact colon_not_mem_intText _
  rw [shape, splitOnce_append ':' _ _ absent]

/-- The provider and the core read the same host in the address of a profile with a server. -/
theorem serverHost_eq {call : Call} {p : Profile} (given : call.profile = some p) (named : p.server ≠ []) :
    call.serverHost = p.server := by
  have stamped : (configure (some p)).serverAddress = p.serverAddress := if_neg (by simpa using named)
  rw [Call.serverHost, given, stamped, hostFromHostPort, split_serverAddress]
  exact List.reverse_reverse _

/-- What a literal server's call excludes. -/
theorem literal_covered {call : Call} {ip : Ipv4Addr} (literal : inetPton call.serverHost = some ip) :
    Covered call.excludedRoutes ip := by
  have listed : call.serverIPs = [call.serverHost] := by
    rw [Call.serverIPs, resolveIPv4ForHost, if_neg (inetPton_nonempty literal), literal]
    rfl
  rw [excludedRoutes_eq, covered_append, listed]
  exact .inr (serverRoutes_cover List.mem_cons_self literal)

/-- The provider takes a literal for the same address as the core. -/
theorem literal_serverHost {call : Call} {p : Profile} {ip : Ipv4Addr} (given : call.profile = some p)
    (literal : parse p.server = some ip) : inetPton call.serverHost = some ip := by
  have read : inetPton p.server = some ip := by
    rw [Readers.inetPton_eq_parse _ (Readers.nul_not_mem _ _ literal), literal]
  rw [serverHost_eq given (inetPton_nonempty read), read]

/-- What a named server's call excludes: all that its lookup answered. -/
theorem found_covered {call : Call} {ip : Ipv4Addr} (nonempty : call.serverHost ≠ [])
    (named : inetPton call.serverHost = none) (found : ip ∈ call.found) : Covered call.excludedRoutes ip := by
  have listed : dotted ip ∈ call.serverIPs := by
    rw [Call.serverIPs, resolveIPv4ForHost, if_neg nonempty, named]
    exact List.mem_eraseDups.mpr (List.mem_map_of_mem found)
  rw [excludedRoutes_eq, covered_append]
  exact .inr (serverRoutes_cover listed (inetPton_dotted ip))

/-- What a call knows the server by is excluded. -/
theorem lookup_covered {call : Call} {ip : Ipv4Addr} (known : ip ∈ call.lookup) :
    Covered call.excludedRoutes ip := by
  unfold Call.lookup at known
  split at known
  · cases known
  · next nonempty =>
    split at known
    · next literal => exact List.mem_singleton.mp known ▸ literal_covered literal
    · next named => exact found_covered nonempty named known

end Routes

section Peers

variable {prims : Primitives} {problem : Value → Chars} {parseObject : Chars → Option Fields}

/-- The core reads the server address of the profile that the call carried. -/
theorem coreServer_eq {call : Call} {p : Profile} {server : Chars} (given : call.profile = some p)
    (read : coreServer prims problem parseObject call = some server) : server = p.serverAddress := by
  obtain ⟨c, json, tells⟩ := profileJson_tells parseObject p (call.chnroute.map Prod.fst)
  have same : call.configJSON parseObject = .object c := by
    rw [← json, Call.configJSON, Call.mode, Call.cfg, given]
    rfl
  rw [coreServer, same, fromJson, tells.read] at read
  cases fits : asU16 (.number p.mtu.toInt) with
  | none =>
    rw [fits] at read
    cases read
  | some mtu =>
    rw [fits, Option.map_some] at read
    dsimp only at read
    cases valid : (told p (routePath p (call.chnroute.map Prod.fst)) mtu).validate prims with
    | error _ =>
      rw [valid] at read
      cases read
    | ok config =>
      rw [valid] at read
      rw [← Option.some.inj read, validate_server valid]
      rfl

/-- The peer is one of the server's addresses that can be connected to. -/
theorem connect_candidate {p : Profile} {ip : Ipv4Addr} {answers : List Ipv4Addr} {reachable : Ipv4Addr → Bool}
    (connected : connect p.serverAddress answers reachable = some ip) :
    ip ∈ candidates p.server answers ∧ reachable ip = true := by
  simp only [connect, split_serverAddress, Option.bind_eq_bind, Option.bind_some, List.reverse_reverse,
    Option.bind_eq_some_iff] at connected
  obtain ⟨_, _, first⟩ := connected
  exact ⟨List.mem_of_find?_eq_some first, List.find?_some first⟩

/-- A core that came up was brought up by the block that was next. -/
theorem brings_of_launched {p q : PacketTunnelProvider} {started written : Bool}
    (taken : Provider.step p (.control started written) = some q) (up : launched p q = true) :
    brings p started = true := by
  have longer : p.launches.length < q.launches.length := of_decide_eq_true up
  cases queue : p.control with
  | nil =>
    rw [Provider.step, queue] at taken
    cases taken
  | cons block rest =>
    rw [Provider.step, queue] at taken
    rw [brings, queue]
    cases block with
    | start id =>
      simp only [Provider.runBlock, Provider.runStart] at taken
      split at taken
      · next good =>
        split at taken
        · cases taken
        · next halted => simp [good, halted]
      · rw [← Option.some.inj taken] at longer
        exact absurd longer (Nat.lt_irrefl _)
    | stop before =>
      rw [← Option.some.inj taken] at longer
      exact absurd longer (Nat.lt_irrefl _)
    | restart generation =>
      simp only [Provider.runBlock, Option.some.injEq] at taken
      rw [← taken, Provider.runRestart] at longer
      split at longer
      · exact absurd longer (Nat.lt_irrefl _)
      · next current =>
        split at longer
        · exact absurd longer (Nat.lt_irrefl _)
        · next id held =>
          have held : p.engine = some id := held
          have current : p.restartGeneration = generation := not_not.mp current
          split at longer
          · next good => simp [good, held, current]
          · exact absurd longer (Nat.lt_irrefl _)

/-- With a literal server it is enough that the core has the call of the installed settings. -/
theorem literal_foreseen {c : State} {call : Call} {p : Profile} {ip : Ipv4Addr} (same : launching c = c.installed)
    (found : c.call? c.installed = some call) (given : call.profile = some p) (literal : parse p.server = some ip)
    (started written : Bool) (answers : List Ipv4Addr) (reachable : Ipv4Addr → Bool) :
    foreseen c (.control started written answers reachable) = true := by
  have read := literal_serverHost given literal
  have known : call.lookup = [ip] := by
    rw [Call.lookup, if_neg (inetPton_nonempty read), read]
  simp [foreseen, same, found, given, known, candidates, literal]

/-- The peer of a core is excluded from the tunnel when the call of the installed settings knows the
addresses of the core's server. -/
theorem foreseen_covered {c : State} {started written : Bool} {answers : List Ipv4Addr}
    {reachable : Ipv4Addr → Bool} {ip : Ipv4Addr} (up : brings c.provider started = true)
    (calm : foreseen c (.control started written answers reachable) = true)
    (connected : peer prims problem parseObject c answers reachable = some ip) :
    Covered (installedRoutes c) ip := by
  simp only [foreseen, up, Bool.not_true, Bool.false_or, Option.any_eq_true] at calm
  obtain ⟨core, launching, call, installed, p, given, known⟩ := calm
  simp only [peer, launching, Option.bind_eq_bind, Option.bind_some, Option.bind_eq_some_iff] at connected
  obtain ⟨server, read, connected⟩ := connected
  rw [coreServer_eq given read] at connected
  obtain ⟨candidate, reached⟩ := connect_candidate connected
  have known := List.all_eq_true.mp known ip candidate
  simp only [reached, Bool.not_true, Bool.false_or, Bool.or_eq_true, decide_eq_true_eq] at known
  rw [installedRoutes, installed, Option.map_some, Option.getD_some]
  rcases known with listed | bypassed
  · exact lookup_covered listed
  · rw [excludedRoutes_eq, covered_append]
    exact .inl bypassed

theorem step_excluded {c d : State} {event : Event} (excluded : Excluded c)
    (calm : foreseen c event = true)
    (taken : step prims problem parseObject c event = some d) : Excluded d := by
  cases event with
  | startTunnel call written =>
    simp only [step, Option.bind_eq_bind, Option.bind_eq_some_iff] at taken
    obtain ⟨p, _, same⟩ := taken
    exact Option.some.inj same ▸ excluded
  | settingsDone id applied written =>
    simp only [step, Option.bind_eq_bind, Option.bind_eq_some_iff] at taken
    obtain ⟨p, _, same⟩ := taken
    exact Option.some.inj same ▸ excluded
  | control started written answers reachable =>
    simp only [step, Option.bind_eq_bind, Option.bind_eq_some_iff] at taken
    obtain ⟨p, moved, taken⟩ := taken
    split at taken
    · next up =>
      simp only [Option.bind_eq_some_iff] at taken
      obtain ⟨ip, connected, same⟩ := taken
      rw [← Option.some.inj same]
      intro connection member
      rcases List.mem_append.mp member with before | last
      · exact excluded connection before
      · rw [List.mem_singleton.mp last]
        exact foreseen_covered (brings_of_launched moved up) calm connected
    · exact Option.some.inj taken ▸ excluded
  | other event =>
    simp only [step] at taken
    split at taken
    · cases taken
    · cases taken
    · cases taken
    · simp only [Option.bind_eq_bind, Option.bind_eq_some_iff] at taken
      obtain ⟨p, _, same⟩ := taken
      exact Option.some.inj same ▸ excluded

end Peers

/-- As long as cores are brought up only with addresses that the installed settings' call knows, no carrier
runs back into the tunnel. -/
theorem carrier_excluded (prims : Primitives) (problem : Value → Chars) (parseObject : Chars → Option Fields)
    (c : State) (reached : Reaches (step prims problem parseObject)
      (fun c event => foreseen c event = true) initial c) : Excluded c :=
  reached.invariant Excluded (fun _ _ _ excluded calm taken => step_excluded excluded calm taken)
    (fun _ member => absurd member List.not_mem_nil)

/-- A start call for a named server, with one address for the name. -/
def sampleCall : Call where
  profile := some { fresh 1#128 with server := "vpn.example".toList, password := "secret".toList }
  chnroute := none
  found := [ofOctets 8 8 4 4]

/-- The call is started and its core restarted, each time with this answer of the core's lookup. -/
def sampleSession (first second : List Ipv4Addr) : List Event :=
  [.startTunnel sampleCall true, .settingsDone 0 true true, .control true true first fun _ => true,
    .other .wake, .other (.timer 1), .control true true second fun _ => true]

theorem sample_carrier_excluded : ∃ c, Reaches (step samplePrims (fun _ => []) (fun _ => none))
    (fun c event => foreseen c event = true) initial c ∧
      c.connections.map Connection.peer = [ofOctets 8 8 4 4, ofOctets 8 8 4 4] ∧ Excluded c := by
  have ran : (testedRun (step samplePrims (fun _ => []) (fun _ => none)) foreseen initial
      (sampleSession [ofOctets 8 8 4 4] [ofOctets 8 8 4 4])).map (fun c => c.connections.map Connection.peer) =
        some [ofOctets 8 8 4 4, ofOctets 8 8 4 4] := by
    decide +kernel
  obtain ⟨c, ran, peers⟩ := Option.map_eq_some_iff.mp ran
  have reached := reaches_of_testedRun ran
  exact ⟨c, reached, peers, carrier_excluded samplePrims (fun _ => []) (fun _ => none) c reached⟩

/-- The name moves to another address between the start and the restart, which is not excluded. -/
theorem restart_unexcluded : ∃ c, Reachable (step samplePrims (fun _ => []) (fun _ => none)) initial c ∧
    ¬Excluded c := by
  have ran : (run (step samplePrims (fun _ => []) (fun _ => none)) initial
      (sampleSession [ofOctets 8 8 4 4] [ofOctets 1 1 1 1])).map (fun c =>
        c.connections.map fun connection => decide (Covered connection.excluded connection.peer)) =
        some [true, false] := by
    decide +kernel
  obtain ⟨c, ran, covered⟩ := Option.map_eq_some_iff.mp ran
  refine ⟨c, reachable_of_run ran, ?_⟩
  intro excluded
  have all : ∀ flag ∈ [true, false], flag = true := by
    rw [← covered]
    intro flag member
    obtain ⟨connection, listed, rfl⟩ := List.mem_map.mp member
    exact decide_eq_true (excluded connection listed)
  exact absurd (all false (by decide)) (by decide)

end ShadowVpn.Tunnel.Carrier
