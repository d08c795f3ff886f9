import ShadowVpn.Engine.Config
import ShadowVpn.Engine.Datagram
import ShadowVpn.Engine.Intercept

/-! The interceptor that `start` builds for a configuration, `DnsInterceptor::new`, and which of the
configurations that `from_json` accepts get one. -/

namespace ShadowVpn.Engine.Building
open ShadowVpn.Lib.Octets ShadowVpn.Lib.Text ShadowVpn.Lib.Json ShadowVpn.Net.Ipv4 ShadowVpn.Net.Udp
open ShadowVpn.Policy.Chnroute ShadowVpn.Wire.Crypto ShadowVpn.Engine.Config ShadowVpn.Engine.Intercept
open ShadowVpn.Engine.Datagram (samplePrims)

/-- The port in a socket address: digits, with leading zeros or not, of at most 65535. -/
def readPort (text : Chars) : Option (BitVec 16) := do
  let value ← numeral text
  if value ≤ 65535 then some (BitVec.ofNat 16 value) else none

/-- `str::parse::<SocketAddrV4>`: no white space, no host name, no missing port. -/
def parseSockaddrV4 (text : Chars) : Option SocketAddr := do
  let (ip, port) ← splitOnce ':' text
  let ip ← parse ip
  let port ← readPort port
  some ⟨ip, port⟩

/-- What the system says when a file is read, and when the direct socket is bound and adopted. -/
structure System where
  readToString : Chars → Except Chars Chars
  bindDirect : Except Chars Unit
  fromStd : Except Chars Unit

/-- `ChnRoute::load`. -/
def load (system : System) (path : Chars) : Except Chars ChnRoute := do
  let text ← system.readToString path
  return ChnRoute.fromLines (lines text)

/-- `DnsInterceptor::new`, with the texts of its errors. -/
def newInterceptor (system : System) (cfg : RuntimeConfig) : Except Chars Interceptor := do
  let some path := cfg.chnroutePath | .error "chinadns: chnroute_path missing".toList
  let chnroute ← (load system path).mapError fun e =>
    "chinadns: load ".toList ++ path ++ " failed: ".toList ++ e
  let some dnsLocal := parseSockaddrV4 (cfg.dnsLocal.getD []) |
    .error "chinadns: dns_local is not a valid ip:port".toList
  let some dnsRemote := parseSockaddrV4 (cfg.dnsRemote.getD []) |
    .error "chinadns: dns_remote is not a valid ip:port".toList
  system.bindDirect.mapError fun e => "chinadns: bind direct socket failed: ".toList ++ e
  system.fromStd.mapError fun e => "chinadns: adopt direct socket failed: ".toList ++ e
  return ⟨chnroute, dnsLocal, dnsRemote⟩

/-- The interceptor of a session: an error is logged and the session forwards plainly. -/
def startInterceptor (system : System) (cfg : RuntimeConfig) : Option Interceptor :=
  if cfg.mode = .chinadns then
    match newInterceptor system cfg with
    | .ok interceptor => some interceptor
    | .error _ => none
  else none

/-- A dotted IPv4 address, a colon and a port, and nothing around them. -/
def IsEndpoint (field : Option Chars) : Prop :=
  ∃ ip zeros port, port ≤ 65535 ∧
    field = some (dotted ip ++ ':' :: (List.replicate zeros '0' ++ Nat.toDigits 10 port))

/-- The file of the configuration can be read and the direct socket set up. -/
structure Favours (system : System) (cfg : RuntimeConfig) : Prop where
  readable : ∀ path, cfg.chnroutePath = some path → ∃ text, system.readToString path = .ok text
  bound : system.bindDirect = .ok ()
  adopted : system.fromStd = .ok ()

/-- Both endpoints parse, and a favourable system gets its interceptor. -/
structure Undegraded (cfg : RuntimeConfig) : Prop where
  dnsLocal : (parseSockaddrV4 (cfg.dnsLocal.getD [])).isSome = true
  dnsRemote : (parseSockaddrV4 (cfg.dnsRemote.getD [])).isSome = true
  built : ∀ system, Favours system cfg → (startInterceptor system cfg).isSome = true

theorem readPort_some (text : Chars) (port : BitVec 16) (read : readPort text = some port) :
    ∃ zeros value, value ≤ 65535 ∧ text = List.replicate zeros '0' ++ Nat.toDigits 10 value := by
  simp only [readPort, Option.bind_eq_bind, Option.bind_eq_some_iff, Option.ite_none_right_eq_some] at read
  obtain ⟨value, number, small, _⟩ := read
  obtain ⟨zeros, same⟩ := (numeral_some_iff text value).mp number
  exact ⟨zeros, value, small, same⟩

/-- The texts that the socket-address parser accepts. -/
theorem parseSockaddrV4_isSome_iff (field : Option Chars) :
    (parseSockaddrV4 (field.getD [])).isSome = true ↔ IsEndpoint field := by
  constructor
  · intro parsed
    obtain ⟨address, parsed⟩ := Option.isSome_iff_exists.mp parsed
    simp only [parseSockaddrV4, Option.bind_eq_bind, Option.bind_eq_some_iff] at parsed
    obtain ⟨⟨ipText, portText⟩, split, ip, readIp, port, readPort, _⟩ := parsed
    obtain ⟨text, _⟩ := splitOnce_some ':' _ _ _ split
    obtain ⟨zeros, value, small, same⟩ := readPort_some portText port readPort
    rw [(parse_some_iff ipText ip).mp readIp, same] at text
    refine ⟨ip, zeros, value, small, ?_⟩
    cases field with
    | none =>
      rw [Option.getD_none] at text
      simp at text
    | some held => exact congrArg some text
  · rintro ⟨ip, zeros, value, small, rfl⟩
    have split := splitOnce_append ':' (dotted ip) (List.replicate zeros '0' ++ Nat.toDigits 10 value)
      (not_mem_dotted ':' ip (by decide) (by decide))
    have number := (numeral_some_iff _ value).mpr ⟨zeros, rfl⟩
    have port : readPort (List.replicate zeros '0' ++ Nat.toDigits 10 value) = some (BitVec.ofNat 16 value) := by
      rw [readPort, number, Option.bind_eq_bind, Option.bind_some, if_pos small]
    rw [Option.getD_some, parseSockaddrV4, split, Option.bind_eq_bind, Option.bind_some]
    simp only [parse_dotted, port, Option.bind_eq_bind, Option.bind_some, Option.isSome_some]

theorem newInterceptor_built {system : System} {cfg : RuntimeConfig} {path : Chars} {one two : SocketAddr}
    (named : cfg.chnroutePath = some path) (favours : Favours system cfg)
    (first : parseSockaddrV4 (cfg.dnsLocal.getD []) = some one)
    (second : parseSockaddrV4 (cfg.dnsRemote.getD []) = some two) :
    ∃ table, newInterceptor system cfg = .ok ⟨table, one, two⟩ := by
  obtain ⟨text, read⟩ := favours.readable path named
  refine ⟨ChnRoute.fromLines (lines text), ?_⟩
  rw [newInterceptor, named]
  dsimp only
  rw [load, read, first, second, favours.bound, favours.adopted]
  rfl

theorem startInterceptor_none {system : System} {cfg : RuntimeConfig}
    (bad : parseSockaddrV4 (cfg.dnsLocal.getD []) = none ∨ parseSockaddrV4 (cfg.dnsRemote.getD []) = none) :
    startInterceptor system cfg = none := by
  have failed : ∃ e, newInterceptor system cfg = .error e := by
    rw [newInterceptor]
    cases cfg.chnroutePath with
    | none => exact ⟨_, rfl⟩
    | some path =>
      dsimp only
      cases load system path with
      | error e => exact ⟨_, rfl⟩
      | ok table =>
        cases first : parseSockaddrV4 (cfg.dnsLocal.getD []) with
        | none => exact ⟨_, rfl⟩
        | some one =>
          have second := bad.resolve_left (by rw [first]; exact Option.some_ne_none one)
          rw [second]
          exact ⟨_, rfl⟩
  obtain ⟨e, failed⟩ := failed
  rw [startInterceptor, failed]
  split
  · rfl
  · rfl

theorem validate_fields {prims : Primitives} {raw : RawConfig} {cfg : RuntimeConfig}
    (valid : raw.validate prims = .ok cfg) : cfg.mode = raw.mode ∧ cfg.dnsLocal = raw.dnsLocal ∧
      cfg.dnsRemote = raw.dnsRemote ∧ cfg.chnroutePath = raw.chnroutePath := by
  unfold RawConfig.validate at valid
  repeat' split at valid
  all_goals cases valid
  all_goals exact ⟨rfl, rfl, rfl, rfl⟩

theorem validate_path {prims : Primitives} {raw : RawConfig} {cfg : RuntimeConfig}
    (valid : raw.validate prims = .ok cfg) (mode : raw.mode = .chinadns) :
    ∃ path, raw.chnroutePath = some path := by
  cases named : raw.chnroutePath with
  | some path => exact ⟨path, rfl⟩
  | none =>
    have absent : missing raw.chnroutePath = true := by rw [named]; rfl
    unfold RawConfig.validate at valid
    simp only [mode, absent, if_true] at valid
    repeat' split at valid
    all_goals cases valid

theorem fromJson_reads {prims : Primitives} {problem : Value → Chars} {json : Value} {cfg : RuntimeConfig}
    {raw : RawConfig} (read : RawConfig.read json = some raw)
    (accepted : fromJson prims problem json = .ok cfg) : raw.validate prims = .ok cfg := by
  rw [fromJson, read] at accepted
  exact accepted

/-- A configuration accepted for chinadns mode is not degraded exactly if both of its resolvers are
IPv4 socket addresses. -/
theorem accepted_undegraded_iff (prims : Primitives) (problem : Value → Chars) (json : Value) (raw : RawConfig)
    (cfg : RuntimeConfig) (read : RawConfig.read json = some raw)
    (accepted : fromJson prims problem json = .ok cfg) (mode : cfg.mode = .chinadns) :
    Undegraded cfg ↔ IsEndpoint raw.dnsLocal ∧ IsEndpoint raw.dnsRemote := by
  have valid := fromJson_reads read accepted
  obtain ⟨sameMode, sameLocal, sameRemote, samePath⟩ := validate_fields valid
  rw [← sameLocal, ← sameRemote, ← parseSockaddrV4_isSome_iff, ← parseSockaddrV4_isSome_iff]
  constructor
  · intro undegraded
    exact ⟨undegraded.dnsLocal, undegraded.dnsRemote⟩
  · rintro ⟨first, second⟩
    refine ⟨first, second, fun system favours => ?_⟩
    obtain ⟨path, named⟩ := validate_path valid (sameMode ▸ mode)
    obtain ⟨one, parsedOne⟩ := Option.isSome_iff_exists.mp first
    obtain ⟨two, parsedTwo⟩ := Option.isSome_iff_exists.mp second
    obtain ⟨table, built⟩ := newInterceptor_built (samePath.trans named) favours parsedOne parsedTwo
    rw [startInterceptor, if_pos mode, built, Option.isSome_some]

/-- A configuration for chinadns mode with the given clean resolver. -/
def resolverJson (dnsRemote : String) : Value :=
  .object [("server", .string "198.51.100.7:8388".toList), ("password", .string "pw".toList),
    ("cipher", .string "aes-128-gcm".toList), ("mode", .string "chinadns".toList),
    ("dns_local", .string "223.5.5.5:53".toList), ("dns_remote", .string dnsRemote.toList),
    ("chnroute_path", .string "/chnroute.txt".toList)]

/-- With 8.8.8.8:53 for its clean resolver the same configuration gets its interceptor. -/
theorem accepted_with_address : ∃ raw cfg, RawConfig.read (resolverJson "8.8.8.8:53") = some raw ∧
    fromJson samplePrims (fun _ => []) (resolverJson "8.8.8.8:53") = .ok cfg ∧ cfg.mode = .chinadns ∧
      Undegraded cfg := by
  have first : IsEndpoint (some "223.5.5.5:53".toList) := ⟨ofOctets 223 5 5 5, 0, 53, by decide, by decide⟩
  have second : IsEndpoint (some "8.8.8.8:53".toList) := ⟨ofOctets 8 8 8 8, 0, 53, by decide, by decide⟩
  refine ⟨_, _, rfl, rfl, rfl, ?_⟩
  exact (accepted_undegraded_iff samplePrims (fun _ => []) (resolverJson "8.8.8.8:53") _ _ rfl rfl rfl).mpr
    ⟨first, second⟩

/-- `from_json` accepts the configuration with the given clean resolver, and no system gives it its
interceptor. -/
def AcceptedPlain (dnsRemote : String) : Prop :=
  ∃ cfg, fromJson samplePrims (fun _ => []) (resolverJson dnsRemote) = .ok cfg ∧ cfg.mode = .chinadns ∧
    ∀ system, startInterceptor system cfg = none

/-- What is checked of a configuration with the given clean resolver. -/
def acceptedWithout (dnsRemote : String) : Bool :=
  match fromJson samplePrims (fun _ => []) (resolverJson dnsRemote) with
  | .ok cfg => cfg.mode = .chinadns ∧ parseSockaddrV4 (cfg.dnsRemote.getD []) = none
  | .error _ => false

theorem plain_forward {dnsRemote : String} (check : acceptedWithout dnsRemote = true) :
    AcceptedPlain dnsRemote := by
  unfold acceptedWithout at check
  split at check
  · next cfg accepted =>
    rw [decide_eq_true_eq] at check
    exact ⟨cfg, accepted, check.1, fun system => startInterceptor_none (Or.inr check.2)⟩
  · cases check

/-- A host name, a missing port, surrounding white space and an IPv6 address are accepted, and no system
gives such a configuration its interceptor. -/
theorem accepted_but_plain_forward :
    AcceptedPlain "dns.google:53" ∧ AcceptedPlain "8.8.8.8" ∧ AcceptedPlain " 8.8.8.8:53" ∧
      AcceptedPlain "[2001:4860:4860::8888]:53" :=
  ⟨plain_forward (by decide +kernel), plain_forward (by decide +kernel), plain_forward (by decide +kernel),
    plain_forward (by decide +kernel)⟩

end ShadowVpn.Engine.Building
