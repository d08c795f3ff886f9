import ShadowVpn.Lib.Prefix
import ShadowVpn.Net.Ipv4

/-! The excluded routes of `SVTunnelSettings.m`: destination and subnet mask as
dotted text, the LAN ranges and the walk that leaves the tunnel's own /30 out. -/

namespace ShadowVpn.Tunnel.Routes
open ShadowVpn.Lib ShadowVpn.Lib.Text ShadowVpn.Net.Ipv4

/-- `inet_pton(AF_INET, text.UTF8String, …)`: the C string ends at the first NUL. -/
def inetPton (text : Chars) : Option Ipv4Addr := parse (text.takeWhile fun c => c != '\x00')

/-- `NEIPv4Route`. -/
structure Route where
  destinationAddress : Chars
  subnetMask : Chars
  deriving DecidableEq

/-- A route covers the addresses that agree with its destination under its mask. -/
def Route.Has (route : Route) (x : Ipv4Addr) : Prop :=
  ∃ destination mask, inetPton route.destinationAddress = some destination ∧
    inetPton route.subnetMask = some mask ∧ x &&& mask = destination &&& mask

instance (route : Route) (x : Ipv4Addr) : Decidable (route.Has x) :=
  decidable_of_iff ((inetPton route.destinationAddress).any fun destination =>
    (inetPton route.subnetMask).any fun mask => x &&& mask == destination &&& mask) (by
      simp only [Route.Has, Option.any_eq_true, beq_iff_eq]
      constructor
      · rintro ⟨destination, read, mask, readMask, agree⟩
        exact ⟨destination, mask, read, readMask, agree⟩
      · rintro ⟨destination, mask, read, readMask, agree⟩
        exact ⟨destination, read, mask, readMask, agree⟩)

def Covered (routes : List Route) (x : Ipv4Addr) : Prop := ∃ route ∈ routes, route.Has x

instance (routes : List Route) (x : Ipv4Addr) : Decidable (Covered routes x) :=
  inferInstanceAs (Decidable (∃ route ∈ routes, route.Has x))

def dottedAddrForUInt (addr : BitVec 32) : Chars := dotted addr

def dottedMaskForPrefix (len : Nat) : Chars :=
  dotted (if len = 0 then 0 else BitVec.allOnes 32 <<< (32 - len))

def appendTen8ExcludingTunnel (tunnelIP : Chars) (routes : List Route) : List Route :=
  match inetPton tunnelIP with
  | none => routes
  | some ip =>
    let base30 := ip &&& 0xFFFFFFFC#32
    routes ++ (List.range' 9 22).map fun len =>
      let bit := 1#32 <<< (32 - len)
      let maskNext := BitVec.allOnes 32 <<< (32 - len)
      let halfWithTunnel := base30 &&& maskNext
      let keepNet := halfWithTunnel ^^^ bit
      ⟨dottedAddrForUInt keepNet, dottedMaskForPrefix len⟩

/-- The ranges added after the walk over 10/8. -/
def fixedLanRoutes : List Route :=
  [⟨"172.16.0.0".toList, "255.240.0.0".toList⟩, ⟨"192.168.0.0".toList, "255.255.0.0".toList⟩,
    ⟨"169.254.0.0".toList, "255.255.0.0".toList⟩, ⟨"224.0.0.0".toList, "240.0.0.0".toList⟩,
    ⟨"255.255.255.255".toList, "255.255.255.255".toList⟩]

def ipv4LanExcludedRoutesForTunnelIP (tunnelIP : Chars) : List Route :=
  appendTen8ExcludingTunnel tunnelIP [] ++ fixedLanRoutes

theorem inetPton_dotted (ip : Ipv4Addr) : inetPton (dotted ip) = some ip := by
  have whole : (dotted ip).takeWhile (fun c => c != '\x00') = dotted ip := by
    rw [List.takeWhile_eq_self_iff]
    intro c member
    rw [bne_iff_ne]
    intro same
    subst same
    exact not_mem_dotted _ ip (by decide) (by decide) member
  rw [inetPton, whole, parse_dotted]

theorem inetPton_dottedAddr (ip : Ipv4Addr) : inetPton (dottedAddrForUInt ip) = some ip :=
  inetPton_dotted ip

theorem maskForPrefix_eq (len : Nat) (le : len ≤ 32) :
    (if len = 0 then 0 else BitVec.allOnes 32 <<< (32 - len)) = Prefix.highMask 32 (32 - len) := by
  by_cases zero : len = 0
  · subst zero
    decide
  · rw [if_neg zero, Prefix.highMask]

/-- A route with a prefix-length mask covers the block of its destination. -/
theorem has_prefixMask (text : Chars) (destination x : Ipv4Addr) (len : Nat) (le : len ≤ 32)
    (read : inetPton text = some destination) :
    (Route.mk text (dottedMaskForPrefix len)).Has x ↔
      Prefix.SameBlock (32 - len) x destination := by
  rw [← Prefix.and_highMask_eq_iff, ← maskForPrefix_eq len le]
  simp only [Route.Has, dottedMaskForPrefix, inetPton_dotted, read, Option.some.injEq]
  constructor
  · rintro ⟨d, m, sameD, sameM, agree⟩
    rw [sameD, sameM]
    exact agree
  · intro agree
    exact ⟨_, _, rfl, rfl, agree⟩

theorem covered_append (one two : List Route) (x : Ipv4Addr) :
    Covered (one ++ two) x ↔ Covered one x ∨ Covered two x := by
  simp only [Covered, List.mem_append, or_and_right, exists_or]

/-- The sibling kept at one step lies next to the tunnel, whatever lies below the step. -/
theorem keepNet_block (ip x : Ipv4Addr) (k : Nat) (low : 2 ≤ k) (lt : k < 32) :
    Prefix.SameBlock k x ((ip &&& 0xFFFFFFFC#32 &&& BitVec.allOnes 32 <<< k) ^^^ 1#32 <<< k) ↔
      Prefix.SameBlock k x (Prefix.sibling k ip) := by
  have base : Prefix.SameBlock k (ip &&& 0xFFFFFFFC#32 &&& BitVec.allOnes 32 <<< k) ip := by
    have top : 0xFFFFFFFC#32 = Prefix.highMask 32 2 := by decide
    have inner : Prefix.SameBlock k (ip &&& Prefix.highMask 32 2) ip := by
      apply Prefix.SameBlock.mono low
      rw [← Prefix.and_highMask_eq_iff, BitVec.and_assoc, BitVec.and_self]
    have outer : Prefix.SameBlock k (ip &&& Prefix.highMask 32 2 &&& Prefix.highMask 32 k)
        (ip &&& Prefix.highMask 32 2) := by
      rw [← Prefix.and_highMask_eq_iff, BitVec.and_assoc, BitVec.and_self]
    rw [top]
    exact outer.trans inner
  have same := (Prefix.sameBlock_iff_div _ _ _).mp base
  rw [Prefix.sameBlock_iff_div, Prefix.sameBlock_iff_div, Prefix.sibling_div k lt, ← same,
    ← Prefix.sibling_div k lt]
  rfl

/-- The walk covers the /8 of the tunnel address, less its /30. -/
theorem appendTen8_covers (tunnelIP : Chars) (ip x : Ipv4Addr) (read : inetPton tunnelIP = some ip) :
    Covered (appendTen8ExcludingTunnel tunnelIP []) x ↔
      Prefix.SameBlock 24 x ip ∧ ¬Prefix.SameBlock 2 x ip := by
  have walked : Covered (appendTen8ExcludingTunnel tunnelIP []) x ↔
      ∃ k, 2 ≤ k ∧ k < 24 ∧ Prefix.SameBlock k x (Prefix.sibling k ip) := by
    simp only [Covered, appendTen8ExcludingTunnel, read, List.nil_append, List.mem_map,
      List.mem_range'_1]
    constructor
    · rintro ⟨route, ⟨len, bounds, same⟩, has⟩
      subst same
      rw [has_prefixMask _ _ _ len (by omega) (inetPton_dottedAddr _),
        keepNet_block ip x (32 - len) (by omega) (by omega)] at has
      exact ⟨32 - len, by omega, by omega, has⟩
    · rintro ⟨k, low, high, has⟩
      refine ⟨_, ⟨32 - k, by omega, rfl⟩, ?_⟩
      rw [has_prefixMask _ _ _ (32 - k) (by omega) (inetPton_dottedAddr _),
        keepNet_block ip x (32 - (32 - k)) (by omega) (by omega),
        show 32 - (32 - k) = k by omega]
      exact has
  rw [walked, Prefix.sameBlock_descend 2 24 (by decide) (by decide) x ip]
  constructor
  · rintro ⟨k, low, high, has⟩
    refine ⟨Or.inr ⟨k, low, high, has⟩, ?_⟩
    intro inner
    exact Prefix.sibling_avoids 2 k low (by omega) x ip inner has
  · rintro ⟨outer, apart⟩
    rcases outer with inner | found
    · exact absurd inner apart
    · exact found

/-- The LAN ranges other than 10/8, as blocks. -/
def FixedLan (x : Ipv4Addr) : Prop :=
  Prefix.SameBlock 20 x (ofOctets 172 16 0 0) ∨ Prefix.SameBlock 16 x (ofOctets 192 168 0 0) ∨
    Prefix.SameBlock 16 x (ofOctets 169 254 0 0) ∨ Prefix.SameBlock 28 x (ofOctets 224 0 0 0) ∨
    x = ofOctets 255 255 255 255

def Ten8 (x : Ipv4Addr) : Prop := Prefix.SameBlock 24 x (ofOctets 10 0 0 0)

theorem has_fixed (text maskText : Chars) (base x : Ipv4Addr) (len : Nat) (le : len ≤ 32)
    (read : inetPton text = some base) (mask : maskText = dottedMaskForPrefix len) :
    (Route.mk text maskText).Has x ↔ Prefix.SameBlock (32 - len) x base := by
  rw [mask, has_prefixMask text base x len le read]

theorem fixedLanRoutes_cover (x : Ipv4Addr) : Covered fixedLanRoutes x ↔ FixedLan x := by
  have private12 := has_fixed "172.16.0.0".toList "255.240.0.0".toList (ofOctets 172 16 0 0) x 12
    (by decide) (by decide +kernel) (by decide +kernel)
  have private16 := has_fixed "192.168.0.0".toList "255.255.0.0".toList (ofOctets 192 168 0 0) x 16
    (by decide) (by decide +kernel) (by decide +kernel)
  have linkLocal := has_fixed "169.254.0.0".toList "255.255.0.0".toList (ofOctets 169 254 0 0) x 16
    (by decide) (by decide +kernel) (by decide +kernel)
  have multicast := has_fixed "224.0.0.0".toList "240.0.0.0".toList (ofOctets 224 0 0 0) x 4
    (by decide) (by decide +kernel) (by decide +kernel)
  have broadcast := has_fixed "255.255.255.255".toList "255.255.255.255".toList
    (ofOctets 255 255 255 255) x 32 (by decide) (by decide +kernel) (by decide +kernel)
  rw [Prefix.sameBlock_zero] at broadcast
  unfold Covered fixedLanRoutes FixedLan
  simp only [List.exists_mem_cons_iff, List.not_mem_nil, false_and, exists_false, or_false]
  rw [private12, private16, linkLocal, multicast, broadcast]

/-- The ranges other than 10/8 do not meet it. -/
theorem fixedLan_not_ten8 (x : Ipv4Addr) (fixed : FixedLan x) : ¬Ten8 x := by
  intro ten
  have first : x.toNat / 2 ^ 24 = 10 := (Prefix.sameBlock_iff_div 24 x _).mp ten
  rcases fixed with block | block | block | block | same
  · have part : x.toNat / 2 ^ 20 = 2753 := (Prefix.sameBlock_iff_div 20 x _).mp block
    omega
  · have part : x.toNat / 2 ^ 16 = 49320 := (Prefix.sameBlock_iff_div 16 x _).mp block
    omega
  · have part : x.toNat / 2 ^ 16 = 43518 := (Prefix.sameBlock_iff_div 16 x _).mp block
    omega
  · have part : x.toNat / 2 ^ 28 = 14 := (Prefix.sameBlock_iff_div 28 x _).mp block
    omega
  · subst same
    exact absurd first (by decide)

theorem lanExcluded_covers (tunnelIP : Chars) (ip x : Ipv4Addr) (read : inetPton tunnelIP = some ip) :
    Covered (ipv4LanExcludedRoutesForTunnelIP tunnelIP) x ↔
      (Prefix.SameBlock 24 x ip ∧ ¬Prefix.SameBlock 2 x ip) ∨ FixedLan x := by
  rw [ipv4LanExcludedRoutesForTunnelIP, covered_append, appendTen8_covers tunnelIP ip x read,
    fixedLanRoutes_cover]

/-- The addresses the exclusions are for: the LAN ranges without the tunnel's own /30. -/
def LanBypass (ip x : Ipv4Addr) : Prop := (Ten8 x ∨ FixedLan x) ∧ ¬Prefix.SameBlock 2 x ip

/-- The excluded routes are the intended ones exactly for a tunnel address inside 10/8. -/
theorem lanExcluded_exact_iff (tunnelIP : Chars) (ip : Ipv4Addr) (read : inetPton tunnelIP = some ip) :
    (∀ x, Covered (ipv4LanExcludedRoutesForTunnelIP tunnelIP) x ↔ LanBypass ip x) ↔ Ten8 ip := by
  constructor
  · intro same
    by_contra outside
    have apart : ¬Prefix.SameBlock 24 (ofOctets 10 0 0 0) ip := by
      intro near
      exact outside near.symm
    have intended : LanBypass ip (ofOctets 10 0 0 0) := by
      refine ⟨Or.inl rfl, ?_⟩
      intro inner
      exact apart (inner.mono (by decide))
    rcases (lanExcluded_covers tunnelIP ip _ read).mp ((same _).mpr intended) with walk | fixed
    · exact apart walk.1
    · exact fixedLan_not_ten8 _ fixed rfl
  · intro inside x
    rw [lanExcluded_covers tunnelIP ip x read]
    have block : Prefix.SameBlock 24 x ip ↔ Ten8 x := by
      constructor
      · intro near
        exact near.trans inside
      · intro ten
        exact ten.trans inside.symm
    have away : FixedLan x → ¬Prefix.SameBlock 2 x ip := by
      intro fixed inner
      exact fixedLan_not_ten8 x fixed (block.mp (inner.mono (by decide)))
    unfold LanBypass
    rw [block]
    constructor
    · intro found
      rcases found with ⟨ten, apart⟩ | fixed
      · exact ⟨Or.inl ten, apart⟩
      · exact ⟨Or.inr fixed, away fixed⟩
    · rintro ⟨found, apart⟩
      rcases found with ten | fixed
      · exact Or.inl ⟨ten, apart⟩
      · exact Or.inr fixed

end ShadowVpn.Tunnel.Routes
