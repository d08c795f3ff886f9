import ShadowVpn.Policy.Blocks

/-! What the file of a country says and nothing more: its text is a function of the set of
selected addresses, no shorter file says the same, and the table read back from it is the one
that the selected networks give directly. -/

namespace ShadowVpn.Policy.Canonical
open ShadowVpn.Lib ShadowVpn.Lib.Text ShadowVpn.Lib.Ranges ShadowVpn.Net.Ipv4
open ShadowVpn.Policy.Chnroute ShadowVpn.Policy.Country ShadowVpn.Policy.Blocks

/-- The address lies in a network that the database gives to the country. -/
def Selects (country : Chars) (items : List Item) (ip : Ipv4Addr) : Prop :=
  ∃ item ∈ items, ∃ range, selected (normalizeCountry country) item = some range ∧ range.Has ip.toNat

/-- The blocks that the splitting loops write for all merged ranges. -/
def fileBlocks (ranges : List IpRange) : List (Ipv4Addr × Nat) :=
  (merge Country.mergeTouches (sort ranges)).flatMap fun range =>
    rangeBlocks (BitVec.ofNat 32 range.first) (BitVec.ofNat 32 range.last)

/-- A list of blocks that says what `set` is, in the order of the addresses, and that no
shorter list of blocks says. -/
structure Shortest (blocks : List (Ipv4Addr × Nat)) (set : Nat → Prop) : Prop where
  aligned : ∀ block ∈ blocks, block.2 ≤ 32 ∧ 2 ^ (32 - block.2) ∣ block.1.toNat
  ascending : blocks.Pairwise fun one two => one.1.toNat < two.1.toNat
  disjoint : blocks.Pairwise fun one two => ∀ v, ¬((cidrRange one.1 one.2).Has v ∧ (cidrRange two.1 two.2).Has v)
  union : ∀ v, Denotes blocks v ↔ set v
  shortest : ∀ others : List (Ipv4Addr × Nat), (∀ block ∈ others, block.2 ≤ 32) →
    (∀ v, Denotes others v ↔ set v) → blocks.length ≤ others.length

/-! ### The merged ranges -/

theorem merged_apart (ranges : List IpRange) : (merge Country.mergeTouches (sort ranges)).Pairwise Apart :=
  (merge_sorted Country.mergeTouches_adjoins _ (sort_firsts ranges)).1

theorem merged_covers (ranges : List IpRange) (v : Nat) :
    Covers (merge Country.mergeTouches (sort ranges)) v ↔ Covers ranges v := by
  rw [(merge_sorted Country.mergeTouches_adjoins _ (sort_firsts ranges)).2 v, covers_sort]

/-- The merged ranges depend on the covered addresses only. -/
theorem merged_eq_of_covers (one two : List IpRange) (same : ∀ v, Covers one v ↔ Covers two v) :
    merge Country.mergeTouches (sort one) = merge Country.mergeTouches (sort two) := by
  apply eq_of_covers (merged_apart one) (merged_apart two)
  intro v
  rw [merged_covers, merged_covers, same]

/-- No range covers a number that is no address. -/
theorem lt_of_covers {ranges : List IpRange} {v : Nat} (covered : Covers ranges v) : v < 2 ^ 32 := by
  obtain ⟨range, _, has⟩ := covered
  exact Nat.lt_of_le_of_lt has.2 range.bounded

theorem covers_selected (country : Chars) (items : List Item) (ip : Ipv4Addr) :
    Covers (items.filterMap (selected (normalizeCountry country))) ip.toNat ↔ Selects country items ip := by
  simp only [Covers, Selects, List.mem_filterMap]
  constructor
  · rintro ⟨range, ⟨item, member, picked⟩, has⟩
    exact ⟨item, member, range, picked, has⟩
  · rintro ⟨item, member, range, picked, has⟩
    exact ⟨range, ⟨item, member, picked⟩, has⟩

theorem covers_iff_selects (country : Chars) (one two : List Item) :
    (∀ v, Covers (one.filterMap (selected (normalizeCountry country))) v ↔
      Covers (two.filterMap (selected (normalizeCountry country))) v) ↔
    ∀ ip, Selects country one ip ↔ Selects country two ip := by
  constructor
  · intro same ip
    rw [← covers_selected, ← covers_selected, same]
  · intro same v
    by_cases small : v < 2 ^ 32
    · have number : (BitVec.ofNat 32 v).toNat = v := by rw [BitVec.toNat_ofNat, Nat.mod_eq_of_lt small]
      rw [← number, covers_selected, covers_selected, same]
    · constructor
      · intro covered
        exact absurd (lt_of_covers covered) small
      · intro covered
        exact absurd (lt_of_covers covered) small

/-! ### The text -/

theorem built_iff (country : Chars) (items : List Item) (text : Chars) :
    buildCountryCidrs (normalizeCountry country) items = .ok text ↔
      items.filterMap (selected (normalizeCountry country)) ≠ [] ∧
        text = countryText (normalizeCountry country) (items.filterMap (selected (normalizeCountry country))) := by
  unfold buildCountryCidrs
  by_cases none : items.filterMap (selected (normalizeCountry country)) = []
  · simp [none]
  · simp [none, eq_comm]

theorem cidrLines_eq (ranges : List IpRange) : cidrLines ranges = (fileBlocks ranges).map cidrText := by
  unfold cidrLines fileBlocks rangeToCidrs
  rw [List.map_flatMap]

/-- Two files of a country are the same text exactly when the same addresses were selected. -/
theorem country_text_canonical (country : Chars) (one two : List Item) (first second : Chars)
    (builtOne : buildCountryCidrs (normalizeCountry country) one = .ok first)
    (builtTwo : buildCountryCidrs (normalizeCountry country) two = .ok second) :
    first = second ↔ ∀ ip, Selects country one ip ↔ Selects country two ip := by
  obtain ⟨someOne, textOne⟩ := (built_iff country one first).mp builtOne
  obtain ⟨someTwo, textTwo⟩ := (built_iff country two second).mp builtTwo
  rw [← covers_iff_selects]
  constructor
  · intro same v
    have read : lines first = lines second := by rw [same]
    rw [textOne, textTwo, lines_countryText country _ someOne, lines_countryText country _ someTwo] at read
    have body := (List.cons.inj (List.cons.inj read).2).2
    rw [← cidrLines_denote, ← cidrLines_denote, body]
  · intro same
    rw [textOne, textTwo, countryText, countryText, cidrLines, cidrLines, merged_eq_of_covers _ _ same]

/-- The text of the selected networks, with the code in upper case. -/
def sampleText (items : List Item) : Chars :=
  countryText (normalizeCountry ['c', 'n', ' '])
    (items.filterMap (selected (normalizeCountry ['c', 'n', ' '])))

theorem sample_built (items : List Item) (picked : items.any fun item =>
    (selected (normalizeCountry ['c', 'n', ' ']) item).isSome) :
    buildCountryCidrs (normalizeCountry ['c', 'n', ' ']) items = .ok (sampleText items) := by
  apply (built_iff _ _ _).mpr
  obtain ⟨item, member, found⟩ := List.any_eq_true.mp picked
  obtain ⟨range, found⟩ := Option.isSome_iff_exists.mp found
  exact ⟨List.ne_nil_of_mem (List.mem_filterMap.mpr ⟨item, member, found⟩), rfl⟩

/-- However the networks are cut and listed, the text is the same. -/
theorem sample_text_canonical : sampleText sampleItems = sampleText sampleRegrouped := by
  apply (country_text_canonical ['c', 'n', ' '] _ _ _ _ (sample_built sampleItems (by decide))
    (sample_built sampleRegrouped (by decide))).mpr
  rw [← covers_iff_selects]
  have listed : sampleItems.filterMap (selected (normalizeCountry ['c', 'n', ' '])) =
      [⟨16777472, 16777727, by decide, by decide⟩, ⟨4294967040, 4294967295, by decide, by decide⟩,
        ⟨16777728, 16778239, by decide, by decide⟩, ⟨16777984, 16779519, by decide, by decide⟩,
        ⟨0, 254, by decide, by decide⟩] := rfl
  have regrouped : sampleRegrouped.filterMap (selected (normalizeCountry ['c', 'n', ' '])) =
      [⟨0, 99, by decide, by decide⟩, ⟨100, 254, by decide, by decide⟩,
        ⟨16777472, 16779519, by decide, by decide⟩, ⟨4294967040, 4294967295, by decide, by decide⟩] := rfl
  rw [listed, regrouped]
  intro v
  simp only [Covers, Range.Has, List.mem_cons, List.not_mem_nil, or_false, exists_eq_or_imp, exists_eq_left]
  omega

theorem rangeBlocks_of (range : IpRange) :
    ExactTiling (rangeBlocks (BitVec.ofNat 32 range.first) (BitVec.ofNat 32 range.last)) range.first range.last := by
  have bounded := range.bounded
  have ordered := range.ordered
  have first : (BitVec.ofNat 32 range.first).toNat = range.first := by
    rw [BitVec.toNat_ofNat, Nat.mod_eq_of_lt (by omega)]
  have last : (BitVec.ofNat 32 range.last).toNat = range.last := by
    rw [BitVec.toNat_ofNat, Nat.mod_eq_of_lt (by omega)]
  have exact := rangeBlocks_exact (BitVec.ofNat 32 range.first) (BitVec.ofNat 32 range.last) (by omega)
  rw [first, last] at exact
  exact exact

theorem denotes_eq_covers (blocks : List (Ipv4Addr × Nat)) (v : Nat) :
    Denotes blocks v ↔ Covers (blocks.map fun block => cidrRange block.1 block.2) v :=
  (covers_map (fun block : Ipv4Addr × Nat => cidrRange block.1 block.2) blocks v).symm

theorem fileBlocks_denote (ranges : List IpRange) (v : Nat) : Denotes (fileBlocks ranges) v ↔ Covers ranges v := by
  rw [← merged_covers]
  simp only [Denotes, fileBlocks, List.mem_flatMap, Covers]
  constructor
  · rintro ⟨block, ⟨range, member, inside⟩, has⟩
    exact ⟨range, member, ((rangeBlocks_of range).union v).mp ⟨block, inside, has⟩⟩
  · rintro ⟨range, member, has⟩
    obtain ⟨block, inside, here⟩ := ((rangeBlocks_of range).union v).mpr has
    exact ⟨block, ⟨range, member, inside⟩, here⟩

/-- A block of a range lies in the range. -/
theorem block_inside (range : IpRange) (block : Ipv4Addr × Nat)
    (member : block ∈ rangeBlocks (BitVec.ofNat 32 range.first) (BitVec.ofNat 32 range.last)) (v : Nat)
    (has : (cidrRange block.1 block.2).Has v) : range.Has v :=
  ((rangeBlocks_of range).union v).mp ⟨block, member, has⟩

/-- An aligned block begins at its base address. -/
theorem has_base (block : Ipv4Addr × Nat) (le : block.2 ≤ 32) (aligned : 2 ^ (32 - block.2) ∣ block.1.toNat) :
    (cidrRange block.1 block.2).Has block.1.toNat := by
  have first := cidrRange_first block.1 block.2 le
  rw [Nat.div_mul_cancel aligned] at first
  exact ⟨Nat.le_of_eq first, first ▸ (cidrRange block.1 block.2).ordered⟩

theorem fileBlocks_shortest (ranges : List IpRange) : Shortest (fileBlocks ranges) (Covers ranges) := by
  have aligned : ∀ block ∈ fileBlocks ranges, block.2 ≤ 32 ∧ 2 ^ (32 - block.2) ∣ block.1.toNat := by
    intro block member
    obtain ⟨range, _, inside⟩ := List.mem_flatMap.mp member
    exact (rangeBlocks_of range).aligned block inside
  constructor
  · exact aligned
  · apply List.pairwise_flatMap.mpr
    constructor
    · intro range _
      exact (rangeBlocks_of range).ascending
    · apply (merged_apart ranges).imp
      intro one two far first memberOne second memberTwo
      have legalOne := (rangeBlocks_of one).aligned first memberOne
      have legalTwo := (rangeBlocks_of two).aligned second memberTwo
      have low := (block_inside one first memberOne _ (has_base first legalOne.1 legalOne.2)).2
      have high := (block_inside two second memberTwo _ (has_base second legalTwo.1 legalTwo.2)).1
      have gap : one.last + 1 < two.first := far
      omega
  · apply List.pairwise_flatMap.mpr
    constructor
    · intro range _
      exact (rangeBlocks_of range).disjoint
    · apply (merged_apart ranges).imp
      intro one two far first memberOne second memberTwo v both
      have low := (block_inside one first memberOne v both.1).2
      have high := (block_inside two second memberTwo v both.2).1
      have gap : one.last + 1 < two.first := far
      omega
  · exact fileBlocks_denote ranges
  · intro others legal union
    apply length_flatMap_le (fun block : Ipv4Addr × Nat => cidrRange block.1 block.2)
      (fun block => block.2 ≤ 32) _ (merged_apart ranges) others legal
    · intro v
      rw [← denotes_eq_covers, union, merged_covers]
    · intro range others legal same
      apply (rangeBlocks_of range).shortest others legal
      intro v
      rw [denotes_eq_covers, same]
      exact Iff.rfl

/-- The file of a country has two comments and below them, one a line, the blocks of a shortest
list for the selected addresses; the second comment counts them. -/
theorem country_file_shortest (country : Chars) (items : List Item) (text : Chars)
    (built : buildCountryCidrs (normalizeCountry country) items = .ok text) :
    ∃ blocks, lines text = headerTitle (normalizeCountry country) :: headerCount blocks.length :: blocks.map cidrText ∧
      (∀ ip : Ipv4Addr, Denotes blocks ip.toNat ↔ Selects country items ip) ∧
      Shortest blocks (Covers (items.filterMap (selected (normalizeCountry country)))) := by
  obtain ⟨found, rfl⟩ := (built_iff country items text).mp built
  refine ⟨fileBlocks (items.filterMap (selected (normalizeCountry country))), ?_, ?_, fileBlocks_shortest _⟩
  · rw [lines_countryText country _ found, cidrLines_eq, List.length_map]
  · intro ip
    rw [fileBlocks_denote, covers_selected]

theorem sample_file_shortest :
    ∃ blocks, lines (sampleText sampleItems) =
        headerTitle (normalizeCountry ['c', 'n', ' ']) :: headerCount blocks.length :: blocks.map cidrText ∧
      (∀ ip : Ipv4Addr, Denotes blocks ip.toNat ↔ Selects ['c', 'n', ' '] sampleItems ip) ∧
      Shortest blocks (Covers (sampleItems.filterMap (selected (normalizeCountry ['c', 'n', ' '])))) :=
  country_file_shortest ['c', 'n', ' '] _ _ (sample_built sampleItems (by decide))

end ShadowVpn.Policy.Canonical
