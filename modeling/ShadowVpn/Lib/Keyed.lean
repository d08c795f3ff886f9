import Mathlib.Data.List.Nodup

/-! Lists whose items have distinct keys: an item is found by its key, and replacing or removing the
item at an index leaves those with other keys. -/

namespace ShadowVpn.Lib.Keyed

variable {Item Key : Type} {key : Item → Key} {items : List Item} {index : Nat} {old new item : Item}

theorem map_set_same (found : items[index]? = some old) (same : key new = key old) :
    (items.set index new).map key = items.map key := by
  obtain ⟨bound, rfl⟩ := List.getElem?_eq_some_iff.mp found
  have bound' : index < (items.map key).length := by rwa [List.length_map]
  have stays : (items.map key).set index (items.map key)[index] = items.map key := List.set_getElem_self _
  rw [List.getElem_map] at stays
  rw [List.map_set, same, stays]

/-- With distinct keys the item at an index is the only one with its key. -/
theorem index_of_key (distinct : (items.map key).Nodup) {one two : Nat} (first : items[one]? = some old)
    (second : items[two]? = some item) (same : key item = key old) : two = one := by
  obtain ⟨bound, _⟩ := List.getElem?_eq_some_iff.mp second
  have bound' : two < (items.map key).length := by rwa [List.length_map]
  apply (List.getElem?_inj bound' distinct).mp
  rw [List.getElem?_map, List.getElem?_map, first, second, Option.map_some, Option.map_some, same]

theorem mem_set (distinct : (items.map key).Nodup) (found : items[index]? = some old)
    (same : key new = key old) (member : item ∈ items.set index new) :
    item = new ∨ item ∈ items ∧ key item ≠ key old := by
  have distinct' : ((items.set index new).map key).Nodup := by rwa [map_set_same found same]
  obtain ⟨bound, _⟩ := List.getElem?_eq_some_iff.mp found
  by_cases equal : key item = key old
  · apply Or.inl
    apply List.inj_on_of_nodup_map distinct' member (List.mem_set bound new)
    rw [equal, same]
  · rcases List.mem_or_eq_of_mem_set member with kept | rfl
    · exact Or.inr ⟨kept, equal⟩
    · exact absurd same equal

theorem mem_set_other (found : items[index]? = some old) (member : item ∈ items) (other : key item ≠ key old) :
    item ∈ items.set index new := by
  obtain ⟨i, here⟩ := List.mem_iff_getElem?.mp member
  have apart : index ≠ i := by
    intro equal
    rw [← equal, found] at here
    exact other (congrArg key (Option.some.inj here).symm)
  apply List.mem_iff_getElem?.mpr
  exact ⟨i, by rw [List.getElem?_set_ne apart, here]⟩

theorem mem_eraseIdx (distinct : (items.map key).Nodup) (found : items[index]? = some old) :
    item ∈ items.eraseIdx index ↔ item ∈ items ∧ key item ≠ key old := by
  rw [List.mem_eraseIdx_iff_getElem?]
  constructor
  · rintro ⟨i, apart, here⟩
    refine ⟨List.mem_of_getElem? here, ?_⟩
    intro same
    exact apart (index_of_key distinct found here same)
  · rintro ⟨member, other⟩
    obtain ⟨i, here⟩ := List.mem_iff_getElem?.mp member
    refine ⟨i, ?_, here⟩
    intro equal
    rw [equal, found] at here
    exact other (congrArg key (Option.some.inj here).symm)

theorem filter_key [DecidableEq Key] (distinct : (items.map key).Nodup) (member : item ∈ items) :
    items.filter (fun other => key other == key item) = [item] := by
  induction items with
  | nil => cases member
  | cons head rest ih =>
    rw [List.map_cons, List.nodup_cons] at distinct
    rcases List.mem_cons.mp member with rfl | later
    · have others : rest.filter (fun other => key other == key item) = [] := by
        apply List.filter_eq_nil_iff.mpr
        intro other inside same
        exact distinct.1 (beq_iff_eq.mp same ▸ List.mem_map_of_mem inside)
      rw [List.filter_cons, if_pos (beq_self_eq_true _), others]
    · have apart : ¬(key head == key item) = true := by
        intro same
        exact distinct.1 (beq_iff_eq.mp same ▸ List.mem_map_of_mem later)
      rw [List.filter_cons, if_neg apart, ih distinct.2 later]

end ShadowVpn.Lib.Keyed
