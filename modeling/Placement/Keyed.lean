import Std.Data.ExtTreeMap

/-!
# Keyed values

Values under text keys, in the order of the keys. Two collections are equal as soon as every key
finds the same value in both, however they were filled.
-/

namespace Placement

/-- Values under text keys. -/
abbrev Keyed (α : Type) : Type := Std.ExtTreeMap String α

namespace Keyed

/-- Whether both hold the same keys, with values that compare equal. -/
def same {α : Type} [BEq α] (a b : Keyed α) : Bool := a.toList == b.toList

/-- Puts every entry of `more` over `base`. -/
def overlay {α : Type} (base more : Keyed α) : Keyed α :=
  more.toList.foldl (fun all (key, value) => all.insert key value) base

/-! Nothing is said about the order in which a map is gone through, only that each entry comes up
once. -/

/-- `entries` goes through the entries of `map`, each once, in some order. -/
def Lists {α : Type} (entries : List (String × α)) (map : Keyed α) : Prop :=
  entries.Perm map.toList

namespace Lists

variable {α : Type} {entries : List (String × α)} {map : Keyed α}

theorem mem_iff (h : Lists entries map) {key : String} {value : α} :
    (key, value) ∈ entries ↔ map[key]? = some value := by
  rw [List.Perm.mem_iff h, Std.ExtTreeMap.mem_toList_iff_getElem?_eq_some]

theorem mem_keys_iff (h : Lists entries map) {key : String} :
    key ∈ entries.map Prod.fst ↔ key ∈ map := by
  rw [List.mem_map, Std.ExtTreeMap.mem_iff_isSome_getElem?, Option.isSome_iff_exists]
  constructor
  · rintro ⟨⟨_, value⟩, hentry, rfl⟩
    exact ⟨value, h.mem_iff.mp hentry⟩
  · rintro ⟨value, hmap⟩
    exact ⟨(key, value), h.mem_iff.mpr hmap, rfl⟩

/-- No key comes up twice. -/
theorem nodup (h : Lists entries map) : (entries.map Prod.fst).Nodup := by
  have hkeys : (map.toList.map Prod.fst).Nodup := by
    rw [List.Nodup, List.pairwise_map]
    refine map.distinct_keys_toList.imp fun hne heq => hne ?_
    rw [heq]
    exact Std.ReflCmp.compare_self
  exact ((List.Perm.map Prod.fst h).nodup_iff).mpr hkeys

end Lists

end Keyed

end Placement
