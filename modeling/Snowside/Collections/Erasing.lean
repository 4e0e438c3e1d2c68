import Mathlib.Algebra.BigOperators.Group.List.Basic
import Mathlib.Algebra.Ring.Nat
import Snowside.Partial.Maps

/-! Entries that are taken out of maps, and sums over their values. -/

set_option autoImplicit false

namespace Maps

variable {Key Value : Type} [DecidableEq Key] {map : Map Key Value} {key other : Key} {value : Value}

def values (map : Map Key Value) : List Value := map.entries.map fun entry => entry.2

def eraseAll (keys : List Key) (map : Map Key Value) : Map Key Value := keys.foldl (fun map key => map.erase key) map

theorem mem_values : value ∈ values map ↔ ∃ key, map.lookup key = some value := by
  constructor
  · intro member
    obtain ⟨entry, inside, rfl⟩ := List.mem_map.mp member
    exact ⟨entry.1, AList.mem_lookup_iff.mpr inside⟩
  · rintro ⟨key, found⟩
    exact List.mem_map.mpr ⟨⟨key, value⟩, AList.mem_lookup_iff.mp found, rfl⟩

theorem mem_keys_iff : key ∈ map.keys ↔ ∃ value, map.lookup key = some value :=
  AList.lookup_isSome.symm.trans Option.isSome_iff_exists

theorem lookup_erase_eq : (map.erase key).lookup other = if other = key then none else map.lookup other := by
  by_cases same : other = key
  · rw [if_pos same, same, AList.lookup_erase]
  · rw [if_neg same, AList.lookup_erase_ne same]

theorem lookup_insert_eq : (map.insert key value).lookup other = if other = key then some value else map.lookup other := by
  by_cases same : other = key
  · rw [if_pos same, same, AList.lookup_insert]
  · rw [if_neg same, AList.lookup_insert_ne same]

theorem lookup_eraseAll {keys : List Key} :
    (eraseAll keys map).lookup other = if other ∈ keys then none else map.lookup other := by
  induction keys generalizing map with
  | nil => simp [eraseAll]
  | cons key rest ih =>
    have step : eraseAll (key :: rest) map = eraseAll rest (map.erase key) := rfl
    rw [step, ih, lookup_erase_eq]
    by_cases later : other ∈ rest
    · simp [later]
    · by_cases same : other = key <;> simp [later, same]

theorem keys_erase (absent : key ∉ map.keys) : (map.erase key).keys = map.keys := by
  rw [AList.keys_erase, List.erase_of_not_mem absent]

theorem values_erase_absent (absent : map.lookup key = none) : values (map.erase key) = values map :=
  congrArg (List.map _) (List.kerase_of_notMem_keys (AList.lookup_eq_none.mp absent))

/-- What is found leaves the entries. -/
theorem entries_perm_erase (found : map.lookup key = some value) : map.entries.Perm (⟨key, value⟩ :: (map.erase key).entries) := by
  have absent : key ∉ (map.erase key).keys := fun member => by
    obtain ⟨value, there⟩ := mem_keys_iff.mp member
    rw [lookup_erase_eq, if_pos rfl] at there
    cases there
  have put : ((map.erase key).insert key value).entries.Perm map.entries := perm_of_lookup fun other => by
    rw [lookup_insert_eq, lookup_erase_eq]
    by_cases same : other = key
    · rw [if_pos same, same, found]
    · rw [if_neg same, if_neg same]
  rw [AList.entries_insert_of_notMem absent] at put
  exact put.symm

theorem values_perm_erase (found : map.lookup key = some value) : (values map).Perm (value :: values (map.erase key)) :=
  List.Perm.map (fun entry : (_ : Key) × Value => entry.2) (entries_perm_erase found)

theorem values_insert (absent : map.lookup key = none) : values (map.insert key value) = value :: values map := by
  rw [values, AList.entries_insert_of_notMem (AList.lookup_eq_none.mp absent)]
  rfl

/-- A sum over the values, by keys among which are all of the map. -/
theorem sum_values (f : Value → Nat) {keys : List Key} (once : keys.Nodup) (inside : ∀ key, (map.lookup key).isSome → key ∈ keys) :
    ((values map).map f).sum = (keys.map fun key => ((map.lookup key).map f).getD 0).sum := by
  have own : (values map).map f = map.keys.map fun key => ((map.lookup key).map f).getD 0 := by
    unfold values AList.keys List.keys
    rw [List.map_map, List.map_map]
    refine List.map_congr_left fun entry member => ?_
    have found : map.lookup entry.1 = some entry.2 := AList.mem_lookup_iff.mpr member
    rw [Function.comp_apply, Function.comp_apply, found]
    rfl
  have split : keys.Perm (map.keys ++ keys.filter (· ∉ map.keys)) := by
    refine (List.perm_ext_iff_of_nodup once (List.nodup_append.mpr ⟨map.nodupKeys, once.filter _, ?_⟩)).mpr fun key => ?_
    · rintro key member other outside rfl
      exact of_decide_eq_true (List.mem_filter.mp outside).2 member
    · rw [List.mem_append, List.mem_filter, decide_eq_true_iff]
      constructor
      · intro there
        by_cases member : key ∈ map.keys
        · exact .inl member
        · exact .inr ⟨there, member⟩
      · rintro (member | ⟨there, -⟩)
        · exact inside key (AList.lookup_isSome.mpr member)
        · exact there
  have nothing : ((keys.filter (· ∉ map.keys)).map fun key => ((map.lookup key).map f).getD 0).sum = 0 := by
    refine List.sum_eq_zero fun count member => ?_
    obtain ⟨key, outside, rfl⟩ := List.mem_map.mp member
    have absent : key ∉ map.keys := by simpa using (List.mem_filter.mp outside).2
    rw [AList.lookup_eq_none.mpr absent]
    rfl
  rw [own, (split.map _).sum_eq, List.map_append, List.sum_append, nothing, Nat.add_zero]

end Maps
