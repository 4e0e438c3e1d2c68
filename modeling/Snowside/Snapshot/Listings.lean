import Snowside.Snapshot.Blooming

/-! The listings of layers, by block and by state, and the layers that are linked to the disk. -/

set_option autoImplicit false

namespace Snowside.Snapshot

open Ancestry (Ancestor IsParent Path)
open Blockchain (ChainBlock hash hash_injective)
open SnapshotBlock (stateRoot changes)

section

variable {ID Root Key Filter : Type} [DecidableEq ID] [DecidableEq Root] {tree after : Tree ID Root Key Filter} {key other : ID}
  {root other_root : Root} {ref found : Ref}

/-- The layer under a state root and a block hash. -/
def Tree.stateLayer (tree : Tree ID Root Key Filter) (root : Root) (key : ID) : Option Ref :=
  (tree.stateLayers.lookup root).bind fun snaps => snaps.lookup key

/-- What is under a block hash is under its root, and the other way round. -/
structure Tree.Listed (tree : Tree ID Root Key Filter) : Prop where
  filed : ∀ root key ref, tree.stateLayer root key = some ref → tree.blockLayers.lookup key = some ref ∧ tree.rootOf ref = some root
  listed : ∀ key ref, tree.blockLayers.lookup key = some ref →
    ∃ root, tree.rootOf ref = some root ∧ tree.stateLayer root key = some ref

/-- A layer is found under its block hash exactly if it is listed under its root. -/
theorem Tree.Listed.iff (listed : tree.Listed) (rooted : tree.rootOf ref = some root) :
    tree.blockLayers.lookup key = some ref ↔ tree.stateLayer root key = some ref := by
  constructor
  · intro there
    obtain ⟨other, rooted', filed⟩ := listed.listed key ref there
    obtain rfl := Option.some.inj (rooted.symm.trans rooted')
    exact filed
  · exact fun there => (listed.filed root key ref there).1

theorem stateLayer_insertSnap_same (tree : Tree ID Root Key Filter) (ref : Ref) (key : ID) (root : Root) :
    (tree.insertSnap ref key root).stateLayer root key = some ref := by
  unfold Tree.stateLayer Tree.insertSnap
  rw [AList.lookup_insert, Option.bind_some, AList.lookup_insert]

theorem stateLayer_insertSnap_other (tree : Tree ID Root Key Filter) (ref : Ref) (apart : ¬ (other_root = root ∧ other = key)) :
    (tree.insertSnap ref key root).stateLayer other_root other = tree.stateLayer other_root other := by
  unfold Tree.stateLayer Tree.insertSnap
  by_cases same : other_root = root
  · subst same
    have apart : other ≠ key := fun same => apart ⟨rfl, same⟩
    rw [AList.lookup_insert, Option.bind_some, AList.lookup_insert_ne apart]
    cases tree.stateLayers.lookup other_root with
    | none => rfl
    | some snaps => rfl
  · rw [AList.lookup_insert_ne same]

/-- A new layer of a block that is listed under no other root. -/
theorem Tree.Listed.insertSnap (listed : tree.Listed) (rooted : tree.rootOf ref = some root)
    (only : ∀ other_root other, tree.stateLayer other_root key = some other → other_root = root) :
    (tree.insertSnap ref key root).Listed where
  filed := by
    intro other_root other found there
    by_cases same : other_root = root ∧ other = key
    · obtain ⟨rfl, rfl⟩ := same
      rw [stateLayer_insertSnap_same] at there
      obtain rfl := Option.some.inj there
      exact ⟨AList.lookup_insert _, rooted⟩
    · rw [stateLayer_insertSnap_other tree ref same] at there
      obtain ⟨under, rooted'⟩ := listed.filed other_root other found there
      have apart : other ≠ key := by
        rintro rfl
        exact same ⟨only other_root found there, rfl⟩
      exact ⟨(AList.lookup_insert_ne apart).trans under, rooted'⟩
  listed := by
    intro other found there
    by_cases same : other = key
    · subst same
      replace there : (tree.blockLayers.insert other ref).lookup other = some found := there
      rw [AList.lookup_insert] at there
      obtain rfl := Option.some.inj there
      exact ⟨root, rooted, stateLayer_insertSnap_same tree ref other root⟩
    · replace there : (tree.blockLayers.insert key ref).lookup other = some found := there
      rw [AList.lookup_insert_ne same] at there
      obtain ⟨other_root, rooted', filed⟩ := listed.listed other found there
      exact ⟨other_root, rooted', (stateLayer_insertSnap_other tree ref fun both => same both.2).trans filed⟩

/-- What discarding does, if it does anything. -/
structure Discarded (key : ID) (tree after : Tree ID Root Key Filter) : Prop where
  same : after = { tree with blockLayers := tree.blockLayers.erase key, stateLayers := after.stateLayers }
  layer : ∃ ref root, tree.blockLayers.lookup key = some ref ∧ tree.rootOf ref = some root ∧
    ∀ other_root other, after.stateLayer other_root other =
      if other_root = root ∧ other = key then none else tree.stateLayer other_root other

theorem discarded_of_discard {force : Bool} (discarded : tree.discard key force = .ok after) : Discarded key tree after := by
  unfold Tree.discard at discarded
  cases listed : tree.blockLayers.lookup key with
  | none =>
    rw [listed] at discarded
    cases discarded
  | some snap =>
    rw [listed] at discarded
    dsimp only at discarded
    split at discarded
    · cases discarded
    · split at discarded
      · cases discarded
      · next root rooted =>
        split at discarded
        · cases discarded
        · next snaps under =>
          obtain rfl := Except.ok.inj discarded
          refine ⟨rfl, snap, root, listed, rooted, fun other_root other => ?_⟩
          unfold Tree.stateLayer
          dsimp only
          by_cases same : other_root = root
          · subst same
            rw [under, Option.bind_some]
            have entry : ((if (snaps.erase key).entries.isEmpty then tree.stateLayers.erase other_root
                else tree.stateLayers.insert other_root (snaps.erase key)).lookup other_root).bind
                (fun snaps => snaps.lookup other) = (snaps.erase key).lookup other := by
              by_cases empty : (snaps.erase key).entries.isEmpty = true
              · rw [if_pos empty, AList.lookup_erase, AList.lookup, List.isEmpty_iff.mp empty]
                rfl
              · rw [if_neg empty, AList.lookup_insert, Option.bind_some]
            rw [entry]
            by_cases here : other = key
            · subst here
              rw [if_pos ⟨rfl, rfl⟩]
              exact AList.lookup_erase ..
            · rw [if_neg fun both => here both.2]
              exact AList.lookup_erase_ne here
          · by_cases empty : (snaps.erase key).entries.isEmpty = true
            · rw [if_pos empty, AList.lookup_erase_ne same, if_neg fun both => same both.1]
            · rw [if_neg empty, AList.lookup_insert_ne same, if_neg fun both => same both.1]

theorem Tree.Listed.discard (listed : tree.Listed) (discarded : Discarded key tree after) : after.Listed := by
  obtain ⟨same, ref, root, there, rooted, state⟩ := discarded
  have roots : after.rootOf = tree.rootOf := by
    rw [same]
    rfl
  have blocks : after.blockLayers = tree.blockLayers.erase key := by rw [same]
  constructor
  · intro other_root other found filed
    rw [state] at filed
    split at filed
    · cases filed
    · next apart =>
      obtain ⟨under, rooted'⟩ := listed.filed other_root other found filed
      have other_key : other ≠ key := by
        rintro rfl
        obtain rfl := Option.some.inj (there.symm.trans under)
        obtain rfl := Option.some.inj (rooted.symm.trans rooted')
        exact apart ⟨rfl, rfl⟩
      rw [roots, blocks, AList.lookup_erase_ne other_key]
      exact ⟨under, rooted'⟩
  · intro other found under
    rw [blocks] at under
    have other_key : other ≠ key := by
      rintro rfl
      rw [AList.lookup_erase] at under
      cases under
    rw [AList.lookup_erase_ne other_key] at under
    obtain ⟨other_root, rooted', filed⟩ := listed.listed other found under
    refine ⟨other_root, by rw [roots]; exact rooted', ?_⟩
    rw [state, if_neg fun both => other_key both.2]
    exact filed

end

end Snowside.Snapshot
