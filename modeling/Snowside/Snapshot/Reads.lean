import Snowside.Blockchain.Database
import Snowside.Snapshot.Tree

/-! The state that a snapshot stands for, and what single layers and the disk have of it. -/

set_option autoImplicit false

namespace Snowside.Snapshot

open Maps (Map)

section

variable {Key : Type} [LinearOrder Key]

variable {diff : Diff Key} {state : FlatState Key} {item : Item Key}

/-- A layer either says what the item is, or leaves it to what is below. -/
theorem Diff.apply_eq (diff : Diff Key) (state : FlatState Key) (item : Item Key) :
    diff.apply state item = (diff.find item).getD (state item) := by
  cases item with
  | account accountHash =>
    simp only [apply, find]
    cases diff.accountData.lookup accountHash with
    | some data => rfl
    | none => by_cases gone : accountHash ∈ diff.destructSet <;> simp [gone]
  | slot accountHash storageHash =>
    simp only [apply, find]
    cases (diff.storageData.lookup accountHash).bind fun storage => storage.lookup storageHash with
    | some data => rfl
    | none => by_cases gone : accountHash ∈ diff.destructSet <;> simp [gone]

theorem Diff.apply_of_find {data : Bytes} (found : diff.find item = some data) : diff.apply state item = data := by
  rw [apply_eq, found]
  rfl

theorem Diff.apply_of_find_none (absent : diff.find item = none) : diff.apply state item = state item := by
  rw [apply_eq, absent]
  rfl

/-! ## The filter -/

/-- Of an item that a layer knows of, a hash is in its filter. -/
theorem Diff.bloomHashes_of_find (hashers : Hashers Key) {data : Bytes} (found : diff.find item = some data) :
    hashers.itemBloomHash item ∈ diff.bloomHashes hashers ∨ hashers.destructBloomHash item.accountHash ∈ diff.bloomHashes hashers := by
  have destructed : item.accountHash ∈ diff.destructSet →
      hashers.destructBloomHash item.accountHash ∈ diff.bloomHashes hashers := by
    intro gone
    exact List.mem_append_left _ (List.mem_append_left _ (List.mem_map_of_mem gone))
  cases item with
  | account accountHash =>
    simp only [find] at found
    cases known : diff.accountData.lookup accountHash with
    | some data =>
      left
      have entry := AList.mem_lookup_iff.mp known
      exact List.mem_append_left _ (List.mem_append_right _ (List.mem_map.mpr ⟨_, entry, rfl⟩))
    | none =>
      rw [known] at found
      dsimp only at found
      split at found
      · next gone => exact .inr (destructed gone)
      · cases found
  | slot accountHash storageHash =>
    simp only [find] at found
    cases known : (diff.storageData.lookup accountHash).bind fun storage => storage.lookup storageHash with
    | some data =>
      left
      obtain ⟨storage, outer, inner⟩ := Option.bind_eq_some_iff.mp known
      have outer := AList.mem_lookup_iff.mp outer
      have inner := AList.mem_lookup_iff.mp inner
      exact List.mem_append_right _ (List.mem_flatMap.mpr ⟨_, outer, List.mem_map.mpr ⟨_, inner, rfl⟩⟩)
    | none =>
      rw [known] at found
      dsimp only at found
      split at found
      · next gone => exact .inr (destructed gone)
      · cases found

/-- The filter has the hashes. -/
def Holds {Filter : Type} [BloomFilter Filter] (filter : Filter) (hashes : List UInt64) : Prop :=
  ∀ hash ∈ hashes, BloomFilter.containsHash filter hash = true

theorem foldl_addHash_kept {Filter : Type} [BloomFilter Filter] {hashes : List UInt64} {filter : Filter} {hash : UInt64}
    (held : BloomFilter.containsHash filter hash = true) :
    BloomFilter.containsHash (hashes.foldl BloomFilter.addHash filter) hash = true := by
  induction hashes generalizing filter with
  | nil => exact held
  | cons added rest ih => exact ih (BloomFilter.contains_kept filter added hash held)

theorem holds_foldl_addHash {Filter : Type} [BloomFilter Filter] (hashes : List UInt64) (filter : Filter) :
    Holds (hashes.foldl BloomFilter.addHash filter) hashes := by
  induction hashes generalizing filter with
  | nil => exact fun hash impossible => (by cases impossible)
  | cons added rest ih =>
    intro hash member
    rcases List.mem_cons.mp member with rfl | later
    · have kept : BloomFilter.containsHash (rest.foldl BloomFilter.addHash (BloomFilter.addHash filter hash)) hash = true :=
        foldl_addHash_kept (BloomFilter.contains_added filter hash)
      exact kept
    · exact ih (BloomFilter.addHash filter added) hash later

/-! ## The disk -/

variable {genMarker : Option (Marker Key)} {diskdb : Item Key → Bytes} {cache : Item Key → Option Bytes}

theorem coversAccount_of_covers_slot {accountHash storageHash : Key} (covered : covers genMarker (.slot accountHash storageHash) = true) :
    coversAccount genMarker accountHash = true := by
  cases genMarker with
  | none => rfl
  | some marker =>
    cases marker with
    | start => cases covered
    | account marker =>
      simp only [covers, coversAccount, decide_eq_true_eq] at covered ⊢
      exact le_of_lt covered
    | slot marker slotMarker =>
      simp only [covers, coversAccount, Bool.or_eq_true, Bool.and_eq_true, decide_eq_true_eq] at covered ⊢
      rcases covered with below | ⟨same, _⟩
      · exact le_of_lt below
      · exact le_of_eq same

/-- The check for a slot that is pushed is the one for a slot that is read. -/
theorem coversStorage_eq (genMarker : Option (Marker Key)) (accountHash storageHash : Key) :
    coversStorage genMarker accountHash storageHash = covers genMarker (.slot accountHash storageHash) := by
  cases genMarker with
  | none => rfl
  | some marker =>
    cases marker with
    | start => rfl
    | account marker =>
      rw [Bool.eq_iff_iff]
      simp only [covers, coversStorage, coversAccount, Bool.and_eq_true, decide_eq_true_eq]
      exact ⟨fun ⟨below, apart⟩ => lt_of_le_of_ne below apart, fun below => ⟨le_of_lt below, ne_of_lt below⟩⟩
    | slot marker slotMarker =>
      rw [Bool.eq_iff_iff]
      simp only [covers, coversStorage, coversAccount, Bool.and_eq_true, Bool.or_eq_true, decide_eq_true_eq]
      constructor
      · rintro ⟨below, apart | inside⟩
        · exact .inl (lt_of_le_of_ne below apart)
        · rcases lt_or_eq_of_le below with strictly | same
          · exact .inl strictly
          · exact .inr ⟨same, inside⟩
      · rintro (strictly | ⟨same, inside⟩)
        · exact ⟨le_of_lt strictly, .inl (ne_of_lt strictly)⟩
        · exact ⟨le_of_eq same, .inr inside⟩

/-- On what is covered, the push is the change of the state. -/
theorem Diff.push_of_covers (diff : Diff Key) (covered : covers genMarker item = true) :
    diff.push genMarker diskdb item = diff.apply diskdb item := by
  cases item with
  | account accountHash =>
    have covered : coversAccount genMarker accountHash = true := covered
    simp only [push, apply, covered, if_true]
    cases diff.accountData.lookup accountHash with
    | some data => rfl
    | none => rfl
  | slot accountHash storageHash =>
    have account := coversAccount_of_covers_slot covered
    rw [← coversStorage_eq] at covered
    simp only [push, apply, covered, account, and_true, if_true]
    cases (diff.storageData.lookup accountHash).bind fun storage => storage.lookup storageHash with
    | some data => rfl
    | none => rfl

/-- The cache has nothing but what is covered and on the disk. -/
def Coherent (genMarker : Option (Marker Key)) (diskdb : Item Key → Bytes) (cache : Item Key → Option Bytes) : Prop :=
  ∀ item blob, cache item = some blob → covers genMarker item = true ∧ blob = diskdb item

theorem Coherent.push (coherent : Coherent genMarker diskdb cache) (diff : Diff Key) :
    Coherent genMarker (diff.push genMarker diskdb) (diff.pushCache genMarker diskdb cache) := by
  intro item blob found
  cases item with
  | account accountHash =>
    simp only [Diff.pushCache] at found
    by_cases covered : coversAccount genMarker accountHash = true
    · refine ⟨covered, ?_⟩
      simp only [covered, if_true] at found
      simp only [Diff.push, covered, if_true]
      cases known : diff.accountData.lookup accountHash with
      | some data =>
        rw [known] at found
        cases found
        rfl
      | none =>
        rw [known] at found
        dsimp only at found
        by_cases gone : accountHash ∈ diff.destructSet
        · rw [if_pos gone] at found
          cases found
          simp [gone]
        · rw [if_neg gone] at found
          simp only [gone, if_false]
          exact (coherent _ _ found).2
    · rw [if_neg covered] at found
      exact absurd (coherent _ _ found).1 covered
  | slot accountHash storageHash =>
    have destroyed : (if accountHash ∈ diff.destructSet ∧ coversAccount genMarker accountHash ∧
        diskdb (.slot accountHash storageHash) ≠ [] then none else cache (.slot accountHash storageHash)) = some blob →
        covers genMarker (.slot accountHash storageHash) = true ∧
          blob = if accountHash ∈ diff.destructSet ∧ coversAccount genMarker accountHash then []
            else diskdb (.slot accountHash storageHash) := by
      intro found
      split at found
      · cases found
      · next kept =>
        obtain ⟨covered, same⟩ := coherent _ _ found
        refine ⟨covered, ?_⟩
        split
        · next gone =>
          by_contra full
          exact kept ⟨gone.1, gone.2, same ▸ full⟩
        · exact same
    simp only [Diff.pushCache] at found
    simp only [Diff.push]
    cases known : (diff.storageData.lookup accountHash).bind fun storage => storage.lookup storageHash with
    | some data =>
      rw [known] at found
      dsimp only at found ⊢
      by_cases covered : coversStorage genMarker accountHash storageHash = true
      · rw [if_pos covered] at found
        rw [if_pos covered, ← coversStorage_eq]
        cases found
        exact ⟨covered, rfl⟩
      · rw [if_neg covered] at found
        rw [if_neg covered]
        exact destroyed found
    | none =>
      rw [known] at found
      exact destroyed found

end

end Snowside.Snapshot
