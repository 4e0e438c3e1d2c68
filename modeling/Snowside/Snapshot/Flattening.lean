import Snowside.Snapshot.Steps

/-! A flattening: the bottom layer goes to the disk, and the layers over it are linked to the new disk layer. -/

set_option autoImplicit false

namespace Snowside.Snapshot

open Ancestry (Ancestor IsParent Path)
open Blockchain (ChainBlock hash hash_injective)
open SnapshotBlock (stateRoot changes)

section

variable {Block ID Root Key Filter : Type} [ChainBlock Block ID] [SnapshotBlock Block Root Key] [LinearOrder Key]
  [BloomFilter Filter] [DecidableEq ID] [DecidableEq Root] {hashers : Hashers Key} {origin block own : Block} {start : FlatState Key}
  {tree after : Tree ID Root Key Filter} {base id : Nat} {layer : DiffLayer ID Root Key Filter}

/-! ## To the disk -/

omit [SnapshotBlock Block Root Key] [BloomFilter Filter] [ChainBlock Block ID] [DecidableEq ID] [DecidableEq Root] in
theorem carries_pushed (layer : DiffLayer ID Root Key Filter) (fresh : ∀ id, tree.next ≤ id → tree.disks id = none ∧ tree.diffs id = none)
    {disk : DiskLayer ID Root Key} (current : tree.disks base = some disk) : Carries tree (tree.pushed layer base disk) where
  disks id found there := by
    have other : id ≠ tree.next := by
      intro same
      rw [(fresh id (Nat.le_of_eq same.symm)).1] at there
      cases there
    have kept : (tree.pushed layer base disk).disks id = Function.update tree.disks base (some { disk with stale := true }) id :=
      Function.update_of_ne other ..
    rw [kept]
    by_cases here : id = base
    · subst here
      obtain rfl := Option.some.inj (current.symm.trans there)
      exact ⟨_, Function.update_self .., rfl, rfl⟩
    · exact ⟨found, (Function.update_of_ne here ..).trans there, rfl, rfl⟩
  diffs _ found there := ⟨found, there, rfl, rfl⟩

omit [DecidableEq ID] [DecidableEq Root] in
/-- The bottom layer's block is then that of the disk. -/
theorem Heap.push (heap : Heap hashers origin start tree base block) {disk : DiskLayer ID Root Key}
    (current : tree.disks base = some disk) (stands : layer.Stands hashers origin tree id own)
    (over_base : layer.parent = .disk base) :
    Heap hashers origin start (tree.pushed layer base disk) tree.next own := by
  have names := (carries_pushed layer heap.fresh current).names
  obtain ⟨known, there, named, root, live, coherent, agrees⟩ := heap.disk
  obtain rfl : disk = known := Option.some.inj (current.symm.trans there)
  have step : IsParent block own := by
    obtain ⟨parent, step, at_parent⟩ := stands.parent
    rw [over_base] at at_parent
    obtain ⟨other, same, named_parent⟩ := exists_disk at_parent
    obtain rfl : disk = other := Option.some.inj (current.symm.trans same)
    obtain rfl : block = parent := hash_injective (named.symm.trans named_parent)
    exact step
  have above := Ancestry.level_child step
  have next_disk : (tree.pushed layer base disk).disks tree.next = some ⟨layer.root, layer.blockHash, false, disk.genMarker⟩ :=
    Function.update_self ..
  refine
    { rooted := heap.rooted.child step
      disk := ⟨_, next_disk, stands.blockHash, stands.root, rfl, coherent.push layer.diff, fun path leads item covered => ?_⟩
      former := fun other former there other_id => ?_
      diffs := fun other found there => ?_
      fresh := fun other high => ?_ }
  · obtain ⟨rest, rfl, lower⟩ := stands.path step leads
    show layer.diff.push disk.genMarker tree.diskdb item = _
    rw [layer.diff.push_of_covers covered, Diff.apply_eq, stands.diff, agrees rest lower item covered, ← Diff.apply_eq]
    unfold stateAfter
    rw [List.foldl_append]
    rfl
  · replace there : Function.update (Function.update tree.disks base _) tree.next _ other = some former := there
    rw [Function.update_of_ne other_id] at there
    have strictly : ∀ {old : Block}, Ancestor old block → old ≠ own := by
      rintro old below rfl
      have low := below.level_le
      omega
    by_cases here : other = base
    · subst here
      rw [Function.update_self] at there
      obtain rfl := Option.some.inj there
      exact ⟨rfl, block, named, .of_parent step, strictly (.refl block)⟩
    · rw [Function.update_of_ne here] at there
      obtain ⟨stale, old, named_old, below, -⟩ := heap.former other former there here
      exact ⟨stale, old, named_old, below.child step, strictly below⟩
  · obtain ⟨other_own, stood⟩ := heap.diffs other found there
    exact ⟨other_own, stood.mono names⟩
  · have high : tree.next + 1 ≤ other := high
    obtain ⟨disks, diffs⟩ := heap.fresh other (by omega)
    refine ⟨?_, diffs⟩
    show Function.update (Function.update tree.disks base _) tree.next _ other = none
    have apart : other ≠ base := by
      rintro rfl
      rw [disks] at current
      cases current
    rw [Function.update_of_ne (by omega), Function.update_of_ne apart]
    exact disks

/-! ## Links -/

/-- A layer after the links to the replaced layer are set to the disk. -/
def DiffLayer.relinked (tree : Tree ID Root Key Filter) (key : ID) (base id : Nat) (layer : DiffLayer ID Root Key Filter) :
    DiffLayer ID Root Key Filter :=
  if tree.listed id ∧ tree.blockHashOf layer.parent = some key then { layer with parent := .disk base } else layer

omit [ChainBlock Block ID] [SnapshotBlock Block Root Key] [LinearOrder Key] [BloomFilter Filter] [DecidableEq Root] in
theorem diffs_relink (tree : Tree ID Root Key Filter) (key : ID) (base id : Nat) :
    (tree.relink key base).diffs id = (tree.diffs id).map fun layer => layer.relinked tree key base id := rfl

omit [ChainBlock Block ID] [SnapshotBlock Block Root Key] [LinearOrder Key] [BloomFilter Filter] [DecidableEq Root] in
theorem carries_relink (tree : Tree ID Root Key Filter) (key : ID) (base : Nat) : Carries tree (tree.relink key base) where
  disks _ found there := ⟨found, there, rfl, rfl⟩
  diffs id found there := by
    refine ⟨found.relinked tree key base id, by rw [diffs_relink, there, Option.map_some], ?_⟩
    unfold DiffLayer.relinked
    split
    · exact ⟨rfl, rfl⟩
    · exact ⟨rfl, rfl⟩

omit [DecidableEq Root] in
theorem Heap.relink (heap : Heap hashers origin start tree base block) :
    Heap hashers origin start (tree.relink (hash block) base) base block := by
  have names := (carries_relink tree (hash block) base).names
  refine
    { rooted := heap.rooted
      disk := heap.disk
      former := heap.former
      diffs := fun id relinked there => ?_
      fresh := fun id high => ?_ }
  · obtain ⟨layer, found, rfl⟩ := Option.map_eq_some_iff.mp ((diffs_relink tree (hash block) base id).symm.trans there)
    obtain ⟨own, stands⟩ := heap.diffs id layer found
    refine ⟨own, ?_⟩
    unfold DiffLayer.relinked
    split
    · next linked =>
      obtain ⟨parent, step, at_parent⟩ := stands.parent
      obtain ⟨disk, current, named, -⟩ := heap.disk
      have at_base : tree.blockHashOf (.disk base) = some (hash block) := (congrArg (Option.map _) current).trans (congrArg some named)
      obtain rfl : parent = block := hash_injective (Option.some.inj (at_parent.symm.trans linked.2))
      have moved := stands.mono names
      exact
        { blockHash := moved.blockHash
          root := moved.root
          diff := moved.diff
          parent := ⟨parent, step, names _ _ at_base⟩
          lower := fun below impossible => (by cases impossible)
          filter := moved.filter }
    · exact stands.mono names
  · obtain ⟨disks, diffs⟩ := heap.fresh id high
    refine ⟨disks, ?_⟩
    rw [diffs_relink, diffs]
    rfl

/-! ## Filters -/

omit [DecidableEq ID] [DecidableEq Root] in
/-- Every disk layer is that of an ancestor. -/
theorem Heap.under (heap : Heap hashers origin start tree base block) {below : Block}
    (there : tree.blockHashOf (.disk id) = some (hash below)) : Ancestor below block := by
  obtain ⟨disk, found, named⟩ := exists_disk there
  by_cases last : id = base
  · subst last
    obtain ⟨known, current, named_base, -⟩ := heap.disk
    obtain rfl : disk = known := Option.some.inj (found.symm.trans current)
    obtain rfl : below = block := hash_injective (named.symm.trans named_base)
    exact .refl below
  · obtain ⟨-, old, named_old, under, -⟩ := heap.former id disk found last
    obtain rfl : below = old := hash_injective (named.symm.trans named_old)
    exact under

omit [DecidableEq ID] [DecidableEq Root] in
/-- The disk layer is where the filter of the layer begins. -/
theorem Heap.rebloomLayer (heap : Heap hashers origin start tree base block) (found : tree.diffs id = some layer)
    (stands : layer.Stands hashers origin tree id own) (above : Ancestor block own) (other : block ≠ own) :
    Heap hashers origin start (tree.rebloomLayer hashers base id) base block := by
  have changed : tree.rebloomLayer hashers base id =
      { tree with
        diffs := Function.update tree.diffs id
          (some { layer with origin := base, diffed := tree.bloom hashers layer.parent layer.diff }) } := by
    unfold Tree.rebloomLayer
    rw [found]
  rw [changed]
  have names : Names tree { tree with
      diffs := Function.update tree.diffs id
        (some { layer with origin := base, diffed := tree.bloom hashers layer.parent layer.diff }) } := by
    intro ref key there
    cases ref with
    | disk disk => exact there
    | diff diff =>
      show (Function.update tree.diffs id _ diff).map DiffLayer.blockHash = some key
      by_cases here : diff = id
      · subst here
        rw [Function.update_self]
        have there : (tree.diffs diff).map DiffLayer.blockHash = some key := there
        rw [found] at there
        exact there
      · rw [Function.update_of_ne here]
        exact there
  refine
    { rooted := heap.rooted
      disk := heap.disk
      former := heap.former
      diffs := fun other_id bloomed there => ?_
      fresh := fun other_id high => ?_ }
  · replace there : Function.update tree.diffs id _ other_id = some bloomed := there
    by_cases here : other_id = id
    · subst here
      rw [Function.update_self] at there
      obtain rfl := Option.some.inj there
      obtain ⟨parent, step, at_parent⟩ := stands.parent
      obtain ⟨disk, current, named, -⟩ := heap.disk
      have at_base : tree.blockHashOf (.disk base) = some (hash block) := (congrArg (Option.map _) current).trans (congrArg some named)
      have under : Ancestor block parent := above.of_child other step
      have held : Holds (tree.bloom hashers layer.parent layer.diff : Filter) ((changes own).bloomHashes hashers) ∧ ∀ between,
          Ancestor block between → block ≠ between → Ancestor between own →
          Holds (tree.bloom hashers layer.parent layer.diff : Filter) ((changes between).bloomHashes hashers) := by
        rw [stands.diff]
        refine ⟨holds_foldl_addHash _ _, holds_bloom tree layer.parent step (fun below lower over_diff there => ?_)
          (fun below over_diff => ?_) fun below over_disk => ?_⟩
        · rw [over_diff] at at_parent
          obtain ⟨known, same, named_lower⟩ := exists_diff at_parent
          obtain rfl : lower = known := Option.some.inj (there.symm.trans same)
          obtain ⟨owner, stood⟩ := heap.diffs below lower there
          obtain rfl : owner = parent := hash_injective (stood.blockHash.symm.trans named_lower)
          obtain ⟨lowest, at_origin, -, -, -, held⟩ := stood.filter
          have lower_base := heap.under at_origin
          intro between from_base apart further
          refine held between (lower_base.trans from_base) (fun same => apart ?_) further
          rw [same] at lower_base
          exact from_base.eq_of_level lower_base.level_le
        · rw [over_diff] at at_parent
          obtain ⟨known, same, -⟩ := exists_diff at_parent
          rw [same]
          exact Option.some_ne_none known
        · rw [over_disk] at at_parent
          exact under.eq_of_level (heap.under at_parent).level_le
      exact ⟨own,
        { blockHash := stands.blockHash
          root := stands.root
          diff := stands.diff
          parent := ⟨parent, step, names _ _ at_parent⟩
          lower := stands.lower
          filter := ⟨block, names _ _ at_base, heap.rooted, above, other, held.2⟩ }⟩
    · rw [Function.update_of_ne here] at there
      obtain ⟨other_own, stood⟩ := heap.diffs other_id bloomed there
      exact ⟨other_own, stood.mono names⟩
  · obtain ⟨disks, diffs⟩ := heap.fresh other_id high
    refine ⟨disks, ?_⟩
    show Function.update tree.diffs id _ other_id = none
    have apart : other_id ≠ id := by
      rintro rfl
      rw [diffs] at found
      cases found
    rw [Function.update_of_ne apart]
    exact diffs

end

end Snowside.Snapshot
