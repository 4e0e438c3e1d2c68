import Snowside.Snapshot.Listings

/-! Layers from which listed layers lead to the disk, and what exactly a read through them answers. -/

set_option autoImplicit false

namespace Snowside.Snapshot

open Ancestry (Ancestor IsParent Path)
open Blockchain (ChainBlock hash hash_injective)
open SnapshotBlock (stateRoot changes)

section

variable {Block ID Root Key Filter : Type} [ChainBlock Block ID] [SnapshotBlock Block Root Key] [LinearOrder Key]

/-! ## Answers -/

/-- Some block of the path changes the item. -/
def changed (path : List Block) (item : Item Key) : Bool := path.any fun block => ((changes block).find item).isSome

/-- The item after the blocks of a path over the disk, if one of them changes it or the disk has it. -/
def answer (genMarker : Option (Marker Key)) (diskdb : Item Key → Bytes) (path : List Block) (item : Item Key) :
    Except ReadError Bytes :=
  if covers genMarker item || changed path item then .ok (stateAfter diskdb path item) else .error .notCoveredYet

variable {genMarker : Option (Marker Key)} {diskdb : Item Key → Bytes} {first second : FlatState Key} {path : List Block}
  {item : Item Key}

theorem stateAfter_concat (start : FlatState Key) (path : List Block) (block : Block) (item : Item Key) :
    stateAfter start (path ++ [block]) item = ((changes block).find item).getD (stateAfter start path item) := by
  unfold stateAfter
  rw [List.foldl_append]
  exact Diff.apply_eq ..

theorem changed_concat (path : List Block) (block : Block) (item : Item Key) :
    changed (path ++ [block]) item = (changed path item || ((changes block).find item).isSome) := by
  simp [changed]

/-- An item is after a path what it was before, or what the path makes of it. -/
theorem stateAfter_same (same : first item = second item ∨ changed path item = true) :
    stateAfter first path item = stateAfter second path item := by
  induction path using List.reverseRecOn with
  | nil =>
    rcases same with same | impossible
    · exact same
    · cases impossible
  | append_singleton rest last ih =>
    rw [stateAfter_concat, stateAfter_concat]
    cases known : (changes last).find item with
    | some data => rfl
    | none =>
      rw [changed_concat, known, Option.isSome_none, Bool.or_false] at same
      exact ih same

/-- The answer of a layer is its own or that of the layer below. -/
theorem answer_concat (genMarker : Option (Marker Key)) (diskdb : Item Key → Bytes) (path : List Block) (block : Block)
    (item : Item Key) : answer genMarker diskdb (path ++ [block]) item =
      match (changes block).find item with
      | some data => .ok data
      | none => answer genMarker diskdb path item := by
  unfold answer
  rw [changed_concat, stateAfter_concat]
  cases known : (changes block).find item with
  | some data => simp
  | none => simp

theorem answer_unchanged (absent : changed path item = false) :
    answer genMarker diskdb path item = answer genMarker diskdb ([] : List Block) item := by
  have same : ∀ start : FlatState Key, stateAfter start path item = start item := by
    intro start
    induction path using List.reverseRecOn with
    | nil => rfl
    | append_singleton rest last ih =>
      rw [changed_concat, Bool.or_eq_false_iff] at absent
      rw [stateAfter_concat, ih absent.1, Option.isSome_eq_false_iff.mp absent.2 |> Option.isNone_iff_eq_none.mp]
      rfl
  unfold answer
  rw [absent, same]
  rfl

/-- With the bottom block on the disk, an item that is not covered is known only if a block above it changes it. -/
theorem answer_push (genMarker : Option (Marker Key)) (diskdb : Item Key → Bytes) (bottom : Block) (path : List Block)
    (item : Item Key) : answer genMarker ((changes bottom).push genMarker diskdb) path item =
      if covers genMarker item || changed path item then answer genMarker diskdb (bottom :: path) item
      else .error .notCoveredYet := by
  have above : changed (bottom :: path) item = (((changes bottom).find item).isSome || changed path item) := rfl
  unfold answer
  by_cases known : (covers genMarker item || changed path item) = true
  · have more : (covers genMarker item || changed (bottom :: path) item) = true := by
      rw [above]
      rcases Bool.or_eq_true_iff.mp known with covered | later
      · rw [covered, Bool.true_or]
      · rw [later, Bool.or_true, Bool.or_true]
    rw [if_pos known, if_pos known, if_pos more]
    refine congrArg Except.ok (stateAfter_same ?_)
    rcases Bool.or_eq_true_iff.mp known with covered | later
    · exact .inl (Diff.push_of_covers _ covered)
    · exact .inr later
  · rw [if_neg known, if_neg known]

/-! ## Linked layers -/

variable [DecidableEq ID] [DecidableEq Root]

/-- From the layer of the block, listed layers lead to the disk. -/
inductive Linked (tree : Tree ID Root Key Filter) (base : Nat) (bottom : Block) : Block → Prop where
  | disk : Linked tree base bottom bottom
  | diff {parent own : Block} {id : Nat} {layer : DiffLayer ID Root Key Filter} : Linked tree base bottom parent →
      IsParent parent own → tree.blockLayers.lookup (hash own) = some (.diff id) → tree.diffs id = some layer →
      tree.blockLayers.lookup (hash parent) = some layer.parent → layer.origin = base → Linked tree base bottom own

variable {tree after : Tree ID Root Key Filter} {base id : Nat} {bottom own block origin : Block} {start : FlatState Key}
  {layer : DiffLayer ID Root Key Filter} {ref : Ref}

omit [SnapshotBlock Block Root Key] [LinearOrder Key] [DecidableEq Root] in
theorem Linked.above (linked : Linked tree base bottom own) : Ancestor bottom own := by
  induction linked with
  | disk => exact .refl bottom
  | diff _ step _ _ _ _ ih => exact ih.child step

omit [SnapshotBlock Block Root Key] [LinearOrder Key] [DecidableEq Root] in
/-- A block stays linked if the listings and the layers down from it stay. -/
theorem Linked.transfer (linked : Linked tree base bottom own) {keep : Block → Prop}
    (closed : ∀ parent child, IsParent parent child → keep child → keep parent) (kept : keep own)
    (listed : ∀ other, keep other → after.blockLayers.lookup (hash other) = tree.blockLayers.lookup (hash other))
    (layers : ∀ id layer, tree.diffs id = some layer → after.diffs id = some layer) : Linked after base bottom own := by
  induction linked with
  | disk => exact .disk
  | @diff parent own id layer _ step there found onto from_base ih =>
    have under := closed parent own step kept
    exact .diff (ih under) step ((listed own kept).trans there) (layers id layer found) ((listed parent under).trans onto) from_base

omit [SnapshotBlock Block Root Key] [LinearOrder Key] [DecidableEq Root] in
/-- The blocks that are not over a block. -/
theorem Linked.transfer_apart (linked : Linked tree base bottom own) (apart : ¬ Ancestor block own)
    (listed : ∀ other : Block, ¬ Ancestor block other → after.blockLayers.lookup (hash other) = tree.blockLayers.lookup (hash other))
    (layers : ∀ id layer, tree.diffs id = some layer → after.diffs id = some layer) : Linked after base bottom own :=
  linked.transfer (fun _ _ step apart ancestor => apart (ancestor.child step)) apart listed layers

omit [SnapshotBlock Block Root Key] [LinearOrder Key] [DecidableEq Root] in
theorem Linked.listed (linked : Linked tree base bottom own) (there : tree.blockLayers.lookup (hash bottom) = some (.disk base)) :
    ∃ ref, tree.blockLayers.lookup (hash own) = some ref ∧ tree.originOver ref = some base := by
  cases linked with
  | disk => exact ⟨_, there, rfl⟩
  | @diff parent _ id layer _ _ listed found _ from_base =>
    refine ⟨_, listed, ?_⟩
    show (tree.diffs id).map DiffLayer.origin = some base
    rw [found, Option.map_some, from_base]

/-! ## Reads through them -/

variable [BloomFilter Filter] {hashers : Hashers Key} {disk : DiskLayer ID Root Key}

omit [DecidableEq ID] [DecidableEq Root] in
theorem Heap.readDisk_base (heap : Heap hashers origin start tree base bottom) (current : tree.disks base = some disk)
    (item : Item Key) : (tree.readDisk base item).1 = answer disk.genMarker tree.diskdb ([] : List Block) item := by
  obtain ⟨known, there, -, -, live, coherent, -⟩ := heap.disk
  obtain rfl : disk = known := Option.some.inj (current.symm.trans there)
  unfold Tree.readDisk answer
  rw [current]
  dsimp only
  rw [live, if_neg Bool.false_ne_true]
  by_cases covered : covers disk.genMarker item = true
  · rw [covered, if_neg Bool.noConfusion, Bool.true_or, if_pos rfl]
    cases cached : tree.cache item with
    | none => rfl
    | some blob => exact congrArg Except.ok (coherent item blob cached).2
  · have uncovered := Bool.eq_false_iff.mpr covered
    rw [if_pos uncovered, uncovered]
    rfl

variable (heap : Heap hashers origin start tree base bottom) (named : tree.Named)
  (there : tree.blockLayers.lookup (hash bottom) = some (.disk base)) (current : tree.disks base = some disk)

include heap named there current

omit [DecidableEq Root] in
/-- The maps are asked from the layer of the block downwards. -/
theorem Linked.readMaps (linked : Linked tree base bottom own) (leads : Path bottom path own)
    (listed : tree.blockLayers.lookup (hash own) = some (.diff id)) {fuel : Nat} (enough : id < fuel) (item : Item Key) :
    (tree.readMaps fuel id item).1 = answer disk.genMarker tree.diskdb path item := by
  induction linked generalizing id fuel path with
  | disk => cases there.symm.trans listed
  | @diff parent own number layer below step listed_own found onto from_base ih =>
    obtain rfl : number = id := Ref.diff.inj (Option.some.inj (listed_own.symm.trans listed))
    obtain ⟨owner, stands⟩ := heap.diffs number layer found
    obtain ⟨known, same, named_own⟩ := exists_diff (named _ _ listed)
    obtain rfl := Option.some.inj (found.symm.trans same)
    obtain rfl : owner = own := hash_injective (stands.blockHash.symm.trans named_own)
    obtain ⟨fuel, rfl⟩ : ∃ less, fuel = less + 1 := ⟨fuel - 1, by omega⟩
    rcases leads.exists_last with ⟨-, same⟩ | ⟨rest, lower_block, rfl, lower, isParent⟩
    · rw [same] at below
      have low := below.above.level_le
      have next := Ancestry.level_child step
      omega
    obtain rfl := Ancestry.parent_unique step isParent
    unfold Tree.readMaps
    rw [found]
    dsimp only
    rw [stands.diff, answer_concat]
    cases known : (changes owner).find item with
    | some data => rfl
    | none =>
      cases at_parent : layer.parent with
      | diff under =>
        rw [at_parent] at onto
        have smaller := stands.lower under at_parent
        exact ih lower onto (by omega)
      | disk under =>
        rw [at_parent] at onto
        cases below with
        | disk =>
          cases there.symm.trans onto
          obtain rfl : rest = [] := lower.unique rfl
          exact heap.readDisk_base current item
        | diff _ _ listed_parent _ _ _ => cases listed_parent.symm.trans onto

omit [DecidableEq Root] in
/-- A read through a linked layer answers what the blocks over the disk make of it, whatever the filter says. -/
theorem Linked.read (linked : Linked tree base bottom own) (leads : Path bottom path own)
    (listed : tree.blockLayers.lookup (hash own) = some ref) (item : Item Key) :
    (tree.read hashers ref item).1 = answer disk.genMarker tree.diskdb path item := by
  cases ref with
  | disk id =>
    cases linked with
    | disk =>
      cases there.symm.trans listed
      obtain rfl : path = [] := leads.unique rfl
      exact heap.readDisk_base current item
    | diff _ _ listed_own _ _ _ => cases listed_own.symm.trans listed
  | diff id =>
    show (tree.readDiff hashers id item).1 = _
    obtain ⟨onto, same_origin⟩ := linked.listed there
    obtain ⟨layer, found, named_own⟩ := exists_diff (named _ _ listed)
    obtain ⟨owner, stands⟩ := heap.diffs id layer found
    obtain rfl : owner = own := hash_injective (stands.blockHash.symm.trans named_own)
    unfold Tree.readDiff
    rw [found]
    dsimp only
    split
    · exact linked.readMaps heap named there current leads listed (Nat.lt_succ_self id) item
    · next missed =>
      obtain rfl : onto = .diff id := Option.some.inj (same_origin.1.symm.trans listed)
      have from_base : layer.origin = base := by
        have mapped : (tree.diffs id).map DiffLayer.origin = some base := same_origin.2
        rw [found] at mapped
        exact Option.some.inj mapped
      obtain ⟨below, at_origin, _, _, _, held⟩ := stands.filter
      rw [from_base] at at_origin
      obtain ⟨known, same, named_below⟩ := exists_disk at_origin
      obtain rfl := Option.some.inj (current.symm.trans same)
      obtain ⟨_, same', named_bottom, -⟩ := heap.disk
      obtain rfl := Option.some.inj (current.symm.trans same')
      obtain rfl : below = bottom := hash_injective (named_below.symm.trans named_bottom)
      have absent : changed path item = false := by
        refine List.any_eq_false.mpr fun block member => ?_
        obtain ⟨from_below, other, further⟩ := leads.between member
        cases known : (changes block).find item with
        | none => exact Bool.false_ne_true
        | some data =>
          exfalso
          refine missed ?_
          rw [Bool.or_eq_true]
          exact ((changes block).bloomHashes_of_find hashers known).imp (held block from_below other further _)
            (held block from_below other further _)
      rw [answer_unchanged absent, from_base]
      exact heap.readDisk_base current item

end

end Snowside.Snapshot
