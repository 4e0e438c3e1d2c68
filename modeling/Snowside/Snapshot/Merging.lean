import Snowside.Partial.Checked
import Snowside.Snapshot.Whole

/-! A whole flattening keeps the invariant. -/

set_option autoImplicit false

namespace Snowside.Snapshot

open Ancestry (Ancestor IsParent Path)
open Checked (bind_eq_ok mapError_eq_ok)
open Blockchain (ChainBlock hash hash_injective)
open SnapshotBlock (stateRoot changes)

section

variable {Block ID Root Key Filter : Type} [ChainBlock Block ID] [SnapshotBlock Block Root Key] [LinearOrder Key]
  [BloomFilter Filter] [DecidableEq ID] [DecidableEq Root] {hashers : Hashers Key} {origin bottom block own : Block}
  {start : FlatState Key} {tree after : Tree ID Root Key Filter} {base id : Nat} {live : Block → Prop} {key : ID} {root : Root}
  {ref : Ref} {disk : DiskLayer ID Root Key} {layer : DiffLayer ID Root Key Filter}

/-- What a flattening does to the layers. -/
structure Flattens (hashers : Hashers Key) (key : ID) (tree after : Tree ID Root Key Filter) (id : Nat)
    (layer : DiffLayer ID Root Key Filter) (base : Nat) (disk : DiskLayer ID Root Key) (bare joined : Tree ID Root Key Filter) :
    Prop where
  listed : tree.blockLayers.lookup key = some (.diff id)
  found : tree.diffs id = some layer
  parent : layer.parent = .disk base
  current : tree.disks base = some disk
  fresh : disk.stale = false
  discarded : (tree.pushed layer base disk).discard disk.blockHash true = .ok bare
  joined_eq : joined = (bare.insertSnap (.disk tree.next) layer.blockHash layer.root).relink layer.blockHash tree.next
  bloomed : after = Tree.rebloom hashers joined.children tree.next (joined.next + 1) layer.blockHash joined

omit [ChainBlock Block ID] [SnapshotBlock Block Root Key] in
theorem flattens_of_flatten (flattened : tree.flatten hashers key = .ok after) :
    ∃ id layer base disk bare joined, Flattens hashers key tree after id layer base disk bare joined := by
  unfold Tree.flatten at flattened
  cases listed : tree.blockLayers.lookup key with
  | none =>
    rw [listed] at flattened
    cases flattened
  | some ref =>
    rw [listed] at flattened
    cases ref with
    | disk id =>
      dsimp only at flattened
      split at flattened <;> cases flattened
    | diff id =>
      dsimp only at flattened
      split at flattened
      · cases flattened
      · next layer found =>
        split at flattened
        · split at flattened <;> cases flattened
        · next base parent =>
          split at flattened
          · cases flattened
          · next disk current =>
            split at flattened
            · cases flattened
            · obtain ⟨merged, pushed, rest⟩ := bind_eq_ok.mp flattened
              obtain ⟨bare, discarded, ends⟩ := bind_eq_ok.mp rest
              have mergeable : disk.stale = false ∧ merged = tree.pushed layer base disk := by
                unfold Tree.diffToDisk at pushed
                split at pushed
                · cases pushed
                · next fresh => exact ⟨Bool.eq_false_iff.mpr fresh, (Except.ok.inj pushed).symm⟩
              obtain ⟨fresh, rfl⟩ := mergeable
              exact ⟨id, layer, base, disk, bare, _, listed, found, parent, current, fresh, mapError_eq_ok.mp discarded, rfl,
                (Except.ok.inj ends).symm⟩

omit [ChainBlock Block ID] [SnapshotBlock Block Root Key] [LinearOrder Key] [BloomFilter Filter] [DecidableEq Root] in
theorem mem_children {child : ID} : child ∈ tree.children key ↔ ∃ id layer, tree.blockLayers.lookup child = some (.diff id) ∧
    tree.diffs id = some layer ∧ tree.blockHashOf layer.parent = some key := by
  unfold Tree.children
  rw [List.mem_map]
  constructor
  · rintro ⟨⟨found, ref⟩, member, rfl⟩
    obtain ⟨member, fits⟩ := List.mem_filter.mp member
    cases ref with
    | disk id => cases fits
    | diff id =>
      obtain ⟨layer, there, onto⟩ := Option.bind_eq_some_iff.mp (of_decide_eq_true fits)
      exact ⟨id, layer, AList.mem_lookup_iff.mpr member, there, onto⟩
  · rintro ⟨id, layer, listed, there, onto⟩
    refine ⟨⟨child, .diff id⟩, List.mem_filter.mpr ⟨AList.mem_lookup_iff.mp listed, ?_⟩, rfl⟩
    exact decide_eq_true (Option.bind_eq_some_iff.mpr ⟨layer, there, onto⟩)

omit [LinearOrder Key] [SnapshotBlock Block Root Key] [BloomFilter Filter] [DecidableEq Root] in
theorem listed_of_lookup (listed : tree.blockLayers.lookup key = some (.diff id)) : tree.listed id = true :=
  List.any_eq_true.mpr ⟨⟨key, .diff id⟩, AList.mem_lookup_iff.mp listed, decide_eq_true rfl⟩

/-! ## The tree between -/

variable {bare between : Tree ID Root Key Filter} {last : Nat}

/-- The layer that is flattened is the one over the disk. -/
theorem Whole.merges (whole : Whole hashers origin start tree base bottom live)
    (flattens : Flattens hashers (hash block) tree after id layer last disk bare between) :
    last = base ∧ disk.blockHash = hash bottom ∧ layer.Stands hashers origin tree id block ∧ IsParent bottom block := by
  have same : last = base := by
    by_contra other
    cases flattens.fresh.symm.trans (whole.heap.former last disk flattens.current other).1
  subst same
  obtain ⟨known, there, named, -⟩ := whole.heap.disk
  obtain rfl := Option.some.inj (flattens.current.symm.trans there)
  obtain ⟨found_layer, found, named_layer⟩ := exists_diff (whole.named _ _ flattens.listed)
  obtain rfl := Option.some.inj (flattens.found.symm.trans found)
  obtain ⟨owner, stands⟩ := whole.heap.diffs id layer found
  obtain rfl : owner = block := hash_injective (stands.blockHash.symm.trans named_layer)
  obtain ⟨parent, step, at_parent⟩ := stands.parent
  rw [flattens.parent] at at_parent
  obtain ⟨other, same, named_parent⟩ := exists_disk at_parent
  obtain rfl := Option.some.inj (flattens.current.symm.trans same)
  obtain rfl : bottom = parent := hash_injective (named.symm.trans named_parent)
  exact ⟨rfl, named, stands, step⟩

/-- The listings between: the block has the new disk layer, and the one below is gone. -/
structure Joined (hashers : Hashers Key) (origin : Block) (start : FlatState Key) (tree joined : Tree ID Root Key Filter)
    (bottom block : Block) : Prop where
  heap : Heap hashers origin start joined tree.next block
  named : joined.Named
  listed : joined.Listed
  next : joined.next = tree.next + 1
  own : joined.blockLayers.lookup (hash block) = some (.disk tree.next)
  gone : joined.blockLayers.lookup (hash bottom) = none
  others : ∀ other, other ≠ hash block → other ≠ hash bottom →
    joined.blockLayers.lookup other = tree.blockLayers.lookup other
  diffs : ∀ id layer parent, tree.diffs id = some layer → tree.blockHashOf layer.parent = some parent →
    ∃ relinked, joined.diffs id = some relinked ∧
      relinked.parent = if joined.listed id ∧ parent = hash block then .disk tree.next else layer.parent

theorem Whole.joins (whole : Whole hashers origin start tree base bottom live)
    (flattens : Flattens hashers (hash block) tree after id layer last disk bare between) :
    Joined hashers origin start tree between bottom block := by
  obtain ⟨rfl, named_base, stands, step⟩ := whole.merges flattens
  have other : hash block ≠ hash bottom := by
    intro same
    have next := Ancestry.level_child step
    rw [hash_injective same] at next
    omega
  have shape := discarded_of_discard flattens.discarded
  rw [named_base] at shape
  have pushed_carries := carries_pushed layer whole.heap.fresh flattens.current
  have heap := whole.heap.push flattens.current stands flattens.parent
  have named := (whole.named.carried pushed_carries rfl).discard shape
  have listed := (whole.listed.mono pushed_carries rfl rfl).discard shape
  have blocks : bare.blockLayers = tree.blockLayers.erase (hash bottom) := by
    rw [shape.same]
    rfl
  have disks : bare.disks tree.next = some ⟨layer.root, layer.blockHash, false, disk.genMarker⟩ := by
    rw [shape.same]
    exact Function.update_self ..
  have diffs : bare.diffs = tree.diffs := by
    rw [shape.same]
    rfl
  have bare_heap : Heap hashers origin start bare tree.next block := by
    rw [shape.same]
    exact heap.relist _ _
  have at_new : bare.blockHashOf (.disk tree.next) = some (hash block) := Option.map_eq_some_iff.mpr ⟨_, disks, stands.blockHash⟩
  have root_new : bare.rootOf (.disk tree.next) = some layer.root := Option.map_eq_some_iff.mpr ⟨_, disks, rfl⟩
  have linked_eq := flattens.joined_eq
  rw [stands.blockHash] at linked_eq
  generalize snapped : bare.insertSnap (.disk tree.next) (hash block) layer.root = onto at linked_eq
  have over_layers : onto.disks = bare.disks ∧ onto.diffs = bare.diffs := by
    rw [← snapped]
    exact ⟨rfl, rfl⟩
  have over_blocks : onto.blockLayers = (tree.blockLayers.erase (hash bottom)).insert (hash block) (.disk tree.next) := by
    rw [← snapped, ← blocks]
    rfl
  have over_heap : Heap hashers origin start onto tree.next block := by
    rw [← snapped]
    exact bare_heap.relist _ _
  have over_named : onto.Named := by
    rw [← snapped]
    exact named.insertSnap at_new
  have over_listed : onto.Listed := by
    rw [← snapped]
    refine listed.insertSnap root_new fun other_root found filed => ?_
    obtain ⟨under, rooted⟩ := listed.filed other_root (hash block) found filed
    rw [blocks, AList.lookup_erase_ne other] at under
    obtain rfl := Option.some.inj (under.symm.trans flattens.listed)
    have mapped : (bare.diffs id).map DiffLayer.root = some other_root := rooted
    rw [diffs, flattens.found] at mapped
    exact (Option.some.inj mapped).symm
  have carries := carries_relink onto (hash block) tree.next
  rw [linked_eq]
  constructor
  case heap => exact over_heap.relink
  case named => exact over_named.carried carries rfl
  case listed => exact over_listed.mono carries rfl rfl
  case next =>
    show onto.next = _
    rw [← snapped]
    show bare.next = _
    rw [shape.same]
    rfl
  case own =>
    show onto.blockLayers.lookup _ = _
    rw [over_blocks, AList.lookup_insert]
  case gone =>
    show onto.blockLayers.lookup _ = _
    rw [over_blocks, AList.lookup_insert_ne other.symm, AList.lookup_erase]
  case others =>
    intro key apart not_bottom
    show onto.blockLayers.lookup _ = _
    rw [over_blocks, AList.lookup_insert_ne apart, AList.lookup_erase_ne not_bottom]
  case diffs =>
    intro id layer parent found there
    have kept : onto.blockHashOf layer.parent = some parent := by
      have named := pushed_carries.names _ _ there
      rw [← snapped]
      show bare.blockHashOf layer.parent = _
      rw [shape.same]
      exact named
    refine ⟨layer.relinked onto (hash block) tree.next id, ?_, ?_⟩
    · rw [diffs_relink, over_layers.2, diffs, found, Option.map_some]
    · unfold DiffLayer.relinked
      by_cases both : onto.listed id = true ∧ parent = hash block
      · rw [if_pos ⟨both.1, kept.trans (congrArg some both.2)⟩]
        exact (if_pos both).symm
      · rw [if_neg fun linked => both ⟨linked.1, Option.some.inj (kept.symm.trans linked.2)⟩]
        exact (if_neg both).symm

/-! ## The tree afterwards -/

omit [ChainBlock Block ID] [SnapshotBlock Block Root Key] in
/-- The layer is on the new disk layer, as far as that is generated. -/
theorem Flattens.pushed (flattens : Flattens hashers key tree after id layer base disk bare between) :
    after.disks tree.next = some ⟨layer.root, layer.blockHash, false, disk.genMarker⟩ ∧
      after.diskdb = layer.diff.push disk.genMarker tree.diskdb := by
  have rebloomed : Rebloomed tree.next between after := by
    rw [flattens.bloomed]
    exact rebloomed_rebloom _ _ _ _ _ _
  have shape := (discarded_of_discard flattens.discarded).same
  rw [rebloomed.same, flattens.joined_eq]
  show bare.disks tree.next = _ ∧ bare.diskdb = _
  rw [shape]
  exact ⟨Function.update_self .., rfl⟩

/-- A linked block over the one that is flattened is reached by the reblooming, and linked to the new disk layer. -/
theorem Whole.rejoins (whole : Whole hashers origin start tree base bottom live) (step : IsParent bottom block)
    (listed : tree.blockLayers.lookup (hash block) = some (.diff id)) (joined : Joined hashers origin start tree between bottom block)
    (bloomed : after = Tree.rebloom hashers between.children tree.next (between.next + 1) (hash block) between)
    (linked : Linked tree base bottom own) (above : Ancestor block own) (other : own ≠ block) :
    Linked after tree.next block own ∧ ∃ number, tree.blockLayers.lookup (hash own) = some (.diff number) ∧
      ∃ steps, steps ≤ number + 1 ∧ Reaches between.children steps (hash block) (hash own) := by
  have next := Ancestry.level_child step
  have rebloomed : Rebloomed tree.next between after := by
    rw [bloomed]
    exact rebloomed_rebloom _ _ _ _ _ _
  induction linked with
  | disk =>
    have low := above.level_le
    omega
  | @diff parent own number layer below isParent there found onto from_base ih =>
    have above_parent : Ancestor block parent := above.of_child (fun same => other same.symm) isParent
    have not_bottom : ∀ {high : Block}, Ancestor block high → hash high ≠ hash bottom := by
      intro high ancestor same
      have low := ancestor.level_le
      rw [hash_injective same] at low
      omega
    have own_block : hash own ≠ hash block := fun same => other (hash_injective same)
    have there_between : between.blockLayers.lookup (hash own) = some (.diff number) :=
      (joined.others _ own_block (not_bottom above)).trans there
    have at_parent := whole.named _ _ onto
    obtain ⟨relinked, found_between, parent_between⟩ := joined.diffs number layer _ found at_parent
    rw [listed_of_lookup there_between] at parent_between
    -- The link of the layer, and how far the reblooming has come at its parent.
    have link : between.blockLayers.lookup (hash parent) = some relinked.parent ∧ (∃ steps, steps ≤ number ∧
        Reaches between.children steps (hash block) (hash parent)) ∧ (parent = block ∨ Linked after tree.next block parent) := by
      by_cases same : parent = block
      · subst same
        rw [if_pos ⟨rfl, rfl⟩] at parent_between
        rw [parent_between]
        exact ⟨joined.own, ⟨0, Nat.zero_le _, .here _⟩, .inl rfl⟩
      · have parent_block : hash parent ≠ hash block := fun alike => same (hash_injective alike)
        rw [if_neg fun both => parent_block both.2] at parent_between
        obtain ⟨linked_parent, lower, listed_lower, steps, few, reaches⟩ := ih above_parent same
        rw [parent_between]
        refine ⟨(joined.others _ parent_block (not_bottom above_parent)).trans onto, ⟨steps, ?_, reaches⟩, .inr linked_parent⟩
        obtain ⟨owner, stands⟩ := whole.heap.diffs number layer found
        have smaller := stands.lower lower (Option.some.inj (onto.symm.trans listed_lower))
        omega
    obtain ⟨over_between, ⟨steps, few, reaches⟩, linked_parent⟩ := link
    have member : hash own ∈ between.children (hash parent) :=
      mem_children.mpr ⟨number, relinked, there_between, found_between, joined.named _ _ over_between⟩
    have reaches_own := reaches.snoc member
    have bounded : number < tree.next := by
      by_contra high
      rw [(whole.heap.fresh number (Nat.le_of_not_lt high)).2] at found
      cases found
    have at_new : At tree.next number after := by
      rw [bloomed]
      refine at_of_reaches reaches_own ?_ there_between
      rw [joined.next]
      omega
    obtain ⟨final, found_after, kept⟩ := rebloomed.layers number relinked found_between
    have lookup_after : ∀ key, after.blockLayers.lookup key = between.blockLayers.lookup key := by
      intro key
      rw [rebloomed.blockLayers]
    refine ⟨.diff ?_ isParent ((lookup_after _).trans there_between) found_after ?_ (at_new final found_after), number, there,
      steps + 1, by omega, reaches_own⟩
    · rcases linked_parent with rfl | linked_parent
      · exact .disk
      · exact linked_parent
    · rw [lookup_after, kept.parent]
      exact over_between

/-- The blocks over the one that is flattened stay live. -/
theorem Whole.flatten (whole : Whole hashers origin start tree base bottom live)
    (flattened : tree.flatten hashers (hash block) = .ok after) :
    Whole hashers origin start after tree.next block fun own => own = block ∨ live own ∧ Ancestor block own := by
  obtain ⟨id, layer, last, disk, bare, between, flattens⟩ := flattens_of_flatten flattened
  have joined := whole.joins flattens
  obtain ⟨rfl, named_base, stands, step⟩ := whole.merges flattens
  have bloomed := flattens.bloomed
  rw [stands.blockHash] at bloomed
  have rebloomed : Rebloomed tree.next between after := by
    rw [bloomed]
    exact rebloomed_rebloom _ _ _ _ _ _
  have blocks := rebloomed.blockLayers
  have states : after.stateLayers = between.stateLayers := by rw [rebloomed.same]
  have was : ∀ key ref, after.blockLayers.lookup key = some ref → key ≠ hash block →
      key ≠ hash bottom ∧ tree.blockLayers.lookup key = some ref := by
    intro key ref there apart
    rw [blocks] at there
    have not_bottom : key ≠ hash bottom := by
      rintro rfl
      cases joined.gone.symm.trans there
    exact ⟨not_bottom, (joined.others key apart not_bottom).symm.trans there⟩
  constructor
  case heap =>
    rw [bloomed]
    refine joined.heap.rebloom (fun parent child member => ?_) _ (.refl block) joined.named joined.own
    obtain ⟨number, layer, listed, found, onto⟩ := mem_children.mp member
    obtain ⟨own, stands⟩ := joined.heap.diffs number layer found
    obtain ⟨known, same, named⟩ := Option.map_eq_some_iff.mp (joined.named _ _ listed)
    obtain rfl := Option.some.inj (found.symm.trans same)
    obtain ⟨other, isParent, at_parent⟩ := stands.parent
    obtain rfl : other = parent := hash_injective (Option.some.inj (at_parent.symm.trans onto))
    exact ⟨own, stands.blockHash.symm.trans named, isParent⟩
  case named => exact joined.named.mono rebloomed
  case ground =>
    rw [blocks]
    exact joined.own
  case single =>
    intro key id there
    by_cases same : key = hash block
    · rw [blocks, same, joined.own] at there
      exact (Ref.disk.inj (Option.some.inj there)).symm
    · obtain ⟨not_bottom, before⟩ := was key _ there same
      obtain rfl := whole.single key id before
      have named := whole.named _ _ before
      exact absurd (Option.some.inj (named.symm.trans (whole.named _ _ whole.ground))) not_bottom
  case lowest =>
    intro own ref there ancestor
    by_contra other
    obtain ⟨not_bottom, before⟩ := was _ ref there fun same => other (hash_injective same)
    exact not_bottom (congrArg (fun found : Block => hash found) (whole.lowest own ref before (ancestor.of_child other step)))
  case listed => exact joined.listed.mono rebloomed.carries blocks states
  case linked =>
    intro own lives
    by_cases same : own = block
    · rw [same]
      exact .disk
    · obtain ⟨lives, above⟩ := lives.resolve_left same
      exact (whole.rejoins step flattens.listed joined bloomed (whole.linked own lives) above same).1

end

end Snowside.Snapshot
