import Snowside.Snapshot.Flattening

/-! Filters that are rebuilt over a new disk layer, block after block. -/

set_option autoImplicit false

namespace Snowside.Snapshot

open Ancestry (Ancestor IsParent Path)
open Blockchain (ChainBlock hash hash_injective)
open SnapshotBlock (stateRoot changes)

/-! ## Folds -/

/-- What every step keeps, the fold keeps. -/
theorem foldl_keeps {Item State : Type} (holds : State → Prop) {step : State → Item → State} {items : List Item}
    (keeps : ∀ item ∈ items, ∀ state, holds state → holds (step state item)) {state : State} (first : holds state) :
    holds (items.foldl step state) := by
  induction items generalizing state with
  | nil => exact first
  | cons item rest ih =>
    exact ih (fun other member => keeps other (List.mem_cons_of_mem _ member)) (keeps item (List.mem_cons_self ..) state first)

/-- What the step of one item gives and all keep, the fold has. -/
theorem foldl_gives {Item State : Type} (holds : State → Prop) {gives : State → Prop} {step : State → Item → State} {items : List Item} {item : Item}
    (member : item ∈ items) (keeps : ∀ item ∈ items, ∀ state, holds state → holds (step state item))
    (given : ∀ state, holds state → gives (step state item))
    (stays : ∀ other ∈ items, ∀ state, holds state → gives state → gives (step state other)) {state : State} (first : holds state) :
    gives (items.foldl step state) := by
  induction items generalizing state with
  | nil => cases member
  | cons head rest ih =>
    have later := fun other member => keeps other (List.mem_cons_of_mem head member)
    have head_keeps := keeps head (List.mem_cons_self ..) state first
    rcases List.mem_cons.mp member with rfl | further
    · have both : holds (rest.foldl step (step state item)) ∧ gives (rest.foldl step (step state item)) :=
        foldl_keeps (fun state => holds state ∧ gives state)
          (fun other member state both => ⟨later other member state both.1,
            stays other (List.mem_cons_of_mem _ member) state both.1 both.2⟩) ⟨head_keeps, given state first⟩
      exact both.2
    · exact ih further later (fun other member => stays other (List.mem_cons_of_mem _ member)) head_keeps

section

variable {Block ID Root Key Filter : Type} [ChainBlock Block ID] [SnapshotBlock Block Root Key] [LinearOrder Key]
  [BloomFilter Filter] [DecidableEq ID] [DecidableEq Root] {hashers : Hashers Key} {origin block own : Block} {start : FlatState Key}
  {tree before after third : Tree ID Root Key Filter} {base id : Nat} {layer : DiffLayer ID Root Key Filter}

/-! ## What stays -/

/-- Another filter and perhaps the new origin, and else the same. -/
structure DiffLayer.Rebloomed (base : Nat) (old new : DiffLayer ID Root Key Filter) : Prop where
  parent : new.parent = old.parent
  blockHash : new.blockHash = old.blockHash
  root : new.root = old.root
  diff : new.diff = old.diff
  origin : old.origin = base → new.origin = base

structure Rebloomed (base : Nat) (before after : Tree ID Root Key Filter) : Prop where
  same : after = { before with diffs := after.diffs }
  absent : ∀ id, before.diffs id = none → after.diffs id = none
  layers : ∀ id old, before.diffs id = some old → ∃ new, after.diffs id = some new ∧ old.Rebloomed base new

namespace Rebloomed

omit [ChainBlock Block ID] [SnapshotBlock Block Root Key] [LinearOrder Key] [BloomFilter Filter] [DecidableEq ID] [DecidableEq Root]

theorem refl (base : Nat) (tree : Tree ID Root Key Filter) : Rebloomed base tree tree where
  same := rfl
  absent _ none := none
  layers _ old found := ⟨old, found, rfl, rfl, rfl, rfl, fun same => same⟩

theorem trans (first : Rebloomed base before after) (second : Rebloomed base after third) : Rebloomed base before third where
  same := by
    rw [second.same, first.same]
  absent id none := second.absent id (first.absent id none)
  layers id old found := by
    obtain ⟨middle, there, one⟩ := first.layers id old found
    obtain ⟨new, here, two⟩ := second.layers id middle there
    exact ⟨new, here, two.parent.trans one.parent, two.blockHash.trans one.blockHash, two.root.trans one.root,
      two.diff.trans one.diff, fun same => two.origin (one.origin same)⟩

variable (bloomed : Rebloomed base before after)

include bloomed

theorem carries : Carries before after where
  disks id layer found := by
    refine ⟨layer, ?_, rfl, rfl⟩
    rw [bloomed.same]
    exact found
  diffs id layer found := by
    obtain ⟨later, there, same⟩ := bloomed.layers id layer found
    exact ⟨later, there, same.blockHash, same.root⟩

theorem blockLayers : after.blockLayers = before.blockLayers := by
  rw [bloomed.same]

end Rebloomed

omit [LinearOrder Key] [DecidableEq ID] [DecidableEq Root] in
/-- The layer of a block is rebloomed. -/
theorem rebloomed_rebloomLayer (tree : Tree ID Root Key Filter) (hashers : Hashers Key) (base id : Nat) :
    Rebloomed base tree (tree.rebloomLayer hashers base id) := by
  unfold Tree.rebloomLayer
  cases found : tree.diffs id with
  | none => exact .refl base tree
  | some layer =>
    refine ⟨rfl, fun other none => ?_, fun other old there => ?_⟩
    · show Function.update tree.diffs id _ other = Option.none
      have apart : other ≠ id := by
        rintro rfl
        rw [found] at none
        cases none
      rw [Function.update_of_ne apart]
      exact none
    · by_cases here : other = id
      · subst here
        obtain rfl := Option.some.inj (found.symm.trans there)
        exact ⟨_, Function.update_self .., rfl, rfl, rfl, rfl, fun _ => rfl⟩
      · exact ⟨old, (Function.update_of_ne here _ _).trans there, rfl, rfl, rfl, rfl, fun same => same⟩

/-- The first step of a reblooming. -/
def Tree.rebloomBlock (hashers : Hashers Key) (base : Nat) (key : ID) (tree : Tree ID Root Key Filter) : Tree ID Root Key Filter :=
  match tree.blockLayers.lookup key with
  | some (.diff id) => tree.rebloomLayer hashers base id
  | _ => tree

omit [LinearOrder Key] [DecidableEq Root] in
theorem rebloom_succ (children : ID → List ID) (base fuel : Nat) (key : ID) (tree : Tree ID Root Key Filter) :
    Tree.rebloom hashers children base (fuel + 1) key tree =
      (children key).foldl (fun tree child => Tree.rebloom hashers children base fuel child tree)
        (tree.rebloomBlock hashers base key) := rfl

omit [LinearOrder Key] [DecidableEq Root] in
theorem rebloomed_rebloomBlock (tree : Tree ID Root Key Filter) (hashers : Hashers Key) (base : Nat) (key : ID) :
    Rebloomed base tree (tree.rebloomBlock hashers base key) := by
  unfold Tree.rebloomBlock
  split
  · exact rebloomed_rebloomLayer tree hashers base _
  · exact .refl base tree

omit [LinearOrder Key] [DecidableEq Root] in
theorem rebloomed_rebloom (hashers : Hashers Key) (children : ID → List ID) (base fuel : Nat) (key : ID) (tree : Tree ID Root Key Filter) :
    Rebloomed base tree (Tree.rebloom hashers children base fuel key tree) := by
  induction fuel generalizing key tree with
  | zero => exact .refl base tree
  | succ fuel ih =>
    rw [rebloom_succ]
    exact foldl_keeps (Rebloomed base tree) (fun child _ state so_far => so_far.trans (ih child state))
      (rebloomed_rebloomBlock tree hashers base key)

/-! ## Whom it reaches -/

/-- So many steps from a block to one over it. -/
inductive Reaches (children : ID → List ID) : Nat → ID → ID → Prop where
  | here (key : ID) : Reaches children 0 key key
  | child {steps : Nat} {key child target : ID} : child ∈ children key → Reaches children steps child target →
      Reaches children (steps + 1) key target

omit [ChainBlock Block ID] [SnapshotBlock Block Root Key] [LinearOrder Key] [BloomFilter Filter] [DecidableEq ID] [DecidableEq Root] in
theorem Reaches.snoc {children : ID → List ID} {steps : Nat} {key last target : ID} (reaches : Reaches children steps key last)
    (member : target ∈ children last) : Reaches children (steps + 1) key target := by
  induction reaches with
  | here key => exact .child member (.here target)
  | child first _ ih => exact .child first (ih member)

/-- A layer with the new origin. -/
def At (base id : Nat) (tree : Tree ID Root Key Filter) : Prop := ∀ layer, tree.diffs id = some layer → layer.origin = base

omit [LinearOrder Key] [BloomFilter Filter] [DecidableEq ID] [DecidableEq Root] in
theorem At.mono (there : At base id before) (bloomed : Rebloomed base before after) : At base id after := by
  intro layer found
  cases known : before.diffs id with
  | none =>
    rw [bloomed.absent id known] at found
    cases found
  | some old =>
    obtain ⟨new, same, rebloomed⟩ := bloomed.layers id old known
    obtain rfl := Option.some.inj (same.symm.trans found)
    exact rebloomed.origin (there old known)

omit [LinearOrder Key] [DecidableEq Root] in
/-- What a reblooming reaches has the new origin. -/
theorem at_of_reaches {children : ID → List ID} {steps fuel : Nat} {key target : ID} (reaches : Reaches children steps key target)
    (enough : steps < fuel) {tree : Tree ID Root Key Filter} (listed : tree.blockLayers.lookup target = some (.diff id)) :
    At base id (Tree.rebloom hashers children base fuel key tree) := by
  induction reaches generalizing fuel tree with
  | here key =>
    obtain ⟨fuel, rfl⟩ : ∃ less, fuel = less + 1 := ⟨fuel - 1, by omega⟩
    have own : At base id (tree.rebloomBlock hashers base key) := by
      unfold Tree.rebloomBlock
      rw [listed]
      intro layer found
      dsimp only at found
      unfold Tree.rebloomLayer at found
      cases known : tree.diffs id with
      | none =>
        rw [known] at found
        rw [known] at found
        cases found
      | some old =>
        rw [known] at found
        have found : Function.update tree.diffs id (some { old with
            origin := base, diffed := tree.bloom hashers old.parent old.diff }) id = some layer := found
        rw [Function.update_self] at found
        obtain rfl := Option.some.inj found
        rfl
    rw [rebloom_succ]
    exact foldl_keeps (At base id) (fun child _ state there => there.mono (rebloomed_rebloom hashers children base fuel child state)) own
  | @child steps key child target member _ ih =>
    obtain ⟨fuel, rfl⟩ : ∃ less, fuel = less + 1 := ⟨fuel - 1, by omega⟩
    rw [rebloom_succ]
    refine foldl_gives (fun state => state.blockLayers.lookup target = some (.diff id)) member
      (fun child _ state listed => ?_) (fun state listed => ih (by omega) listed)
      (fun other _ state _ there => there.mono (rebloomed_rebloom hashers children base fuel other state)) ?_
    · rw [(rebloomed_rebloom hashers children base fuel child state).blockLayers]
      exact listed
    · rw [(rebloomed_rebloomBlock tree hashers base key).blockLayers]
      exact listed

/-! ## The layers after it -/

/-- Every block is listed with a layer of its own. -/
def Tree.Named (tree : Tree ID Root Key Filter) : Prop :=
  ∀ key ref, tree.blockLayers.lookup key = some ref → tree.blockHashOf ref = some key

omit [BloomFilter Filter] [LinearOrder Key] [SnapshotBlock Block Root Key] [DecidableEq Root] [ChainBlock Block ID] in
theorem Tree.Named.mono (named : before.Named) (bloomed : Rebloomed base before after) : after.Named := by
  intro key ref listed
  rw [bloomed.blockLayers] at listed
  exact bloomed.carries.names ref key (named key ref listed)

omit [DecidableEq Root] in
/-- Reblooming the blocks over that of the disk keeps the layers. -/
theorem Heap.rebloom {children : ID → List ID}
    (family : ∀ parent : Block, ∀ child ∈ children (hash parent), ∃ own : Block, hash own = child ∧ IsParent parent own)
    (fuel : Nat) {onto : Block} (above : Ancestor block onto) (heap : Heap hashers origin start tree base block) (named : tree.Named)
    (bottom : tree.blockLayers.lookup (hash block) = some (.disk base)) :
    Heap hashers origin start (Tree.rebloom hashers children base fuel (hash onto) tree) base block := by
  induction fuel generalizing onto tree with
  | zero => exact heap
  | succ fuel ih =>
    have first : Heap hashers origin start (tree.rebloomBlock hashers base (hash onto)) base block := by
      unfold Tree.rebloomBlock
      split
      · next id listed =>
        obtain ⟨layer, found, same⟩ := exists_diff (named _ _ listed)
        obtain ⟨own, stands⟩ := heap.diffs id layer found
        obtain rfl : own = onto := hash_injective (stands.blockHash.symm.trans same)
        refine heap.rebloomLayer found stands above ?_
        rintro rfl
        cases bottom.symm.trans listed
      · exact heap
    have bloomed := rebloomed_rebloomBlock tree hashers base (hash onto)
    rw [rebloom_succ]
    refine (foldl_keeps (fun state : Tree ID Root Key Filter => Heap hashers origin start state base block ∧ state.Named ∧
      state.blockLayers.lookup (hash block) = some (.disk base)) (fun child member state holds => ?_)
      ⟨first, named.mono bloomed, ?_⟩).1
    · obtain ⟨heap, named, bottom⟩ := holds
      obtain ⟨own, rfl, step⟩ := family onto child member
      have after := rebloomed_rebloom hashers children base fuel (hash own) state
      refine ⟨ih (above.child step) heap named bottom, named.mono after, ?_⟩
      rw [after.blockLayers]
      exact bottom
    · rw [bloomed.blockLayers]
      exact bottom

end

end Snowside.Snapshot
