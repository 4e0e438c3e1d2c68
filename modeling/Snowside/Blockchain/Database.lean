import Mathlib.Logic.Function.Basic
import Snowside.Chain.Ancestry

/-! The blocks of a chain, the index from numbers to hashes, and the batches that change them. -/

set_option autoImplicit false

namespace Snowside.Blockchain

open Ancestry (Lineage IsParent Ancestor Path)

/-- What the chain reads of a block. -/
class ChainBlock (Block : Type) (Hash : outParam Type) where
  hash : Block → Hash
  parentHash : Block → Hash
  number : Block → Nat
  hash_injective : Function.Injective hash

export ChainBlock (hash parentHash number hash_injective)

section

variable {Block Hash : Type} [ChainBlock Block Hash]

instance : Lineage Block where
  IsParent parent child := hash parent = parentHash child ∧ number child = number parent + 1
  level := number
  level_child step := step.2
  parent_unique one other := hash_injective (one.1.trans other.1.symm)

theorem number_child {parent child : Block} (step : IsParent parent child) : number child = number parent + 1 := step.2

theorem number_le {ancestor child : Block} (ancestry : Ancestor ancestor child) : number ancestor ≤ number child :=
  ancestry.level_le

end

/-! ## The index of canonical hashes -/

/-- The hashes by number. No number from the bound on has one. -/
structure Index (Hash : Type) where
  entries : Nat → Option Hash
  bound : Nat
  beyond : ∀ number, bound ≤ number → entries number = none

namespace Index

variable {Hash : Type} (index : Index Hash)

def write (number : Nat) (hash : Hash) : Index Hash where
  entries := Function.update index.entries number (some hash)
  bound := max index.bound (number + 1)
  beyond other high := by
    rw [Function.update_of_ne (by omega)]
    exact index.beyond other (by omega)

def delete (numbers : List Nat) : Index Hash where
  entries number := if number ∈ numbers then none else index.entries number
  bound := index.bound
  beyond number high := by
    rw [index.beyond number high, ite_self]

/-- The numbers that have a hash, from one on up to the first gap. -/
def assigned : Nat → Nat → List Nat
  | 0, _ => []
  | fuel + 1, number =>
      match index.entries number with
      | none => []
      | some _ => number :: assigned fuel (number + 1)

@[simp] theorem write_self (number : Nat) (hash : Hash) : (index.write number hash).entries number = some hash :=
  Function.update_self ..

theorem write_of_ne {number other : Nat} (distinct : other ≠ number) (hash : Hash) :
    (index.write number hash).entries other = index.entries other :=
  Function.update_of_ne distinct ..

theorem delete_entries (numbers : List Nat) (number : Nat) :
    (index.delete numbers).entries number = if number ∈ numbers then none else index.entries number := rfl

/-- From the base on, exactly the numbers up to the top have a hash. -/
def Filled (base top : Nat) : Prop := ∀ number, base ≤ number → ((index.entries number).isSome ↔ number ≤ top)

variable {index} {base top : Nat}

theorem Filled.write {number : Nat} (filled : index.Filled base top) (near : number ≤ top + 1) (hash : Hash) :
    (index.write number hash).Filled base (max top number) := by
  intro other low
  by_cases same : other = number
  · subst same
    simp [Nat.le_max_right]
  · rw [index.write_of_ne same, filled other low]
    omega

/-- The loop finds all numbers up to the top. -/
theorem Filled.mem_assigned (filled : index.Filled base top) {fuel start number : Nat} (enough : top < fuel + start)
    (based : base ≤ start) : number ∈ index.assigned fuel start ↔ start ≤ number ∧ number ≤ top := by
  induction fuel generalizing start with
  | zero =>
    simp only [assigned, List.not_mem_nil, false_iff]
    omega
  | succ fuel ih =>
    cases found : index.entries start with
    | none =>
      have high : ¬ start ≤ top := by
        rw [← filled start based, found]
        exact Bool.false_ne_true
      simp only [assigned, found, List.not_mem_nil, false_iff]
      omega
    | some hash =>
      have low : start ≤ top := (filled start based).mp (by rw [found]; rfl)
      simp only [assigned, found, List.mem_cons, ih (show top < fuel + (start + 1) by omega) (by omega)]
      omega

theorem Filled.top_lt (filled : index.Filled base top) (low : base ≤ top) : top < index.bound := by
  by_contra high
  have present := (filled top low).mpr (Nat.le_refl _)
  rw [index.beyond top (by omega)] at present
  cases present

/-- Without the numbers that the loop finds, the index ends at the height. -/
theorem Filled.delete_assigned (filled : index.Filled base top) (low : base ≤ top) {height : Nat} (based : base ≤ height) :
    (index.delete (index.assigned index.bound (height + 1))).Filled base (min top height) := by
  intro other from_base
  have high := filled.top_lt low
  rw [delete_entries, ← ite_not]
  simp only [filled.mem_assigned (show top < index.bound + (height + 1) by omega) (show base ≤ height + 1 by omega)]
  split
  · rw [filled other from_base]
    omega
  · refine ⟨fun impossible => (nomatch impossible), fun low => ?_⟩
    omega

end Index

/-! ## The database -/

section

variable (Block Hash : Type) [ChainBlock Block Hash]

/-- The stored blocks, each under its own hash, the canonical hashes and the hash of the head. -/
structure Database where
  blocks : Hash → Option Block
  canonical : Index Hash
  headBlockHash : Hash
  keyed : ∀ key block, blocks key = some block → hash block = key

end

variable {Block Hash : Type} [ChainBlock Block Hash]

/-- What one batch changes. -/
inductive Write (Block : Type) where
  | block : Block → Write Block
  | deleteBlock : Block → Write Block
  /-- The block as the canonical one at its number, and as the head. -/
  | headBlock : Block → Write Block
  | deleteCanonicalHashes : List Nat → Write Block

namespace Database

section

variable (db : Database Block Hash)

/-- The block of the hash, if it has the number. -/
def getBlock (key : Hash) (height : Nat) : Option Block := (db.blocks key).filter fun block => number block = height

/-- The block below: under number zero the number wraps around to one that no block has. -/
def getParent (block : Block) : Option Block :=
  match number block with
  | 0 => none
  | below + 1 => db.getBlock (parentHash block) below

def getCanonicalHash (height : Nat) : Option Hash := db.canonical.entries height

def getBlockByNumber (height : Nat) : Option Block :=
  (db.getCanonicalHash height).bind fun key => db.getBlock key height

/-- The numbers above a new head that have a hash, up to the first gap. -/
def uselessIndexes (height : Nat) : List Nat := db.canonical.assigned db.canonical.bound (height + 1)

def Stored (block : Block) : Prop := db.blocks (hash block) = some block

variable {db}

/-- The index has the hash of every block from the base down to the tip. -/
def Follows (db : Database Block Hash) (base tip : Block) : Prop :=
  ∀ block, Ancestor base block → Ancestor block tip → db.canonical.entries (number block) = some (hash block)

theorem Follows.ancestor {base tip block : Block} (follows : db.Follows base tip) (above : Ancestor block tip) :
    db.Follows base block :=
  fun other based further => follows other based (further.trans above)

theorem mem_uselessIndexes {base top : Nat} (filled : db.canonical.Filled base top) (low : base ≤ top) {height other : Nat}
    (based : base ≤ height) : other ∈ db.uselessIndexes height ↔ height < other ∧ other ≤ top := by
  have high := filled.top_lt low
  exact filled.mem_assigned (by omega) (by omega)

theorem getBlock_eq_some {key : Hash} {height : Nat} {block : Block} :
    db.getBlock key height = some block ↔ db.blocks key = some block ∧ number block = height := by
  rw [getBlock, Option.filter_eq_some_iff]
  simp

theorem getParent_eq_some {block parent : Block} :
    db.getParent block = some parent ↔ IsParent parent block ∧ db.Stored parent := by
  unfold getParent Stored
  cases height : number block with
  | zero =>
    refine ⟨fun found => (nomatch found), fun ⟨step, _⟩ => ?_⟩
    have := number_child step
    omega
  | succ below =>
    simp only [getBlock_eq_some]
    constructor
    · rintro ⟨found, same⟩
      have named := db.keyed _ _ found
      exact ⟨⟨named, by rw [height, same]⟩, by rw [named]; exact found⟩
    · rintro ⟨step, stored⟩
      have next := number_child step
      exact ⟨by rw [← step.1]; exact stored, by omega⟩

end

variable [DecidableEq Hash] (db : Database Block Hash)

def apply : Write Block → Database Block Hash
  | .block block =>
      { db with
        blocks := Function.update db.blocks (hash block) (some block)
        keyed key other found := by
          by_cases same : key = hash block
          · subst same
            rw [Function.update_self] at found
            rw [Option.some.inj found]
          · rw [Function.update_of_ne same] at found
            exact db.keyed key other found }
  | .deleteBlock block =>
      { db with
        blocks := Function.update db.blocks (hash block) none
        keyed key other found := by
          by_cases same : key = hash block
          · rw [same, Function.update_self] at found
            cases found
          · rw [Function.update_of_ne same] at found
            exact db.keyed key other found }
  | .headBlock block =>
      { db with canonical := db.canonical.write (number block) (hash block), headBlockHash := hash block }
  | .deleteCanonicalHashes numbers => { db with canonical := db.canonical.delete numbers }

def applyAll (writes : List (Write Block)) : Database Block Hash := writes.foldl apply db

@[simp] theorem applyAll_append (first second : List (Write Block)) :
    db.applyAll (first ++ second) = (db.applyAll first).applyAll second := List.foldl_append

theorem applyAll_headBlock_blocks (blocks : List Block) : (db.applyAll (blocks.map .headBlock)).blocks = db.blocks := by
  induction blocks generalizing db with
  | nil => rfl
  | cons block rest ih => exact ih (db.apply (.headBlock block))

/-! ### The index after a batch -/

variable {db} {base : Block}

theorem Follows.headBlock {parent block : Block} (follows : db.Follows base parent) (step : IsParent parent block) :
    (db.apply (.headBlock block)).Follows base block := by
  intro other based above
  show (db.canonical.write (number block) (hash block)).entries (number other) = some (hash other)
  rcases above.eq_or_parent with rfl | ⟨found, isParent, further⟩
  · exact Index.write_self ..
  · obtain rfl := Ancestry.parent_unique step isParent
    have low := number_le further
    have next := number_child step
    rw [Index.write_of_ne _ (by omega)]
    exact follows other based further

theorem Follows.headBlock_self {block : Block} (follows : db.Follows base block) :
    (db.apply (.headBlock block)).Follows base block := by
  intro other based above
  show (db.canonical.write (number block) (hash block)).entries (number other) = some (hash other)
  by_cases same : number other = number block
  · obtain rfl := above.eq_of_level (Nat.le_of_eq same.symm)
    exact Index.write_self ..
  · rw [Index.write_of_ne _ same]
    exact follows other based above

/-- A head above the tip leaves the index of the tip alone. -/
theorem Follows.headBlock_above {tip block : Block} (follows : db.Follows base tip) (high : number tip < number block) :
    (db.apply (.headBlock block)).Follows base tip := by
  intro other based above
  have low := number_le above
  exact (Index.write_of_ne _ (by omega) _).trans (follows other based above)

theorem Follows.deleteCanonicalHashes {tip : Block} (follows : db.Follows base tip) {numbers : List Nat}
    (high : ∀ height ∈ numbers, number tip < height) : (db.apply (.deleteCanonicalHashes numbers)).Follows base tip := by
  intro block based above
  have kept : number block ∉ numbers := fun member => Nat.not_lt.mpr (number_le above) (high _ member)
  exact (if_neg kept).trans (follows block based above)

theorem Follows.path {start last : Block} {blocks : List Block} (path : Path start blocks last) (follows : db.Follows base start) :
    (db.applyAll (blocks.map .headBlock)).Follows base last := by
  induction blocks generalizing db start with
  | nil =>
    cases path
    exact follows
  | cons next rest ih => exact ih path.2 (follows.headBlock path.1)

/-- Head writes along a path fill the index up to its end. -/
theorem filled_path {low : Nat} {start last : Block} {blocks : List Block} (path : Path start blocks last) {top : Nat}
    (filled : db.canonical.Filled low top) (inside : number start ≤ top) :
    (db.applyAll (blocks.map .headBlock)).canonical.Filled low (max top (number last)) := by
  induction blocks generalizing db start top with
  | nil =>
    cases path
    rwa [Nat.max_eq_left inside]
  | cons next rest ih =>
    obtain ⟨step, path⟩ := path
    have up := number_child step
    have end_high := number_le path.ancestor
    have written : (db.apply (.headBlock next)).canonical.Filled low (max top (number next)) := filled.write (by omega) (hash next)
    have further := ih path written (by omega)
    rwa [Nat.max_assoc, Nat.max_eq_right end_high] at further

/-- A reorganisation over an index of the start: the path without its end, the useless
hashes, and the end as head. -/
theorem Follows.switch {start last : Block} {blocks : List Block} (follows : db.Follows base start) (based : Ancestor base start)
    (path : Path start blocks last) {top : Nat} (filled : db.canonical.Filled (number base) top) (inside : number start ≤ top) :
    let written := db.applyAll (blocks.dropLast.map .headBlock)
    let after := (written.apply (.deleteCanonicalHashes (written.uselessIndexes (number last)))).apply (.headBlock last)
    after.canonical.Filled (number base) (number last) ∧ after.Follows base last := by
  intro written after
  have low := number_le based
  rcases path.exists_last with ⟨rfl, rfl⟩ | ⟨front, parent, rfl, way, step⟩
  · have cut : (db.apply (.deleteCanonicalHashes (db.uselessIndexes (number start)))).canonical.Filled (number base) (number start) := by
      have shorter := filled.delete_assigned (by omega) low
      rwa [Nat.min_eq_right inside] at shorter
    have full := cut.write (Nat.le_succ (number start)) (hash start)
    rw [Nat.max_self] at full
    refine ⟨full, (follows.deleteCanonicalHashes fun height member => ?_).headBlock_self⟩
    exact ((mem_uselessIndexes filled (by omega) low).mp member).1
  · have next := number_child step
    have up := number_le way.ancestor
    have begun : written.canonical.Filled (number base) (max top (number parent)) := by
      show (db.applyAll ((front ++ [last]).dropLast.map .headBlock)).canonical.Filled _ _
      rw [List.dropLast_concat]
      exact filled_path way filled inside
    have leads : written.Follows base parent := by
      show (db.applyAll ((front ++ [last]).dropLast.map .headBlock)).Follows base parent
      rw [List.dropLast_concat]
      exact follows.path way
    have cut := begun.delete_assigned (by omega) (show number base ≤ number last by omega)
    have full := cut.write (show number last ≤ _ by omega) (hash last)
    rw [Nat.max_eq_right (by omega)] at full
    refine ⟨full, (leads.deleteCanonicalHashes fun height member => ?_).headBlock step⟩
    have := ((mem_uselessIndexes begun (by omega) (show number base ≤ number last by omega)).mp member).1
    omega

end Database

end Snowside.Blockchain
