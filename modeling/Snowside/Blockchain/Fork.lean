import Snowside.Blockchain.Database
import Snowside.Partial.Checked

/-! The walk from an old and a new head down to the block they have in common. -/

set_option autoImplicit false

namespace Snowside.Blockchain

open Ancestry (IsParent Ancestor Path)
open Checked (need need_eq_ok)

inductive Error (Hash : Type) where
  | currentHeadMissing
  | invalidOldChain
  | invalidNewChain
  | orphansFinalized (lastAccepted common : Nat)
  | writeKnownBlock (cause : Error Hash)
  | unexpectedParent (lastAccepted : Hash) (lastAcceptedNumber : Nat) (parent : Hash) (parentNumber : Nat)
  | notPreferred (number : Nat) (key : Hash) (cause : Error Hash)
  | unknownAncestor
  | rejectTrie (cause : String)
  | deleteBlock (cause : String)
  /-- What the verification and the execution of a block answer. -/
  | invalidBlock (cause : String)

def Error.text {Hash : Type} (hex : Hash → String) : Error Hash → String
  | .currentHeadMissing => "current head block missing"
  | .invalidOldChain => "invalid old chain"
  | .invalidNewChain => "invalid new chain"
  | .orphansFinalized lastAccepted common =>
      "cannot orphan finalized block at height: " ++ toString lastAccepted ++ " to common block at height: " ++ toString common
  | .writeKnownBlock cause => "unable to invoke writeKnownBlock: " ++ cause.text hex
  | .unexpectedParent lastAccepted lastAcceptedNumber parent parentNumber =>
      "expected accepted block to have parent " ++ hex lastAccepted ++ ":" ++ toString lastAcceptedNumber ++ " but got " ++
        hex parent ++ ":" ++ toString parentNumber
  | .notPreferred number key cause =>
      "could not set new preferred block " ++ toString number ++ ":" ++ hex key ++ " as preferred: " ++ cause.text hex
  | .unknownAncestor => "unknown ancestor"
  | .rejectTrie cause => "unable to reject trie: " ++ cause
  | .deleteBlock cause => "failed to write delete block batch: " ++ cause
  | .invalidBlock cause => cause

variable {Block Hash : Type} [ChainBlock Block Hash]

namespace Database

section

variable (db : Database Block Hash)

/-- The blocks from this one down to the one above the target, and the one at the target. -/
def gather (target : Nat) : Nat → Block → Option (List Block × Block)
  | 0, block => if number block = target then some ([], block) else none
  | steps + 1, block =>
      if number block = target then some ([], block)
      else (db.getParent block).bind fun parent =>
        (gather target steps parent).map fun found => (block :: found.1, found.2)

variable {db}

theorem gather_eq_some {target steps : Nat} {block bottom : Block} {chain : List Block}
    (gathered : db.gather target steps block = some (chain, bottom)) :
    number bottom = target ∧ Path bottom chain.reverse block := by
  induction steps generalizing block chain with
  | zero =>
    rw [gather] at gathered
    split at gathered
    · next reached =>
      cases gathered
      exact ⟨reached, rfl⟩
    · cases gathered
  | succ steps ih =>
    rw [gather] at gathered
    split at gathered
    · next reached =>
      cases gathered
      exact ⟨reached, rfl⟩
    · obtain ⟨parent, found, further⟩ := Option.bind_eq_some_iff.mp gathered
      obtain ⟨⟨rest, last⟩, below, same⟩ := Option.map_eq_some_iff.mp further
      cases same
      obtain ⟨reached, path⟩ := ih below
      rw [List.reverse_cons]
      exact ⟨reached, path.append_child (getParent_eq_some.mp found).1⟩

theorem gather_of_stored {base block : Block} {steps : Nat} (ancestor : Ancestor base block)
    (stored : ∀ middle, Ancestor base middle → Ancestor middle block → middle ≠ block → db.Stored middle)
    (enough : number block ≤ steps) : ∃ chain, db.gather (number base) steps block = some (chain, base) := by
  induction steps generalizing block with
  | zero =>
    obtain rfl : base = block := ancestor.eq_of_level (by show number block ≤ number base; omega)
    exact ⟨[], by simp [gather]⟩
  | succ steps ih =>
    by_cases reached : number block = number base
    · obtain rfl : base = block := ancestor.eq_of_level (Nat.le_of_eq reached)
      exact ⟨[], by simp [gather]⟩
    · rcases ancestor.eq_or_parent with rfl | ⟨parent, step, above⟩
      · exact absurd rfl reached
      · have next := number_child step
        have distinct : parent ≠ block := fun same => by subst same; omega
        have found := getParent_eq_some.mpr ⟨step, stored parent above (.of_parent step) distinct⟩
        have rest : ∀ middle, Ancestor base middle → Ancestor middle parent → middle ≠ parent → db.Stored middle := by
          intro middle above below _
          refine stored middle above (below.child step) fun same => ?_
          have := number_le below
          rw [same] at this
          omega
        obtain ⟨chain, gathered⟩ := ih above rest (by omega)
        exact ⟨block :: chain, by simp [gather, reached, found, gathered]⟩

end

variable [DecidableEq Hash] (db : Database Block Hash)

/-- Both sides step back until they meet. -/
def meet : Nat → Block → Block → Except (Error Hash) (List Block × Block)
  | 0, oldBlock, newBlock => if hash oldBlock = hash newBlock then .ok ([], oldBlock) else .error .invalidOldChain
  | steps + 1, oldBlock, newBlock =>
      if hash oldBlock = hash newBlock then .ok ([], oldBlock)
      else do
        let oldParent ← need .invalidOldChain (db.getParent oldBlock)
        let newParent ← need .invalidNewChain (db.getParent newBlock)
        let found ← meet steps oldParent newParent
        .ok (newBlock :: found.1, found.2)

/-- The new chain from its head down to above the common block, and the common block. -/
def findCommonBlock (oldHead newHead : Block) : Except (Error Hash) (List Block × Block) := do
  let oldBlock ← need .currentHeadMissing (db.getBlock (hash oldHead) (number oldHead))
  -- Reduce the longer chain to the same number as the shorter one.
  if number oldBlock > number newHead then
    let reduced ← need .invalidOldChain (db.gather (number newHead) (number oldBlock) oldBlock)
    db.meet (number newHead) reduced.2 newHead
  else
    let reduced ← need .invalidNewChain (db.gather (number oldBlock) (number newHead) newHead)
    let found ← db.meet (number oldBlock) oldBlock reduced.2
    .ok (reduced.1 ++ found.1, found.2)

variable {db}

theorem meet_eq_ok {steps : Nat} {oldBlock newBlock common : Block} {chain : List Block}
    (met : db.meet steps oldBlock newBlock = .ok (chain, common)) :
    Ancestor common oldBlock ∧ Path common chain.reverse newBlock := by
  induction steps generalizing oldBlock newBlock chain with
  | zero =>
    rw [meet] at met
    split at met
    · next same =>
      cases met
      exact ⟨.refl _, hash_injective same⟩
    · cases met
  | succ steps ih =>
    rw [meet] at met
    split at met
    · next same =>
      cases met
      exact ⟨.refl _, hash_injective same⟩
    · obtain ⟨oldParent, foundOld, further⟩ := Checked.bind_eq_ok.mp met
      obtain ⟨newParent, foundNew, further⟩ := Checked.bind_eq_ok.mp further
      obtain ⟨⟨rest, last⟩, below, same⟩ := Checked.bind_eq_ok.mp further
      cases same
      obtain ⟨ancestor, path⟩ := ih below
      have oldStep := (getParent_eq_some.mp (need_eq_ok.mp foundOld)).1
      have newStep := (getParent_eq_some.mp (need_eq_ok.mp foundNew)).1
      rw [List.reverse_cons]
      exact ⟨ancestor.child oldStep, path.append_child newStep⟩

/-- The common block is above the old head, and the new chain leads from it to the new head. -/
theorem findCommonBlock_eq_ok {oldHead newHead common : Block} {chain : List Block}
    (found : db.findCommonBlock oldHead newHead = .ok (chain, common)) :
    Ancestor common oldHead ∧ Path common chain.reverse newHead := by
  obtain ⟨oldBlock, present, walked⟩ := Checked.bind_eq_ok.mp found
  obtain ⟨stored, _⟩ := getBlock_eq_some.mp (need_eq_ok.mp present)
  obtain rfl : oldBlock = oldHead := hash_injective (db.keyed _ _ stored)
  split at walked
  · obtain ⟨⟨dropped, reduced⟩, gathered, met⟩ := Checked.bind_eq_ok.mp walked
    obtain ⟨ancestor, path⟩ := meet_eq_ok met
    exact ⟨ancestor.trans (gather_eq_some (need_eq_ok.mp gathered)).2.ancestor, path⟩
  · obtain ⟨⟨front, reduced⟩, gathered, further⟩ := Checked.bind_eq_ok.mp walked
    obtain ⟨⟨rest, last⟩, met, same⟩ := Checked.bind_eq_ok.mp further
    cases same
    obtain ⟨ancestor, path⟩ := meet_eq_ok met
    rw [List.reverse_append]
    exact ⟨ancestor, path.append (gather_eq_some (need_eq_ok.mp gathered)).2⟩

theorem meet_of_stored {base oldBlock newBlock : Block} {steps : Nat} (oldSide : Ancestor base oldBlock)
    (newSide : Ancestor base newBlock) (level : number oldBlock = number newBlock)
    (oldStored : ∀ middle, Ancestor base middle → Ancestor middle oldBlock → middle ≠ oldBlock → db.Stored middle)
    (newStored : ∀ middle, Ancestor base middle → Ancestor middle newBlock → middle ≠ newBlock → db.Stored middle)
    (enough : number oldBlock ≤ steps) :
    ∃ chain common, db.meet steps oldBlock newBlock = .ok (chain, common) ∧ Ancestor base common := by
  induction steps generalizing oldBlock newBlock with
  | zero =>
    obtain rfl : base = oldBlock := oldSide.eq_of_level (by show number oldBlock ≤ number base; omega)
    obtain rfl : base = newBlock := newSide.eq_of_level (Nat.le_of_eq level.symm)
    exact ⟨[], base, by simp [meet], .refl base⟩
  | succ steps ih =>
    by_cases same : hash oldBlock = hash newBlock
    · exact ⟨[], oldBlock, by simp [meet, same], oldSide⟩
    · -- Neither is the base: the other would be at its number too.
      rcases oldSide.eq_or_parent with rfl | ⟨oldParent, oldStep, oldAbove⟩
      · obtain rfl := newSide.eq_of_level (Nat.le_of_eq level.symm)
        exact absurd rfl same
      rcases newSide.eq_or_parent with rfl | ⟨newParent, newStep, newAbove⟩
      · obtain rfl := oldSide.eq_of_level (Nat.le_of_eq level)
        exact absurd rfl same
      have oldNext := number_child oldStep
      have newNext := number_child newStep
      have proper : ∀ {parent child middle : Block}, IsParent parent child → Ancestor middle parent → middle ≠ child := by
        intro parent child middle step below equal
        have := number_le below
        have := number_child step
        rw [equal] at *
        omega
      have foundOld := getParent_eq_some.mpr ⟨oldStep, oldStored _ oldAbove (.of_parent oldStep) (proper oldStep (.refl _))⟩
      have foundNew := getParent_eq_some.mpr ⟨newStep, newStored _ newAbove (.of_parent newStep) (proper newStep (.refl _))⟩
      obtain ⟨chain, common, met, above⟩ := ih oldAbove newAbove (by omega)
        (fun middle based below _ => oldStored middle based (below.child oldStep) (proper oldStep below))
        (fun middle based below _ => newStored middle based (below.child newStep) (proper newStep below)) (by omega)
      exact ⟨newBlock :: chain, common, by simp [meet, same, foundOld, foundNew, met], above⟩

/-- Stored heads over one base have a common block over that base. -/
theorem findCommonBlock_of_stored {base oldHead newHead : Block} (oldSide : Ancestor base oldHead)
    (newSide : Ancestor base newHead) (oldStored : ∀ middle, Ancestor base middle → Ancestor middle oldHead → db.Stored middle)
    (newStored : ∀ middle, Ancestor base middle → Ancestor middle newHead → middle ≠ newHead → db.Stored middle) :
    ∃ chain common, db.findCommonBlock oldHead newHead = .ok (chain, common) ∧ Ancestor base common := by
  have present : db.getBlock (hash oldHead) (number oldHead) = some oldHead :=
    getBlock_eq_some.mpr ⟨oldStored oldHead oldSide (.refl _), rfl⟩
  by_cases longer : number oldHead > number newHead
  · obtain ⟨reduced, above, below, level⟩ := oldSide.exists_level (number_le newSide) (Nat.le_of_lt longer)
    replace level : number reduced = number newHead := level
    obtain ⟨dropped, gathered⟩ := gather_of_stored below
      (fun middle based under _ => oldStored middle (above.trans based) under) (Nat.le_refl _)
    rw [level] at gathered
    obtain ⟨chain, common, met, rest⟩ := meet_of_stored above newSide level
      (fun middle based under _ => oldStored middle based (under.trans below)) newStored (Nat.le_of_eq level)
    exact ⟨chain, common, by simp [findCommonBlock, present, longer, gathered, met], rest⟩
  · obtain ⟨reduced, above, below, level⟩ := newSide.exists_level (number_le oldSide) (Nat.le_of_not_gt longer)
    replace level : number reduced = number oldHead := level
    obtain ⟨front, gathered⟩ := gather_of_stored below
      (fun middle based under distinct => newStored middle (above.trans based) under distinct) (Nat.le_refl _)
    rw [level] at gathered
    have proper : ∀ middle, Ancestor base middle → Ancestor middle reduced → middle ≠ reduced → db.Stored middle := by
      intro middle based under distinct
      refine newStored middle based (under.trans below) fun same => ?_
      subst same
      exact distinct (under.eq_of_level (number_le below))
    obtain ⟨chain, common, met, rest⟩ := meet_of_stored oldSide above level.symm
      (fun middle based under _ => oldStored middle based under) proper (Nat.le_refl _)
    exact ⟨front ++ chain, common, by simp [findCommonBlock, present, longer, gathered, met], rest⟩

end Database

end Snowside.Blockchain
