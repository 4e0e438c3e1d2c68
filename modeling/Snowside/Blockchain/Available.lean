import Snowside.Blockchain.Node

/-! When a restart has the state of the last accepted block. -/

set_option autoImplicit false

namespace Snowside.Blockchain

open Ancestry (Ancestor)
open Runs (Reach)
open Stateful (perform)

section

variable {Block Hash Root Transaction : Type} [ChainBlock Block Hash] [StateBlock Block Root Transaction] [DecidableEq Hash]
  [DecidableEq Root] [DecidableEq Transaction]

/-- The restart succeeds, and the state of the block of the persisted id is on the disk. -/
def Disk.Restarts (commitInterval : Nat) (disk : Disk Block) : Prop :=
  ∃ head, (perform (newBlockChain commitInterval) ⟨disk, []⟩).1 = .ok head ∧ hash head = disk.lastAcceptedHash ∧
    (perform (newBlockChain commitInterval) ⟨disk, []⟩).2.disk.hasState (root head)

end

/-! ## Runs that can be computed -/

instance : StateBlock Route (List Nat) (List Nat) where
  root block := block.turns
  transactions block := [block.turns]
  valid _ _ := true

theorem Route.ancestor_of_suffix {first second : List Nat} (suffix : first <:+ second) :
    Ancestor (⟨first⟩ : Route) ⟨second⟩ := by
  induction second with
  | nil =>
    rw [List.suffix_nil.mp suffix]
    exact .refl _
  | cons turn rest ih =>
    rcases List.suffix_cons_iff.mp suffix with rfl | further
    · exact .refl _
    · exact (ih further).child ⟨rfl, rfl⟩

namespace Node

/-- A check of insertions and acceptances that implies their legality. -/
def allows (node : Node Route) : Event Route → Bool
  | .call (.insert parent block _ _) =>
      match node.phase with
      | .running memory => memory.state.inserted.contains parent && hash parent == parentHash block
      | _ => false
  | .call (.accept block) =>
      match node.phase with
      | .running memory => memory.state.inserted.contains block && hash memory.state.chain.lastAccepted == parentHash block &&
          (block.turns.isSuffixOf node.decided.turns || node.decided.turns.isSuffixOf block.turns)
      | _ => false
  | .call _ | .flush _ => false
  | _ => true

theorem legal_of_allows {node : Node Route} {event : Event Route} (allowed : node.allows event) : node.Legal event := by
  cases event with
  | call call =>
    intro memory running
    cases call with
    | insert parent block verification commit =>
      simp only [allows, running, Bool.and_eq_true, List.contains_iff_mem, beq_iff_eq] at allowed
      exact ⟨allowed, fun _ => rfl⟩
    | accept block =>
      simp only [allows, running, Bool.and_eq_true, Bool.or_eq_true, List.contains_iff_mem, beq_iff_eq,
        List.isSuffixOf_iff_suffix] at allowed
      exact ⟨allowed.1, allowed.2.imp Route.ancestor_of_suffix Route.ancestor_of_suffix⟩
    | setPreference block => cases allowed
    | reject block trie batch => cases allowed
  | flush block => cases allowed
  | _ => trivial

/-- A run by its events. -/
def run (settings : Settings) (node : Node Route) : List (Event Route) → Option (Node Route)
  | [] => some node
  | event :: rest => if node.allows event then (node.step settings event).bind fun after => run settings after rest else none

end Node

theorem reach_of_run {settings : Settings} {node after : Node Route} {events : List (Event Route)}
    (reach : Reach (nodes Route settings ⟨[]⟩) Node.Legal node) (ran : node.run settings events = some after) :
    Reach (nodes Route settings ⟨[]⟩) Node.Legal after := by
  induction events generalizing node with
  | nil =>
    cases ran
    exact reach
  | cons event rest ih =>
    rw [Node.run] at ran
    split at ran
    · next allowed =>
      obtain ⟨middle, stepped, ran⟩ := Option.bind_eq_some_iff.mp ran
      exact ih (reach.next (Node.legal_of_allows allowed) stepped) ran
    · cases ran

/-- The node after its first start. -/
def freshNode : Node Route where
  disk := ⟨.ofGenesis ⟨[]⟩, some [], none, fun _ => none, fun key => key == []⟩
  phase := .down
  decisions := [⟨[]⟩]
  decided := ⟨[]⟩

theorem freshNode_starts (settings : Settings) : (nodes Route settings ⟨[]⟩).initial freshNode := by
  have invariant := Invariant.ofGenesis Route.genesis
  refine ⟨?_, rfl, rfl, rfl⟩
  exact
    { first := Route.genesis.isOrigin
      persisted := rfl
      stored := invariant.stored _ (List.mem_singleton_self _) (List.not_mem_nil)
      filled := invariant.filled
      entry := invariant.follows _ (.refl _) (.refl _)
      named := rfl
      tip := .inl rfl
      base := rfl }

theorem freshNode_reach (settings : Settings) : Reach (nodes Route settings ⟨[]⟩) Node.Legal freshNode :=
  .start (freshNode_starts settings)

/-! ## An acceptor ahead of consensus -/

/-- Every second state is committed. -/
def everySecond : Settings := ⟨2, 64⟩

/-- The second block is committed before its id is on the disk. -/
def aheadEvents : List (Event Route) :=
  [.restart, .booted, .call (.insert ⟨[]⟩ ⟨[0]⟩ (.ok ()) (.ok ())), .write, .write, .call (.accept ⟨[0]⟩), .enqueue, .commit,
   .index, .acceptTrie, .call (.insert ⟨[0]⟩ ⟨[0, 0]⟩ (.ok ()) (.ok ())), .write, .write, .call (.accept ⟨[0, 0]⟩), .enqueue,
   .index, .acceptTrie, .crash]

theorem ahead_lost : (freshNode.run everySecond aheadEvents).map
    (fun node => (perform (newBlockChain everySecond.commitInterval) ⟨node.disk, []⟩).1.toOption) = some none := by
  decide +kernel

end Snowside.Blockchain
