import Snowside.Blockchain.Preference
import Snowside.Chain.Runs

/-! The canonical chain over every run of the calls that consensus makes. -/

set_option autoImplicit false

namespace Snowside.Blockchain

open Ancestry (IsParent Ancestor)
open BlockChain (Moved writeHeadBlock)
open Runs (System Reach)
open Stateful (Action Ends perform)

/-- A call of consensus, with what the parts outside the chain answer in it. -/
inductive Call (Block : Type) where
  | insert (parent block : Block) (verification commit : Except String Unit)
  | setPreference (block : Block)
  | accept (block : Block)
  | reject (block : Block) (trie batch : Except String Unit)

variable {Block Hash : Type} [ChainBlock Block Hash]

/-- The chain, and the blocks for which a call of each kind has succeeded. -/
structure State (Block Hash : Type) [ChainBlock Block Hash] where
  chain : BlockChain Block Hash
  inserted : List Block
  accepted : List Block
  rejected : List Block

/-- What consensus may call. -/
def State.Legal (state : State Block Hash) : Call Block → Prop
  | .insert parent block _ _ => parent ∈ state.inserted ∧ hash parent = parentHash block
  | .setPreference block => block ∈ state.inserted ∧ block ∉ state.rejected
  | .accept block => block ∈ state.inserted ∧ hash state.chain.lastAccepted = parentHash block
  | .reject block _ _ => block ∈ state.inserted ∧
      ∃ accepted ∈ state.accepted, ¬ Ancestor accepted block ∧ ¬ Ancestor block accepted

/-- A block that a chain may begin with: what has its parent hash is below it. -/
def IsOrigin (block : Block) : Prop := ∀ other : Block, hash other = parentHash block → number other < number block

/-- No block has the parent hash of the first block. -/
structure IsGenesis (block : Block) : Prop where
  number_eq : number block = 0
  orphan : ∀ other : Block, hash other ≠ parentHash block

theorem IsGenesis.isOrigin {block : Block} (first : IsGenesis block) : IsOrigin block :=
  fun other named => absurd named (first.orphan other)

/-! ## The invariant -/

/-- Every block but the origin has its parent among them. -/
def Closed (origin : Block) (inserted : List Block) : Prop :=
  ∀ block ∈ inserted, block = origin ∨ ∃ parent ∈ inserted, IsParent parent block

namespace Closed

variable {origin block : Block} {inserted : List Block}

/-- All of them come from the origin. -/
theorem rooted (closed : Closed origin inserted) (member : block ∈ inserted) : Ancestor origin block := by
  induction height : number block using Nat.strongRecOn generalizing block with
  | ind height ih =>
    rcases closed block member with rfl | ⟨parent, inside, isParent⟩
    · exact .refl _
    · have next := number_child isParent
      exact (ih (number parent) (by omega) inside rfl).child isParent

theorem ancestor {above : Block} (closed : Closed origin inserted) (member : block ∈ inserted) (based : Ancestor origin above)
    (ancestry : Ancestor above block) : above ∈ inserted := by
  induction ancestry with
  | refl => exact member
  | tail _ step ih =>
    rcases closed _ (ih (based.child step)) with same | ⟨parent, inside, isParent⟩
    · have low := number_le based
      have next := number_child step
      rw [same] at next
      omega
    · rwa [Ancestry.parent_unique step isParent]

/-- Among them the parent hash alone tells the parent. -/
theorem isParent {parent : Block} (closed : Closed origin inserted) (first : IsOrigin origin) (inside : parent ∈ inserted)
    (member : block ∈ inserted) (named : hash parent = parentHash block) : IsParent parent block := by
  rcases closed block member with rfl | ⟨found, _, step⟩
  · have low := number_le (closed.rooted inside)
    have high := first parent named
    omega
  · rwa [hash_injective (named.trans step.1.symm)]

end Closed

structure Invariant (origin : Block) (state : State Block Hash) : Prop where
  closed : Closed origin state.inserted
  head : state.chain.currentBlock ∈ state.inserted
  based : Ancestor origin state.chain.lastAccepted
  last : Ancestor state.chain.lastAccepted state.chain.currentBlock
  accepted : ∀ block ∈ state.accepted, Ancestor block state.chain.lastAccepted
  rejected : ∀ block ∈ state.rejected, ∃ accepted ∈ state.accepted, ¬ Ancestor accepted block ∧ ¬ Ancestor block accepted
  stored : ∀ block ∈ state.inserted, block ∉ state.rejected → state.chain.db.Stored block
  filled : state.chain.db.canonical.Filled (number origin) (number state.chain.currentBlock)
  follows : state.chain.db.Follows origin state.chain.currentBlock
  named : state.chain.db.headBlockHash = hash state.chain.currentBlock

namespace Invariant

variable {origin : Block} {state : State Block Hash}

/-- The ancestors of the head are not rejected. -/
theorem not_rejected (invariant : Invariant origin state) {block : Block}
    (above : Ancestor block state.chain.currentBlock) : block ∉ state.rejected := by
  intro member
  obtain ⟨accepted, inside, notAbove, notBelow⟩ := invariant.rejected block member
  rcases ((invariant.accepted accepted inside).trans invariant.last).comparable above with holds | holds
  · exact notAbove holds
  · exact notBelow holds

theorem stored_above (invariant : Invariant origin state) {block : Block} (based : Ancestor origin block)
    (above : Ancestor block state.chain.currentBlock) : state.chain.db.Stored block :=
  invariant.stored block (invariant.closed.ancestor invariant.head based above) (invariant.not_rejected above)

theorem last_inserted (invariant : Invariant origin state) : state.chain.lastAccepted ∈ state.inserted :=
  invariant.closed.ancestor invariant.head invariant.based invariant.last

/-- From the origin on the index is exactly the ancestor chain of the head. -/
theorem entries_iff (invariant : Invariant origin state) {height : Nat} (low : number origin ≤ height) {key : Hash} :
    state.chain.db.canonical.entries height = some key ↔ ∃ block, Ancestor origin block ∧
      Ancestor block state.chain.currentBlock ∧ number block = height ∧ hash block = key := by
  constructor
  · intro found
    have high := (invariant.filled height low).mp (by rw [found]; rfl)
    obtain ⟨block, based, above, level⟩ := (invariant.based.trans invariant.last).exists_level low high
    replace level : number block = height := level
    have entry := invariant.follows block based above
    rw [level, found] at entry
    exact ⟨block, based, above, level, (Option.some.inj entry).symm⟩
  · rintro ⟨block, based, above, rfl, rfl⟩
    exact invariant.follows block based above

end Invariant

/-! ## Steps -/

variable [DecidableEq Hash]

def Call.action : Call Block → Action (Error Hash) (BlockChain Block Hash) Unit
  | .insert parent block verification commit => insertBlock parent block verification commit
  | .setPreference block => Blockchain.setPreference block
  | .accept block => Blockchain.accept block
  | .reject block trie batch => Blockchain.reject block trie batch

namespace State

def note (state : State Block Hash) : Call Block → State Block Hash
  | .insert _ block _ _ => { state with inserted := block :: state.inserted }
  | .setPreference _ => state
  | .accept block => { state with accepted := block :: state.accepted }
  | .reject block _ _ => { state with rejected := block :: state.rejected }

/-- The result of the call, and the state after it. -/
def make (state : State Block Hash) (call : Call Block) : Except (Error Hash) Unit × State Block Hash :=
  match perform call.action state.chain with
  | (.ok done, after) => (.ok done, { state with chain := after }.note call)
  | (.error error, after) => (.error error, { state with chain := after })

end State

/-- The database after the first start. -/
def Database.ofGenesis (genesis : Block) : Database Block Hash :=
  applyAll ⟨fun _ => none, ⟨fun _ => none, 0, fun _ _ => rfl⟩, hash genesis, fun _ _ found => nomatch found⟩
    [.block genesis, .headBlock genesis]

def State.ofGenesis (genesis : Block) : State Block Hash :=
  ⟨⟨.ofGenesis genesis, [], genesis, genesis⟩, [genesis], [genesis], []⟩

def consensus (Block Hash : Type) [ChainBlock Block Hash] [DecidableEq Hash] : System (State Block Hash) (Call Block) where
  initial state := ∃ genesis, IsGenesis genesis ∧ state = .ofGenesis genesis
  step state call after := after = (state.make call).2

namespace Database

theorem ofGenesis_entries (genesis : Block) (height : Nat) :
    (ofGenesis genesis).canonical.entries height = if height = number genesis then some (hash genesis) else none :=
  Function.update_apply ..

theorem Stored.block {db : Database Block Hash} {block : Block} (stored : db.Stored block) (other : Block) :
    (db.apply (.block other)).Stored block := by
  by_cases same : hash block = hash other
  · rw [hash_injective same]
    exact Function.update_self ..
  · exact (Function.update_of_ne same ..).trans stored

theorem Stored.deleteBlock {db : Database Block Hash} {block other : Block} (stored : db.Stored block) (distinct : block ≠ other) :
    (db.apply (.deleteBlock other)).Stored block :=
  (Function.update_of_ne (fun same => distinct (hash_injective same)) ..).trans stored

end Database

/-- An insertion that fails leaves the head alone, and may have stored the block. -/
theorem insertBlock_ends (chain : BlockChain Block Hash) (parent block : Block) (verification commit : Except String Unit) :
    Ends chain (insertBlock parent block verification commit) fun result after =>
      match result with
      | .error _ => after = chain ∨ after = chain.write (.block block)
      | .ok _ => verification = .ok () ∧ number block = number parent + 1 ∧
          (after = chain.write (.block block) ∨
            parentHash block = hash chain.currentBlock ∧ after = (chain.write (.block block)).writeHeadBlock block) := by
  unfold insertBlock
  refine Ends.check_bind (fun _ _ => .inl rfl) fun _ next => ?_
  refine Ends.check_bind (fun _ _ => .inl rfl) fun _ verified => Ends.modify_bind ?_
  replace verified := Checked.mapError_eq_ok.mp verified
  refine Ends.check_bind (fun _ _ => .inr rfl) fun _ _ => Ends.get_bind ?_
  replace next := not_not.mp (Checked.refuse_eq_ok.mp next)
  dsimp only
  split
  · next extends_head => exact ⟨verified, next, .inr ⟨extends_head, rfl⟩⟩
  · exact ⟨verified, next, .inl rfl⟩

theorem reject_ends (chain : BlockChain Block Hash) (block : Block) (trie batch : Except String Unit) :
    Ends chain (reject block trie batch) fun result after =>
      match result with
      | .error _ => after = chain
      | .ok _ => after = chain.write (.deleteBlock block) := by
  unfold reject
  exact Ends.check_bind (fun _ _ => rfl) fun _ _ => Ends.check_bind (fun _ _ => rfl) fun _ _ => Ends.modify rfl

/-- What a call can come to. -/
inductive State.Made (state : State Block Hash) : Call Block → Except (Error Hash) Unit → State Block Hash → Prop where
  | refused {call : Call Block} {error : Error Hash} : Made state call (.error error) state
  | stored {parent block : Block} {verification commit : Except String Unit} {error : Error Hash} :
      Made state (.insert parent block verification commit) (.error error) { state with chain := state.chain.write (.block block) }
  | aside {parent block : Block} {commit : Except String Unit} : number block = number parent + 1 →
      Made state (.insert parent block (.ok ()) commit) (.ok ())
        { state with chain := state.chain.write (.block block), inserted := block :: state.inserted }
  | grown {parent block : Block} {commit : Except String Unit} : number block = number parent + 1 →
      parentHash block = hash state.chain.currentBlock →
      Made state (.insert parent block (.ok ()) commit) (.ok ())
        { state with chain := (state.chain.write (.block block)).writeHeadBlock block, inserted := block :: state.inserted }
  | preferred {block : Block} {moved : BlockChain Block Hash} : Moved state.chain block moved →
      Made state (.setPreference block) (.ok ()) { state with chain := moved }
  | accepted {block : Block} {moved : BlockChain Block Hash} : hash state.chain.lastAccepted = parentHash block →
      (moved = state.chain ∧ state.chain.db.getCanonicalHash (number block) = some (hash block) ∨ Moved state.chain block moved) →
      Made state (.accept block) (.ok ())
        { state with chain := { moved with lastAccepted := block }, accepted := block :: state.accepted }
  | rejected {block : Block} {trie batch : Except String Unit} :
      Made state (.reject block trie batch) (.ok ())
        { state with chain := state.chain.write (.deleteBlock block), rejected := block :: state.rejected }

theorem State.make_cases {state after : State Block Hash} {call : Call Block} {result : Except (Error Hash) Unit}
    (made : state.make call = (result, after)) : state.Made call result after := by
  unfold State.make at made
  rcases ended : perform call.action state.chain with ⟨outcome, chain⟩
  rw [ended] at made
  cases call with
  | insert parent block verification commit =>
    have ends := (insertBlock_ends state.chain parent block verification commit).of_perform ended
    cases outcome with
    | error error =>
      cases made
      rcases ends with same | same
      · rw [show chain = state.chain from same]
        exact .refused
      · rw [show chain = state.chain.write (.block block) from same]
        exact .stored
    | ok done =>
      cases made
      obtain ⟨rfl, next, ends⟩ := ends
      rcases ends with same | ⟨named, same⟩
      · rw [show chain = state.chain.write (.block block) from same]
        exact .aside next
      · rw [show chain = (state.chain.write (.block block)).writeHeadBlock block from same]
        exact .grown next named
  | setPreference block =>
    have ends := (setPreference_ends state.chain block).of_perform ended
    cases outcome with
    | error error =>
      cases made
      rw [show chain = state.chain from ends]
      exact .refused
    | ok done =>
      cases made
      exact .preferred ends
  | accept block =>
    have ends := (accept_ends state.chain block).of_perform ended
    cases outcome with
    | error error =>
      cases made
      rw [show chain = state.chain from ends]
      exact .refused
    | ok done =>
      cases made
      obtain ⟨named, moved, how, same⟩ := ends
      rw [show chain = { moved with lastAccepted := block } from same]
      exact .accepted named how
  | reject block trie batch =>
    have ends := (reject_ends state.chain block trie batch).of_perform ended
    cases outcome with
    | error error =>
      cases made
      rw [show chain = state.chain from ends]
      exact .refused
    | ok done =>
      cases made
      rw [show chain = state.chain.write (.deleteBlock block) from ends]
      exact .rejected

namespace Invariant

variable {genesis origin : Block} {state : State Block Hash}

theorem ofGenesis (first : IsGenesis genesis) : Invariant genesis (State.ofGenesis genesis) where
  closed block member := .inl (List.mem_singleton.mp member)
  head := List.mem_singleton_self genesis
  based := .refl genesis
  last := .refl genesis
  accepted block member := by
    rw [List.mem_singleton.mp member]
    exact .refl genesis
  rejected block member := (List.not_mem_nil member).elim
  stored block member _ := by
    rw [List.mem_singleton.mp member]
    exact Function.update_self ..
  filled height _ := by
    show ((Database.ofGenesis genesis).canonical.entries height).isSome ↔ height ≤ number genesis
    have root := first.number_eq
    rw [Database.ofGenesis_entries]
    split
    · next same => simp [same]
    · next other =>
      simp only [Option.isSome_none, Bool.false_eq_true, false_iff]
      omega
  follows block based above := by
    show (Database.ofGenesis genesis).canonical.entries (number block) = some (hash block)
    obtain rfl : block = genesis := above.eq_of_level based.level_le
    rw [Database.ofGenesis_entries, if_pos rfl]
  named := rfl

theorem moved (invariant : Invariant origin state) (first : IsOrigin origin) {block : Block} (member : block ∈ state.inserted)
    {after : BlockChain Block Hash} (moved : Moved state.chain block after) :
    Invariant origin { state with chain := after } := by
  have step := fun named : parentHash block = hash state.chain.currentBlock =>
    invariant.closed.isParent first invariant.head member named.symm
  obtain ⟨filled, follows⟩ := moved.aligned invariant.based invariant.last invariant.filled invariant.follows step
  refine
    { closed := invariant.closed
      head := ?_
      based := ?_
      last := ?_
      accepted := ?_
      rejected := invariant.rejected
      stored := fun other inside kept => ?_
      filled := ?_
      follows := ?_
      named := ?_ }
  · show after.currentBlock ∈ state.inserted
    rwa [moved.currentBlock]
  · show Ancestor origin after.lastAccepted
    rw [moved.lastAccepted]
    exact invariant.based
  · show Ancestor after.lastAccepted after.currentBlock
    rw [moved.currentBlock, moved.lastAccepted]
    exact moved.above invariant.last step
  · show ∀ block ∈ state.accepted, Ancestor block after.lastAccepted
    rw [moved.lastAccepted]
    exact invariant.accepted
  · show after.db.blocks (hash other) = some other
    rw [moved.blocks]
    exact invariant.stored other inside kept
  · show after.db.canonical.Filled (number origin) (number after.currentBlock)
    rwa [moved.currentBlock]
  · show after.db.Follows origin after.currentBlock
    rwa [moved.currentBlock]
  · show after.db.headBlockHash = hash after.currentBlock
    rw [moved.currentBlock]
    exact moved.named invariant.named

theorem write_block (invariant : Invariant origin state) (block : Block) :
    Invariant origin { state with chain := state.chain.write (.block block) } :=
  { invariant with stored := fun other inside kept => (invariant.stored other inside kept).block block }

theorem insert (invariant : Invariant origin state) {parent block : Block} (inside : parent ∈ state.inserted)
    (step : IsParent parent block) :
    Invariant origin { state with chain := state.chain.write (.block block), inserted := block :: state.inserted } :=
  { invariant with
    closed := by
      intro other member
      rcases List.mem_cons.mp member with rfl | member
      · exact .inr ⟨parent, List.mem_cons_of_mem _ inside, step⟩
      · rcases invariant.closed other member with same | ⟨found, member, isParent⟩
        · exact .inl same
        · exact .inr ⟨found, List.mem_cons_of_mem _ member, isParent⟩
    head := List.mem_cons_of_mem _ invariant.head
    stored := by
      intro other member kept
      rcases List.mem_cons.mp member with rfl | member
      · exact Function.update_self ..
      · exact (invariant.stored other member kept).block block }

theorem accept (invariant : Invariant origin state) (first : IsOrigin origin) {block : Block} (member : block ∈ state.inserted)
    (named : hash state.chain.lastAccepted = parentHash block) {moved : BlockChain Block Hash}
    (how : moved = state.chain ∧ state.chain.db.getCanonicalHash (number block) = some (hash block) ∨
      Moved state.chain block moved) :
    Invariant origin { state with chain := { moved with lastAccepted := block }, accepted := block :: state.accepted } := by
  have step := invariant.closed.isParent first invariant.last_inserted member named
  have low := number_le (invariant.based.child step)
  have kept : Invariant origin { state with chain := moved } ∧ moved.lastAccepted = state.chain.lastAccepted ∧
      Ancestor block moved.currentBlock := by
    rcases how with ⟨rfl, known⟩ | moves
    · obtain ⟨found, _, above, _, same⟩ := (invariant.entries_iff low).mp known
      obtain rfl := hash_injective same
      exact ⟨invariant, rfl, above⟩
    · refine ⟨invariant.moved first member moves, moves.lastAccepted, ?_⟩
      rw [moves.currentBlock]
      exact .refl block
  obtain ⟨holds, last, above⟩ := kept
  exact
    { holds with
      based := invariant.based.child step
      last := above
      accepted := by
        intro other inside
        rcases List.mem_cons.mp inside with rfl | inside
        · exact .refl other
        · exact (invariant.accepted other inside).child step
      rejected := by
        intro other inside
        obtain ⟨accepted, found, conflict⟩ := invariant.rejected other inside
        exact ⟨accepted, List.mem_cons_of_mem _ found, conflict⟩ }

theorem reject (invariant : Invariant origin state) {block accepted : Block} (inside : accepted ∈ state.accepted)
    (conflict : ¬ Ancestor accepted block ∧ ¬ Ancestor block accepted) :
    Invariant origin { state with chain := state.chain.write (.deleteBlock block), rejected := block :: state.rejected } :=
  { invariant with
    rejected := by
      intro other member
      rcases List.mem_cons.mp member with rfl | member
      · exact ⟨accepted, inside, conflict⟩
      · exact invariant.rejected other member
    stored := by
      intro other member kept
      rw [List.mem_cons, not_or] at kept
      exact (invariant.stored other member kept.2).deleteBlock kept.1 }

/-- Every call that consensus may make keeps the invariant. -/
theorem make (invariant : Invariant origin state) (first : IsOrigin origin) {call : Call Block} (legal : state.Legal call) :
    Invariant origin (state.make call).2 := by
  rcases made : state.make call with ⟨result, after⟩
  cases State.make_cases made with
  | refused => exact invariant
  | @stored _ block => exact invariant.write_block block
  | aside next => exact invariant.insert legal.1 ⟨legal.2, next⟩
  | grown next named => exact (invariant.insert legal.1 ⟨legal.2, next⟩).moved first (List.mem_cons_self ..) (.grows named)
  | preferred moves => exact invariant.moved first legal.1 moves
  | accepted named how => exact invariant.accept first legal.1 named how
  | rejected =>
    obtain ⟨_, accepted, inside, conflict⟩ := legal
    exact invariant.reject inside conflict

end Invariant

/-- The invariant holds in every run of the calls that consensus may make. -/
theorem exists_invariant {state : State Block Hash} (reach : Reach (consensus Block Hash) State.Legal state) :
    ∃ genesis, IsGenesis genesis ∧ Invariant genesis state := by
  refine reach.invariant (fun state => ∃ genesis, IsGenesis genesis ∧ Invariant genesis state) (fun state initial => ?_)
    fun state call after holds legal stepped => ?_
  · obtain ⟨genesis, first, rfl⟩ := initial
    exact ⟨genesis, first, .ofGenesis first⟩
  · obtain ⟨genesis, first, invariant⟩ := holds
    rw [show after = (state.make call).2 from stepped]
    exact ⟨genesis, first, invariant.make first.isOrigin legal⟩

/-- An error of a preference or of an acceptance leaves the whole chain as it was. -/
theorem State.make_error (state : State Block Hash) {block : Block} {call : Call Block}
    (moves : call = .setPreference block ∨ call = .accept block) {error : Error Hash}
    (failed : (state.make call).1 = .error error) : (state.make call).2 = state := by
  have ends : Ends state.chain call.action fun result after => ∀ cause, result = .error cause → after = state.chain := by
    rcases moves with rfl | rfl
    · refine (setPreference_ends state.chain block).mono fun result after holds cause same => ?_
      rw [same] at holds
      exact holds
    · refine (accept_ends state.chain block).mono fun result after holds cause same => ?_
      rw [same] at holds
      exact holds
  unfold State.make at failed ⊢
  rcases ended : perform call.action state.chain with ⟨result, after⟩
  rw [ended] at failed
  cases result with
  | ok done => cases failed
  | error cause => rw [ends.of_perform ended cause rfl]

/-- Consensus never waits in vain: the acceptance of a child of the last accepted block succeeds. -/
theorem accept_succeeds {state : State Block Hash} (reach : Reach (consensus Block Hash) State.Legal state) {block : Block}
    (legal : state.Legal (.accept block)) : (state.make (.accept block)).1 = .ok () := by
  obtain ⟨genesis, first, invariant⟩ := exists_invariant reach
  obtain ⟨member, named⟩ := legal
  have step := invariant.closed.isParent first.isOrigin invariant.last_inserted member named
  have preferred := setPreference_succeeds invariant.last (.of_parent step)
    (fun middle based above => invariant.stored_above (invariant.based.trans based) above)
    fun middle based above distinct =>
      invariant.stored_above (invariant.based.trans based) ((above.of_child distinct step).trans invariant.last)
  have ends : Ends state.chain (Blockchain.accept block) fun result _ => result = .ok () := by
    unfold Blockchain.accept
    refine Ends.get_bind (Ends.check_bind (fun _ refused => ?_) fun _ _ => ?_)
    · exact absurd named (Checked.refuse_eq_error.mp refused).1
    dsimp only
    split
    · have wrapped : Ends state.chain (Stateful.wrap (Error.notPreferred (number block) (hash block)) (Blockchain.setPreference block))
          fun result _ => result = .ok () :=
        Ends.wrap (preferred.mono fun result after same => by rw [same]; rfl)
      exact Ends.bind wrapped (fun _ _ impossible => nomatch impossible) fun _ _ _ => rfl
    · rfl
  unfold State.make
  rcases ended : perform (Call.accept block).action state.chain with ⟨result, after⟩
  rw [show result = .ok () from ends.of_perform ended]

/-- In every run the index is the ancestor chain of the head, with every accepted block and
no rejected one, and an error of a preference or of an acceptance leaves the index and the head. -/
theorem canonical_chain {state : State Block Hash} (reach : Reach (consensus Block Hash) State.Legal state) :
    (∀ height key, state.chain.db.getCanonicalHash height = some key ↔
      ∃ block, Ancestor block state.chain.currentBlock ∧ number block = height ∧ hash block = key) ∧
    (∀ height, number state.chain.currentBlock < height → state.chain.db.getCanonicalHash height = none) ∧
    (∀ block ∈ state.accepted, state.chain.db.getCanonicalHash (number block) = some (hash block)) ∧
    (∀ height key, state.chain.db.getCanonicalHash height = some key →
      (∃ block, state.chain.db.getBlock key height = some block) ∧ ∀ block ∈ state.rejected, hash block ≠ key) ∧
    ∀ call block, call = .setPreference block ∨ call = .accept block → ∀ error, (state.make call).1 = .error error →
      (state.make call).2.chain.db.canonical = state.chain.db.canonical ∧
      (state.make call).2.chain.db.headBlockHash = state.chain.db.headBlockHash ∧
      (state.make call).2.chain.currentBlock = state.chain.currentBlock := by
  obtain ⟨genesis, first, invariant⟩ := exists_invariant reach
  have rooted := invariant.based.trans invariant.last
  have low : ∀ height, number genesis ≤ height := by
    intro height
    rw [first.number_eq]
    exact Nat.zero_le height
  have based : ∀ block, Ancestor block state.chain.currentBlock → Ancestor genesis block := fun block above =>
    rooted.of_level_le above (low (number block))
  refine ⟨fun height key => ?_, fun height high => ?_, fun block member => ?_, fun height key found => ?_,
    fun call block moves error failed => ?_⟩
  · refine (invariant.entries_iff (low height)).trans (exists_congr fun block => ?_)
    exact ⟨fun ⟨_, rest⟩ => rest, fun rest => ⟨based block rest.1, rest⟩⟩
  · by_contra present
    exact absurd ((invariant.filled height (low height)).mp (Option.isSome_iff_ne_none.mpr present)) (Nat.not_le.mpr high)
  · have above := (invariant.accepted block member).trans invariant.last
    exact invariant.follows block (based block above) above
  · obtain ⟨block, rooted, above, rfl, rfl⟩ := (invariant.entries_iff (low height)).mp found
    refine ⟨⟨block, Database.getBlock_eq_some.mpr ⟨invariant.stored_above rooted above, rfl⟩⟩, fun other member same => ?_⟩
    rw [hash_injective same] at member
    exact invariant.not_rejected above member
  · rw [state.make_error moves failed]
    exact ⟨rfl, rfl, rfl⟩

/-! ## A fork -/

/-- A block by the turns that lead to it, the last one first. -/
structure Route where
  turns : List Nat
  deriving DecidableEq

instance : ChainBlock Route (Option (List Nat)) where
  hash block := some block.turns
  parentHash block := block.turns.tail?
  number block := block.turns.length
  hash_injective first second same := by
    cases first
    cases second
    exact congrArg Route.mk (Option.some.inj same)

theorem Route.genesis : IsGenesis (⟨[]⟩ : Route) := ⟨rfl, fun _ same => nomatch same⟩

/-- Two children of the first block: the second is preferred, the first accepted. -/
def forkCalls : List (Call Route) :=
  [.insert ⟨[]⟩ ⟨[0]⟩ (.ok ()) (.ok ()), .insert ⟨[]⟩ ⟨[1]⟩ (.ok ()) (.ok ()), .setPreference ⟨[1]⟩, .accept ⟨[0]⟩,
   .reject ⟨[1]⟩ (.ok ()) (.ok ())]

def fork : State Route (Option (List Nat)) := forkCalls.foldl (fun state call => (state.make call).2) (.ofGenesis ⟨[]⟩)

theorem fork_reach : Reach (consensus Route (Option (List Nat))) State.Legal fork := by
  have apart : ¬ Ancestor (⟨[0]⟩ : Route) ⟨[1]⟩ ∧ ¬ Ancestor (⟨[1]⟩ : Route) ⟨[0]⟩ :=
    ⟨fun above => absurd (above.eq_of_level (Nat.le_refl 1)) (by decide),
      fun above => absurd (above.eq_of_level (Nat.le_refl 1)) (by decide)⟩
  refine .next (.next (.next (.next (.next (.start ⟨⟨[]⟩, Route.genesis, rfl⟩) ?_ rfl) ?_ rfl) ?_ rfl) ?_ rfl) ?_ rfl
  · exact ⟨List.mem_singleton_self _, rfl⟩
  · exact ⟨by decide, rfl⟩
  · exact ⟨by decide, by decide⟩
  · exact ⟨by decide, rfl⟩
  · exact ⟨by decide, ⟨[0]⟩, by decide, apart⟩

/-- The accepted block is in the index, the rejected one is not. -/
theorem canonical_chain_fork : (⟨[1]⟩ : Route) ∈ fork.rejected ∧ fork.chain.db.getCanonicalHash 1 = some (some [0]) :=
  ⟨by decide, (canonical_chain fork_reach).2.2.1 ⟨[0]⟩ (by decide)⟩

end Snowside.Blockchain
