import Snowside.Blockchain.Recovery

/-! A node whose consensus thread and acceptor write to one disk, with crashes and restarts. -/

set_option autoImplicit false

namespace Snowside.Blockchain

open Ancestry (IsParent Ancestor)
open Runs (Along Reach System)
open Stateful (Ends perform)

variable {Block Hash Root Transaction : Type} [ChainBlock Block Hash] [StateBlock Block Root Transaction]

structure Settings where
  commitInterval : Nat
  acceptorQueueLimit : Nat

/-- What the consensus thread does next. -/
inductive Consensus (Block : Type) where
  /-- The batches of the call under way, and the block it accepts. -/
  | writing (pending : List (Write Block)) (accepting : Option Block)
  /-- The block is in the acceptor queue, its id not yet on disk. -/
  | committing (block : Block)

/-- The memory of a node. The chain is that after the pending batches. -/
structure Running (Block : Type) {Hash : Type} [ChainBlock Block Hash] where
  state : State Block Hash
  consensus : Consensus Block
  acceptorQueue : List Block
  /-- The block whose indices are written, and whose trie is not yet accepted. -/
  indexed : Option Block

inductive Phase (Block Root : Type) {Hash : Type} [ChainBlock Block Hash] where
  | down
  /-- The batches of the restart still to come, and the head it ends with. -/
  | booting (pending : List (DiskWrite Block Root)) (head : Option Block)
  | running (memory : Running Block)

structure Node (Block : Type) {Hash Root Transaction : Type} [ChainBlock Block Hash] [StateBlock Block Root Transaction] where
  disk : Disk Block
  phase : Phase Block Root
  /-- The blocks that the node has ever put into its acceptor queue, and the last of them. -/
  decisions : List Block
  decided : Block

inductive Event (Block : Type) where
  | restart
  | bootWrite
  | booted
  | call (call : Call Block)
  | write
  | enqueue
  | commit
  | index
  | acceptTrie
  /-- The trie database writes old nodes to disk, by which a state may become complete there. -/
  | flush (block : Block)
  | crash

/-- What consensus and the trie database may do. Decisions are final, also over a crash. -/
def Node.Legal (node : Node Block) : Event Block → Prop
  | .call call => ∀ memory, node.phase = .running memory → memory.state.Legal call ∧
      match call with
      | .insert parent block verification _ => verification = .ok () → valid parent block
      | .accept block => Ancestor block node.decided ∨ Ancestor node.decided block
      | _ => True
  | .flush block => ∀ memory, node.phase = .running memory → block ∈ memory.state.inserted
  | _ => True

variable [DecidableEq Hash] [DecidableEq Root] [DecidableEq Transaction]

namespace Node

variable (settings : Settings) (node : Node Block)

/-- The memory after a restart: the decided blocks up to the head count as inserted. -/
def boot (head : Block) : Running Block :=
  let blocks := node.decisions.filter fun block => number block ≤ number head
  ⟨⟨⟨node.disk.chain, [], head, head⟩, blocks, blocks, []⟩, .writing [] none, [], none⟩

/-- A call with its batches still to be written. -/
def begin (memory : Running Block) (call : Call Block) : Running Block :=
  let made := State.make { memory.state with chain := { memory.state.chain with written := [] } } call
  let accepting := match call, made.1 with
    | .accept block, .ok _ => some block
    | _, _ => none
  { memory with state := made.2, consensus := .writing made.2.chain.written accepting }

def stepRunning (memory : Running Block) : Event Block → Option (Node Block)
  | .call call =>
      match memory.consensus with
      | .writing [] none => some { node with phase := .running (begin memory call) }
      | _ => none
  | .write =>
      match memory.consensus with
      | .writing (batch :: rest) accepting =>
          some { node with
            disk := node.disk.apply (.chain batch)
            phase := .running { memory with consensus := .writing rest accepting } }
      | _ => none
  | .enqueue =>
      match memory.consensus with
      | .writing [] (some block) =>
          -- The acceptor may hold one more block that it has not begun with.
          if memory.acceptorQueue.length < settings.acceptorQueueLimit + (if memory.indexed.isNone then 1 else 0) then
            let known := number block ≤ number node.decided
            some { node with
              phase := .running
                { memory with consensus := .committing block, acceptorQueue := memory.acceptorQueue ++ [block] }
              decisions := if known then node.decisions else block :: node.decisions
              decided := if known then node.decided else block }
          else none
      | _ => none
  | .commit =>
      match memory.consensus with
      | .committing block =>
          some { node with
            disk := node.disk.apply (.lastAccepted block)
            phase := .running { memory with consensus := .writing [] none } }
      | _ => none
  | .index =>
      match memory.indexed, memory.acceptorQueue with
      | none, block :: rest =>
          some { node with
            disk := node.disk.apply (.acceptedIndices block)
            phase := .running { memory with acceptorQueue := rest, indexed := some block } }
      | _, _ => none
  | .acceptTrie =>
      match memory.indexed with
      | some block =>
          some { node with
            disk := if number block % settings.commitInterval = 0 then node.disk.apply (.state (root block)) else node.disk
            phase := .running { memory with indexed := none } }
      | none => none
  | .flush block => some { node with disk := node.disk.apply (.state (root block)) }
  | _ => none

def step (event : Event Block) : Option (Node Block) :=
  match node.phase, event with
  | _, .crash => some { node with phase := .down }
  | .down, .restart =>
      let made := perform (newBlockChain settings.commitInterval) ⟨node.disk, []⟩
      some { node with phase := .booting made.2.written made.1.toOption }
  | .booting (batch :: rest) head, .bootWrite =>
      some { node with disk := node.disk.apply batch, phase := .booting rest head }
  | .booting [] (some head), .booted => some { node with phase := .running (node.boot head) }
  | .booting [] none, .booted => some { node with phase := .down }
  | .running memory, event => node.stepRunning settings memory event
  | _, _ => none

/-- What a step of the running node has met, and what it leaves. -/
inductive RunningStep (memory : Running Block) : Event Block → Node Block → Prop where
  | call {call : Call Block} : memory.consensus = .writing [] none →
      RunningStep memory (.call call) { node with phase := .running (begin memory call) }
  | write {batch : Write Block} {rest : List (Write Block)} {accepting : Option Block} :
      memory.consensus = .writing (batch :: rest) accepting →
      RunningStep memory .write { node with
        disk := node.disk.apply (.chain batch)
        phase := .running { memory with consensus := .writing rest accepting } }
  | enqueue {block : Block} : memory.consensus = .writing [] (some block) →
      memory.acceptorQueue.length < settings.acceptorQueueLimit + (if memory.indexed.isNone then 1 else 0) →
      RunningStep memory .enqueue { node with
        phase := .running { memory with consensus := .committing block, acceptorQueue := memory.acceptorQueue ++ [block] }
        decisions := if number block ≤ number node.decided then node.decisions else block :: node.decisions
        decided := if number block ≤ number node.decided then node.decided else block }
  | commit {block : Block} : memory.consensus = .committing block →
      RunningStep memory .commit { node with
        disk := node.disk.apply (.lastAccepted block)
        phase := .running { memory with consensus := .writing [] none } }
  | index {block : Block} {rest : List Block} : memory.indexed = none → memory.acceptorQueue = block :: rest →
      RunningStep memory .index { node with
        disk := node.disk.apply (.acceptedIndices block)
        phase := .running { memory with acceptorQueue := rest, indexed := some block } }
  | acceptTrie {block : Block} : memory.indexed = some block →
      RunningStep memory .acceptTrie { node with
        disk := if number block % settings.commitInterval = 0 then node.disk.apply (.state (root block)) else node.disk
        phase := .running { memory with indexed := none } }
  | flush {block : Block} : RunningStep memory (.flush block) { node with disk := node.disk.apply (.state (root block)) }

variable {settings : Settings} {node : Node Block} in
theorem stepRunning_cases {memory : Running Block} {event : Event Block} {after : Node Block}
    (stepped : node.stepRunning settings memory event = some after) : node.RunningStep settings memory event after := by
  unfold Node.stepRunning at stepped
  split at stepped
  · split at stepped
    · next idle =>
      cases stepped
      exact .call idle
    · cases stepped
  · split at stepped
    · next writing =>
      cases stepped
      exact .write writing
    · cases stepped
  · split at stepped
    · next accepts =>
      by_cases room : memory.acceptorQueue.length < settings.acceptorQueueLimit + (if memory.indexed.isNone then 1 else 0)
      · rw [if_pos room] at stepped
        cases stepped
        exact .enqueue accepts room
      · rw [if_neg room] at stepped
        cases stepped
    · cases stepped
  · split at stepped
    · next committing =>
      cases stepped
      exact .commit committing
    · cases stepped
  · split at stepped
    · next free queued =>
      cases stepped
      exact .index free queued
    · cases stepped
  · split at stepped
    · next indexed =>
      cases stepped
      exact .acceptTrie indexed
    · cases stepped
  · cases stepped
    exact .flush
  · cases stepped

end Node

/-! ## The invariant -/

/-- The index and the head of the database are those of the block. -/
structure Aligned (origin head : Block) (db : Database Block Hash) : Prop where
  filled : db.canonical.Filled (number origin) (number head)
  follows : db.Follows origin head
  named : db.headBlockHash = hash head

inductive Consensus.Good (origin last decided : Block) (db : Database Block Hash) (chain : BlockChain Block Hash) :
    Consensus Block → Prop where
  | calling {pending : List (Write Block)} : db.applyAll pending = chain.db →
      Safe (Database.Upholds origin last decided) pending db → chain.lastAccepted = last →
      Good origin last decided db chain (.writing pending none)
  | accepting {pending : List (Write Block)} {block : Block} : db.applyAll pending = chain.db →
      Safe (Database.Upholds origin last decided) pending db → chain.lastAccepted = block → IsParent last block →
      (Ancestor block decided ∨ Ancestor decided block) → Good origin last decided db chain (.writing pending (some block))
  | committing {block : Block} : db = chain.db → chain.lastAccepted = block → IsParent last block → Ancestor block decided →
      Good origin last decided db chain (.committing block)

structure Running.Good (origin last decided : Block) (disk : Disk Block) (memory : Running Block) : Prop where
  invariant : Invariant origin memory.state
  valid : ∀ block ∈ memory.state.inserted, ∀ parent, Ancestor origin parent → IsParent parent block → valid parent block
  consensus : memory.consensus.Good origin last decided disk.chain memory.state.chain
  queued : ∀ block ∈ memory.acceptorQueue, Ancestor origin block ∧ Ancestor block decided

def Phase.Good (origin last decided : Block) (disk : Disk Block) : Phase Block Root → Prop
  | .down => True
  | .booting pending head => Along Disk.apply (Disk.Sound origin last decided) pending disk ∧
      ∀ block, head = some block → block = last ∧ Aligned origin last (disk.applyAll pending).chain
  | .running memory => memory.Good origin last decided disk

structure Node.Good (origin last : Block) (node : Node Block) : Prop where
  closed : Closed origin node.decisions
  member : node.decided ∈ node.decisions
  below : ∀ block ∈ node.decisions, Ancestor block node.decided
  sound : node.disk.Sound origin last node.decided
  phase : node.phase.Good origin last node.decided node.disk

/-- The batches of a restart keep the disk sound. -/
theorem Restored.boots {origin last decided start : Block} {disk : Disk Block} {restored after : Boot Block} {reexec : Nat}
    {outcome : Except (RestartError Hash) Unit} (holds : Restored origin last decided disk restored)
    (sound : disk.Sound origin last decided) (based : Ancestor origin start)
    (reprocessed : Reprocessed start last reexec restored outcome after) :
    after.disk = disk.applyAll after.written ∧ Along Disk.apply (Disk.Sound origin last decided) after.written disk ∧
      after.disk.chain = restored.disk.chain := by
  have restored_sound := holds.sound sound
  obtain ⟨writes, same, safe⟩ := holds.wrote
  have begun := sound.along_chain safe
  have still : restored.disk = disk.applyAll restored.written ∧
      Along Disk.apply (Disk.Sound origin last decided) restored.written disk := by
    rw [same]
    exact ⟨rfl, begun⟩
  cases reprocessed with
  | upToDate => exact ⟨still.1, still.2, rfl⟩
  | unavailable => exact ⟨still.1, still.2, rfl⟩
  | above => exact ⟨still.1, still.2, rfl⟩
  | @processed found blocks above present near nearest low between indexes =>
    have from_origin : Ancestor origin found := by
      refine based.of_level_le above ?_
      by_contra under
      exact nearest origin based (Nat.lt_of_not_le under) restored_sound.base
    have indexed := restored_sound.along_indices fun block member =>
      ⟨from_origin.trans (between block member).1, (between block member).2.trans sound.final⟩
    have more : Along Disk.apply (Disk.Sound origin last decided) (blocks.map .acceptedIndices ++ [.state (root last)])
        restored.disk := indexed.append ⟨indexed.last, indexed.last.state (root last)⟩
    have chain : ∀ (disk : Disk Block), (disk.applyAll (blocks.map .acceptedIndices)).chain = disk.chain := by
      intro disk
      clear indexes between indexed more
      induction blocks generalizing disk with
      | nil => rfl
      | cons block rest ih => exact ih (disk.apply (.acceptedIndices block))
    refine ⟨?_, ?_, ?_⟩
    · have joined := Disk.applyAll_append disk restored.written (blocks.map .acceptedIndices ++ [.state (root last)])
      rw [← still.1] at joined
      exact joined.symm
    · refine still.2.append ?_
      rw [show restored.written.foldl Disk.apply disk = restored.disk from still.1.symm]
      exact more
    · show (restored.disk.applyAll (blocks.map .acceptedIndices ++ [.state (root last)])).chain = restored.disk.chain
      rw [Disk.applyAll_append]
      exact chain restored.disk

namespace Node.Good

variable {origin last : Block} {node : Node Block} {settings : Settings}

theorem crash (good : node.Good origin last) : ({ node with phase := .down } : Node Block).Good origin last :=
  { good with phase := trivial }

theorem restart (good : node.Good origin last) (first : IsOrigin origin) :
    let made := perform (newBlockChain settings.commitInterval) ⟨node.disk, []⟩
    ({ node with phase := .booting made.2.written made.1.toOption } : Node Block).Good origin last := by
  intro made
  obtain ⟨start, searches, based, below⟩ := good.sound.exists_start
  have ends := newBlockChain_ends good.sound first searches based below settings.commitInterval
  obtain ⟨restored, outcome, holds, reprocessed, ended⟩ := ends
  obtain ⟨applied, along, chain⟩ := holds.boots good.sound based reprocessed
  refine { good with phase := ⟨along, fun block found => ?_⟩ }
  have ok : made.1 = .ok block := by
    cases result : made.1 with
    | error error =>
      rw [result] at found
      cases found
    | ok value =>
      rw [result] at found
      cases found
      rfl
  obtain ⟨_, _, rfl⟩ := (ended block).mp ok
  refine ⟨rfl, ?_⟩
  rw [← applied, chain]
  exact ⟨holds.filled, holds.follows, holds.named⟩

theorem bootWrite {batch : DiskWrite Block Root} {rest : List (DiskWrite Block Root)} {head : Option Block}
    (good : node.Good origin last) (booting : node.phase = .booting (batch :: rest) head) :
    ({ node with disk := node.disk.apply batch, phase := .booting rest head } : Node Block).Good origin last := by
  have phase := good.phase
  rw [booting] at phase
  exact { good with sound := phase.1.2.here, phase := ⟨phase.1.2, phase.2⟩ }

theorem booted {head : Block} (good : node.Good origin last) (booting : node.phase = .booting [] (some head)) :
    ({ node with phase := .running (node.boot head) } : Node Block).Good origin last := by
  have phase := good.phase
  rw [booting] at phase
  obtain ⟨_, ends⟩ := phase
  obtain ⟨rfl, aligned⟩ := ends head rfl
  have known : ∀ block, block ∈ (node.decisions.filter fun block => number block ≤ number head) ↔
      Ancestor origin block ∧ Ancestor block head := by
    intro block
    rw [List.mem_filter, decide_eq_true_eq]
    constructor
    · rintro ⟨member, low⟩
      exact ⟨good.closed.rooted member, (good.below block member).of_level_le good.sound.final low⟩
    · rintro ⟨based, above⟩
      exact ⟨good.closed.ancestor good.member based (above.trans good.sound.final), number_le above⟩
  refine { good with phase := ⟨?_, ?_, ?_, fun block member => (List.not_mem_nil member).elim⟩ }
  · refine
      { closed := fun block member => ?_
        head := (known head).mpr ⟨good.sound.rooted, .refl head⟩
        based := good.sound.rooted
        last := .refl head
        accepted := fun block member => ((known block).mp member).2
        rejected := fun block member => (List.not_mem_nil member).elim
        stored := fun block member _ => ?_
        filled := aligned.filled
        follows := aligned.follows
        named := aligned.named }
    · obtain ⟨based, above⟩ := (known block).mp member
      rcases based.eq_or_parent with same | ⟨parent, step, further⟩
      · exact .inl same.symm
      · exact .inr ⟨parent, (known parent).mpr ⟨further, (Ancestor.of_parent step).trans above⟩, step⟩
    · obtain ⟨based, above⟩ := (known block).mp member
      exact good.sound.upholds.kept block based (above.trans good.sound.final)
  · intro block member parent based step
    exact good.sound.valid parent block based step (((known block).mp member).2.trans good.sound.final)
  · exact .calling rfl good.sound.upholds rfl

theorem call {memory : Running Block} {call : Call Block} (good : node.Good origin last) (first : IsOrigin origin)
    (running : node.phase = .running memory) (idle : memory.consensus = .writing [] none) (legal : node.Legal (.call call)) :
    ({ node with phase := .running (begin memory call) } : Node Block).Good origin last := by
  have phase := good.phase
  rw [running] at phase
  obtain ⟨legal, more⟩ := legal memory running
  obtain ⟨same, lastAccepted⟩ : node.disk.chain = memory.state.chain.db ∧ memory.state.chain.lastAccepted = last := by
    have consensus := phase.consensus
    rw [idle] at consensus
    cases consensus with
    | calling applied safe lastAccepted => exact ⟨applied, lastAccepted⟩
  -- The call starts with no batch written.
  let fresh : State Block Hash := { memory.state with chain := { memory.state.chain with written := [] } }
  have invariant : Invariant origin fresh := { phase.invariant with }
  have final : Ancestor fresh.chain.lastAccepted node.decided := by
    show Ancestor memory.state.chain.lastAccepted node.decided
    rw [lastAccepted]
    exact good.sound.final
  have kept : ∀ block, Ancestor origin block → Ancestor block node.decided → fresh.chain.db.Stored block := by
    show ∀ block, Ancestor origin block → Ancestor block node.decided → memory.state.chain.db.Stored block
    rw [← same]
    exact good.sound.upholds.kept
  have after := invariant.make first legal
  obtain ⟨writes, wrote⟩ := State.make_wrote invariant first final kept legal
  have written : (fresh.make call).2.chain.written = writes := wrote.written
  have applied : node.disk.chain.applyAll (fresh.make call).2.chain.written = (fresh.make call).2.chain.db := by
    rw [written, same]
    exact wrote.db.symm
  have safe : Safe (Database.Upholds origin last node.decided) (fresh.make call).2.chain.written node.disk.chain := by
    rw [written, same, ← lastAccepted]
    exact wrote.safe
  refine { good with phase := ⟨after, ?_, ?_, phase.queued⟩ }
  · intro block member parent based step
    rcases State.make_inserted (show block ∈ (fresh.make call).2.inserted from member) with known | ⟨other, commit, rfl, next⟩
    · exact phase.valid block known parent based step
    · rw [Ancestry.parent_unique step ⟨legal.2, next⟩]
      exact more rfl
  · rcases State.make_lastAccepted fresh call with ⟨block, rfl, ok, moved⟩ | ⟨fails, stays⟩
    · have step := invariant.closed.isParent first invariant.last_inserted legal.1 legal.2
      replace step : IsParent last block := by rwa [show fresh.chain.lastAccepted = last from lastAccepted] at step
      have accepting : (begin memory (.accept block)).consensus = .writing (fresh.make (.accept block)).2.chain.written (some block) := by
        show Consensus.writing _ (match Call.accept block, (fresh.make (.accept block)).1 with
          | .accept block, .ok _ => some block
          | _, _ => none) = _
        rw [ok]
      rw [accepting]
      exact .accepting applied safe moved step more
    · have calling : (begin memory call).consensus = .writing (fresh.make call).2.chain.written none := by
        show Consensus.writing _ (match call, (fresh.make call).1 with
          | .accept block, .ok _ => some block
          | _, _ => none) = _
        cases call with
        | insert => rfl
        | setPreference => rfl
        | reject => rfl
        | accept block =>
          cases ended : (fresh.make (.accept block)).1 with
          | error => rfl
          | ok => exact absurd ended (fails block rfl)
      rw [calling]
      exact .calling applied safe (stays.trans lastAccepted)

theorem write {memory : Running Block} {batch : Write Block} {rest : List (Write Block)} {accepting : Option Block}
    (good : node.Good origin last) (running : node.phase = .running memory)
    (writing : memory.consensus = .writing (batch :: rest) accepting) :
    ({ node with
        disk := node.disk.apply (.chain batch)
        phase := .running { memory with consensus := .writing rest accepting } } : Node Block).Good origin last := by
  have phase := good.phase
  rw [running] at phase
  have consensus := phase.consensus
  rw [writing] at consensus
  cases consensus with
  | calling applied safe same =>
    exact { good with
      sound := good.sound.chain safe.2.here
      phase := { phase with consensus := .calling applied safe.2 same } }
  | accepting applied safe same step finality =>
    exact { good with
      sound := good.sound.chain safe.2.here
      phase := { phase with consensus := .accepting applied safe.2 same step finality } }

theorem enqueue_known {memory : Running Block} {block : Block} (good : node.Good origin last)
    (running : node.phase = .running memory) (accepts : memory.consensus = .writing [] (some block))
    (known : number block ≤ number node.decided) :
    ({ node with
        phase := .running
          { memory with consensus := .committing block, acceptorQueue := memory.acceptorQueue ++ [block] } } : Node Block).Good
      origin last := by
  have phase := good.phase
  rw [running] at phase
  have consensus := phase.consensus
  rw [accepts] at consensus
  cases consensus with
  | accepting applied safe same step finality =>
    have below : Ancestor block node.decided := by
      rcases finality with below | above
      · exact below
      · rw [above.eq_of_level known]
        exact .refl block
    refine { good with phase := { phase with consensus := .committing applied same step below, queued := ?_ } }
    intro other member
    rcases List.mem_append.mp member with queued | new
    · exact phase.queued other queued
    · rw [List.mem_singleton.mp new]
      exact ⟨good.sound.rooted.child step, below⟩

theorem enqueue_new {memory : Running Block} {block : Block} (good : node.Good origin last)
    (running : node.phase = .running memory) (accepts : memory.consensus = .writing [] (some block))
    (new : ¬ number block ≤ number node.decided) :
    ({ node with
        phase := .running { memory with consensus := .committing block, acceptorQueue := memory.acceptorQueue ++ [block] }
        decisions := block :: node.decisions
        decided := block } : Node Block).Good origin last := by
  have phase := good.phase
  rw [running] at phase
  have consensus := phase.consensus
  rw [accepts] at consensus
  cases consensus with
  | accepting applied safe same step finality =>
    have above : Ancestor node.decided block := by
      rcases finality with below | above
      · exact absurd (number_le below) new
      · exact above
    -- What was decided before is the parent.
    have parent : last = node.decided := by
      have under := above.of_child (fun equal => new (Nat.le_of_eq (by rw [equal]))) step
      exact good.sound.final.eq_of_level under.level_le
    have from_origin := good.sound.rooted.child step
    have current : Ancestor block memory.state.chain.currentBlock := by
      rw [← same]
      exact phase.invariant.last
    refine
      { closed := ?_
        member := List.mem_cons_self ..
        below := ?_
        sound :=
          { good.sound with
            final := .of_parent step
            upholds :=
              { good.sound.upholds with
                kept := fun other based below => by
                  rw [show node.disk.chain = memory.state.chain.db from applied]
                  exact phase.invariant.stored_above based (below.trans current) }
            valid := fun other child based step below => ?_
            tip := fun key found => ?_ }
        phase := { phase with consensus := .committing applied same step (.refl block), queued := ?_ } }
    · intro other member
      rcases List.mem_cons.mp member with rfl | member
      · exact .inr ⟨last, List.mem_cons_of_mem _ (parent ▸ good.member), step⟩
      · rcases good.closed other member with equal | ⟨found, inside, isParent⟩
        · exact .inl equal
        · exact .inr ⟨found, List.mem_cons_of_mem _ inside, isParent⟩
    · intro other member
      rcases List.mem_cons.mp member with rfl | member
      · exact .refl other
      · exact (good.below other member).trans above
    · have inside := phase.invariant.closed.ancestor phase.invariant.head (based.child step) (below.trans current)
      exact phase.valid child inside other based step
    · obtain ⟨tip, named, based, below⟩ := good.sound.tip key found
      exact ⟨tip, named, based, below.trans above⟩
    · intro other member
      rcases List.mem_append.mp member with queued | new
      · exact ⟨(phase.queued other queued).1, (phase.queued other queued).2.trans above⟩
      · rw [List.mem_singleton.mp new]
        exact ⟨from_origin, .refl block⟩

theorem commit {memory : Running Block} {block : Block} (good : node.Good origin last) (running : node.phase = .running memory)
    (committing : memory.consensus = .committing block) :
    ({ node with
        disk := node.disk.apply (.lastAccepted block)
        phase := .running { memory with consensus := .writing [] none } } : Node Block).Good origin block := by
  have phase := good.phase
  rw [running] at phase
  have consensus := phase.consensus
  rw [committing] at consensus
  cases consensus with
  | committing applied same step below =>
    have upholds : node.disk.chain.Upholds origin block node.decided := by
      rw [applied, ← same]
      refine phase.invariant.upholds ?_
      rw [← applied]
      exact good.sound.upholds.kept
    exact { good with
      sound :=
        { good.sound with
          persisted := rfl
          rooted := good.sound.rooted.child step
          final := below
          upholds := upholds }
      phase := { phase with consensus := .calling applied upholds same } }

theorem index {memory : Running Block} {block : Block} {rest : List Block} (good : node.Good origin last)
    (running : node.phase = .running memory) (queued : memory.acceptorQueue = block :: rest) :
    ({ node with
        disk := node.disk.apply (.acceptedIndices block)
        phase := .running { memory with acceptorQueue := rest, indexed := some block } } : Node Block).Good origin last := by
  have phase := good.phase
  rw [running] at phase
  have each := phase.queued
  rw [queued] at each
  obtain ⟨based, below⟩ := each block (List.mem_cons_self ..)
  exact { good with
    sound := good.sound.acceptedIndices based below
    phase := { phase with queued := fun other member => each other (List.mem_cons_of_mem _ member) } }

/-- More states on the disk do no harm. -/
theorem state (good : node.Good origin last) {memory : Running Block} (running : node.phase = .running memory) (key : Root) :
    ({ node with disk := node.disk.apply (.state key) } : Node Block).Good origin last := by
  have phase := good.phase
  rw [running] at phase
  refine { good with sound := good.sound.state key, phase := ?_ }
  show Phase.Good origin last node.decided _ node.phase
  rw [running]
  exact { phase with }

theorem acceptTrie {memory : Running Block} {disk : Disk Block} (good : ({ node with disk := disk } : Node Block).Good origin last)
    (running : node.phase = .running memory) :
    ({ node with disk := disk, phase := .running { memory with indexed := none } } : Node Block).Good origin last := by
  have phase : Phase.Good origin last node.decided disk node.phase := good.phase
  rw [running] at phase
  exact { good with phase := { phase with } }

theorem stepRunning {memory : Running Block} {event : Event Block} {after : Node Block} (good : node.Good origin last)
    (first : IsOrigin origin) (running : node.phase = .running memory) (legal : node.Legal event)
    (stepped : node.stepRunning settings memory event = some after) : ∃ last, after.Good origin last := by
  cases stepRunning_cases stepped with
  | call idle => exact ⟨last, good.call first running idle legal⟩
  | write writing => exact ⟨last, good.write running writing⟩
  | @enqueue block accepts =>
    by_cases known : number block ≤ number node.decided
    · simp only [known, if_true]
      exact ⟨last, good.enqueue_known running accepts known⟩
    · simp only [known, if_false]
      exact ⟨last, good.enqueue_new running accepts known⟩
  | commit committing => exact ⟨_, good.commit running committing⟩
  | index free queued => exact ⟨last, good.index running queued⟩
  | acceptTrie indexed =>
    refine ⟨last, acceptTrie ?_ running⟩
    split
    · exact good.state running _
    · exact good
  | flush => exact ⟨last, good.state running _⟩

/-- Every step keeps the invariant. -/
theorem step {event : Event Block} {after : Node Block} (good : node.Good origin last) (first : IsOrigin origin)
    (legal : node.Legal event) (stepped : node.step settings event = some after) : ∃ last, after.Good origin last := by
  unfold Node.step at stepped
  split at stepped
  · cases stepped
    exact ⟨last, good.crash⟩
  · cases stepped
    exact ⟨last, good.restart first⟩
  · next booting =>
    cases stepped
    exact ⟨last, good.bootWrite booting⟩
  · next booting =>
    cases stepped
    exact ⟨last, good.booted booting⟩
  · cases stepped
    exact ⟨last, good.crash⟩
  · next running _ =>
    exact good.stepRunning first running legal stepped
  · cases stepped

end Node.Good

/-! ## Runs -/

/-- A disk after the first start, or after the state of the origin has been synced. -/
structure Disk.Starts (origin : Block) (disk : Disk Block) : Prop where
  first : IsOrigin origin
  persisted : disk.lastAcceptedHash = hash origin
  stored : disk.chain.Stored origin
  filled : disk.chain.canonical.Filled (number origin) (number origin)
  entry : disk.chain.canonical.entries (number origin) = some (hash origin)
  named : disk.chain.headBlockHash = hash origin
  tip : disk.acceptorTip = none ∨ disk.acceptorTip = some (hash origin)
  base : disk.hasState (root origin)

def nodes (Block : Type) {Hash Root Transaction : Type} [ChainBlock Block Hash] [StateBlock Block Root Transaction] [DecidableEq Hash]
    [DecidableEq Root] [DecidableEq Transaction] (settings : Settings) (origin : Block) : System (Node Block) (Event Block) where
  initial node := node.disk.Starts origin ∧ node.phase = .down ∧ node.decisions = [origin] ∧ node.decided = origin
  step node event after := node.step settings event = some after

omit [DecidableEq Hash] [DecidableEq Root] [DecidableEq Transaction] in
theorem Disk.Starts.sound {origin : Block} {disk : Disk Block} (starts : disk.Starts origin) : disk.Sound origin origin origin := by
  have only : ∀ {block : Block}, Ancestor origin block → Ancestor block origin → block = origin := fun based above =>
    above.eq_of_level based.level_le
  have stored : ∀ block, Ancestor origin block → Ancestor block origin → disk.chain.Stored block := by
    intro block based above
    rw [only based above]
    exact starts.stored
  have follows : disk.chain.Follows origin origin := by
    intro block based above
    rw [only based above]
    exact starts.entry
  exact
    { persisted := starts.persisted
      rooted := .refl origin
      final := .refl origin
      upholds := .of_aligned starts.named (.refl origin) starts.filled follows stored stored
      valid := by
        intro parent block based step below
        have low := number_le (based.child step)
        have next := number_child step
        have up := number_le based
        have high := number_le below
        omega
      tip := by
        intro key found
        rcases starts.tip with none | some
        · rw [none] at found
          cases found
        · rw [some] at found
          exact ⟨origin, Option.some.inj found, .refl origin, .refl origin⟩
      base := starts.base }

theorem Node.Good.initial {origin : Block} {node : Node Block} (starts : node.disk.Starts origin) (down : node.phase = .down)
    (decisions : node.decisions = [origin]) (decided : node.decided = origin) : node.Good origin origin where
  closed block member := .inl (List.mem_singleton.mp (decisions ▸ member))
  member := by
    rw [decisions, decided]
    exact List.mem_singleton_self origin
  below block member := by
    rw [decisions] at member
    rw [List.mem_singleton.mp member, decided]
    exact .refl origin
  sound := by
    rw [decided]
    exact starts.sound
  phase := by
    rw [down]
    trivial

/-- The invariant holds in every run. -/
theorem exists_good {settings : Settings} {origin : Block} {condition : Node Block → Event Block → Prop}
    (legal : ∀ node event, condition node event → node.Legal event) {node : Node Block}
    (reach : Reach (nodes Block settings origin) condition node) : IsOrigin origin ∧ ∃ last, node.Good origin last := by
  refine reach.invariant (fun node => IsOrigin origin ∧ ∃ last, node.Good origin last) ?_ ?_
  · rintro node ⟨starts, down, decisions, decided⟩
    exact ⟨starts.first, origin, .initial starts down decisions decided⟩
  · rintro node event after ⟨first, last, good⟩ met stepped
    exact ⟨first, good.step first (legal node event met) stepped⟩

end Snowside.Blockchain
