import Mathlib.Algebra.Order.Group.Multiset
import Mathlib.Data.Multiset.AddSub
import Snowside.Blockchain.Canonical

/-! The log events that the chain publishes as its head moves, and the logs of a subscriber
that replays them.
-/

set_option autoImplicit false

namespace Snowside.LogFeed

open Ancestry (IsParent Ancestor Path)
open Blockchain
open BlockChain (Moved)
open Runs (System Reach)
open Stateful (Ends perform)

inductive LogsEvent (Log : Type) where
  | logs (logs : List Log)
  | removedLogs (logs : List Log)

variable {Log : Type} [DecidableEq Log]

/-! ## Replay -/

/-- The logs of a subscriber after an event; none if a log is removed that is not there. -/
def replayEvent (view : Multiset Log) : LogsEvent Log → Option (Multiset Log)
  | .logs logs => some (view + logs)
  | .removedLogs logs => if (logs : Multiset Log) ≤ view then some (view - logs) else none

def replay (view : Multiset Log) : List (LogsEvent Log) → Option (Multiset Log)
  | [] => some view
  | event :: rest => (replayEvent view event).bind fun view => replay view rest

/-- How often a log is announced. -/
def announced (log : Log) : List (LogsEvent Log) → Nat
  | [] => 0
  | .logs logs :: rest => logs.count log + announced log rest
  | .removedLogs _ :: rest => announced log rest

/-- How often a log is removed. -/
def removed (log : Log) : List (LogsEvent Log) → Nat
  | [] => 0
  | .logs _ :: rest => removed log rest
  | .removedLogs logs :: rest => logs.count log + removed log rest

theorem replay_append {view middle : Multiset Log} {first second : List (LogsEvent Log)} (replayed : replay view first = some middle) :
    replay view (first ++ second) = replay middle second := by
  induction first generalizing view with
  | nil =>
    cases replayed
    rfl
  | cons event rest ih =>
    obtain ⟨next, here, further⟩ := Option.bind_eq_some_iff.mp replayed
    rw [List.cons_append, replay, here, Option.bind_some, ih further]

theorem replay_logs (view : Multiset Log) (batches : List (List Log)) :
    replay view (batches.map .logs) = some (view + (batches.flatten : Multiset Log)) := by
  induction batches generalizing view with
  | nil => simp [replay]
  | cons batch rest ih =>
    rw [List.map_cons, replay, replayEvent, Option.bind_some, ih, List.flatten_cons, add_assoc, Multiset.coe_add]

/-- Logs that are there can be removed in any batches. -/
theorem replay_removedLogs (rest : Multiset Log) (batches : List (List Log)) :
    replay (rest + (batches.flatten : Multiset Log)) (batches.map .removedLogs) = some rest := by
  induction batches with
  | nil => simp [replay]
  | cons batch further ih =>
    have shape : rest + ((batch :: further).flatten : Multiset Log) = (rest + further.flatten) + batch := by
      rw [List.flatten_cons, ← Multiset.coe_add, add_assoc, add_comm (batch : Multiset Log)]
    rw [List.map_cons, replay, replayEvent, shape, if_pos (Multiset.le_add_left _ _), Option.bind_some,
      Multiset.add_sub_cancel_right, ih]

/-- What a log's count has gained and lost. -/
theorem count_of_replay (log : Log) {view after : Multiset Log} {events : List (LogsEvent Log)}
    (replayed : replay view events = some after) :
    after.count log + removed log events = view.count log + announced log events := by
  induction events generalizing view with
  | nil =>
    cases replayed
    rfl
  | cons event rest ih =>
    obtain ⟨next, here, further⟩ := Option.bind_eq_some_iff.mp replayed
    have counted := ih further
    cases event with
    | logs logs =>
      cases here
      rw [Multiset.count_add, Multiset.coe_count] at counted
      rw [removed, announced]
      omega
    | removedLogs logs =>
      rw [replayEvent] at here
      by_cases there : (logs : Multiset Log) ≤ view
      · rw [if_pos there] at here
        cases here
        -- A removal takes only what is there.
        have held := Multiset.count_le_of_le log there
        rw [Multiset.count_sub, Multiset.coe_count] at counted
        rw [Multiset.coe_count] at held
        rw [removed, announced]
        omega
      · rw [if_neg there] at here
        cases here

/-! ## What the chain publishes -/

/-- Logs are sent when there are more than 512 of them, and at the end. -/
def batches : List Log → List (List Log) → List (List Log)
  | pending, [] => if pending.length > 0 then [pending] else []
  | pending, logs :: rest =>
    if (pending ++ logs).length > 512 then (pending ++ logs) :: batches [] rest else batches (pending ++ logs) rest

omit [DecidableEq Log] in
theorem batches_flatten (pending : List Log) (logs : List (List Log)) : (batches pending logs).flatten = pending ++ logs.flatten := by
  induction logs generalizing pending with
  | nil =>
    unfold batches
    split
    · simp
    · next few =>
      rw [Nat.not_lt, Nat.le_zero, List.length_eq_zero_iff] at few
      simp [few]
  | cons head rest ih =>
    unfold batches
    split
    · simp [ih]
    · simp [ih]

variable {Block Hash : Type} [ChainBlock Block Hash] (logs : Block → List Log)

/-- The logs of the receipts of a block, which are written and deleted with it. -/
def collectLogs (db : Database Block Hash) (block : Block) : List Log :=
  match db.getBlock (hash block) (number block) with
  | some stored => logs stored
  | none => []

/-- The old chain of a reorganization: what its loops take from the old head down to above the common block. -/
def oldChain (db : Database Block Hash) (oldHead common : Block) : List Block :=
  match db.gather (number common) (number oldHead) oldHead with
  | some (chain, _) => chain
  | none => []

section

variable [DecidableEq Hash]

/-- The removed logs of the old chain, and the reborn logs of the new chain without its head, from the bottom up. -/
def reorgEvents (db : Database Block Hash) (oldHead newHead : Block) : List (LogsEvent Log) :=
  match db.findCommonBlock oldHead newHead with
  | .error _ => []
  | .ok (newChain, common) =>
    (batches [] ((oldChain db oldHead common).reverse.map (collectLogs logs db))).map .removedLogs ++
      (batches [] (newChain.tail.reverse.map (collectLogs logs db))).map .logs

variable (chain : BlockChain Block Hash)

/-- The new head itself is not announced. -/
def writeKnownBlockEvents (block : Block) : List (LogsEvent Log) :=
  if parentHash block ≠ hash chain.currentBlock then reorgEvents logs chain.db chain.currentBlock block else []

def setPreferenceEvents (block : Block) : List (LogsEvent Log) :=
  if hash chain.currentBlock = hash block then [] else writeKnownBlockEvents logs chain block

def acceptEvents (block : Block) : List (LogsEvent Log) :=
  if chain.db.getCanonicalHash (number block) ≠ some (hash block) then setPreferenceEvents logs chain block else []

def writeCanonicalBlockWithLogsEvents (block : Block) : List (LogsEvent Log) :=
  if (logs block).length > 0 then [.logs (logs block)] else []

def insertBlockEvents (block : Block) : List (LogsEvent Log) :=
  if parentHash block = hash chain.currentBlock then writeCanonicalBlockWithLogsEvents logs block else []

/-- The events of a call that succeeds. A call publishes nothing before its last error. -/
def callEvents : Call Block → List (LogsEvent Log)
  | .insert _ block _ _ => insertBlockEvents logs chain block
  | .setPreference block => setPreferenceEvents logs chain block
  | .accept block => acceptEvents logs chain block
  | .reject _ _ _ => []

end

/-- The chain, with the head when a subscriber came and the events since. -/
structure Feed (Block Hash Log : Type) [ChainBlock Block Hash] where
  state : State Block Hash
  start : Block
  events : List (LogsEvent Log)

def Feed.head (feed : Feed Block Hash Log) : Block := feed.state.chain.currentBlock

section

variable [DecidableEq Hash]

def Feed.make (feed : Feed Block Hash Log) (call : Call Block) : Feed Block Hash Log :=
  match feed.state.make call with
  | (.ok _, state) => { feed with state := state, events := feed.events ++ callEvents logs feed.state.chain call }
  | (.error _, state) => { feed with state := state }

/-- A subscriber may come in any state of the chain. -/
def subscription : System (Feed Block Hash Log) (Call Block) where
  initial feed := Reach (consensus Block Hash) State.Legal feed.state ∧ feed.start = feed.head ∧ feed.events = []
  step feed call after := after = feed.make logs call

end

/-- The logs of blocks, in any order. -/
def logsOf (blocks : List Block) : Multiset Log := (blocks.flatMap logs : List Log)

omit [DecidableEq Log] in
theorem logsOf_append (first second : List Block) : logsOf logs (first ++ second) = logsOf logs first + logsOf logs second := by
  rw [logsOf, List.flatMap_append, ← Multiset.coe_add]
  rfl

/-- The events are exactly what the logs have gained and lost from one head to the other, and no log is removed that the
subscriber does not have. -/
structure Reconciled (start head : Block) (events : List (LogsEvent Log)) : Prop where
  net : ∀ common branch abandoned, Path common branch head → Path common abandoned start → ∀ log,
    announced log events + (abandoned.flatMap logs).count log = removed log events + (branch.flatMap logs).count log
  replayed : ∃ genesis old new, IsGenesis genesis ∧ Path genesis old start ∧ Path genesis new head ∧
    replay (logsOf logs old) events = some (logsOf logs new)

/-- The call sets no head that has logs and is not canonical yet. The chain refuses a block apart from the last accepted one. -/
def Quiet (chain : BlockChain Block Hash) : Call Block → Prop
  | .setPreference block | .accept block =>
    Ancestor block chain.currentBlock ∨ ¬ Ancestor chain.lastAccepted block ∨ logs block = []
  | _ => True

/-! ## One call -/

section

variable {logs} {db : Database Block Hash} {chain : BlockChain Block Hash} {genesis common : Block} {state : State Block Hash}

omit [DecidableEq Log] in
theorem collectLogs_stored {block : Block} (stored : db.Stored block) : collectLogs logs db block = logs block := by
  have found : db.getBlock (hash block) (number block) = some block := Database.getBlock_eq_some.mpr ⟨stored, rfl⟩
  rw [collectLogs, found]

omit [DecidableEq Log] in
theorem flatten_collectLogs {blocks : List Block} (stored : ∀ block ∈ blocks, db.Stored block) :
    ((batches [] (blocks.map (collectLogs logs db))).flatten : Multiset Log) = logsOf logs blocks := by
  rw [batches_flatten, List.nil_append, List.map_congr_left fun block member => collectLogs_stored (stored block member), logsOf,
    List.flatMap_def]

variable [DecidableEq Hash]

/-- The walk from a head to one of its ancestors ends there. -/
theorem findCommonBlock_ancestor {oldHead newHead : Block} {newChain : List Block} (above : Ancestor newHead oldHead)
    (found : db.findCommonBlock oldHead newHead = .ok (newChain, common)) : newChain = [] := by
  have met : ∀ {steps : Nat} {found : List Block × Block}, db.meet steps newHead newHead = .ok found → found.1 = [] := by
    intro steps found met
    cases steps with
    | zero =>
      rw [Database.meet, if_pos rfl] at met
      cases met
      rfl
    | succ steps =>
      rw [Database.meet, if_pos rfl] at met
      cases met
      rfl
  unfold Database.findCommonBlock at found
  rw [Checked.bind_eq_ok] at found
  obtain ⟨oldBlock, present, walked⟩ := found
  obtain rfl : oldBlock = oldHead :=
    hash_injective (db.keyed _ _ (Database.getBlock_eq_some.mp (Checked.need_eq_ok.mp present)).1)
  split at walked
  · rw [Checked.bind_eq_ok] at walked
    obtain ⟨⟨dropped, reduced⟩, gathered, walked⟩ := walked
    obtain ⟨level, path⟩ := Database.gather_eq_some (Checked.need_eq_ok.mp gathered)
    obtain rfl : reduced = newHead := path.ancestor.unique above level
    exact met walked
  · next shorter =>
    obtain rfl : newHead = oldBlock := above.eq_of_level (Nat.le_of_not_gt shorter)
    -- At the same number the ancestor is the head itself.
    have there : ∀ steps, db.gather (number newHead) steps newHead = some ([], newHead) := by
      intro steps
      cases steps with
      | zero => rw [Database.gather, if_pos rfl]
      | succ steps => rw [Database.gather, if_pos rfl]
    rw [there, Checked.need_some, Checked.ok_bind, Checked.bind_eq_ok] at walked
    obtain ⟨last, walked, same⟩ := walked
    cases same
    exact met walked

theorem reorg_walks (chain : BlockChain Block Hash) (block : Block) :
    Ends chain (reorg chain.currentBlock block) fun result _ => result = .ok () →
      ∃ newChain common, chain.db.findCommonBlock chain.currentBlock block = .ok (newChain, common) ∧
        number chain.lastAccepted ≤ number common := by
  unfold reorg
  refine Ends.get_bind (Ends.check_bind (fun _ _ ended => (nomatch ended)) fun found walked => ?_)
  obtain ⟨newChain, common⟩ := found
  refine Ends.check_bind (fun _ _ ended => (nomatch ended)) fun _ kept => ?_
  have low := Nat.le_of_not_lt (Checked.refuse_eq_ok.mp kept)
  unfold Ends
  exact fun _ => ⟨newChain, common, walked, low⟩

/-- A preference that is set ends the head's own way there: nothing, one step, or a walk. -/
theorem setPreference_walks (chain : BlockChain Block Hash) (block : Block) :
    Ends chain (setPreference block) fun result _ => result = .ok () →
      hash chain.currentBlock = hash block ∨ parentHash block = hash chain.currentBlock ∨
        ∃ newChain common, chain.db.findCommonBlock chain.currentBlock block = .ok (newChain, common) ∧
          number chain.lastAccepted ≤ number common := by
  unfold setPreference
  refine Ends.get_bind ?_
  dsimp only
  split
  · next same => exact fun _ => .inl same
  refine Ends.wrap (Ends.get_bind ?_)
  dsimp only
  split
  · refine Ends.bind (reorg_walks chain block) (fun _ _ _ ended => (nomatch ended)) fun _ _ walked _ => ?_
    exact .inr (.inr (walked rfl))
  · next same => exact fun _ => .inr (.inl (not_not.mp same))

/-- What the events are to do from the logs under one head to those under another. -/
def Replays (logs : Block → List Log) (genesis head next : Block) (events : List (LogsEvent Log)) : Prop :=
  ∀ old, Path genesis old head → ∃ new, Path genesis new next ∧
    replay (logsOf logs old) events = some (logsOf logs new)

omit [DecidableEq Hash] in
theorem Replays.nothing (genesis head : Block) : Replays logs genesis head head [] := fun old path => ⟨old, path, rfl⟩

omit [DecidableEq Hash] in
/-- A child without logs becomes the head. -/
theorem Replays.child {head block : Block} (step : IsParent head block) {events : List (LogsEvent Log)}
    (announced : ∀ view : Multiset Log, replay view events = some (view + (logs block : Multiset Log))) :
    Replays logs genesis head block events := by
  intro old path
  refine ⟨old ++ [block], path.append_child step, ?_⟩
  rw [announced, logsOf_append, logsOf, logsOf, List.flatMap_singleton]

omit [DecidableEq Hash] in
theorem replay_writeCanonicalBlockWithLogs (block : Block) (view : Multiset Log) :
    replay view (writeCanonicalBlockWithLogsEvents logs block) = some (view + (logs block : Multiset Log)) := by
  unfold writeCanonicalBlockWithLogsEvents
  split
  · rfl
  · next none_there =>
    rw [Nat.not_lt, Nat.le_zero, List.length_eq_zero_iff] at none_there
    rw [none_there]
    exact congrArg some (add_zero view).symm

/-- The old chain's logs are removed and the new chain's are announced, but for those of its head. -/
theorem reorg_replays (invariant : Invariant genesis state) (first : IsGenesis genesis) {block : Block} {newChain : List Block}
    (member : block ∈ state.inserted)
    (found : state.chain.db.findCommonBlock state.chain.currentBlock block = .ok (newChain, common))
    (kept : number state.chain.lastAccepted ≤ number common) (quiet : newChain = [] ∨ logs block = []) :
    Replays logs genesis state.chain.currentBlock block (reorgEvents logs state.chain.db state.chain.currentBlock block) := by
  intro old path
  obtain ⟨above, way⟩ := Database.findCommonBlock_eq_ok found
  have rooted := invariant.based.trans invariant.last
  have low : number genesis ≤ number common := by
    rw [first.number_eq]
    exact Nat.zero_le _
  have based : Ancestor genesis common := rooted.of_level_le above low
  have decided : Ancestor state.chain.lastAccepted common := invariant.last.of_level_le above kept
  obtain ⟨shared, shared_path⟩ := Path.exists_of_ancestor based
  -- The blocks of the old chain are on disk.
  obtain ⟨dropped, gathered⟩ := Database.gather_of_stored above
    (fun middle under beneath _ => invariant.stored_above (based.trans under) beneath) (Nat.le_refl _)
  obtain ⟨-, old_way⟩ := Database.gather_eq_some gathered
  have old_eq : old = shared ++ dropped.reverse := path.unique (shared_path.append old_way)
  have dropped_stored : ∀ middle ∈ dropped.reverse, state.chain.db.Stored middle := by
    intro middle listed
    obtain ⟨under, -, beneath⟩ := old_way.between listed
    exact invariant.stored_above (based.trans under) beneath
  -- So are those of the new chain below its head.
  have adopted_stored : ∀ middle ∈ newChain.tail.reverse, state.chain.db.Stored middle := by
    intro middle listed
    obtain ⟨under, -, beneath⟩ := way.between (List.mem_reverse.mpr (List.mem_of_mem_tail (List.mem_reverse.mp listed)))
    refine invariant.stored middle (invariant.closed.ancestor member (based.trans under) beneath) fun rejected => ?_
    obtain ⟨accepted, inside, apart, -⟩ := invariant.rejected middle rejected
    exact apart (((invariant.accepted accepted inside).trans decided).trans under)
  have chain_eq : oldChain state.chain.db state.chain.currentBlock common = dropped := by rw [oldChain, gathered]
  have new_logs : logsOf logs newChain.tail.reverse = logsOf logs newChain.reverse := by
    cases newChain with
    | nil => rfl
    | cons top rest =>
      rw [List.reverse_cons] at way ⊢
      rcases way.exists_last with ⟨empty, -⟩ | ⟨front, parent, whole, -, -⟩
      · simp at empty
      · obtain ⟨-, same⟩ := List.append_inj' whole rfl
        obtain rfl : top = block := List.singleton_inj.mp same
        have alone : logsOf logs [top] = 0 := by
          rw [logsOf, List.flatMap_singleton, quiet.resolve_left (List.cons_ne_nil _ _)]
          rfl
        rw [logsOf_append, alone, add_zero, List.tail_cons]
  -- Both chains begin with the path from the first block to the common one.
  refine ⟨shared ++ newChain.reverse, shared_path.append way, ?_⟩
  have removing := replay_removedLogs (logsOf logs shared) (batches [] (dropped.reverse.map (collectLogs logs state.chain.db)))
  rw [flatten_collectLogs dropped_stored] at removing
  rw [reorgEvents, found]
  dsimp only
  rw [chain_eq, old_eq, logsOf_append, logsOf_append, replay_append removing, replay_logs,
    flatten_collectLogs adopted_stored, new_logs]

/-- A quiet preference that is set. -/
theorem setPreference_replays (invariant : Invariant genesis state) (first : IsGenesis genesis) {block : Block}
    (member : block ∈ state.inserted)
    (quiet : Ancestor block state.chain.currentBlock ∨ ¬ Ancestor state.chain.lastAccepted block ∨ logs block = [])
    (ended : (perform (setPreference block) state.chain).1 = .ok ()) :
    Replays logs genesis state.chain.currentBlock block (setPreferenceEvents logs state.chain block) := by
  unfold setPreferenceEvents
  by_cases same : hash state.chain.currentBlock = hash block
  · rw [if_pos same, hash_injective same]
    exact Replays.nothing genesis block
  rw [if_neg same]
  unfold writeKnownBlockEvents
  by_cases next : parentHash block = hash state.chain.currentBlock
  · -- A child of the head becomes the head without any event.
    have step := invariant.closed.isParent first.isOrigin invariant.head member next.symm
    have silent : logs block = [] := by
      rcases quiet with above | apart | silent
      · have low := number_le above
        have high := number_child step
        omega
      · exact absurd (invariant.last.child step) apart
      · exact silent
    rw [if_neg (not_not.mpr next)]
    refine Replays.child step fun view => ?_
    rw [silent]
    exact congrArg some (add_zero view).symm
  · rw [if_pos next]
    obtain ⟨newChain, common, found, kept⟩ := ((setPreference_walks state.chain block ended).resolve_left same).resolve_left next
    refine reorg_replays invariant first member found kept ?_
    rcases quiet with above | apart | silent
    · exact .inl (findCommonBlock_ancestor above found)
    · obtain ⟨above, way⟩ := Database.findCommonBlock_eq_ok found
      exact absurd ((invariant.last.of_level_le above kept).trans way.ancestor) apart
    · exact .inr silent

/-- An inserted block is the new head if it is a child of the head. -/
theorem insertBlock_head (chain : BlockChain Block Hash) (parent block : Block) (verification commit : Except String Unit) :
    Ends chain (insertBlock parent block verification commit) fun result after => result = .ok () →
      number block = number parent + 1 ∧
        after.currentBlock = if parentHash block = hash chain.currentBlock then block else chain.currentBlock := by
  unfold insertBlock
  refine Ends.check_bind (fun _ _ ended => (nomatch ended)) fun _ next => ?_
  refine Ends.check_bind (fun _ _ ended => (nomatch ended)) fun _ _ => Ends.modify_bind ?_
  refine Ends.check_bind (fun _ _ ended => (nomatch ended)) fun _ _ => Ends.get_bind ?_
  replace next := not_not.mp (Checked.refuse_eq_ok.mp next)
  dsimp only
  split
  · next extends_head => exact fun _ => ⟨next, (if_pos extends_head).symm⟩
  · next apart => exact fun _ => ⟨next, (if_neg apart).symm⟩

/-- An acceptance sets the preference unless the block is canonical. -/
theorem accept_head (chain : BlockChain Block Hash) (block : Block) :
    Ends chain (accept block) fun result after => result = .ok () →
      if chain.db.getCanonicalHash (number block) ≠ some (hash block) then
        (perform (setPreference block) chain).1 = .ok () ∧ after.currentBlock = block
      else after.currentBlock = chain.currentBlock := by
  unfold accept
  refine Ends.get_bind (Ends.check_bind (fun _ _ ended => (nomatch ended)) fun _ _ => ?_)
  dsimp only
  split
  · rcases ended : perform (setPreference block) chain with ⟨result, after⟩
    have set := (setPreference_ends chain block).of_perform ended
    have preferred : Ends chain (Stateful.wrap (Error.notPreferred (number block) (hash block)) (setPreference block))
        fun wrapped last => (wrapped, last) = (result.mapError (.notPreferred (number block) (hash block)), after) := by
      refine Ends.wrap ?_
      unfold Ends
      rw [ended]
    refine Ends.bind preferred (fun _ _ _ ended => (nomatch ended)) fun done last same _ => ?_
    cases result with
    | error cause => cases congrArg Prod.fst same
    | ok done =>
      obtain rfl : last = after := congrArg Prod.snd same
      have moved : Moved chain block last := set
      exact ⟨rfl, moved.currentBlock⟩
  · exact fun _ => rfl

/-- The head after a quiet call that succeeds, and what its events do. -/
theorem make_replays (invariant : Invariant genesis state) (first : IsGenesis genesis) {call : Call Block} (legal : state.Legal call)
    (quiet : Quiet logs state.chain call) {after : State Block Hash} (made : state.make call = (.ok (), after)) :
    Replays logs genesis state.chain.currentBlock after.chain.currentBlock (callEvents logs state.chain call) := by
  unfold State.make at made
  rcases ended : perform call.action state.chain with ⟨result, chain⟩
  rw [ended] at made
  cases result with
  | error cause => cases congrArg Prod.fst made
  | ok done =>
  obtain rfl : ({ state with chain := chain } : State Block Hash).note call = after := congrArg Prod.snd made
  cases call with
  | insert parent block verification commit =>
    have ends := (insertBlock_head state.chain parent block verification commit).of_perform ended
    obtain ⟨next, head⟩ := ends rfl
    show Replays logs genesis state.chain.currentBlock chain.currentBlock (insertBlockEvents logs state.chain block)
    unfold insertBlockEvents
    by_cases named : parentHash block = hash state.chain.currentBlock
    · rw [if_pos named] at head ⊢
      rw [head]
      obtain rfl : parent = state.chain.currentBlock := hash_injective (legal.2.trans named)
      exact Replays.child ⟨legal.2, next⟩ (replay_writeCanonicalBlockWithLogs block)
    · rw [if_neg named] at head ⊢
      rw [head]
      exact Replays.nothing genesis _
  | setPreference block =>
    have moved : Moved state.chain block chain := (setPreference_ends state.chain block).of_perform ended
    show Replays logs genesis state.chain.currentBlock chain.currentBlock (setPreferenceEvents logs state.chain block)
    rw [moved.currentBlock]
    exact setPreference_replays invariant first legal.1 quiet (congrArg Prod.fst ended)
  | accept block =>
    have ends := (accept_head state.chain block).of_perform ended
    have head := ends rfl
    show Replays logs genesis state.chain.currentBlock chain.currentBlock (acceptEvents logs state.chain block)
    unfold acceptEvents
    by_cases apart : state.chain.db.getCanonicalHash (number block) ≠ some (hash block)
    · rw [if_pos apart] at head ⊢
      rw [head.2]
      exact setPreference_replays invariant first legal.1 quiet head.1
    · rw [if_neg apart] at head ⊢
      rw [head]
      exact Replays.nothing genesis _
  | reject block trie batch =>
    have ends := (reject_ends state.chain block trie batch).of_perform ended
    have written : chain = state.chain.write (.deleteBlock block) := ends
    have head : chain.currentBlock = state.chain.currentBlock := by
      rw [written]
      rfl
    show Replays logs genesis state.chain.currentBlock chain.currentBlock []
    rw [head]
    exact Replays.nothing genesis _

/-- An error leaves the head. -/
theorem make_error_head {call : Call Block} {cause : Error Hash} {after : State Block Hash}
    (made : state.make call = (.error cause, after)) : after.chain.currentBlock = state.chain.currentBlock := by
  cases State.make_cases made with
  | refused => rfl
  | stored => rfl

/-! ## Whole runs -/

/-- The chain of the feed is that of a run, and a subscriber with the logs under the first head has those under the present one. -/
structure Sound (logs : Block → List Log) (feed : Feed Block Hash Log) : Prop where
  reach : Reach (consensus Block Hash) State.Legal feed.state
  replays : ∃ genesis, IsGenesis genesis ∧ Invariant genesis feed.state ∧ Ancestor genesis feed.start ∧
    Replays logs genesis feed.start feed.head feed.events

theorem Sound.make {feed : Feed Block Hash Log} (sound : Sound logs feed) {call : Call Block} (legal : feed.state.Legal call)
    (quiet : Quiet logs feed.state.chain call) : Sound logs (feed.make logs call) := by
  obtain ⟨genesis, first, invariant, based, replays⟩ := sound.replays
  have kept := invariant.make first.isOrigin legal
  have reach := Reach.next sound.reach legal rfl
  unfold Feed.make
  rcases made : feed.state.make call with ⟨result, after⟩
  rw [made] at kept reach
  cases result with
  | error cause =>
    refine ⟨reach, genesis, first, kept, based, ?_⟩
    show Replays logs genesis feed.start after.chain.currentBlock feed.events
    rw [make_error_head made]
    exact replays
  | ok done =>
    refine ⟨reach, genesis, first, kept, based, fun old path => ?_⟩
    obtain ⟨middle, way, replayed⟩ := replays old path
    obtain ⟨new, further, here⟩ := make_replays invariant first legal quiet made middle way
    refine ⟨new, further, ?_⟩
    exact (replay_append replayed).trans here

omit [DecidableEq Hash] in
/-- A replay from the logs under one head to those under another one has the right events in sum. -/
theorem Reconciled.of_replays {start head : Block} {events : List (LogsEvent Log)} (first : IsGenesis genesis)
    (based : Ancestor genesis start) (replays : Replays logs genesis start head events) : Reconciled logs start head events := by
  obtain ⟨old, path⟩ := Path.exists_of_ancestor based
  obtain ⟨new, way, replayed⟩ := replays old path
  refine ⟨fun common branch abandoned fresh dead log => ?_, genesis, old, new, first, path, way, replayed⟩
  have low : number genesis ≤ number common := by
    rw [first.number_eq]
    exact Nat.zero_le _
  obtain ⟨shared, under⟩ := Path.exists_of_ancestor (based.of_level_le dead.ancestor low)
  -- Both paths from the first block lead over the common one.
  have counted := count_of_replay log replayed
  rw [path.unique (under.append dead), way.unique (under.append fresh), logsOf_append, logsOf_append, Multiset.count_add,
    Multiset.count_add] at counted
  have branch_count : (logsOf logs branch).count log = (branch.flatMap logs).count log := Multiset.coe_count ..
  have abandoned_count : (logsOf logs abandoned).count log = (abandoned.flatMap logs).count log := Multiset.coe_count ..
  omega

/-- The feeds of the runs whose calls meet the condition. -/
abbrev FeedReach (logs : Block → List Log) (condition : Feed Block Hash Log → Call Block → Prop)
    (feed : Feed Block Hash Log) : Prop :=
  Reach (subscription logs) condition feed

/-- Each of the calls meets the condition where it is made. -/
def Allowed (logs : Block → List Log) (condition : Feed Block Hash Log → Call Block → Prop) :
    List (Call Block) → Feed Block Hash Log → Prop
  | [], _ => True
  | call :: rest, feed => condition feed call ∧ Allowed logs condition rest (feed.make logs call)

omit [DecidableEq Log] in
theorem FeedReach.calls {condition : Feed Block Hash Log → Call Block → Prop} {calls : List (Call Block)}
    {feed : Feed Block Hash Log} (reach : FeedReach logs condition feed) (allowed : Allowed logs condition calls feed) :
    FeedReach logs condition (calls.foldl (fun feed call => feed.make logs call) feed) := by
  induction calls generalizing feed with
  | nil => exact reach
  | cons call rest ih => exact ih (.next reach allowed.1 rfl) allowed.2

/-- Events and heads agree in every run that sets no head with logs beside the chain. -/
theorem log_events_reconcile {feed : Feed Block Hash Log}
    (reach : FeedReach logs (fun feed call => feed.state.Legal call ∧ Quiet logs feed.state.chain call) feed) :
    Reconciled logs feed.start feed.head feed.events := by
  have sound : Sound logs feed := by
    refine reach.invariant (Sound logs) ?_ ?_
    · rintro feed ⟨reached, start, events⟩
      obtain ⟨genesis, first, invariant⟩ := exists_invariant reached
      refine ⟨reached, genesis, first, invariant, ?_, ?_⟩
      · rw [start]
        exact invariant.based.trans invariant.last
      · rw [start, events]
        exact Replays.nothing genesis feed.head
    · rintro feed call after sound ⟨legal, quiet⟩ rfl
      exact sound.make legal quiet
  obtain ⟨genesis, first, -, based, replays⟩ := sound.replays
  exact .of_replays first based replays

end

/-! ## Samples -/

/-- A block has its last turn as a log, unless that is nine. -/
def sampleLogs (block : Route) : List Nat := block.turns.head?.toList.filter (· ≠ 9)

def sampleStart : Feed Route (Option (List Nat)) Nat := ⟨.ofGenesis ⟨[]⟩, ⟨[]⟩, []⟩

/-- From the first block on. -/
def sampleFeed (calls : List (Call Route)) : Feed Route (Option (List Nat)) Nat :=
  calls.foldl (fun feed call => feed.make sampleLogs call) sampleStart

theorem sampleStart_reach (condition : Feed Route (Option (List Nat)) Nat → Call Route → Prop) :
    FeedReach sampleLogs condition sampleStart :=
  .start ⟨.start ⟨⟨[]⟩, Route.genesis, rfl⟩, rfl, rfl⟩

/-- Two children of the first block: the second is preferred. -/
def siblingCalls : List (Call Route) :=
  [.insert ⟨[]⟩ ⟨[0]⟩ (.ok ()) (.ok ()), .insert ⟨[]⟩ ⟨[1]⟩ (.ok ()) (.ok ()), .setPreference ⟨[1]⟩]

/-- The logs of a preferred block are not announced, while those of its sibling are removed. -/
theorem preferred_logs_missing : ¬ ∀ feed : Feed Route (Option (List Nat)) Nat,
    FeedReach sampleLogs (fun feed call => feed.state.Legal call) feed →
    Reconciled sampleLogs feed.start feed.head feed.events := by
  intro claimed
  have allowed : Allowed sampleLogs (fun feed call => feed.state.Legal call) siblingCalls sampleStart :=
    ⟨⟨by decide, rfl⟩, ⟨by decide, rfl⟩, ⟨by decide, by decide⟩, trivial⟩
  have reach : FeedReach sampleLogs _ (sampleFeed siblingCalls) := (sampleStart_reach _).calls allowed
  have net := (claimed _ reach).net ⟨[]⟩ [⟨[1]⟩] [] ⟨⟨rfl, rfl⟩, rfl⟩ rfl 1
  exact absurd net (by decide)

/-- The second child has a child without logs, which is preferred. -/
def quietCalls : List (Call Route) :=
  [.insert ⟨[]⟩ ⟨[0]⟩ (.ok ()) (.ok ()), .insert ⟨[]⟩ ⟨[1]⟩ (.ok ()) (.ok ()), .insert ⟨[1]⟩ ⟨[9, 1]⟩ (.ok ()) (.ok ()),
   .setPreference ⟨[9, 1]⟩]

theorem log_events_reconcile_quiet :
    Reconciled sampleLogs (sampleFeed quietCalls).start (sampleFeed quietCalls).head (sampleFeed quietCalls).events := by
  have allowed : Allowed sampleLogs (fun feed call => feed.state.Legal call ∧ Quiet sampleLogs feed.state.chain call) quietCalls
      sampleStart :=
    ⟨⟨⟨by decide, rfl⟩, trivial⟩, ⟨⟨by decide, rfl⟩, trivial⟩, ⟨⟨by decide, rfl⟩, trivial⟩,
      ⟨⟨by decide, by decide⟩, .inr (.inr rfl)⟩, trivial⟩
  exact log_events_reconcile ((sampleStart_reach _).calls allowed)

end Snowside.LogFeed
