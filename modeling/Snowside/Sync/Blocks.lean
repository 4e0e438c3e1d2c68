import Snowside.Blockchain.Available

/-! The blocks that state sync provides below a summary, and the index of canonical hashes
that it leaves.
-/

set_option autoImplicit false

namespace Snowside.SyncedBlocks

open Ancestry (IsParent Ancestor)
open Blockchain
open Checked (need refuse)
open Stateful (Action Ends Moves perform check)

variable {Block Hash Root Transaction : Type} [ChainBlock Block Hash] [StateBlock Block Root Transaction]

/-- The number of parents that state sync fetches. -/
def parentsToFetch : Nat := 256

def parentsPerRequest : Nat := 32

/-! ## Blocks from peers -/

structure BlockRequest (Hash : Type) where
  hash : Hash
  height : UInt64
  parents : Nat

inductive BlocksError (Hash : Type) where
  | emptyResponse
  | tooManyBlocks
  | hashMismatch (got expected : Hash)

section

variable [DecidableEq Hash]

/-- Each block is the parent of the one before it. -/
def checkHashes : Hash → List Block → Except (BlocksError Hash) Unit
  | _, [] => .ok ()
  | expected, block :: rest => do
    refuse (hash block ≠ expected) (.hashMismatch (hash block) expected)
    checkHashes (parentHash block) rest

def parseBlocks (request : BlockRequest Hash) (blocks : List Block) : Except (BlocksError Hash) (List Block) := do
  refuse (blocks.length = 0) .emptyResponse
  refuse (request.parents < blocks.length) .tooManyBlocks
  checkHashes request.hash blocks
  return blocks

/-- The responses to a request, until the context is done. -/
abbrev Peers (Block Hash : Type) : Type := BlockRequest Hash → List (List Block)

/-- The first response that is accepted. -/
def getBlocks (peers : Peers Block Hash) (request : BlockRequest Hash) : Option (List Block) :=
  (peers request).findSome? fun blocks => (parseBlocks request blocks).toOption

end

/-! ## syncBlocks -/

inductive SyncError (Hash : Type) where
  | context
  | getBlocks (nextHash : Hash)

/-- The loop over blocks on disk: it ends with one more than the parents that are left to get, and the next block. -/
def skipStored (db : Database Block Hash) : Nat → Hash → UInt64 → Nat × Hash × UInt64
  | 0, nextHash, nextHeight => (0, nextHash, nextHeight)
  | remaining + 1, nextHash, nextHeight =>
    match db.getBlock nextHash nextHeight.toNat with
    | some block => skipStored db remaining (parentHash block) (nextHeight - 1)
    | none => (remaining + 1, nextHash, nextHeight)

/-- The loop over requests, with the blocks of the batch. -/
structure Fetch (Block Hash : Type) where
  i : Int
  nextHash : Hash
  nextHeight : UInt64
  batch : List Block

def Fetch.take (fetch : Fetch Block Hash) (block : Block) : Fetch Block Hash :=
  ⟨fetch.i - 1, parentHash block, fetch.nextHeight - 1, fetch.batch ++ [block]⟩

section

variable [DecidableEq Hash] (zeroHash : Hash)

/-- Each call finds its peers, or the context done. -/
def fetchBlocks : List (Option (Peers Block Hash)) → Fetch Block Hash → Except (SyncError Hash) (List Block)
  | [], fetch => if 0 ≤ fetch.i ∧ fetch.nextHash ≠ zeroHash then .error .context else .ok fetch.batch
  | call :: rest, fetch =>
    if 0 ≤ fetch.i ∧ fetch.nextHash ≠ zeroHash then
      match call with
      | none => .error .context
      | some peers =>
        match getBlocks peers ⟨fetch.nextHash, fetch.nextHeight, parentsPerRequest⟩ with
        | none => .error (.getBlocks fetch.nextHash)
        | some blocks => fetchBlocks rest (blocks.foldl Fetch.take fetch)
    else .ok fetch.batch

/-- WriteBlock and WriteCanonicalHash. -/
def writeFetched (db : Database Block Hash) (block : Block) : Database Block Hash :=
  let db := db.apply (.block block)
  { db with canonical := db.canonical.write (number block) (hash block) }

def syncBlocks (calls : List (Option (Peers Block Hash))) (fromHash : Hash) (fromHeight : UInt64) (parentsToGet : Nat)
    (db : Database Block Hash) : Except (SyncError Hash) (Database Block Hash) := do
  let (remaining, nextHash, nextHeight) := skipStored db (parentsToGet + 1) fromHash fromHeight
  let batch ← fetchBlocks zeroHash calls ⟨remaining - 2, nextHash, nextHeight, []⟩
  return batch.foldl writeFetched db

end

/-! ## finishSync -/

structure Summary (Hash : Type) where
  blockHash : Hash
  height : UInt64

inductive FinishError (Hash : Type) where
  | blockMissing (key : Hash)
  | unexpectedHash (found expected : Hash)
  | unexpectedNumber (found : Nat) (expected : UInt64)
  | reset (cause : RestartError Hash)
  | service (cause : String)

/-- What finishSync asks of the VM: its block of a hash, and its own steps with their results. -/
structure Services (Block Hash : Type) where
  getBlock : Hash → Option Block
  onFinishBeforeCommit : Except String Unit
  commitVMMarkers : Except String Unit
  setLastAcceptedBlock : Except String Unit
  onFinishAfterCommit : Except String Unit

section

variable [DecidableEq Hash] [DecidableEq Root] [DecidableEq Transaction]

/-- WriteHeadBlockHash and WriteHeadHeaderHash, which leave the index alone. -/
def writeHeadBlockHash (block : Block) (boot : Boot Block) : Boot Block :=
  { boot with disk := { boot.disk with chain := { boot.disk.chain with headBlockHash := hash block } } }

/-- loadLastState, for the hash of a block. -/
def loadLastState (commitInterval : Nat) (lastAcceptedHash : Hash) : Action (RestartError Hash) (Boot Block) Unit := do
  let disk := (← get).disk
  let headBlock ← check (need (.headMissing disk.chain.headBlockHash) (disk.chain.blocks disk.chain.headBlockHash))
  let lastAccepted ← check (need .lastAcceptedMissing (disk.chain.blocks lastAcceptedHash))
  loadPreference headBlock lastAccepted
  reprocessState lastAccepted (2 * commitInterval)

def resetToStateSyncedBlock (commitInterval : Nat) (block : Block) : Action (RestartError Hash) (Boot Block) Unit := do
  modify (Boot.write (.acceptedIndices block))
  modify (writeHeadBlockHash block)
  loadLastState commitInterval (hash block)
  let disk := (← get).disk
  check (refuse (¬ disk.hasState (root block)) (.headStateMissing (number block) (hash block)))

def finishSync (services : Services Block Hash) (commitInterval : Nat) (summary : Summary Hash) :
    Action (FinishError Hash) (Boot Block) Unit := do
  let block ← check (need (.blockMissing summary.blockHash) (services.getBlock summary.blockHash))
  check (refuse (hash block ≠ summary.blockHash) (.unexpectedHash (hash block) summary.blockHash))
  check (refuse (number block ≠ summary.height.toNat) (.unexpectedNumber (number block) summary.height))
  Stateful.wrap .reset (resetToStateSyncedBlock commitInterval block)
  check (services.onFinishBeforeCommit.mapError .service)
  check (services.commitVMMarkers.mapError .service)
  modify (Boot.write (.lastAccepted block))
  check (services.setLastAcceptedBlock.mapError .service)
  check (services.onFinishAfterCommit.mapError .service)

end

/-! ## The walk down -/

/-- A block whose ancestors go down to the genesis block. -/
structure Rooted (zeroHash : Hash) (origin tip : Block) : Prop where
  above : Ancestor origin tip
  first : number origin = 0
  bottom : parentHash origin = zeroHash

/-- Where the walk is after so many blocks: at the ancestor below them, or below the genesis block. -/
def At (zeroHash : Hash) (tip : Block) (passed : Nat) (nextHash : Hash) (nextHeight : UInt64) : Prop :=
  (∃ block, Ancestor block tip ∧ hash block = nextHash ∧ number block = nextHeight.toNat ∧ number tip = number block + passed) ∨
    (nextHash = zeroHash ∧ passed = number tip + 1)

/-- The ancestors from one depth to before another one. -/
def Window (tip : Block) (first beyond : Nat) (block : Block) : Prop :=
  Ancestor block tip ∧ number block + first ≤ number tip ∧ number tip < number block + beyond

section

variable {zeroHash : Hash} {origin tip : Block} {passed : Nat}

theorem Rooted.next (rooted : Rooted zeroHash origin tip) {block : Block} {height : UInt64} (above : Ancestor block tip)
    (numbered : number block = height.toNat) (count : number tip = number block + passed) :
    At zeroHash tip (passed + 1) (parentHash block) (height - 1) := by
  have first := rooted.first
  have based : Ancestor origin block := rooted.above.of_level_le above (by show number origin ≤ number block; omega)
  rcases based.eq_or_parent with rfl | ⟨parent, step, -⟩
  · exact .inr ⟨rooted.bottom, by omega⟩
  · have next := number_child step
    have one_le : 1 ≤ height := by
      rw [UInt64.le_iff_toNat_le]
      show 1 ≤ height.toNat
      omega
    have lower : (height - 1).toNat = height.toNat - 1 := UInt64.toNat_sub_of_le height 1 one_le
    exact .inl ⟨parent, (Ancestor.of_parent step).trans above, step.1, by omega, by omega⟩

/-- The block of the next hash is the ancestor at its depth. -/
theorem At.ancestor {nextHash : Hash} {nextHeight : UInt64} (place : At zeroHash tip passed nextHash nextHeight)
    (nonzero : ∀ block : Block, hash block ≠ zeroHash) {block : Block} (named : hash block = nextHash) :
    Ancestor block tip ∧ number block = nextHeight.toNat ∧ number tip = number block + passed := by
  rcases place with ⟨found, above, same, numbered, count⟩ | ⟨zero, -⟩
  · obtain rfl := hash_injective (same.trans named.symm)
    exact ⟨above, numbered, count⟩
  · exact absurd (named.trans zero) (nonzero block)

/-- The loop passes the blocks that are on disk, and stops at one that is not. -/
theorem skipStored_cases (nonzero : ∀ block : Block, hash block ≠ zeroHash) (rooted : Rooted zeroHash origin tip)
    (db : Database Block Hash) (remaining : Nat) {nextHash : Hash} {nextHeight : UInt64}
    (place : At zeroHash tip passed nextHash nextHeight) :
    ∃ left more hash height, skipStored db remaining nextHash nextHeight = (left, hash, height) ∧ left + more = remaining ∧
      At zeroHash tip (passed + more) hash height ∧ (∀ block, Window tip passed (passed + more) block → db.Stored block) ∧
      (left = 0 ∨ ∀ block, Ancestor block tip → number tip = number block + (passed + more) → ¬ db.Stored block) := by
  induction remaining generalizing passed nextHash nextHeight with
  | zero => exact ⟨0, 0, _, _, rfl, rfl, place, fun block ⟨_, low, high⟩ => (by omega), .inl rfl⟩
  | succ remaining ih =>
    unfold skipStored
    cases read : db.getBlock nextHash nextHeight.toNat with
    | some block =>
      obtain ⟨found, -⟩ := Database.getBlock_eq_some.mp read
      have named := db.keyed _ _ found
      obtain ⟨above, numbered, count⟩ := place.ancestor nonzero named
      obtain ⟨left, more, key, height, skipped, total, reached, stored, stopped⟩ := ih (rooted.next above numbered count)
      have deeper : passed + 1 + more = passed + (more + 1) := by omega
      rw [deeper] at reached stored stopped
      refine ⟨left, more + 1, key, height, skipped, by omega, reached, fun other ⟨further, low, high⟩ => ?_, stopped⟩
      by_cases here : number tip = number other + passed
      · obtain rfl := further.unique above (show number other = number block by omega)
        exact (congrArg db.blocks named).trans found
      · exact stored other ⟨further, by omega, high⟩
    | none =>
      refine ⟨remaining + 1, 0, _, _, rfl, rfl, place, fun block ⟨_, low, high⟩ => (by omega), .inr fun block above count stored => ?_⟩
      rcases place with ⟨found, here, named, numbered, same⟩ | ⟨-, below⟩
      · obtain rfl := above.unique here (show number block = number found by omega)
        have there := Database.getBlock_eq_some.mpr ⟨(congrArg db.blocks named).symm.trans stored, numbered⟩
        rw [read] at there
        cases there
      · omega

theorem At.ended (nonzero : ∀ block : Block, hash block ≠ zeroHash) {limit : Nat} {fetch : Fetch Block Hash}
    (place : At zeroHash tip passed fetch.nextHash fetch.nextHeight) (count : fetch.i + passed + 1 = limit)
    (done : ¬ (0 ≤ fetch.i ∧ fetch.nextHash ≠ zeroHash)) : limit ≤ passed ∨ passed = number tip + 1 := by
  rcases place with ⟨block, -, named, -⟩ | ⟨-, below⟩
  · have more : fetch.nextHash ≠ zeroHash := named ▸ nonzero block
    have none_left : ¬ 0 ≤ fetch.i := fun some_left => done ⟨some_left, more⟩
    exact .inl (by omega)
  · exact .inr below

variable [DecidableEq Hash]

/-- An accepted response has blocks, each the parent of the one before. -/
theorem getBlocks_eq_some {peers : Peers Block Hash} {request : BlockRequest Hash} {blocks : List Block}
    (got : getBlocks peers request = some blocks) : blocks ≠ [] ∧ checkHashes request.hash blocks = .ok () := by
  obtain ⟨response, -, accepted⟩ := List.exists_of_findSome?_eq_some got
  have parsed : parseBlocks request response = .ok blocks := by
    cases result : parseBlocks request response with
    | error cause =>
      rw [result] at accepted
      cases accepted
    | ok found =>
      rw [result] at accepted
      exact congrArg Except.ok (Option.some.inj accepted)
  unfold parseBlocks at parsed
  simp only [Checked.bind_eq_ok, Checked.refuse_eq_ok, Checked.pure_eq, Except.ok.injEq] at parsed
  obtain ⟨_, some_block, _, -, _, linked, rfl⟩ := parsed
  exact ⟨fun nothing => some_block (congrArg List.length nothing), linked⟩

/-- A batch has the ancestors from one depth to before another one. -/
def Covers (tip : Block) (first beyond : Nat) (batch : List Block) : Prop := ∀ block, block ∈ batch ↔ Window tip first beyond block

/-- One response is put into the batch. -/
theorem take_all (nonzero : ∀ block : Block, hash block ≠ zeroHash) (rooted : Rooted zeroHash origin tip) {first : Nat}
    {blocks : List Block} {fetch : Fetch Block Hash} (place : At zeroHash tip passed fetch.nextHash fetch.nextHeight)
    (covers : Covers tip first passed fetch.batch) (behind : first ≤ passed) (linked : checkHashes fetch.nextHash blocks = .ok ()) :
    At zeroHash tip (passed + blocks.length) (blocks.foldl Fetch.take fetch).nextHash (blocks.foldl Fetch.take fetch).nextHeight ∧
      Covers tip first (passed + blocks.length) (blocks.foldl Fetch.take fetch).batch ∧
      (blocks.foldl Fetch.take fetch).i = fetch.i - blocks.length := by
  induction blocks generalizing passed fetch with
  | nil => exact ⟨place, covers, by simp⟩
  | cons block rest ih =>
    unfold checkHashes at linked
    simp only [Checked.bind_eq_ok, Checked.refuse_eq_ok] at linked
    obtain ⟨-, named, linked⟩ := linked
    obtain ⟨above, numbered, count⟩ := place.ancestor nonzero (not_not.mp named)
    have longer : Covers tip first (passed + 1) (fetch.take block).batch := by
      intro other
      rw [Fetch.take, List.mem_append, List.mem_singleton, covers other]
      constructor
      · rintro (⟨further, low, high⟩ | rfl)
        · exact ⟨further, low, by omega⟩
        · exact ⟨above, by omega, by omega⟩
      · rintro ⟨further, low, high⟩
        by_cases here : number tip = number other + passed
        · exact .inr (further.unique above (show number other = number block by omega))
        · exact .inl ⟨further, low, by omega⟩
    obtain ⟨reached, covered, counted⟩ := ih (rooted.next above numbered count) longer (by omega) linked
    have total : passed + 1 + rest.length = passed + (block :: rest).length := by
      rw [List.length_cons]
      omega
    rw [total] at reached covered
    refine ⟨reached, covered, counted.trans ?_⟩
    rw [Fetch.take, List.length_cons]
    push_cast
    omega

/-- The loop ends when the blocks to get are fetched or there are no more. -/
theorem fetchBlocks_covers (nonzero : ∀ block : Block, hash block ≠ zeroHash) (rooted : Rooted zeroHash origin tip) {first limit : Nat}
    {calls : List (Option (Peers Block Hash))} {fetch : Fetch Block Hash} {batch : List Block}
    (place : At zeroHash tip passed fetch.nextHash fetch.nextHeight) (covers : Covers tip first passed fetch.batch)
    (behind : first ≤ passed) (count : fetch.i + passed + 1 = limit) (fetched : fetchBlocks zeroHash calls fetch = .ok batch) :
    ∃ beyond, Covers tip first beyond batch ∧ (limit ≤ beyond ∨ beyond = number tip + 1) := by
  induction calls generalizing passed fetch with
  | nil =>
    unfold fetchBlocks at fetched
    split at fetched
    · cases fetched
    · rename_i done
      cases fetched
      exact ⟨passed, covers, place.ended nonzero count done⟩
  | cons call rest ih =>
    unfold fetchBlocks at fetched
    split at fetched
    · cases call with
      | none => cases fetched
      | some peers =>
        dsimp only at fetched
        cases got : getBlocks peers ⟨fetch.nextHash, fetch.nextHeight, parentsPerRequest⟩ with
        | none =>
          rw [got] at fetched
          cases fetched
        | some blocks =>
          rw [got] at fetched
          obtain ⟨-, linked⟩ := getBlocks_eq_some got
          obtain ⟨reached, covered, counted⟩ := take_all nonzero rooted place covers behind linked
          exact ih reached covered (by omega) (by rw [counted]; push_cast; omega) fetched
    · rename_i done
      cases fetched
      exact ⟨passed, covers, place.ended nonzero count done⟩

/-! ## The batch -/

/-- Blocks in the batch are on disk and in the index; no other block leaves, and no other number changes. -/
theorem writeFetched_all {batch : List Block} (apart : ∀ one ∈ batch, ∀ other ∈ batch, number one = number other → one = other)
    (db : Database Block Hash) :
    (∀ block ∈ batch, (batch.foldl writeFetched db).Stored block ∧
      (batch.foldl writeFetched db).getCanonicalHash (number block) = some (hash block)) ∧
    (∀ block, db.Stored block → (batch.foldl writeFetched db).Stored block) ∧
    ∀ height, (∀ block ∈ batch, number block ≠ height) →
      (batch.foldl writeFetched db).getCanonicalHash height = db.getCanonicalHash height := by
  induction batch generalizing db with
  | nil => exact ⟨fun block member => (nomatch member), fun block stored => stored, fun height _ => rfl⟩
  | cons head rest ih =>
    obtain ⟨named, kept, same⟩ := ih
      (fun one member other listed => apart one (List.mem_cons_of_mem _ member) other (List.mem_cons_of_mem _ listed))
      (writeFetched db head)
    -- The rest of the batch has other numbers, so the entry of the first one stays.
    have stored_head : (writeFetched db head).Stored head := Function.update_self ..
    have stored_other (block : Block) (stored : db.Stored block) : (writeFetched db head).Stored block := by
      by_cases here : hash block = hash head
      · obtain rfl := hash_injective here
        exact stored_head
      · exact (Function.update_of_ne here ..).trans stored
    refine ⟨fun block member => ?_, fun block stored => kept block (stored_other block stored), fun height free => ?_⟩
    · by_cases later : block ∈ rest
      · exact named block later
      · obtain rfl := (List.mem_cons.mp member).resolve_right later
        refine ⟨kept block stored_head, (same (number block) fun other listed level => later ?_).trans (Index.write_self ..)⟩
        exact apart other (List.mem_cons_of_mem _ listed) block member level ▸ listed
    · refine (same height fun block listed => free block (List.mem_cons_of_mem _ listed)).trans ?_
      exact Index.write_of_ne _ (free head List.mem_cons_self).symm _

/-- Exactly the ancestors above the first one that is not on disk are passed without an entry. -/
theorem syncBlocks_cases (nonzero : ∀ block : Block, hash block ≠ zeroHash) (rooted : Rooted zeroHash origin tip)
    {calls : List (Option (Peers Block Hash))} {fromHeight : UInt64} {parentsToGet : Nat} {db after : Database Block Hash}
    (numbered : number tip = fromHeight.toNat)
    (synced : syncBlocks zeroHash calls (hash tip) fromHeight parentsToGet db = .ok after) :
    ∀ block, Ancestor block tip → number tip < number block + parentsToGet → after.Stored block ∧
      (after.getCanonicalHash (number block) = some (hash block) ↔
        ((∀ other, Ancestor block other → Ancestor other tip → db.Stored other) →
          db.getCanonicalHash (number block) = some (hash block))) := by
  -- First the blocks on disk are passed, then the batch is fetched from where that ended.
  have start : At zeroHash tip 0 (hash tip) fromHeight := .inl ⟨tip, .refl tip, rfl, numbered, rfl⟩
  obtain ⟨left, passed, nextHash, nextHeight, skipped, total, reached, stored, stopped⟩ :=
    skipStored_cases nonzero rooted db (parentsToGet + 1) start
  rw [Nat.zero_add] at reached stored stopped
  unfold syncBlocks at synced
  rw [skipped] at synced
  simp only [Checked.bind_eq_ok, Checked.pure_eq, Except.ok.injEq] at synced
  obtain ⟨batch, fetched, rfl⟩ := synced
  have count : ((left : Int) - 2) + passed + 1 = parentsToGet := by omega
  have covers_nothing : Covers tip passed passed [] := fun block =>
    ⟨fun member => (nomatch member), fun ⟨_, low, high⟩ => absurd high (Nat.not_lt.mpr low)⟩
  obtain ⟨beyond, covers, enough⟩ := fetchBlocks_covers nonzero rooted reached covers_nothing
    (Nat.le_refl passed) count fetched
  have apart : ∀ one ∈ batch, ∀ other ∈ batch, number one = number other → one = other :=
    fun one member other listed level => ((covers one).mp member).1.unique ((covers other).mp listed).1 level
  obtain ⟨named, kept, same⟩ := writeFetched_all apart db
  intro block above provided
  by_cases deep : number block + passed ≤ number tip
  · have fetched_block := named block ((covers block).mpr ⟨above, deep, by omega⟩)
    refine ⟨fetched_block.1, iff_of_true fetched_block.2 fun all_stored => ?_⟩
    -- The loop over blocks on disk stopped above this one.
    rcases stopped with none_left | missing
    · omega
    · obtain ⟨next, further, below, level⟩ : ∃ next, Ancestor block next ∧ Ancestor next tip ∧ number next = number tip - passed :=
        above.exists_level (show number block ≤ number tip - passed by omega) (Nat.sub_le _ _)
      exact absurd (all_stored next further below) (missing next below (by omega))
  · have passed_block : ∀ other, Ancestor block other → Ancestor other tip → db.Stored other := fun other further below =>
      stored other ⟨below, by have := number_le below; omega, by have := number_le further; omega⟩
    refine ⟨kept block (passed_block block (.refl block) above), ?_⟩
    rw [same (number block) fun other listed => by have := ((covers other).mp listed).2.1; omega]
    exact ⟨fun entry _ => entry, fun implied => implied passed_block⟩

end

/-! ## After the reset -/

/-- The blocks on disk and the index stay. -/
def Same (before after : Boot Block) : Prop :=
  after.disk.chain.blocks = before.disk.chain.blocks ∧ after.disk.chain.canonical = before.disk.chain.canonical

theorem Same.refl (boot : Boot Block) : Same boot boot := ⟨rfl, rfl⟩

theorem Same.trans (first second third : Boot Block) (one : Same first second) (other : Same second third) : Same first third :=
  ⟨other.1.trans one.1, other.2.trans one.2⟩

section

variable [DecidableEq Hash] [DecidableEq Root] [DecidableEq Transaction]

theorem regenerate_same (acceptorTip : Option Hash) (steps : Nat) (parent : Block) (writeIndices : Bool) :
    Moves Same (regenerate acceptorTip steps parent writeIndices) := by
  induction steps generalizing parent writeIndices with
  | zero => exact .pure Same.refl parent
  | succ steps ih =>
    unfold regenerate
    refine .bind Same.trans (.get Same.refl) fun boot => .bind Same.trans (.check Same.refl _) fun current =>
      .bind Same.trans (.check Same.refl _) fun _ => ?_
    dsimp only
    split
    · exact .bind Same.trans (.modify fun boot => ⟨rfl, rfl⟩) fun _ => ih current _
    · exact ih current _

theorem reprocessState_same (current : Block) (reexec : Nat) : Moves Same (reprocessState current reexec) := by
  unfold reprocessState
  refine .bind Same.trans (.get Same.refl) fun boot => ?_
  dsimp only
  split
  · exact .pure Same.refl ()
  · refine .bind Same.trans (.check Same.refl _) fun start => .bind Same.trans (.check Same.refl _) fun found =>
      .bind Same.trans (regenerate_same _ _ _ _) fun last => ?_
    split
    · exact .modify fun boot => ⟨rfl, rfl⟩
    · exact .pure Same.refl ()

/-- The head that is the last accepted block already is not set again. -/
theorem perform_loadPreference_self (head : Block) (boot : Boot Block) : perform (loadPreference head head) boot = (.ok (), boot) := by
  have stays : perform (setPreference head) (⟨boot.disk.chain, [], head, head⟩ : BlockChain Block Hash) =
      (.ok (), ⟨boot.disk.chain, [], head, head⟩) := by
    unfold setPreference
    rw [Stateful.perform_get_bind]
    dsimp only
    rw [if_pos rfl]
    rfl
  unfold loadPreference
  rw [Stateful.perform_get_bind]
  dsimp only
  rw [stays]
  rfl

theorem loadLastState_ends (commitInterval : Nat) (block : Block) {boot : Boot Block}
    (headed : boot.disk.chain.headBlockHash = hash block) :
    Ends boot (loadLastState commitInterval (hash block)) fun _ after => Same boot after := by
  unfold loadLastState
  refine Ends.get_bind ?_
  dsimp only
  rw [headed]
  refine Ends.check_bind (fun _ _ => Same.refl boot) fun head found => Ends.check_bind (fun _ _ => Same.refl boot) fun last read => ?_
  -- The head was written just before, so it is the last accepted block.
  have same : head = last := by
    rw [Checked.need_eq_ok] at found read
    exact Option.some.inj (found.symm.trans read)
  subst same
  unfold Ends
  rw [Stateful.perform_bind_ok (perform_loadPreference_self head boot)]
  exact reprocessState_same head _ boot

theorem resetToStateSyncedBlock_ends (commitInterval : Nat) (block : Block) (boot : Boot Block) :
    Ends boot (resetToStateSyncedBlock commitInterval block) fun _ after => Same boot after := by
  unfold resetToStateSyncedBlock
  refine Ends.modify_bind (Ends.modify_bind ?_)
  have loaded : Ends (writeHeadBlockHash block (boot.write (.acceptedIndices block))) (loadLastState commitInterval (hash block))
      fun _ after => Same boot after := loadLastState_ends commitInterval block rfl
  refine loaded.bind (fun _ _ same => same) fun _ after same => Ends.get_bind (Ends.check same)

theorem finishSync_ends (services : Services Block Hash) (commitInterval : Nat) (summary : Summary Hash) (before : Boot Block) :
    Ends before (finishSync services commitInterval summary) fun result after => result = .ok () →
      Same before after ∧ ∃ block : Block, hash block = summary.blockHash ∧ number block = summary.height.toNat := by
  unfold finishSync
  refine Ends.check_bind (fun _ _ ended => (nomatch ended)) fun block _ => ?_
  refine Ends.check_bind (fun _ _ ended => (nomatch ended)) fun _ named => ?_
  refine Ends.check_bind (fun _ _ ended => (nomatch ended)) fun _ numbered => ?_
  rw [Checked.refuse_eq_ok, not_not] at named numbered
  have reset : Ends before (Stateful.wrap FinishError.reset (resetToStateSyncedBlock commitInterval block))
      fun _ after => Same before after := Ends.wrap (resetToStateSyncedBlock_ends commitInterval block before)
  refine reset.bind (fun _ _ _ ended => (nomatch ended)) fun _ after same => ?_
  refine Ends.check_bind (fun _ _ ended => (nomatch ended)) fun _ _ => ?_
  refine Ends.check_bind (fun _ _ ended => (nomatch ended)) fun _ _ => Ends.modify_bind ?_
  refine Ends.check_bind (fun _ _ ended => (nomatch ended)) fun _ _ => Ends.check fun _ => ⟨same, block, named, numbered⟩

/-- After a state sync the blocks to provide are on disk, and each has its entry if and only if none of those that syncBlocks
finds on disk lacked it. -/
theorem synced_blocks_canonical_iff (zeroHash : Hash) (nonzero : ∀ block : Block, hash block ≠ zeroHash) (origin tip : Block)
    (rooted : Rooted zeroHash origin tip) (calls : List (Option (Peers Block Hash))) (services : Services Block Hash)
    (commitInterval : Nat) (summary : Summary Hash) (summarized : hash tip = summary.blockHash) (before between after : Boot Block)
    (synced : syncBlocks zeroHash calls summary.blockHash summary.height parentsToFetch before.disk.chain = .ok between.disk.chain)
    (finished : perform (finishSync services commitInterval summary) between = (.ok (), after)) :
    (∀ block, Ancestor block tip → number tip < number block + parentsToFetch → after.disk.chain.Stored block ∧
      after.disk.chain.getCanonicalHash (number block) = some (hash block)) ↔
    ∀ block, Ancestor block tip → number tip < number block + parentsToFetch →
      (∀ other, Ancestor block other → Ancestor other tip → before.disk.chain.Stored other) →
      before.disk.chain.getCanonicalHash (number block) = some (hash block) := by
  obtain ⟨⟨blocks, canonical⟩, found, named, numbered⟩ :=
    (finishSync_ends services commitInterval summary between).of_perform finished rfl
  obtain rfl : found = tip := hash_injective (named.trans summarized.symm)
  rw [← summarized] at synced
  have provided := syncBlocks_cases nonzero rooted numbered synced
  unfold Database.Stored Database.getCanonicalHash at provided ⊢
  rw [blocks, canonical]
  constructor
  · exact fun canonical block above inside => ((provided block above inside).2.mp (canonical block above inside).2)
  · exact fun indexed block above inside =>
      ⟨(provided block above inside).1, (provided block above inside).2.mpr (indexed block above inside)⟩

end

/-! ## Samples -/

def genesisRoute : Route := ⟨[]⟩

/-- The block of the summary, on the genesis block. -/
def tipRoute : Route := ⟨[0]⟩

/-- Its sibling. -/
def otherRoute : Route := ⟨[1]⟩

theorem tipRoute_rooted : Rooted none genesisRoute tipRoute := ⟨Ancestor.of_parent ⟨rfl, rfl⟩, rfl, rfl⟩

/-- All steps succeed, and the VM has the block of the summary. -/
def sampleServices : Services Route (Option (List Nat)) where
  getBlock _ := some tipRoute
  onFinishBeforeCommit := .ok ()
  commitVMMarkers := .ok ()
  setLastAcceptedBlock := .ok ()
  onFinishAfterCommit := .ok ()

/-- Every state is there. -/
def bootOf (db : Database Route (Option (List Nat))) : Boot Route := ⟨⟨db, some [], none, fun _ => none, fun _ => true⟩, []⟩

/-- Both blocks are on disk, and the sibling is in the index. -/
def forkedDB : Database Route (Option (List Nat)) :=
  (((Database.ofGenesis genesisRoute).apply (.block tipRoute)).apply (.block otherRoute)).apply (.headBlock otherRoute)

/-- A block that was processed but was not canonical stays out of the index. -/
theorem sibling_stays_canonical : ¬ ∀ (calls : List (Option (Peers Route (Option (List Nat)))))
    (services : Services Route (Option (List Nat))) (commitInterval : Nat) (summary : Summary (Option (List Nat)))
    (origin tip : Route) (before between after : Boot Route), Rooted none origin tip → hash tip = summary.blockHash →
    syncBlocks none calls summary.blockHash summary.height parentsToFetch before.disk.chain = .ok between.disk.chain →
    perform (finishSync services commitInterval summary) between = (.ok (), after) →
    ∀ block, Ancestor block tip → number tip < number block + parentsToFetch → after.disk.chain.Stored block ∧
      after.disk.chain.getCanonicalHash (number block) = some (hash block) := by
  intro claimed
  have named := (claimed [] sampleServices 1 ⟨some [0], 1⟩ genesisRoute tipRoute (bootOf forkedDB) (bootOf forkedDB) _
    tipRoute_rooted rfl rfl rfl tipRoute (.refl _) (by decide)).2
  exact absurd named (by decide)

/-- A peer with the chain. -/
def samplePeers : Peers Route (Option (List Nat)) := fun _ => [[otherRoute], [tipRoute, genesisRoute]]

def genesisDB : Database Route (Option (List Nat)) := .ofGenesis genesisRoute

/-- The blocks of the response are written, with their entries. -/
def fetchedDB : Database Route (Option (List Nat)) := [tipRoute, genesisRoute].foldl writeFetched genesisDB

/-- The block of the summary is fetched, and is canonical then. -/
theorem fetched_block_canonical : ∃ between after : Boot Route,
    syncBlocks none [some samplePeers] (some [0]) 1 parentsToFetch genesisDB = .ok between.disk.chain ∧
    perform (finishSync sampleServices 1 ⟨some [0], 1⟩) between = (.ok (), after) ∧
    after.disk.chain.getCanonicalHash 1 = some (some [0]) := by
  have indexed := synced_blocks_canonical_iff none (fun block : Route => (nofun : hash block ≠ none)) genesisRoute tipRoute
    tipRoute_rooted [some samplePeers] sampleServices 1 ⟨some [0], 1⟩ rfl (bootOf genesisDB) (bootOf fetchedDB) _ rfl rfl
  refine ⟨bootOf fetchedDB, _, rfl, rfl, (indexed.mpr (fun block above _ stored => ?_) tipRoute (.refl _) (by decide)).2⟩
  -- The block of the summary is not on disk before.
  have found : (none : Option Route) = some tipRoute := stored tipRoute above (.refl _)
  cases found

end Snowside.SyncedBlocks
