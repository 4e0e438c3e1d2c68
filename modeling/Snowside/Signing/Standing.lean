import Snowside.Blockchain.Available
import Snowside.Signing.Backing

/-! The node signs only what it stands behind, in every run, and what its accepted blocks emitted it signs from then on. -/

set_option autoImplicit false

namespace Snowside.Signing

open Ancestry (Ancestor)
open Blockchain (BlockChain ChainBlock Database Disk DiskWrite Event IsOrigin Node Running Settings StateBlock hash number
  hash_injective number_le)
open Runs (Reach)
open WarpMessage Emitter

section

variable {Block Hash Root Transaction : Type} [ChainBlock Block Hash] [StateBlock Block Root Transaction]

/-! ## The steps of the chain -/

/-- The block whose acceptance is being written. -/
def accepting (node : Node Block) : Option Block :=
  match node.phase with
  | .running memory =>
      match memory.consensus with
      | .writing _ block => block
      | .committing _ => none
  | _ => none

variable [DecidableEq Hash] [DecidableEq Root] [DecidableEq Transaction]

/-- What a step of the chain may change, as far as the backend sees it. -/
structure Framed (node : Node Block) (event : Event Block) (after : Node Block) : Prop where
  disk : after.disk = node.disk ∨ ∃ write : DiskWrite Block Root, after.disk = node.disk.apply write
  decisions : ∀ block ∈ after.decisions, block ∈ node.decisions ∨ accepting node = some block
  accepting : ∀ block, accepting after = some block → accepting node = some block ∨ event = .call (.accept block)

variable {settings : Settings} {node after : Node Block} {event : Event Block}

omit [DecidableEq Root] [DecidableEq Transaction] in
theorem accepting_begin {memory : Running Block} {call : Blockchain.Call Block} {block : Block}
    (starts : accepting { node with phase := .running (Node.begin memory call) } = some block) : call = .accept block := by
  cases call with
  | accept other =>
    unfold accepting Node.begin at starts
    dsimp only at starts
    split at starts
    · next same _ =>
      cases same
      cases starts
      rfl
    · cases starts
  | insert => cases starts
  | setPreference => cases starts
  | reject => cases starts

theorem framed_running {memory : Running Block} (running : node.phase = .running memory)
    (stepped : node.stepRunning settings memory event = some after) : Framed node event after := by
  have unmoved : ∀ block ∈ node.decisions, block ∈ node.decisions ∨ accepting node = some block := fun block member => .inl member
  cases Node.stepRunning_cases stepped with
  | call idle => exact ⟨.inl rfl, unmoved, fun block starts => .inr (congrArg _ (accepting_begin starts))⟩
  | write writing =>
    refine ⟨.inr ⟨.chain _, rfl⟩, unmoved, fun other starts => .inl ?_⟩
    unfold accepting
    rw [running]
    dsimp only
    rw [writing]
    exact starts
  | @enqueue block writing =>
    have starts : accepting node = some block := by
      unfold accepting
      rw [running]
      dsimp only
      rw [writing]
    refine ⟨.inl rfl, fun other member => ?_, fun other impossible => (by cases impossible)⟩
    dsimp only at member
    split at member
    · exact .inl member
    · rcases List.mem_cons.mp member with rfl | known
      · exact .inr starts
      · exact .inl known
  | commit committing => exact ⟨.inr ⟨.lastAccepted _, rfl⟩, unmoved, fun other impossible => (by cases impossible)⟩
  | index free queued =>
    refine ⟨.inr ⟨.acceptedIndices _, rfl⟩, unmoved, fun other starts => .inl ?_⟩
    unfold accepting
    rw [running]
    exact starts
  | acceptTrie indexed =>
    refine ⟨?_, unmoved, fun other starts => .inl ?_⟩
    · dsimp only
      split
      · exact .inr ⟨_, rfl⟩
      · exact .inl rfl
    · unfold accepting
      rw [running]
      exact starts
  | flush => exact ⟨.inr ⟨.state _, rfl⟩, unmoved, fun other starts => .inl starts⟩

theorem framed (stepped : node.step settings event = some after) : Framed node event after := by
  have unmoved : ∀ block ∈ node.decisions, block ∈ node.decisions ∨ accepting node = some block := fun block member => .inl member
  unfold Node.step at stepped
  split at stepped
  · cases stepped
    exact ⟨.inl rfl, unmoved, fun other impossible => (by cases impossible)⟩
  · cases stepped
    exact ⟨.inl rfl, unmoved, fun other impossible => (by cases impossible)⟩
  · cases stepped
    exact ⟨.inr ⟨_, rfl⟩, unmoved, fun other impossible => (by cases impossible)⟩
  · cases stepped
    exact ⟨.inl rfl, unmoved, fun other impossible => (by cases impossible)⟩
  · cases stepped
    exact ⟨.inl rfl, unmoved, fun other impossible => (by cases impossible)⟩
  · next running _ => exact framed_running running stepped
  · cases stepped

/-! ## The index below the origin -/

/-- A batch after which the database upholds what it has to leaves the index below the origin alone. -/
theorem Historic.apply {origin last decided : Block} {disk : Disk Block} {write : DiskWrite Block Root}
    (historic : Historic origin disk.chain) (rooted : Ancestor origin last)
    (upholds : (disk.apply write).chain.Upholds origin last decided) : Historic origin (disk.apply write).chain := by
  cases write with
  | chain batch =>
    cases batch with
    | block block => exact historic
    | deleteBlock block => exact historic
    | headBlock block =>
      obtain ⟨head, named, above, -⟩ := upholds.head
      obtain rfl : block = head := hash_injective named
      have low := number_le rooted
      have high := number_le above
      intro height key below found
      refine historic height key below ?_
      rw [← found]
      exact (Blockchain.Index.write_of_ne _ (by omega) _).symm
    | deleteCanonicalHashes numbers =>
      intro height key below found
      refine historic height key below ?_
      have kept : (if height ∈ numbers then none else disk.chain.canonical.entries height) = some key := found
      split at kept
      · cases kept
      · exact kept
  | lastAccepted block => exact historic
  | acceptedIndices block => exact historic
  | state key => exact historic

end

section

variable {Block Hash Root Transaction Message ID Signature : Type} [ChainBlock Block Hash] [StateBlock Block Root Transaction]
  [WarpMessage Message ID Hash] [Emitter Block Message]

/-! ## What a node stands behind -/

/-- Consensus has accepted the block, or the chain had it below the first one. -/
def Accepted (origin : Block) (accepted : List Block) (block : Block) : Prop := block ∈ accepted ∨ Ancestor block origin

def Emitted (origin : Block) (accepted : List Block) (message : Message) : Prop :=
  ∃ block, Accepted origin accepted block ∧ Emits block message

/-- Why a message may be signed, with the uptime that was measured for it. -/
inductive Reason (origin : Block) (accepted : List Block) (memory : Memory Message ID Signature) (message : Message)
    (uptime : Option Nat) : Prop where
  | emitted : Emitted origin accepted message → Reason origin accepted memory message uptime
  | configured : memory.Configured message → Reason origin accepted memory message uptime
  | block {block : Block} : Accepted origin accepted block → parsePayload message = some (.hash (hash block)) →
      Reason origin accepted memory message uptime
  | uptime {claim : ValidatorUptime ID} {total : Nat} : uptimeClaim message = some claim → uptime = some total →
      claim.totalUptime ≤ total → Reason origin accepted memory message uptime

/-- The messages of the logs are messages of the chain, and on the disk. -/
def Filed (Block : Type) [Emitter Block Message] (context : Context ID) (db : ID → Option Bytes) (logs : List Bytes) : Prop :=
  ∀ logData ∈ logs, ∃ message, unpackSendWarpEventDataToMessage Block logData = some message ∧ context.Local message ∧
    db (messageID message) = some (bytes message)

structure Process.Good (context : Context ID) (origin : Block) (accepted : List Block) (db : ID → Option Bytes)
    (process : Process Block Message ID Signature) : Prop where
  sound : Backend.Sound (Emitted origin accepted) process.signed ⟨db, process.memory⟩
  signer : ∀ message, (process.memory.warpSigner message).isSome ↔ context.Local message
  adding : ∀ block rest, process.adding = some (block, rest) → block ∈ accepted ∧ ∃ done, warpLogs block = done ++ rest ∧
    Filed Block context db done
  signed : ∀ entry ∈ process.signed, Reason origin accepted process.memory entry.1 entry.2

variable {settings : Settings} {context : Context ID} {origin : Block} {accepted more : List Block}

theorem Accepted.mono {block : Block} (known : Accepted origin accepted block) (longer : ∀ block ∈ accepted, block ∈ more) :
    Accepted origin more block := known.imp_left (longer block)

theorem Emitted.mono {message : Message} (emitted : Emitted origin accepted message)
    (longer : ∀ block ∈ accepted, block ∈ more) : Emitted origin more message := by
  obtain ⟨block, known, emits⟩ := emitted
  exact ⟨block, known.mono longer, emits⟩

theorem Reason.mono {memory : Memory Message ID Signature} {message : Message} {uptime : Option Nat}
    (reason : Reason origin accepted memory message uptime) (longer : ∀ block ∈ accepted, block ∈ more) :
    Reason origin more memory message uptime := by
  cases reason with
  | emitted emitted => exact .emitted (emitted.mono longer)
  | configured configured => exact .configured configured
  | block known payload => exact .block (known.mono longer) payload
  | uptime claimed measured low => exact .uptime claimed measured low

/-- The configuration of a process does not change. -/
theorem Reason.configure {memory after : Memory Message ID Signature} {message : Message} {uptime : Option Nat}
    (reason : Reason origin accepted memory message uptime) (same : after.warpOffChainMessages = memory.warpOffChainMessages) :
    Reason origin accepted after message uptime := by
  cases reason with
  | emitted emitted => exact .emitted emitted
  | configured configured =>
    refine .configured ?_
    unfold Memory.Configured
    rw [same]
    exact configured
  | block known payload => exact .block known payload
  | uptime claimed measured low => exact .uptime claimed measured low

section

variable [DecidableEq ID]

omit [ChainBlock Block Hash] in
/-- A message that is put on the disk takes the place of no other. -/
theorem Filed.put {db : ID → Option Bytes} {logs : List Bytes} (filed : Filed Block context db logs) (message : Message) :
    Filed Block context (Function.update db (messageID message) (some (bytes message))) logs := by
  intro logData member
  obtain ⟨other, unpacked, inside, present⟩ := filed logData member
  refine ⟨other, unpacked, inside, ?_⟩
  by_cases same : messageID other = messageID message
  · rw [messageID_injective same, Function.update_self]
  · rw [Function.update_of_ne same]
    exact present

end

/-! ## The invariant -/

variable [DecidableEq Hash] [DecidableEq Root] [DecidableEq Transaction]

structure VM.Good (context : Context ID) (origin : Block) (vm : VM Block Message ID Signature) : Prop where
  first : IsOrigin origin
  node : ∃ last, vm.node.Good origin last
  history : Historic origin vm.node.disk.chain
  decided : ∀ block ∈ vm.node.decisions, block ∈ vm.accepted
  filed : ∀ block ∈ vm.node.decisions, block ≠ origin → Filed Block context vm.warpDB (warpLogs block)
  accepting : ∀ block, accepting vm.node = some block → block ∈ vm.accepted ∧ Filed Block context vm.warpDB (warpLogs block)
  stored : ∀ key encoded, vm.warpDB key = some encoded →
    ∃ message : Message, key = messageID message ∧ encoded = bytes message ∧ Emitted origin vm.accepted message
  process : ∀ process, vm.process = some process → process.Good context origin vm.accepted vm.warpDB

variable {vm : VM Block Message ID Signature}

namespace VM.Good

/-- A step of the chain, with the process that there is afterwards. -/
theorem node_step (good : vm.Good context origin) {event : Event Block} {node : Node Block} (legal : vm.node.Legal event)
    (stepped : vm.node.step settings event = some node)
    (accepts : ∀ block, event = .call (.accept block) → block ∈ vm.accepted ∧ Filed Block context vm.warpDB (warpLogs block))
    {process : Option (Process Block Message ID Signature)}
    (kept : ∀ found, process = some found → found.Good context origin vm.accepted vm.warpDB) :
    VM.Good context origin { vm with node := node, process := process } := by
  obtain ⟨last, node_good⟩ := good.node
  obtain ⟨next, after_good⟩ := node_good.step good.first legal stepped
  have frame := framed stepped
  have decided : ∀ block ∈ node.decisions, block ∈ vm.accepted := by
    intro block member
    rcases frame.decisions block member with known | new
    · exact good.decided block known
    · exact (good.accepting block new).1
  refine
    { first := good.first
      node := ⟨next, after_good⟩
      history := ?_
      decided := decided
      filed := ?_
      accepting := ?_
      stored := good.stored
      process := kept }
  · show Historic origin node.disk.chain
    rcases frame.disk with same | ⟨write, same⟩
    · rw [same]
      exact good.history
    · have upholds := after_good.sound.upholds
      rw [same] at upholds ⊢
      exact good.history.apply after_good.sound.rooted upholds
  · intro block member other
    rcases frame.decisions block member with known | new
    · exact good.filed block known other
    · exact (good.accepting block new).2
  · intro block starts
    rcases frame.accepting block starts with known | called
    · exact good.accepting block known
    · exact accepts block called

theorem initializeVM [DecidableEq ID] (good : vm.Good context origin) {warpSigner : Message → Option Signature}
    {offchainMessages : List Bytes} {memory : Memory Message ID Signature}
    (signs : ∀ message, (warpSigner message).isSome ↔ context.Local message)
    (made : newBackend context warpSigner offchainMessages = .ok memory) :
    VM.Good context origin { vm with process := some ⟨memory, none, []⟩ } := by
  obtain ⟨same, sound⟩ := Backend.Sound.newBackend made good.stored
  refine { good with process := ?_ }
  rintro process ⟨⟩
  refine ⟨sound, ?_, fun block rest impossible => (by cases impossible), fun entry impossible => (by cases impossible)⟩
  show ∀ message, (memory.warpSigner message).isSome ↔ context.Local message
  rw [same]
  exact signs

theorem accept (good : vm.Good context origin) {memory : Memory Message ID Signature} {signed : List (Message × Option Nat)}
    (running : vm.process = some ⟨memory, none, signed⟩) (block : Block) :
    VM.Good context origin
      { vm with process := some ⟨memory, some (block, warpLogs block), signed⟩, accepted := block :: vm.accepted } := by
  have longer : ∀ other ∈ vm.accepted, other ∈ block :: vm.accepted := fun other => List.mem_cons_of_mem block
  have process := good.process _ running
  refine
    { good with
      decided := fun other member => longer other (good.decided other member)
      accepting := fun other starts => ⟨longer other (good.accepting other starts).1, (good.accepting other starts).2⟩
      stored := ?_
      process := ?_ }
  · intro key encoded found
    obtain ⟨message, named, same, emitted⟩ := good.stored key encoded found
    exact ⟨message, named, same, emitted.mono longer⟩
  · rintro other ⟨⟩
    refine ⟨?_, process.signer, ?_, fun entry member => (process.signed entry member).mono longer⟩
    · exact process.sound.weaken fun message emitted => emitted.mono longer
    · rintro other rest ⟨⟩
      exact ⟨List.mem_cons_self, [], rfl, fun logData impossible => (by cases impossible)⟩

variable [DecidableEq ID]

theorem addMessage (good : vm.Good context origin) {memory : Memory Message ID Signature} {signed : List (Message × Option Nat)}
    {block : Block} {logData : Bytes} {rest : List Bytes} {message : Message} {sig : Signature} {added : Backend Message ID Signature}
    (running : vm.process = some ⟨memory, some (block, logData :: rest), signed⟩)
    (unpacked : unpackSendWarpEventDataToMessage Block logData = some message)
    (adds : (Backend.addMessage ⟨vm.warpDB, memory⟩ message : Except (SignatureError ID Hash) Signature × _) = (.ok sig, added)) :
    VM.Good context origin { vm with
      warpDB := added.db
      process := some ⟨added.memory, some (block, rest), signed ++ [(message, none)]⟩ } := by
  obtain ⟨signs, rfl⟩ := Backend.addMessage_eq_ok adds
  have process := good.process _ running
  obtain ⟨known, done, logs, filed⟩ := process.adding block (logData :: rest) rfl
  have emitted : Emitted origin vm.accepted message :=
    ⟨block, .inl known, logData, by rw [logs]; exact List.mem_append_right done List.mem_cons_self, unpacked⟩
  have put := process.sound.put emitted
  refine
    { good with
      filed := fun other member distinct => (good.filed other member distinct).put message
      accepting := fun other starts => ⟨(good.accepting other starts).1, (good.accepting other starts).2.put message⟩
      stored := put.stored
      process := ?_ }
  rintro other ⟨⟩
  refine ⟨put.sign signs none, process.signer, ?_, ?_⟩
  · rintro other later ⟨⟩
    refine ⟨known, done ++ [logData], by rw [logs, List.append_assoc]; rfl, fun other member => ?_⟩
    rcases List.mem_append.mp member with earlier | new
    · exact filed.put message other earlier
    · rw [List.mem_singleton.mp new]
      have is_local := (process.signer message).mp (Option.isSome_iff_exists.mpr ⟨sig, signs⟩)
      exact ⟨message, unpacked, is_local, Function.update_self ..⟩
  · intro entry member
    rcases List.mem_append.mp member with earlier | new
    · exact (process.signed entry earlier).configure rfl
    · rw [List.mem_singleton.mp new]
      exact .emitted emitted

omit [DecidableEq ID] in
/-- The blocks that the node finds to be accepted are. -/
theorem accepted_of_getAcceptedBlock (good : vm.Good context origin) {running : Running Block} (serves : idle vm.node = some running)
    {getBlock : Hash → Option Block} {blockID : Hash}
    (found : (getAcceptedBlock running.state.chain getBlock blockID).isSome = true) :
    ∃ block, Accepted origin vm.accepted block ∧ hash block = blockID := by
  obtain ⟨last, node⟩ := good.node
  obtain ⟨phase, quiet⟩ : vm.node.phase = .running running ∧ running.consensus = .writing [] none := by
    unfold idle at serves
    split at serves
    · next phase =>
      split at serves
      · next quiet =>
        cases serves
        exact ⟨phase, quiet⟩
      · cases serves
    · cases serves
  have at_phase := node.phase
  rw [phase] at at_phase
  have consensus := at_phase.consensus
  rw [quiet] at consensus
  cases consensus with
  | calling applied _ same =>
    obtain ⟨block, searched⟩ := Option.isSome_iff_exists.mp found
    unfold getAcceptedBlock at searched
    obtain ⟨blk, got, searched⟩ := Option.bind_eq_some_iff.mp searched
    obtain ⟨acceptedBlkID, entered, searched⟩ := Option.bind_eq_some_iff.mp searched
    split at searched
    · cases searched
    · next equal =>
      obtain rfl := not_not.mp equal
      unfold getBlockIDAtHeight at entered
      split at entered
      · cases entered
      · next low =>
        by_cases based : number origin ≤ number blk
        · obtain ⟨other, rooted, above, level, named⟩ := (at_phase.invariant.entries_iff based).mp entered
          have below_last : Ancestor other running.state.chain.lastAccepted :=
            above.of_level_le at_phase.invariant.last (show number other ≤ number running.state.chain.lastAccepted by omega)
          rw [same] at below_last
          have decided := node.closed.ancestor node.member rooted (below_last.trans node.sound.final)
          exact ⟨other, .inl (good.decided other decided), named⟩
        · have entry : vm.node.disk.chain.canonical.entries (number blk) = some acceptedBlkID := by
            rw [show vm.node.disk.chain = running.state.chain.db from applied]
            exact entered
          obtain ⟨other, above, named⟩ := good.history _ _ (Nat.lt_of_not_le based) entry
          exact ⟨other, .inr above, named⟩

end VM.Good

variable [DecidableEq ID]

/-- A node that answers requests. -/
def VM.Serves (vm : VM Block Message ID Signature) : Prop :=
  ∃ memory signed running, vm.process = some ⟨memory, none, signed⟩ ∧ idle vm.node = some running

omit [Emitter Block Message] [DecidableEq Root] [DecidableEq Transaction] in
theorem VM.respond_eq_some {request : Request Message ID Hash} {getBlock : Hash → Option Block} {getUptime : ID → Except String Nat}
    {answer : Answer Message ID Hash Signature} {after : VM Block Message ID Signature}
    (responds : vm.respond context request getBlock getUptime = some (answer, after)) :
    ∃ memory signed running, vm.process = some ⟨memory, none, signed⟩ ∧ idle vm.node = some running ∧
      let backend : Backend Message ID Signature := ⟨vm.warpDB, memory⟩
      let outside : Outside ID Hash := ⟨fun blockID => (getAcceptedBlock running.state.chain getBlock blockID).isSome, getUptime⟩
      answer = (backend.answer context outside request).1 ∧ after = { vm with
        warpDB := (backend.answer context outside request).2.db
        process := some ⟨(backend.answer context outside request).2.memory, none,
          signed ++ backend.newlySigned context outside request⟩ } := by
  unfold VM.respond at responds
  split at responds
  · next memory signed running process serves =>
    cases responds
    exact ⟨memory, signed, running, process, serves, rfl, rfl⟩
  · cases responds

omit [Emitter Block Message] [DecidableEq Root] [DecidableEq Transaction] in
theorem VM.responds (context : Context ID) {memory : Memory Message ID Signature} {signed : List (Message × Option Nat)}
    {running : Running Block} (process : vm.process = some ⟨memory, none, signed⟩) (idles : idle vm.node = some running)
    (request : Request Message ID Hash) (getBlock : Hash → Option Block) (getUptime : ID → Except String Nat) : ∃ after,
    vm.respond context request getBlock getUptime = some ((Backend.answer ⟨vm.warpDB, memory⟩ context
      ⟨fun blockID => (getAcceptedBlock running.state.chain getBlock blockID).isSome, getUptime⟩ request).1, after) := by
  unfold VM.respond
  rw [process, idles]
  exact ⟨_, rfl⟩

/-- A request keeps the invariant, and a signature is one of a message that the process has signed. -/
theorem VM.Good.respond (good : vm.Good context origin) {request : Request Message ID Hash} {getBlock : Hash → Option Block}
    {getUptime : ID → Except String Nat} {answer : Answer Message ID Hash Signature} {after : VM Block Message ID Signature}
    (responds : vm.respond context request getBlock getUptime = some (answer, after)) :
    after.Good context origin ∧ after.accepted = vm.accepted ∧ ∀ sig, answer = .signature (.ok sig) → ∃ message process,
      request.signs context = some message ∧ after.process = some process ∧ process.memory.warpSigner message = some sig ∧
      ∃ uptime, (message, uptime) ∈ process.signed := by
  obtain ⟨memory, signed, running, process, serves, rfl, rfl⟩ := VM.respond_eq_some responds
  have runs := good.process _ process
  have before : Backend.Sound (Emitted origin vm.accepted) signed ⟨vm.warpDB, memory⟩ := runs.sound
  obtain ⟨sound, kept, signature, new⟩ := before.answer context
    ⟨fun blockID => (getAcceptedBlock running.state.chain getBlock blockID).isSome, getUptime⟩ request
  dsimp only at sound kept signature new ⊢
  generalize Backend.answer _ _ _ request = answered at sound kept signature ⊢
  obtain ⟨answer, db, after⟩ := answered
  obtain rfl : db = vm.warpDB := kept.db
  refine ⟨{ good with process := ?_ }, rfl, fun sig same => ?_⟩
  · rintro other ⟨⟩
    refine ⟨sound, fun message => ?_, fun block rest impossible => (by cases impossible), fun entry member => ?_⟩
    · rw [show after.warpSigner = memory.warpSigner from kept.warpSigner]
      exact runs.signer message
    · rcases List.mem_append.mp member with earlier | later
      · exact (runs.signed entry earlier).configure kept.configured
      · obtain ⟨uptime, passed⟩ := new entry later
        suffices reason : Reason origin vm.accepted memory entry.1 entry.2 from reason.configure kept.configured
        rcases passed with emitted | configured | passed
        · exact .emitted emitted
        · exact .configured configured
        · rcases verifyPayload_eq_ok passed with ⟨blockID, read, found⟩ | ⟨claim, total, claimed, measures, enough⟩
          · obtain ⟨block, known, rfl⟩ := good.accepted_of_getAcceptedBlock serves found
            exact .block known read
          · exact .uptime claimed (uptime.trans measures) enough
  · obtain ⟨message, signs, signer, inside⟩ := signature sig same
    exact ⟨message, _, signs, rfl, kept.warpSigner.symm ▸ signer, inside⟩

/-! ## Runs -/

/-- Every step keeps the invariant. -/
theorem VM.Good.step (good : vm.Good context origin) {event : VMEvent Block Message ID Hash Signature}
    {after : VM Block Message ID Signature} (legal : vm.Legal context event) (stepped : vm.step settings context event = some after) :
    after.Good context origin := by
  unfold VM.step at stepped
  split at stepped
  · obtain ⟨node, moved, rfl⟩ := Option.map_eq_some_iff.mp stepped
    have legal : vm.node.Legal .crash := legal
    exact good.node_step legal moved (fun block impossible => (by cases impossible)) fun found impossible => (by cases impossible)
  · cases stepped
  · next call other =>
    split at stepped
    · obtain ⟨node, moved, rfl⟩ := Option.map_eq_some_iff.mp stepped
      have legal : vm.node.Legal (.call call) := legal
      refine good.node_step legal moved (fun block called => ?_) good.process
      cases called
      exact absurd rfl (other block)
    · cases stepped
  · next other_crash other_call =>
    obtain ⟨node, moved, rfl⟩ := Option.map_eq_some_iff.mp stepped
    refine good.node_step legal moved (fun block called => ?_) good.process
    cases called
    exact absurd rfl (other_call _)
  · split at stepped
    · split at stepped
      · next made =>
        cases stepped
        exact good.initializeVM legal made
      · cases stepped
    · cases stepped
  · next block =>
    split at stepped
    · next running _ =>
      cases stepped
      exact good.accept running block
    · cases stepped
  · split at stepped
    · next running =>
      split at stepped
      · cases stepped
      · next unpacked =>
        split at stepped
        · cases stepped
        · next adds =>
          cases stepped
          exact good.addMessage running unpacked adds
    · cases stepped
  · split at stepped
    · next memory block signed running =>
      obtain ⟨node, moved, rfl⟩ := Option.map_eq_some_iff.mp stepped
      have process := good.process _ running
      obtain ⟨known, done, logs, filed⟩ := process.adding block [] rfl
      rw [List.append_nil] at logs
      refine good.node_step (legal _ block running rfl) moved (fun other called => ?_) ?_
      · cases called
        rw [logs]
        exact ⟨known, filed⟩
      · rintro other ⟨⟩
        exact { process with adding := fun block rest impossible => (by cases impossible) }
    · cases stepped
  · obtain ⟨⟨answer, later⟩, responds, rfl⟩ := Option.map_eq_some_iff.mp stepped
    exact (good.respond responds).1

theorem VM.Good.initial (starts : (vms settings context origin).initial vm) : vm.Good context origin := by
  obtain ⟨node, history, stored, process, accepted⟩ := starts
  obtain ⟨first, -⟩ := Blockchain.exists_good (fun _ _ => id) (Reach.start node)
  obtain ⟨begins, down, decisions, decided⟩ := node
  refine
    { first := first
      node := ⟨origin, .initial begins down decisions decided⟩
      history := history
      decided := fun block member => by rw [accepted, ← decisions]; exact member
      filed := fun block member other => ?_
      accepting := fun block starts => ?_
      stored := fun key encoded found => ?_
      process := fun found running => ?_ }
  · rw [decisions] at member
    exact absurd (List.mem_singleton.mp member) other
  · unfold Signing.accepting at starts
    rw [down] at starts
    cases starts
  · obtain ⟨message, block, named, same, above, emits⟩ := stored key encoded found
    exact ⟨message, named, same, block, .inr above, emits⟩
  · rw [process] at running
    cases running

/-- In every run a signature is for a message that an accepted block emitted, for a configured one, for the hash of an accepted block
or for an uptime that was measured when the message was first signed; and what a block emitted that the node has accepted is signed
whenever the node answers. -/
theorem signatures_standing (reach : Reach (vms settings context origin) (VM.Legal context) vm) :
    (∀ request getBlock getUptime sig after, vm.respond context request getBlock getUptime = some (.signature (.ok sig), after) →
      ∃ message process, request.signs context = some message ∧ after.process = some process ∧
        process.memory.warpSigner message = some sig ∧ (Emitted origin vm.accepted message ∨ process.memory.Configured message ∨
          (∃ block, Accepted origin vm.accepted block ∧ parsePayload message = some (.hash (hash block))) ∨
          ∃ claim total before later, uptimeClaim message = some claim ∧ process.signed = before ++ (message, some total) :: later ∧
            (∀ entry ∈ before, entry.1 ≠ message) ∧ claim.totalUptime ≤ total)) ∧
    (∀ block ∈ vm.node.decisions, block ≠ origin → ∀ message, Emits block message → vm.Serves → ∀ getBlock getUptime, ∃ sig after,
      vm.respond context (.messageSignature message) getBlock getUptime = some (.signature (.ok sig), after)) ∧
    ∀ last block : Block, hash last = vm.node.disk.lastAcceptedHash → Ancestor origin block → Ancestor block last →
      block ∈ vm.node.decisions := by
  have good : vm.Good context origin := by
    refine reach.invariant (fun vm => vm.Good context origin) (fun vm starts => .initial starts) ?_
    exact fun vm event after holds legal stepped => holds.step legal stepped
  refine ⟨fun request getBlock getUptime sig after responds => ?_,
    fun block member skipped message emits serves getBlock getUptime => ?_, fun last block named based above => ?_⟩
  · obtain ⟨after_good, same, signature⟩ := good.respond responds
    obtain ⟨message, process, signs, running, signer, uptime, inside⟩ := signature sig rfl
    refine ⟨message, process, signs, running, signer, ?_⟩
    -- The first time that the process signed the message.
    have named : message ∈ process.signed.map Prod.fst := List.mem_map.mpr ⟨_, inside, rfl⟩
    obtain ⟨before, later, split, earlier⟩ := List.eq_append_cons_of_mem named
    obtain ⟨first, rest, whole, firsts, rests⟩ := List.map_eq_append_iff.mp split
    obtain ⟨⟨other, measure⟩, behind, rfl, rfl, -⟩ := List.map_eq_cons_iff.mp rests
    have unsigned : ∀ entry ∈ first, entry.1 ≠ other := by
      intro entry member equal
      refine earlier ?_
      rw [← firsts, ← equal]
      exact List.mem_map.mpr ⟨entry, member, rfl⟩
    have reason := (after_good.process process running).signed (other, measure)
      (by rw [whole]; exact List.mem_append_right first List.mem_cons_self)
    rw [same] at reason
    cases reason with
    | emitted emitted => exact .inl emitted
    | configured configured => exact .inr (.inl configured)
    | @block block known read => exact .inr (.inr (.inl ⟨block, known, read⟩))
    | @uptime claim total claimed measures enough =>
      cases measures
      exact .inr (.inr (.inr ⟨claim, total, first, behind, claimed, whole, unsigned, enough⟩))
  · obtain ⟨memory, signed, running, process, idles⟩ := serves
    obtain ⟨logData, inside, unpacked⟩ := emits
    obtain ⟨found, same, is_local, stored⟩ := good.filed block member skipped logData inside
    obtain rfl : found = message := by
      rw [unpacked] at same
      exact (Option.some.inj same).symm
    have runs := good.process _ process
    have sound : Backend.Sound (Emitted origin vm.accepted) signed ⟨vm.warpDB, memory⟩ := runs.sound
    obtain ⟨sig, signs⟩ := sound.getMessageSignature_of_stored
      ⟨fun blockID => (getAcceptedBlock running.state.chain getBlock blockID).isSome, getUptime⟩ stored
      ((runs.signer found).mpr is_local)
    obtain ⟨after, responds⟩ := VM.responds context process idles (.messageSignature found) getBlock getUptime
    refine ⟨sig, after, ?_⟩
    rw [responds, Backend.answer, signs]
  · obtain ⟨tip, node⟩ := good.node
    obtain rfl : last = tip := hash_injective (named.trans node.sound.persisted)
    exact node.closed.ancestor node.member based (above.trans node.sound.final)

end

/-! ## Runs that are computed -/

/-- A message of one byte: about the first block, or an uptime in seconds. -/
structure Note where
  code : UInt8
  deriving DecidableEq

instance : WarpMessage Note UInt8 (Option (List Nat)) where
  messageID note := note.code
  networkID _ := 1
  sourceChainID _ := 0
  bytes note := [note.code]
  parseUnsignedMessage encoded :=
    match encoded with
    | [code] => some ⟨code⟩
    | _ => none
  parsePayload note := if note.code = 0 then some (.hash (some [])) else some (.addressedCall [] [note.code])
  parseAddressedCall payload :=
    match payload with
    | [code] => some ⟨0, code.toNat⟩
    | _ => none
  newHashMessage network chain blockID := if network = 1 ∧ chain = 0 ∧ blockID = some [] then some ⟨0⟩ else none
  messageID_injective one other same := by
    cases one
    exact congrArg Note.mk same
  parse_bytes _ := rfl
  payload_newHashMessage network chain blockID message made := by
    split at made
    · next fits =>
      cases made
      rw [fits.2.2]
      rfl
    · cases made

/-- The first child of the first block emits a message. -/
instance : Emitter Blockchain.Route Note where
  warpLogs block := if block.turns = [0] then [[7]] else []
  unpackSendWarpEventDataToMessage := WarpMessage.parseUnsignedMessage

namespace VM

/-- A check of events that implies their legality. -/
def allows (vm : VM Blockchain.Route Note UInt8 UInt8) : VMEvent Blockchain.Route Note UInt8 (Option (List Nat)) UInt8 → Bool
  | .node event => vm.node.allows event
  | .initializeVM _ _ => false
  | .accept block => vm.node.allows (.call (.accept block))
  | .addMessage => true
  | .acceptChain =>
      match vm.process.bind Process.adding with
      | some (block, []) => vm.node.allows (.call (.accept block))
      | _ => false
  | .request _ _ _ => true

theorem legal_of_allows {context : Context UInt8} (vm : VM Blockchain.Route Note UInt8 UInt8)
    (event : VMEvent Blockchain.Route Note UInt8 (Option (List Nat)) UInt8) (allowed : vm.allows event = true) :
    vm.Legal context event := by
  cases event with
  | node event => exact Node.legal_of_allows allowed
  | initializeVM => cases allowed
  | accept block =>
    have allowed : vm.node.allows (.call (.accept block)) = true := allowed
    exact Node.legal_of_allows allowed
  | addMessage => trivial
  | acceptChain =>
    intro process block running adds
    unfold allows at allowed
    rw [running, Option.bind_some, adds] at allowed
    exact Node.legal_of_allows allowed
  | request => trivial

end VM

def freshVM : VM Blockchain.Route Note UInt8 UInt8 := ⟨Blockchain.freshNode, fun _ => none, none, [⟨[]⟩]⟩

/-- The node starts, and accepts the block that emits a message. -/
def emittingVM : Option (VM Blockchain.Route Note UInt8 UInt8) := do
  let step := fun vm : VM Blockchain.Route Note UInt8 UInt8 => vm.step Blockchain.everySecond ⟨1, 0⟩
  let booted ← Runs.run step VM.allows [.node .restart, .node .booted] freshVM
  let started ← step booted (.initializeVM (fun note => some note.code) [])
  Runs.run step VM.allows
    [.node (.call (.insert ⟨[]⟩ ⟨[0]⟩ (.ok ()) (.ok ()))), .node .write, .node .write, .accept ⟨[0]⟩, .addMessage, .acceptChain,
      .node .enqueue, .node .commit] started

theorem emittingVM_reach {vm : VM Blockchain.Route Note UInt8 UInt8} (ran : emittingVM = some vm) :
    Reach (vms Blockchain.everySecond ⟨1, 0⟩ ⟨[]⟩) (VM.Legal ⟨1, 0⟩) vm := by
  unfold emittingVM at ran
  obtain ⟨booted, boots, ran⟩ := Option.bind_eq_some_iff.mp ran
  obtain ⟨started, starts, ran⟩ := Option.bind_eq_some_iff.mp ran
  have steps : ∀ (vm : VM Blockchain.Route Note UInt8 UInt8) event after, vm.step Blockchain.everySecond ⟨1, 0⟩ event = some after →
      (vms Blockchain.everySecond ⟨1, 0⟩ ⟨[]⟩).step vm event after := fun vm event after stepped => stepped
  have fresh : Reach (vms Blockchain.everySecond ⟨1, 0⟩ ⟨[]⟩) (VM.Legal ⟨1, 0⟩) freshVM := by
    refine .start ⟨Blockchain.freshNode_starts _, fun height key below => absurd below (Nat.not_lt_zero height), ?_, rfl, rfl⟩
    exact fun key encoded impossible => (by cases impossible)
  have begun := fresh.ofRun steps VM.legal_of_allows boots
  have signs : booted.Legal ⟨1, 0⟩ (.initializeVM (fun note => some note.code) []) :=
    fun message => ⟨fun _ => ⟨rfl, rfl⟩, fun _ => rfl⟩
  have serving : Reach (vms Blockchain.everySecond ⟨1, 0⟩ ⟨[]⟩) (VM.Legal ⟨1, 0⟩) started := begun.next signs starts
  exact serving.ofRun steps VM.legal_of_allows ran

theorem emittingVM_serves : emittingVM.map (fun vm =>
    (vm.node.decisions, vm.process.any fun process => process.adding.isNone, (idle vm.node).isSome)) =
      some ([⟨[0]⟩, ⟨[]⟩], true, true) := by
  decide +kernel

/-- The message of the accepted block is signed. -/
theorem signatures_standing_sample : ∃ vm, emittingVM = some vm ∧ ∃ sig after,
    vm.respond ⟨1, 0⟩ (.messageSignature ⟨7⟩) (fun _ => none) (fun _ => .error "") = some (.signature (.ok sig), after) := by
  obtain ⟨vm, ran, shown⟩ := Option.map_eq_some_iff.mp emittingVM_serves
  obtain ⟨decisions, idles, runs⟩ : vm.node.decisions = [⟨[0]⟩, ⟨[]⟩] ∧ (vm.process.any fun process => process.adding.isNone) = true ∧
      (idle vm.node).isSome = true := by
    simpa using shown
  have serves : vm.Serves := by
    obtain ⟨running, found⟩ := Option.isSome_iff_exists.mp runs
    cases process : vm.process with
    | none =>
      rw [process] at idles
      cases idles
    | some current =>
      obtain ⟨memory, adding, signed⟩ := current
      rw [process] at idles
      obtain rfl := Option.isNone_iff_eq_none.mp idles
      exact ⟨memory, signed, running, process, found⟩
  have emits : Emits (⟨[0]⟩ : Blockchain.Route) (⟨7⟩ : Note) := ⟨[7], by decide, rfl⟩
  refine ⟨vm, ran, ?_⟩
  exact (signatures_standing (emittingVM_reach ran)).2.1 ⟨[0]⟩ (by rw [decisions]; decide) (by decide) ⟨7⟩ emits serves _ _

end Snowside.Signing
