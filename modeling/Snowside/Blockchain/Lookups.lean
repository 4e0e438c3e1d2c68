import Snowside.Blockchain.Available

/-! The lookups of the transactions of accepted blocks, over crashes and restarts. -/

set_option autoImplicit false

namespace Snowside.Blockchain

open Ancestry (IsParent Ancestor Path)
open Runs (Along Reach)
open Stateful (Ends perform)

variable {Block Hash Root Transaction : Type} [ChainBlock Block Hash] [StateBlock Block Root Transaction]

/-- A block that is valid on a chain of valid blocks repeats none of their transactions: their
senders' nonces are used. -/
def NoReplay (Block : Type) {Hash Root Transaction : Type} [ChainBlock Block Hash] [StateBlock Block Root Transaction] : Prop :=
  ∀ origin parent block : Block, Ancestor origin parent → IsParent parent block →
    (∀ above child, Ancestor origin above → IsParent above child → Ancestor child block → valid above child) →
    ∀ earlier, Ancestor origin earlier → earlier ≠ origin → Ancestor earlier parent →
      ∀ transaction ∈ transactions block, transaction ∉ transactions earlier

namespace Disk

variable (disk : Disk Block)

/-- Every transaction of the blocks after the origin, down to the last, has its block's number. -/
def LooksUp (origin last : Block) : Prop :=
  ∀ block, Ancestor origin block → block ≠ origin → Ancestor block last →
    ∀ transaction ∈ transactions block, disk.lookups transaction = some (number block)

/-- The acceptor tip is the block. It is unset only at the origin. -/
def TipAt (origin last : Block) : Prop :=
  disk.acceptorTip = some (hash last) ∨ disk.acceptorTip = none ∧ last = origin

/-- The acceptor has begun, unless nothing is accepted, and it is not ahead of consensus. -/
def CaughtUp (origin : Block) : Prop :=
  ∀ last, hash last = disk.lastAcceptedHash →
    (disk.acceptorTip = none → last = origin) ∧ ∀ tip, disk.acceptorTip = some (hash tip) → Ancestor tip last

/-- The indices are complete up to the acceptor tip, which is the block. -/
structure Filed (origin decided tip : Block) : Prop where
  here : disk.TipAt origin tip
  based : Ancestor origin tip
  below : Ancestor tip decided
  lookups : disk.LooksUp origin tip

variable {disk} {origin decided tip : Block}

theorem Filed.of_eq {after : Disk Block} (filed : disk.Filed origin decided tip) (tips : after.acceptorTip = disk.acceptorTip)
    (lookups : after.lookups = disk.lookups) : after.Filed origin decided tip where
  here := by
    unfold TipAt
    rw [tips]
    exact filed.here
  based := filed.based
  below := filed.below
  lookups := by
    unfold LooksUp
    rw [lookups]
    exact filed.lookups

variable [DecidableEq Hash] [DecidableEq Root] [DecidableEq Transaction]

/-- The next block is filed after its parent. -/
theorem Filed.acceptedIndices {last block : Block} (filed : disk.Filed origin decided tip) (noReplay : NoReplay Block)
    (sound : disk.Sound origin last decided) (step : IsParent tip block) (below : Ancestor block decided) :
    (disk.apply (.acceptedIndices block)).Filed origin decided block where
  here := .inl rfl
  based := filed.based.child step
  below := below
  lookups earlier based other above transaction member := by
    show (if transaction ∈ transactions block then some (number block) else disk.lookups transaction) = some (number earlier)
    rcases above.eq_or_parent with rfl | ⟨parent, isParent, further⟩
    · exact if_pos member
    · obtain rfl := Ancestry.parent_unique step isParent
      have new : transaction ∉ transactions block := fun again =>
        noReplay origin tip block filed.based step
          (fun parent child based isParent under => sound.valid parent child based isParent (under.trans below))
          earlier based other further transaction again member
      rw [if_neg new]
      exact filed.lookups earlier based other further transaction member

/-- Some block is the tip, and the indices are complete up to it. -/
abbrev Kept (disk : Disk Block) (origin decided : Block) : Prop := ∃ tip, disk.Filed origin decided tip

theorem Filed.along_chain (filed : disk.Filed origin decided tip) (writes : List (Write Block)) :
    Along Disk.apply (fun disk => disk.Kept origin decided) (writes.map .chain) disk := by
  induction writes generalizing disk with
  | nil => exact ⟨tip, filed⟩
  | cons batch rest ih => exact ⟨⟨tip, filed⟩, ih (filed.of_eq rfl rfl)⟩

theorem Filed.along_path {last target : Block} {blocks : List Block} (filed : disk.Filed origin decided tip)
    (noReplay : NoReplay Block) (sound : disk.Sound origin last decided) (path : Path tip blocks target)
    (below : Ancestor target decided) :
    Along Disk.apply (fun disk => disk.Kept origin decided) (blocks.map .acceptedIndices) disk ∧
      (disk.applyAll (blocks.map .acceptedIndices)).Filed origin decided target := by
  induction blocks generalizing disk tip with
  | nil =>
    cases path
    exact ⟨⟨_, filed⟩, filed⟩
  | cons block rest ih =>
    obtain ⟨step, path⟩ := path
    have under := path.ancestor.trans below
    have next := filed.acceptedIndices noReplay sound step under
    obtain ⟨along, ends⟩ := ih next (sound.acceptedIndices (filed.based.child step) under) path
    exact ⟨⟨⟨tip, filed⟩, along⟩, ends⟩

end Disk

/-! ## The restart -/

section

variable [DecidableEq Hash] [DecidableEq Root] [DecidableEq Transaction] {origin last decided start tip : Block} {disk : Disk Block}
  {restored after : Boot Block} {reexec : Nat} {outcome : Except (RestartError Hash) Unit}

/-- From a disk that has caught up the restart completes the indices. -/
theorem Restored.files (holds : Restored origin last decided disk restored) (sound : disk.Sound origin last decided)
    (filed : disk.Filed origin decided tip) (noReplay : NoReplay Block) (searches : disk.Searches last start)
    (caughtUp : disk.CaughtUp origin) (based : Ancestor origin start) (reprocessed : Reprocessed start last reexec restored outcome after) :
    Along Disk.apply (fun disk => disk.Kept origin decided) after.written disk ∧
      (outcome = .ok () → after.disk.Filed origin decided last) := by
  obtain ⟨unset, behind⟩ := caughtUp last sound.persisted.symm
  have restored_sound := holds.sound sound
  obtain ⟨writes, same, _⟩ := holds.wrote
  have begun := filed.along_chain writes
  have written : restored.written = writes.map .chain := by rw [same]; rfl
  have restored_filed : restored.disk.Filed origin decided tip := by
    refine filed.of_eq ?_ ?_ <;> rw [holds.disk_eq]
  have restored_tip : restored.disk.acceptorTip = disk.acceptorTip := by rw [holds.disk_eq]
  rw [← written] at begun
  -- The search starts at the tip, so the last block is the tip once they are one.
  have start_eq : start = tip := by
    rcases filed.here with set | ⟨none, rfl⟩
    · rw [Disk.Searches, set] at searches
      exact hash_injective searches
    · rw [Disk.Searches, none] at searches
      rw [hash_injective searches]
      exact unset none
  subst start_eq
  have under : Ancestor start last := by
    rcases filed.here with set | ⟨none, rfl⟩
    · exact behind start set
    · exact sound.rooted
  cases reprocessed with
  | upToDate present equal =>
    rw [equal] at restored_filed
    exact ⟨begun, fun _ => restored_filed⟩
  | unavailable => exact ⟨begun, fun impossible => nomatch impossible⟩
  | above ancestor present near nearest high =>
    have equal := under.eq_of_level (Nat.le_trans high (number_le ancestor))
    rw [equal] at restored_filed
    exact ⟨begun, fun _ => restored_filed⟩
  | @processed found blocks ancestor present near nearest low between indexes =>
    have path : Path start blocks last := by
      rcases indexes with ⟨other, set, onward, path⟩ | ⟨rfl, only⟩
      · rcases restored_filed.here with named | ⟨none, _⟩
        · obtain rfl := hash_injective (Option.some.inj (named.symm.trans set))
          exact path
        · rw [none] at set
          cases set
      · rcases restored_filed.here with named | ⟨none, rfl⟩
        · exact only start named ancestor under
        · -- The origin has its state, so nothing is processed again.
          have equal := unset (restored_tip ▸ none)
          rw [equal] at low
          exact absurd restored_sound.base (nearest start (.refl start) low)
    obtain ⟨along, ends⟩ := restored_filed.along_path noReplay restored_sound path sound.final
    have final : ((restored.disk.applyAll (blocks.map .acceptedIndices)).apply (.state (root last))).Filed origin decided last :=
      ends.of_eq rfl rfl
    have applied : disk.applyAll restored.written = restored.disk := by
      rw [same]
      rfl
    have more : Along Disk.apply (fun disk => disk.Kept origin decided) (blocks.map .acceptedIndices ++ [.state (root last)])
        restored.disk := along.append ⟨along.last, ⟨last, final⟩⟩
    refine ⟨begun.append ?_, fun _ => ?_⟩
    · rw [show restored.written.foldl Disk.apply disk = restored.disk from applied]
      exact more
    · show (restored.disk.applyAll (blocks.map .acceptedIndices ++ [.state (root last)])).Filed origin decided last
      rw [Disk.applyAll_append]
      exact final

/-- A disk on which the restart completes the indices had caught up. -/
theorem Restored.caughtUp_of_tip (holds : Restored origin last decided disk restored) (sound : disk.Sound origin last decided)
    (searches : disk.Searches last start) (reprocessed : Reprocessed start last reexec restored (.ok ()) after)
    (ends : after.disk.TipAt origin last) : disk.CaughtUp origin := by
  intro other named
  obtain rfl : other = last := hash_injective (named.trans sound.persisted)
  have restored_tip : restored.disk.acceptorTip = disk.acceptorTip := by rw [holds.disk_eq]
  have still : restored.disk.TipAt origin other →
      (disk.acceptorTip = none → other = origin) ∧ ∀ tip, disk.acceptorTip = some (hash tip) → Ancestor tip other := by
    rw [Disk.TipAt, restored_tip]
    rintro (set | ⟨none, rfl⟩)
    · rw [set]
      refine ⟨fun impossible => (nomatch impossible), fun tip same => ?_⟩
      rw [hash_injective (Option.some.inj same)]
      exact .refl tip
    · rw [none]
      exact ⟨fun _ => rfl, fun _ impossible => nomatch impossible⟩
  cases reprocessed with
  | upToDate => exact still ends
  | above => exact still ends
  | @processed found blocks ancestor present near nearest low between indexes =>
    rcases indexes with ⟨tip, set, onward, path⟩ | ⟨rfl, _⟩
    · rw [← restored_tip, set]
      refine ⟨fun impossible => (nomatch impossible), fun found same => ?_⟩
      rw [← hash_injective (Option.some.inj same)]
      exact path.ancestor
    · exact still ends

end

/-! ## The invariant -/

/-- The last block in the acceptor queue or before it. -/
def Consensus.enqueued (last : Block) : Consensus Block → Block
  | .writing _ _ => last
  | .committing block => block

section

variable [DecidableEq Hash] [DecidableEq Root] [DecidableEq Transaction]

def Phase.Filed (origin last decided tip : Block) (disk : Disk Block) : Phase Block Root → Prop
  | .down => True
  | .booting pending head => Along Disk.apply (fun disk => disk.Kept origin decided) pending disk ∧
      ∀ block, head = some block → (disk.applyAll pending).Filed origin decided last
  | .running memory => Path tip memory.acceptorQueue (memory.consensus.enqueued last)

/-- The indices are complete up to the tip, and the queue goes on from there. -/
def Node.Filed (origin last : Block) (node : Node Block) : Prop :=
  ∃ tip, node.disk.Filed origin node.decided tip ∧ node.phase.Filed origin last node.decided tip node.disk

/-- Consensus is as it may be, and a restart finds a disk that has caught up. -/
def Node.CaughtUp (origin : Block) (node : Node Block) (event : Event Block) : Prop :=
  node.Legal event ∧ (event = .restart → node.disk.CaughtUp origin)

namespace Node.Filed

variable {origin last : Block} {node after : Node Block} {settings : Settings} {event : Event Block}

theorem of_idle {disk : Disk Block} {memory later : Running Block} (filed : node.Filed origin last)
    (running : node.phase = .running memory) (tips : disk.acceptorTip = node.disk.acceptorTip) (lookups : disk.lookups = node.disk.lookups)
    (queue : later.acceptorQueue = memory.acceptorQueue)
    (enqueued : later.consensus.enqueued last = memory.consensus.enqueued last) :
    ({ node with disk := disk, phase := .running later } : Node Block).Filed origin last := by
  obtain ⟨tip, holds, phase⟩ := filed
  rw [running] at phase
  refine ⟨tip, holds.of_eq tips lookups, ?_⟩
  show Path tip later.acceptorQueue (later.consensus.enqueued last)
  rw [queue, enqueued]
  exact phase

theorem stepRunning {memory : Running Block} (filed : node.Filed origin last) (good : node.Good origin last)
    (noReplay : NoReplay Block) (running : node.phase = .running memory)
    (stepped : node.stepRunning settings memory event = some after) :
    ∃ next, hash next = after.disk.lastAcceptedHash ∧ after.Filed origin next := by
  have named := good.sound.persisted
  have good_phase := good.phase
  rw [running] at good_phase
  cases Node.stepRunning_cases stepped with
  | call idle =>
    refine ⟨last, named.symm, filed.of_idle running rfl rfl rfl ?_⟩
    rw [idle]
    rfl
  | write writing =>
    refine ⟨last, named.symm, filed.of_idle running rfl rfl rfl ?_⟩
    rw [writing]
    rfl
  | @enqueue block accepts =>
    obtain ⟨tip, holds, phase⟩ := filed
    rw [running] at phase
    have consensus := good_phase.consensus
    rw [accepts] at consensus
    replace phase : Path tip memory.acceptorQueue last := by
      have path : Path tip memory.acceptorQueue (memory.consensus.enqueued last) := phase
      rwa [accepts] at path
    cases consensus with
    | accepting applied safe same step finality =>
      have below : Ancestor node.decided (if number block ≤ number node.decided then node.decided else block) := by
        split
        · exact .refl _
        · next new =>
          rcases finality with below | above
          · exact absurd (number_le below) new
          · exact above
      exact ⟨last, named.symm, tip, { holds with below := holds.below.trans below }, phase.append_child step⟩
  | @commit block committing =>
    obtain ⟨tip, holds, phase⟩ := filed
    rw [running] at phase
    refine ⟨block, rfl, tip, holds.of_eq rfl rfl, ?_⟩
    have path : Path tip memory.acceptorQueue (memory.consensus.enqueued last) := phase
    rwa [committing] at path
  | @index block rest free queued =>
    obtain ⟨tip, holds, phase⟩ := filed
    rw [running] at phase
    have path : Path tip memory.acceptorQueue (memory.consensus.enqueued last) := phase
    rw [queued] at path
    have below := (good_phase.queued block (by rw [queued]; exact List.mem_cons_self ..)).2
    exact ⟨last, named.symm, block, holds.acceptedIndices noReplay good.sound path.1 below, path.2⟩
  | acceptTrie indexed =>
    refine ⟨last, ?_, filed.of_idle running ?_ ?_ rfl rfl⟩
    · show hash last = Disk.lastAcceptedHash (if _ then _ else _)
      split <;> exact named.symm
    · split <;> rfl
    · split <;> rfl
  | flush =>
    refine ⟨last, named.symm, ?_⟩
    obtain ⟨tip, holds, phase⟩ := filed
    refine ⟨tip, holds.of_eq rfl rfl, ?_⟩
    rw [running] at phase
    show Phase.Filed origin last node.decided tip _ node.phase
    rw [running]
    exact phase

theorem step (filed : node.Filed origin last) (good : node.Good origin last) (first : IsOrigin origin) (noReplay : NoReplay Block)
    (met : node.CaughtUp origin event) (stepped : node.step settings event = some after) :
    ∃ next, hash next = after.disk.lastAcceptedHash ∧ after.Filed origin next := by
  have named := good.sound.persisted
  unfold Node.step at stepped
  split at stepped
  · cases stepped
    obtain ⟨tip, holds, _⟩ := filed
    exact ⟨last, named.symm, tip, holds, trivial⟩
  · next down =>
    cases stepped
    obtain ⟨tip, holds, _⟩ := filed
    obtain ⟨start, searches, based, below⟩ := good.sound.exists_start
    have ends := newBlockChain_ends good.sound first searches based below settings.commitInterval
    obtain ⟨restored, outcome, restores, reprocessed, ended⟩ := ends
    obtain ⟨along, final⟩ := restores.files good.sound holds noReplay searches (met.2 rfl) based reprocessed
    obtain ⟨applied, _, _⟩ := restores.boots good.sound based reprocessed
    refine ⟨last, named.symm, tip, holds, along, fun block found => ?_⟩
    rw [← applied]
    refine final ((ended block).mp ?_).1
    cases result : (perform (newBlockChain settings.commitInterval) ⟨node.disk, []⟩).1 with
    | error error =>
      rw [result] at found
      cases found
    | ok value =>
      rw [result] at found
      cases found
      rfl
  · next booting =>
    cases stepped
    obtain ⟨tip, holds, phase⟩ := filed
    rw [booting] at phase
    obtain ⟨later, kept⟩ := phase.1.2.here
    exact ⟨last, (good.bootWrite booting).sound.persisted.symm, later, kept, phase.1.2, phase.2⟩
  · next booting =>
    cases stepped
    obtain ⟨tip, holds, phase⟩ := filed
    have started := good.phase
    rw [booting] at phase started
    obtain ⟨rfl, _⟩ := started.2 _ rfl
    exact ⟨_, named.symm, _, phase.2 _ rfl, rfl⟩
  · cases stepped
    obtain ⟨tip, holds, _⟩ := filed
    exact ⟨last, named.symm, tip, holds, trivial⟩
  · next running _ =>
    exact filed.stepRunning good noReplay running stepped
  · cases stepped

end Node.Filed

/-- The invariant holds in every run whose restarts find a disk that has caught up. -/
theorem exists_filed {settings : Settings} {origin : Block} {node : Node Block} (noReplay : NoReplay Block)
    (reach : Reach (nodes Block settings origin) (Node.CaughtUp origin) node) :
    IsOrigin origin ∧ ∃ last, node.Good origin last ∧ node.Filed origin last := by
  refine reach.invariant (fun node => IsOrigin origin ∧ ∃ last, node.Good origin last ∧ node.Filed origin last) ?_ ?_
  · rintro node ⟨starts, down, decisions, decided⟩
    have good : node.Good origin origin := .initial starts down decisions decided
    refine ⟨starts.first, origin, good, origin, ?_, ?_⟩
    · refine ⟨?_, .refl origin, good.sound.final, fun block based other above => ?_⟩
      · exact starts.tip.elim (fun none => .inr ⟨none, rfl⟩) .inl
      · exact absurd (above.eq_of_level based.level_le) other
    · rw [down]
      trivial
  · rintro node event after ⟨first, last, good, filed⟩ met stepped
    obtain ⟨next, named, files⟩ := filed.step good first noReplay met stepped
    obtain ⟨other, keeps⟩ := good.step first met.1 stepped
    obtain rfl : next = other := hash_injective (named.trans keeps.sound.persisted)
    exact ⟨first, next, keeps, files⟩

end

/-! ## An acceptor that has not begun -/

theorem Route.noReplay : NoReplay Route := by
  intro origin parent block _ step _ earlier _ _ above transaction member again
  have low := number_le above
  have next := number_child step
  have same : block.turns = earlier.turns := (List.mem_singleton.mp member).symm.trans (List.mem_singleton.mp again)
  have equal : number block = number earlier := congrArg List.length same
  omega

/-- A block is accepted, and the acceptor has not come to it. -/
def idleEvents : List (Event Route) :=
  [.restart, .booted, .call (.insert ⟨[]⟩ ⟨[0]⟩ (.ok ()) (.ok ())), .write, .write, .call (.accept ⟨[0]⟩), .enqueue, .commit,
   .crash]

theorem idle_restart : (freshNode.run everySecond idleEvents).map (fun node =>
    ((perform (newBlockChain everySecond.commitInterval) ⟨node.disk, []⟩).1.toOption,
      (perform (newBlockChain everySecond.commitInterval) ⟨node.disk, []⟩).2.disk.acceptorTip,
      (perform (newBlockChain everySecond.commitInterval) ⟨node.disk, []⟩).2.disk.lookups [0])) =
    some (some ⟨[0]⟩, none, none) := by
  decide +kernel

end Snowside.Blockchain
