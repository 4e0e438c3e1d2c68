import Mathlib.Data.List.Nodup
import Mathlib.Tactic.Tauto
import Snowside.Sync.Tries

/-! How often a storage trie is reported finished. -/

set_option autoImplicit false

namespace Snowside.StateSync

open Runs

/-- Only the task of a trie's only segment is skipped. -/
def singleSkip (sync : Sync) : Action → Bool
  | .start key true => (sync.tries key).segments = 1
  | _ => true

/-! ## The segments of one trie -/

namespace Trie

/-- Every segment waits, runs or is done, and the trie is not yet reported; the producer still has some to send. -/
structure Live (trie : Trie) (left : Nat) : Prop where
  total : trie.segments = left + trie.unsent + trie.queued + trie.running + trie.segmentsDone
  some_segment : 0 < trie.segments
  worker : trie.splitting ≠ .not → 0 < trie.running
  unsent : trie.splitting = .not → trie.unsent = 0
  all_done : trie.stage ≠ .syncing → trie.segmentsDone = trie.segments
  completes : trie.segmentsDone = trie.segments → trie.stage ≠ .syncing
  unfinished : trie.stage ≠ .finished

/-- No segment waits or runs and segmentFinished has nothing to do. -/
structure Over (trie : Trie) : Prop where
  unsent : trie.unsent = 0
  queued : trie.queued = 0
  running : trie.running = 0
  splitting : trie.splitting = .not
  stage : trie.stage = .syncing ∨ trie.stage = .finished

/-- Something of the trie is on its way. -/
def busy (trie : Trie) : Nat := trie.unsent + trie.queued + trie.running + trie.segmentsDone

variable {trie : Trie} {left : Nat}

theorem Live.takes (live : trie.Live left) (queued : 0 < trie.queued) :
    ({ trie with queued := trie.queued - 1, running := trie.running + 1 } : Trie).Live left := by
  refine ⟨?_, live.some_segment, fun _ => Nat.succ_pos _, live.unsent, live.all_done, live.completes, live.unfinished⟩
  have total := live.total
  show trie.segments = left + trie.unsent + (trie.queued - 1) + (trie.running + 1) + trie.segmentsDone
  omega

/-- The skipped task of a trie's only segment was all there was of it. -/
theorem Live.skips (live : trie.Live left) (queued : 0 < trie.queued) (single : trie.segments = 1) :
    ({ trie with queued := trie.queued - 1 } : Trie).Over ∧ left = 0 := by
  have total := live.total
  have still : trie.splitting = .not := by
    by_contra splits
    have := live.worker splits
    omega
  have syncing : trie.stage = .syncing := by
    by_contra stopped
    have := live.all_done stopped
    omega
  refine ⟨⟨?_, ?_, ?_, still, .inl syncing⟩, ?_⟩
  · show trie.unsent = 0
    omega
  · show trie.queued - 1 = 0
    omega
  · show trie.running = 0
    omega
  · omega

theorem Live.splits (live : trie.Live left) (running : 0 < trie.running) :
    ({ trie with splitting := .creating } : Trie).Live left :=
  ⟨live.total, live.some_segment, fun _ => running, fun impossible => (by cases impossible), live.all_done, live.completes,
    live.unfinished⟩

theorem Live.adds (live : trie.Live left) (creating : trie.splitting = .creating) :
    ({ trie with segments := trie.segments + 1, unsent := trie.unsent + 1 } : Trie).Live left := by
  have total := live.total
  have running : 0 < trie.running := live.worker (by rw [creating]; decide)
  refine ⟨?_, Nat.succ_pos _, live.worker, fun still => ?_, fun stopped => ?_, fun done => ?_, live.unfinished⟩
  · show trie.segments + 1 = left + (trie.unsent + 1) + trie.queued + trie.running + trie.segmentsDone
    omega
  · rw [creating] at still
    cases still
  · have := live.all_done stopped
    omega
  · change trie.segmentsDone = trie.segments + 1 at done
    omega

theorem Live.sending (live : trie.Live left) (creating : trie.splitting = .creating) :
    ({ trie with splitting := .sending } : Trie).Live left :=
  ⟨live.total, live.some_segment, fun _ => live.worker (by rw [creating]; decide), fun impossible => (by cases impossible),
    live.all_done, live.completes, live.unfinished⟩

theorem Live.sends (live : trie.Live left) (sending : trie.splitting = .sending) (unsent : 0 < trie.unsent) :
    ({ trie with unsent := trie.unsent - 1, queued := trie.queued + 1 } : Trie).Live left := by
  refine ⟨?_, live.some_segment, live.worker, fun still => ?_, live.all_done, live.completes, live.unfinished⟩
  · have total := live.total
    show trie.segments = left + (trie.unsent - 1) + (trie.queued + 1) + trie.running + trie.segmentsDone
    omega
  · change trie.splitting = .not at still
    rw [sending] at still
    cases still

theorem Live.endsSplit (live : trie.Live left) (unsent : trie.unsent = 0) :
    ({ trie with splitting := .not } : Trie).Live left :=
  ⟨live.total, live.some_segment, fun impossible => absurd rfl impossible, fun _ => unsent, live.all_done, live.completes,
    live.unfinished⟩

theorem Live.finishes (live : trie.Live left) (running : trie.splitters < trie.running) :
    ({ trie with
        running := trie.running - 1
        segmentsDone := trie.segmentsDone + 1
        stage := if trie.segmentsDone + 1 = trie.segments then .hashed else trie.stage } : Trie).Live left := by
  have total := live.total
  have some_running : 0 < trie.running := Nat.zero_lt_of_lt running
  have syncing : trie.stage = .syncing := by
    by_contra stopped
    have := live.all_done stopped
    omega
  refine ⟨?_, live.some_segment, fun splits => ?_, live.unsent, fun stopped => ?_, fun done => ?_, ?_⟩
  · show trie.segments = left + trie.unsent + trie.queued + (trie.running - 1) + (trie.segmentsDone + 1)
    omega
  · show 0 < trie.running - 1
    unfold splitters at running
    rw [if_neg splits] at running
    omega
  · change (if trie.segmentsDone + 1 = trie.segments then Stage.hashed else trie.stage) ≠ .syncing at stopped
    split at stopped
    · assumption
    · exact absurd syncing stopped
  · change trie.segmentsDone + 1 = trie.segments at done
    show (if trie.segmentsDone + 1 = trie.segments then Stage.hashed else trie.stage) ≠ .syncing
    rw [if_pos done]
    decide
  · show (if trie.segmentsDone + 1 = trie.segments then Stage.hashed else trie.stage) ≠ .finished
    split
    · decide
    · exact live.unfinished

theorem Live.writes (live : trie.Live left) (hashed : trie.stage = .hashed) :
    ({ trie with stage := .written } : Trie).Live left :=
  ⟨live.total, live.some_segment, live.worker, live.unsent, fun _ => live.all_done (by rw [hashed]; decide),
    fun _ impossible => (by cases impossible), fun impossible => (by cases impossible)⟩

/-- All segments are done when the markers are cleared. -/
theorem Live.clears (live : trie.Live left) (written : trie.stage = .written) :
    ({ trie with stage := .finished } : Trie).Over ∧ left = 0 := by
  have total := live.total
  have done := live.all_done (by rw [written]; decide)
  have still : trie.splitting = .not := by
    by_contra splits
    have := live.worker splits
    omega
  refine ⟨⟨?_, ?_, ?_, still, .inr rfl⟩, ?_⟩
  · show trie.unsent = 0
    omega
  · show trie.queued = 0
    omega
  · show trie.running = 0
    omega
  · omega

theorem Live.queues (live : trie.Live (left + 1)) : ({ trie with queued := trie.queued + 1 } : Trie).Live left := by
  refine ⟨?_, live.some_segment, live.worker, live.unsent, live.all_done, live.completes, live.unfinished⟩
  have total := live.total
  show trie.segments = left + trie.unsent + (trie.queued + 1) + trie.running + trie.segmentsDone
  omega

theorem live_newTrieToSync (markers : Nat) : (newTrieToSync markers).Live (markers + 1) :=
  ⟨rfl, Nat.succ_pos _, fun impossible => absurd rfl impossible, fun _ => rfl, fun impossible => absurd rfl impossible,
    fun done => (by cases done), fun impossible => (by cases impossible)⟩

end Trie

/-! ## The whole sync -/

/-- The trie the producer holds a slot for and has not yet put in progress. -/
def loading : Producer → List Root
  | .acquired root _ => [root]
  | _ => []

/-- The trie whose segments the producer has not begun to send. -/
def opening : Producer → List Root
  | .acquired root _ => [root]
  | .tracked root _ => [root]
  | _ => []

/-- How many segments of a trie the producer has still to put on the channel, of so many. -/
def toSend (producer : Producer) (root : Root) (segments : Nat) : Nat :=
  match producer with
  | .tracked other _ => if other = root then segments else 0
  | .sending other left _ => if other = root then left else 0
  | _ => 0

namespace Sync

/-- The trie has been loaded and not been reported. -/
def live (sync : Sync) : Option Root → Prop
  | none => sync.mainTrie = .syncing
  | some root => root ∈ sync.unreported ∧ root ∉ loading sync.producer

/-- The segments of a trie that the producer has still to put on the channel. -/
def left (sync : Sync) : Option Root → Nat
  | none => 0
  | some root => toSend sync.producer root (sync.tries (some root)).segments

/-- The storage tries between their slot and the end of their progress. -/
def active (sync : Sync) : List Root := sync.unreported ++ sync.releasing ++ sync.clearing ++ sync.removing

/-- The tries in progress are those not reported or with a call that has not removed them, and each is reported once. -/
structure Sound (sync : Sync) : Prop where
  tasks : ∀ key, sync.live key → (sync.tries key).Live (sync.left key)
  stopped : ∀ key, ¬sync.live key → (sync.tries key).Over ∧ sync.left key = 0
  progress : sync.active.Perm (loading sync.producer ++ sync.triesInProgress)
  nodup : sync.active.Nodup
  slots : sync.triesInProgressSem = sync.unreported.length + sync.releasing.length
  queue : (sync.trieQueue ++ sync.taken).Nodup
  known : ∀ root ∈ sync.active, root ∈ sync.taken
  reported : ∀ root ∈ sync.taken, sync.reports root = if root ∈ sync.unreported then 0 else 1
  unknown : ∀ root, root ∉ sync.taken → sync.reports root = 0
  opened : ∀ root ∈ opening sync.producer, root ∈ sync.unreported
  intact : sync.failed = false

variable {sync : Sync}

/-- A trie with something on its way is live: it was loaded and has not been reported. -/
theorem Sound.live_of (sound : sync.Sound) {key : Option Root} (moving : ¬(sync.tries key).Over) : sync.live key := by
  by_contra ended
  exact moving (sound.stopped key ended).1

theorem not_over_of_queued {trie : Trie} (queued : 0 < trie.queued) : ¬trie.Over := fun stopped =>
  absurd stopped.queued (Nat.ne_of_gt queued)

theorem not_over_of_running {trie : Trie} (running : 0 < trie.running) : ¬trie.Over := fun stopped =>
  absurd stopped.running (Nat.ne_of_gt running)

theorem not_over_of_splitting {trie : Trie} (splits : trie.splitting ≠ .not) : ¬trie.Over := fun stopped =>
  splits stopped.splitting

theorem setTrie_tries (key : Option Root) (trie : Trie) : (sync.setTrie key trie).tries key = trie :=
  Function.update_self ..

theorem left_setTrie_ne {key other : Option Root} {trie : Trie} (distinct : other ≠ key) :
    (sync.setTrie key trie).left other = sync.left other := by
  cases other with
  | none => rfl
  | some root =>
    show toSend sync.producer root (Function.update sync.tries key trie (some root)).segments = _
    rw [Function.update_of_ne distinct]
    rfl

/-- A trie with something on its way is not one that the producer is about to start. -/
theorem toSend_busy {producer : Producer} {root : Root} {trie : Trie}
    (live : trie.Live (toSend producer root trie.segments)) (busy : 0 < trie.busy) (more : Bool) :
    producer ≠ .tracked root more := by
  intro tracks
  have total := live.total
  subst tracks
  simp only [toSend, if_true] at total
  unfold Trie.busy at busy
  omega

/-- A change of a trie with something on its way does not move what the producer has to send. -/
theorem left_setTrie {key : Option Root} (trie : Trie) (live : (sync.tries key).Live (sync.left key))
    (busy : 0 < (sync.tries key).busy) (other : Option Root) : (sync.setTrie key trie).left other = sync.left other := by
  by_cases same : other = key
  · subst same
    cases other with
    | none => rfl
    | some root =>
      have started := toSend_busy live busy
      show toSend sync.producer root _ = toSend sync.producer root _
      cases position : sync.producer with
      | tracked tracked more =>
        have distinct : tracked ≠ root := fun same => started more (by rw [position, same])
        simp only [toSend, if_neg distinct]
      | _ => rfl
  · exact left_setTrie_ne same

/-- A step of one trie that stays live. -/
theorem Sound.setTrie (sound : sync.Sound) {key : Option Root} {trie : Trie} (lives : sync.live key)
    (busy : 0 < (sync.tries key).busy) (still : ∀ left, (sync.tries key).Live left → trie.Live left) :
    (sync.setTrie key trie).Sound := by
  have live := sound.tasks key lives
  have left := left_setTrie trie live busy
  refine ⟨?_, ?_, sound.progress, sound.nodup, sound.slots, sound.queue, sound.known, sound.reported, sound.unknown, sound.opened,
    sound.intact⟩
  · intro other lively
    rw [left]
    by_cases same : other = key
    · subst same
      show (Function.update sync.tries other trie other).Live _
      rw [Function.update_self]
      exact still _ live
    · show (Function.update sync.tries key trie other).Live _
      rw [Function.update_of_ne same]
      exact sound.tasks other lively
  · intro other ended
    have distinct : other ≠ key := fun same => ended (same ▸ lives)
    rw [left]
    show (Function.update sync.tries key trie other).Over ∧ _
    rw [Function.update_of_ne distinct]
    exact sound.stopped other ended

/-- What is on disk and on the channel is nothing to the count of reports. -/
theorem Sound.sent (sound : sync.Sound) (flag : Bool) : ({ sync with sentOnClosed := flag } : Sync).Sound :=
  ⟨sound.tasks, sound.stopped, sound.progress, sound.nodup, sound.slots, sound.queue, sound.known, sound.reported,
    sound.unknown, sound.opened, sound.intact⟩

theorem Sound.onDisk (sound : sync.Sound) (disk : Disk) : ({ sync with disk := disk } : Sync).Sound :=
  ⟨sound.tasks, sound.stopped, sound.progress, sound.nodup, sound.slots, sound.queue, sound.known, sound.reported,
    sound.unknown, sound.opened, sound.intact⟩

/-- A live trie that comes to its end is reported, and was not before. -/
theorem Sound.reports (sound : sync.Sound) {root : Root} {trie : Trie} (lives : sync.live (some root))
    (busy : 0 < (sync.tries (some root)).busy)
    (ends : ∀ left, (sync.tries (some root)).Live left → trie.Over ∧ left = 0) :
    ((sync.setTrie (some root) trie).onStorageTrieFinished root).Sound := by
  have live := sound.tasks _ lives
  have left := left_setTrie trie live busy
  have member := lives.1
  have each : sync.unreported.Nodup := by
    have nodup := sound.nodup
    unfold active at nodup
    exact (List.nodup_append.mp (List.nodup_append.mp (List.nodup_append.mp nodup).1).1).1
  have gone : root ∉ sync.unreported.erase root := fun there => (List.Nodup.mem_erase_iff each).mp there |>.1 rfl
  have moved : ((sync.setTrie (some root) trie).onStorageTrieFinished root).active.Perm sync.active := by
    show (sync.unreported.erase root ++ (root :: sync.releasing) ++ sync.clearing ++ sync.removing).Perm
      (sync.unreported ++ sync.releasing ++ sync.clearing ++ sync.removing)
    refine (List.Perm.append_right _ (List.Perm.append_right _ ?_))
    exact List.perm_middle.trans ((List.perm_cons_erase member).symm.append_right _)
  refine ⟨?_, ?_, moved.trans sound.progress, moved.nodup_iff.mpr sound.nodup, ?_, sound.queue, ?_, ?_, ?_, ?_, sound.intact⟩
  · intro other lively
    have distinct : other ≠ some root := by
      intro same
      subst same
      exact gone lively.1
    have before : sync.live other := by
      cases other with
      | none => exact lively
      | some other => exact ⟨List.mem_of_mem_erase lively.1, lively.2⟩
    show (Function.update sync.tries (some root) trie other).Live ((sync.setTrie (some root) trie).left other)
    rw [Function.update_of_ne distinct, left]
    exact sound.tasks other before
  · intro other ended
    show (Function.update sync.tries (some root) trie other).Over ∧ (sync.setTrie (some root) trie).left other = 0
    rw [left]
    by_cases same : other = some root
    · subst same
      rw [Function.update_self]
      exact ends _ live
    · rw [Function.update_of_ne same]
      refine sound.stopped other fun lively => ended ?_
      cases other with
      | none => exact lively
      | some other => exact ⟨(List.mem_erase_of_ne fun equal => same (congrArg some equal)).mpr lively.1, lively.2⟩
  · show sync.triesInProgressSem = (sync.unreported.erase root).length + (sync.releasing.length + 1)
    have shorter := List.length_erase_of_mem member
    have some_left := List.length_pos_of_mem member
    have slots := sound.slots
    omega
  · intro other there
    exact sound.known other (moved.mem_iff.mp there)
  · intro other taken
    show Function.update sync.reports root (sync.reports root + 1) other = if other ∈ sync.unreported.erase root then 0 else 1
    by_cases same : other = root
    · subst same
      rw [Function.update_self, if_neg gone, sound.reported other taken, if_pos member]
    · rw [Function.update_of_ne same, sound.reported other taken]
      simp only [List.mem_erase_of_ne same]
  · intro other fresh
    show Function.update sync.reports root (sync.reports root + 1) other = 0
    have distinct : other ≠ root := by
      intro same
      subst same
      exact fresh (sound.known other (by simp [active, member]))
    rw [Function.update_of_ne distinct]
    exact sound.unknown other fresh
  · intro other opens
    have distinct : other ≠ root := by
      intro same
      subst same
      have started := toSend_busy live busy
      have away := lives.2
      change other ∈ opening sync.producer at opens
      cases position : sync.producer with
      | acquired holder more =>
        rw [position] at opens away
        exact away opens
      | tracked holder more =>
        rw [position] at opens
        exact started more (by rw [position, List.mem_singleton.mp opens])
      | _ =>
        rw [position] at opens
        cases opens
    exact (List.mem_erase_of_ne distinct).mpr (sound.opened other opens)

/-- The main trie comes to its end; from then on nothing of it is live. -/
theorem Sound.mainTrieEnds (sound : sync.Sound) (trie : Trie) {mainTrie : MainTrie} (moved : mainTrie ≠ .syncing)
    (ends : (sync.mainTrie = .syncing → (sync.tries none).Live 0) → (sync.mainTrie ≠ .syncing → (sync.tries none).Over) →
      trie.Over) : ({ sync.setTrie none trie with mainTrie := mainTrie } : Sync).Sound := by
  refine ⟨?_, ?_, sound.progress, sound.nodup, sound.slots, sound.queue, sound.known, sound.reported, sound.unknown, sound.opened,
    sound.intact⟩
  · intro key lively
    cases key with
    | none => exact absurd lively moved
    | some root =>
      show (Function.update sync.tries none trie (some root)).Live ((sync.setTrie none trie).left (some root))
      rw [Function.update_of_ne (Option.some_ne_none root), left_setTrie_ne (Option.some_ne_none root)]
      exact sound.tasks (some root) lively
  · intro key ended
    cases key with
    | none =>
      show (Function.update sync.tries none trie none).Over ∧ 0 = 0
      rw [Function.update_self]
      exact ⟨ends (fun syncing => sound.tasks none syncing) (fun stopped => (sound.stopped none stopped).1), rfl⟩
    | some root =>
      show (Function.update sync.tries none trie (some root)).Over ∧ (sync.setTrie none trie).left (some root) = 0
      rw [Function.update_of_ne (Option.some_ne_none root), left_setTrie_ne (Option.some_ne_none root)]
      exact sound.stopped (some root) ended

theorem setTrie_self (key : Option Root) : sync.setTrie key (sync.tries key) = sync := by
  unfold setTrie
  rw [Function.update_eq_self]

/-- The producer moves on, with nothing more or less to send. -/
theorem Sound.produces (sound : sync.Sound) (producer : Producer) (loads : loading producer = loading sync.producer)
    (sends : ∀ key, ({ sync with producer := producer } : Sync).left key = sync.left key)
    (opens : ∀ root ∈ opening producer, root ∈ sync.unreported) :
    ({ sync with producer := producer } : Sync).Sound := by
  have lives (key : Option Root) : ({ sync with producer := producer } : Sync).live key ↔ sync.live key := by
    cases key with
    | none => exact Iff.rfl
    | some root =>
      show (root ∈ sync.unreported ∧ root ∉ loading producer) ↔ _
      rw [loads]
      rfl
  refine ⟨?_, ?_, ?_, sound.nodup, sound.slots, sound.queue, sound.known, sound.reported, sound.unknown, opens, sound.intact⟩
  · intro key lively
    rw [sends]
    exact sound.tasks key ((lives key).mp lively)
  · intro key ended
    rw [sends]
    exact sound.stopped key (fun lively => ended ((lives key).mpr lively))
  · show sync.active.Perm (loading producer ++ sync.triesInProgress)
    rw [loads]
    exact sound.progress

/-- The next trie takes a slot. -/
theorem Sound.acquires (sound : sync.Sound) {root : Root} {rest : List Root} (queued : sync.trieQueue = root :: rest)
    (fetching : sync.producer = .fetching) (more : Bool) :
    ({ sync with
        trieQueue := rest
        triesInProgressSem := sync.triesInProgressSem + 1
        taken := root :: sync.taken
        unreported := root :: sync.unreported
        producer := .acquired root more } : Sync).Sound := by
  have queue := sound.queue
  rw [queued] at queue
  have new : root ∉ sync.taken := fun there =>
    (List.nodup_cons.mp queue).1 (List.mem_append_right _ there)
  have unseen : root ∉ sync.active := fun there => new (sound.known root there)
  have unreported : root ∉ sync.unreported := fun there => unseen (by simp [active, there])
  have progress := sound.progress
  rw [fetching] at progress
  refine ⟨?_, ?_, ?_, ?_, ?_, ?_, ?_, ?_, ?_, ?_, sound.intact⟩
  · intro key lively
    cases key with
    | none => exact sound.tasks none lively
    | some other =>
      have distinct : other ≠ root := fun same => lively.2 (by simp [loading, same])
      have before : sync.live (some other) :=
        ⟨(List.mem_cons.mp lively.1).resolve_left distinct, by rw [fetching]; exact List.not_mem_nil⟩
      have live := sound.tasks (some other) before
      have none_left : sync.left (some other) = 0 := by simp only [left, fetching, toSend]
      rw [none_left] at live
      exact live
  · intro key ended
    cases key with
    | none => exact sound.stopped none ended
    | some other =>
      refine ⟨(sound.stopped (some other) fun lively => ended ⟨List.mem_cons_of_mem _ lively.1, ?_⟩).1, rfl⟩
      intro there
      have same : other = root := List.mem_singleton.mp there
      exact unreported (same ▸ lively.1)
  · exact progress.cons root
  · exact List.nodup_cons.mpr ⟨unseen, sound.nodup⟩
  · show sync.triesInProgressSem + 1 = (sync.unreported.length + 1) + sync.releasing.length
    have slots := sound.slots
    omega
  · show (rest ++ root :: sync.taken).Nodup
    exact List.perm_middle.nodup_iff.mpr queue
  · intro other there
    rcases List.mem_cons.mp there with same | before
    · exact same ▸ List.mem_cons_self
    · exact List.mem_cons_of_mem _ (sound.known other before)
  · intro other there
    show sync.reports other = if other ∈ root :: sync.unreported then 0 else 1
    by_cases same : other = root
    · rw [if_pos (same ▸ List.mem_cons_self), same]
      exact sound.unknown root new
    · have before := sound.reported other ((List.mem_cons.mp there).resolve_left same)
      simp only [List.mem_cons, same, false_or]
      exact before
  · intro other fresh
    exact sound.unknown other (fun there => fresh (List.mem_cons_of_mem _ there))
  · intro other opens
    rw [List.mem_singleton.mp opens]
    exact List.mem_cons_self

/-- NewTrieToSync for the trie that holds the slot. -/
theorem Sound.addsTrie (sound : sync.Sound) {root : Root} {more : Bool} (acquired : sync.producer = .acquired root more)
    (markers : Nat) :
    ({ sync.setTrie (some root) (newTrieToSync markers) with
        triesInProgress := root :: sync.triesInProgress.erase root
        producer := .tracked root more } : Sync).Sound := by
  have progress := sound.progress
  rw [acquired] at progress
  have nodup : (root :: sync.triesInProgress).Nodup := progress.nodup_iff.mp sound.nodup
  have apart : sync.triesInProgress.erase root = sync.triesInProgress :=
    List.erase_of_not_mem (List.nodup_cons.mp nodup).1
  have holds : root ∈ sync.unreported := sound.opened root (by rw [acquired]; exact List.mem_singleton_self root)
  -- The producer has nothing to send while it holds a slot for a trie it has not loaded.
  have none_left (key : Option Root) : sync.left key = 0 := by
    cases key with
    | none => rfl
    | some other => simp only [left, acquired, toSend]
  have others {key : Option Root} (distinct : key ≠ some root) : left { sync.setTrie (some root) (newTrieToSync markers) with
      triesInProgress := root :: sync.triesInProgress.erase root
      producer := .tracked root more } key = sync.left key := by
    rw [none_left]
    cases key with
    | none => rfl
    | some other =>
      have apart : root ≠ other := fun same => distinct (congrArg some same.symm)
      simp only [left, toSend, if_neg apart]
  refine ⟨?_, ?_, ?_, sound.nodup, sound.slots, sound.queue, sound.known, sound.reported, sound.unknown, ?_, sound.intact⟩
  · intro key lively
    show (Function.update sync.tries (some root) (newTrieToSync markers) key).Live _
    by_cases same : key = some root
    · subst same
      have here : left { sync.setTrie (some root) (newTrieToSync markers) with
          triesInProgress := root :: sync.triesInProgress.erase root
          producer := .tracked root more } (some root) = markers + 1 := by
        simp only [left, toSend, if_true, setTrie_tries]
        rfl
      rw [Function.update_self, here]
      exact Trie.live_newTrieToSync markers
    · rw [Function.update_of_ne same, others same]
      refine sound.tasks key ?_
      cases key with
      | none => exact lively
      | some other =>
        refine ⟨lively.1, fun there => same ?_⟩
        rw [acquired] at there
        rw [List.mem_singleton.mp there]
  · intro key ended
    have distinct : key ≠ some root := by
      intro same
      subst same
      exact ended ⟨holds, List.not_mem_nil⟩
    show (Function.update sync.tries (some root) (newTrieToSync markers) key).Over ∧ _
    rw [Function.update_of_ne distinct, others distinct]
    refine sound.stopped key fun lively => ended ?_
    cases key with
    | none => exact lively
    | some other => exact ⟨lively.1, List.not_mem_nil⟩
  · show sync.active.Perm (root :: sync.triesInProgress.erase root)
    rw [apart]
    exact progress
  · intro other opens
    rw [List.mem_singleton.mp opens]
    exact holds

/-- The first segments of the trie that the producer starts. -/
theorem Sound.startsSyncing (sound : sync.Sound) {root : Root} {more : Bool} (tracked : sync.producer = .tracked root more)
    (done : Bool) :
    ({ sync with
        storageTriesDone := done
        producer := .sending root (sync.tries (some root)).segments more } : Sync).Sound := by
  have sends (key : Option Root) :
      ({ sync with producer := .sending root (sync.tries (some root)).segments more } : Sync).left key = sync.left key := by
    cases key with
    | none => rfl
    | some other =>
      simp only [left, tracked, toSend]
      by_cases same : root = other
      · subst same
        rfl
      · simp only [if_neg same]
  have moved := sound.produces (.sending root (sync.tries (some root)).segments more)
    (by rw [tracked]; rfl) sends (fun other opens => absurd opens List.not_mem_nil)
  exact ⟨moved.tasks, moved.stopped, moved.progress, moved.nodup, moved.slots, moved.queue, moved.known, moved.reported,
    moved.unknown, moved.opened, moved.intact⟩

/-- The producer puts one more segment of its trie on the channel. -/
theorem Sound.queuesSegment (sound : sync.Sound) {root : Root} {count : Nat} {more : Bool}
    (sending : sync.producer = .sending root (count + 1) more) (flag : Bool) :
    ({ sync.setTrie (some root) { sync.tries (some root) with queued := (sync.tries (some root)).queued + 1 } with
        sentOnClosed := flag
        producer := .sending root count more } : Sync).Sound := by
  have here : sync.left (some root) = count + 1 := by simp only [left, sending, toSend, if_true]
  have lives : sync.live (some root) := by
    by_contra ended
    have none_left := (sound.stopped _ ended).2
    omega
  have unmoved {key : Option Root} (distinct : key ≠ some root) : left
      { sync.setTrie (some root) { sync.tries (some root) with queued := (sync.tries (some root)).queued + 1 } with
        sentOnClosed := flag
        producer := .sending root count more } key = sync.left key := by
    cases key with
    | none => rfl
    | some other =>
      have apart : root ≠ other := fun same => distinct (congrArg some same.symm)
      simp only [left, sending, toSend, if_neg apart]
  refine ⟨?_, ?_, ?_, sound.nodup, sound.slots, sound.queue, sound.known, sound.reported, sound.unknown,
    fun other opens => absurd opens List.not_mem_nil, sound.intact⟩
  · intro key lively
    show (Function.update sync.tries (some root) _ key).Live _
    by_cases same : key = some root
    · subst same
      have now : left
          { sync.setTrie (some root) { sync.tries (some root) with queued := (sync.tries (some root)).queued + 1 } with
            sentOnClosed := flag
            producer := .sending root count more } (some root) = count := by
        simp only [left, toSend, if_true]
      rw [Function.update_self, now]
      have live := sound.tasks _ lives
      rw [here] at live
      exact live.queues
    · rw [Function.update_of_ne same, unmoved same]
      refine sound.tasks key ?_
      cases key with
      | none => exact lively
      | some other => exact ⟨lively.1, by rw [sending]; exact List.not_mem_nil⟩
  · intro key ended
    have distinct : key ≠ some root := by
      intro same
      subst same
      exact ended ⟨lives.1, List.not_mem_nil⟩
    show (Function.update sync.tries (some root) _ key).Over ∧ _
    rw [Function.update_of_ne distinct, unmoved distinct]
    refine sound.stopped key fun lively => ended ?_
    cases key with
    | none => exact lively
    | some other => exact ⟨lively.1, List.not_mem_nil⟩
  · have progress := sound.progress
    rw [sending] at progress
    exact progress

/-- A trie passes from one list to the next. -/
theorem perm_pass {kept giver taker : List Root} {root : Root} (member : root ∈ giver) :
    (kept ++ giver.erase root ++ root :: taker).Perm (kept ++ giver ++ taker) := by
  have passed : (root :: (kept ++ giver.erase root)).Perm (kept ++ giver) :=
    List.perm_middle.symm.trans ((List.perm_cons_erase member).symm.append_left kept)
  exact List.perm_middle.trans (passed.append_right taker)

/-- A call of onStorageTrieFinished goes on, and its trie stays where it is. -/
theorem Sound.moves (sound : sync.Sound) {releasing clearing removing : List Root} {slots : Nat}
    (same : (sync.unreported ++ releasing ++ clearing ++ removing).Perm sync.active)
    (held : slots = sync.unreported.length + releasing.length) :
    ({ sync with triesInProgressSem := slots, releasing := releasing, clearing := clearing, removing := removing } : Sync).Sound :=
  ⟨sound.tasks, sound.stopped, same.trans sound.progress, same.nodup_iff.mpr sound.nodup, held, sound.queue,
    fun root member => sound.known root (same.mem_iff.mp member), sound.reported, sound.unknown, sound.opened, sound.intact⟩

theorem Sound.releases (sound : sync.Sound) {root : Root} (member : root ∈ sync.releasing) :
    ({ sync with
        triesInProgressSem := sync.triesInProgressSem - 1
        releasing := sync.releasing.erase root
        clearing := root :: sync.clearing } : Sync).Sound := by
  refine sound.moves ?_ ?_
  · exact List.Perm.append_right _ (perm_pass member)
  · have slots := sound.slots
    have shorter := List.length_erase_of_mem member
    have some_left := List.length_pos_of_mem member
    omega

theorem Sound.clears (sound : sync.Sound) {root : Root} (member : root ∈ sync.clearing) :
    ({ sync with clearing := sync.clearing.erase root, removing := root :: sync.removing } : Sync).Sound := by
  exact sound.moves (perm_pass member) sound.slots

/-- A call finds its trie in progress, and takes it out. -/
theorem Sound.mem_triesInProgress (sound : sync.Sound) {root : Root} (member : root ∈ sync.removing) :
    root ∈ sync.triesInProgress := by
  have active : root ∈ sync.active := List.mem_append_right _ member
  rcases List.mem_append.mp (sound.progress.mem_iff.mp active) with loads | progress
  · -- A trie that is being loaded has not been reported.
    have opens : root ∈ opening sync.producer := by
      cases position : sync.producer with
      | acquired holder more =>
        rw [position] at loads
        exact loads
      | _ =>
        rw [position] at loads
        cases loads
    have unreported := sound.opened root opens
    have nodup := sound.nodup
    unfold Sync.active at nodup
    rw [List.append_assoc, List.append_assoc] at nodup
    have apart := (List.nodup_append.mp nodup).2.2 root unreported root
      (List.mem_append_right _ (List.mem_append_right _ member))
    exact absurd rfl apart
  · exact progress

theorem Sound.removes (sound : sync.Sound) {root : Root} (member : root ∈ sync.removing) (checking : List Nat) :
    ({ sync with
        removing := sync.removing.erase root
        triesInProgress := sync.triesInProgress.erase root
        checking := checking } : Sync).Sound := by
  have progress := sound.mem_triesInProgress member
  have before : sync.active.Perm
      (root :: (sync.unreported ++ sync.releasing ++ sync.clearing ++ sync.removing.erase root)) :=
    ((List.perm_cons_erase member).append_left _).trans List.perm_middle
  have after : (loading sync.producer ++ sync.triesInProgress).Perm
      (root :: (loading sync.producer ++ sync.triesInProgress.erase root)) :=
    ((List.perm_cons_erase progress).append_left _).trans List.perm_middle
  have left := (before.symm.trans (sound.progress.trans after)).cons_inv
  have nodup := List.nodup_cons.mp (before.nodup_iff.mp sound.nodup)
  exact ⟨sound.tasks, sound.stopped, left, nodup.2, sound.slots, sound.queue,
    fun other there => sound.known other (before.mem_iff.mpr (List.mem_cons_of_mem _ there)), sound.reported, sound.unknown,
    sound.opened, sound.intact⟩

theorem Sound.closes (sound : sync.Sound) (checking : List Nat) (closed : Nat) :
    ({ sync with checking := checking, segmentsClosed := closed } : Sync).Sound :=
  ⟨sound.tasks, sound.stopped, sound.progress, sound.nodup, sound.slots, sound.queue, sound.known, sound.reported,
    sound.unknown, sound.opened, sound.intact⟩

/-- A sync starts with nothing taken. -/
theorem sound_newStateSyncer (disk : Disk) {trieQueue : List Root} (nodup : trieQueue.Nodup) :
    (newStateSyncer disk trieQueue).Sound := by
  refine ⟨?_, ?_, List.Perm.refl _, List.nodup_nil, rfl, ?_, fun root member => absurd member List.not_mem_nil,
    fun root member => absurd member List.not_mem_nil, fun _ _ => rfl, fun root member => absurd member List.not_mem_nil, rfl⟩
  · intro key lively
    cases key with
    | none =>
      refine ⟨?_, Nat.succ_pos _, fun splits => absurd rfl splits, fun _ => rfl, fun stopped => absurd rfl stopped, ?_, ?_⟩
      · show disk.markers none + 1 = 0 + 0 + (disk.markers none + 1) + 0 + 0
        omega
      · intro done
        cases done
      · intro impossible
        cases impossible
    | some root => exact absurd lively.1 List.not_mem_nil
  · intro key ended
    cases key with
    | none => exact absurd rfl ended
    | some root => exact ⟨⟨rfl, rfl, rfl, rfl, .inl rfl⟩, rfl⟩
  · show (trieQueue ++ []).Nodup
    rw [List.append_nil]
    exact nodup

end Sync

/-! ## Every run -/

theorem sound_start {sync after : Sync} {key : Option Root} {skip : Bool} (sound : sync.Sound)
    (single : singleSkip sync (.start key skip) = true) (stepped : step sync (.start key skip) = some after) :
    after.Sound := by
  simp only [step] at stepped
  split at stepped
  · rename_i queued
    have lives := sound.live_of (Sync.not_over_of_queued queued)
    have busy : 0 < (sync.tries key).busy := by
      unfold Trie.busy
      omega
    cases skip with
    | false =>
      cases stepped
      exact sound.setTrie lives busy fun _ live => live.takes queued
    | true =>
      cases key with
      | none => cases stepped
      | some root =>
        simp only [if_true] at stepped
        split at stepped
        · cases stepped
          exact sound.reports lives busy fun _ live => live.skips queued (of_decide_eq_true single)
        · cases stepped
  · cases stepped

/-- What createSegments does to the trie of its worker. -/
theorem sound_createSegments {sync : Sync} {key : Option Root} {trie : Trie} (sound : sync.Sound)
    (splits : (sync.tries key).splitting ≠ .not)
    (still : ∀ left, (sync.tries key).Live left → trie.Live left) : (sync.setTrie key trie).Sound := by
  have lives := sound.live_of (Sync.not_over_of_splitting splits)
  have running := (sound.tasks key lives).worker splits
  refine sound.setTrie lives ?_ still
  unfold Trie.busy
  omega

theorem sound_workers {sync after : Sync} {action : Action} (sound : sync.Sound)
    (stepped : step sync action = some after)
    (worker : ∃ key, action = .split key ∨ action = .addSegment key ∨ action = .sendSegments key ∨ action = .sendSegment key ∨
      action = .endSplit key ∨ action = .finishSegment key) : after.Sound := by
  obtain ⟨key, rfl | rfl | rfl | rfl | rfl | rfl⟩ := worker <;> simp only [step] at stepped <;> split at stepped
  · rename_i guard
    cases stepped
    refine sound.setTrie (sound.live_of (Sync.not_over_of_running guard.2.1)) ?_ fun _ live => live.splits guard.2.1
    unfold Trie.busy
    omega
  · cases stepped
  · rename_i guard
    cases stepped
    have splits : (sync.tries key).splitting ≠ .not := by
      rw [guard.1]
      decide
    exact (sound_createSegments sound splits fun _ live => live.adds guard.1).onDisk _
  · cases stepped
  · rename_i guard
    cases stepped
    have splits : (sync.tries key).splitting ≠ .not := by
      rw [guard]
      decide
    exact sound_createSegments sound splits fun _ live => live.sending guard
  · cases stepped
  · rename_i guard
    cases stepped
    have splits : (sync.tries key).splitting ≠ .not := by
      rw [guard.1]
      decide
    exact (sound_createSegments sound splits fun _ live => live.sends guard.1 guard.2).sent _
  · cases stepped
  · rename_i guard
    cases stepped
    have splits : (sync.tries key).splitting ≠ .not := by
      rw [guard.1]
      decide
    exact sound_createSegments sound splits fun _ live => live.endsSplit guard.2
  · cases stepped
  · rename_i guard
    cases stepped
    have running : 0 < (sync.tries key).running := Nat.zero_lt_of_lt guard
    refine sound.setTrie (sound.live_of (Sync.not_over_of_running running)) ?_ fun _ live => live.finishes guard
    unfold Trie.busy
    omega
  · cases stepped

/-- A trie past its hash has all its segments done. -/
theorem busy_of_stage {sync : Sync} {key : Option Root} (sound : sync.Sound)
    (past : (sync.tries key).stage = .hashed ∨ (sync.tries key).stage = .written) :
    sync.live key ∧ 0 < (sync.tries key).busy := by
  have lives : sync.live key := by
    refine sound.live_of fun stopped => ?_
    rcases stopped.stage with stage | stage <;> rw [stage] at past <;> rcases past with past | past <;> cases past
  have live := sound.tasks key lives
  have done := live.all_done (by rcases past with past | past <;> rw [past] <;> decide)
  have some_segment := live.some_segment
  refine ⟨lives, ?_⟩
  unfold Trie.busy
  omega

theorem sound_writeRoot {sync after : Sync} {key : Option Root} (sound : sync.Sound)
    (stepped : step sync (.writeRoot key) = some after) : after.Sound := by
  simp only [step] at stepped
  split at stepped
  · rename_i hashed
    obtain ⟨lives, busy⟩ := busy_of_stage sound (.inl hashed)
    have written : (sync.setTrie key { sync.tries key with stage := .written }).Sound :=
      sound.setTrie lives busy fun _ live => live.writes hashed
    cases key with
    | none =>
      cases stepped
      exact written
    | some root =>
      cases stepped
      exact written.onDisk _
  · cases stepped

theorem sound_clearSegments {sync after : Sync} {key : Option Root} (sound : sync.Sound)
    (stepped : step sync (.clearSegments key) = some after) : after.Sound := by
  simp only [step] at stepped
  split at stepped
  · rename_i written
    obtain ⟨lives, busy⟩ := busy_of_stage sound (.inr written)
    cases key with
    | none =>
      cases stepped
      have ended : ({ sync.setTrie none { sync.tries none with stage := .finished } with mainTrie := .finishing } : Sync).Sound :=
        sound.mainTrieEnds _ (by decide) fun live _ => ((live lives).clears written).1
      exact ended.onDisk _
    | some root =>
      cases stepped
      have reported : ((sync.setTrie (some root) { sync.tries (some root) with stage := .finished }).onStorageTrieFinished root).Sound :=
        sound.reports lives busy fun _ live => live.clears written
      exact reported.onDisk _
  · cases stepped

/-- The main trie is past its end, whatever else happens to it. -/
theorem sound_mainTrie {sync : Sync} (sound : sync.Sound) (ended : sync.mainTrie ≠ .syncing) (mainTrie : MainTrie)
    (moved : mainTrie ≠ .syncing) : ({ sync with mainTrie := mainTrie } : Sync).Sound := by
  have still := sound.mainTrieEnds (sync.tries none) moved fun _ stopped => stopped ended
  rw [Sync.setTrie_self] at still
  exact still

theorem sound_producer {sync after : Sync} {action : Action} (sound : sync.Sound)
    (stepped : step sync action = some after)
    (producer : action = .wake ∨ action = .fetch ∨ action = .addTrie ∨ action = .startSyncing ∨ action = .queueSegment ∨
      action = .endSyncing) : after.Sound := by
  rcases producer with rfl | rfl | rfl | rfl | rfl | rfl <;> simp only [step] at stepped
  · split at stepped
    · rename_i guard
      cases stepped
      refine sound.produces _ (by rw [guard.1]; rfl) (fun key => ?_) (fun root opens => absurd opens List.not_mem_nil)
      cases key with
      | none => rfl
      | some root => simp only [Sync.left, guard.1, toSend]
    · cases stepped
  · split at stepped
    · rename_i fetching
      split at stepped
      · cases stepped
        have returned : ({ sync with producer := .returned } : Sync).Sound := by
          refine sound.produces _ (by rw [fetching]; rfl) (fun key => ?_) (fun root opens => absurd opens List.not_mem_nil)
          cases key with
          | none => rfl
          | some root => simp only [Sync.left, fetching, toSend]
        exact returned.closes _ _
      · rename_i root rest queued
        split at stepped
        · cases stepped
          exact sound.acquires queued fetching _
        · cases stepped
    · cases stepped
  · split at stepped
    · rename_i root more acquired
      cases stepped
      exact sound.addsTrie acquired _
    · cases stepped
  · split at stepped
    · rename_i root more tracked
      cases stepped
      exact sound.startsSyncing tracked _
    · cases stepped
  · split at stepped
    · rename_i root left more sending
      cases stepped
      exact sound.queuesSegment sending _
    · cases stepped
  · split at stepped
    · rename_i root more sending
      cases stepped
      refine sound.produces _ ?_ (fun key => ?_) (fun other opens => ?_)
      · rw [sending]
        cases more <;> rfl
      · cases key with
        | none => rfl
        | some other => cases more <;> simp [Sync.left, sending, toSend]
      · cases more <;> cases opens
    · cases stepped

theorem sound_callbacks {sync after : Sync} {action : Action} (sound : sync.Sound)
    (stepped : step sync action = some after)
    (callback : (∃ root, action = .release root ∨ action = .storageTrieDone root ∨ action = .removeTrie root) ∨
      ∃ count, action = .check count) : after.Sound := by
  obtain ⟨root, rfl | rfl | rfl⟩ | ⟨count, rfl⟩ := callback <;> simp only [step] at stepped <;> split at stepped
  · rename_i guard
    cases stepped
    exact sound.releases guard.1
  · cases stepped
  · rename_i member
    cases stepped
    exact sound.clears member
  · cases stepped
  · rename_i member
    rw [if_pos (sound.mem_triesInProgress member)] at stepped
    cases stepped
    exact sound.removes member _
  · cases stepped
  · cases stepped
    exact sound.closes _ _
  · cases stepped

theorem sound_step {sync after : Sync} {action : Action} (sound : sync.Sound) (single : singleSkip sync action = true)
    (stepped : step sync action = some after) : after.Sound := by
  cases action with
  | start key skip => exact sound_start sound single stepped
  | split key => exact sound_workers sound stepped ⟨key, by simp⟩
  | addSegment key => exact sound_workers sound stepped ⟨key, by simp⟩
  | sendSegments key => exact sound_workers sound stepped ⟨key, by simp⟩
  | sendSegment key => exact sound_workers sound stepped ⟨key, by simp⟩
  | endSplit key => exact sound_workers sound stepped ⟨key, by simp⟩
  | finishSegment key => exact sound_workers sound stepped ⟨key, by simp⟩
  | writeRoot key => exact sound_writeRoot sound stepped
  | clearSegments key => exact sound_clearSegments sound stepped
  | closeMainTrieDone =>
    simp only [step] at stepped
    split at stepped
    · rename_i finishing
      cases stepped
      have moved := sound_mainTrie sound (by rw [finishing]; decide) .removing (by decide)
      exact ⟨moved.tasks, moved.stopped, moved.progress, moved.nodup, moved.slots, moved.queue, moved.known, moved.reported,
        moved.unknown, moved.opened, moved.intact⟩
    · cases stepped
  | removeMainTrie =>
    simp only [step] at stepped
    split at stepped
    · rename_i removing
      cases stepped
      have moved := sound_mainTrie sound (by rw [removing]; decide) .finished (by decide)
      exact ⟨moved.tasks, moved.stopped, moved.progress, moved.nodup, moved.slots, moved.queue, moved.known, moved.reported,
        moved.unknown, moved.opened, moved.intact⟩
    · cases stepped
  | wake => exact sound_producer sound stepped (by simp)
  | fetch => exact sound_producer sound stepped (by simp)
  | addTrie => exact sound_producer sound stepped (by simp)
  | startSyncing => exact sound_producer sound stepped (by simp)
  | queueSegment => exact sound_producer sound stepped (by simp)
  | endSyncing => exact sound_producer sound stepped (by simp)
  | release root => exact sound_callbacks sound stepped (.inl ⟨root, by simp⟩)
  | storageTrieDone root => exact sound_callbacks sound stepped (.inl ⟨root, by simp⟩)
  | removeTrie root => exact sound_callbacks sound stepped (.inl ⟨root, by simp⟩)
  | check count => exact sound_callbacks sound stepped (.inr ⟨count, rfl⟩)
  | crash trieQueue =>
    simp only [step] at stepped
    split at stepped
    · rename_i nodup
      cases stepped
      exact Sync.sound_newStateSyncer _ nodup
    · cases stepped

theorem sound_of_reach {condition : Sync → Action → Prop} {sync : Sync} (reach : Reach system condition sync)
    (single : ∀ sync action, condition sync action → singleSkip sync action = true) : sync.Sound := by
  refine reach.invariant Sync.Sound ?_ fun _ _ _ sound met stepped => sound_step sound (single _ _ met) stepped
  intro sync initial
  obtain ⟨rootOnDisk, trieQueue, nodup, rfl⟩ := initial
  exact Sync.sound_newStateSyncer _ nodup

/-- No segment of the trie is to be sent, waits or runs, and segmentFinished is not at work on it. -/
def Sync.ended (sync : Sync) (root : Root) : Prop :=
  root ∉ opening sync.producer ∧ sync.left (some root) = 0 ∧ (sync.tries (some root)).unsent = 0 ∧
    (sync.tries (some root)).queued = 0 ∧ (sync.tries (some root)).running = 0 ∧
    (sync.tries (some root)).stage ≠ .hashed ∧ (sync.tries (some root)).stage ≠ .written

/-- A trie whose tasks have all ended has been reported. -/
theorem Sync.Sound.reported_of_ended {sync : Sync} (sound : sync.Sound) {root : Root} (taken : root ∈ sync.taken)
    (ended : sync.ended root) : sync.reports root = 1 := by
  obtain ⟨unopened, none_left, unsent, queued, running, unhashed, unwritten⟩ := ended
  rw [sound.reported root taken]
  refine if_neg fun unreported => ?_
  have lives : sync.live (some root) := by
    refine ⟨unreported, fun loads => unopened ?_⟩
    cases position : sync.producer with
    | acquired holder more =>
      rw [position] at loads
      exact loads
    | _ =>
      rw [position] at loads
      cases loads
  have live := sound.tasks _ lives
  have total := live.total
  have past := live.completes (by omega)
  have unfinished := live.unfinished
  cases stage : (sync.tries (some root)).stage <;> simp_all

theorem Sync.Sound.reports_le_one {sync : Sync} (sound : sync.Sound) (root : Root) : sync.reports root ≤ 1 := by
  by_cases taken : root ∈ sync.taken
  · rw [sound.reported root taken]
    split <;> omega
  · rw [sound.unknown root taken]
    omega

theorem Sync.Sound.slots_eq {sync : Sync} (sound : sync.Sound) :
    sync.triesInProgressSem + (sync.clearing.length + sync.removing.length) =
      (loading sync.producer).length + sync.triesInProgress.length := by
  have long := sound.progress.length_eq
  have slots := sound.slots
  unfold Sync.active at long
  simp only [List.length_append] at long
  omega

def mainTrieActions : List Action :=
  [.start none false, .finishSegment none, .writeRoot none, .clearSegments none, .closeMainTrieDone, .removeMainTrie]

/-- A trie of two segments is on disk with its root when the process dies before the markers are cleared. -/
def crashActions : List Action :=
  mainTrieActions ++ [.wake, .fetch, .addTrie, .startSyncing, .queueSegment, .endSyncing] ++
    [.start (some 5) false, .split (some 5), .addSegment (some 5), .sendSegments (some 5), .sendSegment (some 5),
      .endSplit (some 5), .start (some 5) false, .finishSegment (some 5), .finishSegment (some 5), .writeRoot (some 5),
      .crash [5]]

def resumeActions : List Action :=
  mainTrieActions ++ [.wake, .fetch, .addTrie, .startSyncing, .queueSegment, .queueSegment, .endSyncing,
    .start (some 5) true, .start (some 5) true]

def emptyDisk : Disk := ⟨fun _ => 0, fun _ => false⟩

theorem reach_newStateSyncer {condition : Sync → Action → Prop} (root : Root) :
    Reach system condition (newStateSyncer emptyDisk [root]) :=
  .start ⟨_, _, List.nodup_singleton root, rfl⟩

/-- After the crash each of the two segments is skipped, and each skip reports the trie. -/
theorem resumed_reportedTwice :
    ¬∀ sync, Reach system (fun _ _ => True) sync → ∀ root, sync.reports root ≤ 1 := by
  intro once
  have ran : ((run step (fun _ _ => true) (crashActions ++ resumeActions) (newStateSyncer emptyDisk [5])).map
      fun sync => sync.reports 5) = some 2 := by decide +kernel
  obtain ⟨sync, reached, twice⟩ := Option.map_eq_some_iff.mp ran
  have reach : Reach system (fun _ _ => True) sync :=
    .ofRun (fun _ _ _ stepped => stepped) (fun _ _ _ => trivial) (reach_newStateSyncer 5) reached
  have := once sync reach 5
  omega

/-- In every run, resumed or not, in which only tasks of tries with one segment are skipped, a storage trie is reported at
most once, and once when its tasks have ended; each report finds its trie in progress, and a slot is held for every trie
in progress or being loaded whose report has not released it. -/
theorem storageTrie_reportedOnce {sync : Sync} (reach : Reach system (fun sync action => singleSkip sync action = true) sync) :
    (∀ root, sync.reports root ≤ 1) ∧ (∀ root ∈ sync.taken, sync.ended root → sync.reports root = 1) ∧
      (∀ root ∈ sync.removing, root ∈ sync.triesInProgress) ∧ sync.failed = false ∧
      sync.triesInProgressSem + (sync.clearing.length + sync.removing.length) =
        (loading sync.producer).length + sync.triesInProgress.length := by
  have sound := sound_of_reach reach fun _ _ met => met
  exact ⟨sound.reports_le_one, fun root taken ended => sound.reported_of_ended taken ended,
    fun root member => sound.mem_triesInProgress member, sound.intact, sound.slots_eq⟩

/-- The same crash, with a trie of one segment when the sync resumes. -/
def clearedActions : List Action :=
  mainTrieActions ++ [.wake, .fetch, .addTrie, .startSyncing, .queueSegment, .endSyncing] ++
    [.start (some 5) false, .finishSegment (some 5), .writeRoot (some 5), .crash [5]] ++
    mainTrieActions ++ [.wake, .fetch, .addTrie, .startSyncing, .queueSegment, .endSyncing, .start (some 5) true]

theorem cleared_reported : ∃ sync, Reach system (fun sync action => singleSkip sync action = true) sync ∧
    sync.reports 5 = 1 ∧ sync.triesInProgressSem = 1 ∧ sync.failed = false := by
  have ran : ((run step singleSkip clearedActions (newStateSyncer emptyDisk [5])).map
      fun sync => (sync.reports 5, sync.triesInProgressSem)) = some (1, 1) := by decide +kernel
  obtain ⟨sync, reached, values⟩ := Option.map_eq_some_iff.mp ran
  have reach : Reach system (fun sync action => singleSkip sync action = true) sync :=
    .ofRun (fun _ _ _ stepped => stepped) (fun _ _ met => met) (reach_newStateSyncer 5) reached
  exact ⟨sync, reach, congrArg Prod.fst values, congrArg Prod.snd values, (storageTrie_reportedOnce reach).2.2.2.1⟩

end Snowside.StateSync
