import Snowside.Sync.Reports

/-! Who closes the channel of segments, and when. -/

set_option autoImplicit false

namespace Snowside.StateSync

open Runs

/-- The steps after which somebody is left to close the channel, and nobody closes it early: the producer closes
storageTriesDone while no call stands between a removal that left nothing in progress and its check, and after that the
last storage trie is removed when the main trie has been. -/
def orderly (sync : Sync) : Action → Bool
  | .startSyncing =>
    match sync.producer with
    | .tracked _ false => 0 ∉ sync.checking
    | _ => true
  | .removeTrie root => !(sync.storageTriesDone && sync.triesInProgress = [root]) || !sync.mainInProgress
  | action => singleSkip sync action

theorem singleSkip_of_orderly {sync : Sync} {action : Action} (met : orderly sync action = true) :
    singleSkip sync action = true := by
  cases action <;> first | exact met | rfl

/-- The producer may come back to the queue. -/
def comesBack : Producer → Bool
  | .waiting => true
  | .fetching => true
  | .acquired _ more => more
  | .tracked _ more => more
  | .sending _ _ more => more
  | .returned => false

/-- The producer is past closing storageTriesDone, if it closes it. -/
def pastLast : Producer → Bool
  | .sending _ _ more => !more
  | .returned => true
  | _ => false

/-- The channel is open as long as a storage trie may come, and one removal in the end is to close it. -/
structure Closing (sync : Sync) : Prop where
  before : sync.storageTriesDone = false → sync.producer ≠ .returned → sync.segmentsClosed = 0
  none_taken : sync.storageTriesDone = false → sync.producer = .returned → sync.taken = [] ∧ sync.segmentsClosed = 1
  late : sync.storageTriesDone = true → pastLast sync.producer = true
  early : sync.storageTriesDone = false → pastLast sync.producer = true → sync.producer = .returned
  busy : sync.storageTriesDone = true → sync.triesInProgress ≠ [] → sync.segmentsClosed = 0 ∧ 0 ∉ sync.checking
  idle : sync.storageTriesDone = true → sync.triesInProgress = [] → sync.segmentsClosed + sync.checking.count 0 = 1
  more : comesBack sync.producer = true → sync.trieQueue ≠ [] ∨ sync.taken = []
  main_done : sync.mainTrieDone = true → sync.mainTrie ≠ .syncing
  woken : sync.producer ≠ .waiting → sync.mainTrieDone = true
  sent : sync.sentOnClosed = false

namespace Closing

variable {sync : Sync}

/-- While a segment of a trie is still to be sent the channel is open. -/
theorem open_of_live (closing : Closing sync) (sound : sync.Sound) {key : Option Root} (lives : sync.live key) :
    sync.segmentsClosed = 0 := by
  cases key with
  | none =>
    have undone : sync.mainTrieDone = false := by
      by_contra done
      exact closing.main_done (Bool.not_eq_false _ ▸ done) lives
    have waiting : sync.producer = .waiting := by
      by_contra awake
      rw [closing.woken awake] at undone
      cases undone
    have more_tries : sync.storageTriesDone = false := by
      by_contra done
      have past := closing.late (Bool.not_eq_false _ ▸ done)
      rw [waiting] at past
      cases past
    exact closing.before more_tries (by rw [waiting]; decide)
  | some root =>
    have active : root ∈ sync.active :=
      List.mem_append_left _ (List.mem_append_left _ (List.mem_append_left _ lives.1))
    cases done : sync.storageTriesDone with
    | true =>
      have inside := (List.mem_append.mp (sound.progress.mem_iff.mp active)).resolve_left lives.2
      exact (closing.busy done (List.ne_nil_of_mem inside)).1
    | false =>
      refine closing.before done fun returned => ?_
      have taken := sound.known root active
      rw [(closing.none_taken done returned).1] at taken
      cases taken

/-- A step of the tries alone. -/
theorem setTrie (closing : Closing sync) (key : Option Root) (trie : Trie) : Closing (sync.setTrie key trie) :=
  ⟨closing.before, closing.none_taken, closing.late, closing.early, closing.busy, closing.idle, closing.more,
    closing.main_done, closing.woken, closing.sent⟩

theorem onDisk (closing : Closing sync) (disk : Disk) : Closing { sync with disk := disk } :=
  ⟨closing.before, closing.none_taken, closing.late, closing.early, closing.busy, closing.idle, closing.more,
    closing.main_done, closing.woken, closing.sent⟩

theorem send (closing : Closing sync) (key : Option Root) (trie : Trie) (opened : sync.segmentsClosed = 0) :
    Closing (sync.send key trie) := by
  refine ⟨closing.before, closing.none_taken, closing.late, closing.early, closing.busy, closing.idle, closing.more,
    closing.main_done, closing.woken, ?_⟩
  show (sync.sentOnClosed || decide (0 < sync.segmentsClosed)) = false
  rw [closing.sent, opened]
  rfl

theorem onStorageTrieFinished (closing : Closing sync) (root : Root) : Closing (sync.onStorageTrieFinished root) :=
  ⟨closing.before, closing.none_taken, closing.late, closing.early, closing.busy, closing.idle, closing.more,
    closing.main_done, closing.woken, closing.sent⟩

theorem onFinish (closing : Closing sync) (key : Option Root) : Closing (sync.onFinish key) := by
  cases key with
  | none =>
    exact ⟨closing.before, closing.none_taken, closing.late, closing.early, closing.busy, closing.idle, closing.more,
      fun _ impossible => (by cases impossible), closing.woken, closing.sent⟩
  | some root => exact closing.onStorageTrieFinished root

/-- The producer moves on without opening or closing anything. -/
theorem produces (closing : Closing sync) (producer : Producer) (returned : producer ≠ .returned)
    (same : pastLast producer = pastLast sync.producer) (before : sync.producer ≠ .returned)
    (more : comesBack producer = true → comesBack sync.producer = true) (awake : sync.mainTrieDone = true) :
    Closing { sync with producer := producer } := by
  refine ⟨fun undone _ => closing.before undone before, fun _ there => absurd there returned, fun done => ?_,
    fun undone past => ?_, closing.busy, closing.idle, fun back => closing.more (more back), closing.main_done,
    fun _ => awake, closing.sent⟩
  · show pastLast producer = true
    rw [same]
    exact closing.late done
  · change pastLast producer = true at past
    rw [same] at past
    exact absurd (closing.early undone past) before

end Closing

theorem closing_newStateSyncer (disk : Disk) (trieQueue : List Root) : Closing (newStateSyncer disk trieQueue) :=
  ⟨fun _ _ => rfl, fun _ impossible => (by cases impossible), fun impossible => (by cases impossible),
    fun _ impossible => (by cases impossible), fun impossible => (by cases impossible), fun impossible => (by cases impossible),
    fun _ => .inr rfl, fun impossible => (by cases impossible), fun awake => absurd rfl awake, rfl⟩

theorem closing_workers {sync after : Sync} {action : Action} (closing : Closing sync) (sound : sync.Sound)
    (stepped : step sync action = some after)
    (worker : ∃ key, (∃ skip, action = .start key skip) ∨ action = .split key ∨ action = .addSegment key ∨
      action = .sendSegments key ∨ action = .sendSegment key ∨ action = .endSplit key ∨ action = .finishSegment key ∨
      action = .writeRoot key ∨ action = .clearSegments key) : Closing after := by
  obtain ⟨key, ⟨skip, rfl⟩ | rfl | rfl | rfl | rfl | rfl | rfl | rfl | rfl⟩ := worker <;> simp only [step] at stepped <;>
    split at stepped
  · cases skip with
    | false =>
      cases stepped
      exact closing.setTrie key _
    | true =>
      cases key with
      | none => cases stepped
      | some root =>
        simp only [if_true] at stepped
        split at stepped
        · cases stepped
          exact (closing.setTrie _ _).onStorageTrieFinished root
        · cases stepped
  · cases stepped
  · cases stepped
    exact closing.setTrie key _
  · cases stepped
  · cases stepped
    exact (closing.setTrie key _).onDisk _
  · cases stepped
  · cases stepped
    exact closing.setTrie key _
  · cases stepped
  · rename_i guard
    cases stepped
    have splits : (sync.tries key).splitting ≠ .not := by
      rw [guard.1]
      decide
    exact closing.send key _ (closing.open_of_live sound (sound.live_of (Sync.not_over_of_splitting splits)))
  · cases stepped
  · cases stepped
    exact closing.setTrie key _
  · cases stepped
  · cases stepped
    exact closing.setTrie key _
  · cases stepped
  · cases key with
    | none =>
      cases stepped
      exact closing.setTrie none _
    | some root =>
      cases stepped
      exact (closing.setTrie (some root) _).onDisk _
  · cases stepped
  · cases stepped
    exact ((closing.setTrie key _).onDisk _).onFinish key
  · cases stepped

/-- The producer closes the channel where there is no storage trie. -/
theorem closing_fetch {sync after : Sync} (closing : Closing sync) (stepped : step sync .fetch = some after) :
    Closing after := by
  simp only [step] at stepped
  split at stepped
  · rename_i fetching
    have awake := closing.woken (by rw [fetching]; decide)
    have undone : sync.storageTriesDone = false := by
      by_contra done
      have past := closing.late (Bool.not_eq_false _ ▸ done)
      rw [fetching] at past
      cases past
    have opened := closing.before undone (by rw [fetching]; decide)
    split at stepped
    · rename_i empty
      cases stepped
      have none_taken := (closing.more (by rw [fetching]; rfl)).resolve_left (fun some_left => some_left empty)
      refine ⟨fun _ impossible => absurd rfl impossible, fun _ _ => ⟨none_taken, ?_⟩, fun _ => rfl, fun _ _ => rfl, ?_, ?_,
        fun impossible => (by cases impossible), closing.main_done, fun _ => awake, closing.sent⟩
      · show sync.segmentsClosed + 1 = 1
        rw [opened]
      · intro done
        rw [undone] at done
        cases done
      · intro done
        rw [undone] at done
        cases done
    · rename_i root rest queued
      split at stepped
      · cases stepped
        refine ⟨fun _ _ => opened, fun _ impossible => (by cases impossible), ?_, fun _ impossible => (by cases impossible),
          closing.busy, closing.idle, ?_, closing.main_done, fun _ => awake, closing.sent⟩
        · intro done
          rw [undone] at done
          cases done
        · intro more
          refine .inl fun empty => ?_
          change rest = [] at empty
          rw [empty] at more
          cases more
      · cases stepped
  · cases stepped

/-- The last trie is in progress when storageTriesDone closes, and no call has seen an empty table. -/
theorem closing_startSyncing {sync after : Sync} (closing : Closing sync) (sound : sync.Sound)
    (met : orderly sync .startSyncing = true) (stepped : step sync .startSyncing = some after) : Closing after := by
  simp only [step] at stepped
  split at stepped
  · rename_i root more tracked
    cases stepped
    have awake := closing.woken (by rw [tracked]; simp)
    have undone : sync.storageTriesDone = false := by
      by_contra done
      have past := closing.late (Bool.not_eq_false _ ▸ done)
      rw [tracked] at past
      cases past
    have opened := closing.before undone (by rw [tracked]; simp)
    have unreported := sound.opened root (by rw [tracked]; exact List.mem_singleton_self root)
    have inside : root ∈ sync.triesInProgress := by
      have active : root ∈ sync.active :=
        List.mem_append_left _ (List.mem_append_left _ (List.mem_append_left _ unreported))
      have there := sound.progress.mem_iff.mp active
      rw [tracked] at there
      exact there
    cases more with
    | true =>
      have same : (sync.storageTriesDone || !true) = sync.storageTriesDone := Bool.or_false _
      rw [same]
      exact closing.produces _ (by simp) (by rw [tracked]; rfl) (by rw [tracked]; simp) (by rw [tracked]; exact id) awake
    | false =>
      have now : (sync.storageTriesDone || !false) = true := Bool.or_true _
      rw [now]
      unfold orderly at met
      rw [tracked] at met
      refine ⟨fun impossible => (by cases impossible), fun impossible => (by cases impossible), fun _ => rfl,
        fun impossible => (by cases impossible), fun _ _ => ⟨opened, of_decide_eq_true met⟩, ?_,
        fun impossible => (by cases impossible), closing.main_done, fun _ => awake, closing.sent⟩
      intro _ empty
      change sync.triesInProgress = [] at empty
      rw [empty] at inside
      cases inside
  · cases stepped

theorem closing_producer {sync after : Sync} {action : Action} (closing : Closing sync) (sound : sync.Sound)
    (stepped : step sync action = some after)
    (producer : action = .wake ∨ action = .addTrie ∨ action = .queueSegment ∨ action = .endSyncing) : Closing after := by
  rcases producer with rfl | rfl | rfl | rfl <;> simp only [step] at stepped <;> split at stepped
  · rename_i guard
    cases stepped
    exact closing.produces _ (by decide) (by rw [guard.1]; rfl) (by rw [guard.1]; decide) (by rw [guard.1]; exact id) guard.2
  · cases stepped
  · rename_i root more acquired
    cases stepped
    have awake := closing.woken (by rw [acquired]; simp)
    have undone : sync.storageTriesDone = false := by
      by_contra done
      have past := closing.late (Bool.not_eq_false _ ▸ done)
      rw [acquired] at past
      cases past
    have moved := closing.produces (.tracked root more) (by simp) (by rw [acquired]; rfl) (by rw [acquired]; simp)
      (by rw [acquired]; exact id) awake
    have loaded := (moved.setTrie (some root) (newTrieToSync (sync.disk.markers (some root))))
    refine ⟨loaded.before, loaded.none_taken, loaded.late, loaded.early, fun done => ?_, fun done => ?_, loaded.more,
      loaded.main_done, loaded.woken, loaded.sent⟩
    · change sync.storageTriesDone = true at done
      rw [undone] at done
      cases done
    · change sync.storageTriesDone = true at done
      rw [undone] at done
      cases done
  · cases stepped
  · rename_i root left more sending
    cases stepped
    have awake := closing.woken (by rw [sending]; simp)
    have lives : sync.live (some root) := by
      by_contra ended
      have none_left := (sound.stopped _ ended).2
      simp only [Sync.left, sending, toSend, if_true] at none_left
      omega
    have sent := closing.send (some root) (sync.tries (some root)) (closing.open_of_live sound lives)
    exact sent.produces (.sending root left more) (by simp)
      (show pastLast _ = pastLast sync.producer by rw [sending]; rfl) (show sync.producer ≠ _ by rw [sending]; simp)
      (show _ → comesBack sync.producer = true by rw [sending]; exact id) awake
  · cases stepped
  · rename_i root more sending
    cases stepped
    have awake := closing.woken (by rw [sending]; simp)
    cases more with
    | true =>
      exact closing.produces .fetching (by simp) (by rw [sending]; rfl) (by rw [sending]; simp)
        (by rw [sending]; exact id) awake
    | false =>
      have done : sync.storageTriesDone = true := by
        by_contra undone
        have returned := closing.early (Bool.eq_false_iff.mpr undone) (by rw [sending]; rfl)
        rw [sending] at returned
        cases returned
      refine ⟨fun undone => ?_, fun undone => ?_, fun _ => rfl, fun _ _ => rfl, closing.busy, closing.idle,
        fun impossible => (by cases impossible), closing.main_done, fun _ => awake, closing.sent⟩
      · rw [done] at undone
        cases undone
      · rw [done] at undone
        cases undone
  · cases stepped

theorem closing_mainTrie {sync after : Sync} {action : Action} (closing : Closing sync)
    (stepped : step sync action = some after) (main : action = .closeMainTrieDone ∨ action = .removeMainTrie) :
    Closing after := by
  rcases main with rfl | rfl <;> simp only [step] at stepped <;> split at stepped
  · cases stepped
    exact ⟨closing.before, closing.none_taken, closing.late, closing.early, closing.busy, closing.idle, closing.more,
      fun _ impossible => (by cases impossible), fun _ => rfl, closing.sent⟩
  · cases stepped
  · cases stepped
    exact ⟨closing.before, closing.none_taken, closing.late, closing.early, closing.busy, closing.idle, closing.more,
      fun _ impossible => (by cases impossible), closing.woken, closing.sent⟩
  · cases stepped

/-- The call that removes the last storage trie sees nothing in progress. -/
theorem closing_removeTrie {sync after : Sync} {root : Root} (closing : Closing sync) (sound : sync.Sound)
    (met : orderly sync (.removeTrie root) = true) (stepped : step sync (.removeTrie root) = some after) : Closing after := by
  simp only [step] at stepped
  split at stepped
  · rename_i member
    have inside := sound.mem_triesInProgress member
    rw [if_pos inside] at stepped
    cases stepped
    refine ⟨closing.before, closing.none_taken, closing.late, closing.early, fun done others => ?_, fun done empty => ?_,
      closing.more, closing.main_done, closing.woken, closing.sent⟩
    · obtain ⟨opened, unseen⟩ := closing.busy done (List.ne_nil_of_mem inside)
      refine ⟨opened, fun there => ?_⟩
      rcases List.mem_cons.mp there with zero | before
      · have long := List.length_pos_of_ne_nil others
        change 0 < (sync.triesInProgress.erase root).length at long
        omega
      · exact unseen before
    · change sync.triesInProgress.erase root = [] at empty
      obtain ⟨opened, unseen⟩ := closing.busy done (List.ne_nil_of_mem inside)
      have only : sync.triesInProgress = [root] := by
        have whole := List.perm_cons_erase inside
        rw [empty] at whole
        exact List.perm_singleton.mp whole
      have gone : sync.mainInProgress = false := by
        simp only [orderly, only, Bool.or_eq_true, Bool.not_eq_true', decide_true, Bool.and_true] at met
        rcases met with undone | gone
        · rw [done] at undone
          cases undone
        · exact gone
      show sync.segmentsClosed + List.count 0 (((if sync.mainInProgress then 1 else 0) +
        (sync.triesInProgress.erase root).length) :: sync.checking) = 1
      rw [empty, gone, opened]
      simp [List.count_eq_zero.mpr unseen]
  · cases stepped

theorem closing_check {sync after : Sync} {count : Nat} (closing : Closing sync)
    (stepped : step sync (.check count) = some after) : Closing after := by
  simp only [step] at stepped
  split at stepped
  · rename_i member
    cases stepped
    by_cases last : count = 0 ∧ sync.storageTriesDone = true
    · obtain ⟨zero, done⟩ := last
      subst zero
      have undone {holds : Prop} (impossible : sync.storageTriesDone = false) : holds := by
        rw [done] at impossible
        cases impossible
      have closes : (if 0 = 0 ∧ sync.storageTriesDone = true then sync.segmentsClosed + 1 else sync.segmentsClosed) =
          sync.segmentsClosed + 1 := if_pos ⟨rfl, done⟩
      rw [closes]
      refine ⟨undone, undone, closing.late, closing.early, fun _ others => ?_, fun _ empty => ?_, closing.more,
        closing.main_done, closing.woken, closing.sent⟩
      · exact absurd member (closing.busy done others).2
      · have idle := closing.idle done empty
        have counted : sync.checking.count 0 = (sync.checking.erase 0).count 0 + 1 := by
          have positive := List.count_pos_iff.mpr member
          rw [List.count_erase_self]
          omega
        show sync.segmentsClosed + 1 + (sync.checking.erase 0).count 0 = 1
        omega
    · rw [if_neg last]
      refine ⟨closing.before, closing.none_taken, closing.late, closing.early, fun done others => ?_, fun done empty => ?_,
        closing.more, closing.main_done, closing.woken, closing.sent⟩
      · obtain ⟨opened, unseen⟩ := closing.busy done others
        exact ⟨opened, fun there => unseen (List.mem_of_mem_erase there)⟩
      · have nonzero : count ≠ 0 := fun zero => last ⟨zero, done⟩
        have idle := closing.idle done empty
        rw [List.count_erase_of_ne nonzero.symm]
        exact idle
  · cases stepped

theorem closing_step {sync after : Sync} {action : Action} (closing : Closing sync) (sound : sync.Sound)
    (met : orderly sync action = true) (stepped : step sync action = some after) : Closing after := by
  cases action with
  | start key skip => exact closing_workers closing sound stepped ⟨key, .inl ⟨skip, rfl⟩⟩
  | split key => exact closing_workers closing sound stepped ⟨key, by simp⟩
  | addSegment key => exact closing_workers closing sound stepped ⟨key, by simp⟩
  | sendSegments key => exact closing_workers closing sound stepped ⟨key, by simp⟩
  | sendSegment key => exact closing_workers closing sound stepped ⟨key, by simp⟩
  | endSplit key => exact closing_workers closing sound stepped ⟨key, by simp⟩
  | finishSegment key => exact closing_workers closing sound stepped ⟨key, by simp⟩
  | writeRoot key => exact closing_workers closing sound stepped ⟨key, by simp⟩
  | clearSegments key => exact closing_workers closing sound stepped ⟨key, by simp⟩
  | closeMainTrieDone => exact closing_mainTrie closing stepped (.inl rfl)
  | removeMainTrie => exact closing_mainTrie closing stepped (.inr rfl)
  | wake => exact closing_producer closing sound stepped (by simp)
  | fetch => exact closing_fetch closing stepped
  | addTrie => exact closing_producer closing sound stepped (by simp)
  | startSyncing => exact closing_startSyncing closing sound met stepped
  | queueSegment => exact closing_producer closing sound stepped (by simp)
  | endSyncing => exact closing_producer closing sound stepped (by simp)
  | release root =>
    simp only [step] at stepped
    split at stepped
    · cases stepped
      exact ⟨closing.before, closing.none_taken, closing.late, closing.early, closing.busy, closing.idle, closing.more,
        closing.main_done, closing.woken, closing.sent⟩
    · cases stepped
  | storageTrieDone root =>
    simp only [step] at stepped
    split at stepped
    · cases stepped
      exact ⟨closing.before, closing.none_taken, closing.late, closing.early, closing.busy, closing.idle, closing.more,
        closing.main_done, closing.woken, closing.sent⟩
    · cases stepped
  | removeTrie root => exact closing_removeTrie closing sound met stepped
  | check count => exact closing_check closing stepped
  | crash trieQueue =>
    simp only [step] at stepped
    split at stepped
    · cases stepped
      exact closing_newStateSyncer _ _
    · cases stepped

/-! ## Every run -/

/-- Every trie has run its callback to the end, and the producer has returned. -/
def Completed (sync : Sync) : Prop :=
  sync.mainTrie = .finished ∧ sync.producer = .returned ∧ sync.unreported = [] ∧ sync.releasing = [] ∧ sync.clearing = [] ∧
    sync.removing = [] ∧ sync.checking = []

instance (sync : Sync) : Decidable (Completed sync) :=
  inferInstanceAs (Decidable (_ ∧ _ ∧ _ ∧ _ ∧ _ ∧ _ ∧ _))

theorem closed_of_completed {sync : Sync} (closing : Closing sync) (sound : sync.Sound) (completed : Completed sync) :
    sync.segmentsClosed = 1 := by
  obtain ⟨-, producer, reported, releasing, clearing, removing, checking⟩ := completed
  cases done : sync.storageTriesDone with
  | false => exact (closing.none_taken done producer).2
  | true =>
    have progress := sound.progress.length_eq
    unfold Sync.active at progress
    rw [reported, releasing, clearing, removing, producer] at progress
    have empty : sync.triesInProgress = [] := List.eq_nil_of_length_eq_zero progress.symm
    have idle := closing.idle done empty
    rw [checking] at idle
    exact idle

theorem closed_le_one {sync : Sync} (closing : Closing sync) : sync.segmentsClosed ≤ 1 := by
  cases done : sync.storageTriesDone with
  | false =>
    by_cases returned : sync.producer = .returned
    · exact Nat.le_of_eq (closing.none_taken done returned).2
    · rw [closing.before done returned]
      omega
  | true =>
    by_cases empty : sync.triesInProgress = []
    · have idle := closing.idle done empty
      omega
    · rw [(closing.busy done empty).1]
      omega

theorem closing_of_reach {sync : Sync} (reach : Reach system (fun sync action => orderly sync action = true) sync) :
    Closing sync ∧ sync.Sound := by
  refine reach.invariant (fun sync => Closing sync ∧ sync.Sound) ?_ ?_
  · intro sync initial
    obtain ⟨rootOnDisk, trieQueue, nodup, rfl⟩ := initial
    exact ⟨closing_newStateSyncer _ _, Sync.sound_newStateSyncer _ nodup⟩
  · intro sync action after holds met stepped
    exact ⟨closing_step holds.1 holds.2 met stepped, sound_step holds.2 (singleSkip_of_orderly met) stepped⟩

/-- The main trie is removed after the only storage trie, and nobody closes the channel. -/
def lateMainTrieActions : List Action :=
  [.start none false, .finishSegment none, .writeRoot none, .clearSegments none, .closeMainTrieDone, .wake, .fetch, .addTrie,
    .startSyncing, .queueSegment, .endSyncing, .start (some 5) false, .finishSegment (some 5), .writeRoot (some 5),
    .clearSegments (some 5), .release 5, .storageTrieDone 5, .removeTrie 5, .check 1, .removeMainTrie]

theorem lateMainTrie_unclosed :
    ¬∀ sync, Reach system (fun _ _ => True) sync → Completed sync → 0 < sync.segmentsClosed := by
  intro closed
  have ran : ((run step (fun _ _ => true) lateMainTrieActions (newStateSyncer emptyDisk [5])).map fun sync =>
      (decide (Completed sync), sync.segmentsClosed)) = some (true, 0) := by decide +kernel
  obtain ⟨sync, reached, values⟩ := Option.map_eq_some_iff.mp ran
  obtain ⟨completed, unclosed⟩ := Prod.mk.inj values
  have reach : Reach system (fun _ _ => True) sync :=
    .ofRun (fun _ _ _ stepped => stepped) (fun _ _ _ => trivial) (reach_newStateSyncer 5) reached
  have positive := closed sync reach (of_decide_eq_true completed)
  omega

/-- In every run of orderly steps the channel of segments is closed at most once and nothing is sent on it afterwards; once
every trie has run its callback to the end and the producer has returned, it is closed. -/
theorem segments_closed {sync : Sync} (reach : Reach system (fun sync action => orderly sync action = true) sync) :
    sync.segmentsClosed ≤ 1 ∧ sync.sentOnClosed = false ∧ (Completed sync → sync.segmentsClosed = 1) := by
  obtain ⟨closing, sound⟩ := closing_of_reach reach
  exact ⟨closed_le_one closing, closing.sent, closed_of_completed closing sound⟩

/-- The same tries, with the main trie removed first. -/
def promptMainTrieActions : List Action :=
  mainTrieActions ++ [.wake, .fetch, .addTrie, .startSyncing, .queueSegment, .endSyncing, .start (some 5) false,
    .finishSegment (some 5), .writeRoot (some 5), .clearSegments (some 5), .release 5, .storageTrieDone 5, .removeTrie 5,
    .check 0]

theorem promptMainTrie_closed : ∃ sync, Reach system (fun sync action => orderly sync action = true) sync ∧
    Completed sync ∧ sync.segmentsClosed = 1 := by
  have ran : ((run step orderly promptMainTrieActions (newStateSyncer emptyDisk [5])).map fun sync =>
      decide (Completed sync)) = some true := by decide +kernel
  obtain ⟨sync, reached, ended⟩ := Option.map_eq_some_iff.mp ran
  have reach : Reach system (fun sync action => orderly sync action = true) sync :=
    .ofRun (fun _ _ _ stepped => stepped) (fun _ _ met => met) (reach_newStateSyncer 5) reached
  have completed : Completed sync := of_decide_eq_true ended
  exact ⟨sync, reach, completed, (segments_closed reach).2.2 completed⟩

end Snowside.StateSync
