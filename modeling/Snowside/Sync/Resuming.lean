import Snowside.Sync.Splitting

/-! Syncs of one trie, from an empty disk on, with a stop at any point. -/

set_option autoImplicit false

namespace Snowside.Segments

open Leaves (Leaf LeafTrie RangeProofs truncate parseLeafsResponse within)

variable {Value : Type} {tails : Nat}

section

variable {Proof : Type} {trie : LeafTrie (keys tails) Value} {leaves : List (Leaf Value)} {markers : List Nat}
  {sync : TrieToSync Value}

/-- A sync on a disk and in memory that lets it go on and start again. -/
structure Sound (trie : LeafTrie (keys tails) Value) (state : State Value) : Prop where
  disk : OnDisk trie state.leaves state.markers
  live : ∀ sync, state.trie = some sync → Live trie state.leaves state.markers sync

/-- A marker more on disk. -/
theorem OnDisk.mark (disk : OnDisk trie leaves markers) {pos : Nat} (positive : 0 < pos) (small : pos < 65536) :
    OnDisk trie leaves (put id (padZero tails pos) markers) := by
  have kept {marker : Nat} (member : marker ∈ markers) : marker ∈ put id (padZero tails pos) markers := by
    by_cases same : marker = padZero tails pos
    · rw [same]
      exact mem_put_self
    · exact mem_put_of_mem member same
  refine ⟨disk.increasing, disk.genuine, ⟨@put_increasing _ id _ _ disk.marked.increasing, ?_⟩, ?_⟩
  · intro marker member
    rcases mem_of_mem_put member with rfl | member
    · exact ⟨pos, rfl, positive, small⟩
    · exact disk.marked.padded marker member
  · intro leaf member other there before free
    exact disk.closed leaf member other there before fun marker marked => free marker (kept marked)

theorem writeSyncSegment_keeps {start : Nat} {rest : List Nat} (disk : OnDisk trie leaves markers)
    (live : Live trie leaves markers sync) (unwritten : sync.unwritten = start :: rest) :
    OnDisk trie leaves (put id start markers) ∧ Live trie leaves (put id start markers) { sync with unwritten := rest } := by
  obtain ⟨pos, rfl, positive, small⟩ := live.unwritten start (unwritten ▸ List.mem_cons_self)
  refine ⟨disk.mark positive small, live.ranges, fun index segment there => ?_, fun marker member => ?_, live.placed,
    live.hashed⟩
  · obtain ⟨first, starts, marked⟩ := live.starts index segment there
    refine ⟨first, starts, ?_⟩
    by_cases same : padZero tails first = padZero tails pos
    · rw [same]
      exact .inl mem_put_self
    · rcases marked with marked | later
      · exact .inl (mem_put_of_mem marked same)
      · rw [unwritten] at later
        exact .inr ((List.mem_cons.mp later).resolve_left same)
  · exact live.unwritten marker (unwritten ▸ List.mem_cons_of_mem _ member)

theorem Placed.closed {segment : Segment Value} (placed : Placed trie leaves segment) {leaf other : Leaf Value}
    (member : leaf ∈ trie.leaves) (listed : other ∈ segment.batch) (held : holds segment.range leaf.key = true)
    (before : leaf.key ≤ other.key) : leaf ∈ leaves ∨ leaf ∈ segment.batch := by
  cases fetched : segment.fetched with
  | true => exact placed.complete fetched leaf member held
  | false =>
    obtain ⟨other_member, other_held⟩ := placed.own other listed
    have := (placed.position fetched other other_member other_held).mpr (.inr listed)
    exact (placed.position fetched leaf member held).mp (by omega)

/-- A segment whose batch is written. -/
theorem Placed.flush {segment : Segment Value} (placed : Placed trie leaves segment)
    (genuine : ∀ leaf ∈ leaves, leaf ∈ trie.leaves) :
    Placed trie (writeBatch leaves segment.batch) { segment with batch := [] } := by
  have mem {leaf : Leaf Value} := @mem_writeBatch _ _ trie leaves _ genuine (fun other listed => (placed.own other listed).1) leaf
  refine ⟨fun leaf member => (by cases member), placed.inside, fun unfetched leaf member held => ?_,
    fun fetched leaf member held => ?_⟩
  · show _ ↔ leaf ∈ writeBatch leaves segment.batch ∨ leaf ∈ []
    rw [or_iff_left List.not_mem_nil, mem]
    exact placed.position unfetched leaf member held
  · exact .inl (mem.mpr (placed.complete fetched leaf member held))

/-- The loop over the segments that are done only writes what they hold, and hashes what is on disk. -/
theorem hashSegments_keeps {fuel : Nat} (disk : OnDisk trie leaves markers) (live : Live trie leaves markers sync)
    (written : sync.unwritten = []) :
    OnDisk trie (hashSegments fuel leaves sync).1 markers ∧
      Live trie (hashSegments fuel leaves sync).1 markers (hashSegments fuel leaves sync).2 := by
  induction fuel generalizing leaves sync with
  | zero => exact ⟨disk, live⟩
  | succ fuel ih =>
    unfold hashSegments
    split
    · exact ⟨disk, live⟩
    · rename_i segment there
      split
      · have placed := live.placed _ segment there
        have mem {leaf : Leaf Value} := @mem_writeBatch _ _ trie leaves _ disk.genuine
          (fun other listed => (placed.own other listed).1) leaf
        have wrote : OnDisk trie (writeBatch leaves segment.batch) markers :=
          live.disk_write disk written there placed.own fun leaf member other listed held before =>
            placed.closed member listed held before
        have updated := live.update there (by rfl) (by rfl) (placed.flush disk.genuine)
          (fun leaf member => mem.mpr (.inl member)) fun leaf member =>
            (mem.mp member).imp_right fun listed => (placed.own leaf listed).2
        refine ih wrote ⟨updated.ranges, updated.starts, updated.unwritten, updated.placed, fun leaf member => ?_⟩ written
        rcases List.mem_append.mp member with before | now
        · exact updated.hashed leaf before
        · exact ((mem_iterateLeafs wrote.increasing).mp now).1
      · exact ⟨disk, live⟩

theorem segmentFinished_keeps [DecidableEq Value] {state after : State Value} {index : Nat}
    (disk : OnDisk trie state.leaves state.markers) (live : Live trie state.leaves state.markers sync)
    (finished : segmentFinished trie state sync index = some after) : Sound trie after := by
  unfold segmentFinished at finished
  split at finished
  · cases finished
  · split at finished
    · rename_i ready
      simp only [Bool.and_eq_true, List.isEmpty_iff] at ready
      have done : Live trie state.leaves state.markers { sync with segmentsDone := index :: sync.segmentsDone } :=
        ⟨live.ranges, live.starts, live.unwritten, live.placed, live.hashed⟩
      obtain ⟨on_disk, still⟩ := @hashSegments_keeps _ _ trie _ _ _ sync.segments.length disk done ready.1.2
      cases hashes : hashSegments sync.segments.length state.leaves { sync with segmentsDone := index :: sync.segmentsDone } with
      | mk written hashing =>
        rw [hashes] at finished on_disk still
        simp only at finished on_disk still
        split at finished
        · cases finished
          refine ⟨on_disk, fun other same => ?_⟩
          cases same
          exact still
        · cases finished
          refine ⟨⟨on_disk.increasing, on_disk.genuine, ?_, ?_⟩, fun other same => (by cases same)⟩
          · show Marked tails (if hashing.hashed = trie.leaves then [] else state.markers)
            split
            · exact ⟨List.Pairwise.nil, fun marker member => (by cases member)⟩
            · exact on_disk.marked
          · intro leaf member other there before free
            by_cases complete : hashing.hashed = trie.leaves
            · exact still.hashed leaf (complete ▸ member)
            · simp only [complete, if_false] at free
              exact on_disk.closed leaf member other there before free
    · cases finished

def trieSegments (isMainTrie : Bool) : Nat := if isMainTrie then numMainTrieSegments else numStorageTrieSegments

/-- The syncs of one trie, from an empty disk on. -/
def system [DecidableEq Value] (proofs : RangeProofs trie Proof) (requestSize : Nat) (isMainTrie : Bool) :
    Runs.System (State Value) (Action Value Proof) where
  initial state := state = ⟨[], [], none⟩
  step state action after := step proofs requestSize (trieSegments isMainTrie) state action = some after

/-- The steps that pass over no leaf and bring none twice: careful responses, and a sync that starts again when the leaf at
the last key, if there is one, is not on disk. -/
def careful (trie : LeafTrie (keys tails) Value) (state : State Value) : Action Value Proof → Prop
  | .onLeafs index response proof _ =>
    ∀ sync ∈ state.trie, ∀ segment ∈ sync.segments[index]?, Careful trie sync index segment response proof
  | .resume => ∀ leaf ∈ state.leaves, leaf.key + 1 < keys tails
  | _ => True

/-- The segments part the keys, each has the leaves up to its position, and a response brings a segment nothing of another. -/
structure Parted (proofs : RangeProofs trie Proof) (requestSize : Nat) (leaves : List (Leaf Value)) (sync : TrieToSync Value) :
    Prop where
  consecutive : Consecutive (keys tails) 0 (sync.segments.map Segment.range)
  once : ∀ key < keys tails, ∃! index : Nat, ∃ segment, sync.segments[index]? = some segment ∧ holds segment.range key = true
  placed : ∀ segment ∈ sync.segments, Placed trie leaves segment
  brings : ∀ (index : Nat) segment response (proof : Option Proof) more, sync.segments[index]? = some segment →
    segment.fetched = false → Careful trie sync index segment response proof →
    parseLeafsResponse proofs requestSize segment.range.firstKey ⟨response, proof, none⟩ = some more →
    ∀ leaf ∈ truncate segment.range.finish response, leaf ∈ trie.leaves ∧ holds segment.range leaf.key = true ∧
      ∀ (place : Nat) other, sync.segments[place]? = some other → holds other.range leaf.key = true → place = index

theorem Live.parted (proofs : RangeProofs trie Proof) (requestSize : Nat) (live : Live trie leaves markers sync) :
    Parted proofs requestSize leaves sync := by
  have ranged {index : Nat} {segment : Segment Value} (there : sync.segments[index]? = some segment) :
      (sync.segments.map Segment.range)[index]? = some segment.range := by
    rw [List.getElem?_map, there, Option.map_some]
  refine ⟨live.ranges, fun key bounded => ?_, fun segment member => ?_, ?_⟩
  · obtain ⟨index, ⟨range, there, held⟩, unique⟩ := live.ranges.existsUnique (Nat.zero_le key) bounded
    rw [List.getElem?_map, Option.map_eq_some_iff] at there
    obtain ⟨segment, found, rfl⟩ := there
    refine ⟨index, ⟨segment, found, held⟩, fun other found_too => ?_⟩
    obtain ⟨otherSegment, other_there, other_held⟩ := found_too
    exact unique other ⟨otherSegment.range, ranged other_there, other_held⟩
  · obtain ⟨index, there⟩ := List.mem_iff_getElem?.mp member
    exact live.placed index segment there
  · intro index segment response proof more there unfetched met parsed leaf member
    have here := (onLeafs_turned (live.placed index segment there) unfetched parsed met.whole).1 leaf member
    refine ⟨here.1, here.2, fun place other other_there held => ?_⟩
    exact live.ranges.same (ranged other_there) (ranged there) held here.2 (trie.bounded leaf here.1)

variable [DecidableEq Value]

theorem sound_of_reach (some_tail : 0 < tails) (proofs : RangeProofs trie Proof) (requestSize : Nat) (isMainTrie : Bool)
    {state : State Value} (reach : Runs.Reach (system proofs requestSize isMainTrie) (careful trie) state) : Sound trie state := by
  have divides : trieSegments isMainTrie ∣ 65536 := by cases isMainTrie <;> decide
  refine reach.invariant (Sound trie) ?_ ?_
  · rintro state rfl
    have unmarked : Marked tails [] := ⟨List.Pairwise.nil, fun marker member => (by cases member)⟩
    refine ⟨⟨List.Pairwise.nil, fun leaf member => (by cases member), unmarked, ?_⟩, fun sync same => (by cases same)⟩
    exact fun leaf member other there => (by cases there)
  · intro state action after sound met stepped
    have stepped : step proofs requestSize (trieSegments isMainTrie) state action = some after := stepped
    cases action with
    | onLeafs index response proof capped =>
      obtain ⟨sync, same, turned⟩ := Option.bind_eq_some_iff.mp stepped
      obtain ⟨on_disk, next, in_memory, live⟩ :=
        turn_keeps some_tail divides sound.disk (sound.live sync same) (met sync same) turned
      refine ⟨on_disk, fun other other_same => ?_⟩
      rw [in_memory] at other_same
      cases other_same
      exact live
    | writeSyncSegment =>
      obtain ⟨sync, same, wrote⟩ := Option.bind_eq_some_iff.mp stepped
      split at wrote
      · cases wrote
      · rename_i start rest unwritten
        cases wrote
        obtain ⟨on_disk, live⟩ := writeSyncSegment_keeps sound.disk (sound.live sync same) unwritten
        refine ⟨on_disk, fun other other_same => ?_⟩
        cases other_same
        exact live
    | segmentFinished index =>
      obtain ⟨sync, same, finished⟩ := Option.bind_eq_some_iff.mp stepped
      exact segmentFinished_keeps sound.disk (sound.live sync same) finished
    | resume =>
      cases stepped
      refine ⟨sound.disk, fun other other_same => ?_⟩
      cases other_same
      exact sound.disk.live some_tail met

/-- In a run of such steps the segments in memory part the keys, and so do those that a sync finds when it starts again at
any point: each of these starts after the leaves of its range on disk, and none before it is missing. -/
theorem segments_part (some_tail : 0 < tails) (proofs : RangeProofs trie Proof) (requestSize : Nat) (isMainTrie : Bool)
    (state : State Value) (reach : Runs.Reach (system proofs requestSize isMainTrie) (careful trie) state) :
    (∀ sync, state.trie = some sync → Parted proofs requestSize state.leaves sync) ∧
      ((∀ leaf ∈ state.leaves, leaf.key + 1 < keys tails) →
        Parted proofs requestSize state.leaves (loadSegments tails state.leaves state.markers) ∧
          ∀ segment ∈ (loadSegments tails state.leaves state.markers).segments, segment.batch = [] ∧ segment.fetched = false) := by
  have sound := sound_of_reach some_tail proofs requestSize isMainTrie reach
  refine ⟨fun sync same => (sound.live sync same).parted proofs requestSize, fun no_last => ?_⟩
  refine ⟨(sound.disk.live some_tail no_last).parted proofs requestSize, fun segment member => ?_⟩
  obtain ⟨range, -, rfl⟩ := List.mem_map.mp member
  exact ⟨rfl, rfl⟩

end

instance Careful.decidable {tails : Nat} {trie : LeafTrie (keys tails) Value} {sync : TrieToSync Value} {index : Nat}
    {segment : Segment Value} {response : List (Leaf Value)} {Proof : Type} {proof : Option Proof} :
    Decidable (Careful trie sync index segment response proof) :=
  decidable_of_iff
    ((∀ last ∈ response.getLast?, within segment.range.finish last.key = true →
        (∃ later ∈ trie.leaves, last.key < later.key) → last.key + 2 < keys tails ∧
          ∀ leaf ∈ trie.leaves, leaf.key = last.key + 1 → within segment.range.finish leaf.key = false) ∧
      (proof = none → ∀ leaf ∈ trie.leaves, within segment.range.finish leaf.key = true →
        segment.range.start.getD 0 ≤ leaf.key) ∧
      (shouldSegment tails (sync.segments.set index (segment.onLeafs tails (truncate segment.range.finish response))) = true →
        segment.range.finish = none))
    ⟨fun ⟨gap, whole, once⟩ => ⟨gap, whole, once⟩, fun met => ⟨met.gap, met.whole, met.once⟩⟩

instance careful_decidable {tails : Nat} {trie : LeafTrie (keys tails) Value} {Proof : Type} (state : State Value)
    (action : Action Value Proof) : Decidable (careful trie state action) := by
  cases action <;> unfold careful <;> infer_instance

/-! ## Syncs of keys of 32 bytes -/

/-- So many keys with the same two bytes. -/
def hashTails : Nat := 256 ^ 30

/-- Two of the leaves are side by side. -/
def adjacentHashes : LeafTrie (keys hashTails) Nat :=
  ⟨Leaves.adjacentTrie.leaves, Leaves.adjacentTrie.increasing, by decide⟩

/-- The leaf that was passed over comes before the position of the sync that starts again. -/
theorem adjacent_missing : ¬∀ (state : State Nat),
    Runs.Reach (system (Leaves.documentedProofs adjacentHashes) 1 true) (fun _ _ => True) state →
      Parted (Leaves.documentedProofs adjacentHashes) 1 state.leaves (loadSegments hashTails state.leaves state.markers) := by
  intro parts
  have ran : Runs.run (step (Leaves.documentedProofs adjacentHashes) 1 (trieSegments true)) (fun _ _ => true)
      [.resume, .onLeafs 0 [⟨1, 10⟩] (some ()) false, .onLeafs 0 [⟨5, 50⟩] (some ()) true] ⟨[], [], none⟩ =
        some ⟨[⟨1, 10⟩, ⟨5, 50⟩], [], some ⟨[⟨⟨none, some 6, none⟩, [], 2, true⟩], [], 0, [], []⟩⟩ := by
    decide +kernel
  have start : Runs.Reach (system (Leaves.documentedProofs adjacentHashes) 1 true) (fun _ _ => True) ⟨[], [], none⟩ := .start rfl
  have reach := Runs.Reach.ofRun (fun _ _ _ stepped => stepped) (fun _ _ _ => trivial) start ran
  have parted := parts _ reach
  have placed := parted.placed _ List.mem_cons_self
  have missing := (placed.position rfl ⟨2, 20⟩ (by decide) (by decide)).mp (by decide)
  exact absurd missing (by decide)

/-- Leaves close together at the start of a trie, and one far behind them. -/
def unevenHashes : LeafTrie (keys hashTails) Nat :=
  ⟨[⟨hashTails, 1⟩, ⟨hashTails + 2, 2⟩, ⟨hashTails + 4, 3⟩, ⟨hashTails + 6, 4⟩, ⟨hashTails + 8, 5⟩, ⟨hashTails + 10, 6⟩,
    ⟨hashTails + 12, 7⟩, ⟨hashTails + 14, 8⟩, ⟨40000 * hashTails, 9⟩], by decide, by decide⟩

/-- The trie is split after eight leaves, and the sync stops when two of the starts are written; the last leaf is then of
the third segment. -/
def splitRun : List (Action Nat Unit) :=
  [.resume, .onLeafs 0 (unevenHashes.leaves.take 8) (some ()) true, .writeSyncSegment, .writeSyncSegment, .resume,
    .onLeafs 2 (unevenHashes.leaves.drop 8) (some ()) false]

def splitState : State Nat :=
  (Runs.run (step (Leaves.documentedProofs unevenHashes) 1024 (trieSegments true))
    (fun state action => decide (careful unevenHashes state action)) splitRun ⟨[], [], none⟩).getD ⟨[], [], none⟩

theorem split_parted : splitState.markers.length = 2 ∧
    Parted (Leaves.documentedProofs unevenHashes) 1024 splitState.leaves
      (loadSegments hashTails splitState.leaves splitState.markers) := by
  have ran : Runs.run (step (Leaves.documentedProofs unevenHashes) 1024 (trieSegments true))
      (fun state action => decide (careful unevenHashes state action)) splitRun ⟨[], [], none⟩ = some splitState := by
    decide +kernel
  have start : Runs.Reach (system (Leaves.documentedProofs unevenHashes) 1024 true) (careful unevenHashes) ⟨[], [], none⟩ :=
    .start rfl
  have reach := Runs.Reach.ofRun (fun _ _ _ stepped => stepped) (fun _ _ met => of_decide_eq_true met) start ran
  refine ⟨by decide +kernel, ?_⟩
  exact ((segments_part (by decide) (Leaves.documentedProofs unevenHashes) 1024 true splitState reach).2 (by decide +kernel)).1

end Snowside.Segments
