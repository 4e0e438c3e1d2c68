import Snowside.Sync.Splitting

/-! The segments of a trie are given to its stack trie in the order of the keys, in whatever
order they finish.
-/

set_option autoImplicit false

namespace Snowside.Hashing

open Leaves (Leaf LeafTrie TrieSegment within)
open Runs
open Segments (Segment Consecutive holds lastKey keys writeBatch)

variable {Value Node Root Refusal : Type}

/-- A stack trie by what it was given: the nodes that an update lets it write, and those of the commit. -/
structure StackTrie (Value Node Root Refusal : Type) where
  update : List (Leaf Value) → Leaf Value → Except Refusal (List Node)
  commit : List (Leaf Value) → Root × List Node

/-- What a trie is synced with. -/
structure Setting (Node Root : Type) where
  root : Root
  isMainTrie : Bool
  batchSize : Nat
  valueSize : List Node → Nat

inductive HashError (Root Refusal : Type) where
  /-- The error of the context. -/
  | context
  | update (cause : Refusal)
  | unexpectedRoot (actual : Root)

/-- A trie that is synced, the leaves, nodes and markers on disk, how often the context is asked until it is cancelled, and
what has happened: the leaves that the stack trie was given, the roots of its commits and the calls of OnFinish. -/
structure TrieToSync (Value Node Root : Type) where
  leaves : List (Leaf Value)
  nodes : List Node
  markers : List Nat
  segments : List (Segment Value)
  segmentsDone : List Nat
  segmentToHashNext : Nat
  batch : List Node
  context : Option Nat
  hashed : List (Leaf Value)
  commits : List Root
  finishes : Nat

section

variable (stackTrie : StackTrie Value Node Root Refusal) (setting : Setting Node Root)

/-- The batch is capped. -/
def TrieToSync.capBatch (sync : TrieToSync Value Node Root) : TrieToSync Value Node Root :=
  if setting.valueSize sync.batch > setting.batchSize then { sync with nodes := sync.nodes ++ sync.batch, batch := [] } else sync

/-- The loop over the leaves from the start of a segment, which its end breaks. -/
def hashLeafs (finish : Option Nat) : List (Leaf Value) → TrieToSync Value Node Root →
    Option (HashError Root Refusal) × TrieToSync Value Node Root
  | [], sync => (none, sync)
  | leaf :: rest, sync =>
    if sync.context = some 0 then (some .context, sync)
    else
      let sync := { sync with context := sync.context.map (· - 1) }
      if within finish leaf.key then
        match stackTrie.update sync.hashed leaf with
        | .error cause => (some (.update cause), sync)
        | .ok nodes =>
          hashLeafs finish rest ({ sync with hashed := sync.hashed ++ [leaf], batch := sync.batch ++ nodes }.capBatch setting)
      else (none, sync)

/-- The loop over the segments that are done, in their order; it goes on for as long as there are any. -/
def hashSegments : Nat → TrieToSync Value Node Root → Option (HashError Root Refusal) × TrieToSync Value Node Root
  | 0, sync => (none, sync)
  | fuel + 1, sync =>
    if sync.segmentToHashNext ∈ sync.segmentsDone then
      match sync.segments[sync.segmentToHashNext]? with
      | none => (none, sync)
      | some segment =>
        -- The batch of the segment is written, as its items are iterated below.
        let sync := { sync with
          leaves := writeBatch sync.leaves segment.batch
          segments := sync.segments.set sync.segmentToHashNext { segment with batch := [] } }
        match hashLeafs stackTrie setting segment.range.finish
            (sync.leaves.filter fun leaf => segment.range.start.getD 0 ≤ leaf.key) sync with
        | (some error, sync) => (some error, sync)
        | (none, sync) => hashSegments fuel { sync with segmentToHashNext := sync.segmentToHashNext + 1 }
    else (none, sync)

/-- The commit hashes the remaining nodes and creates the root; with the right one the trie is finished. -/
def commitTrie [DecidableEq Root] (sync : TrieToSync Value Node Root) : Option (HashError Root Refusal) × TrieToSync Value Node Root :=
  let (actualRoot, nodes) := stackTrie.commit sync.hashed
  let sync := { sync with batch := sync.batch ++ nodes, commits := sync.commits ++ [actualRoot] }
  if actualRoot = setting.root then
    -- The batch with the main trie's root is written when the sync completes.
    let sync := if setting.isMainTrie then sync else { sync with nodes := sync.nodes ++ sync.batch }
    (none, { sync with markers := [], finishes := sync.finishes + 1 })
  else (some (.unexpectedRoot actualRoot), sync)

def segmentFinished [DecidableEq Root] (index : Nat) (sync : TrieToSync Value Node Root) :
    Option (HashError Root Refusal) × TrieToSync Value Node Root :=
  let sync := { sync with segmentsDone := index :: sync.segmentsDone }
  match hashSegments stackTrie setting sync.segments.length sync with
  | (some error, sync) => (some error, sync)
  | (none, sync) => if sync.segmentToHashNext < sync.segments.length then (none, sync) else commitTrie stackTrie setting sync

end

/-! ## Runs -/

inductive HashStep (Value : Type) where
  /-- More leaves of a segment, and whether its batch is written. -/
  | onLeafs (index : Nat) (leaves : List (Leaf Value)) (capped : Bool)
  | segmentFinished (index : Nat)

def onLeafs (index : Nat) (leaves : List (Leaf Value)) (capped : Bool) (sync : TrieToSync Value Node Root) :
    TrieToSync Value Node Root :=
  match sync.segments[index]? with
  | none => sync
  | some segment =>
    let batch := segment.batch ++ leaves
    if capped then
      { sync with leaves := writeBatch sync.leaves batch, segments := sync.segments.set index { segment with batch := [] } }
    else { sync with segments := sync.segments.set index { segment with batch := batch } }

def step [DecidableEq Root] (stackTrie : StackTrie Value Node Root Refusal) (setting : Setting Node Root)
    (sync : TrieToSync Value Node Root) : HashStep Value → TrieToSync Value Node Root
  | .onLeafs index leaves capped => onLeafs index leaves capped sync
  | .segmentFinished index => (segmentFinished stackTrie setting index sync).2

section

variable {tails : Nat} (trie : LeafTrie (keys tails) Value)

/-- A segment gets leaves of its own until it is finished, and then all of them are on disk or in its batch. -/
def Allowed (sync : TrieToSync Value Node Root) : HashStep Value → Prop
  | .onLeafs index leaves _ => index ∉ sync.segmentsDone ∧ ∃ segment, sync.segments[index]? = some segment ∧
      ∀ leaf ∈ leaves, leaf ∈ trie.leaves ∧ holds segment.range leaf.key = true
  | .segmentFinished index => index ∉ sync.segmentsDone ∧ ∃ segment, sync.segments[index]? = some segment ∧
      ∀ leaf ∈ trie.leaves, holds segment.range leaf.key = true → leaf ∈ sync.leaves ∨ leaf ∈ segment.batch

/-- The segments part the keys, and what is on disk and in their batches is the trie's. -/
structure Stored (sync : TrieToSync Value Node Root) : Prop where
  ranges : Consecutive (keys tails) 0 (sync.segments.map Segment.range)
  increasing : sync.leaves.Pairwise fun first second => first.key < second.key
  genuine : ∀ leaf ∈ sync.leaves, leaf ∈ trie.leaves
  own : ∀ (index : Nat) segment, sync.segments[index]? = some segment →
    ∀ leaf ∈ segment.batch, leaf ∈ trie.leaves ∧ holds segment.range leaf.key = true

/-- A trie none of whose segments is finished. -/
structure Begun (sync : TrieToSync Value Node Root) : Prop extends Stored trie sync where
  segmentsDone : sync.segmentsDone = []
  segmentToHashNext : sync.segmentToHashNext = 0
  hashed : sync.hashed = []
  commits : sync.commits = []
  finishes : sync.finishes = 0

def hashSystem [DecidableEq Root] (stackTrie : StackTrie Value Node Root Refusal) (setting : Setting Node Root) :
    System (TrieToSync Value Node Root) (HashStep Value) where
  initial := Begun trie
  step sync action after := after = step stackTrie setting sync action

end

/-! ## Leaves in order -/

/-- Where a segment starts; after the last one is the end of the keys. -/
def startOf (size : Nat) (segments : List (Segment Value)) (index : Nat) : Nat :=
  segments[index]?.elim size fun segment => segment.range.start.getD 0

theorem consecutive_next {size first : Nat} {ranges : List TrieSegment} {index : Nat} {range : TrieSegment}
    (consecutive : Consecutive size first ranges) (there : ranges[index]? = some range) :
    (ranges[index + 1]?.elim size fun range => range.start.getD 0) = lastKey size range + 1 := by
  induction ranges generalizing first index with
  | nil => cases there
  | cons head rest ih =>
    obtain ⟨-, -, -, onwards⟩ := consecutive
    cases index with
    | zero =>
      cases there
      cases rest with
      | nil => exact onwards.symm
      | cons next others => exact onwards.1
    | succ index => exact ih onwards there

theorem startOf_next {size : Nat} {segments : List (Segment Value)} {index : Nat} {segment : Segment Value}
    (ranges : Consecutive size 0 (segments.map Segment.range)) (there : segments[index]? = some segment) :
    startOf size segments (index + 1) = lastKey size segment.range + 1 := by
  have range_there : (segments.map Segment.range)[index]? = some segment.range := by rw [List.getElem?_map, there, Option.map_some]
  rw [← consecutive_next ranges range_there, List.getElem?_map, startOf]
  cases segments[index + 1]? <;> rfl

/-- What comes before a key, and then what is between it and another one. -/
theorem filter_append_filter {leaves : List (Leaf Value)} (increasing : leaves.Pairwise fun first second => first.key < second.key)
    {low high : Nat} (ordered : low ≤ high) :
    (leaves.filter fun leaf => leaf.key < low) ++ (leaves.filter fun leaf => low ≤ leaf.key && leaf.key < high) =
      leaves.filter fun leaf => leaf.key < high := by
  induction leaves with
  | nil => rfl
  | cons head rest ih =>
    obtain ⟨after_head, rest_increasing⟩ := List.pairwise_cons.mp increasing
    by_cases before : head.key < low
    · have below : head.key < high := by omega
      have not_from : ¬ low ≤ head.key := by omega
      simpa [before, below, not_from] using ih rest_increasing
    · have none_before : rest.filter (fun leaf => leaf.key < low) = [] := by
        refine List.filter_eq_nil_iff.mpr fun leaf member => ?_
        have := after_head leaf member
        simp only [decide_eq_true_iff]
        omega
      have all_from : ∀ leaf ∈ head :: rest, (decide (low ≤ leaf.key) && decide (leaf.key < high)) = decide (leaf.key < high) := by
        intro leaf member
        have : low ≤ leaf.key := by
          rcases List.mem_cons.mp member with rfl | later
          · omega
          · have := after_head leaf later
            omega
        rw [decide_eq_true this, Bool.true_and]
      rw [List.filter_cons_of_neg (by simpa using before), none_before, List.nil_append, List.filter_congr all_from]

/-- Where all of the trie's leaves are on disk, the iterator finds these and no others. -/
theorem filter_eq_of_stored {size : Nat} {trie : LeafTrie size Value} {leaves : List (Leaf Value)} {wanted : Leaf Value → Bool}
    (increasing : leaves.Pairwise fun first second => first.key < second.key) (genuine : ∀ leaf ∈ leaves, leaf ∈ trie.leaves)
    (there : ∀ leaf ∈ trie.leaves, wanted leaf = true → leaf ∈ leaves) : leaves.filter wanted = trie.leaves.filter wanted := by
  have distinct {entries : List (Leaf Value)} (ordered : entries.Pairwise fun first second => first.key < second.key) :
      entries.Nodup := ordered.imp fun below same => absurd (congrArg Leaf.key same) below.ne
  refine List.Perm.eq_of_pairwise ?_ (increasing.filter _) (trie.increasing.filter _) ?_
  · intro first second _ _ below above
    omega
  · refine (List.perm_ext_iff_of_nodup ((distinct increasing).filter _) ((distinct trie.increasing).filter _)).mpr fun leaf => ?_
    rw [List.mem_filter, List.mem_filter]
    exact ⟨fun ⟨member, fits⟩ => ⟨genuine leaf member, fits⟩, fun ⟨member, fits⟩ => ⟨there leaf member fits, fits⟩⟩

/-! ## The loops -/

section

variable {stackTrie : StackTrie Value Node Root Refusal} {setting : Setting Node Root} {tails : Nat}
  {trie : LeafTrie (keys tails) Value} {sync : TrieToSync Value Node Root}

/-- A stack trie takes the leaves of a trie in the order of their keys. -/
def Accepts (stackTrie : StackTrie Value Node Root Refusal) (leaves : List (Leaf Value)) : Prop :=
  ∀ given leaf, leaf ∈ leaves → (∀ earlier ∈ given, earlier.key < leaf.key) → ∃ nodes, stackTrie.update given leaf = .ok nodes

/-- What the loop over leaves changes. -/
def Fed (sync after : TrieToSync Value Node Root) (fed : List (Leaf Value)) : Prop :=
  ∃ nodes batch context,
    after = { sync with nodes := nodes, batch := batch, context := context, hashed := sync.hashed ++ fed }

theorem fed_nothing (sync : TrieToSync Value Node Root) : Fed sync sync [] :=
  ⟨sync.nodes, sync.batch, sync.context, by rw [List.append_nil]⟩

theorem capBatch_cases (setting : Setting Node Root) (sync : TrieToSync Value Node Root) :
    ∃ nodes batch, sync.capBatch setting = { sync with nodes := nodes, batch := batch } := by
  unfold TrieToSync.capBatch
  split
  · exact ⟨_, _, rfl⟩
  · exact ⟨_, _, rfl⟩

/-- The stack trie is given the leaves up to the end of the segment, or some of the first ones when the context is cancelled. -/
theorem hashLeafs_cases (accepts : Accepts stackTrie trie.leaves) (setting : Setting Node Root) (finish : Option Nat)
    {onwards : List (Leaf Value)} (increasing : onwards.Pairwise fun first second => first.key < second.key)
    (own : ∀ leaf ∈ onwards, leaf ∈ trie.leaves) (sync : TrieToSync Value Node Root)
    (later : ∀ given ∈ sync.hashed, ∀ leaf ∈ onwards, given.key < leaf.key) :
    ∃ fed error after, hashLeafs stackTrie setting finish onwards sync = (error, after) ∧ Fed sync after fed ∧
      fed <+: onwards.takeWhile (fun leaf => within finish leaf.key) ∧
      (error.isNone = true → fed = onwards.takeWhile fun leaf => within finish leaf.key) ∧
      (error.isSome = true → after.context = some 0 ∧ onwards ≠ []) ∧
      (sync.context = none → error.isNone = true ∧ after.context = none) ∧
      (sync.context = some 0 → onwards ≠ [] → error.isSome = true ∧ fed = []) := by
  induction onwards generalizing sync with
  | nil => exact ⟨[], none, sync, rfl, fed_nothing sync, List.prefix_refl _, fun _ => rfl, fun failed => (nomatch failed),
      fun never => ⟨rfl, never⟩, fun _ nothing => absurd rfl nothing⟩
  | cons leaf rest ih =>
    obtain ⟨after_leaf, rest_increasing⟩ := List.pairwise_cons.mp increasing
    unfold hashLeafs
    by_cases cancelled : sync.context = some 0
    · rw [if_pos cancelled]
      exact ⟨[], some .context, sync, rfl, fed_nothing sync, List.nil_prefix, fun fine => (nomatch fine),
        fun _ => ⟨cancelled, List.cons_ne_nil _ _⟩, fun never => absurd (never.symm.trans cancelled) nofun, fun _ _ => ⟨rfl, rfl⟩⟩
    · rw [if_neg cancelled]
      cases inside : within finish leaf.key with
      | false =>
        have ended : List.takeWhile (fun leaf : Leaf Value => within finish leaf.key) (leaf :: rest) = [] := by
          rw [List.takeWhile_cons, inside, if_neg Bool.false_ne_true]
        rw [ended]
        refine ⟨[], none, _, rfl, ⟨_, _, _, by rw [List.append_nil]⟩, List.prefix_refl _, fun _ => rfl,
          fun failed => (nomatch failed), fun never => ⟨rfl, ?_⟩, fun already => absurd already cancelled⟩
        simp [never]
      | true =>
        obtain ⟨nodes, taken⟩ := accepts sync.hashed leaf (own leaf List.mem_cons_self)
          fun given member => later given member leaf List.mem_cons_self
        have onwards : List.takeWhile (fun leaf : Leaf Value => within finish leaf.key) (leaf :: rest) =
            leaf :: rest.takeWhile fun leaf => within finish leaf.key := by
          rw [List.takeWhile_cons, inside, if_pos rfl]
        simp only [if_true, taken, onwards]
        obtain ⟨written, batch, capped⟩ := capBatch_cases setting { sync with
          context := sync.context.map (· - 1)
          hashed := sync.hashed ++ [leaf]
          batch := sync.batch ++ nodes }
        rw [capped]
        -- The leaf that was just hashed is before the rest, too.
        have later_rest : ∀ given ∈ sync.hashed ++ [leaf], ∀ other ∈ rest, given.key < other.key := by
          intro given member other listed
          rcases List.mem_append.mp member with earlier | here
          · exact later given earlier other (List.mem_cons_of_mem _ listed)
          · rw [List.mem_singleton.mp here]
            exact after_leaf other listed
        obtain ⟨fed, error, after, looped, ⟨nodes, batch, context, same⟩, first, all, failed, never, -⟩ :=
          ih rest_increasing (fun other member => own other (List.mem_cons_of_mem _ member))
            { sync with
              nodes := written
              batch := batch
              context := sync.context.map (· - 1)
              hashed := sync.hashed ++ [leaf] } later_rest
        refine ⟨leaf :: fed, error, after, looped, ⟨nodes, batch, context, ?_⟩, List.cons_prefix_cons.mpr ⟨rfl, first⟩,
          fun fine => congrArg (leaf :: ·) (all fine), fun stopped => ⟨(failed stopped).1, List.cons_ne_nil _ _⟩,
          fun unending => never (congrArg (Option.map (· - 1)) unending), fun already => absurd already cancelled⟩
        rw [same, List.append_assoc]
        rfl

/-! ## What is kept -/

/-- The segments that are done have all their leaves, and they are done up to the next one to hash. -/
structure Underway (trie : LeafTrie (keys tails) Value) (sync : TrieToSync Value Node Root) : Prop extends Stored trie sync where
  placed : ∀ index ∈ sync.segmentsDone, ∃ segment, sync.segments[index]? = some segment ∧
    ∀ leaf ∈ trie.leaves, holds segment.range leaf.key = true → leaf ∈ sync.leaves ∨ leaf ∈ segment.batch
  before : ∀ index < sync.segmentToHashNext, index ∈ sync.segmentsDone

/-- Where the next segment to hash starts. -/
def TrieToSync.reached (tails : Nat) (sync : TrieToSync Value Node Root) : Nat :=
  startOf (keys tails) sync.segments sync.segmentToHashNext

/-- The stack trie has the leaves before the next segment to hash. -/
def Caught (trie : LeafTrie (keys tails) Value) (sync : TrieToSync Value Node Root) : Prop :=
  sync.hashed = trie.leaves.filter fun leaf => leaf.key < sync.reached tails

/-- The context was cancelled in the next segment to hash, and no leaf is taken any more. -/
structure Stuck (trie : LeafTrie (keys tails) Value) (sync : TrieToSync Value Node Root) : Prop where
  context : sync.context = some 0
  next_done : sync.segmentToHashNext ∈ sync.segmentsDone
  first : sync.hashed <+: trie.leaves
  goes_on : ∃ leaf ∈ sync.leaves, sync.reached tails ≤ leaf.key

theorem startOf_set (size : Nat) {segments : List (Segment Value)} {index : Nat} {segment changed : Segment Value}
    (there : segments[index]? = some segment) (same : changed.range = segment.range) (place : Nat) :
    startOf size (segments.set index changed) place = startOf size segments place := by
  unfold startOf
  rcases eq_or_ne index place with rfl | differs
  · have inside : index < segments.length := (List.getElem?_eq_some_iff.mp there).1
    rw [List.getElem?_set_self inside, there, Option.elim_some, Option.elim_some, same]
  · rw [List.getElem?_set_ne differs]

/-- The leaves of a batch are written, or more of them are put into it. -/
theorem Underway.update (underway : Underway trie sync) {index : Nat} {segment changed : Segment Value}
    {leaves : List (Leaf Value)} (there : sync.segments[index]? = some segment) (same : changed.range = segment.range)
    (increasing : leaves.Pairwise fun first second => first.key < second.key) (genuine : ∀ leaf ∈ leaves, leaf ∈ trie.leaves)
    (own : ∀ leaf ∈ changed.batch, leaf ∈ trie.leaves ∧ holds changed.range leaf.key = true)
    (grows : ∀ leaf ∈ sync.leaves, leaf ∈ leaves) (kept : ∀ leaf ∈ segment.batch, leaf ∈ leaves ∨ leaf ∈ changed.batch) :
    Underway trie { sync with leaves := leaves, segments := sync.segments.set index changed } where
  ranges := by
    have range_there : (sync.segments.map Segment.range)[index]? = some segment.range := by
      rw [List.getElem?_map, there, Option.map_some]
    rw [List.map_set]
    exact underway.ranges.set range_there (congrArg TrieSegment.start same) (congrArg TrieSegment.finish same)
  increasing := increasing
  genuine := genuine
  own := by
    intro place found there_now
    rcases Segments.set_cases there_now with ⟨-, rfl⟩ | ⟨-, before⟩
    · exact own
    · exact underway.own place found before
  placed := by
    intro place finished
    obtain ⟨found, there_before, complete⟩ := underway.placed place finished
    rcases eq_or_ne index place with rfl | differs
    · obtain rfl : segment = found := Option.some.inj (there.symm.trans there_before)
      refine ⟨changed, List.getElem?_set_self (List.getElem?_eq_some_iff.mp there).1, fun leaf member held => ?_⟩
      rcases complete leaf member (same ▸ held) with on_disk | in_batch
      · exact .inl (grows leaf on_disk)
      · exact kept leaf in_batch
    · refine ⟨found, (List.getElem?_set_ne differs).trans there_before, fun leaf member held => ?_⟩
      exact (complete leaf member held).imp_left (grows leaf)
  before := underway.before

/-- The batch of a segment is written to disk. -/
theorem Underway.write (underway : Underway trie sync) {index : Nat} {segment : Segment Value}
    (there : sync.segments[index]? = some segment) :
    Underway trie { sync with
      leaves := writeBatch sync.leaves segment.batch
      segments := sync.segments.set index { segment with batch := [] } } := by
  have own (leaf : Leaf Value) (member : leaf ∈ segment.batch) : leaf ∈ trie.leaves := (underway.own index segment there leaf member).1
  have mem {leaf : Leaf Value} : leaf ∈ writeBatch sync.leaves segment.batch ↔ leaf ∈ sync.leaves ∨ leaf ∈ segment.batch :=
    Segments.mem_writeBatch underway.genuine own
  refine underway.update there rfl (Segments.writeBatch_increasing underway.increasing) (fun leaf member => ?_)
    (fun leaf member => nomatch member) (fun leaf member => mem.mpr (.inl member)) fun leaf member => .inl (mem.mpr (.inr member))
  exact (mem.mp member).elim (underway.genuine leaf) (own leaf)

/-- What the loop over segments leaves as it is. -/
def Same (sync after : TrieToSync Value Node Root) : Prop :=
  after.segmentsDone = sync.segmentsDone ∧ after.segments.length = sync.segments.length ∧ after.commits = sync.commits ∧
    after.finishes = sync.finishes

theorem lt_of_next_done (underway : Underway trie sync) (next_done : sync.segmentToHashNext ∈ sync.segmentsDone) :
    sync.segmentToHashNext < sync.segments.length := by
  obtain ⟨segment, there, -⟩ := underway.placed _ next_done
  exact (List.getElem?_eq_some_iff.mp there).1

theorem filter_lt_initial (trie : LeafTrie (keys tails) Value) {high : Nat} (bounded : high ≤ keys tails) :
    trie.leaves.filter (fun leaf => leaf.key < high) <+: trie.leaves := by
  refine ⟨_, (filter_append_filter trie.increasing bounded).trans ?_⟩
  exact List.filter_eq_self.mpr fun leaf member => decide_eq_true (trie.bounded leaf member)

theorem startOf_eq {size : Nat} {segments : List (Segment Value)} {index : Nat} {segment : Segment Value}
    (there : segments[index]? = some segment) : startOf size segments index = segment.range.start.getD 0 := by
  rw [startOf, there, Option.elim_some]

/-- The iterator finds the leaves of a segment that are all on disk, up to where the next segment starts. -/
theorem iterated_whole (stored : Stored trie sync) {index : Nat} {segment : Segment Value}
    (there : sync.segments[index]? = some segment)
    (complete : ∀ leaf ∈ trie.leaves, holds segment.range leaf.key = true → leaf ∈ sync.leaves) :
    ((sync.leaves.filter fun leaf => segment.range.start.getD 0 ≤ leaf.key).takeWhile fun leaf =>
        within segment.range.finish leaf.key) =
      trie.leaves.filter fun leaf => startOf (keys tails) sync.segments index ≤ leaf.key &&
        leaf.key < startOf (keys tails) sync.segments (index + 1) := by
  have iterated := Segments.iterateLeafs_eq stored.increasing (segment.range.start.getD 0) segment.range.finish
  refine iterated.trans ((filter_eq_of_stored stored.increasing stored.genuine complete).trans ?_)
  refine List.filter_congr fun leaf member => ?_
  rw [startOf_eq there, startOf_next stored.ranges there]
  rw [Bool.eq_iff_iff, Segments.holds_iff, Segments.within_iff (trie.bounded leaf member), Bool.and_eq_true, decide_eq_true_iff,
    decide_eq_true_iff, Nat.lt_succ_iff]

theorem startOf_le_next (stored : Stored trie sync) {index : Nat} {segment : Segment Value}
    (there : sync.segments[index]? = some segment) :
    startOf (keys tails) sync.segments index ≤ startOf (keys tails) sync.segments (index + 1) ∧
      startOf (keys tails) sync.segments (index + 1) ≤ keys tails := by
  have listed : segment.range ∈ sync.segments.map Segment.range := List.mem_map_of_mem (List.mem_of_getElem? there)
  obtain ⟨some_key, bounded⟩ := stored.ranges.finish _ listed
  rw [startOf_eq there, startOf_next stored.ranges there]
  omega

/-- After the last segment all leaves are hashed. -/
theorem Caught.all (caught : Caught trie sync) (ended : ¬ sync.segmentToHashNext < sync.segments.length) :
    sync.hashed = trie.leaves := by
  rw [caught, TrieToSync.reached, startOf, List.getElem?_eq_none (by omega), Option.elim_none]
  exact List.filter_eq_self.mpr fun leaf member => decide_eq_true (trie.bounded leaf member)

theorem Caught.initial (caught : Caught trie sync) (stored : Stored trie sync) : sync.hashed <+: trie.leaves := by
  rw [caught, TrieToSync.reached]
  refine filter_lt_initial trie ?_
  cases there : sync.segments[sync.segmentToHashNext]? with
  | none => rw [startOf, there, Option.elim_none]
  | some segment =>
    obtain ⟨ordered, bounded⟩ := startOf_le_next stored there
    exact ordered.trans bounded

/-- The next segment to hash, when it is done: its batch is written, and the stack trie gets its leaves. -/
theorem nextSegment_cases (accepts : Accepts stackTrie trie.leaves) (setting : Setting Node Root) (underway : Underway trie sync)
    (caught : Caught trie sync) (next_done : sync.segmentToHashNext ∈ sync.segmentsDone) {segment : Segment Value}
    (there : sync.segments[sync.segmentToHashNext]? = some segment)
    (complete : ∀ leaf ∈ trie.leaves, holds segment.range leaf.key = true → leaf ∈ sync.leaves ∨ leaf ∈ segment.batch) :
    ∃ error after, hashLeafs stackTrie setting segment.range.finish
        ((writeBatch sync.leaves segment.batch).filter fun leaf => segment.range.start.getD 0 ≤ leaf.key)
        { sync with
          leaves := writeBatch sync.leaves segment.batch
          segments := sync.segments.set sync.segmentToHashNext { segment with batch := [] } } = (error, after) ∧
      Underway trie after ∧ Same sync after ∧ after.segmentToHashNext = sync.segmentToHashNext ∧
      (error.isNone = true → Caught trie { after with segmentToHashNext := after.segmentToHashNext + 1 }) ∧
      (error.isSome = true → Stuck trie after) ∧ (sync.context = none → error.isNone = true ∧ after.context = none) := by
  have written := underway.write there
  have there_now : (sync.segments.set sync.segmentToHashNext { segment with batch := [] })[sync.segmentToHashNext]? =
      some { segment with batch := [] } := List.getElem?_set_self (lt_of_next_done underway next_done)
  have reached_now := startOf_set (keys tails) there (rfl : ({ segment with batch := [] } : Segment Value).range = _)
  have own (leaf : Leaf Value) (member : leaf ∈ segment.batch) : leaf ∈ trie.leaves := (underway.own _ _ there leaf member).1
  have whole := iterated_whole written.toStored there_now fun leaf member held =>
    (Segments.mem_writeBatch underway.genuine own).mpr (complete leaf member held)
  obtain ⟨ordered, bounded⟩ := startOf_le_next written.toStored there_now
  simp only [reached_now] at whole ordered bounded
  -- What is iterated is what was hashed before, up to the end of the segment.
  have joined := filter_append_filter trie.increasing ordered
  have later : ∀ given ∈ sync.hashed, ∀ leaf ∈ (writeBatch sync.leaves segment.batch).filter
      (fun leaf => segment.range.start.getD 0 ≤ leaf.key), given.key < leaf.key := by
    intro given member leaf listed
    rw [caught] at member
    have given_before := of_decide_eq_true (List.mem_filter.mp member).2
    have leaf_from := of_decide_eq_true (List.mem_filter.mp listed).2
    rw [TrieToSync.reached, startOf_eq there] at given_before
    omega
  obtain ⟨fed, error, after, looped, ⟨nodes, batch, context, rfl⟩, first, all, failed, never, -⟩ :=
    hashLeafs_cases accepts setting segment.range.finish (written.increasing.filter _)
      (fun leaf member => written.genuine leaf (List.mem_filter.mp member).1)
      { sync with
        leaves := writeBatch sync.leaves segment.batch
        segments := sync.segments.set sync.segmentToHashNext { segment with batch := [] } } later
  rw [whole] at first all
  refine ⟨error, _, looped, ⟨⟨written.ranges, written.increasing, written.genuine, written.own⟩, written.placed, written.before⟩,
    ⟨rfl, List.length_set, rfl, rfl⟩, rfl, fun fine => ?_, fun stopped => ?_, never⟩
  · rw [Caught, TrieToSync.reached, reached_now, all fine, caught]
    exact joined
  · obtain ⟨cancelled, some_onwards⟩ := failed stopped
    obtain ⟨leaf, listed⟩ := List.exists_mem_of_ne_nil _ some_onwards
    obtain ⟨on_disk, from_start⟩ := List.mem_filter.mp listed
    refine ⟨cancelled, next_done, ?_, leaf, on_disk, ?_⟩
    · have taken := (List.prefix_append_right_inj sync.hashed).mpr first
      rw [caught] at taken ⊢
      exact taken.trans (joined ▸ filter_lt_initial trie bounded)
    · rw [TrieToSync.reached, reached_now, startOf_eq there]
      exact of_decide_eq_true from_start

theorem Underway.next (underway : Underway trie sync) (next_done : sync.segmentToHashNext ∈ sync.segmentsDone) :
    Underway trie { sync with segmentToHashNext := sync.segmentToHashNext + 1 } where
  ranges := underway.ranges
  increasing := underway.increasing
  genuine := underway.genuine
  own := underway.own
  placed := underway.placed
  before := by
    intro index earlier
    rcases Nat.lt_succ_iff_lt_or_eq.mp earlier with below | rfl
    · exact underway.before index below
    · exact next_done

/-- The loop catches up with the segments that are done, as far as the context lets it. -/
theorem hashSegments_cases (accepts : Accepts stackTrie trie.leaves) (setting : Setting Node Root) {fuel : Nat}
    (underway : Underway trie sync) (caught : Caught trie sync) (enough : sync.segments.length ≤ sync.segmentToHashNext + fuel) :
    ∃ error after, hashSegments stackTrie setting fuel sync = (error, after) ∧ Underway trie after ∧ Same sync after ∧
      (error.isNone = true → Caught trie after ∧ after.segmentToHashNext ∉ after.segmentsDone) ∧
      (error.isSome = true → Stuck trie after) ∧ (sync.context = none → error.isNone = true ∧ after.context = none) := by
  induction fuel generalizing sync with
  | zero =>
    refine ⟨none, sync, rfl, underway, ⟨rfl, rfl, rfl, rfl⟩, fun _ => ⟨caught, fun next_done => ?_⟩, fun failed => (nomatch failed),
      fun never => ⟨rfl, never⟩⟩
    have := lt_of_next_done underway next_done
    omega
  | succ fuel ih =>
    unfold hashSegments
    by_cases next_done : sync.segmentToHashNext ∈ sync.segmentsDone
    · rw [if_pos next_done]
      obtain ⟨segment, there, complete⟩ := underway.placed _ next_done
      obtain ⟨error, between, looped, still, same, same_next, fine, stopped, never⟩ :=
        nextSegment_cases accepts setting underway caught next_done there complete
      simp only [there, looped]
      cases error with
      | some error => exact ⟨some error, between, rfl, still, same, fun fine => (nomatch fine), stopped, never⟩
      | none =>
        obtain ⟨same_done, same_length, same_commits, same_finishes⟩ := same
        have between_done : between.segmentToHashNext ∈ between.segmentsDone := by
          rw [same_next, same_done]
          exact next_done
        have enough_now : between.segments.length ≤ between.segmentToHashNext + 1 + fuel := by omega
        obtain ⟨error, after, onwards, still, same, fine, stopped, unending⟩ := ih (still.next between_done) (fine rfl) enough_now
        refine ⟨error, after, onwards, still, ⟨same.1.trans same_done, same.2.1.trans same_length, same.2.2.1.trans same_commits,
          same.2.2.2.trans same_finishes⟩, fine, stopped, fun unended => unending (never unended).2⟩
    · rw [if_neg next_done]
      exact ⟨none, sync, rfl, underway, ⟨rfl, rfl, rfl, rfl⟩, fun _ => ⟨caught, next_done⟩, fun failed => (nomatch failed),
        fun never => ⟨rfl, never⟩⟩

/-- After the context is cancelled in a segment, the loop ends at the first leaf. -/
theorem hashSegments_stuck (stackTrie : StackTrie Value Node Root Refusal) (setting : Setting Node Root) (fuel : Nat)
    (underway : Underway trie sync) (stuck : Stuck trie sync) :
    ∃ error after, hashSegments stackTrie setting (fuel + 1) sync = (some error, after) ∧ Underway trie after ∧ Same sync after ∧
      Stuck trie after := by
  obtain ⟨segment, there, -⟩ := underway.placed _ stuck.next_done
  obtain ⟨last, on_disk, from_start⟩ := stuck.goes_on
  have reached_now := startOf_set (keys tails) there (rfl : ({ segment with batch := [] } : Segment Value).range = _)
  have own (leaf : Leaf Value) (member : leaf ∈ segment.batch) : leaf ∈ trie.leaves := (underway.own _ _ there leaf member).1
  have still_there : last ∈ writeBatch sync.leaves segment.batch := (Segments.mem_writeBatch underway.genuine own).mpr (.inl on_disk)
  have some_onwards : (writeBatch sync.leaves segment.batch).filter (fun leaf => segment.range.start.getD 0 ≤ leaf.key) ≠ [] := by
    refine List.ne_nil_of_mem (List.mem_filter.mpr ⟨still_there, decide_eq_true ?_⟩)
    rwa [TrieToSync.reached, startOf_eq there] at from_start
  obtain ⟨leaf, rest, split⟩ := List.exists_cons_of_ne_nil some_onwards
  rw [hashSegments, if_pos stuck.next_done, there]
  simp only [split, hashLeafs, if_pos stuck.context]
  refine ⟨_, _, rfl, underway.write there, ⟨rfl, List.length_set, rfl, rfl⟩, stuck.context, stuck.next_done, stuck.first, last,
    still_there, ?_⟩
  rw [TrieToSync.reached, reached_now]
  exact from_start

/-! ## Every step -/

/-- The commit of all leaves, once all segments are hashed, and the call of OnFinish for the right root. -/
def Concluded [DecidableEq Root] (stackTrie : StackTrie Value Node Root Refusal) (setting : Setting Node Root)
    (trie : LeafTrie (keys tails) Value) (sync : TrieToSync Value Node Root) : Prop :=
  sync.commits = [(stackTrie.commit trie.leaves).1] ∧
    sync.finishes = if (stackTrie.commit trie.leaves).1 = setting.root then 1 else 0

def Unconcluded (sync : TrieToSync Value Node Root) : Prop := sync.commits = [] ∧ sync.finishes = 0

/-- What holds between the calls. -/
structure Sound [DecidableEq Root] (stackTrie : StackTrie Value Node Root Refusal) (setting : Setting Node Root)
    (trie : LeafTrie (keys tails) Value) (sync : TrieToSync Value Node Root) : Prop extends Underway trie sync where
  progress : (Caught trie sync ∧ sync.segmentToHashNext ∉ sync.segmentsDone ∧
      if sync.segmentToHashNext < sync.segments.length then Unconcluded sync else Concluded stackTrie setting trie sync) ∨
    (Stuck trie sync ∧ Unconcluded sync)

variable [DecidableEq Root]

theorem Begun.sound (some_tail : 0 < tails) (begun : Begun trie sync) : Sound stackTrie setting trie sync where
  toStored := begun.toStored
  placed := by
    rw [begun.segmentsDone]
    exact fun index finished => nomatch finished
  before := by
    rw [begun.segmentToHashNext]
    exact fun index earlier => absurd earlier (Nat.not_lt_zero index)
  progress := by
    have ranges := begun.ranges
    cases split : sync.segments with
    | nil =>
      rw [split] at ranges
      have : 0 = 65536 * tails := ranges
      omega
    | cons first rest =>
      rw [split] at ranges
      have starts : startOf (keys tails) sync.segments 0 = 0 := by
        rw [split]
        exact ranges.1
      refine .inl ⟨?_, ?_, ?_⟩
      · rw [Caught, TrieToSync.reached, begun.segmentToHashNext, starts, begun.hashed]
        exact (List.filter_eq_nil_iff.mpr fun leaf _ => by simp).symm
      · rw [begun.segmentsDone]
        exact List.not_mem_nil
      · rw [begun.segmentToHashNext, if_pos (List.length_pos_iff.mpr (List.cons_ne_nil _ _))]
        exact ⟨begun.commits, begun.finishes⟩

theorem commitTrie_cases (stackTrie : StackTrie Value Node Root Refusal) (setting : Setting Node Root)
    (sync : TrieToSync Value Node Root) : ∃ nodes batch markers, (commitTrie stackTrie setting sync).2 = { sync with
      nodes := nodes
      batch := batch
      markers := markers
      commits := sync.commits ++ [(stackTrie.commit sync.hashed).1]
      finishes := if (stackTrie.commit sync.hashed).1 = setting.root then sync.finishes + 1 else sync.finishes } := by
  unfold commitTrie
  by_cases right : (stackTrie.commit sync.hashed).1 = setting.root
  · simp only [if_pos right]
    split
    · exact ⟨_, _, _, rfl⟩
    · exact ⟨_, _, _, rfl⟩
  · simp only [if_neg right]
    exact ⟨_, _, _, rfl⟩

namespace Sound

theorem unconcluded (sound : Sound stackTrie setting trie sync) {index : Nat} (unfinished : index ∉ sync.segmentsDone)
    (inside : index < sync.segments.length) : Unconcluded sync := by
  rcases sound.progress with ⟨-, -, outcome⟩ | ⟨-, unconcluded⟩
  · have ahead : sync.segmentToHashNext ≤ index := by
      by_contra behind
      exact unfinished (sound.before index (by omega))
    rwa [if_pos (by omega)] at outcome
  · exact unconcluded

/-- A change of a segment and of the leaves on disk, as for Underway. -/
theorem update (sound : Sound stackTrie setting trie sync) {index : Nat} {segment changed : Segment Value}
    {leaves : List (Leaf Value)} (there : sync.segments[index]? = some segment) (same : changed.range = segment.range)
    (increasing : leaves.Pairwise fun first second => first.key < second.key) (genuine : ∀ leaf ∈ leaves, leaf ∈ trie.leaves)
    (own : ∀ leaf ∈ changed.batch, leaf ∈ trie.leaves ∧ holds changed.range leaf.key = true)
    (grows : ∀ leaf ∈ sync.leaves, leaf ∈ leaves) (kept : ∀ leaf ∈ segment.batch, leaf ∈ leaves ∨ leaf ∈ changed.batch) :
    Sound stackTrie setting trie { sync with leaves := leaves, segments := sync.segments.set index changed } where
  toUnderway := sound.toUnderway.update there same increasing genuine own grows kept
  progress := by
    have reached : startOf (keys tails) (sync.segments.set index changed) sync.segmentToHashNext = sync.reached tails :=
      startOf_set (keys tails) there same sync.segmentToHashNext
    rcases sound.progress with ⟨caught, next_left, outcome⟩ | ⟨stuck, unconcluded⟩
    · refine .inl ⟨?_, next_left, ?_⟩
      · rw [Caught, TrieToSync.reached, reached]
        exact caught
      · rw [List.length_set]
        exact outcome
    · obtain ⟨leaf, on_disk, from_start⟩ := stuck.goes_on
      exact .inr ⟨⟨stuck.context, stuck.next_done, stuck.first, leaf, grows leaf on_disk, reached.trans_le from_start⟩, unconcluded⟩

theorem onLeafs (sound : Sound stackTrie setting trie sync) {index : Nat} {leaves : List (Leaf Value)} {capped : Bool}
    {segment : Segment Value} (there : sync.segments[index]? = some segment)
    (own : ∀ leaf ∈ leaves, leaf ∈ trie.leaves ∧ holds segment.range leaf.key = true) :
    Sound stackTrie setting trie (Hashing.onLeafs index leaves capped sync) := by
  have inside : index < sync.segments.length := (List.getElem?_eq_some_iff.mp there).1
  have all_own : ∀ leaf ∈ segment.batch ++ leaves, leaf ∈ trie.leaves ∧ holds segment.range leaf.key = true := by
    intro leaf member
    exact (List.mem_append.mp member).elim (sound.own index segment there leaf) (own leaf)
  unfold Hashing.onLeafs
  simp only [there]
  split
  · have mem {leaf : Leaf Value} : leaf ∈ writeBatch sync.leaves (segment.batch ++ leaves) ↔
        leaf ∈ sync.leaves ∨ leaf ∈ segment.batch ++ leaves :=
      Segments.mem_writeBatch sound.genuine fun leaf member => (all_own leaf member).1
    refine sound.update there rfl (Segments.writeBatch_increasing sound.increasing)
      (fun leaf member => (mem.mp member).elim (sound.genuine leaf) fun listed => (all_own leaf listed).1)
      (fun leaf member => nomatch member) (fun leaf member => mem.mpr (.inl member))
      fun leaf member => .inl (mem.mpr (.inr (List.mem_append_left _ member)))
  · exact sound.update there rfl sound.increasing sound.genuine all_own (fun leaf member => member)
      fun leaf member => .inr (List.mem_append_left _ member)

theorem segmentFinished (accepts : Accepts stackTrie trie.leaves) (sound : Sound stackTrie setting trie sync) {index : Nat}
    (unfinished : index ∉ sync.segmentsDone) {segment : Segment Value} (there : sync.segments[index]? = some segment)
    (complete : ∀ leaf ∈ trie.leaves, holds segment.range leaf.key = true → leaf ∈ sync.leaves ∨ leaf ∈ segment.batch) :
    Sound stackTrie setting trie (Hashing.segmentFinished stackTrie setting index sync).2 := by
  have inside : index < sync.segments.length := (List.getElem?_eq_some_iff.mp there).1
  have unconcluded := sound.unconcluded unfinished inside
  have underway : Underway trie { sync with segmentsDone := index :: sync.segmentsDone } := {
    ranges := sound.ranges
    increasing := sound.increasing
    genuine := sound.genuine
    own := sound.own
    placed := by
      intro place finished
      rcases List.mem_cons.mp finished with rfl | earlier
      · exact ⟨segment, there, complete⟩
      · exact sound.placed place earlier
    before := fun place earlier => List.mem_cons_of_mem _ (sound.before place earlier) }
  unfold Hashing.segmentFinished
  rcases sound.progress with ⟨caught, -⟩ | ⟨stuck, -⟩
  · obtain ⟨error, after, looped, still, ⟨-, same_length, same_commits, same_finishes⟩, fine, stopped, -⟩ :=
      hashSegments_cases accepts setting underway caught (Nat.le_add_left sync.segments.length sync.segmentToHashNext)
    have unchanged : Unconcluded after := ⟨same_commits.trans unconcluded.1, same_finishes.trans unconcluded.2⟩
    simp only [looped]
    cases error with
    | some error => exact ⟨still, .inr ⟨stopped rfl, unchanged⟩⟩
    | none =>
      obtain ⟨caught_up, next_left⟩ := fine rfl
      dsimp only
      by_cases goes_on : after.segmentToHashNext < after.segments.length
      · rw [if_pos goes_on]
        exact ⟨still, .inl ⟨caught_up, next_left, by rwa [if_pos goes_on]⟩⟩
      · rw [if_neg goes_on]
        have all_hashed := caught_up.all goes_on
        obtain ⟨nodes, batch, markers, committed⟩ := commitTrie_cases stackTrie setting after
        rw [committed, all_hashed]
        refine ⟨⟨⟨still.ranges, still.increasing, still.genuine, still.own⟩, still.placed, still.before⟩,
          .inl ⟨all_hashed.symm.trans caught_up, next_left, ?_⟩⟩
        rw [if_neg goes_on]
        exact ⟨by rw [unchanged.1, List.nil_append], by rw [unchanged.2]⟩
  · have some_fuel : ∃ fuel, sync.segments.length = fuel + 1 := ⟨sync.segments.length - 1, by omega⟩
    obtain ⟨fuel, length⟩ := some_fuel
    obtain ⟨error, after, looped, still, ⟨-, -, same_commits, same_finishes⟩, still_stuck⟩ :=
      hashSegments_stuck stackTrie setting fuel underway
        ⟨stuck.context, List.mem_cons_of_mem _ stuck.next_done, stuck.first, stuck.goes_on⟩
    simp only [length, looped]
    exact ⟨still, .inr ⟨still_stuck, same_commits.trans unconcluded.1, same_finishes.trans unconcluded.2⟩⟩

end Sound

theorem sound_of_reach (accepts : Accepts stackTrie trie.leaves) (some_tail : 0 < tails)
    (reach : Reach (hashSystem trie stackTrie setting) (Allowed trie) sync) : Sound stackTrie setting trie sync := by
  refine reach.invariant (Sound stackTrie setting trie) (fun _ begun => Begun.sound some_tail begun) ?_
  rintro state action _ sound allowed rfl
  cases action with
  | onLeafs index leaves capped =>
    obtain ⟨-, segment, there, own⟩ := allowed
    exact sound.onLeafs there own
  | segmentFinished index =>
    obtain ⟨unfinished, segment, there, complete⟩ := allowed
    exact sound.segmentFinished accepts unfinished there complete

end

/-- The stack trie gets the leaves in the order of their keys and no other way, and all of them before the one commit, which the
last segment brings about unless the context is cancelled. OnFinish is for the right root. -/
theorem segments_hashed_in_order [DecidableEq Root] {tails : Nat} (some_tail : 0 < tails) (trie : LeafTrie (keys tails) Value)
    (stackTrie : StackTrie Value Node Root Refusal) (accepts : Accepts stackTrie trie.leaves) (setting : Setting Node Root)
    (state : TrieToSync Value Node Root) (reach : Reach (hashSystem trie stackTrie setting) (Allowed trie) state) :
    state.hashed <+: trie.leaves ∧ state.hashed.Pairwise (fun first second => first.key < second.key) ∧
    (state.commits ≠ [] → (∀ index < state.segments.length, index ∈ state.segmentsDone) ∧ state.hashed = trie.leaves ∧
      state.commits = [(stackTrie.commit trie.leaves).1]) ∧
    (state.context ≠ some 0 → (∀ index < state.segments.length, index ∈ state.segmentsDone) → state.commits ≠ []) ∧
    (state.finishes ≠ 0 → state.finishes = 1 ∧ state.commits = [setting.root]) := by
  have sound := sound_of_reach accepts some_tail reach
  have first : state.hashed <+: trie.leaves := by
    rcases sound.progress with ⟨caught, -⟩ | ⟨stuck, -⟩
    · exact caught.initial sound.toStored
    · exact stuck.first
  refine ⟨first, trie.increasing.sublist first.sublist, fun committed => ?_, fun uncancelled all_done => ?_, fun finished => ?_⟩
  · rcases sound.progress with ⟨caught, -, outcome⟩ | ⟨-, unconcluded⟩
    · by_cases ahead : state.segmentToHashNext < state.segments.length
      · rw [if_pos ahead] at outcome
        exact absurd outcome.1 committed
      · rw [if_neg ahead] at outcome
        exact ⟨fun index inside => sound.before index (by omega), caught.all ahead, outcome.1⟩
    · exact absurd unconcluded.1 committed
  · rcases sound.progress with ⟨-, next_left, outcome⟩ | ⟨stuck, -⟩
    · rw [if_neg fun ahead => next_left (all_done _ ahead)] at outcome
      rw [outcome.1]
      exact List.cons_ne_nil _ _
    · exact absurd stuck.context uncancelled
  · rcases sound.progress with ⟨-, -, outcome⟩ | ⟨-, unconcluded⟩
    · split at outcome
      · exact absurd outcome.2 finished
      · obtain ⟨commits, finishes⟩ := outcome
        split at finishes
        · rename_i right
          exact ⟨finishes, right ▸ commits⟩
        · exact absurd finishes finished
    · exact absurd unconcluded.2 finished

/-! ## A sample -/

def sampleTrie : LeafTrie (keys 1) Nat := ⟨[⟨5, 50⟩, ⟨40000, 7⟩, ⟨60000, 1⟩], by decide, by decide⟩

/-- The root is the sum of the values. -/
def sampleStackTrie : StackTrie Nat Nat Nat Unit where
  update given leaf := if given.all (fun earlier => earlier.key < leaf.key) then .ok [leaf.key] else .error ()
  commit given := ((given.map Leaf.val).sum, [given.length])

def sampleSetting : Setting Nat Nat := ⟨58, false, 1, List.length⟩

/-- The leaves of the second segment are on disk, that of the first one is in its batch. -/
def sampleSync : TrieToSync Nat Nat Nat where
  leaves := [⟨40000, 7⟩, ⟨60000, 1⟩]
  nodes := []
  markers := [32768]
  segments := [⟨⟨none, none, some 32767⟩, [⟨5, 50⟩], 1, true⟩, ⟨⟨some 32768, none, none⟩, [], 2, true⟩]
  segmentsDone := []
  segmentToHashNext := 0
  batch := []
  context := none
  hashed := []
  commits := []
  finishes := 0

/-- The second segment finishes first. -/
def sampleEnd : TrieToSync Nat Nat Nat :=
  step sampleStackTrie sampleSetting (step sampleStackTrie sampleSetting sampleSync (.segmentFinished 1)) (.segmentFinished 0)

theorem segments_hashed_in_order_sample :
    sampleEnd.hashed = sampleTrie.leaves ∧ sampleEnd.commits = [58] ∧ sampleEnd.finishes = 1 := by
  have accepts : Accepts sampleStackTrie sampleTrie.leaves := fun given leaf _ before =>
    ⟨[leaf.key], if_pos (List.all_eq_true.mpr fun earlier member => decide_eq_true (before earlier member))⟩
  have begun : Begun sampleTrie sampleSync := {
    ranges := ⟨rfl, by decide, by decide, rfl, by decide, by decide, rfl⟩
    increasing := by decide
    genuine := by decide
    own := by
      rintro (_ | _ | index) segment there
      · cases there
        decide
      · cases there
        decide
      · cases there
    segmentsDone := rfl
    segmentToHashNext := rfl
    hashed := rfl
    commits := rfl
    finishes := rfl }
  have second : Allowed sampleTrie sampleSync (.segmentFinished 1) := ⟨by decide, _, rfl, by decide⟩
  have first : Allowed sampleTrie (step sampleStackTrie sampleSetting sampleSync (.segmentFinished 1)) (.segmentFinished 0) :=
    ⟨by decide, _, rfl, by decide⟩
  have reach : Reach (hashSystem sampleTrie sampleStackTrie sampleSetting) (Allowed sampleTrie) sampleEnd :=
    .next (.next (.start begun) second rfl) first rfl
  obtain ⟨-, -, all_hashed, committed, finished⟩ :=
    segments_hashed_in_order (by decide) sampleTrie sampleStackTrie accepts sampleSetting sampleEnd reach
  have commits := committed (by decide) (by decide)
  exact ⟨(all_hashed commits).2.1, (all_hashed commits).2.2, (finished (by decide)).1⟩

end Snowside.Hashing
