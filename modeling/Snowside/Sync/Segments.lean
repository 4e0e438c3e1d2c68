import Snowside.Chain.Runs
import Snowside.Sync.Leaves

/-! The segments that a trie is split into, and those that a resumed sync finds on disk. -/

set_option autoImplicit false

namespace Snowside.Segments

open Leaves (Leaf LeafTrie RangeProofs Reply TrieSegment incrOne within truncate parseLeafsResponse)

variable {Value Proof : Type}

/-! ## Entries in the order of their keys -/

section

variable {Entry : Type}

/-- An entry takes the place of the one with its key. -/
def put (key : Entry → Nat) (entry : Entry) : List Entry → List Entry
  | [] => [entry]
  | other :: rest =>
    if key entry < key other then entry :: other :: rest
    else if key entry = key other then entry :: rest
    else other :: put key entry rest

variable {key : Entry → Nat} {entry : Entry}

theorem mem_put_self {entries : List Entry} : entry ∈ put key entry entries := by
  induction entries with
  | nil => exact List.mem_singleton_self entry
  | cons other rest ih =>
    unfold put
    split
    · exact List.mem_cons_self
    · split
      · exact List.mem_cons_self
      · exact List.mem_cons_of_mem _ ih

theorem mem_of_mem_put {entries : List Entry} {other : Entry} (member : other ∈ put key entry entries) :
    other = entry ∨ other ∈ entries := by
  induction entries with
  | nil => exact .inl (List.mem_singleton.mp member)
  | cons head rest ih =>
    unfold put at member
    split at member
    · exact List.mem_cons.mp member
    · split at member
      · exact (List.mem_cons.mp member).imp_right (List.mem_cons_of_mem _)
      · rcases List.mem_cons.mp member with here | later
        · exact .inr (here ▸ List.mem_cons_self)
        · exact (ih later).imp_right (List.mem_cons_of_mem _)

theorem mem_put_of_mem {entries : List Entry} {other : Entry} (member : other ∈ entries) (differs : key other ≠ key entry) :
    other ∈ put key entry entries := by
  induction entries with
  | nil => cases member
  | cons head rest ih =>
    unfold put
    split
    · exact List.mem_cons_of_mem _ member
    · split
      · rename_i same
        rcases List.mem_cons.mp member with here | later
        · rw [here] at differs
          exact absurd same.symm differs
        · exact List.mem_cons_of_mem _ later
      · rcases List.mem_cons.mp member with here | later
        · exact here ▸ List.mem_cons_self
        · exact List.mem_cons_of_mem _ (ih later)

theorem put_increasing {entries : List Entry} (increasing : entries.Pairwise fun first second => key first < key second) :
    (put key entry entries).Pairwise fun first second => key first < key second := by
  induction entries with
  | nil => exact List.pairwise_singleton _ entry
  | cons head rest ih =>
    have after := (List.pairwise_cons.mp increasing).1
    have rest_increasing := (List.pairwise_cons.mp increasing).2
    unfold put
    split
    · rename_i before
      refine List.pairwise_cons.mpr ⟨fun other member => ?_, increasing⟩
      rcases List.mem_cons.mp member with here | later
      · exact here ▸ before
      · exact before.trans (after other later)
    · split
      · rename_i same
        exact List.pairwise_cons.mpr ⟨fun other member => same ▸ after other member, rest_increasing⟩
      · refine List.pairwise_cons.mpr ⟨fun other member => ?_, ih rest_increasing⟩
        rcases mem_of_mem_put member with here | later
        · rw [here]
          omega
        · exact after other later

end

/-! ## The segments of a trie -/

def numMainTrieSegments : Nat := 8

def numStorageTrieSegments : Nat := 4

/-- If we estimate trie to have greater than this number of leafs, split it. -/
def segmentThreshold : Nat := 500000

/-- A key is two bytes and a tail; there are so many keys for so many tails. -/
def keys (tails : Nat) : Nat := 65536 * tails

/-- addPadding with zeroes. -/
def padZero (tails pos : Nat) : Nat := pos * tails

/-- addPadding with 0xff. -/
def padOnes (tails pos : Nat) : Nat := pos * tails + (tails - 1)

/-- The first two bytes. -/
def short (tails key : Nat) : Nat := key / tails

/-- A segment with the batch that its leaves are put into; fetched when the loop of syncTask is over. -/
structure Segment (Value : Type) where
  range : TrieSegment
  batch : List (Leaf Value)
  leafs : Nat
  fetched : Bool
  deriving DecidableEq, Repr

/-- A trie in memory: what the stack trie was given, and the markers that createSegments has still to write. -/
structure TrieToSync (Value : Type) where
  segments : List (Segment Value)
  segmentsDone : List Nat
  segmentToHashNext : Nat
  hashed : List (Leaf Value)
  unwritten : List Nat
  deriving DecidableEq, Repr

/-- The leaves in the snapshot and the starts of segments on disk, and the trie as it is in memory. -/
structure State (Value : Type) where
  leaves : List (Leaf Value)
  markers : List Nat
  trie : Option (TrieToSync Value)
  deriving DecidableEq, Repr

/-- addSegment -/
def addSegment (start finish : Option Nat) : Segment Value := ⟨⟨start, none, finish⟩, [], 0, false⟩

/-- IterateLeafs from the start, up to the end of the segment. -/
def iterateLeafs (leaves : List (Leaf Value)) (start : Nat) (finish : Option Nat) : List (Leaf Value) :=
  (leaves.filter fun leaf => decide (start ≤ leaf.key)).takeWhile fun leaf => within finish leaf.key

/-- The loop over the markers: each ends the segment before it. -/
def loadRanges (tails : Nat) (prevSegmentStart : Option Nat) : List Nat → List TrieSegment
  | [] => [⟨prevSegmentStart, none, none⟩]
  | segmentStart :: rest =>
    let segmentStartPos := short tails segmentStart
    ⟨prevSegmentStart, none, some (padOnes tails ((segmentStartPos + 65535) % 65536))⟩ ::
      loadRanges tails (some segmentStart) rest

/-- The position is right after the last key that is on disk. -/
def loadSegment (tails : Nat) (leaves : List (Leaf Value)) (range : TrieSegment) : Segment Value :=
  let found := iterateLeafs leaves (range.start.getD 0) range.finish
  { range := { range with pos := found.getLast?.map fun leaf => incrOne (keys tails) leaf.key }
    batch := []
    leafs := found.length
    fetched := false }

def loadSegments (tails : Nat) (leaves : List (Leaf Value)) (markers : List Nat) : TrieToSync Value :=
  ⟨(loadRanges tails none markers).map (loadSegment tails leaves), [], 0, [], []⟩

/-- estimateSize, on unsigned integers of 16 and of 64 bits. -/
def estimateSize (tails : Nat) (segment : Segment Value) : Nat :=
  let start := segment.range.start.elim 0 (short tails)
  let pos := segment.range.pos.elim 0 (short tails)
  let finish := segment.range.finish.elim 65535 (short tails)
  let progress := (pos + 65536 - start) % 65536
  if progress = 0 then 0
  else
    let left := (finish + 65536 - pos) % 65536
    segment.leafs * left % 2 ^ 64 / progress

/-- shouldSegment: only a trie with one segment. -/
def shouldSegment (tails : Nat) : List (Segment Value) → Bool
  | [segment] => decide (segmentThreshold ≤ estimateSize tails segment)
  | _ => false

/-- The loop of createSegments: the end of the first segment, and the segments that are added. -/
def createLoop (tails segmentStep : Nat) (pos : Option Nat) : List Nat → Option Nat → Option Nat × List TrieSegment
  | [], finish => (finish, [])
  | window :: rest, finish =>
    let startBytes := padZero tails (window * segmentStep % 65536)
    let endBytes := padOnes tails ((window * segmentStep + (segmentStep - 1)) % 65536)
    -- Skip any portion of the trie that has already been synced.
    if pos.any fun pos => decide (endBytes ≤ pos) then createLoop tails segmentStep pos rest finish
    else
      match finish with
      | none => createLoop tails segmentStep pos rest (some endBytes)
      | some finish =>
        let (finish, added) := createLoop tails segmentStep pos rest (some finish)
        (finish, ⟨some startBytes, none, some endBytes⟩ :: added)

/-- createSegments on the segment that is syncing. -/
def createSegments (tails numSegments : Nat) (segment : TrieSegment) : TrieSegment × List TrieSegment :=
  let (finish, added) := createLoop tails (65536 / numSegments) segment.pos (List.range numSegments) segment.finish
  ({ segment with finish := finish }, added)

/-- createSegmentsIfNeeded: the starts of the added segments are still to be written. -/
def createSegmentsIfNeeded (tails numSegments : Nat) (segments : List (Segment Value)) : List (Segment Value) × List Nat :=
  match segments with
  | [segment] =>
    if shouldSegment tails [segment] then
      let (range, added) := createSegments tails numSegments segment.range
      ({ segment with range := range } :: added.map (fun range => addSegment range.start range.finish),
        added.map fun range => range.start.getD 0)
    else ([segment], [])
  | _ => (segments, [])

/-! ## Steps -/

/-- batch.Write -/
def writeBatch (leaves batch : List (Leaf Value)) : List (Leaf Value) :=
  batch.foldl (fun leaves leaf => put Leaf.key leaf leaves) leaves

/-- trieSegment.OnLeafs up to createSegmentsIfNeeded, without the write of the batch. -/
def Segment.onLeafs (tails : Nat) (segment : Segment Value) (leaves : List (Leaf Value)) : Segment Value :=
  { segment with
    range := (Leaves.onLeafs (keys tails) segment.range leaves).1
    batch := segment.batch ++ leaves
    leafs := segment.leafs + leaves.length }

/-- The start of the next request is the last key, advanced in place; it is the position as well. -/
def Segment.advance (tails : Nat) (segment : Segment Value) : Segment Value :=
  { segment with range := { segment.range with pos := segment.range.pos.map (incrOne (keys tails)) } }

inductive Action (Value Proof : Type) where
  /-- A response for a segment, and whether the batch has passed its cap. -/
  | onLeafs (index : Nat) (leaves : List (Leaf Value)) (proof : Option Proof) (capped : Bool)
  | writeSyncSegment
  | segmentFinished (index : Nat)
  /-- The sync stops at any point, and NewTrieToSync starts from what is on disk. -/
  | resume

section

variable {tails : Nat} {trie : LeafTrie (keys tails) Value}

/-- One turn of the loop of syncTask. -/
def turn (proofs : RangeProofs trie Proof) (requestSize numSegments : Nat) (state : State Value) (sync : TrieToSync Value)
    (index : Nat) (leaves : List (Leaf Value)) (proof : Option Proof) (capped : Bool) : Option (State Value) :=
  match sync.segments[index]? with
  | none => none
  | some segment =>
    if segment.fetched || !sync.unwritten.isEmpty then none
    else
      match parseLeafsResponse proofs requestSize segment.range.firstKey ⟨leaves, proof, none⟩ with
      | none => none
      | some more =>
        let kept := truncate segment.range.finish leaves
        let done := decide (kept.length < leaves.length)
        let taken := segment.onLeafs tails kept
        let written := if capped then writeBatch state.leaves taken.batch else state.leaves
        let held := if capped then { taken with batch := [] } else taken
        let (segments, unwritten) := createSegmentsIfNeeded tails numSegments (sync.segments.set index held)
        if done || !more then
          let segments := segments.modify index fun segment => { segment with fetched := true }
          some { state with leaves := written, trie := some { sync with segments := segments, unwritten := unwritten } }
        else if kept.isEmpty then none
        else
          let segments := segments.modify index (Segment.advance tails)
          some { state with leaves := written, trie := some { sync with segments := segments, unwritten := unwritten } }

/-- The loop of segmentFinished: the segments that are done, in order, are written and given to the stack trie. -/
def hashSegments : Nat → List (Leaf Value) → TrieToSync Value → List (Leaf Value) × TrieToSync Value
  | 0, leaves, sync => (leaves, sync)
  | fuel + 1, leaves, sync =>
    match sync.segments[sync.segmentToHashNext]? with
    | none => (leaves, sync)
    | some segment =>
      if sync.segmentToHashNext ∈ sync.segmentsDone then
        let written := writeBatch leaves segment.batch
        hashSegments fuel written
          { sync with
            segments := sync.segments.set sync.segmentToHashNext { segment with batch := [] }
            hashed := sync.hashed ++ iterateLeafs written (segment.range.start.getD 0) segment.range.finish
            segmentToHashNext := sync.segmentToHashNext + 1 }
      else (leaves, sync)

/-- segmentFinished: the root is right when the leaves are the trie's, and then the markers go. Without a trie in memory the
sync is over, with success or not. -/
def segmentFinished [DecidableEq Value] (trie : LeafTrie (keys tails) Value) (state : State Value) (sync : TrieToSync Value)
    (index : Nat) : Option (State Value) :=
  match sync.segments[index]? with
  | none => none
  | some segment =>
    if segment.fetched && sync.unwritten.isEmpty && !decide (index ∈ sync.segmentsDone) then
      let (written, hashing) :=
        hashSegments sync.segments.length state.leaves { sync with segmentsDone := index :: sync.segmentsDone }
      if hashing.segmentToHashNext < hashing.segments.length then some { state with leaves := written, trie := some hashing }
      else some ⟨written, if hashing.hashed = trie.leaves then [] else state.markers, none⟩
    else none

def step [DecidableEq Value] (proofs : RangeProofs trie Proof) (requestSize numSegments : Nat) (state : State Value) :
    Action Value Proof → Option (State Value)
  | .onLeafs index leaves proof capped =>
    state.trie.bind fun sync => turn proofs requestSize numSegments state sync index leaves proof capped
  | .writeSyncSegment =>
    state.trie.bind fun sync =>
      match sync.unwritten with
      | [] => none
      | start :: rest =>
        some { state with markers := put id start state.markers, trie := some { sync with unwritten := rest } }
  | .segmentFinished index => state.trie.bind fun sync => segmentFinished trie state sync index
  | .resume => some { state with trie := some (loadSegments tails state.leaves state.markers) }

end

end Snowside.Segments
