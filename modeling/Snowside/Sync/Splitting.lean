import Snowside.Sync.Ranges

/-! The leaves of a trie that is split into segments and resumed, in any run. -/

set_option autoImplicit false

namespace Snowside.Segments

open Leaves (Leaf LeafTrie RangeProofs TrieSegment incrOne truncate parseLeafsResponse within within_some within_of_le eq_of_key
  le_getLast)

variable {Value : Type} {tails : Nat}

/-! ## What is on disk, and where the segments are -/

section

variable {trie : LeafTrie (keys tails) Value}

/-- The leaves on disk are the trie's, and there are no gaps between them but at the start of a segment. -/
structure OnDisk (trie : LeafTrie (keys tails) Value) (leaves : List (Leaf Value)) (markers : List Nat) : Prop where
  increasing : leaves.Pairwise fun first second => first.key < second.key
  genuine : ∀ leaf ∈ leaves, leaf ∈ trie.leaves
  marked : Marked tails markers
  closed : ∀ leaf ∈ trie.leaves, ∀ other ∈ leaves, leaf.key ≤ other.key →
    (∀ marker ∈ markers, marker ≤ leaf.key ∨ other.key < marker) → leaf ∈ leaves

/-- A segment has the leaves of its range from before its position, on disk or in its batch, and no other. -/
structure Placed (trie : LeafTrie (keys tails) Value) (leaves : List (Leaf Value)) (segment : Segment Value) : Prop where
  own : ∀ leaf ∈ segment.batch, leaf ∈ trie.leaves ∧ holds segment.range leaf.key = true
  inside : segment.fetched = false → segment.range.start.getD 0 ≤ segment.range.firstKey.getD 0
  position : segment.fetched = false → ∀ leaf ∈ trie.leaves, holds segment.range leaf.key = true →
    (leaf.key < segment.range.firstKey.getD 0 ↔ leaf ∈ leaves ∨ leaf ∈ segment.batch)
  complete : segment.fetched = true → ∀ leaf ∈ trie.leaves, holds segment.range leaf.key = true →
    leaf ∈ leaves ∨ leaf ∈ segment.batch

/-- The segments of a trie in memory. -/
structure Live (trie : LeafTrie (keys tails) Value) (leaves : List (Leaf Value)) (markers : List Nat)
    (sync : TrieToSync Value) : Prop where
  ranges : Consecutive (keys tails) 0 (sync.segments.map Segment.range)
  starts : ∀ (index : Nat) segment, sync.segments[index + 1]? = some segment →
    ∃ pos, segment.range.start = some (padZero tails pos) ∧ (padZero tails pos ∈ markers ∨ padZero tails pos ∈ sync.unwritten)
  unwritten : ∀ marker ∈ sync.unwritten, ∃ pos, marker = padZero tails pos ∧ 0 < pos ∧ pos < 65536
  placed : ∀ (index : Nat) segment, sync.segments[index]? = some segment → Placed trie leaves segment
  hashed : ∀ leaf ∈ sync.hashed, leaf ∈ leaves

theorem iterateLeafs_eq {leaves : List (Leaf Value)} (increasing : leaves.Pairwise fun first second => first.key < second.key)
    (start : Nat) (finish : Option Nat) :
    iterateLeafs leaves start finish = leaves.filter fun leaf => decide (start ≤ leaf.key) && within finish leaf.key := by
  have cut (entries : List (Leaf Value)) (ordered : entries.Pairwise fun first second => first.key < second.key) :
      entries.takeWhile (fun leaf => within finish leaf.key) = entries.filter fun leaf => within finish leaf.key := by
    induction entries with
    | nil => rfl
    | cons head rest ih =>
      have after := List.pairwise_cons.mp ordered
      cases inside : within finish head.key with
      | true => rw [List.takeWhile_cons, List.filter_cons, if_pos inside, if_pos inside, ih after.2]
      | false =>
        rw [List.takeWhile_cons, List.filter_cons, if_neg (by simp [inside]), if_neg (by simp [inside])]
        refine (List.filter_eq_nil_iff.mpr fun other member => ?_).symm
        intro other_inside
        have := within_of_le other_inside (Nat.le_of_lt (after.1 other member))
        rw [inside] at this
        cases this
  unfold iterateLeafs
  rw [cut _ (increasing.sublist List.filter_sublist), List.filter_filter]
  exact List.filter_congr fun leaf _ => Bool.and_comm _ _

theorem mem_iterateLeafs {leaves : List (Leaf Value)} (increasing : leaves.Pairwise fun first second => first.key < second.key)
    {range : TrieSegment} {leaf : Leaf Value} :
    leaf ∈ iterateLeafs leaves (range.start.getD 0) range.finish ↔ leaf ∈ leaves ∧ holds range leaf.key = true := by
  rw [iterateLeafs_eq increasing, List.mem_filter]
  rfl

/-- What is found on disk is a trie whose segments are placed, unless there is a leaf at the last key. -/
theorem OnDisk.live (some_tail : 0 < tails) {leaves : List (Leaf Value)} {markers : List Nat} (disk : OnDisk trie leaves markers)
    (no_last : ∀ leaf ∈ leaves, leaf.key + 1 < keys tails) : Live trie leaves markers (loadSegments tails leaves markers) := by
  have some_key : 0 < keys tails := Nat.mul_pos (by decide) some_tail
  have consecutive : Consecutive (keys tails) 0 (loadRanges tails none markers) := by
    refine @loadRanges_consecutive tails some_tail markers none disk.marked (fun marker member => ?_) some_key
    obtain ⟨pos, rfl, positive, -⟩ := disk.marked.padded marker member
    exact Nat.mul_pos positive some_tail
  have ranges : Consecutive (keys tails) 0 ((loadSegments tails leaves markers).segments.map Segment.range) := by
    unfold loadSegments
    rw [List.map_map]
    exact consecutive.map (fun range => rfl) fun range => rfl
  refine ⟨ranges, ?_, fun marker member => (by cases member), ?_, fun leaf member => (by cases member)⟩
  · intro index segment there
    unfold loadSegments at there
    rw [List.getElem?_map, Option.map_eq_some_iff] at there
    obtain ⟨range, found, rfl⟩ := there
    rw [← List.getElem?_tail] at found
    obtain ⟨marker, member, starts⟩ := start_of_loadRanges range (List.mem_of_getElem? found)
    obtain ⟨pos, rfl, -, -⟩ := disk.marked.padded marker member
    exact ⟨pos, starts, .inl member⟩
  · intro index segment there
    unfold loadSegments at there
    rw [List.getElem?_map, Option.map_eq_some_iff] at there
    obtain ⟨range, found, rfl⟩ := there
    have unset := pos_of_loadRanges range (List.mem_of_getElem? found)
    refine ⟨fun leaf member => (by cases member), fun _ => ?_, fun _ leaf member held => ?_,
      fun impossible => (by cases impossible)⟩
    · show range.start.getD 0 ≤
        (Option.or (Option.map _ (iterateLeafs leaves (range.start.getD 0) range.finish).getLast?) range.start).getD 0
      cases final : (iterateLeafs leaves (range.start.getD 0) range.finish).getLast? with
      | none => exact Nat.le_refl _
      | some last =>
        obtain ⟨last_on_disk, last_held⟩ := (mem_iterateLeafs disk.increasing).mp (List.mem_of_getLast? final)
        have next : incrOne (keys tails) last.key = last.key + 1 := Nat.mod_eq_of_lt (no_last last last_on_disk)
        have late := (holds_iff.mp last_held).1
        rw [Option.map_some, next]
        show range.start.getD 0 ≤ last.key + 1
        omega
    have held : holds range leaf.key = true := held
    show leaf.key <
        (Option.or (Option.map _ (iterateLeafs leaves (range.start.getD 0) range.finish).getLast?) range.start).getD 0 ↔
      leaf ∈ leaves ∨ leaf ∈ []
    rw [or_iff_left List.not_mem_nil]
    cases final : (iterateLeafs leaves (range.start.getD 0) range.finish).getLast? with
    | none =>
      have nothing := List.getLast?_eq_none_iff.mp final
      have late := (holds_iff.mp held).1
      have absent : leaf ∉ leaves := fun on_disk => by
        have listed := (mem_iterateLeafs disk.increasing).mpr ⟨on_disk, held⟩
        rw [nothing] at listed
        cases listed
      rw [Option.map_none, Option.none_or, iff_false_right absent]
      omega
    | some last =>
      have listed := List.mem_of_getLast? final
      obtain ⟨last_on_disk, last_held⟩ := (mem_iterateLeafs disk.increasing).mp listed
      have increasing : (iterateLeafs leaves (range.start.getD 0) range.finish).Pairwise
          fun first second => first.key < second.key := by
        rw [iterateLeafs_eq disk.increasing]
        exact disk.increasing.sublist List.filter_sublist
      have next : incrOne (keys tails) last.key = last.key + 1 := Nat.mod_eq_of_lt (no_last last last_on_disk)
      rw [Option.map_some, next]
      show leaf.key < last.key + 1 ↔ leaf ∈ leaves
      constructor
      · intro early
        refine disk.closed leaf member last last_on_disk (by omega) fun marker marked => ?_
        -- The marker starts a range, and this range is not another one than theirs.
        by_contra between
        obtain ⟨other, other_there, starts⟩ := @marker_of_loadRanges tails markers none marker marked
        obtain ⟨place, other_found⟩ := List.mem_iff_getElem?.mp other_there
        have bounded := trie.bounded last (disk.genuine last last_on_disk)
        have here : holds range marker = true :=
          holds_iff.mpr ⟨by have := (holds_iff.mp held).1; omega, within_of_le (holds_iff.mp last_held).2 (by omega)⟩
        have other_here : holds other marker = true := by
          have nonempty := (consecutive.finish other other_there).1
          rw [starts, Option.getD_some] at nonempty
          exact holds_iff.mpr ⟨starts ▸ Nat.le_refl marker, (within_iff (by omega)).mpr nonempty⟩
        have one := consecutive.same found other_found here other_here (by omega)
        rw [one, other_found] at found
        cases found
        have late := (holds_iff.mp held).1
        rw [starts, Option.getD_some] at late
        omega
      · intro on_disk
        have := le_getLast increasing final leaf ((mem_iterateLeafs disk.increasing).mpr ⟨on_disk, held⟩)
        omega

/-! ## Batches -/

variable {leaves : List (Leaf Value)} {markers : List Nat} {sync : TrieToSync Value}

theorem mem_writeBatch {batch : List (Leaf Value)} (genuine : ∀ leaf ∈ leaves, leaf ∈ trie.leaves)
    (own : ∀ leaf ∈ batch, leaf ∈ trie.leaves) {leaf : Leaf Value} :
    leaf ∈ writeBatch leaves batch ↔ leaf ∈ leaves ∨ leaf ∈ batch := by
  induction batch generalizing leaves with
  | nil =>
    show leaf ∈ leaves ↔ _
    rw [or_iff_left List.not_mem_nil]
  | cons first rest ih =>
    have first_own := own first List.mem_cons_self
    have put_iff {other : Leaf Value} : other ∈ put Leaf.key first leaves ↔ other = first ∨ other ∈ leaves := by
      refine ⟨mem_of_mem_put, ?_⟩
      rintro (rfl | member)
      · exact mem_put_self
      · by_cases same : other.key = first.key
        · rw [eq_of_key trie.increasing (genuine other member) first_own same]
          exact mem_put_self
        · exact mem_put_of_mem member same
    have put_genuine : ∀ other ∈ put Leaf.key first leaves, other ∈ trie.leaves := by
      intro other member
      rcases put_iff.mp member with rfl | member
      · exact first_own
      · exact genuine other member
    show leaf ∈ writeBatch (put Leaf.key first leaves) rest ↔ _
    rw [ih put_genuine fun other member => own other (List.mem_cons_of_mem _ member), put_iff, List.mem_cons]
    tauto

theorem writeBatch_increasing {batch : List (Leaf Value)}
    (increasing : leaves.Pairwise fun first second => first.key < second.key) :
    (writeBatch leaves batch).Pairwise fun first second => first.key < second.key := by
  induction batch generalizing leaves with
  | nil => exact increasing
  | cons first rest ih => exact ih (put_increasing increasing)

theorem OnDisk.write {batch : List (Leaf Value)} (disk : OnDisk trie leaves markers) (own : ∀ leaf ∈ batch, leaf ∈ trie.leaves)
    (closed : ∀ leaf ∈ trie.leaves, ∀ other ∈ batch, leaf.key ≤ other.key →
      (∀ marker ∈ markers, marker ≤ leaf.key ∨ other.key < marker) → leaf ∈ leaves ∨ leaf ∈ batch) :
    OnDisk trie (writeBatch leaves batch) markers := by
  have mem {leaf : Leaf Value} : leaf ∈ writeBatch leaves batch ↔ leaf ∈ leaves ∨ leaf ∈ batch :=
    mem_writeBatch disk.genuine own
  refine ⟨writeBatch_increasing disk.increasing, fun leaf member => ?_, disk.marked,
    fun leaf member other there before free => ?_⟩
  · exact (mem.mp member).elim (disk.genuine leaf) (own leaf)
  · refine mem.mpr ?_
    rcases mem.mp there with there | there
    · exact .inl (disk.closed leaf member other there before free)
    · exact closed leaf member other there before free

/-- What comes before a key of a segment, with no marker between, is of the segment. -/
theorem Live.holds_before (live : Live trie leaves markers sync) (written : sync.unwritten = []) {index : Nat}
    {segment : Segment Value} (there : sync.segments[index]? = some segment) {key other : Nat}
    (held : holds segment.range other = true) (before : key ≤ other)
    (free : ∀ marker ∈ markers, marker ≤ key ∨ other < marker) : holds segment.range key = true := by
  obtain ⟨late, inside⟩ := holds_iff.mp held
  refine holds_iff.mpr ⟨?_, within_of_le inside before⟩
  cases index with
  | zero =>
    have ranges := live.ranges
    cases whole : sync.segments with
    | nil =>
      rw [whole] at there
      cases there
    | cons head rest =>
      rw [whole] at there ranges
      cases there
      have first := ranges.1
      omega
  | succ index =>
    obtain ⟨pos, starts, marked⟩ := live.starts index segment there
    rw [written, or_iff_left List.not_mem_nil] at marked
    rw [starts, Option.getD_some] at late ⊢
    have := free _ marked
    omega

theorem Placed.frame {segment : Segment Value} {after : List (Leaf Value)} (placed : Placed trie leaves segment)
    (same : ∀ leaf ∈ trie.leaves, holds segment.range leaf.key = true → (leaf ∈ after ↔ leaf ∈ leaves)) :
    Placed trie after segment := by
  refine ⟨placed.own, placed.inside, fun unfetched leaf member held => ?_, fun fetched leaf member held => ?_⟩
  · rw [same leaf member held]
    exact placed.position unfetched leaf member held
  · rw [same leaf member held]
    exact placed.complete fetched leaf member held

theorem set_cases {Entry : Type} {entries : List Entry} {index place : Nat} {entry found : Entry}
    (there : (entries.set index entry)[place]? = some found) :
    (place = index ∧ found = entry) ∨ (place ≠ index ∧ entries[place]? = some found) := by
  by_cases same : place = index
  · rw [same] at there
    rw [List.getElem?_set_self'] at there
    obtain ⟨-, -, rfl⟩ := Option.map_eq_some_iff.mp there
    exact .inl ⟨same, rfl⟩
  · rw [List.getElem?_set_ne fun other => same other.symm] at there
    exact .inr ⟨same, there⟩

/-- A change of one segment, with leaves of its range going to the disk. -/
theorem Live.update (live : Live trie leaves markers sync) {index : Nat} {segment changed : Segment Value}
    {after : List (Leaf Value)} (there : sync.segments[index]? = some segment)
    (starts : changed.range.start = segment.range.start) (finishes : changed.range.finish = segment.range.finish)
    (placed : Placed trie after changed) (grows : ∀ leaf ∈ leaves, leaf ∈ after)
    (only : ∀ leaf ∈ after, leaf ∈ leaves ∨ holds segment.range leaf.key = true) :
    Live trie after markers { sync with segments := sync.segments.set index changed } := by
  refine ⟨?_, fun place other found => ?_, live.unwritten, fun place other found => ?_,
    fun leaf member => grows leaf (live.hashed leaf member)⟩
  · show Consecutive (keys tails) 0 ((sync.segments.set index changed).map Segment.range)
    rw [List.map_set]
    have found : (sync.segments.map Segment.range)[index]? = some segment.range := by
      rw [List.getElem?_map, there, Option.map_some]
    exact live.ranges.set found starts finishes
  · rcases set_cases found with ⟨same, rfl⟩ | ⟨-, found⟩
    · rw [starts]
      exact live.starts place segment (same ▸ there)
    · exact live.starts place other found
  · rcases set_cases found with ⟨-, rfl⟩ | ⟨differs, found⟩
    · exact placed
    · refine (live.placed place other found).frame fun leaf member held => ⟨fun later => ?_, grows leaf⟩
      refine (only leaf later).resolve_right fun here => differs ?_
      have other_found : (sync.segments.map Segment.range)[place]? = some other.range := by
        rw [List.getElem?_map, found, Option.map_some]
      have this_found : (sync.segments.map Segment.range)[index]? = some segment.range := by
        rw [List.getElem?_map, there, Option.map_some]
      exact live.ranges.same other_found this_found held here (trie.bounded leaf member)

/-! ## One turn -/

variable {Proof : Type} {proofs : RangeProofs trie Proof} {requestSize numSegments : Nat}

/-- A segment after OnLeafs, with the leaves that are on disk or in its batch; closes when this was the last response. -/
structure Turned (trie : LeafTrie (keys tails) Value) (covered : Leaf Value → Prop) (response : List (Leaf Value))
    (range : TrieSegment) (closes : Bool) : Prop where
  reached : ∀ pos, range.pos = some pos → 0 < pos → ∀ leaf ∈ trie.leaves, holds range leaf.key = true → covered leaf →
    leaf.key < pos
  complete : closes = true → ∀ leaf ∈ trie.leaves, holds range leaf.key = true → covered leaf
  position : closes = false → ∃ last, response.getLast? = some last ∧ (∃ later ∈ trie.leaves, last.key < later.key) ∧
    holds range last.key = true ∧ range.pos = some (last.key + 1) ∧
    ∀ leaf ∈ trie.leaves, holds range leaf.key = true → (leaf.key < last.key + 1 ↔ covered leaf)

/-- Leaves that are covered have those before them covered. -/
theorem Turned.closed {covered : Leaf Value → Prop} {response : List (Leaf Value)} {range : TrieSegment} {closes : Bool}
    (turned : Turned trie covered response range closes) {leaf other : Leaf Value} (member : leaf ∈ trie.leaves)
    (other_member : other ∈ trie.leaves) (held : holds range leaf.key = true) (other_held : holds range other.key = true)
    (there : covered other) (before : leaf.key ≤ other.key) : covered leaf := by
  cases closes with
  | true => exact turned.complete rfl leaf member held
  | false =>
    obtain ⟨last, -, -, -, -, position⟩ := turned.position rfl
    have := (position other other_member other_held).mpr there
    exact (position leaf member held).mp (by omega)

theorem onLeafs_pos {segment : TrieSegment} {kept : List (Leaf Value)} :
    (kept = [] ∧ (Leaves.onLeafs (keys tails) segment kept).1 = segment) ∨
      ∃ last, kept.getLast? = some last ∧
        (Leaves.onLeafs (keys tails) segment kept).1 = { segment with pos := some (incrOne (keys tails) last.key) } := by
  unfold Leaves.onLeafs
  cases final : kept.getLast? with
  | none => exact .inl ⟨List.getLast?_eq_none_iff.mp final, rfl⟩
  | some last => exact .inr ⟨last, rfl, rfl⟩

theorem onLeafs_range {segment : TrieSegment} {kept : List (Leaf Value)} :
    (Leaves.onLeafs (keys tails) segment kept).1.start = segment.start ∧
      (Leaves.onLeafs (keys tails) segment kept).1.finish = segment.finish := by
  rcases @onLeafs_pos _ tails segment kept with ⟨-, same⟩ | ⟨last, -, same⟩
  · rw [same]
    exact ⟨rfl, rfl⟩
  · rw [same]
    exact ⟨rfl, rfl⟩

/-- A position that is not zero is right after the last key. -/
theorem incrOne_pos {size key : Nat} (bounded : key < size) (positive : 0 < incrOne size key) : incrOne size key = key + 1 := by
  unfold incrOne at positive ⊢
  refine Nat.mod_eq_of_lt ?_
  by_contra full
  rw [show key + 1 = size by omega, Nat.mod_self] at positive
  omega

/-- What a response does to a segment that is placed. -/
theorem onLeafs_turned {segment : Segment Value} {response : List (Leaf Value)} {proof : Option Proof} {more : Bool}
    (placed : Placed trie leaves segment) (unfetched : segment.fetched = false)
    (parsed : parseLeafsResponse proofs requestSize segment.range.firstKey ⟨response, proof, none⟩ = some more)
    (whole : proof = none → ∀ leaf ∈ trie.leaves, within segment.range.finish leaf.key = true →
      segment.range.start.getD 0 ≤ leaf.key) :
    (∀ leaf ∈ truncate segment.range.finish response, leaf ∈ trie.leaves ∧ holds segment.range leaf.key = true) ∧
      Turned trie (fun leaf => leaf ∈ leaves ∨ leaf ∈ segment.batch ++ truncate segment.range.finish response) response
        (Leaves.onLeafs (keys tails) segment.range (truncate segment.range.finish response)).1
        (decide ((truncate segment.range.finish response).length < response.length) || !more) := by
  have increasing : response.Pairwise fun first second => first.key < second.key := Leaves.parse_increasing parsed
  have kept := Leaves.truncate_eq_filter segment.range.finish increasing
  have kept_increasing : (truncate segment.range.finish response).Pairwise fun first second => first.key < second.key :=
    kept ▸ increasing.sublist List.filter_sublist
  have mem_kept {leaf : Leaf Value} : leaf ∈ truncate segment.range.finish response ↔
      leaf ∈ response ∧ within segment.range.finish leaf.key = true := by
    rw [kept, List.mem_filter]
  -- The position does not change what the segment holds.
  have holds_same (key : Nat) :
      holds (Leaves.onLeafs (keys tails) segment.range (truncate segment.range.finish response)).1 key =
        holds segment.range key := holds_congr onLeafs_range.1 onLeafs_range.2 key
  have position := placed.position unfetched
  -- A response that is accepted covers the segment up to some key, and brings nothing else.
  have covers : (∀ leaf ∈ trie.leaves, holds segment.range leaf.key = true →
        (leaf ∈ leaves ∨ leaf ∈ segment.batch ++ truncate segment.range.finish response ↔
          leaf.key < segment.range.firstKey.getD 0 ∨ leaf ∈ truncate segment.range.finish response)) := by
    intro leaf member held
    rw [position leaf member held, List.mem_append, or_assoc]
  have own : ∀ leaf ∈ truncate segment.range.finish response, leaf ∈ trie.leaves ∧ holds segment.range leaf.key = true := by
    intro leaf member
    obtain ⟨there, inside⟩ := mem_kept.mp member
    rcases Leaves.parse_cases parsed with ⟨unproven, all, -⟩ | ⟨-, nothing, -, -⟩ | ⟨-, last, -, between, -⟩
    · have all : response = trie.leaves := all
      rw [all] at there
      exact ⟨there, holds_iff.mpr ⟨whole unproven leaf there inside, inside⟩⟩
    · have nothing : response = [] := nothing
      rw [nothing] at there
      cases there
    · have between : response = trie.range (segment.range.firstKey.getD 0) (some last.key) := between
      rw [between] at there
      obtain ⟨member, late, -⟩ := Leaves.mem_range.mp there
      have := placed.inside unfetched
      exact ⟨member, holds_iff.mpr ⟨by omega, inside⟩⟩
  refine ⟨own, ?_, ?_, ?_⟩
  · intro pos positioned positive leaf member held covered
    rw [holds_same] at held
    rw [covers leaf member held] at covered
    rcases @onLeafs_pos _ tails segment.range (truncate segment.range.finish response) with ⟨nothing, same⟩ | ⟨last, final, same⟩
    · rw [same] at positioned
      rw [nothing, or_iff_left List.not_mem_nil] at covered
      unfold TrieSegment.firstKey at covered
      rw [positioned] at covered
      exact covered
    · rw [same] at positioned
      have there := own last (List.mem_of_getLast? final)
      have value : incrOne (keys tails) last.key = pos := Option.some.inj positioned
      rw [← value, incrOne_pos (trie.bounded last there.1) (value ▸ positive)]
      rcases covered with early | listed
      · -- Either the leaf is of the response as well, or the response starts after it.
        rcases Leaves.parse_cases parsed with ⟨-, all, -⟩ | ⟨-, nothing, -, -⟩ | ⟨-, edge, -, between, -⟩
        · have all : response = trie.leaves := all
          have listed := mem_kept.mpr ⟨all ▸ member, (holds_iff.mp held).2⟩
          have := le_getLast kept_increasing final leaf listed
          omega
        · have nothing : response = [] := nothing
          have listed := (mem_kept.mp (List.mem_of_getLast? final)).1
          rw [nothing] at listed
          cases listed
        · have between : response = trie.range (segment.range.firstKey.getD 0) (some edge.key) := between
          have listed := (mem_kept.mp (List.mem_of_getLast? final)).1
          rw [between] at listed
          have := (Leaves.mem_range.mp listed).2.1
          omega
      · have := le_getLast kept_increasing final leaf listed
        omega
  · intro closes leaf member held
    rw [holds_same] at held
    refine (covers leaf member held).mpr ?_
    rcases Leaves.parse_cases parsed with ⟨-, all, -⟩ | ⟨-, -, before, -⟩ | ⟨-, edge, -, between, further⟩
    · have all : response = trie.leaves := all
      exact .inr (mem_kept.mpr ⟨all ▸ member, (holds_iff.mp held).2⟩)
    · exact .inl (before leaf member)
    · have between : response = trie.range (segment.range.firstKey.getD 0) (some edge.key) := between
      refine or_iff_not_imp_left.mpr fun late => mem_kept.mpr ⟨?_, (holds_iff.mp held).2⟩
      rw [between]
      refine Leaves.mem_range.mpr ⟨member, by omega, within_some.mpr ?_⟩
      by_contra beyond
      have ended : more = true := further.mpr ⟨leaf, member, by omega⟩
      rw [ended, Bool.not_true, Bool.or_false, decide_eq_true_eq, kept] at closes
      obtain ⟨other, there, outside⟩ := List.length_filter_lt_length_iff_exists.mp closes
      rw [between] at there
      have below := within_some.mp (Leaves.mem_range.mp there).2.2
      exact outside (within_of_le (holds_iff.mp held).2 (by omega))
  · intro closes
    have parts := Bool.or_eq_false_iff.mp closes
    have whole_kept : truncate segment.range.finish response = response := by
      rw [kept]
      have long := of_decide_eq_false parts.1
      rw [kept] at long
      exact List.filter_sublist.eq_of_length_le (Nat.not_lt.mp long)
    have further : more = true := by
      cases more with
      | true => rfl
      | false => cases parts.2
    rcases Leaves.parse_cases parsed with ⟨-, -, ended⟩ | ⟨-, -, -, ended⟩ | ⟨-, last, final, between, later⟩
    · rw [further] at ended
      cases ended
    · rw [further] at ended
      cases ended
    · have final : response.getLast? = some last := final
      have between : response = trie.range (segment.range.firstKey.getD 0) (some last.key) := between
      obtain ⟨next, next_member, after⟩ := later.mp further
      have there := own last (by rw [whole_kept]; exact List.mem_of_getLast? final)
      have room : last.key + 1 < keys tails := by
        have := trie.bounded next next_member
        omega
      refine ⟨last, final, ⟨next, next_member, after⟩, holds_same last.key ▸ there.2, ?_, fun leaf member held => ?_⟩
      · rw [whole_kept]
        unfold Leaves.onLeafs incrOne
        rw [final]
        show some ((last.key + 1) % keys tails) = some (last.key + 1)
        rw [Nat.mod_eq_of_lt room]
      · rw [holds_same] at held
        rw [covers leaf member held, whole_kept, between]
        have from_start := (Leaves.mem_range.mp (between ▸ List.mem_of_getLast? final)).2.1
        constructor
        · intro early
          refine or_iff_not_imp_left.mpr fun late => Leaves.mem_range.mpr ⟨member, by omega, within_some.mpr (by omega)⟩
        · rintro (early | listed)
          · omega
          · have := within_some.mp (Leaves.mem_range.mp listed).2.2
            omega

section

variable {covered : Leaf Value → Prop} {response : List (Leaf Value)} {range : TrieSegment} {closes : Bool}

/-- A segment that gets an end after its position. -/
theorem Turned.narrow {pos last : Nat} (turned : Turned trie covered response range closes) (unlimited : range.finish = none)
    (positioned : range.pos = some pos) (later : pos < last) :
    Turned trie covered response { range with finish := some last } closes := by
  have wider {key : Nat} (held : holds { range with finish := some last } key = true) : holds range key = true := by
    refine holds_iff.mpr ⟨(holds_iff.mp held).1, ?_⟩
    rw [unlimited]
    rfl
  refine ⟨?_, fun ended leaf member held => turned.complete ended leaf member (wider held), fun goes_on => ?_⟩
  · intro other same positive leaf member held
    exact turned.reached other same positive leaf member (wider held)
  · obtain ⟨edge, final, further, held, next, position⟩ := turned.position goes_on
    have value : edge.key + 1 = pos := Option.some.inj (next.symm.trans positioned)
    refine ⟨edge, final, further, ?_, next, fun leaf member held => position leaf member (wider held)⟩
    exact holds_iff.mpr ⟨(holds_iff.mp held).1, within_some.mpr (by omega)⟩

variable {segment : Segment Value}

theorem Turned.over_placed (turned : Turned trie (fun leaf => leaf ∈ leaves ∨ leaf ∈ segment.batch) response segment.range true)
    (own : ∀ leaf ∈ segment.batch, leaf ∈ trie.leaves ∧ holds segment.range leaf.key = true) :
    Placed trie leaves { segment with fetched := true } :=
  ⟨own, fun impossible => (by cases impossible), fun impossible => (by cases impossible), fun _ => turned.complete rfl⟩

/-- The position moves once more, which passes over no leaf of the segment. -/
theorem Turned.advance_placed
    (turned : Turned trie (fun leaf => leaf ∈ leaves ∨ leaf ∈ segment.batch) response segment.range false)
    (own : ∀ leaf ∈ segment.batch, leaf ∈ trie.leaves ∧ holds segment.range leaf.key = true) (unfetched : segment.fetched = false)
    (gap : ∀ last, response.getLast? = some last → within segment.range.finish last.key = true →
      (∃ later ∈ trie.leaves, last.key < later.key) → last.key + 2 < keys tails ∧
        ∀ leaf ∈ trie.leaves, leaf.key = last.key + 1 → within segment.range.finish leaf.key = false) :
    Placed trie leaves (segment.advance tails) := by
  obtain ⟨last, final, further, last_held, next, position⟩ := turned.position rfl
  obtain ⟨room, free⟩ := gap last final (holds_iff.mp last_held).2 further
  have moved : (segment.advance tails).range.firstKey = some (last.key + 2) := by
    unfold Segment.advance TrieSegment.firstKey
    rw [next, Option.map_some]
    show some ((last.key + 1 + 1) % keys tails) = some (last.key + 2)
    rw [Nat.mod_eq_of_lt room]
  have late := (holds_iff.mp last_held).1
  refine ⟨own, fun _ => ?_, fun _ leaf member held => ?_, fun fetched => ?_⟩
  · rw [moved]
    show segment.range.start.getD 0 ≤ last.key + 2
    omega
  · have held : holds segment.range leaf.key = true := held
    rw [moved]
    show leaf.key < last.key + 2 ↔ leaf ∈ leaves ∨ leaf ∈ segment.batch
    rw [← position leaf member held]
    have differs : leaf.key ≠ last.key + 1 := fun adjacent => by
      have outside := free leaf member adjacent
      rw [(holds_iff.mp held).2] at outside
      cases outside
    omega
  · rw [show (segment.advance tails).fetched = segment.fetched from rfl, unfetched] at fetched
    cases fetched

end

/-- The segments that are added follow the end that the first one gets. -/
structure Added (tails pos last : Nat) (added : List TrieSegment) : Prop where
  later : pos < last
  bounded : last < keys tails
  consecutive : Consecutive (keys tails) (last + 1) added
  starts : ∀ range ∈ added, ∃ first, range.start = some (padZero tails first) ∧ 0 < first ∧ first < 65536 ∧
    pos < padZero tails first

theorem createSegments_cases (some_tail : 0 < tails) (divides : numSegments ∣ 65536) {range : TrieSegment} {pos : Nat}
    (positioned : range.pos = some pos) (unlimited : range.finish = none) :
    createSegments tails numSegments range = (range, []) ∨
      ∃ last added, createSegments tails numSegments range = ({ range with finish := some last }, added) ∧
        Added tails pos last added := by
  have some_segment : 0 < numSegments := Nat.pos_of_dvd_of_pos divides (by decide)
  have some_step : 0 < 65536 / numSegments := Nat.div_pos (Nat.le_of_dvd (by decide) divides) some_segment
  have whole : (0 + numSegments) * (65536 / numSegments) = 65536 := by
    rw [Nat.zero_add]
    exact Nat.mul_div_cancel' divides
  unfold createSegments
  rw [positioned, unlimited, List.range_eq_range']
  rcases @createLoop_none tails some_tail _ some_step pos _ _ whole with
    none_open | ⟨last, added, loop, later, bounded, follow, starts⟩
  · rw [none_open]
    refine .inl (Prod.ext ?_ rfl)
    rw [← unlimited, ← positioned]
  · rw [loop]
    refine .inr ⟨last, added, rfl, later, bounded, follow, fun range member => ?_⟩
    obtain ⟨first, started, positive, small, beyond, -⟩ := starts range member
    exact ⟨first, started, positive, small, beyond⟩

/-- A segment from the first key on is not split before it has a position past the first two bytes. -/
theorem pos_of_shouldSegment {segment : Segment Value} (split : shouldSegment tails [segment] = true)
    (first : segment.range.start.getD 0 = 0) : ∃ pos, segment.range.pos = some pos ∧ 0 < pos := by
  have start : segment.range.start.elim 0 (short tails) = 0 := by
    cases started : segment.range.start with
    | none => rfl
    | some key =>
      rw [started] at first
      have zero : key = 0 := first
      rw [zero]
      exact Nat.zero_div tails
  have enough : segmentThreshold ≤ estimateSize tails segment := of_decide_eq_true split
  by_contra unmoved
  have pos : segment.range.pos.elim 0 (short tails) = 0 := by
    cases positioned : segment.range.pos with
    | none => rfl
    | some pos =>
      have zero : pos = 0 := by
        by_contra positive
        exact unmoved ⟨pos, positioned, by omega⟩
      rw [zero]
      exact Nat.zero_div tails
  have none_left : estimateSize tails segment = 0 := by simp [estimateSize, start, pos]
  rw [none_left] at enough
  exact absurd enough (by decide)

/-- One segment is split, or nothing happens. -/
theorem createSegmentsIfNeeded_cases (some_tail : 0 < tails) (divides : numSegments ∣ 65536) {segments : List (Segment Value)}
    (consecutive : Consecutive (keys tails) 0 (segments.map Segment.range))
    (once : shouldSegment tails segments = true → ∀ segment ∈ segments, segment.range.finish = none) :
    createSegmentsIfNeeded tails numSegments segments = (segments, []) ∨
      ∃ segment pos last added, segments = [segment] ∧ segment.range.pos = some pos ∧ 0 < pos ∧ segment.range.finish = none ∧
        Added tails pos last added ∧
        createSegmentsIfNeeded tails numSegments segments =
          ({ segment with range := { segment.range with finish := some last } } ::
            added.map (fun range => addSegment range.start range.finish), added.map fun range => range.start.getD 0) := by
  unfold createSegmentsIfNeeded
  split
  · rename_i segment
    by_cases split : shouldSegment tails [segment] = true
    · rw [if_pos split]
      have unlimited := once split segment (List.mem_singleton_self segment)
      obtain ⟨pos, positioned, positive⟩ := pos_of_shouldSegment split consecutive.1
      rcases createSegments_cases some_tail divides positioned unlimited with none_open | ⟨last, added, created, follow⟩
      · rw [none_open]
        exact .inl rfl
      · rw [created]
        exact .inr ⟨segment, pos, last, added, rfl, positioned, positive, unlimited, follow, rfl⟩
    · rw [if_neg split]
      exact .inl rfl
  · exact .inl rfl

theorem modify_set {Entry : Type} (entries : List Entry) (index : Nat) (entry : Entry) (change : Entry → Entry) :
    (entries.set index entry).modify index change = entries.set index (change entry) := by
  induction entries generalizing index with
  | nil => cases index <;> rfl
  | cons head rest ih =>
    cases index with
    | zero => rfl
    | succ index => exact congrArg (head :: ·) (ih index)

/-- The segments that a split leaves: the first one, and those after it, which nothing was fetched for. -/
theorem Live.split (live : Live trie leaves markers sync) {segment changed : Segment Value}
    {after : List (Leaf Value)} {pos last : Nat} {added : List TrieSegment} (one : sync.segments = [segment])
    (follow : Added tails pos last added) (starts : changed.range.start = segment.range.start)
    (finish : changed.range.finish = some last) (placed : Placed trie after changed) (grows : ∀ leaf ∈ leaves, leaf ∈ after)
    (reached : ∀ leaf ∈ after, leaf.key < pos) :
    Live trie after markers { sync with
      segments := changed :: added.map (fun range => addSegment range.start range.finish)
      unwritten := added.map fun range => range.start.getD 0 } := by
  have ranges := live.ranges
  rw [one] at ranges
  have first : segment.range.start.getD 0 = 0 := ranges.1
  have ends : lastKey (keys tails) changed.range = last := by
    unfold lastKey
    rw [finish]
    rfl
  refine ⟨?_, fun index other found => ?_, fun marker member => ?_, fun index other found => ?_, fun leaf member =>
    grows leaf (live.hashed leaf member)⟩
  · refine ⟨starts ▸ first, Nat.zero_le _, ends ▸ follow.bounded, ?_⟩
    rw [ends, List.map_map]
    exact follow.consecutive.map (fun range => rfl) fun range => rfl
  · have found : (added.map fun range => addSegment range.start range.finish)[index]? = some other := found
    rw [List.getElem?_map, Option.map_eq_some_iff] at found
    obtain ⟨range, there, rfl⟩ := found
    have member := List.mem_of_getElem? there
    obtain ⟨start, started, -, -, -⟩ := follow.starts range member
    refine ⟨start, started, .inr (List.mem_map.mpr ⟨range, member, ?_⟩)⟩
    rw [started]
    rfl
  · obtain ⟨range, there, rfl⟩ := List.mem_map.mp member
    obtain ⟨start, started, positive, small, -⟩ := follow.starts range there
    exact ⟨start, by rw [started]; rfl, positive, small⟩
  · cases index with
    | zero =>
      cases found
      exact placed
    | succ index =>
      have found : (added.map fun range => addSegment range.start range.finish)[index]? = some other := found
      rw [List.getElem?_map, Option.map_eq_some_iff] at found
      obtain ⟨range, there, rfl⟩ := found
      obtain ⟨start, started, -, -, beyond⟩ := follow.starts range (List.mem_of_getElem? there)
      refine ⟨fun leaf member => (by cases member), fun _ => Nat.le_refl _, fun _ leaf member held => ?_,
        fun impossible => (by cases impossible)⟩
      have late : range.start.getD 0 ≤ leaf.key := (holds_iff.mp held).1
      show leaf.key < range.start.getD 0 ↔ leaf ∈ after ∨ leaf ∈ []
      rw [or_iff_left List.not_mem_nil]
      rw [started, Option.getD_some] at late ⊢
      constructor
      · omega
      · intro there
        have := reached leaf there
        omega

/-- A response after which nothing is passed over: no leaf of the segment stands right after the last one when another
response follows, one without a proof brings no leaf of another segment, and a trie whose one segment has an end is not
split. -/
structure Careful (trie : LeafTrie (keys tails) Value) (sync : TrieToSync Value) (index : Nat) (segment : Segment Value)
    (response : List (Leaf Value)) (proof : Option Proof) : Prop where
  gap : ∀ last ∈ response.getLast?, within segment.range.finish last.key = true →
    (∃ later ∈ trie.leaves, last.key < later.key) → last.key + 2 < keys tails ∧
      ∀ leaf ∈ trie.leaves, leaf.key = last.key + 1 → within segment.range.finish leaf.key = false
  whole : proof = none → ∀ leaf ∈ trie.leaves, within segment.range.finish leaf.key = true →
    segment.range.start.getD 0 ≤ leaf.key
  once : shouldSegment tails (sync.segments.set index (segment.onLeafs tails (truncate segment.range.finish response))) = true →
    segment.range.finish = none

theorem shouldSegment_batch (segments : List (Segment Value)) (index : Nat) (taken : Segment Value) (batch : List (Leaf Value)) :
    shouldSegment tails (segments.set index { taken with batch := batch }) = shouldSegment tails (segments.set index taken) := by
  cases segments with
  | nil => rfl
  | cons head rest =>
    cases index with
    | zero =>
      cases rest with
      | nil => rfl
      | cons next rest => rfl
    | succ index =>
      cases rest with
      | nil => rfl
      | cons next rest => cases index <;> rfl

theorem shouldSegment_single {segments : List (Segment Value)} (split : shouldSegment tails segments = true) :
    ∃ segment, segments = [segment] := by
  unfold shouldSegment at split
  split at split
  · exact ⟨_, rfl⟩
  · cases split

/-- The batch of a segment goes to the disk. -/
theorem Live.disk_write (live : Live trie leaves markers sync) (disk : OnDisk trie leaves markers) (written : sync.unwritten = [])
    {index : Nat} {segment : Segment Value} {batch : List (Leaf Value)} (there : sync.segments[index]? = some segment)
    (own : ∀ leaf ∈ batch, leaf ∈ trie.leaves ∧ holds segment.range leaf.key = true)
    (closed : ∀ leaf ∈ trie.leaves, ∀ other ∈ batch, holds segment.range leaf.key = true → leaf.key ≤ other.key →
      leaf ∈ leaves ∨ leaf ∈ batch) :
    OnDisk trie (writeBatch leaves batch) markers := by
  refine disk.write (fun leaf member => (own leaf member).1) fun leaf member other listed before free => ?_
  exact closed leaf member other listed (live.holds_before written there (own other listed).2 before free) before

/-- After the leaves the trie may be split, and then the segment that they came for ends its turn. -/
theorem Live.created (live : Live trie leaves markers sync) (some_tail : 0 < tails) (divides : numSegments ∣ 65536)
    (written : sync.unwritten = []) {index : Nat} {segment held : Segment Value} {stored : List (Leaf Value)}
    {change : Segment Value → Segment Value} (there : sync.segments[index]? = some segment)
    (starts : held.range.start = segment.range.start) (finishes : held.range.finish = segment.range.finish)
    (once : shouldSegment tails (sync.segments.set index held) = true → segment.range.finish = none)
    (grows : ∀ leaf ∈ leaves, leaf ∈ stored)
    (only : ∀ leaf ∈ stored, leaf ∈ leaves ∨ holds segment.range leaf.key = true)
    (reached : ∀ pos, held.range.pos = some pos → 0 < pos → ∀ leaf ∈ stored, holds held.range leaf.key = true → leaf.key < pos)
    (same_start : ∀ segment, (change segment).range.start = segment.range.start)
    (same_finish : ∀ segment, (change segment).range.finish = segment.range.finish) (placed : Placed trie stored (change held))
    (narrow : ∀ pos last, held.range.pos = some pos → 0 < pos → held.range.finish = none → pos < last →
      Placed trie stored (change { held with range := { held.range with finish := some last } })) :
    Live trie stored markers { sync with
      segments := (createSegmentsIfNeeded tails numSegments (sync.segments.set index held)).1.modify index change
      unwritten := (createSegmentsIfNeeded tails numSegments (sync.segments.set index held)).2 } := by
  have found : (sync.segments.map Segment.range)[index]? = some segment.range := by
    rw [List.getElem?_map, there, Option.map_some]
  have consecutive : Consecutive (keys tails) 0 ((sync.segments.set index held).map Segment.range) := by
    rw [List.map_set]
    exact live.ranges.set found starts finishes
  have one_of_split (split : shouldSegment tails (sync.segments.set index held) = true) :
      ∀ other ∈ sync.segments.set index held, other.range.finish = none := by
    obtain ⟨one, single⟩ := shouldSegment_single split
    have member : held ∈ sync.segments.set index held := List.mem_set (List.getElem?_eq_some_iff.mp there).1 held
    intro other listed
    rw [single] at member listed
    rw [List.mem_singleton.mp listed, ← List.mem_singleton.mp member, finishes]
    exact once split
  rcases createSegmentsIfNeeded_cases some_tail divides consecutive one_of_split with same |
    ⟨one, pos, last, added, single, positioned, positive, unlimited, follow, created⟩
  · rw [same, modify_set]
    have updated := live.update there ((same_start held).trans starts) ((same_finish held).trans finishes) placed grows only
    rw [written] at updated
    exact updated
  · have length : sync.segments.length = 1 := by
      rw [← List.length_set, single]
      rfl
    obtain ⟨first, whole⟩ := List.length_eq_one_iff.mp length
    have place : index = 0 := by
      have := (List.getElem?_eq_some_iff.mp there).1
      omega
    rw [whole, place] at single there
    cases there
    cases single
    rw [created, place]
    refine live.split whole follow ((same_start _).trans starts) (same_finish _)
      (narrow pos last positioned positive unlimited follow.later) grows fun leaf listed => ?_
    have from_first : held.range.start.getD 0 = 0 := by
      rw [whole, place] at consecutive
      exact consecutive.1
    refine reached pos positioned positive leaf listed (holds_iff.mpr ⟨?_, ?_⟩)
    · rw [from_first]
      exact Nat.zero_le _
    · rw [unlimited]
      rfl

/-- One response keeps the segments where they are. -/
theorem turn_keeps (some_tail : 0 < tails) (divides : numSegments ∣ 65536) {state after : State Value}
    {index : Nat} {response : List (Leaf Value)} {proof : Option Proof} {capped : Bool}
    (disk : OnDisk trie state.leaves state.markers) (live : Live trie state.leaves state.markers sync)
    (careful : ∀ segment, sync.segments[index]? = some segment → Careful trie sync index segment response proof)
    (turned : turn proofs requestSize numSegments state sync index response proof capped = some after) :
    OnDisk trie after.leaves after.markers ∧ ∃ next, after.trie = some next ∧ Live trie after.leaves after.markers next := by
  unfold turn at turned
  split at turned
  · cases turned
  rename_i segment there
  split at turned
  · cases turned
  rename_i ready
  simp only [Bool.not_eq_true, Bool.or_eq_false_iff, Bool.not_eq_false', List.isEmpty_iff] at ready
  obtain ⟨unfetched, written⟩ := ready
  split at turned
  · cases turned
  rename_i more parsed
  have met := careful segment there
  obtain ⟨kept_own, delivered⟩ := onLeafs_turned (live.placed index segment there) unfetched parsed met.whole
  have own : ∀ leaf ∈ (segment.onLeafs tails (truncate segment.range.finish response)).batch,
      leaf ∈ trie.leaves ∧ holds segment.range leaf.key = true := by
    intro leaf member
    rcases List.mem_append.mp member with earlier | now
    · exact (live.placed index segment there).own leaf earlier
    · exact kept_own leaf now
  have taken_holds (key : Nat) :
      holds (segment.onLeafs tails (truncate segment.range.finish response)).range key = holds segment.range key :=
    holds_congr onLeafs_range.1 onLeafs_range.2 key
  -- The leaves are in the batch, or the batch has gone to the disk.
  obtain ⟨held, stored, is_held, is_stored, range_same, unfetched_still, same_split, on_disk, held_own, grows, same_covered⟩ :
      ∃ held stored, (if capped then { segment.onLeafs tails (truncate segment.range.finish response) with batch := [] }
            else segment.onLeafs tails (truncate segment.range.finish response)) = held ∧
        (if capped then writeBatch state.leaves (segment.onLeafs tails (truncate segment.range.finish response)).batch
            else state.leaves) = stored ∧
        held.range = (segment.onLeafs tails (truncate segment.range.finish response)).range ∧ held.fetched = false ∧
        shouldSegment tails (sync.segments.set index held) =
          shouldSegment tails (sync.segments.set index (segment.onLeafs tails (truncate segment.range.finish response))) ∧
        OnDisk trie stored state.markers ∧
        (∀ leaf ∈ held.batch, leaf ∈ trie.leaves ∧ holds segment.range leaf.key = true) ∧
        (∀ leaf ∈ state.leaves, leaf ∈ stored) ∧ ∀ leaf, leaf ∈ stored ∨ leaf ∈ held.batch ↔
          leaf ∈ state.leaves ∨ leaf ∈ (segment.onLeafs tails (truncate segment.range.finish response)).batch := by
    cases capped with
    | false => exact ⟨_, _, rfl, rfl, rfl, unfetched, rfl, disk, own, fun leaf => id, fun leaf => Iff.rfl⟩
    | true =>
      have wrote := live.disk_write disk written there own fun leaf member other listed held before =>
        delivered.closed member (own other listed).1 (taken_holds leaf.key ▸ held)
          (taken_holds other.key ▸ (own other listed).2) (.inr listed) before
      have mem {leaf : Leaf Value} := @mem_writeBatch _ _ trie state.leaves _ disk.genuine
        (fun other listed => (own other listed).1) leaf
      refine ⟨_, _, rfl, rfl, rfl, unfetched, shouldSegment_batch _ _ _ _, wrote, fun leaf member => (by cases member),
        fun leaf member => mem.mpr (.inl member), fun leaf => ?_⟩
      show leaf ∈ writeBatch state.leaves _ ∨ leaf ∈ [] ↔ _
      rw [or_iff_left List.not_mem_nil]
      exact mem
  simp only [is_held, is_stored] at turned
  have covered : (fun leaf => leaf ∈ state.leaves ∨ leaf ∈ segment.batch ++ truncate segment.range.finish response) =
      fun leaf => leaf ∈ stored ∨ leaf ∈ held.batch := funext fun leaf => propext (same_covered leaf).symm
  have shape : (Leaves.onLeafs (keys tails) segment.range (truncate segment.range.finish response)).1 = held.range :=
    range_same.symm
  rw [covered, shape] at delivered
  have starts : held.range.start = segment.range.start := range_same ▸ onLeafs_range.1
  have finishes : held.range.finish = segment.range.finish := range_same ▸ onLeafs_range.2
  have held_holds (key : Nat) : holds held.range key = holds segment.range key := range_same ▸ taken_holds key
  have held_own : ∀ leaf ∈ held.batch, leaf ∈ trie.leaves ∧ holds held.range leaf.key = true := by
    intro leaf member
    rw [held_holds]
    exact held_own leaf member
  have only : ∀ leaf ∈ stored, leaf ∈ state.leaves ∨ holds segment.range leaf.key = true := by
    intro leaf listed
    exact ((same_covered leaf).mp (.inl listed)).imp_right fun member => (own leaf member).2
  have reached : ∀ pos, held.range.pos = some pos → 0 < pos → ∀ leaf ∈ stored, holds held.range leaf.key = true →
      leaf.key < pos :=
    fun pos positioned positive leaf listed held_leaf =>
      delivered.reached pos positioned positive leaf (on_disk.genuine leaf listed) held_leaf (.inl listed)
  have narrow_own (pos last : Nat) (positioned : held.range.pos = some pos) (positive : 0 < pos) (later : pos < last) :
      ∀ leaf ∈ held.batch, leaf ∈ trie.leaves ∧ holds { held.range with finish := some last } leaf.key = true := by
    intro leaf listed
    obtain ⟨member, held_leaf⟩ := held_own leaf listed
    have := delivered.reached pos positioned positive leaf member held_leaf (.inr listed)
    exact ⟨member, holds_iff.mpr ⟨(holds_iff.mp held_leaf).1, within_some.mpr (by omega)⟩⟩
  split at turned
  · rename_i ends
    rw [ends] at delivered
    cases turned
    refine ⟨on_disk, _, rfl, live.created some_tail divides written there starts finishes
      (fun split => met.once (same_split ▸ split)) grows only reached (fun other => rfl) (fun other => rfl)
      (delivered.over_placed held_own) ?_⟩
    intro pos last positioned positive unlimited later
    exact (delivered.narrow unlimited positioned later).over_placed (narrow_own pos last positioned positive later)
  · rename_i goes_on
    rw [Bool.not_eq_true] at goes_on
    rw [goes_on] at delivered
    split at turned
    · cases turned
    · cases turned
      refine ⟨on_disk, _, rfl, live.created some_tail divides written there starts finishes
        (fun split => met.once (same_split ▸ split)) grows only reached (fun other => rfl) (fun other => rfl)
        (delivered.advance_placed held_own unfetched_still ?_) ?_⟩
      · rw [finishes]
        exact met.gap
      · intro pos last positioned positive unlimited later
        refine (delivered.narrow unlimited positioned later).advance_placed (narrow_own pos last positioned positive later)
          unfetched_still fun edge final inside further => ?_
        obtain ⟨room, free⟩ := met.gap edge final (by rw [← finishes, unlimited]; rfl) further
        refine ⟨room, fun leaf member adjacent => ?_⟩
        -- A segment without an end holds every key, so that no leaf stands there at all.
        have outside := free leaf member adjacent
        rw [← finishes, unlimited] at outside
        cases outside

end

end Snowside.Segments
