import Snowside.Sync.Segments

/-! The ranges of the segments of a trie part the keys: those that createSegments makes and those that loadSegments rebuilds. -/

set_option autoImplicit false

namespace Snowside.Segments

open Leaves (TrieSegment within within_some)

/-- The last key of a range. -/
def lastKey (size : Nat) (range : TrieSegment) : Nat := range.finish.getD (size - 1)

def holds (range : TrieSegment) (key : Nat) : Bool := decide (range.start.getD 0 ≤ key) && within range.finish key

/-- The ranges follow each other from a key on to the last one. -/
def Consecutive (size : Nat) : Nat → List TrieSegment → Prop
  | first, [] => first = size
  | first, range :: rest =>
    range.start.getD 0 = first ∧ first ≤ lastKey size range ∧ lastKey size range < size ∧
      Consecutive size (lastKey size range + 1) rest

theorem holds_iff {range : TrieSegment} {key : Nat} :
    holds range key = true ↔ range.start.getD 0 ≤ key ∧ within range.finish key = true := by
  simp [holds]

theorem holds_congr {range other : TrieSegment} (starts : range.start = other.start) (finishes : range.finish = other.finish)
    (key : Nat) : holds range key = holds other key := by
  unfold holds
  rw [starts, finishes]

theorem within_iff {size : Nat} {range : TrieSegment} {key : Nat} (bounded : key < size) :
    within range.finish key = true ↔ key ≤ lastKey size range := by
  unfold lastKey
  cases range.finish with
  | none =>
    have below : key ≤ size - 1 := by omega
    simp [within, below]
  | some last => exact within_some

/-- A range is before all that follow it. -/
theorem Consecutive.start_le {size first : Nat} {ranges : List TrieSegment} (consecutive : Consecutive size first ranges) :
    ∀ range ∈ ranges, first ≤ range.start.getD 0 := by
  induction ranges generalizing first with
  | nil => exact fun range member => (by cases member)
  | cons head rest ih =>
    obtain ⟨starts, some_key, -, onwards⟩ := consecutive
    intro range member
    rcases List.mem_cons.mp member with here | later
    · rw [here]
      omega
    · have := ih onwards range later
      omega

theorem Consecutive.finish {size first : Nat} {ranges : List TrieSegment} (consecutive : Consecutive size first ranges) :
    ∀ range ∈ ranges, range.start.getD 0 ≤ lastKey size range ∧ lastKey size range < size := by
  induction ranges generalizing first with
  | nil => exact fun range member => (by cases member)
  | cons head rest ih =>
    obtain ⟨starts, some_key, bounded, onwards⟩ := consecutive
    intro range member
    rcases List.mem_cons.mp member with here | later
    · rw [here]
      omega
    · exact ih onwards range later

/-- Positions do not matter. -/
theorem Consecutive.map {size first : Nat} {ranges : List TrieSegment} {change : TrieSegment → TrieSegment}
    (consecutive : Consecutive size first ranges) (starts : ∀ range, (change range).start = range.start)
    (finishes : ∀ range, (change range).finish = range.finish) : Consecutive size first (ranges.map change) := by
  induction ranges generalizing first with
  | nil => exact consecutive
  | cons head rest ih =>
    obtain ⟨here, some_key, bounded, onwards⟩ := consecutive
    have same : lastKey size (change head) = lastKey size head := congrArg (Option.getD · (size - 1)) (finishes head)
    refine ⟨starts head ▸ here, ?_, ?_, ?_⟩
    · rw [same]
      exact some_key
    · rw [same]
      exact bounded
    · rw [same]
      exact ih onwards

theorem Consecutive.set {size first : Nat} {ranges : List TrieSegment} {index : Nat} {range changed : TrieSegment}
    (consecutive : Consecutive size first ranges) (there : ranges[index]? = some range) (starts : changed.start = range.start)
    (finishes : changed.finish = range.finish) : Consecutive size first (ranges.set index changed) := by
  induction ranges generalizing first index with
  | nil => cases there
  | cons head rest ih =>
    obtain ⟨here, some_key, bounded, onwards⟩ := consecutive
    cases index with
    | zero =>
      cases there
      have same : lastKey size changed = lastKey size range := congrArg (Option.getD · (size - 1)) finishes
      refine ⟨starts ▸ here, ?_, ?_, ?_⟩
      · rw [same]
        exact some_key
      · rw [same]
        exact bounded
      · rw [same]
        exact onwards
    | succ index => exact ⟨here, some_key, bounded, ih onwards there⟩

/-- Each key from the first on is in exactly one of the ranges. -/
theorem Consecutive.existsUnique {size first : Nat} {ranges : List TrieSegment} (consecutive : Consecutive size first ranges)
    {key : Nat} (reached : first ≤ key) (bounded : key < size) :
    ∃! index : Nat, ∃ range, ranges[index]? = some range ∧ holds range key = true := by
  induction ranges generalizing first with
  | nil =>
    have : first = size := consecutive
    omega
  | cons head rest ih =>
    obtain ⟨starts, -, -, onwards⟩ := consecutive
    by_cases inside : key ≤ lastKey size head
    · refine ⟨0, ⟨head, rfl, holds_iff.mpr ⟨by omega, (within_iff bounded).mpr inside⟩⟩, ?_⟩
      intro index found
      cases index with
      | zero => rfl
      | succ index =>
        obtain ⟨range, there, held⟩ := found
        have later := onwards.start_le range (List.mem_of_getElem? there)
        have := (holds_iff.mp held).1
        omega
    · obtain ⟨index, ⟨range, there, held⟩, unique⟩ := ih onwards (by omega)
      refine ⟨index + 1, ⟨range, there, held⟩, ?_⟩
      intro other found
      obtain ⟨otherRange, other_there, other_held⟩ := found
      cases other with
      | zero =>
        cases other_there
        exact absurd ((within_iff bounded).mp (holds_iff.mp other_held).2) inside
      | succ other => rw [unique other ⟨otherRange, other_there, other_held⟩]

/-- Two ranges that hold one key are in one place. -/
theorem Consecutive.same {size first : Nat} {ranges : List TrieSegment} (consecutive : Consecutive size first ranges)
    {key index other : Nat} {range otherRange : TrieSegment} (there : ranges[index]? = some range)
    (other_there : ranges[other]? = some otherRange) (held : holds range key = true) (other_held : holds otherRange key = true)
    (bounded : key < size) : index = other := by
  have reached := consecutive.start_le range (List.mem_of_getElem? there)
  have above := (holds_iff.mp held).1
  obtain ⟨_, _, unique⟩ := consecutive.existsUnique (show first ≤ key by omega) bounded
  rw [unique index ⟨range, there, held⟩, unique other ⟨otherRange, other_there, other_held⟩]

/-! ## Segments that are resumed -/

variable {tails : Nat}

/-- The starts that are written: they are the first keys of two bytes, and not of the first two. -/
structure Marked (tails : Nat) (markers : List Nat) : Prop where
  increasing : markers.Pairwise fun first second => first < second
  padded : ∀ marker ∈ markers, ∃ pos, marker = padZero tails pos ∧ 0 < pos ∧ pos < 65536

/-- The end that a marker gives the segment before it is the key before the marker. -/
theorem padOnes_pred (some_tail : 0 < tails) {pos : Nat} (positive : 0 < pos) (small : pos < 65536) :
    padOnes tails ((short tails (padZero tails pos) + 65535) % 65536) + 1 = padZero tails pos := by
  have back : short tails (padZero tails pos) = pos := Nat.mul_div_cancel pos some_tail
  have pred : (pos + 65535) % 65536 = pos - 1 := by omega
  rw [back, pred]
  unfold padOnes padZero
  have split : pos * tails = (pos - 1) * tails + tails := by
    conv_lhs => rw [show pos = pos - 1 + 1 by omega, Nat.succ_mul]
  omega

theorem padZero_lt {pos : Nat} (some_tail : 0 < tails) (small : pos < 65536) : padZero tails pos < keys tails :=
  Nat.mul_lt_mul_of_pos_right small some_tail

/-- The rebuilt ranges follow each other. -/
theorem loadRanges_consecutive (some_tail : 0 < tails) {markers : List Nat} {previous : Option Nat} (marked : Marked tails markers)
    (after : ∀ marker ∈ markers, previous.getD 0 < marker) (bounded : previous.getD 0 < keys tails) :
    Consecutive (keys tails) (previous.getD 0) (loadRanges tails previous markers) := by
  induction markers generalizing previous with
  | nil =>
    have last : lastKey (keys tails) ⟨previous, none, none⟩ = keys tails - 1 := rfl
    refine ⟨rfl, ?_, ?_, ?_⟩
    · rw [last]
      omega
    · rw [last]
      omega
    · rw [last]
      exact Nat.sub_add_cancel (by omega)
  | cons marker rest ih =>
    obtain ⟨pos, rfl, positive, small⟩ := marked.padded marker List.mem_cons_self
    have here := padOnes_pred some_tail positive small
    have later := after _ List.mem_cons_self
    have below := padZero_lt some_tail small
    have increasing := List.pairwise_cons.mp marked.increasing
    refine ⟨rfl, ?_, ?_, ?_⟩
    · show previous.getD 0 ≤ padOnes tails _
      omega
    · show padOnes tails _ < keys tails
      omega
    · show Consecutive (keys tails) (padOnes tails _ + 1) _
      rw [here]
      exact @ih (some (padZero tails pos))
        ⟨increasing.2, fun marker member => marked.padded marker (List.mem_cons_of_mem _ member)⟩ increasing.1 below

/-- After the first, the rebuilt ranges start at the markers. -/
theorem start_of_loadRanges {markers : List Nat} {previous : Option Nat} :
    ∀ range ∈ (loadRanges tails previous markers).tail, ∃ marker ∈ markers, range.start = some marker := by
  induction markers generalizing previous with
  | nil => exact fun range member => (by cases member)
  | cons marker rest ih =>
    intro range member
    cases rest with
    | nil =>
      rw [List.mem_singleton.mp member]
      exact ⟨marker, List.mem_cons_self, rfl⟩
    | cons next rest =>
      rcases List.mem_cons.mp member with here | later
      · rw [here]
        exact ⟨marker, List.mem_cons_self, rfl⟩
      · obtain ⟨found, there, starts⟩ := @ih (some marker) range later
        exact ⟨found, List.mem_cons_of_mem _ there, starts⟩

/-- A marker is the start of a rebuilt range. -/
theorem marker_of_loadRanges {markers : List Nat} {previous : Option Nat} :
    ∀ marker ∈ markers, ∃ range ∈ loadRanges tails previous markers, range.start = some marker := by
  have started (markers : List Nat) (previous : Option Nat) :
      ∃ range ∈ loadRanges tails previous markers, range.start = previous := by
    cases markers with
    | nil => exact ⟨_, List.mem_cons_self, rfl⟩
    | cons marker rest => exact ⟨_, List.mem_cons_self, rfl⟩
  induction markers generalizing previous with
  | nil => exact fun marker member => (by cases member)
  | cons first rest ih =>
    intro marker member
    rcases List.mem_cons.mp member with here | later
    · obtain ⟨range, there, starts⟩ := started rest (some first)
      exact ⟨range, List.mem_cons_of_mem _ there, here ▸ starts⟩
    · obtain ⟨range, there, starts⟩ := @ih (some first) marker later
      exact ⟨range, List.mem_cons_of_mem _ there, starts⟩

theorem pos_of_loadRanges {markers : List Nat} {previous : Option Nat} :
    ∀ range ∈ loadRanges tails previous markers, range.pos = none := by
  induction markers generalizing previous with
  | nil =>
    intro range member
    rw [List.mem_singleton.mp member]
  | cons marker rest ih =>
    intro range member
    rcases List.mem_cons.mp member with here | later
    · rw [here]
    · exact ih range later

/-! ## Segments that are created -/

/-- A window ends right before the next one begins. -/
theorem window_ends (some_tail : 0 < tails) {segmentStep window : Nat} (some_step : 0 < segmentStep)
    (room : (window + 1) * segmentStep ≤ 65536) :
    (window + 1) * segmentStep = window * segmentStep + segmentStep ∧
      (window * segmentStep + (segmentStep - 1)) % 65536 = window * segmentStep + (segmentStep - 1) ∧
      padOnes tails (window * segmentStep + (segmentStep - 1)) + 1 = padZero tails ((window + 1) * segmentStep) ∧
      padZero tails ((window + 1) * segmentStep) ≤ keys tails := by
  have next : (window + 1) * segmentStep = window * segmentStep + segmentStep := Nat.succ_mul _ _
  refine ⟨next, Nat.mod_eq_of_lt (by omega), ?_, Nat.mul_le_mul_right _ room⟩
  unfold padOnes padZero
  rw [show (window + 1) * segmentStep = window * segmentStep + (segmentStep - 1) + 1 by omega, Nat.succ_mul]
  omega

theorem createLoop_some (some_tail : 0 < tails) {segmentStep : Nat} (some_step : 0 < segmentStep) {pos : Option Nat} {last : Nat}
    {count window : Nat} (whole : (window + count) * segmentStep = 65536)
    (before : ∀ reached ∈ pos, reached < padZero tails (window * segmentStep)) :
    (createLoop tails segmentStep pos (List.range' window count) (some last)).1 = some last ∧
      Consecutive (keys tails) (padZero tails (window * segmentStep))
        (createLoop tails segmentStep pos (List.range' window count) (some last)).2 ∧
      ∀ range ∈ (createLoop tails segmentStep pos (List.range' window count) (some last)).2,
        ∃ first, range.start = some (padZero tails first) ∧ window * segmentStep ≤ first ∧ first < 65536 ∧ range.pos = none := by
  induction count generalizing window with
  | zero =>
    refine ⟨rfl, ?_, fun range member => (by cases member)⟩
    show padZero tails (window * segmentStep) = keys tails
    rw [Nat.add_zero] at whole
    rw [whole]
    rfl
  | succ count ih =>
    have room : (window + 1) * segmentStep ≤ 65536 := by
      rw [← whole]
      exact Nat.mul_le_mul_right _ (by omega)
    obtain ⟨next, last_small, ends, bounded⟩ := window_ends some_tail some_step room
    have first_small : window * segmentStep % 65536 = window * segmentStep := Nat.mod_eq_of_lt (by omega)
    have grows : padZero tails (window * segmentStep) + tails ≤ padZero tails ((window + 1) * segmentStep) := by
      unfold padZero
      rw [← Nat.succ_mul]
      exact Nat.mul_le_mul_right _ (by omega)
    have closed : (pos.any fun pos => decide (padOnes tails (window * segmentStep + (segmentStep - 1)) ≤ pos)) = false := by
      cases pos with
      | none => rfl
      | some reached =>
        have := before reached rfl
        simp only [Option.any_some, decide_eq_false_iff_not]
        omega
    obtain ⟨same, onwards, starts⟩ := @ih (window + 1) (by rw [← whole]; congr 1; omega) fun reached member => by
      have := before reached member
      omega
    have loop : createLoop tails segmentStep pos (List.range' window (count + 1)) (some last) =
        ((createLoop tails segmentStep pos (List.range' (window + 1) count) (some last)).1,
          ⟨some (padZero tails (window * segmentStep)), none,
            some (padOnes tails (window * segmentStep + (segmentStep - 1)))⟩ ::
            (createLoop tails segmentStep pos (List.range' (window + 1) count) (some last)).2) := by
      rw [List.range'_succ]
      conv_lhs => unfold createLoop
      simp only [first_small, last_small, closed, Bool.false_eq_true, if_false]
    rw [loop]
    refine ⟨same, ⟨rfl, ?_, ?_, ?_⟩, ?_⟩
    · show padZero tails _ ≤ padOnes tails _
      omega
    · show padOnes tails _ < keys tails
      omega
    · show Consecutive (keys tails) (padOnes tails _ + 1) _
      rw [ends]
      exact onwards
    · intro range member
      rcases List.mem_cons.mp member with here | later
      · rw [here]
        exact ⟨_, rfl, Nat.le_refl _, by omega, rfl⟩
      · obtain ⟨first, started, reached, small, unset⟩ := starts range later
        exact ⟨first, started, by omega, small, unset⟩

/-- The first window that is not past the position ends the segment that is syncing; the rest of them are added. -/
theorem createLoop_none (some_tail : 0 < tails) {segmentStep : Nat} (some_step : 0 < segmentStep) {pos : Nat} {count window : Nat}
    (whole : (window + count) * segmentStep = 65536) :
    createLoop tails segmentStep (some pos) (List.range' window count) none = (none, []) ∨
      ∃ last added, createLoop tails segmentStep (some pos) (List.range' window count) none = (some last, added) ∧
        pos < last ∧ last < keys tails ∧ Consecutive (keys tails) (last + 1) added ∧
        ∀ range ∈ added, ∃ first, range.start = some (padZero tails first) ∧ 0 < first ∧ first < 65536 ∧
          pos < padZero tails first ∧ range.pos = none := by
  induction count generalizing window with
  | zero => exact .inl rfl
  | succ count ih =>
    have room : (window + 1) * segmentStep ≤ 65536 := by
      rw [← whole]
      exact Nat.mul_le_mul_right _ (by omega)
    obtain ⟨next, last_small, ends, bounded⟩ := window_ends some_tail some_step room
    have onwards : (window + 1 + count) * segmentStep = 65536 := by
      rw [← whole]
      congr 1
      omega
    rw [List.range'_succ]
    unfold createLoop
    simp only [last_small, Option.any_some, decide_eq_true_eq]
    by_cases synced : padOnes tails (window * segmentStep + (segmentStep - 1)) ≤ pos
    · rw [if_pos synced]
      exact ih onwards
    · rw [if_neg synced]
      obtain ⟨same, follow, starts⟩ := @createLoop_some tails some_tail segmentStep some_step (some pos)
        (padOnes tails (window * segmentStep + (segmentStep - 1))) count (window + 1) onwards fun reached member => by
          cases member
          omega
      refine .inr ⟨_, _, Prod.ext same rfl, by omega, by omega, ends ▸ follow, fun range member => ?_⟩
      obtain ⟨first, started, reached, small, unset⟩ := starts range member
      have later : padZero tails ((window + 1) * segmentStep) ≤ padZero tails first := Nat.mul_le_mul_right _ reached
      exact ⟨first, started, by omega, small, by omega, unset⟩

end Snowside.Segments
