import Mathlib.Data.List.Sort
import Mathlib.Data.List.TakeWhile
import Mathlib.Tactic.Common

/-! Lists whose elements have increasing keys. -/

set_option autoImplicit false

namespace Sorted

variable {α : Type} (key : α → Nat)

def Increasing (l : List α) : Prop := l.Pairwise fun x y => key x < key y

def sort (l : List α) : List α := l.mergeSort fun x y => key x ≤ key y

/-- The element takes the place of its key. -/
def put (x : α) (l : List α) : List α := l.filter (key · < key x) ++ x :: l.filter (key x < key ·)

/-- The elements from the front whose keys are `next`, `next + 1` and so on. -/
def run : Nat → List α → List α
  | _, [] => []
  | next, x :: rest => if key x = next then x :: run (next + 1) rest else []

/-- The run from the front, unless it starts after `start`. -/
def readies (start : Nat) : List α → List α
  | [] => []
  | x :: rest => if start < key x then [] else run key (key x) (x :: rest)

variable {key} {l : List α} {x : α}

namespace Increasing

theorem nodup (increasing : Increasing key l) : l.Nodup :=
  increasing.imp fun below same => (same ▸ below).false

theorem nodup_keys (increasing : Increasing key l) : (l.map key).Nodup :=
  List.pairwise_map.mpr (increasing.imp Nat.ne_of_lt)

theorem sublist {kept : List α} (increasing : Increasing key l) (part : kept.Sublist l) : Increasing key kept :=
  List.Pairwise.sublist part increasing

theorem filter (increasing : Increasing key l) (p : α → Bool) : Increasing key (l.filter p) :=
  increasing.sublist List.filter_sublist

/-- One element to a key. -/
theorem unique (increasing : Increasing key l) {y : α} (first : x ∈ l) (second : y ∈ l) (same : key x = key y) : x = y :=
  List.inj_on_of_nodup_map increasing.nodup_keys first second same

/-- A list is known by its elements. -/
theorem ext {other : List α} (first : Increasing key l) (second : Increasing key other) (same : ∀ x, x ∈ l ↔ x ∈ other) :
    l = other :=
  ((List.perm_ext_iff_of_nodup first.nodup second.nodup).mpr same).eq_of_pairwise
    (fun _ _ _ _ below above => absurd below (Nat.lt_asymm above)) first second

theorem put (increasing : Increasing key l) (x : α) : Increasing key (put key x l) := by
  refine List.pairwise_append.mpr ⟨increasing.filter _, List.pairwise_cons.mpr ⟨?_, increasing.filter _⟩, ?_⟩
  · intro y member
    simpa using (List.mem_filter.mp member).2
  · intro y member z other
    have below : key y < key x := by simpa using (List.mem_filter.mp member).2
    rcases List.mem_cons.mp other with rfl | later
    · exact below
    · have above : key x < key z := by simpa using (List.mem_filter.mp later).2
      omega

theorem takeWhile_below (increasing : Increasing key l) (threshold : Nat) :
    l.takeWhile (key · < threshold) = l.filter (key · < threshold) := by
  induction l with
  | nil => rfl
  | cons x rest ih =>
    obtain ⟨first, later⟩ := List.pairwise_cons.mp increasing
    by_cases below : key x < threshold
    · simp [below, ih later]
    · have none_below : ∀ y ∈ rest, ¬ key y < threshold := fun y member => by
        have := first y member
        omega
      simpa [below] using none_below

theorem dropWhile_below (increasing : Increasing key l) (threshold : Nat) :
    l.dropWhile (key · < threshold) = l.filter (threshold ≤ key ·) := by
  induction l with
  | nil => rfl
  | cons x rest ih =>
    obtain ⟨first, later⟩ := List.pairwise_cons.mp increasing
    by_cases below : key x < threshold
    · simp [below, ih later]
    · have reached : ∀ y ∈ rest, threshold ≤ key y := fun y member => by
        have := first y member
        omega
      have here : threshold ≤ key x := by omega
      rw [List.filter_cons_of_pos (by simpa using here), List.filter_eq_self.mpr (by simpa using reached),
        List.dropWhile_cons_of_neg (by simpa using below)]

/-- The part before the first element that fails a test, by its key. -/
theorem takeWhile_eq (increasing : Increasing key l) {p : α → Bool} {first : α} (member : first ∈ l) (fails : p first = false)
    (earliest : ∀ x ∈ l, p x = false → key first ≤ key x) : l.takeWhile p = l.filter (key · < key first) := by
  induction l with
  | nil => rfl
  | cons x rest ih =>
    obtain ⟨before, later⟩ := List.pairwise_cons.mp increasing
    rcases List.mem_cons.mp member with rfl | inside
    · have none_below : ∀ y ∈ rest, ¬ key y < key first := fun y member => by
        have := before y member
        omega
      simpa [fails] using none_below
    · have below := before first inside
      have passes : p x = true := by
        by_contra failed
        have := earliest x List.mem_cons_self (by simpa using failed)
        omega
      simp [passes, below, ih later inside fun y member => earliest y (List.mem_cons_of_mem _ member)]

/-- What is before an element from the front is from the front too. -/
theorem mem_takeWhile_of_le (increasing : Increasing key l) {p : α → Bool} {y : α} (member : x ∈ l.takeWhile p)
    (inside : y ∈ l) (below : key y ≤ key x) : y ∈ l.takeWhile p := by
  induction l with
  | nil => cases inside
  | cons first rest ih =>
    obtain ⟨before, later⟩ := List.pairwise_cons.mp increasing
    by_cases passes : p first = true
    · rw [List.takeWhile_cons_of_pos passes] at member ⊢
      rcases List.mem_cons.mp inside with rfl | inside'
      · exact List.mem_cons_self
      · have := before y inside'
        rcases List.mem_cons.mp member with rfl | member'
        · omega
        · exact List.mem_cons_of_mem _ (ih later member' inside')
    · rw [List.takeWhile_cons_of_neg passes] at member
      cases member

/-- The last key is the largest. -/
theorem le_getLast (increasing : Increasing key l) {last : α} (ends : l.getLast? = some last) (member : x ∈ l) :
    key x ≤ key last := by
  obtain ⟨before, rfl⟩ := List.getLast?_eq_some_iff.mp ends
  rcases List.mem_append.mp member with earlier | here
  · exact Nat.le_of_lt ((List.pairwise_append.mp increasing).2.2 x earlier last List.mem_cons_self)
  · rw [List.mem_singleton.mp here]

/-- Keys without a gap from a start on are consecutive. -/
theorem consecutive (increasing : Increasing key l) {start : Nat} (above : ∀ x ∈ l, start ≤ key x)
    (gapless : ∀ x ∈ l, ∀ number, start ≤ number → number ≤ key x → ∃ y ∈ l, key y = number) :
    l.map key = List.range' start l.length := by
  induction l generalizing start with
  | nil => rfl
  | cons x rest ih =>
    obtain ⟨before, later⟩ := List.pairwise_cons.mp increasing
    have first : key x = start := by
      obtain ⟨y, member, same⟩ := gapless x List.mem_cons_self start le_rfl (above x List.mem_cons_self)
      rcases List.mem_cons.mp member with rfl | inside
      · exact same
      · have := before y inside
        have := above x List.mem_cons_self
        omega
    have above' : ∀ y ∈ rest, start + 1 ≤ key y := fun y inside => by
      have := before y inside
      omega
    have gapless' : ∀ y ∈ rest, ∀ number, start + 1 ≤ number → number ≤ key y → ∃ z ∈ rest, key z = number :=
      fun y inside number low high => by
        obtain ⟨z, member, same⟩ := gapless y (List.mem_cons_of_mem _ inside) number (by omega) high
        rcases List.mem_cons.mp member with rfl | other
        · omega
        · exact ⟨z, other, same⟩
    simp [first, ih later above' gapless', List.range'_succ]

end Increasing

theorem mem_sort : x ∈ sort key l ↔ x ∈ l := (List.mergeSort_perm l _).mem_iff

theorem increasing_sort (apart : (l.map key).Nodup) : Increasing key (sort key l) := by
  have ordered : (sort key l).Pairwise fun x y => key x ≤ key y := by
    have sorted : (sort key l).Pairwise fun x y => decide (key x ≤ key y) = true := List.pairwise_mergeSort
      (fun x y z => by simpa using Nat.le_trans) (fun x y => by simpa using Nat.le_total (key x) (key y)) l
    exact sorted.imp fun below => by simpa using below
  have unequal : (sort key l).Pairwise fun x y => key x ≠ key y :=
    List.pairwise_map.mp ((((List.mergeSort_perm l _).map key).nodup_iff).mpr apart)
  exact ordered.imp₂ (fun _ _ below apart => lt_of_le_of_ne below apart) unequal

theorem mem_put {y : α} : y ∈ put key x l ↔ y = x ∨ y ∈ l ∧ key y ≠ key x := by
  simp only [put, List.mem_append, List.mem_cons, List.mem_filter, decide_eq_true_eq]
  constructor
  · rintro (⟨member, below⟩ | rfl | ⟨member, above⟩)
    · exact .inr ⟨member, by omega⟩
    · exact .inl rfl
    · exact .inr ⟨member, by omega⟩
  · rintro (rfl | ⟨member, apart⟩)
    · exact .inr (.inl rfl)
    · rcases Nat.lt_or_gt_of_ne apart with below | above
      · exact .inl ⟨member, below⟩
      · exact .inr (.inr ⟨member, above⟩)

theorem put_perm (x : α) (l : List α) : (put key x l).Perm (x :: l.filter (key · ≠ key x)) := by
  refine List.perm_middle.trans (List.Perm.cons x ?_)
  have split := List.filter_append_perm (fun y => decide (key y < key x)) (l.filter (key · ≠ key x))
  rw [List.filter_filter, List.filter_filter] at split
  refine (List.Perm.of_eq ?_).trans split
  congr 1 <;> refine List.filter_congr fun y _ => ?_
  · by_cases below : key y < key x <;> simp [below, Nat.ne_of_lt]
  · by_cases below : key y < key x
    · have : ¬ key x < key y := by omega
      simp [below, this]
    · by_cases same : key y = key x
      · simp [same]
      · have : key x < key y := by omega
        simp [below, same, this]

/-! ## Runs of keys -/

variable (key) in
theorem keys_run (next : Nat) (l : List α) : (run key next l).map key = List.range' next (run key next l).length := by
  induction l generalizing next with
  | nil => rfl
  | cons x rest ih =>
    unfold run
    split
    · rename_i here
      rw [List.map_cons, List.length_cons, List.range'_succ, ih (next + 1), here]
    · rfl

variable (key) in
/-- The readies are consecutive, from a key that is not after the start. -/
theorem readies_consecutive (start : Nat) (l : List α) :
    ∃ first, (readies key start l).map key = List.range' first (readies key start l).length ∧
      (readies key start l ≠ [] → first ≤ start ∧ ∃ x ∈ l, key x = first) := by
  cases l with
  | nil => exact ⟨start, rfl, fun nonempty => absurd rfl nonempty⟩
  | cons x rest =>
    have shape : readies key start (x :: rest) = if start < key x then [] else run key (key x) (x :: rest) := rfl
    rw [shape]
    refine ⟨key x, ?_⟩
    split
    · exact ⟨rfl, fun nonempty => absurd rfl nonempty⟩
    · rename_i reached
      exact ⟨keys_run _ _ _, fun _ => ⟨Nat.le_of_not_lt reached, x, List.mem_cons_self, rfl⟩⟩

end Sorted
