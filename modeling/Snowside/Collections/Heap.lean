import Mathlib.Data.List.Perm.Basic
import Mathlib.Order.Lattice
import Mathlib.Order.Nat
import Mathlib.Tactic.Common

/-! Binary heaps on a list: each element comes before its two children, at twice its place and one or two more. -/

set_option autoImplicit false

namespace Heap

variable {α : Type}

/-- An order in which different elements may be equal. -/
structure Weak (less : α → α → Bool) : Prop where
  asymm : ∀ x y, less x y = true → less y x = false
  trans : ∀ x y z, less y x = false → less z y = false → less z x = false

theorem Weak.irrefl {less : α → α → Bool} (weak : Weak less) (x : α) : less x x = false := by
  cases same : less x x with
  | false => rfl
  | true => exact same.symm.trans (weak.asymm x x same)

/-! ## Two elements in each other's place -/

def swap (h : List α) (i j : Nat) : List α :=
  match h[i]?, h[j]? with
  | some x, some y => (h.set i y).set j x
  | _, _ => h

section

variable {h : List α} {i j : Nat}

@[simp] theorem length_swap (h : List α) (i j : Nat) : (swap h i j).length = h.length := by
  unfold swap
  split <;> simp

theorem swap_eq {x y : α} (first : h[i]? = some x) (second : h[j]? = some y) : swap h i j = (h.set i y).set j x := by
  unfold swap
  rw [first, second]

theorem getElem?_swap (first : i < h.length) (second : j < h.length) (k : Nat) :
    (swap h i j)[k]? = if k = j then h[i]? else if k = i then h[j]? else h[k]? := by
  rw [swap_eq (List.getElem?_eq_getElem first) (List.getElem?_eq_getElem second), List.getElem?_set, List.getElem?_set,
    List.getElem?_eq_getElem first, List.getElem?_eq_getElem second, List.length_set]
  by_cases last : j = k
  · rw [if_pos last, if_pos last.symm, if_pos (last ▸ second)]
  · rw [if_neg last, if_neg (Ne.symm last)]
    by_cases here : i = k
    · rw [if_pos here, if_pos here.symm, if_pos (here ▸ first)]
    · rw [if_neg here, if_neg (Ne.symm here)]

theorem swap_perm (h : List α) (i j : Nat) : (swap h i j).Perm h := by
  by_cases inside : i < h.length ∧ j < h.length
  · obtain ⟨first, second⟩ := inside
    rw [swap_eq (List.getElem?_eq_getElem first) (List.getElem?_eq_getElem second)]
    exact List.set_set_perm first second
  · unfold swap
    split
    · next x y there other =>
      exact absurd ⟨(List.getElem?_eq_some_iff.mp there).1, (List.getElem?_eq_some_iff.mp other).1⟩ inside
    · exact .refl h

end

/-! ## Operations -/

variable (less : α → α → Bool)

def lessAt (h : List α) (i j : Nat) : Bool :=
  match h[i]?, h[j]? with
  | some x, some y => less x y
  | _, _ => false

def up (h : List α) (j : Nat) : List α :=
  let i := (j - 1) / 2
  if j = 0 then h else if lessAt less h j i then up (swap h i j) i else h
  termination_by j
  decreasing_by omega

/-- The child that comes first, if there is one below `n`. -/
def firstChild (h : List α) (i n : Nat) : Option Nat :=
  let j1 := 2 * i + 1
  if n ≤ j1 then none
  else if j1 + 1 < n ∧ lessAt less h (j1 + 1) j1 then some (j1 + 1)
  else some j1

variable {less} in
theorem firstChild_bounds {h : List α} {i n j : Nat} (found : firstChild less h i n = some j) :
    i < j ∧ j < n ∧ (j = 2 * i + 1 ∨ j = 2 * i + 2) := by
  simp only [firstChild] at found
  split at found
  · cases found
  · split at found <;> cases found <;> omega

/-- Among the first `n` elements; where the element has come to rest is also returned. -/
def down (h : List α) (i n : Nat) : List α × Nat :=
  match _found : firstChild less h i n with
  | some j => if lessAt less h j i then down (swap h i j) j n else (h, i)
  | none => (h, i)
  termination_by n - i
  decreasing_by
    have bounds := firstChild_bounds _found
    omega

/-- Down from the places below `k`, the last one first. -/
def initFrom (h : List α) : Nat → List α
  | 0 => h
  | k + 1 => initFrom (down less h k h.length).1 k

def init (h : List α) : List α := initFrom less h (h.length / 2)

def push (h : List α) (x : α) : List α := up less (h ++ [x]) h.length

/-- Down from the place, or up if it does not move. -/
def fixWithin (h : List α) (i n : Nat) : List α :=
  let (after, rest) := down less h i n
  if i < rest then after else up less after i

def fix (h : List α) (i : Nat) : List α := fixWithin less h i h.length

/-- The first element, and the heap without it. -/
def pop (h : List α) : Option (α × List α) :=
  let n := h.length - 1
  let after := (down less (swap h 0 n) 0 n).1
  after[n]?.map fun x => (x, after.take n)

def remove (h : List α) (i : Nat) : Option (α × List α) :=
  let n := h.length - 1
  let after := if n = i then h else fixWithin less (swap h i n) i n
  after[n]?.map fun x => (x, after.take n)

/-! ## The order -/

section

variable {less} {h : List α} {i j p c lo n k : Nat}

/-- The first of two places holds nothing that comes after what the second holds. -/
def InPlace (less : α → α → Bool) (h : List α) (p c : Nat) : Prop :=
  ∀ x y, h[p]? = some x → h[c]? = some y → less y x = false

def Child (p c : Nat) : Prop := c = 2 * p + 1 ∨ c = 2 * p + 2

theorem Child.lt (child : Child p c) : p < c := by
  unfold Child at child
  omega

theorem Child.parent (child : Child p c) : (c - 1) / 2 = p := by
  unfold Child at child
  omega

theorem child_parent (positive : c ≠ 0) : Child ((c - 1) / 2) c := by
  unfold Child
  omega

/-- Among the first `n` places, those from `lo` on are not after their children. -/
def OrderedFrom (less : α → α → Bool) (h : List α) (lo n : Nat) : Prop :=
  ∀ p c, Child p c → c < n → lo ≤ p → InPlace less h p c

def Ordered (less : α → α → Bool) (h : List α) : Prop := OrderedFrom less h 0 h.length

/-- All is in order but what stands at one place, whose children are not before its parent. -/
structure Hole (less : α → α → Bool) (h : List α) (lo n i : Nat) : Prop where
  others : ∀ p c, Child p c → c < n → lo ≤ p → p ≠ i → c ≠ i → InPlace less h p c
  around : ∀ p c, Child p i → Child i c → c < n → lo ≤ p → InPlace less h p c

/-- The element in the hole is not before its parent. -/
def Above (less : α → α → Bool) (h : List α) (lo i : Nat) : Prop := ∀ p, Child p i → lo ≤ p → InPlace less h p i

/-- The element in the hole is not after its children. -/
def Below (less : α → α → Bool) (h : List α) (n i : Nat) : Prop := ∀ c, Child i c → c < n → InPlace less h i c

theorem lessAt_eq_true : lessAt less h i j = true ↔ ∃ x y, h[i]? = some x ∧ h[j]? = some y ∧ less x y = true := by
  unfold lessAt
  cases h[i]? <;> cases h[j]? <;> simp

theorem inPlace_of_lessAt (apart : lessAt less h c p = false) : InPlace less h p c := by
  intro x y first second
  unfold lessAt at apart
  rw [first, second] at apart
  exact apart

theorem OrderedFrom.hole (ordered : OrderedFrom less h (i + 1) n) : Hole less h i n i where
  others p c child inside low apart _ := ordered p c child inside (by omega)
  around p c parent child _ low := by
    have := parent.lt
    omega

theorem Hole.closed (hole : Hole less h lo n i) (above : Above less h lo i) (below : Below less h n i) :
    OrderedFrom less h lo n := by
  intro p c child inside low
  by_cases up : p = i
  · exact up ▸ below c (up ▸ child) inside
  · by_cases here : c = i
    · exact here ▸ above p (here ▸ child) low
    · exact hole.others p c child inside low up here

/-! ## One step -/

/-- The other child is not before the one that comes first. -/
theorem firstChild_sibling (weak : Weak less) (first : firstChild less h i n = some j) (other : Child i c) (inside : c < n)
    (apart : c ≠ j) : InPlace less h j c := by
  simp only [firstChild] at first
  unfold Child at other
  split at first
  · cases first
  · split at first
    · next chosen =>
      cases first
      have left : c = 2 * i + 1 := by omega
      subst left
      intro x y one another
      obtain ⟨x', y', one', another', before⟩ := lessAt_eq_true.mp chosen.2
      cases one.symm.trans one'
      cases another.symm.trans another'
      exact weak.asymm _ _ before
    · next chosen =>
      cases first
      have right : c = 2 * i + 1 + 1 := by omega
      subst right
      exact inPlace_of_lessAt (Bool.eq_false_iff.mpr fun before => chosen ⟨inside, before⟩)

theorem firstChild_below (weak : Weak less) (first : firstChild less h i n = some j) (within : n ≤ h.length)
    (apart : lessAt less h j i = false) : Below less h n i := by
  intro c other inside x y one another
  have bounds := firstChild_bounds first
  obtain ⟨z, middle⟩ : ∃ z, h[j]? = some z := ⟨_, List.getElem?_eq_getElem (by omega)⟩
  have upper := inPlace_of_lessAt apart x z one middle
  by_cases same : c = j
  · cases (same ▸ another).symm.trans middle
    exact upper
  · exact weak.trans x z y upper (firstChild_sibling weak first other inside same z y middle another)

theorem Hole.sink (weak : Weak less) (hole : Hole less h lo n i) (within : n ≤ h.length)
    (first : firstChild less h i n = some j) (before : lessAt less h j i = true) :
    Hole less (swap h i j) lo n j ∧ Above less (swap h i j) lo j := by
  obtain ⟨lower, inside, child⟩ := firstChild_bounds first
  obtain ⟨low, high, atChild, atHole, less'⟩ := lessAt_eq_true.mp before
  have moved : ∀ k, (swap h i j)[k]? = if k = j then some high else if k = i then some low else h[k]? := by
    intro k
    rw [getElem?_swap (by omega) (by omega), atChild, atHole]
  refine ⟨⟨?others, ?around⟩, ?above⟩
  case others =>
    intro p c joined below bound apart away x y one another
    rw [moved, if_neg apart] at one
    rw [moved, if_neg away] at another
    by_cases up : p = i
    · subst up
      rw [if_pos rfl] at one
      rw [if_neg joined.lt.ne'] at another
      exact firstChild_sibling weak first joined below away x y (atChild.trans one) another
    · rw [if_neg up] at one
      by_cases here : c = i
      · subst here
        rw [if_pos rfl] at another
        exact hole.around p j joined child inside bound x y one (atChild.trans another)
      · rw [if_neg here] at another
        exact hole.others p c joined below bound up here x y one another
  case around =>
    intro p c parent joined below bound x y one another
    have same : p = i := parent.parent.symm.trans (Child.parent child)
    subst same
    have under := joined.lt
    rw [moved, if_neg lower.ne, if_pos rfl] at one
    rw [moved, if_neg under.ne', if_neg (by omega)] at another
    exact hole.others j c joined below (by omega) lower.ne' (by omega) x y (atChild.trans one) another
  case above =>
    intro p parent _ x y one another
    have same : p = i := parent.parent.symm.trans (Child.parent child)
    subst same
    rw [moved, if_neg lower.ne, if_pos rfl] at one
    rw [moved, if_pos rfl] at another
    cases one
    cases another
    exact weak.asymm _ _ less'

theorem Hole.rise (weak : Weak less) (hole : Hole less h 0 n j) (within : n ≤ h.length) (inside : j < n)
    (child : Child i j) (below : Below less h n j) (before : lessAt less h j i = true) :
    Hole less (swap h i j) 0 n i ∧ Below less (swap h i j) n i := by
  have lower := child.lt
  obtain ⟨low, high, atHole, atParent, less'⟩ := lessAt_eq_true.mp before
  have moved : ∀ k, (swap h i j)[k]? = if k = j then some high else if k = i then some low else h[k]? := by
    intro k
    rw [getElem?_swap (by omega) (by omega), atHole, atParent]
  have beside : ∀ c y, Child i c → c < n → c ≠ j → h[c]? = some y → less y high = false :=
    fun c y other under apart found => hole.others i c other under (Nat.zero_le i) lower.ne apart high y atParent found
  refine ⟨⟨?others, ?around⟩, ?below⟩
  case others =>
    intro p c joined under _ apart away x y one another
    rw [moved, if_neg apart] at one
    rw [moved, if_neg away] at another
    by_cases same : p = j
    · subst same
      rw [if_pos rfl] at one
      rw [if_neg joined.lt.ne'] at another
      exact hole.around i c child joined under (Nat.zero_le i) x y (atParent.trans one) another
    · rw [if_neg same] at one
      by_cases here : c = j
      · exact absurd (joined.parent.symm.trans (here ▸ child.parent)) apart
      · rw [if_neg here] at another
        exact hole.others p c joined under (Nat.zero_le p) same here x y one another
  case around =>
    intro p c parent joined under _ x y one another
    have past := parent.lt
    rw [moved, if_neg (by omega), if_neg past.ne] at one
    rw [moved, if_neg joined.lt.ne'] at another
    have upper := hole.others p i parent (by omega) (Nat.zero_le p) (by omega) lower.ne x high one atParent
    by_cases here : c = j
    · rw [if_pos here] at another
      cases another
      exact upper
    · rw [if_neg here] at another
      exact weak.trans x high y upper (beside c y joined under here another)
  case below =>
    intro c joined under x y one another
    rw [moved, if_neg lower.ne, if_pos rfl] at one
    rw [moved, if_neg joined.lt.ne'] at another
    cases one
    have turned := weak.asymm _ _ less'
    by_cases here : c = j
    · rw [if_pos here] at another
      cases another
      exact turned
    · rw [if_neg here] at another
      exact weak.trans low high y turned (beside c y joined under here another)

/-! ## Sifting -/

theorem Hole.down (weak : Weak less) (hole : Hole less h lo n i) (within : n ≤ h.length) :
    (down less h i n = (h, i) ∧ Below less h n i) ∨
      (i < (down less h i n).2 ∧ OrderedFrom less (down less h i n).1 lo n) := by
  induction h, i using down.induct less n with
  | case1 h i j first before ih =>
    obtain ⟨sunk, above⟩ := hole.sink weak within first before
    have lower := (firstChild_bounds first).1
    rw [down.eq_def, first]
    simp only [before, if_true]
    rcases ih sunk (by rwa [length_swap]) with ⟨stays, below⟩ | ⟨further, ordered⟩
    · rw [stays]
      exact .inr ⟨lower, sunk.closed above below⟩
    · exact .inr ⟨lower.trans further, ordered⟩
  | case2 h i j first apart =>
    rw [down.eq_def, first]
    simp only [apart, if_false, Bool.false_eq_true]
    exact .inl ⟨trivial, firstChild_below weak first within (Bool.eq_false_iff.mpr apart)⟩
  | case3 h i absent =>
    rw [down.eq_def, absent]
    refine .inl ⟨rfl, fun c other under => ?_⟩
    simp only [firstChild] at absent
    split at absent
    · unfold Child at other
      omega
    · split at absent <;> cases absent

theorem Hole.up (weak : Weak less) (hole : Hole less h 0 n j) (within : n ≤ h.length) (inside : j < n)
    (below : Below less h n j) : OrderedFrom less (up less h j) 0 n := by
  induction h, j using up.induct less with
  | case1 h =>
    rw [up.eq_def]
    simp only [if_true]
    exact hole.closed (fun p parent _ => absurd parent.lt (Nat.not_lt_zero p)) below
  | case2 h j i apart before ih =>
    have child : Child i j := child_parent apart
    obtain ⟨risen, below'⟩ := hole.rise weak within inside child below before
    rw [up.eq_def]
    simp only [if_neg apart]
    rw [if_pos before]
    exact ih risen (by rwa [length_swap]) (child.lt.trans inside) below'
  | case3 h j i apart before =>
    rw [up.eq_def]
    simp only [if_neg apart]
    rw [if_neg before]
    refine hole.closed (fun p parent _ => ?_) below
    exact parent.parent ▸ inPlace_of_lessAt (Bool.eq_false_iff.mpr before)

/-! ## What sifting keeps -/

variable (less) in
theorem down_perm (h : List α) (i n : Nat) : (down less h i n).1.Perm h := by
  induction h, i using down.induct less n with
  | case1 h i j first before ih =>
    rw [down.eq_def, first]
    simp only [before, if_true]
    exact ih.trans (swap_perm h i j)
  | case2 h i j first apart =>
    rw [down.eq_def, first]
    simp only [apart, if_false, Bool.false_eq_true]
    exact .refl h
  | case3 h i absent =>
    rw [down.eq_def, absent]

variable (less) in
theorem up_perm (h : List α) (j : Nat) : (up less h j).Perm h := by
  induction h, j using up.induct less with
  | case1 h =>
    rw [up.eq_def]
    simp only [if_true]
    exact .refl h
  | case2 h j i apart before ih =>
    rw [up.eq_def]
    simp only [if_neg apart]
    rw [if_pos before]
    exact ih.trans (swap_perm h i j)
  | case3 h j i apart before =>
    rw [up.eq_def]
    simp only [if_neg apart]
    rw [if_neg before]

theorem getElem?_down (within : n ≤ h.length) (outside : n ≤ k) : (down less h i n).1[k]? = h[k]? := by
  induction h, i using down.induct less n with
  | case1 h i j first before ih =>
    have bounds := firstChild_bounds first
    rw [down.eq_def, first]
    simp only [before, if_true]
    rw [ih (by rwa [length_swap]), getElem?_swap (by omega) (by omega), if_neg (by omega), if_neg (by omega)]
  | case2 h i j first apart =>
    rw [down.eq_def, first]
    simp only [apart, if_false, Bool.false_eq_true]
  | case3 h i absent =>
    rw [down.eq_def, absent]

theorem getElem?_up (inside : j < n) (within : n ≤ h.length) (outside : n ≤ k) : (up less h j)[k]? = h[k]? := by
  induction h, j using up.induct less with
  | case1 h =>
    rw [up.eq_def]
    simp only [if_true]
  | case2 h j i apart before ih =>
    have lower := (child_parent apart).lt
    rw [up.eq_def]
    simp only [if_neg apart]
    rw [if_pos before, ih (lower.trans inside) (by rwa [length_swap]), getElem?_swap (by omega) (by omega), if_neg (by omega),
      if_neg (by omega)]
  | case3 h j i apart before =>
    rw [up.eq_def]
    simp only [if_neg apart]
    rw [if_neg before]

variable (less) in
theorem fixWithin_perm (h : List α) (i n : Nat) : (fixWithin less h i n).Perm h := by
  unfold fixWithin
  simp only
  split
  · exact down_perm less h i n
  · exact (up_perm less _ i).trans (down_perm less h i n)

theorem getElem?_fixWithin (inside : i < n) (within : n ≤ h.length) (outside : n ≤ k) : (fixWithin less h i n)[k]? = h[k]? := by
  have same := (down_perm less h i n).length_eq
  unfold fixWithin
  simp only
  split
  · exact getElem?_down within outside
  · rw [getElem?_up inside (by omega) outside, getElem?_down within outside]

theorem Hole.fixWithin (weak : Weak less) (hole : Hole less h 0 n i) (inside : i < n) (within : n ≤ h.length) :
    OrderedFrom less (fixWithin less h i n) 0 n := by
  unfold Heap.fixWithin
  rcases hole.down weak within with ⟨stays, below⟩ | ⟨further, ordered⟩
  · rw [stays]
    simp only [lt_self_iff_false, if_false]
    exact hole.up weak within inside below
  · simp only [further, if_true]
    exact ordered

/-! ## The operations keep the order -/

theorem OrderedFrom.hole_of_others {h' : List α} (ordered : OrderedFrom less h lo n) (within : n ≤ h.length)
    (weak : Weak less) (others : ∀ k < n, k ≠ i → h'[k]? = h[k]?) : Hole less h' lo n i where
  others p c child inside low apart away x y one another := by
    rw [others p (child.lt.trans inside) apart] at one
    rw [others c inside away] at another
    exact ordered p c child inside low x y one another
  around p c parent child inside low x y one another := by
    have past := parent.lt
    have under := child.lt
    rw [others p (by omega) past.ne] at one
    rw [others c inside under.ne'] at another
    obtain ⟨z, middle⟩ : ∃ z, h[i]? = some z := ⟨_, List.getElem?_eq_getElem (by omega)⟩
    exact weak.trans x z y (ordered p i parent (by omega) low x z one middle)
      (ordered i c child inside (by omega) z y middle another)

theorem OrderedFrom.take (ordered : OrderedFrom less h 0 n) (within : n ≤ h.length) : Ordered less (h.take n) := by
  intro p c child inside _ x y one another
  rw [List.length_take, Nat.min_eq_left within] at inside
  rw [List.getElem?_take_of_lt (child.lt.trans inside)] at one
  rw [List.getElem?_take_of_lt inside] at another
  exact ordered p c child inside (Nat.zero_le p) x y one another

theorem ordered_initFrom (weak : Weak less) (ordered : OrderedFrom less h k h.length) : Ordered less (initFrom less h k) := by
  induction k generalizing h with
  | zero => exact ordered
  | succ k ih =>
    have same := (down_perm less h k h.length).length_eq
    have above : Above less h k k := fun p parent low => absurd parent.lt (Nat.not_lt_of_le low)
    refine ih ?_
    rw [same]
    rcases ordered.hole.down weak (Nat.le_refl _) with ⟨stays, below⟩ | ⟨_, ordered⟩
    · rw [stays]
      exact ordered.hole.closed above below
    · exact ordered

theorem ordered_init (weak : Weak less) (h : List α) : Ordered less (init less h) := by
  refine ordered_initFrom weak fun p c child inside low => ?_
  unfold Child at child
  omega

variable (less) in
theorem initFrom_perm (h : List α) (k : Nat) : (initFrom less h k).Perm h := by
  induction k generalizing h with
  | zero => exact .refl h
  | succ k ih => exact (ih _).trans (down_perm less h k h.length)

variable (less) in
theorem init_perm (h : List α) : (init less h).Perm h := initFrom_perm less h _

variable (less) in
theorem push_perm (h : List α) (x : α) : (push less h x).Perm (x :: h) :=
  (up_perm less _ _).trans (List.perm_append_singleton x h)

theorem length_push (h : List α) (x : α) : (push less h x).length = h.length + 1 := by
  rw [(push_perm less h x).length_eq, List.length_cons]

theorem Ordered.push (weak : Weak less) (ordered : Ordered less h) (x : α) : Ordered less (push less h x) := by
  have long : (h ++ [x]).length = h.length + 1 := by rw [List.length_append, List.length_singleton]
  have hole : Hole less (h ++ [x]) 0 (h.length + 1) h.length := by
    constructor
    · intro p c child inside low apart away y z one another
      have under := child.lt
      rw [List.getElem?_append_left (by omega)] at one another
      exact ordered p c child (by omega) low y z one another
    · intro p c _ child inside
      have under := child.lt
      omega
  have below : Below less (h ++ [x]) (h.length + 1) h.length := by
    intro c child inside
    have under := child.lt
    omega
  have risen := hole.up weak long.ge (Nat.lt_succ_self _) below
  unfold Ordered Heap.push
  rwa [(up_perm less _ _).length_eq, long]

theorem Ordered.fix (weak : Weak less) (ordered : Ordered less h) (inside : i < h.length) (x : α) :
    Ordered less (fix less (h.set i x) i) := by
  have long : (h.set i x).length = h.length := List.length_set
  have hole : Hole less (h.set i x) 0 h.length i :=
    OrderedFrom.hole_of_others ordered (Nat.le_refl _) weak fun k _ apart => by rw [List.getElem?_set, if_neg (Ne.symm apart)]
  unfold Ordered Heap.fix
  rw [(fixWithin_perm less _ _ _).length_eq, long]
  exact hole.fixWithin weak inside long.ge

variable (less) in
theorem fix_perm (h : List α) (i : Nat) : (fix less h i).Perm h := fixWithin_perm less h i _

/-- A sorted list is a heap. -/
theorem ordered_of_pairwise (sorted : h.Pairwise fun x y => less y x = false) : Ordered less h :=
  fun _ _ child _ _ x y first second => by
    obtain ⟨inside, rfl⟩ := List.getElem?_eq_some_iff.mp first
    obtain ⟨inside', rfl⟩ := List.getElem?_eq_some_iff.mp second
    exact List.pairwise_iff_getElem.mp sorted _ _ inside inside' child.lt

/-- Nothing in the heap is before its first element. -/
theorem Ordered.first (weak : Weak less) (ordered : Ordered less h) {x y : α} (first : h[0]? = some x) (member : y ∈ h) :
    less y x = false := by
  obtain ⟨k, found⟩ := List.mem_iff_getElem?.mp member
  clear member
  induction k using Nat.strongRecOn generalizing y with
  | ind k ih =>
    by_cases root : k = 0
    · subst root
      cases first.symm.trans found
      exact weak.irrefl x
    · have child := child_parent root
      have under := (List.getElem?_eq_some_iff.mp found).1
      obtain ⟨z, middle⟩ : ∃ z, h[(k - 1) / 2]? = some z := ⟨_, List.getElem?_eq_getElem (child.lt.trans under)⟩
      exact weak.trans x z y (ih _ child.lt middle) (ordered _ k child under (Nat.zero_le _) z y middle found)

/-- What `pop` and `remove` have in common: the last element leaves. -/
theorem last_leaves {x : α} {h' : List α} (perm : h'.Perm h) (last : h'[h.length - 1]? = some x) :
    h.Perm (x :: h'.take (h.length - 1)) := by
  have under := (List.getElem?_eq_some_iff.mp last).1
  have split : h' = h'.take (h.length - 1) ++ [x] := by
    conv_lhs => rw [← List.take_append_drop (h.length - 1) h']
    rw [List.drop_eq_getElem_cons under, (List.getElem?_eq_some_iff.mp last).2,
      List.drop_eq_nil_of_le (by rw [perm.length_eq]; omega)]
  rw [split] at perm
  exact perm.symm.trans (List.perm_append_singleton x _)

theorem Ordered.pop (weak : Weak less) (ordered : Ordered less h) {x : α} (first : h[0]? = some x) :
    ∃ rest, pop less h = some (x, rest) ∧ h.Perm (x :: rest) ∧ Ordered less rest := by
  have filled : 0 < h.length := (List.getElem?_eq_some_iff.mp first).1
  have long : (swap h 0 (h.length - 1)).length = h.length := length_swap h 0 _
  have hole : Hole less (swap h 0 (h.length - 1)) 0 (h.length - 1) 0 :=
    OrderedFrom.hole_of_others (n := h.length - 1)
      (fun p c child inside low => ordered p c child (by omega) low) (by omega) weak fun k under apart => by
        rw [getElem?_swap (by omega) (by omega), if_neg (by omega), if_neg apart]
  have sunk : OrderedFrom less (Heap.down less (swap h 0 (h.length - 1)) 0 (h.length - 1)).1 0 (h.length - 1) := by
    rcases hole.down weak (by omega) with ⟨stays, below⟩ | ⟨_, ordered⟩
    · rw [stays]
      exact hole.closed (fun p parent _ => absurd parent.lt (Nat.not_lt_zero p)) below
    · exact ordered
  have perm := (down_perm less (swap h 0 (h.length - 1)) 0 (h.length - 1)).trans (swap_perm h 0 _)
  have last : (Heap.down less (swap h 0 (h.length - 1)) 0 (h.length - 1)).1[h.length - 1]? = some x := by
    rw [getElem?_down (by omega) (Nat.le_refl _), getElem?_swap filled (by omega), if_pos rfl, first]
  refine ⟨_, ?_, last_leaves perm last, sunk.take (by rw [perm.length_eq]; omega)⟩
  unfold Heap.pop
  simp only [last, Option.map_some]

theorem pop_perm {x : α} {rest : List α} (popped : pop less h = some (x, rest)) : h.Perm (x :: rest) := by
  unfold pop at popped
  obtain ⟨y, last, same⟩ := Option.map_eq_some_iff.mp popped
  cases same
  exact last_leaves ((down_perm less (swap h 0 (h.length - 1)) 0 (h.length - 1)).trans (swap_perm h 0 _)) last

theorem length_lt_of_pop {x : α} {rest : List α} (popped : pop less h = some (x, rest)) : rest.length < h.length := by
  rw [(pop_perm popped).length_eq]
  exact Nat.lt_succ_self _

theorem Ordered.of_pop (weak : Weak less) (ordered : Ordered less h) {x : α} {rest : List α}
    (popped : Heap.pop less h = some (x, rest)) : Ordered less rest := by
  have filled := length_lt_of_pop popped
  obtain ⟨rest', popped', -, ordered'⟩ := ordered.pop weak (List.getElem?_eq_getElem (Nat.zero_lt_of_lt filled))
  rw [popped] at popped'
  cases popped'
  exact ordered'

theorem Ordered.remove (weak : Weak less) (ordered : Ordered less h) {x : α} (there : h[i]? = some x) :
    ∃ rest, remove less h i = some (x, rest) ∧ h.Perm (x :: rest) ∧ Ordered less rest := by
  have inside : i < h.length := (List.getElem?_eq_some_iff.mp there).1
  have short : OrderedFrom less h 0 (h.length - 1) := fun p c child under low => ordered p c child (by omega) low
  unfold Heap.remove
  by_cases last : h.length - 1 = i
  · have there' : h[h.length - 1]? = some x := last ▸ there
    refine ⟨_, ?_, last_leaves (.refl h) there', short.take (by omega)⟩
    simp only [if_pos last, there', Option.map_some]
  · have long : (swap h i (h.length - 1)).length = h.length := length_swap h i _
    have hole : Hole less (swap h i (h.length - 1)) 0 (h.length - 1) i :=
      short.hole_of_others (by omega) weak fun k under apart => by
        rw [getElem?_swap (by omega) (by omega), if_neg (by omega), if_neg apart]
    have perm := (fixWithin_perm less (swap h i (h.length - 1)) i (h.length - 1)).trans (swap_perm h i _)
    have end' : (Heap.fixWithin less (swap h i (h.length - 1)) i (h.length - 1))[h.length - 1]? = some x := by
      rw [getElem?_fixWithin (by omega) (by omega) (Nat.le_refl _), getElem?_swap inside (by omega), if_pos rfl, there]
    refine ⟨_, ?_, last_leaves perm end', (hole.fixWithin weak (by omega) (by omega)).take (by rw [perm.length_eq]; omega)⟩
    simp only [if_neg last, end', Option.map_some]

end

end Heap
