import Mathlib.Tactic.Ring
import Snowside.Partial.Stateful

/-! The buffer of the most recent items: a ring of fixed size that calls back with an
item before it overwrites it.
-/

set_option autoImplicit false

namespace Snowside.State

open Stateful

structure BoundedBuffer (K : Type) where
  lastPos : Int
  size : Int
  cycled : Bool
  buffer : List K

variable {K E S : Type}

namespace BoundedBuffer

def new [Inhabited K] (size : Int) : BoundedBuffer K where
  lastPos := -1
  size := size
  cycled := false
  buffer := List.replicate size.toNat default

/-- An operation of the callback, beside the buffer. -/
def onCallback (action : Action E S Unit) : Action E (BoundedBuffer K × S) Unit :=
  zoom Prod.snd (fun state both => (both.1, state)) action

/-- Insert. That the buffer has cycled stays recorded when the callback fails. -/
def insert [Inhabited K] (callback : K → Action E S Unit) (h : K) : Action E (BoundedBuffer K × S) Unit := do
  let (b, _) ← get
  let nextPos := if b.lastPos + 1 = b.size then 0 else b.lastPos + 1
  let cycled := b.cycled || b.lastPos + 1 = b.size
  modify fun both => ({ b with cycled }, both.2)
  if cycled then onCallback (callback (b.buffer.getD nextPos.toNat default))
  modify fun both => ({ b with cycled, buffer := b.buffer.set nextPos.toNat h, lastPos := nextPos }, both.2)

def last [Inhabited K] (b : BoundedBuffer K) : Option K :=
  if b.lastPos = -1 then none else some (b.buffer.getD b.lastPos.toNat default)

/-- The items in it, from the oldest on. -/
def contents (b : BoundedBuffer K) : List K :=
  (if b.cycled then b.buffer.drop (b.lastPos + 1).toNat else []) ++ b.buffer.take (b.lastPos + 1).toNat

/-! ## The ring as a queue -/

/-- The items that a buffer of this size has given up. -/
def givenUp (size : Nat) (items : List K) : List K := items.take (items.length - size)

/-- The items that a buffer of this size keeps. -/
def kept (size : Nat) (items : List K) : List K := items.drop (items.length - size)

theorem givenUp_append_kept (size : Nat) (items : List K) : givenUp size items ++ kept size items = items :=
  List.take_append_drop _ items

theorem givenUp_room {size : Nat} {items : List K} (room : items.length < size) (h : K) :
    givenUp size (items ++ [h]) = givenUp size items := by
  rw [givenUp, givenUp, List.length_append, List.length_singleton, Nat.sub_eq_zero_of_le room, Nat.sub_eq_zero_of_le room.le]
  rfl

theorem givenUp_full {size : Nat} {items : List K} (positive : 0 < size) (full : size ≤ items.length) (h : K) :
    givenUp size (items ++ [h]) = givenUp size items ++ [items[items.length - size]] := by
  have length : (items ++ [h]).length - size = items.length - size + 1 := by
    rw [List.length_append, List.length_singleton]
    omega
  rw [givenUp, givenUp, length, List.take_append_of_le_length (by omega)]
  exact List.take_succ_eq_append_getElem (by omega)

theorem mod_succ {size : Nat} (positive : 0 < size) (n : Nat) : (n + 1) % size = if n % size + 1 = size then 0 else n % size + 1 := by
  have below := Nat.mod_lt n positive
  have parts := Nat.div_add_mod n size
  split
  · next wraps =>
    refine Nat.mod_eq_iff.mpr (.inr ⟨positive, n / size + 1, ?_⟩)
    rw [Nat.mul_add, Nat.mul_one]
    omega
  · exact Nat.mod_eq_iff.mpr (.inr ⟨by omega, n / size, by omega⟩)

/-- The buffer has been given the items, in this order. -/
structure Holds (size : Nat) (items : List K) (b : BoundedBuffer K) : Prop where
  size_eq : b.size = size
  length : b.buffer.length = size
  lastPos : b.lastPos + 1 = if items = [] then 0 else ((items.length - 1) % size + 1 : Nat)
  wraps : size < items.length → b.cycled
  cycled : b.cycled → size ≤ items.length
  cells : ∀ i < items.length, items.length ≤ i + size → b.buffer[i % size]? = items[i]?

section

variable {size : Nat} {items : List K} {b : BoundedBuffer K}

theorem holds_new [Inhabited K] (size : Nat) : Holds size [] (new size : BoundedBuffer K) where
  size_eq := rfl
  length := List.length_replicate
  lastPos := rfl
  wraps long := absurd long (Nat.not_lt_zero size)
  cycled cycles := nomatch cycles
  cells i below := absurd below (Nat.not_lt_zero i)

/-- The place of the next item. -/
theorem Holds.nextPos (holds : Holds size items b) (positive : 0 < size) :
    (if b.lastPos + 1 = b.size then 0 else b.lastPos + 1) = ((items.length % size : Nat) : Int) := by
  rw [holds.lastPos, holds.size_eq]
  by_cases empty : items = []
  · subst empty
    rw [if_pos rfl, if_neg (by omega)]
    simp
  · have some_items := List.length_pos_iff.mpr empty
    have place := mod_succ positive (items.length - 1)
    rw [Nat.sub_add_cancel some_items] at place
    rw [if_neg empty, place]
    norm_cast

/-- The buffer cycles when it is full. -/
theorem Holds.cycles (holds : Holds size items b) (positive : 0 < size) :
    (b.cycled || b.lastPos + 1 = b.size) = decide (size ≤ items.length) := by
  have place := holds.lastPos
  have below := Nat.mod_lt (items.length - 1) positive
  rw [Bool.eq_iff_iff, Bool.or_eq_true, decide_eq_true_iff, decide_eq_true_iff, place, holds.size_eq]
  constructor
  · rintro (cycled | last)
    · exact holds.cycled cycled
    · split at last
      · omega
      · have small := Nat.mod_le (items.length - 1) size
        have some_items := List.length_pos_iff.mpr ‹items ≠ []›
        omega
  · intro full
    rcases full.lt_or_eq with more | same
    · exact .inl (holds.wraps more)
    · right
      rw [if_neg fun empty => by simp [empty] at same; omega, ← same, Nat.mod_eq_of_lt (by omega)]
      omega

/-- The item that the next one would overwrite. -/
theorem Holds.oldest [Inhabited K] (holds : Holds size items b) (positive : 0 < size) (full : size ≤ items.length) :
    b.buffer.getD (items.length % size) default = items[items.length - size] := by
  have same : (items.length - size) % size = items.length % size := (Nat.mod_eq_sub_mod full).symm
  have inside : items.length - size < items.length := by omega
  have cell := holds.cells (items.length - size) inside (by omega)
  rw [same, List.getElem?_eq_getElem inside] at cell
  rw [List.getD_eq_getElem?_getD, cell, Option.getD_some]

/-- An item has been written to its place. -/
theorem Holds.write (holds : Holds size items b) (positive : 0 < size) (h : K) :
    Holds size (items ++ [h]) { b with
      cycled := decide (size ≤ items.length), buffer := b.buffer.set (items.length % size) h, lastPos := (items.length % size : Nat) } where
  size_eq := holds.size_eq
  length := List.length_set.trans holds.length
  lastPos := by simp
  wraps long := by
    rw [List.length_append, List.length_singleton] at long
    exact decide_eq_true (by omega)
  cycled cycles := by
    rw [List.length_append]
    exact (of_decide_eq_true cycles).trans (Nat.le_add_right _ _)
  cells i below near := by
    rw [List.length_append, List.length_singleton] at below near
    rcases (Nat.lt_succ_iff.mp below).lt_or_eq with earlier | rfl
    · have apart : items.length % size ≠ i % size := by
        intro same
        have apart := Nat.sub_mod_eq_zero_of_mod_eq same
        rw [Nat.mod_eq_of_lt (by omega)] at apart
        omega
      rw [List.getElem?_set_ne apart, holds.cells i earlier (by omega), List.getElem?_append_left earlier]
    · have inside : items.length % size < b.buffer.length := holds.length.symm ▸ Nat.mod_lt _ positive
      rw [List.getElem?_set_self inside, List.getElem?_concat_length]

/-! ## Inserting -/

variable [Inhabited K] {callback : K → Action E S Unit} {state : S}

/-- Insert on a buffer that has been given the items. -/
theorem Holds.perform_insert (holds : Holds size items b) (positive : 0 < size) (h : K) :
    perform (insert callback h) (b, state) = perform (do
        if decide (size ≤ items.length) then onCallback (callback (b.buffer.getD (items.length % size) default))
        modify fun both => ({ b with
          cycled := decide (size ≤ items.length), buffer := b.buffer.set (items.length % size) h
          lastPos := (items.length % size : Nat) }, both.2))
      ({ b with cycled := decide (size ≤ items.length) }, state) := by
  unfold insert
  rw [perform_get_bind]
  simp only [holds.nextPos positive, holds.cycles positive, Int.toNat_natCast]
  rw [perform_modify_bind]

/-- Before the buffer is full nothing is called back. -/
theorem Holds.insert_room (holds : Holds size items b) (positive : 0 < size) (room : items.length < size) (callback : K → Action E S Unit)
    (state : S) (h : K) :
    ∃ after, perform (insert callback h) (b, state) = (.ok (), (after, state)) ∧ Holds size (items ++ [h]) after := by
  refine ⟨_, ?_, holds.write positive h⟩
  rw [holds.perform_insert positive, decide_eq_false room.not_ge]
  rfl

/-- A full buffer gives up its oldest item. -/
theorem Holds.insert_full (holds : Holds size items b) (positive : 0 < size) (full : size ≤ items.length) {later : S}
    (called : perform (callback items[items.length - size]) state = (.ok (), later)) (h : K) :
    ∃ after, perform (insert callback h) (b, state) = (.ok (), (after, later)) ∧ Holds size (items ++ [h]) after := by
  refine ⟨_, ?_, holds.write positive h⟩
  rw [holds.perform_insert positive, decide_eq_true full, holds.oldest positive full]
  have called : perform (onCallback (callback items[items.length - size])) ({ b with cycled := true }, state) =
      (.ok (), ({ b with cycled := true }, later)) := by
    rw [onCallback, perform_zoom, called]
  exact perform_bind_ok called

/-- A failed callback leaves the buffer as it is. -/
theorem Holds.insert_refused (holds : Holds size items b) (positive : 0 < size) (full : size ≤ items.length) {later : S} {error : E}
    (called : perform (callback items[items.length - size]) state = (.error error, later)) (h : K) :
    perform (insert callback h) (b, state) = (.error error, ({ b with cycled := true }, later)) ∧
      Holds size items { b with cycled := true } := by
  refine ⟨?_, { holds with wraps := fun _ => rfl, cycled := fun _ => full }⟩
  rw [holds.perform_insert positive, decide_eq_true full, holds.oldest positive full]
  have called : perform (onCallback (callback items[items.length - size])) ({ b with cycled := true }, state) =
      (.error error, ({ b with cycled := true }, later)) := by
    rw [onCallback, perform_zoom, called]
  exact perform_bind_error called

/-! ## What is in the buffer -/

theorem Holds.last_eq (holds : Holds size items b) (positive : 0 < size) : b.last = items.getLast? := by
  have place := holds.lastPos
  by_cases empty : items = []
  · subst empty
    rw [if_pos rfl] at place
    exact if_pos (by omega)
  · rw [if_neg empty] at place
    have some_items := List.length_pos_iff.mpr empty
    have at_last : b.lastPos = ((items.length - 1) % size : Nat) := by omega
    have cell := holds.cells (items.length - 1) (by omega) (by omega)
    rw [last, at_last, if_neg (by omega), Int.toNat_natCast, List.getD_eq_getElem?_getD, cell, List.getLast?_eq_getElem?,
      List.getElem?_eq_getElem (by omega), Option.getD_some]

omit [Inhabited K] in
theorem Holds.contents_cycled (holds : Holds size items b) (positive : 0 < size) (full : size ≤ items.length) {place : Nat}
    (last : (items.length - 1) % size + 1 = place) : b.buffer.drop place ++ b.buffer.take place = kept size items := by
  have below := Nat.mod_lt (items.length - 1) positive
  have parts := Nat.div_add_mod (items.length - 1) size
  have length : (b.buffer.drop place).length = size - place := by rw [List.length_drop, holds.length]
  refine List.ext_getElem? fun j => ?_
  rw [kept, List.getElem?_drop]
  rcases Nat.lt_or_ge j (size - place) with older | newer
  · -- Behind the newest item stand those of the turn before.
    rw [List.getElem?_append_left (length ▸ older), List.getElem?_drop, ← holds.cells _ (by omega) (by omega)]
    refine congrArg (b.buffer[·]?) (Nat.mod_eq_iff.mpr (.inr ⟨by omega, (items.length - 1) / size - 1, ?_⟩)).symm
    rcases turns : (items.length - 1) / size with _ | turns
    · rw [turns] at parts
      omega
    · rw [turns, Nat.mul_add] at parts
      rw [Nat.add_sub_cancel]
      omega
  · rw [List.getElem?_append_right (length ▸ newer), length]
    rcases Nat.lt_or_ge j size with inside | outside
    · rw [List.getElem?_take_of_lt (by omega), ← holds.cells _ (by omega) (by omega)]
      exact congrArg (b.buffer[·]?) (Nat.mod_eq_iff.mpr (.inr ⟨by omega, (items.length - 1) / size, by omega⟩)).symm
    · rw [List.getElem?_take_eq_none (by omega), List.getElem?_eq_none (by omega)]

omit [Inhabited K] in
/-- The buffer has the last items that it has been given. -/
theorem Holds.contents_eq (holds : Holds size items b) (positive : 0 < size) : b.contents = kept size items := by
  have place := holds.lastPos
  by_cases empty : items = []
  · subst empty
    have uncycled : b.cycled = false := Bool.eq_false_iff.mpr fun cycled => positive.ne' (Nat.le_zero.mp (holds.cycled cycled))
    rw [if_pos rfl] at place
    simp [contents, uncycled, place, kept]
  rw [if_neg empty] at place
  have some_items := List.length_pos_iff.mpr empty
  rw [contents, place, Int.toNat_natCast]
  by_cases cycled : b.cycled
  · rw [if_pos cycled]
    exact holds.contents_cycled positive (holds.cycled cycled) rfl
  · have short : items.length ≤ size := Nat.le_of_not_lt fun more => cycled (holds.wraps more)
    rw [if_neg cycled, List.nil_append, Nat.mod_eq_of_lt (by omega), Nat.sub_add_cancel some_items, kept, Nat.sub_eq_zero_of_le short]
    refine List.ext_getElem? fun j => ?_
    rcases Nat.lt_or_ge j items.length with inside | outside
    · have cell := holds.cells j inside (by omega)
      rw [Nat.mod_eq_of_lt (by omega)] at cell
      rw [List.getElem?_take_of_lt inside, cell, List.drop_zero]
    · rw [List.getElem?_take_eq_none outside, List.drop_zero, List.getElem?_eq_none outside]

end

/-! ## Runs -/

section

variable [Inhabited K]

/-- The callback, with a list of the items that it was called with and gave up. -/
def recorded (callback : K → Action E S Unit) (k : K) : Action E (S × List K) Unit := do
  zoom Prod.fst (fun state both => (state, both.2)) (callback k)
  modify fun both => (both.1, both.2 ++ [k])

structure Progress (K S : Type) where
  buffer : BoundedBuffer K
  state : S
  called : List K
  /-- The items whose Insert succeeded. -/
  accepted : List K

def Progress.insert (callback : K → Action E S Unit) (progress : Progress K S) (h : K) : Progress K S :=
  match perform (BoundedBuffer.insert (recorded callback) h) (progress.buffer, progress.state, progress.called) with
  | (.ok _, (buffer, state, called)) => { buffer, state, called, accepted := progress.accepted ++ [h] }
  | (.error _, (buffer, state, called)) => { progress with buffer, state, called }

/-- Inserts on a new buffer, whatever their callbacks do. -/
def inserts (callback : K → Action E S Unit) (size : Nat) (state : S) (items : List K) : Progress K S :=
  items.foldl (Progress.insert callback) { buffer := new size, state, called := [], accepted := [] }

variable {callback : K → Action E S Unit} {size : Nat} {progress : Progress K S}

omit [Inhabited K] in
theorem perform_recorded_ok {k : K} {state later : S} (called : List K) (ended : perform (callback k) state = (.ok (), later)) :
    perform (recorded callback k) (state, called) = (.ok (), (later, called ++ [k])) := by
  have zoomed : perform (zoom Prod.fst (fun state both => (state, both.2)) (callback k)) (state, called) =
      (.ok (), (later, called)) := by
    rw [perform_zoom, ended]
  exact perform_bind_ok zoomed

omit [Inhabited K] in
theorem perform_recorded_error {k : K} {state later : S} {error : E} (called : List K)
    (ended : perform (callback k) state = (.error error, later)) :
    perform (recorded callback k) (state, called) = (.error error, (later, called)) := by
  have zoomed : perform (zoom Prod.fst (fun state both => (state, both.2)) (callback k)) (state, called) =
      (.error error, (later, called)) := by
    rw [perform_zoom, ended]
  exact perform_bind_error zoomed

/-- The callback has given up all but the last of the accepted items. -/
structure Progress.Queued (size : Nat) (progress : Progress K S) : Prop where
  holds : Holds size progress.accepted progress.buffer
  called : progress.called = givenUp size progress.accepted

/-- An Insert succeeds and appends, or fails and leaves the items as they are. -/
theorem Progress.Queued.cases (queued : progress.Queued size) (positive : 0 < size) (callback : K → Action E S Unit) (h : K) :
    (∃ buffer state, perform (BoundedBuffer.insert (recorded callback) h) (progress.buffer, progress.state, progress.called) =
        (.ok (), (buffer, state, givenUp size (progress.accepted ++ [h]))) ∧ Holds size (progress.accepted ++ [h]) buffer) ∨
    ∃ buffer state error, perform (BoundedBuffer.insert (recorded callback) h) (progress.buffer, progress.state, progress.called) =
        (.error error, (buffer, state, progress.called)) ∧ Holds size progress.accepted buffer := by
  rcases Nat.lt_or_ge progress.accepted.length size with room | full
  · obtain ⟨buffer, inserted, holds⟩ := queued.holds.insert_room positive room (recorded callback) (progress.state, progress.called) h
    refine .inl ⟨buffer, progress.state, ?_, holds⟩
    rw [inserted, queued.called, givenUp_room room]
  rcases ended : perform (callback progress.accepted[progress.accepted.length - size]) progress.state with ⟨result, later⟩
  cases result with
  | ok =>
    obtain ⟨buffer, inserted, holds⟩ := queued.holds.insert_full positive full (perform_recorded_ok progress.called ended) h
    refine .inl ⟨buffer, later, ?_, holds⟩
    rw [inserted, givenUp_full positive full, ← queued.called]
  | error error =>
    obtain ⟨refused, holds⟩ := queued.holds.insert_refused positive full (perform_recorded_error progress.called ended) h
    exact .inr ⟨_, later, error, refused, holds⟩

theorem Progress.Queued.insert (queued : progress.Queued size) (positive : 0 < size) (h : K) :
    (progress.insert callback h).Queued size := by
  rcases queued.cases positive callback h with ⟨buffer, state, inserted, holds⟩ | ⟨buffer, state, error, refused, holds⟩
  · rw [Progress.insert, inserted]
    exact ⟨holds, rfl⟩
  · rw [Progress.insert, refused]
    exact ⟨holds, queued.called⟩

theorem queued_inserts (positive : 0 < size) (state : S) (items : List K) : (inserts callback size state items).Queued size := by
  have start : ({ buffer := new size, state, called := [], accepted := [] } : Progress K S).Queued size :=
    ⟨holds_new size, List.take_nil.symm⟩
  unfold inserts
  generalize ({ buffer := new size, state, called := [], accepted := [] } : Progress K S) = progress at start
  induction items generalizing progress with
  | nil => exact start
  | cons h rest ih => exact ih _ (start.insert positive h)

end

end BoundedBuffer

end Snowside.State
