import Snowside.Partial.Maps
import Snowside.State.BoundedBuffer
import Snowside.Text

/-! A cache with a ring of the keys in the order of their Puts: the oldest key leaves
when the ring is full, and its entry with it.
-/

set_option autoImplicit false

namespace Snowside.State

open BoundedBuffer (Holds holds_new kept)
open Maps Stateful

variable {K V : Type} [DecidableEq K]

structure BufferFIFOCache (K V : Type) where
  buffer : BoundedBuffer K
  m : Map K V

inductive FIFOCache (K V : Type) where
  | buffered (cache : BufferFIFOCache K V)
  | noOp

namespace BufferFIFOCache

/-- The callback of the ring. It has no error to return. -/
def remove (key : K) : Action Text (Map K V) Unit := modify fun m => m.erase key

/-- Put, which ignores the result of Insert. -/
def put [Inhabited K] (f : BufferFIFOCache K V) (key : K) (val : V) : BufferFIFOCache K V :=
  let (buffer, m) := (perform (BoundedBuffer.insert remove key) (f.buffer, f.m)).2
  { buffer, m := m.insert key val }

def get (f : BufferFIFOCache K V) (key : K) : Option V := f.m.lookup key

end BufferFIFOCache

namespace FIFOCache

/-- NewFIFOCache. Without room it is a cache that does nothing. -/
def new [Inhabited K] (limit : Int) : FIFOCache K V :=
  if limit ≤ 0 then .noOp else .buffered { buffer := .new limit, m := ∅ }

def put [Inhabited K] (cache : FIFOCache K V) (key : K) (val : V) : FIFOCache K V :=
  match cache with
  | .buffered f => .buffered (f.put key val)
  | .noOp => .noOp

def get (cache : FIFOCache K V) (key : K) : Option V :=
  match cache with
  | .buffered f => f.get key
  | .noOp => none

/-- How many entries it has. -/
def size (cache : FIFOCache K V) : Nat :=
  match cache with
  | .buffered f => f.m.keys.length
  | .noOp => 0

def puts [Inhabited K] (cache : FIFOCache K V) (items : List (K × V)) : FIFOCache K V :=
  items.foldl (fun cache item => cache.put item.1 item.2) cache

end FIFOCache

/-! ## The last Put of a key -/

/-- The last Put of the key is at this place. -/
structure LastAt (items : List (K × V)) (i : Nat) (key : K) (val : V) : Prop where
  put : items[i]? = some (key, val)
  last : ∀ j > i, ∀ later, items[j]? ≠ some (key, later)

section

variable {items : List (K × V)} {item : K × V} {i : Nat} {key : K} {val : V} {limit : Nat}

omit [DecidableEq K] in
theorem LastAt.below (last : LastAt items i key val) : i < items.length := (List.getElem?_eq_some_iff.mp last.put).1

omit [DecidableEq K] in
theorem LastAt.unique {i' : Nat} {val' : V} (one : LastAt items i key val) (other : LastAt items i' key val') :
    i = i' ∧ val = val' := by
  have same : i = i' := by
    rcases Nat.lt_trichotomy i i' with before | same | after
    · exact absurd other.put (one.last i' before val')
    · exact same
    · exact absurd one.put (other.last i after val)
  subst same
  exact ⟨rfl, congrArg Prod.snd (Option.some.inj (one.put.symm.trans other.put))⟩

omit [DecidableEq K] in
theorem getElem?_concat (items : List (K × V)) (item : K × V) (j : Nat) :
    (items ++ [item])[j]? = if j = items.length then some item else items[j]? := by
  rcases Nat.lt_trichotomy j items.length with inside | here | outside
  · rw [if_neg inside.ne, List.getElem?_append_left inside]
  · rw [if_pos here, here, List.getElem?_concat_length]
  · rw [if_neg outside.ne', List.getElem?_eq_none outside.le,
      List.getElem?_eq_none (by rw [List.length_append, List.length_singleton]; omega)]

omit [DecidableEq K] in
theorem lastAt_concat_same (same : item.1 = key) :
    LastAt (items ++ [item]) i key val ↔ i = items.length ∧ item.2 = val := by
  have newest : (items ++ [item])[items.length]? = some (key, item.2) := by
    rw [List.getElem?_concat_length, ← same]
  constructor
  · intro last
    have here : i = items.length := by
      have below := last.below
      rw [List.length_append, List.length_singleton] at below
      by_contra other
      exact last.last items.length (by omega) item.2 newest
    subst here
    exact ⟨rfl, congrArg Prod.snd (Option.some.inj (newest.symm.trans last.put))⟩
  · rintro ⟨rfl, rfl⟩
    refine ⟨newest, fun j after later found => ?_⟩
    have below := (List.getElem?_eq_some_iff.mp found).1
    rw [List.length_append, List.length_singleton] at below
    omega

omit [DecidableEq K] in
theorem lastAt_concat_other (other : item.1 ≠ key) : LastAt (items ++ [item]) i key val ↔ LastAt items i key val := by
  have same (j : Nat) (later : V) : (items ++ [item])[j]? = some (key, later) ↔ items[j]? = some (key, later) := by
    rw [getElem?_concat]
    split
    · next here =>
      rw [here, List.getElem?_eq_none le_rfl]
      exact iff_of_false (fun found => other (congrArg Prod.fst (Option.some.inj found))) (Option.some_ne_none (key, later)).symm
    · exact .rfl
  constructor
  · exact fun last => ⟨(same i val).mp last.put, fun j after later found => last.last j after later ((same j later).mpr found)⟩
  · exact fun last => ⟨(same i val).mpr last.put, fun j after later found => last.last j after later ((same j later).mp found)⟩

/-! ## What the map holds -/

/-- The last Put of the key is at this place, and no Put after it has called back with the key. -/
structure Held (limit : Nat) (items : List (K × V)) (i : Nat) (key : K) (val : V) : Prop extends LastAt items i key val where
  stays : ∀ place ≤ i, ∀ former, items[place]? = some (key, former) → i < place + limit → items.length ≤ place + limit

omit [DecidableEq K] in
theorem held_concat_same (same : item.1 = key) : Held limit (items ++ [item]) i key val ↔ i = items.length ∧ item.2 = val := by
  constructor
  · exact fun held => (lastAt_concat_same same).mp held.toLastAt
  · intro newest
    refine { (lastAt_concat_same same).mpr newest with stays := fun place _ former _ near => ?_ }
    rw [List.length_append, List.length_singleton]
    omega

omit [DecidableEq K] in
/-- What the ring gives up for the next item is no longer held. -/
theorem held_concat_other (other : item.1 ≠ key) : Held limit (items ++ [item]) i key val ↔
    Held limit items i key val ∧ (limit ≤ items.length → ∀ former, items[items.length - limit]? ≠ some (key, former)) := by
  have same {j : Nat} (inside : j < items.length) (former : V) :
      (items ++ [item])[j]? = some (key, former) ↔ items[j]? = some (key, former) := by
    rw [List.getElem?_append_left inside]
  constructor
  · intro held
    have last := (lastAt_concat_other other).mp held.toLastAt
    have below := last.below
    have stays {place : Nat} (earlier : place ≤ i) {former : V} (put : items[place]? = some (key, former))
        (near : i < place + limit) : items.length < place + limit := by
      have stays := held.stays place earlier former ((same (by omega) former).mpr put) near
      rwa [List.length_append, List.length_singleton] at stays
    refine ⟨{ last with stays := fun place earlier former put near => (stays earlier put near).le }, fun full former put => ?_⟩
    -- The place that leaves the ring is not behind the last Put of the key.
    have earlier : items.length - limit ≤ i := by
      by_contra later
      exact last.last _ (by omega) former put
    have stays := stays earlier put (by omega)
    omega
  · rintro ⟨held, keeps⟩
    have below := held.below
    refine { (lastAt_concat_other other).mpr held.toLastAt with stays := fun place earlier former put near => ?_ }
    have put := (same (by omega) former).mp put
    have stays := held.stays place earlier former put near
    rw [List.length_append, List.length_singleton]
    rcases stays.lt_or_eq with room | full
    · exact room
    · refine absurd put ?_
      rw [show place = items.length - limit by omega]
      exact keeps (by omega) former

end

/-! ## Putting -/

section

variable [Inhabited K] {limit : Nat} {items : List (K × V)} {f : BufferFIFOCache K V}

/-- The cache after these Puts: the ring has their keys, and the map is what the ring has left of it. -/
structure Filled (limit : Nat) (items : List (K × V)) (f : BufferFIFOCache K V) : Prop where
  ring : Holds limit (items.map Prod.fst) f.buffer
  entries : ∀ key val, f.get key = some val ↔ ∃ i, Held limit items i key val

omit [Inhabited K] in
theorem lookup_remove (m : Map K V) (oldest key : K) :
    (m.erase oldest).lookup key = if key = oldest then none else m.lookup key := by
  split
  · next same => rw [same, AList.lookup_erase]
  · next other => exact AList.lookup_erase_ne other

/-- Insert without room takes the oldest key out of the map. -/
theorem Filled.insert (filled : Filled limit items f) (positive : 0 < limit) (key : K) : ∃ buffer m,
    perform (BoundedBuffer.insert BufferFIFOCache.remove key) (f.buffer, f.m) = (.ok (), (buffer, m)) ∧
      Holds limit (items.map Prod.fst ++ [key]) buffer ∧
      ∀ other val, m.lookup other = some val ↔ f.get other = some val ∧
        (limit ≤ items.length → ∀ former, items[items.length - limit]? ≠ some (other, former)) := by
  rcases Nat.lt_or_ge items.length limit with room | full
  · obtain ⟨buffer, inserted, ring⟩ := filled.ring.insert_room positive (by simpa using room) BufferFIFOCache.remove f.m key
    exact ⟨buffer, f.m, inserted, ring, fun other val => (and_iff_left fun full => absurd room full.not_gt).symm⟩
  · -- The ring calls back with the key that has been in it for longest.
    have long : limit ≤ (items.map Prod.fst).length := by simpa using full
    have inside : items.length - limit < items.length := by omega
    have oldest : (items.map Prod.fst)[(items.map Prod.fst).length - limit] = items[items.length - limit].1 := by simp
    have called : perform (BufferFIFOCache.remove ((items.map Prod.fst)[(items.map Prod.fst).length - limit])) f.m =
        (.ok (), f.m.erase items[items.length - limit].1) := by
      rw [oldest]
      rfl
    obtain ⟨buffer, inserted, ring⟩ := filled.ring.insert_full positive long called key
    refine ⟨buffer, _, inserted, ring, fun other val => ?_⟩
    rw [lookup_remove, List.getElem?_eq_getElem inside]
    split
    · next same =>
      refine iff_of_false (Option.some_ne_none val).symm fun found => found.2 full items[items.length - limit].2 ?_
      rw [same]
    · next apart =>
      refine (and_iff_left fun _ former put => apart ?_).symm
      rw [Option.some.inj put]

theorem Filled.put (filled : Filled limit items f) (positive : 0 < limit) (key : K) (val : V) :
    Filled limit (items ++ [(key, val)]) (f.put key val) := by
  obtain ⟨buffer, m, inserted, ring, left⟩ := filled.insert positive key
  have after : f.put key val = { buffer, m := m.insert key val } := by
    rw [BufferFIFOCache.put, inserted]
  rw [after]
  refine ⟨by simpa using ring, fun other later => ?_⟩
  by_cases same : key = other
  · subst same
    simp only [BufferFIFOCache.get, AList.lookup_insert, held_concat_same]
    simp
  · have apart : (key, val).1 ≠ other := same
    rw [BufferFIFOCache.get, AList.lookup_insert_ne (Ne.symm same), left, filled.entries]
    simp only [held_concat_other apart, exists_and_right]

/-- A cache with room after any Puts. -/
theorem filled_puts (positive : 0 < limit) (items : List (K × V)) :
    ∃ f, (FIFOCache.new limit).puts items = .buffered f ∧ Filled limit items f := by
  induction items using List.reverseRecOn with
  | nil =>
    refine ⟨_, if_neg (by omega), holds_new limit, fun key val => iff_of_false (Option.some_ne_none val).symm ?_⟩
    rintro ⟨i, held⟩
    exact Nat.not_lt_zero i held.below
  | append_singleton items item ih =>
    obtain ⟨f, reached, filled⟩ := ih
    refine ⟨f.put item.1 item.2, ?_, filled.put positive item.1 item.2⟩
    have step : (FIFOCache.new limit).puts (items ++ [item]) = ((FIFOCache.new limit).puts items).put item.1 item.2 :=
      List.foldl_append
    rw [step, reached]
    rfl

end

/-! ## What the cache promises -/

/-- The last value of a key that is among the last so many. -/
def promised (limit : Nat) (items : List (K × V)) (key : K) : Option V :=
  if key ∈ (kept limit items).map Prod.fst then items.reverse.lookup key else none

/-- What the cache has is what was put last, and no more entries than its limit. -/
structure KeepsLatest (limit : Nat) (items : List (K × V)) (cache : FIFOCache K V) : Prop where
  get : ∀ key, cache.get key = promised limit items key
  size : cache.size ≤ limit

/-- When the last Put of a key is among the last so many, then the Puts of the same key
that are closer to it than the limit are among them too. -/
def Spaced (limit : Nat) (keys : List K) : Prop :=
  ∀ i (inside : i < keys.length), keys[i] ∉ keys.drop (i + 1) → keys.length ≤ i + limit →
    ∀ place < i, keys[place]? = some keys[i] → i < place + limit → keys.length ≤ place + limit

instance (limit : Nat) (keys : List K) : Decidable (Spaced limit keys) :=
  inferInstanceAs (Decidable (∀ i (inside : i < keys.length), keys[i] ∉ keys.drop (i + 1) → keys.length ≤ i + limit →
    ∀ place < i, keys[place]? = some keys[i] → i < place + limit → keys.length ≤ place + limit))

omit [DecidableEq K] in
theorem spaced_of_nodup {limit : Nat} {keys : List K} (distinct : keys.Nodup) : Spaced limit keys := by
  intro i inside _ _ place earlier same _
  rw [List.getElem?_eq_getElem (by omega), Option.some.injEq, distinct.getElem_inj_iff] at same
  omega

section

variable {items : List (K × V)} {i : Nat} {key : K} {val : V} {limit : Nat}

theorem lookup_reverse_eq_some_iff : items.reverse.lookup key = some val ↔ ∃ i, LastAt items i key val := by
  induction items using List.reverseRecOn with
  | nil =>
    refine iff_of_false (Option.some_ne_none val).symm ?_
    rintro ⟨i, last⟩
    exact Nat.not_lt_zero i last.below
  | append_singleton items item ih =>
    rw [List.reverse_append, List.reverse_singleton, List.singleton_append, List.lookup_cons]
    by_cases same : item.1 = key
    · simp [lastAt_concat_same same, same]
    · rw [beq_false_of_ne (Ne.symm same), ih]
      simp only [lastAt_concat_other same]

omit [DecidableEq K] in
theorem mem_kept_iff : key ∈ (kept limit items).map Prod.fst ↔
    ∃ place former, items.length ≤ place + limit ∧ items[place]? = some (key, former) := by
  rw [kept]
  constructor
  · intro among
    obtain ⟨⟨_, former⟩, member, rfl⟩ := List.mem_map.mp among
    obtain ⟨j, found⟩ := List.mem_iff_getElem?.mp member
    rw [List.getElem?_drop] at found
    exact ⟨items.length - limit + j, former, by omega, found⟩
  · rintro ⟨place, former, near, found⟩
    refine List.mem_map.mpr ⟨(key, former), List.mem_iff_getElem?.mpr ⟨place - (items.length - limit), ?_⟩, rfl⟩
    rw [List.getElem?_drop, Nat.add_sub_cancel' (by omega), found]

theorem promised_eq_some_iff : promised limit items key = some val ↔
    ∃ i, LastAt items i key val ∧ items.length ≤ i + limit := by
  unfold promised
  split
  · next among =>
    rw [lookup_reverse_eq_some_iff]
    refine exists_congr fun i => (and_iff_left_of_imp fun last => ?_).symm
    obtain ⟨place, former, near, put⟩ := mem_kept_iff.mp among
    by_contra far
    exact last.last place (by omega) former put
  · next absent =>
    refine iff_of_false (Option.some_ne_none val).symm ?_
    rintro ⟨i, last, near⟩
    exact absent (mem_kept_iff.mpr ⟨i, val, near, last.put⟩)

omit [DecidableEq K] in
theorem lastAt_iff : (∃ val, LastAt items i key val) ↔
    ∃ inside : i < (items.map Prod.fst).length, (items.map Prod.fst)[i] = key ∧ key ∉ (items.map Prod.fst).drop (i + 1) := by
  constructor
  · rintro ⟨val, last⟩
    have inside : i < (items.map Prod.fst).length := by simpa using last.below
    refine ⟨inside, ?_, fun later => ?_⟩
    · have put := congrArg (Option.map Prod.fst) last.put
      rw [← List.getElem?_map, List.getElem?_eq_getElem inside] at put
      exact Option.some.inj put
    · rw [← List.map_drop] at later
      obtain ⟨⟨_, val'⟩, member, rfl⟩ := List.mem_map.mp later
      obtain ⟨j, found⟩ := List.mem_iff_getElem?.mp member
      rw [List.getElem?_drop] at found
      exact last.last (i + 1 + j) (by omega) val' found
  · rintro ⟨inside, rfl, absent⟩
    have below : i < items.length := by simpa using inside
    refine ⟨items[i].2, ?_, fun j after later found => absent ?_⟩
    · rw [List.getElem?_eq_getElem below, List.getElem_map]
    · refine List.mem_iff_getElem?.mpr ⟨j - (i + 1), ?_⟩
      rw [List.getElem?_drop, Nat.add_sub_cancel' (by omega), List.getElem?_map, found]
      rfl

variable {f : BufferFIFOCache K V}

theorem Filled.size_le (filled : Filled limit items f) (positive : 0 < limit) : f.m.keys.length ≤ limit := by
  have subset : f.m.keys ⊆ (kept limit items).map Prod.fst := by
    intro key member
    obtain ⟨val, found⟩ := Option.isSome_iff_exists.mp (AList.lookup_isSome.mpr (AList.mem_keys.mpr member))
    obtain ⟨i, held⟩ := (filled.entries key val).mp found
    exact mem_kept_iff.mpr ⟨i, val, held.stays i le_rfl val held.put (by omega), held.put⟩
  calc f.m.keys.length ≤ ((kept limit items).map Prod.fst).length := (List.subperm_of_subset f.m.keys_nodup subset).length_le
    _ ≤ limit := by
      rw [List.length_map, kept, List.length_drop]
      omega

/-- The entries are the promised ones exactly when no key stands in the ring a second time behind its last Put. -/
theorem Filled.get_iff (filled : Filled limit items f) (positive : 0 < limit) :
    (∀ key, f.get key = promised limit items key) ↔ Spaced limit (items.map Prod.fst) := by
  constructor
  · intro same i inside absent near place earlier repeated close
    obtain ⟨val, last⟩ := lastAt_iff.mpr ⟨inside, rfl, absent⟩
    rw [List.length_map] at near ⊢
    have found := (same _).trans (promised_eq_some_iff.mpr ⟨i, last, near⟩)
    obtain ⟨i', held⟩ := (filled.entries _ val).mp found
    obtain ⟨rfl, -⟩ := held.toLastAt.unique last
    rw [List.getElem?_map, Option.map_eq_some_iff] at repeated
    obtain ⟨⟨_, former⟩, put, rfl⟩ := repeated
    exact held.stays place earlier.le former put close
  · intro spaced key
    refine Option.ext fun val => ?_
    rw [filled.entries, promised_eq_some_iff]
    refine exists_congr fun i => ⟨fun held => ⟨held.toLastAt, held.stays i le_rfl val held.put (by omega)⟩, ?_⟩
    rintro ⟨last, near⟩
    refine { last with stays := fun place earlier former put close => ?_ }
    rcases earlier.lt_or_eq with before | rfl
    · -- An earlier Put so close to the last one has not left the ring either.
      obtain ⟨inside, rfl, absent⟩ := lastAt_iff.mp ⟨val, last⟩
      have spaced := spaced i inside absent (by rwa [List.length_map]) place before (by rw [List.getElem?_map, put]; rfl) close
      rwa [List.length_map] at spaced
    · exact near

theorem Filled.keepsLatest_iff (filled : Filled limit items f) (positive : 0 < limit) :
    KeepsLatest limit items (.buffered f) ↔ Spaced limit (items.map Prod.fst) :=
  ⟨fun keeps => (filled.get_iff positive).mp keeps.get,
    fun spaced => ⟨(filled.get_iff positive).mpr spaced, filled.size_le positive⟩⟩

variable [Inhabited K]

/-- Keys that are put once are kept for as many Puts as the limit says. -/
theorem puts_keepsLatest_of_distinct (positive : 0 < limit) (distinct : (items.map Prod.fst).Nodup) :
    KeepsLatest limit items ((FIFOCache.new limit).puts items) := by
  obtain ⟨f, reached, filled⟩ := filled_puts positive items
  rw [reached, filled.keepsLatest_iff positive]
  exact spaced_of_nodup distinct

theorem puts_keepsLatest_iff (limit : Nat) (positive : 0 < limit) (items : List (K × V)) :
    KeepsLatest limit items ((FIFOCache.new limit).puts items) ↔ Spaced limit (items.map Prod.fst) := by
  obtain ⟨f, reached, filled⟩ := filled_puts positive items
  rw [reached, filled.keepsLatest_iff positive]

theorem puts_keepsLatest_apart : 0 < 2 ∧
    KeepsLatest 2 [(1, 5), (2, 6), (1, 7)] ((FIFOCache.new 2).puts [(1, 5), (2, 6), (1, 7)]) :=
  ⟨by decide, (puts_keepsLatest_iff 2 (by decide) _).mpr (by decide)⟩

/-- The second Put of a key leaves with the place of the first one. -/
theorem puts_forgets_repeated : ¬ ∀ (limit : Nat) (items : List (Nat × Nat)), 0 < limit →
    KeepsLatest limit items ((FIFOCache.new limit).puts items) := by
  intro always
  exact absurd ((always 2 [(1, 5), (1, 6), (2, 7)] (by decide)).get 1) (by decide)

end

end Snowside.State
