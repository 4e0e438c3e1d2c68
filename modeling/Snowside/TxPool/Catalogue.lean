import Snowside.TxPool.Priced

/-! What the lookup holds, and the nonces by what they answer. -/

set_option autoImplicit false

namespace Snowside.TxPool

open Evm (Address)
open Maps (Map values lookup_insert_eq lookup_erase_eq values_perm_erase values_insert)
open Precompile (Hash)

/-! ## The nonces -/

namespace Noncer

variable {txn : Noncer} {addr other : Address} {nonce : Nat}

/-- The answer of `get`. -/
def next (txn : Noncer) (addr : Address) : Nat := (txn.nonces.lookup addr).getD (txn.fallback addr)

theorem load_fallback : (txn.load addr).fallback = txn.fallback := by
  unfold load
  split <;> rfl

theorem next_load : (txn.load addr).next other = txn.next other := by
  unfold load
  split
  · rename_i missing
    unfold next
    dsimp only
    rw [lookup_insert_eq]
    by_cases same : other = addr
    · subst same
      simp [missing.1]
    · simp [same]
  · rfl

theorem lookup_load : ((txn.load addr).nonces.lookup addr).getD 0 = txn.next addr := by
  unfold load
  split
  · rename_i missing
    simp [next, missing.1]
  · rename_i known
    unfold next
    cases found : txn.nonces.lookup addr with
    | none => simpa [found] using (Decidable.not_not.mp fun zero => known ⟨found, zero⟩).symm
    | some _ => rfl

theorem get_eq : txn.get addr = (txn.next addr, txn.load addr) := congrArg (·, txn.load addr) lookup_load

theorem next_set : (txn.set addr nonce).next other = if other = addr then nonce else txn.next other := by
  unfold next set
  dsimp only
  rw [lookup_insert_eq]
  split <;> rfl

theorem setIfLower_fallback : (txn.setIfLower addr nonce).fallback = txn.fallback := by
  unfold setIfLower
  dsimp only
  split
  · exact load_fallback
  · exact (load_fallback : (txn.load addr).fallback = txn.fallback)

theorem next_setIfLower : (txn.setIfLower addr nonce).next other =
    if other = addr then min (txn.next addr) nonce else txn.next other := by
  unfold setIfLower
  simp only [lookup_load]
  by_cases low : txn.next addr ≤ nonce
  · rw [if_pos low, next_load, min_eq_left low]
    split
    · rename_i same
      rw [same]
    · rfl
  · rw [if_neg low, next_set, next_load, min_eq_right (Nat.le_of_not_le low)]

end Noncer

/-! ## The lookup -/

def slotsOf (txs : List Transaction) : Nat := (txs.map numSlots).sum

theorem slotsOf_perm {first second : List Transaction} (perm : first.Perm second) : slotsOf first = slotsOf second :=
  (perm.map numSlots).sum_eq

theorem slotsOf_cons (tx : Transaction) (txs : List Transaction) : slotsOf (tx :: txs) = numSlots tx + slotsOf txs := by
  simp [slotsOf]

theorem slotsOf_erase {map : Map Hash Transaction} {hash : Hash} {tx : Transaction} (found : map.lookup hash = some tx) :
    slotsOf (values map) = numSlots tx + slotsOf (values (map.erase hash)) := by
  rw [slotsOf_perm (values_perm_erase found), slotsOf_cons]

theorem slotsOf_insert {map : Map Hash Transaction} {hash : Hash} (tx : Transaction) (absent : map.lookup hash = none) :
    slotsOf (values (map.insert hash tx)) = numSlots tx + slotsOf (values map) := by
  rw [values_insert absent, slotsOf_cons]

/-- The lookup has exactly what is held: each under its hash, and either as local or as remote. -/
structure Catalogue (all : Lookup) (held : Transaction → Prop) : Prop where
  localsKeyed : ∀ hash tx, all.locals.lookup hash = some tx → tx.hash = hash
  remotesKeyed : ∀ hash tx, all.remotes.lookup hash = some tx → tx.hash = hash
  apart : ∀ hash, all.locals.lookup hash = none ∨ all.remotes.lookup hash = none
  known : ∀ tx, all.get tx.hash = some tx ↔ held tx
  slots : all.slots = ((slotsOf (values all.locals) + slotsOf (values all.remotes) : Nat) : Int)

namespace Catalogue

variable {all : Lookup} {held held' : Transaction → Prop} {tx : Transaction} {hash : Hash}

theorem congr (catalogue : Catalogue all held) (same : ∀ tx, held tx ↔ held' tx) : Catalogue all held' :=
  { catalogue with known := fun tx => (catalogue.known tx).trans (same tx) }

theorem get_iff (catalogue : Catalogue all held) : all.get hash = some tx ↔ tx.hash = hash ∧ held tx := by
  constructor
  · intro found
    have keyed : tx.hash = hash := by
      unfold Lookup.get at found
      cases locals : all.locals.lookup hash with
      | none =>
        rw [locals, Option.none_or] at found
        exact catalogue.remotesKeyed hash tx found
      | some tx' =>
        rw [locals, Option.some_or] at found
        cases found
        exact catalogue.localsKeyed hash tx locals
    exact ⟨keyed, (catalogue.known tx).mp (keyed ▸ found)⟩
  · rintro ⟨rfl, member⟩
    exact (catalogue.known tx).mpr member

/-- What is held is known by its hash. -/
theorem unique (catalogue : Catalogue all held) {other : Transaction} (first : held tx) (second : held other)
    (same : tx.hash = other.hash) : tx = other := by
  have found := (catalogue.known tx).mpr first
  rw [same, (catalogue.known other).mpr second] at found
  exact (Option.some.inj found).symm

theorem remove (catalogue : Catalogue all held) (member : held tx) :
    Catalogue (all.remove tx.hash) fun other => held other ∧ other ≠ tx := by
  have found := (catalogue.known tx).mpr member
  rw [Lookup.remove, found]
  refine ⟨?_, ?_, ?_, ?_, ?_⟩
  · intro hash other there
    rw [lookup_erase_eq] at there
    split at there
    · cases there
    · exact catalogue.localsKeyed hash other there
  · intro hash other there
    rw [lookup_erase_eq] at there
    split at there
    · cases there
    · exact catalogue.remotesKeyed hash other there
  · intro hash
    simp only [lookup_erase_eq]
    split
    · exact .inl rfl
    · exact catalogue.apart hash
  · intro other
    simp only [Lookup.get, lookup_erase_eq]
    by_cases same : other.hash = tx.hash
    · simp only [if_pos same, Option.or_none]
      constructor
      · intro absurd_
        cases absurd_
      · rintro ⟨there, differs⟩
        exact absurd (catalogue.unique there member same) differs
    · simp only [if_neg same]
      have differs : other ≠ tx := fun equal => same (congrArg Transaction.hash equal)
      exact (catalogue.known other).trans ⟨fun there => ⟨there, differs⟩, And.left⟩
  · have total := catalogue.slots
    unfold Lookup.get at found
    cases locals : all.locals.lookup tx.hash with
    | some tx' =>
      have remotes := (catalogue.apart tx.hash).resolve_left (by simp [locals])
      rw [locals, Option.some_or] at found
      cases found
      rw [slotsOf_erase locals] at total
      dsimp only
      rw [Maps.values_erase_absent remotes]
      omega
    | none =>
      rw [locals, Option.none_or] at found
      rw [slotsOf_erase found] at total
      dsimp only
      rw [Maps.values_erase_absent locals]
      omega

theorem add (catalogue : Catalogue all held) (fresh : all.get tx.hash = none) (isLocal : Bool) :
    Catalogue (all.add tx isLocal) fun other => held other ∨ other = tx := by
  obtain ⟨locals, remotes⟩ := Option.or_eq_none_iff.mp fresh
  have total := catalogue.slots
  have unheld (other : Transaction) (same : other.hash = tx.hash) : ¬ held other := fun there => by
    rw [← same, (catalogue.known other).mpr there] at fresh
    cases fresh
  have others (other : Transaction) (differs : other.hash ≠ tx.hash) : held other ∨ other = tx ↔ held other :=
    or_iff_left fun equal => differs (congrArg Transaction.hash equal)
  cases isLocal with
  | true =>
    refine ⟨?_, catalogue.remotesKeyed, ?_, ?_, ?_⟩
    · intro hash other there
      change (all.locals.insert tx.hash tx).lookup hash = some other at there
      rw [lookup_insert_eq] at there
      split at there
      · rename_i same
        cases there
        exact same.symm
      · exact catalogue.localsKeyed hash other there
    · intro hash
      change (all.locals.insert tx.hash tx).lookup hash = none ∨ all.remotes.lookup hash = none
      rw [lookup_insert_eq]
      split
      · rename_i same
        exact .inr (same ▸ remotes)
      · exact catalogue.apart hash
    · intro other
      change ((all.locals.insert tx.hash tx).lookup other.hash).or (all.remotes.lookup other.hash) = some other ↔ _
      rw [lookup_insert_eq]
      split
      · rename_i same
        simp [unheld other same, eq_comm]
      · rename_i differs
        rw [others other differs]
        exact catalogue.known other
    · change all.slots + numSlots tx = ((slotsOf (values (all.locals.insert tx.hash tx)) + slotsOf (values all.remotes) : Nat) : Int)
      rw [slotsOf_insert tx locals]
      omega
  | false =>
    refine ⟨catalogue.localsKeyed, ?_, ?_, ?_, ?_⟩
    · intro hash other there
      change (all.remotes.insert tx.hash tx).lookup hash = some other at there
      rw [lookup_insert_eq] at there
      split at there
      · rename_i same
        cases there
        exact same.symm
      · exact catalogue.remotesKeyed hash other there
    · intro hash
      change all.locals.lookup hash = none ∨ (all.remotes.insert tx.hash tx).lookup hash = none
      rw [lookup_insert_eq]
      split
      · rename_i same
        exact .inl (same ▸ locals)
      · exact catalogue.apart hash
    · intro other
      change (all.locals.lookup other.hash).or ((all.remotes.insert tx.hash tx).lookup other.hash) = some other ↔ _
      rw [lookup_insert_eq]
      split
      · rename_i same
        rw [same, locals]
        simp [unheld other same, eq_comm]
      · rename_i differs
        rw [others other differs]
        exact catalogue.known other
    · change all.slots + numSlots tx = ((slotsOf (values all.locals) + slotsOf (values (all.remotes.insert tx.hash tx)) : Nat) : Int)
      rw [slotsOf_insert tx remotes]
      omega

/-- A remote transaction becomes local. -/
theorem migrate (catalogue : Catalogue all held) (found : all.remotes.lookup hash = some tx) :
    Catalogue { all with locals := all.locals.insert hash tx, remotes := all.remotes.erase hash } held := by
  have locals := (catalogue.apart hash).resolve_right (by simp [found])
  have keyed := catalogue.remotesKeyed hash tx found
  refine ⟨?_, ?_, ?_, ?_, ?_⟩
  · intro hash' other there
    rw [lookup_insert_eq] at there
    split at there
    · rename_i same
      cases there
      exact keyed.trans same.symm
    · exact catalogue.localsKeyed hash' other there
  · intro hash' other there
    rw [lookup_erase_eq] at there
    split at there
    · cases there
    · exact catalogue.remotesKeyed hash' other there
  · intro hash'
    simp only [lookup_insert_eq, lookup_erase_eq]
    split
    · exact .inr rfl
    · exact catalogue.apart hash'
  · intro other
    rw [← catalogue.known other]
    simp only [Lookup.get, lookup_insert_eq, lookup_erase_eq]
    split
    · rename_i same
      rw [same, locals, found]
      rfl
    · rfl
  · have total := catalogue.slots
    rw [slotsOf_erase found] at total
    dsimp only
    rw [slotsOf_insert tx locals]
    omega

theorem remoteToLocals (catalogue : Catalogue all held) (ranges : Ranges) (isLocal : Transaction → Bool) :
    Catalogue (all.remoteToLocals ranges isLocal).2 held := by
  unfold Lookup.remoteToLocals
  generalize (ranges.hashes all.remotes.keys).filter _ = hashes
  generalize (0 : Nat) = count
  induction hashes generalizing count all with
  | nil => exact catalogue
  | cons hash rest ih =>
    rw [List.foldl_cons]
    dsimp only
    cases found : all.remotes.lookup hash with
    | none => exact ih catalogue count
    | some tx => exact ih (catalogue.migrate found) (count + 1)

theorem newLookup : Catalogue newLookup fun _ => False where
  localsKeyed _ _ found := by cases found
  remotesKeyed _ _ found := by cases found
  apart _ := .inl rfl
  known _ := ⟨fun found => (by cases found), False.elim⟩
  slots := rfl

end Catalogue

end Snowside.TxPool
