import Snowside.Bridge.Withdrawals

/-! How often a deposit is minted, and what for. -/

set_option autoImplicit false

namespace Snowside

open Interaction

def Network.all : List Network := [.mainnet, .testnet, .signet]

/-- A list over the networks to which one network contributes. -/
theorem Network.flatMap_all {Item : Type} {items : Network → List Item} (network : Network)
    (others : ∀ other, other ≠ network → items other = []) : Network.all.flatMap items = items network := by
  cases network <;> simp [all, others]

theorem length_le_one_of_same {Item : Type} {items : List Item} (distinct : items.Nodup)
    (same : ∀ first ∈ items, ∀ second ∈ items, first = second) : items.length ≤ 1 := by
  match items with
  | [] => exact Nat.zero_le 1
  | [_] => exact le_rfl
  | first :: second :: rest =>
    have equal := same first List.mem_cons_self second (List.mem_cons_of_mem _ List.mem_cons_self)
    exact absurd (equal ▸ List.mem_cons_self) (List.nodup_cons.mp distinct).1

/-- A list over the networks whose items are all one. -/
theorem Network.length_flatMap_le_one {Item : Type} {items : Network → List Item}
    (distinct : ∀ network, (items network).Nodup)
    (only : ∀ first, ∀ left ∈ items first, ∀ second, ∀ right ∈ items second, first = second ∧ left = right) :
    (Network.all.flatMap items).length ≤ 1 := by
  by_cases none : Network.all.flatMap items = []
  · rw [none]
    exact Nat.zero_le 1
  obtain ⟨item, member⟩ := List.exists_mem_of_ne_nil _ none
  obtain ⟨network, -, member⟩ := List.mem_flatMap.mp member
  rw [Network.flatMap_all network]
  · exact length_le_one_of_same (distinct network) fun left known right known' =>
      (only network left known network right known').2
  · -- On other networks there is none.
    intro other different
    refine List.eq_nil_iff_forall_not_mem.mpr fun right known => different ?_
    exact (only other right known network item member).1

namespace World

variable (world : World)

/-- The successful mints of a deposit, on every network. -/
def mintsOf (deposit : Nat) : List Tx :=
  Network.all.flatMap fun network =>
    (world.l2 network).txs.filter fun tx => tx.status = .success ∧ tx.MintFor deposit

/-- Wei minted for a deposit. -/
def mintedFor (deposit : Nat) : Nat := ((world.mintsOf deposit).map Tx.mintedWei).sum

/-- Satoshis ever received at the address of a row. -/
def receivedAt (row : Deposit) : Nat :=
  total ((world.l1 row.network).history.filter fun output => row.ecashAddress = some output.address)

end World

namespace Excuse

/-- Only the mints of one deposit are kept account of. -/
def allBut (deposit : Nat) : Excuse := ⟨(· ≠ deposit), fun _ => True, fun _ _ => True, fun _ _ => True, fun _ => True⟩

theorem mintSettles_permits (config : Config) (deposit : Nat) :
    (mintSettles deposit).Implies ((allBut deposit).permits config) := by
  refine permits_of (fun other kept => ?_) (fun _ kept => absurd trivial kept) (.inl fun _ _ => trivial)
    (.inl fun _ _ => trivial) (.inl fun _ => trivial)
  rw [show other = deposit from of_not_not kept]
  exact .refl _

end Excuse

section
variable {config : Config} {excuse : Excuse} {phase : Phase} {world : World}

theorem mem_mintsOf {deposit : Nat} {tx : Tx} (member : tx ∈ world.mintsOf deposit) :
    ∃ network, tx ∈ (world.l2 network).txs ∧ tx.status = .success ∧ tx.MintFor deposit := by
  obtain ⟨network, -, member⟩ := List.mem_flatMap.mp member
  obtain ⟨member, minted⟩ := List.mem_filter.mp member
  exact ⟨network, member, of_decide_eq_true minted⟩

/-- The books allow one mint of a deposit that is not excused. -/
theorem Books.mintsOf_length (books : Books config excuse phase world) {deposit : Nat}
    (kept : ¬ excuse.mint deposit) : (world.mintsOf deposit).length ≤ 1 := by
  refine Network.length_flatMap_le_one (fun network => (books.chains network).nodup.filter _) ?_
  intro first left known second right known'
  obtain ⟨member, minted⟩ := List.mem_filter.mp known
  obtain ⟨member', minted'⟩ := List.mem_filter.mp known'
  obtain ⟨success, mintFor⟩ := of_decide_eq_true minted
  obtain ⟨success', mintFor'⟩ := of_decide_eq_true minted'
  have same := books.mintOnce.unique deposit (first, left.hash) (second, right.hash) kept
    ⟨left, member, rfl, by rw [success]; decide, mintFor⟩ ⟨right, member', rfl, by rw [success']; decide, mintFor'⟩
  obtain ⟨rfl, hash⟩ := Prod.mk.inj same
  exact ⟨rfl, (books.chains first).eq_of_hash member member' hash⟩

/-- One mint is worth its note, and the note what was counted at the address. -/
theorem Books.mintedWei_le (books : Books config excuse phase world) {row : Deposit} (member : row ∈ world.deposits)
    (short : (addressDigits config.lowerCase row.snowsideAddress).length ≤ 64) {network : Network} {tx : Tx}
    (known : tx ∈ (world.l2 network).txs) (minted : tx.MintFor row.id) :
    tx.mintedWei ≤ world.receivedAt row * satsToEcx := by
  obtain ⟨note, noted, same⟩ := minted
  obtain ⟨other, present, -, mint⟩ := books.mints network tx known note noted
  obtain rfl := books.deposit_eq present member (mint.id.trans same)
  -- The counted outputs are distinct and all at the address of the row.
  have inside : note.sats ≤ world.receivedAt other := by
    rw [mint.sats, World.receivedAt, mint.network]
    refine total_le_of_subset (.of_map Output.point mint.distinct) fun output counted => ?_
    obtain ⟨history, -, address⟩ := mint.counted output counted
    exact List.mem_filter.mpr ⟨history, decide_eq_true address⟩
  have scaled := Nat.mul_le_mul_right satsToEcx inside
  rw [Tx.mintedWei]
  split
  · cases decoded : mintOf tx.input with
    | none => exact Nat.zero_le _
    | some call =>
      rw [mint.data] at decoded
      rw [Option.map_some, Option.getD_some]
      exact (mintOf_encodeMintCall_le _ _ _ short decoded).trans scaled
  · exact Nat.zero_le _

end

/-- In every run in which the mints of a deposit settle, it has at most one
successful mint; with an address of at most 64 digits, its wei do not exceed
what its address received. -/
theorem deposit_minted_once {config : Config} {clock : Nat} {tips : Network → Nat} {deposit : Nat}
    {state : State World Reply} (reach : Reach (federation config) (mintSettles deposit)
      ((federation config).start (World.initial clock tips)) state) :
    (state.world.mintsOf deposit).length ≤ 1 ∧
      ∀ row ∈ state.world.deposits, row.id = deposit →
        (addressDigits config.lowerCase row.snowsideAddress).length ≤ 64 →
        state.world.mintedFor deposit ≤ satsToEcx * state.world.receivedAt row := by
  have books := (reach_invariant (reach.mono (Excuse.mintSettles_permits config deposit))).1
  have once := books.mintsOf_length fun different => different rfl
  refine ⟨once, fun row member same short => ?_⟩
  subst same
  rw [World.mintedFor]
  cases mints : state.world.mintsOf row.id with
  | nil => exact Nat.zero_le _
  | cons tx rest =>
    rw [mints, List.length_cons] at once
    obtain rfl : rest = [] := List.eq_nil_of_length_eq_zero (by omega)
    obtain ⟨network, known, -, minted⟩ := mem_mintsOf (show tx ∈ state.world.mintsOf row.id by rw [mints]; simp)
    have worth := books.mintedWei_le member short known minted
    simpa [Nat.mul_comm] using worth

theorem mintSettles_of_undisturbed (deposit : Nat) (state : State World Reply) (action : Action Fate Event)
    (passed : undisturbed state action) : (mintSettles deposit).Meets state action :=
  meets_of_undisturbed passed (fun call _ => mintSettles_ok deposit state.world call) fun _ => trivial

theorem deposit_minted_once_sample : ∃ state,
    (federation sampleConfig).runWhile undisturbed sampleStart (sentMint ++ answers 2) = some state ∧
      (state.world.mintsOf 1).length ≤ 1 := by
  obtain ⟨state, ran⟩ := Option.isSome_iff_exists.mp (show ((federation sampleConfig).runWhile undisturbed
    sampleStart (sentMint ++ answers 2)).isSome = true by decide +kernel)
  exact ⟨state, ran, (deposit_minted_once (.of_runWhile (mintSettles_of_undisturbed 1) ran)).1⟩

/-- The mark of the mint is refused, and the next turn mints again. -/
def refusedMark : List (Action Fate Event) :=
  sentMint ++ answers 1 ++ [.answer .refused] ++ answers 2 ++ [.again] ++ answers 5 ++
    [.event (.mineTx .signet 1 true)]

theorem refused_mark_mints_twice : ∃ state,
    (federation sampleConfig).run sampleStart refusedMark = some state ∧
      (state.world.mintsOf 1).length = 2 ∧
      ∃ row ∈ state.world.deposits, row.id = 1 ∧
        state.world.mintedFor 1 = 2 * (satsToEcx * state.world.receivedAt row) ∧
        0 < state.world.receivedAt row := by
  have seen : ((federation sampleConfig).run sampleStart refusedMark).map (fun state =>
      ((state.world.mintsOf 1).length, state.world.mintedFor 1,
        state.world.deposits.map fun row => (row.id, state.world.receivedAt row))) =
      some (2, 2 * (satsToEcx * 100000), [(1, 100000)]) := by
    decide +kernel
  obtain ⟨state, ran, seen⟩ := Option.map_eq_some_iff.mp seen
  simp only [Prod.mk.injEq] at seen
  obtain ⟨length, minted, rows⟩ := seen
  obtain ⟨row, member, same⟩ := List.mem_map.mp (show (1, 100000) ∈ _ by rw [rows]; exact List.mem_singleton_self _)
  obtain ⟨id, received⟩ := Prod.mk.inj same
  exact ⟨state, ran, length, row, member, id, by rw [minted, received], by rw [received]; decide⟩

end Snowside
