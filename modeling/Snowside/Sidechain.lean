import Snowside.Federation.MintCall
import Snowside.Mainchain

/-! The L2 side as the federation meets it through the RPC: transactions that
wait, succeed or revert, among them the mints of the federation's account. -/

set_option autoImplicit false

namespace Snowside

inductive TxStatus where
  | pending
  | success
  | reverted
  deriving DecidableEq, Repr

/-- What a mint of the federation is for: the deposit row, the satoshis it mints
and the L1 outputs they were counted from. Nothing of this is sent. -/
structure MintNote where
  deposit : Nat
  sats : Nat
  counted : List Output
  deriving DecidableEq, Repr

/-- A transaction; hashes are numbered in order of arrival. -/
structure Tx where
  hash : Nat
  sender : Nat
  recipient : Nat
  value : Nat
  input : Text
  status : TxStatus := .pending
  mint : Option MintNote := none
  deriving DecidableEq, Repr

def nativeMinter : Nat := 0x0200000000000000000000000000000000000001

/-- Coins sent here are burned. -/
def burnAddress : Nat := 0

namespace Tx

/-- The transaction is a mint of the given deposit, whatever became of it. -/
def MintFor (tx : Tx) (deposit : Nat) : Prop := ∃ note, tx.mint = some note ∧ note.deposit = deposit

instance (tx : Tx) (deposit : Nat) : Decidable (tx.MintFor deposit) :=
  decidable_of_iff (tx.mint.any fun note => note.deposit = deposit) (by simp [MintFor, Option.any_eq_true])

/-- The transaction with the given hash is carried out, any other stays. -/
def settle (hash : Nat) (success : Bool) (tx : Tx) : Tx :=
  if tx.hash = hash then { tx with status := if success then .success else .reverted } else tx

/-- Only the status changes, and only once. -/
structure Becomes (before after : Tx) : Prop where
  hash : after.hash = before.hash
  sender : after.sender = before.sender
  recipient : after.recipient = before.recipient
  value : after.value = before.value
  input : after.input = before.input
  mint : after.mint = before.mint
  status : before.status ≠ .pending → after.status = before.status

theorem Becomes.refl (tx : Tx) : tx.Becomes tx := ⟨rfl, rfl, rfl, rfl, rfl, rfl, fun _ => rfl⟩

theorem Becomes.mintFor {before after : Tx} (becomes : before.Becomes after) {deposit : Nat} :
    after.MintFor deposit ↔ before.MintFor deposit := by
  rw [MintFor, MintFor, becomes.mint]

/-- Wei that the transaction brought into being. -/
def mintedWei (tx : Tx) : Nat :=
  if tx.status = .success ∧ tx.mint.isSome then ((mintOf tx.input).map Prod.snd).getD 0 else 0

/-- Wei that the transaction took out of circulation. -/
def burnedWei (tx : Tx) : Nat :=
  if tx.status = .success ∧ tx.recipient = burnAddress then tx.value else 0

end Tx

/-- The 32-byte hash that a string denotes, in either case. -/
def txHash (text : Text) : Option Nat :=
  if (['0', 'x'] <+: text ∨ ['0', 'X'] <+: text) ∧ text.length = 66 then
    (Text.hexValues (text.drop 2)).map (Numeral.value 16)
  else none

/-- One L2 chain. -/
structure Chain where
  txs : List Tx
  deriving DecidableEq, Repr

namespace Chain

def find (chain : Chain) (hash : Nat) : Option Tx := chain.txs.find? fun tx => tx.hash = hash

/-- `eth_getTransactionByHash`. -/
def getTransaction (chain : Chain) (text : Text) : Option Tx := (txHash text).bind chain.find

def submit (chain : Chain) (tx : Tx) : Chain := ⟨chain.txs ++ [{ tx with hash := chain.txs.length }]⟩

/-- A waiting transaction is carried out. A mint succeeds only if the precompile
takes its data; it may fail for other reasons. -/
def mine (chain : Chain) (hash : Nat) (success : Bool) : Option Chain :=
  match chain.find hash with
  | none => none
  | some tx =>
    if tx.status = .pending ∧ (success → tx.mint.isSome → (mintOf tx.input).isSome) then
      some ⟨chain.txs.map (Tx.settle hash success)⟩
    else none

/-- Hashes are positions. -/
def Numbered (chain : Chain) : Prop := chain.txs.map Tx.hash = List.range chain.txs.length

/-- What a chain holds stays, up to the status of what waits. -/
def Grows (before after : Chain) : Prop := ∀ tx ∈ before.txs, ∃ later ∈ after.txs, tx.Becomes later

variable {chain after : Chain}

theorem Grows.refl (chain : Chain) : chain.Grows chain := fun tx member => ⟨tx, member, .refl tx⟩

theorem Numbered.hashes_nodup (numbered : chain.Numbered) : (chain.txs.map Tx.hash).Nodup := by
  rw [show chain.txs.map Tx.hash = _ from numbered]
  exact List.nodup_range

theorem Numbered.nodup (numbered : chain.Numbered) : chain.txs.Nodup := numbered.hashes_nodup.of_map

theorem Numbered.eq_of_hash (numbered : chain.Numbered) {first second : Tx} (left : first ∈ chain.txs)
    (right : second ∈ chain.txs) (same : first.hash = second.hash) : first = second :=
  List.inj_on_of_nodup_map numbered.hashes_nodup left right same

theorem find_mem {hash : Nat} {tx : Tx} (found : chain.find hash = some tx) :
    tx ∈ chain.txs ∧ tx.hash = hash :=
  ⟨List.mem_of_find?_eq_some found, by simpa using List.find?_some found⟩

theorem Numbered.find (numbered : chain.Numbered) {tx : Tx} (member : tx ∈ chain.txs) :
    chain.find tx.hash = some tx := by
  cases found : chain.find tx.hash with
  | none =>
    have absent := List.find?_eq_none.mp found tx member
    simp at absent
  | some other =>
    obtain ⟨known, same⟩ := find_mem found
    rw [numbered.eq_of_hash known member same]

theorem Grows.find (grows : chain.Grows after) (numbered : after.Numbered) {hash : Nat} {tx : Tx}
    (found : chain.find hash = some tx) : ∃ later, after.find hash = some later ∧ tx.Becomes later := by
  obtain ⟨member, rfl⟩ := find_mem found
  obtain ⟨later, known, becomes⟩ := grows tx member
  exact ⟨later, by rw [← becomes.hash]; exact numbered.find known, becomes⟩

theorem submit_txs (chain : Chain) (tx : Tx) :
    (chain.submit tx).txs = chain.txs ++ [{ tx with hash := chain.txs.length }] := rfl

theorem submit_numbered (numbered : chain.Numbered) (tx : Tx) : (chain.submit tx).Numbered := by
  rw [Numbered, submit_txs, List.map_append, show chain.txs.map Tx.hash = _ from numbered,
    List.length_append, List.length_singleton, List.range_succ]
  rfl

theorem submit_grows (chain : Chain) (tx : Tx) : chain.Grows (chain.submit tx) :=
  fun old member => ⟨old, List.mem_append_left _ member, .refl old⟩

theorem mine_eq {hash : Nat} {success : Bool} (mined : chain.mine hash success = some after) :
    ∃ tx, chain.find hash = some tx ∧ tx.status = .pending ∧
      (success → tx.mint.isSome → (mintOf tx.input).isSome) ∧
      after = ⟨chain.txs.map (Tx.settle hash success)⟩ := by
  unfold mine at mined
  split at mined
  · cases mined
  · next tx found =>
    split at mined
    · next valid => exact ⟨tx, found, valid.1, valid.2, (Option.some.inj mined).symm⟩
    · cases mined

/-- Carrying out a transaction changes the status of that one, which was waiting. -/
theorem mine_becomes (numbered : chain.Numbered) {hash : Nat} {success : Bool}
    (mined : chain.mine hash success = some after) {tx : Tx} (member : tx ∈ chain.txs) :
    tx.Becomes (tx.settle hash success) := by
  obtain ⟨target, found, pending, -, -⟩ := mine_eq mined
  obtain ⟨known, named⟩ := find_mem found
  unfold Tx.settle
  split
  · next same =>
    rw [numbered.eq_of_hash member known (same.trans named.symm)]
    exact ⟨rfl, rfl, rfl, rfl, rfl, rfl, fun settled => absurd pending settled⟩
  · exact .refl tx

theorem mine_mem {hash : Nat} {success : Bool} (mined : chain.mine hash success = some after) {later : Tx} :
    later ∈ after.txs ↔ ∃ tx ∈ chain.txs, tx.settle hash success = later := by
  obtain ⟨-, -, -, -, rfl⟩ := mine_eq mined
  exact List.mem_map

theorem mine_grows (numbered : chain.Numbered) {hash : Nat} {success : Bool}
    (mined : chain.mine hash success = some after) : chain.Grows after :=
  fun tx member => ⟨_, (mine_mem mined).mpr ⟨tx, member, rfl⟩, mine_becomes numbered mined member⟩

theorem mine_numbered (numbered : chain.Numbered) {hash : Nat} {success : Bool}
    (mined : chain.mine hash success = some after) : after.Numbered := by
  have hashes : ∀ tx : Tx, (tx.settle hash success).hash = tx.hash := by
    intro tx
    unfold Tx.settle
    split <;> rfl
  obtain ⟨-, -, -, -, rfl⟩ := mine_eq mined
  simp only [Numbered, List.map_map, Function.comp_def, hashes, List.length_map]
  exact numbered

end Chain

end Snowside
