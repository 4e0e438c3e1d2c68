import Snowside.TxPool.TxList

/-! Runs of calls of a list of transactions: it answers as a plain list in the order of the nonces
does, and its sum and its bounds are those of that list.
-/

set_option autoImplicit false

namespace Snowside.TxPool

open Sorted (Increasing)

inductive ListCall where
  | add (tx : Transaction) (priceBump : Nat)
  | forward (threshold : Nat)
  | filter (ranges : Ranges) (costLimit gasLimit : Nat)
  | cap (threshold : Nat)
  | remove (ranges : Ranges) (tx : Transaction)
  | ready (start : Nat)
  | flatten

structure ListAnswer where
  done : Bool := true
  old : Option Transaction := none
  txs : List Transaction := []
  invalids : List Transaction := []

namespace TxList

def call (l : TxList) : ListCall → Option (ListAnswer × TxList)
  | .add tx priceBump => (l.add tx priceBump).map fun (done, old, l) => ({ done, old }, l)
  | .forward threshold => (l.forward threshold).map fun (txs, l) => ({ txs }, l)
  | .filter ranges costLimit gasLimit => (l.filter ranges costLimit gasLimit).map fun (txs, invalids, l) => ({ txs, invalids }, l)
  | .cap threshold => (l.cap threshold).map fun (txs, l) => ({ txs }, l)
  | .remove ranges tx => (l.remove ranges tx).map fun (done, invalids, l) => ({ done, invalids }, l)
  | .ready start => (l.ready start).map fun (txs, l) => ({ txs }, l)
  | .flatten => some ({ txs := l.flatten.1 }, l.flatten.2)

def calls : List ListCall → TxList → Option (List ListAnswer × TxList)
  | [], l => some ([], l)
  | call :: rest, l => do
      let (answer, l) ← l.call call
      let (answers, l) ← calls rest l
      return (answer :: answers, l)

end TxList

/-! ## The plain list -/

/-- A transaction whose nonce is taken has to outbid the one that has it. -/
def enters (priceBump : Nat) (tx : Transaction) (txs : List Transaction) : Bool :=
  txs.all fun old => old.nonce ≠ tx.nonce || outbids priceBump old tx

namespace ListCall

/-- The list after a call. -/
def after (strict : Bool) (txs : List Transaction) : ListCall → List Transaction
  | .add tx priceBump => if enters priceBump tx txs then Sorted.put Transaction.nonce tx txs else txs
  | .forward threshold => txs.dropWhile (·.nonce < threshold)
  | .filter _ costLimit gasLimit => TxList.fitting strict costLimit gasLimit txs
  | .cap threshold => txs.take threshold
  | .remove _ tx => if tx ∉ txs then txs else
      if strict then txs.takeWhile (·.nonce < tx.nonce) else txs.filter (·.nonce ≠ tx.nonce)
  | .ready start => txs.drop (Sorted.readies Transaction.nonce start txs).length
  | .flatten => txs

/-- What a call may answer. Filters visit a map, in any order. -/
def Answers (strict : Bool) (txs : List Transaction) (answer : ListAnswer) : ListCall → Prop
  | .add tx priceBump => answer.done = enters priceBump tx txs ∧
      answer.old = if enters priceBump tx txs then txs.find? (·.nonce = tx.nonce) else none
  | .forward threshold => answer.txs = txs.takeWhile (·.nonce < threshold)
  | .filter _ costLimit gasLimit => answer.txs.Perm (txs.filter (TxList.exceeds costLimit gasLimit)) ∧
      txs.Perm (answer.txs ++ answer.invalids ++ TxList.fitting strict costLimit gasLimit txs)
  | .cap threshold => answer.txs = (txs.drop threshold).reverse
  | .remove _ tx => answer.done = decide (tx ∈ txs) ∧
      answer.invalids.Perm (if strict ∧ tx ∈ txs then txs.filter (tx.nonce < ·.nonce) else [])
  | .ready start => answer.txs = Sorted.readies Transaction.nonce start txs
  | .flatten => answer.txs = txs

/-- What the pool calls with: costs that balances cover, and transactions that are in the list or
have a nonce that is not. -/
def Legal (txs : List Transaction) : ListCall → Prop
  | .add tx _ => tx.cost < TxList.costBound
  | .remove _ tx => tx ∈ txs ∨ ∀ other ∈ txs, other.nonce ≠ tx.nonce
  | _ => True

def LegalAll (strict : Bool) : List ListCall → List Transaction → Prop
  | [], _ => True
  | call :: rest, txs => call.Legal txs ∧ LegalAll strict rest (call.after strict txs)

def afterAll (strict : Bool) (calls : List ListCall) (txs : List Transaction) : List Transaction :=
  calls.foldl (fun txs call => call.after strict txs) txs

def AnswersAll (strict : Bool) : List ListCall → List Transaction → List ListAnswer → Prop
  | [], _, answers => answers = []
  | call :: rest, txs, answers => ∃ answer later, answers = answer :: later ∧ call.Answers strict txs answer ∧
      AnswersAll strict rest (call.after strict txs) later

end ListCall

namespace TxList

variable {l : TxList}

theorem Sound.get_eq_find (sound : l.Sound) (nonce : Nat) : l.txs.get nonce = l.contents.find? (·.nonce = nonce) := by
  cases found : l.contents.find? (·.nonce = nonce) with
  | none =>
    have none_ := List.find?_eq_none.mp found
    refine Option.eq_none_iff_forall_ne_some.mpr fun tx known => ?_
    obtain ⟨member, same⟩ := sound.get_iff.mp known
    exact none_ tx member (by simpa using same)
  | some tx =>
    exact sound.get_iff.mpr ⟨List.mem_of_find?_eq_some found, by simpa using List.find?_some found⟩

/-- Each call answers as the plain list does. -/
theorem Sound.call (sound : l.Sound) {call : ListCall} (legal : call.Legal l.contents) :
    ∃ answer l', l.call call = some (answer, l') ∧ call.Answers l.strict l.contents answer ∧ l'.Sound ∧
      l'.strict = l.strict ∧ l'.contents = call.after l.strict l.contents := by
  cases call with
  | add tx priceBump =>
    cases better : enters priceBump tx l.contents with
    | true =>
      have outbid : ∀ old ∈ l.contents, old.nonce = tx.nonce → outbids priceBump old tx = true := by
        simpa [enters, imp_iff_not_or] using better
      obtain ⟨l', added, kept, strict, put⟩ := sound.add legal outbid
      refine ⟨_, l', by rw [TxList.call, added]; rfl, ⟨better.symm, ?_⟩, kept, strict, ?_⟩
      · rw [if_pos better]
        exact sound.get_eq_find tx.nonce
      · rw [put, ListCall.after, if_pos better]
    | false =>
      obtain ⟨old, member, refused⟩ := List.all_eq_false.mp better
      have refused : old.nonce = tx.nonce ∧ outbids priceBump old tx = false := by simpa using refused
      refine ⟨_, l, by rw [TxList.call, sound.add_refused member refused.1 refused.2]; rfl, ⟨better.symm, ?_⟩, sound, rfl, ?_⟩
      · simp [better]
      · simp [ListCall.after, better]
  | forward threshold =>
    obtain ⟨l', forwarded, leaves⟩ := sound.forward threshold
    exact ⟨{ txs := _ }, l', by rw [TxList.call, forwarded]; rfl, rfl, leaves.sound, leaves.strict, leaves.contents⟩
  | filter ranges costLimit gasLimit =>
    obtain ⟨removed, invalids, l', filtered, perm, leaves⟩ := sound.filter ranges costLimit gasLimit
    exact ⟨_, l', by rw [TxList.call, filtered]; rfl, ⟨perm, leaves.split⟩, leaves.sound, leaves.strict, leaves.contents⟩
  | cap threshold =>
    obtain ⟨l', capped, leaves⟩ := sound.cap threshold
    exact ⟨{ txs := _ }, l', by rw [TxList.call, capped]; rfl, rfl, leaves.sound, leaves.strict, leaves.contents⟩
  | remove ranges tx =>
    by_cases member : tx ∈ l.contents
    · obtain ⟨invalids, l', removed, perm, leaves⟩ := sound.remove ranges member
      refine ⟨{ done := true, invalids }, l', by rw [TxList.call, removed]; rfl, ⟨by simp [member], ?_⟩,
        leaves.sound, leaves.strict, ?_⟩
      · simpa [member] using perm
      · rw [leaves.contents, ListCall.after, if_neg (not_not.mpr member)]
    · have absent := legal.resolve_left member
      refine ⟨{ done := false }, l, by rw [TxList.call, sound.remove_absent ranges absent]; rfl,
        ⟨by simp [member], by simp [member]⟩, sound, rfl, ?_⟩
      rw [ListCall.after, if_pos member]
  | ready start =>
    obtain ⟨l', readied, leaves⟩ := sound.ready start
    exact ⟨{ txs := _ }, l', by rw [TxList.call, readied]; rfl, rfl, leaves.sound, leaves.strict, leaves.contents⟩
  | flatten =>
    obtain ⟨same, kept, strict, left⟩ := sound.flatten
    exact ⟨_, _, rfl, same, kept, strict, left⟩

theorem Sound.calls (sound : l.Sound) {calls : List ListCall} (legal : ListCall.LegalAll l.strict calls l.contents) :
    ∃ answers l', TxList.calls calls l = some (answers, l') ∧ ListCall.AnswersAll l.strict calls l.contents answers ∧
      l'.Sound ∧ l'.contents = ListCall.afterAll l.strict calls l.contents := by
  induction calls generalizing l with
  | nil => exact ⟨[], l, rfl, rfl, sound, rfl⟩
  | cons call rest ih =>
    obtain ⟨answer, between, called, answered, kept, strict, after⟩ := sound.call legal.1
    obtain ⟨answers, l', ran, others, sound', contents'⟩ := ih kept (by rw [strict, after]; exact legal.2)
    rw [strict, after] at others contents'
    refine ⟨answer :: answers, l', ?_, ⟨answer, answers, rfl, answered, others⟩, sound', contents'⟩
    rw [TxList.calls, called]
    simp only [Option.bind_eq_bind, Option.bind_some, ran]
    rfl

end TxList

/-- A list of an account answers every run of calls as a plain list in the order of the nonces does,
keeps the sum of the costs and bounds of costs and gas, and never panics. -/
theorem list_keeps_order {strict : Bool} {calls : List ListCall} (legal : ListCall.LegalAll strict calls []) :
    ∃ answers l, TxList.calls calls (newList strict) = some (answers, l) ∧ ListCall.AnswersAll strict calls [] answers ∧
      Increasing Transaction.nonce (ListCall.afterAll strict calls []) ∧ l.flatten.1 = ListCall.afterAll strict calls [] ∧
      l.totalcost = TxList.costs (ListCall.afterAll strict calls []) ∧
      ∀ tx ∈ ListCall.afterAll strict calls [], tx.cost ≤ l.costcap ∧ tx.gas ≤ l.gascap := by
  have start := TxList.contents_newList strict
  have legal' : ListCall.LegalAll (newList strict).strict calls (newList strict).contents := by
    rw [start]
    exact legal
  obtain ⟨answers, l, ran, answered, sound, contents⟩ := (TxList.sound_newList strict).calls legal'
  rw [start] at answered contents
  replace contents : l.contents = ListCall.afterAll strict calls [] := contents
  refine ⟨answers, l, ran, answered, ?_⟩
  rw [← contents]
  exact ⟨sound.increasing, sound.flatten.1, sound.total, sound.bounded⟩

/-- A transfer with a nonce and a fee. -/
def sampleTx (hash : Nat) (nonce gasFeeCap : Nat) (nonce_lt : nonce < 2 ^ 64 := by decide) : Transaction where
  hash := .ofNat 256 hash
  sender := some 1
  type := 0
  nonce := nonce
  gasFeeCap := gasFeeCap
  gasTipCap := gasFeeCap
  gas := 21000
  value := 5
  size := 110
  nonce_lt := nonce_lt

/-- Every map is visited in the order of its entries. -/
def plainRanges : Ranges where
  nonces := id
  addresses := id
  hashes := id
  nonces_perm := .refl
  addresses_perm := .refl
  hashes_perm := .refl

/-- The first of two pending transactions goes, and with it the second. -/
theorem list_keeps_order_sample : ∃ answers l,
    TxList.calls [.add (sampleTx 1 4 7) 10, .add (sampleTx 2 5 8) 10, .remove plainRanges (sampleTx 1 4 7)] (newList true) =
      some (answers, l) ∧ l.flatten.1 = [] ∧ l.totalcost = 0 := by
  have cheap : (sampleTx 1 4 7).cost < TxList.costBound := by decide
  have cheap' : (sampleTx 2 5 8).cost < TxList.costBound := by decide
  have legal : ListCall.LegalAll true
      [.add (sampleTx 1 4 7) 10, .add (sampleTx 2 5 8) 10, .remove plainRanges (sampleTx 1 4 7)] [] :=
    ⟨cheap, cheap', .inl (by decide), trivial⟩
  obtain ⟨answers, l, ran, -, -, left, total, -⟩ := list_keeps_order legal
  exact ⟨answers, l, ran, left.trans (by decide), total.trans (by decide)⟩

end Snowside.TxPool
