import Snowside.TxPool.SortedMap
import Mathlib.Logic.Relation

/-! The pending transactions of one account, by what can happen to them: a transaction is replaced or
promoted, the list is cut, and a reset leaves a part of it.
-/

set_option autoImplicit false

namespace Snowside.TxPool

open Sorted (Increasing)

/-- What an account has pending, and the nonce after. -/
structure View where
  pending : List Transaction
  next : Nat

/-- What happens to the pending transactions of an account with a nonce and a balance, outside a reset. -/
inductive Turn (ok : Transaction → Prop) (nonce balance : Nat) : View → View → Prop where
  | replace {view : View} {old tx : Transaction} : old ∈ view.pending → old.nonce = tx.nonce → tx.cost ≤ balance →
      Turn ok nonce balance view ⟨Sorted.put Transaction.nonce tx view.pending, view.next⟩
  | promote {view : View} {tx : Transaction} : nonce ≤ tx.nonce → tx.nonce ≤ view.next →
      (∀ other ∈ view.pending, other.nonce ≠ tx.nonce) → tx.cost ≤ balance → ok tx →
      Turn ok nonce balance view ⟨Sorted.put Transaction.nonce tx view.pending, (tx.nonce + 1) % 2 ^ 64⟩
  | cut {view : View} {tx : Transaction} : tx ∈ view.pending →
      Turn ok nonce balance view ⟨view.pending.takeWhile (·.nonce < tx.nonce), min view.next tx.nonce⟩

abbrev Turns (ok : Transaction → Prop) (nonce balance : Nat) : View → View → Prop :=
  Relation.ReflTransGen (Turn ok nonce balance)

namespace View

variable {ok : Transaction → Prop} {nonce balance : Nat} {view view' : View}

/-! ## What a turn keeps -/

/-- The pending transactions start at the nonce of the account, which can pay each of them. -/
structure Front (nonce balance : Nat) (view : View) : Prop where
  increasing : Increasing Transaction.nonce view.pending
  reached : ∀ tx ∈ view.pending, nonce ≤ tx.nonce
  starts : view.pending ≠ [] → ∃ tx ∈ view.pending, tx.nonce = nonce
  waits : view.pending = [] → view.next ≤ nonce
  paid : ∀ tx ∈ view.pending, tx.cost ≤ balance

/-- From the nonce of the account on there is no gap, neither between pending transactions nor before the next. -/
structure Gapless (nonce : Nat) (view : View) : Prop where
  increasing : Increasing Transaction.nonce view.pending
  between : ∀ tx ∈ view.pending, ∀ number, nonce ≤ number → number ≤ tx.nonce →
    ∃ other ∈ view.pending, other.nonce = number
  before : ∀ number, nonce ≤ number → number < view.next → ∃ other ∈ view.pending, other.nonce = number

/-- The next nonce comes after all pending ones. -/
structure Exact (nonce : Nat) (view : View) : Prop where
  after : ∀ tx ∈ view.pending, tx.nonce < view.next
  reached : nonce ≤ view.next

/-- The nonces after a replacement are those before. -/
theorem exists_put_iff {old tx : Transaction} (member : old ∈ view.pending) (same : old.nonce = tx.nonce) {number : Nat} :
    (∃ other ∈ Sorted.put Transaction.nonce tx view.pending, other.nonce = number) ↔
      ∃ other ∈ view.pending, other.nonce = number := by
  simp only [Sorted.mem_put]
  constructor
  · rintro ⟨other, rfl | ⟨inside, -⟩, rfl⟩
    · exact ⟨old, member, same⟩
    · exact ⟨other, inside, rfl⟩
  · rintro ⟨other, inside, rfl⟩
    by_cases equal : other.nonce = tx.nonce
    · exact ⟨tx, .inl rfl, equal.symm⟩
    · exact ⟨other, .inr ⟨inside, equal⟩, rfl⟩

theorem mem_cut (increasing : Increasing Transaction.nonce view.pending) {threshold : Nat} {tx : Transaction} :
    tx ∈ view.pending.takeWhile (·.nonce < threshold) ↔ tx ∈ view.pending ∧ tx.nonce < threshold := by
  simp [increasing.takeWhile_below]

theorem Increasing.turn (increasing : Increasing Transaction.nonce view.pending) (turn : Turn ok nonce balance view view') :
    Increasing Transaction.nonce view'.pending := by
  cases turn with
  | replace _ _ _ => exact increasing.put _
  | promote _ _ _ _ _ => exact increasing.put _
  | cut _ => exact increasing.sublist (List.takeWhile_sublist _)

theorem Front.turn (front : view.Front nonce balance) (turn : Turn ok nonce balance view view') : view'.Front nonce balance := by
  have increasing' := View.Increasing.turn front.increasing turn
  cases turn with
  | @replace old tx member same paid =>
    have nonempty : view.pending ≠ [] := List.ne_nil_of_mem member
    have first : tx ∈ Sorted.put Transaction.nonce tx view.pending := Sorted.mem_put.mpr (.inl rfl)
    refine ⟨increasing', ?_, ?_, fun empty => absurd first (by simp [show Sorted.put _ _ _ = [] from empty]), ?_⟩
    · intro other inside
      rcases Sorted.mem_put.mp inside with rfl | ⟨kept, -⟩
      · exact same ▸ front.reached old member
      · exact front.reached other kept
    · intro _
      exact (exists_put_iff member same).mpr (front.starts nonempty)
    · intro other inside
      rcases Sorted.mem_put.mp inside with rfl | ⟨kept, -⟩
      · exact paid
      · exact front.paid other kept
  | @promote tx reached next new paid _ =>
    have first : tx ∈ Sorted.put Transaction.nonce tx view.pending := Sorted.mem_put.mpr (.inl rfl)
    refine ⟨increasing', ?_, ?_, fun empty => absurd first (by simp [show Sorted.put _ _ _ = [] from empty]), ?_⟩
    · intro other inside
      rcases Sorted.mem_put.mp inside with rfl | ⟨kept, -⟩
      · exact reached
      · exact front.reached other kept
    · intro _
      by_cases empty : view.pending = []
      · have := front.waits empty
        exact ⟨tx, first, by omega⟩
      · obtain ⟨head, inside, starts⟩ := front.starts empty
        exact ⟨head, Sorted.mem_put.mpr (.inr ⟨inside, new head inside⟩), starts⟩
    · intro other inside
      rcases Sorted.mem_put.mp inside with rfl | ⟨kept, -⟩
      · exact paid
      · exact front.paid other kept
  | @cut tx member =>
    have inside {other : Transaction} : other ∈ view.pending.takeWhile (·.nonce < tx.nonce) ↔
        other ∈ view.pending ∧ other.nonce < tx.nonce := mem_cut front.increasing
    refine ⟨increasing', fun other kept => front.reached other (inside.mp kept).1, ?_, ?_,
      fun other kept => front.paid other (inside.mp kept).1⟩
    · intro nonempty
      obtain ⟨other, kept⟩ := List.exists_mem_of_ne_nil _ nonempty
      obtain ⟨head, there, starts⟩ := front.starts (List.ne_nil_of_mem member)
      have := front.reached other (inside.mp kept).1
      have := (inside.mp kept).2
      exact ⟨head, inside.mpr ⟨there, by omega⟩, starts⟩
    · intro empty
      obtain ⟨head, there, starts⟩ := front.starts (List.ne_nil_of_mem member)
      have gone : head ∉ view.pending.takeWhile (·.nonce < tx.nonce) := by simp [show view.pending.takeWhile _ = [] from empty]
      rw [inside] at gone
      have := Nat.min_le_right view.next tx.nonce
      have : ¬ head.nonce < tx.nonce := fun below => gone ⟨there, below⟩
      change min view.next tx.nonce ≤ nonce
      omega

theorem Gapless.turn (gapless : view.Gapless nonce) (turn : Turn ok nonce balance view view') : view'.Gapless nonce := by
  have increasing' := View.Increasing.turn gapless.increasing turn
  cases turn with
  | @replace old tx member same _ =>
    refine ⟨increasing', ?_, fun number low high => (exists_put_iff member same).mpr (gapless.before number low high)⟩
    intro other inside number low high
    refine (exists_put_iff member same).mpr ?_
    rcases Sorted.mem_put.mp inside with rfl | ⟨kept, -⟩
    · exact gapless.between old member number low (same ▸ high)
    · exact gapless.between other kept number low high
  | @promote tx reached next new _ _ =>
    have below : ∀ number, nonce ≤ number → number ≤ tx.nonce →
        ∃ other ∈ Sorted.put Transaction.nonce tx view.pending, other.nonce = number := fun number low high => by
      rcases Nat.eq_or_lt_of_le high with rfl | less
      · exact ⟨tx, Sorted.mem_put.mpr (.inl rfl), rfl⟩
      · obtain ⟨other, inside, rfl⟩ := gapless.before number low (by omega)
        exact ⟨other, Sorted.mem_put.mpr (.inr ⟨inside, by omega⟩), rfl⟩
    refine ⟨increasing', ?_, fun number low high => below number low ?_⟩
    · intro other inside number low high
      rcases Sorted.mem_put.mp inside with rfl | ⟨kept, -⟩
      · exact below number low high
      · obtain ⟨another, there, rfl⟩ := gapless.between other kept number low high
        exact ⟨another, Sorted.mem_put.mpr (.inr ⟨there, new another there⟩), rfl⟩
    · have := Nat.mod_le (tx.nonce + 1) (2 ^ 64)
      change number < (tx.nonce + 1) % 2 ^ 64 at high
      omega
  | @cut tx member =>
    have inside {other : Transaction} : other ∈ view.pending.takeWhile (·.nonce < tx.nonce) ↔
        other ∈ view.pending ∧ other.nonce < tx.nonce := mem_cut gapless.increasing
    refine ⟨increasing', ?_, ?_⟩
    · intro other kept number low high
      obtain ⟨another, there, rfl⟩ := gapless.between other (inside.mp kept).1 number low high
      exact ⟨another, inside.mpr ⟨there, by have := (inside.mp kept).2; omega⟩, rfl⟩
    · intro number low high
      change number < min view.next tx.nonce at high
      obtain ⟨another, there, rfl⟩ := gapless.before number low (by omega)
      exact ⟨another, inside.mpr ⟨there, by omega⟩, rfl⟩

theorem Exact.turn (exact_ : view.Exact nonce) (gapless : view.Gapless nonce) (reached : ∀ tx ∈ view.pending, nonce ≤ tx.nonce)
    (below : ∀ tx, ok tx → tx.nonce + 1 < 2 ^ 64) (turn : Turn ok nonce balance view view') : view'.Exact nonce := by
  cases turn with
  | @replace old tx member same _ =>
    refine ⟨fun other inside => ?_, exact_.reached⟩
    rcases Sorted.mem_put.mp inside with rfl | ⟨kept, -⟩
    · exact same ▸ exact_.after old member
    · exact exact_.after other kept
  | @promote tx low next new _ good =>
    have next' : (tx.nonce + 1) % 2 ^ 64 = tx.nonce + 1 := Nat.mod_eq_of_lt (below tx good)
    refine ⟨fun other inside => ?_, ?_⟩
    · change other.nonce < (tx.nonce + 1) % 2 ^ 64
      rcases Sorted.mem_put.mp inside with rfl | ⟨kept, -⟩
      · omega
      · -- A transaction beyond the promoted one would leave a gap.
        by_contra beyond
        obtain ⟨another, there, same⟩ := gapless.between other kept tx.nonce low (by omega)
        exact new another there same
    · change nonce ≤ (tx.nonce + 1) % 2 ^ 64
      omega
  | @cut tx member =>
    refine ⟨fun other kept => ?_, ?_⟩
    · obtain ⟨inside, less⟩ := (mem_cut gapless.increasing).mp kept
      exact lt_min (exact_.after other inside) less
    · exact le_min exact_.reached (reached tx member)

/-! ## What turns keep -/

theorem Front.turns (front : view.Front nonce balance) (turns : Turns ok nonce balance view view') :
    view'.Front nonce balance := by
  induction turns with
  | refl => exact front
  | tail _ turn ih => exact ih.turn turn

theorem Gapless.turns (gapless : view.Gapless nonce) (turns : Turns ok nonce balance view view') : view'.Gapless nonce := by
  induction turns with
  | refl => exact gapless
  | tail _ turn ih => exact ih.turn turn

theorem Exact.turns (exact_ : view.Exact nonce) (gapless : view.Gapless nonce) (front : view.Front nonce balance)
    (below : ∀ tx, ok tx → tx.nonce + 1 < 2 ^ 64) (turns : Turns ok nonce balance view view') : view'.Exact nonce := by
  induction turns with
  | refl => exact exact_
  | tail before turn ih => exact ih.turn (gapless.turns before) (front.turns before).reached below turn

/-- The nonces of a list without gaps, and the one after them. -/
theorem consecutive (front : view.Front nonce balance) (gapless : view.Gapless nonce) :
    view.pending.map Transaction.nonce = List.range' nonce view.pending.length :=
  front.increasing.consecutive front.reached gapless.between

theorem next_eq (front : view.Front nonce balance) (gapless : view.Gapless nonce) (exact_ : view.Exact nonce) :
    view.next = nonce + view.pending.length := by
  have nonces := consecutive front gapless
  have there {number : Nat} : (∃ tx ∈ view.pending, tx.nonce = number) ↔
      nonce ≤ number ∧ number < nonce + view.pending.length := by
    rw [← List.mem_range'_1, ← nonces]
    exact List.mem_map.symm
  have low := exact_.reached
  by_contra differs
  rcases Nat.lt_or_gt_of_ne differs with less | more
  · obtain ⟨tx, inside, same⟩ := there.mpr ⟨low, less⟩
    have := exact_.after tx inside
    omega
  · have := there.mp (gapless.before (nonce + view.pending.length) (by omega) more)
    omega

/-! ## A reset -/

/-- What a reset leaves of pending transactions: those from the nonce on as long as they fit, if they start there. -/
def settled (nonce : Nat) (fits : Transaction → Bool) (pending : List Transaction) : List Transaction :=
  let left := (pending.dropWhile (·.nonce < nonce)).takeWhile fits
  if left.any (·.nonce = nonce) then left else []

/-- The nonce after a list, or that of the account. -/
def nonceAfter (nonce : Nat) (pending : List Transaction) : Nat :=
  pending.getLast?.elim nonce fun tx => (tx.nonce + 1) % 2 ^ 64

variable {fits : Transaction → Bool} {pending : List Transaction}

theorem settled_sublist : (settled nonce fits pending).Sublist (pending.dropWhile (·.nonce < nonce)) := by
  unfold settled
  dsimp only
  split
  · exact List.takeWhile_sublist _
  · exact List.nil_sublist _

theorem increasing_settled (increasing : Increasing Transaction.nonce pending) :
    Increasing Transaction.nonce (settled nonce fits pending) :=
  increasing.sublist (settled_sublist.trans (List.dropWhile_sublist _))

theorem settled_starts (nonempty : settled nonce fits pending ≠ []) :
    ∃ tx ∈ settled nonce fits pending, tx.nonce = nonce := by
  unfold settled at nonempty ⊢
  dsimp only at nonempty ⊢
  split
  · rename_i starts
    obtain ⟨tx, member, same⟩ := List.any_eq_true.mp starts
    exact ⟨tx, member, by simpa using same⟩
  · rename_i starts
    rw [if_neg starts] at nonempty
    exact absurd rfl nonempty

theorem front_settled (increasing : Increasing Transaction.nonce pending) (paid : ∀ tx, fits tx = true → tx.cost ≤ balance) :
    Front nonce balance ⟨settled nonce fits pending, nonceAfter nonce (settled nonce fits pending)⟩ := by
  refine ⟨increasing_settled increasing, ?_, ?_, ?_, ?_⟩
  · intro tx member
    have left := settled_sublist.subset member
    rw [increasing.dropWhile_below] at left
    simpa using (List.mem_filter.mp left).2
  · intro nonempty
    exact settled_starts nonempty
  · intro empty
    change settled nonce fits pending = [] at empty
    simp [empty, nonceAfter]
  · intro tx member
    change tx ∈ settled nonce fits pending at member
    unfold settled at member
    dsimp only at member
    split at member
    · exact paid tx (List.mem_takeWhile_imp member)
    · cases member

variable (nonce) in
theorem nonceAfter_cases (increasing : Increasing Transaction.nonce pending) :
    (pending = [] ∧ nonceAfter nonce pending = nonce) ∨
      ∃ last ∈ pending, (∀ tx ∈ pending, tx.nonce ≤ last.nonce) ∧ nonceAfter nonce pending = (last.nonce + 1) % 2 ^ 64 := by
  cases ends : pending.getLast? with
  | none => exact .inl ⟨List.getLast?_eq_none_iff.mp ends, by simp [nonceAfter, ends]⟩
  | some last =>
    exact .inr ⟨last, List.mem_of_getLast? ends, fun tx => increasing.le_getLast ends, by simp [nonceAfter, ends]⟩

theorem gapless_settled {next : Nat} (gapless : Gapless nonce ⟨pending, next⟩) :
    Gapless nonce ⟨settled nonce fits pending, nonceAfter nonce (settled nonce fits pending)⟩ := by
  have increasing : Increasing Transaction.nonce (settled nonce fits pending) := increasing_settled gapless.increasing
  have between : ∀ tx ∈ settled nonce fits pending, ∀ number, nonce ≤ number → number ≤ tx.nonce →
      ∃ other ∈ settled nonce fits pending, other.nonce = number := by
    intro tx member number low high
    have left := settled_sublist.subset member
    rw [gapless.increasing.dropWhile_below] at left
    obtain ⟨other, inside, rfl⟩ := gapless.between tx (List.mem_of_mem_filter left) number low high
    have above : other ∈ pending.dropWhile (·.nonce < nonce) := by
      rw [gapless.increasing.dropWhile_below]
      exact List.mem_filter.mpr ⟨inside, by simpa using low⟩
    unfold settled at member ⊢
    dsimp only at member ⊢
    split at member
    · rename_i starts
      rw [if_pos starts]
      have dropped := gapless.increasing.sublist (List.dropWhile_sublist (·.nonce < nonce))
      exact ⟨other, dropped.mem_takeWhile_of_le member above high, rfl⟩
    · cases member
  refine ⟨increasing, between, fun number low high => ?_⟩
  change number < nonceAfter nonce (settled nonce fits pending) at high
  rcases nonceAfter_cases nonce increasing with ⟨-, next⟩ | ⟨last, member, -, next⟩
  · omega
  · have := Nat.mod_le (last.nonce + 1) (2 ^ 64)
    exact between last member number low (by omega)

theorem exact_settled (increasing : Increasing Transaction.nonce pending) (below : ∀ tx ∈ pending, tx.nonce + 1 < 2 ^ 64) :
    Exact nonce ⟨settled nonce fits pending, nonceAfter nonce (settled nonce fits pending)⟩ := by
  have part : (settled nonce fits pending).Sublist pending := settled_sublist.trans (List.dropWhile_sublist _)
  have kept : Increasing Transaction.nonce (settled nonce fits pending) := increasing_settled increasing
  rcases nonceAfter_cases nonce kept with ⟨empty, next⟩ | ⟨last, member, highest, next⟩
  · exact ⟨by simp [empty], next.ge⟩
  · have next' : (last.nonce + 1) % 2 ^ 64 = last.nonce + 1 := Nat.mod_eq_of_lt (below last (part.subset member))
    have front := settled_starts (List.ne_nil_of_mem member)
    refine ⟨fun tx inside => ?_, ?_⟩
    · have := highest tx inside
      change tx.nonce < nonceAfter nonce (settled nonce fits pending)
      omega
    · obtain ⟨tx, inside, same⟩ := front
      have := highest tx inside
      change nonce ≤ nonceAfter nonce (settled nonce fits pending)
      omega

end View

end Snowside.TxPool
