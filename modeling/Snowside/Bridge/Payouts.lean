import Snowside.Bridge.Minting

/-! How often a withdrawal is paid, how often a burn is redeemed, and which
withdrawals are written off. -/

set_option autoImplicit false

namespace Snowside

open Interaction

/-- The payouts of a withdrawal, on every network. -/
def World.payoutsOf (world : World) (withdrawal : Nat) : List Payout :=
  Network.all.flatMap fun network =>
    (world.l1 network).payouts.filter fun payout => payout.withdrawal.id = withdrawal

namespace Excuse

/-- Only the payouts of some withdrawals are kept account of. -/
def allButPayouts (kept : Nat → Prop) : Excuse :=
  ⟨fun _ => True, fun withdrawal => ¬ kept withdrawal, fun _ _ => True, fun _ _ => True, fun _ => True⟩

/-- Payouts that settle keep their account. -/
theorem allButPayouts_permits (config : Config) (kept : Nat → Prop) {condition : Condition Call World Fate Event}
    (settles : ∀ withdrawal, kept withdrawal → condition.Implies (payoutSettles withdrawal)) :
    condition.Implies ((allButPayouts kept).permits config) :=
  permits_of (fun _ counts => absurd trivial counts) (fun withdrawal counts => settles withdrawal (of_not_not counts))
    (.inl fun _ _ => trivial) (.inl fun _ _ => trivial) (.inl fun _ => trivial)

end Excuse

section
variable {config : Config} {excuse : Excuse} {phase : Phase} {world : World} {waiting : Option Call}

theorem mem_payoutsOf {withdrawal : Nat} {payout : Payout} (member : payout ∈ world.payoutsOf withdrawal) :
    ∃ network, payout ∈ (world.l1 network).payouts ∧ payout.withdrawal.id = withdrawal := by
  obtain ⟨network, -, member⟩ := List.mem_flatMap.mp member
  obtain ⟨member, same⟩ := List.mem_filter.mp member
  exact ⟨network, member, of_decide_eq_true same⟩

theorem neverPaid_iff {withdrawal : Nat} : world.NeverPaid withdrawal ↔ world.payoutsOf withdrawal = [] := by
  rw [List.eq_nil_iff_forall_not_mem]
  constructor
  · intro never payout paid
    obtain ⟨network, known, same⟩ := mem_payoutsOf paid
    exact never (network, payout.txid) ⟨payout, known, rfl, same⟩
  · rintro none ⟨network, txid⟩ ⟨payout, known, -, same⟩
    refine none payout (List.mem_flatMap.mpr ⟨network, by cases network <;> decide, ?_⟩)
    exact List.mem_filter.mpr ⟨known, decide_eq_true same⟩

instance (withdrawal : Nat) : Decidable (world.NeverPaid withdrawal) :=
  decidable_of_iff _ neverPaid_iff.symm

instance (row : Withdrawal) : Decidable (WrittenOff config world row) :=
  inferInstanceAs (Decidable (_ ∧ _))

/-- The books allow one payout of a withdrawal that is not excused. -/
theorem Books.payoutsOf_length (books : Books config excuse phase world) {withdrawal : Nat}
    (kept : ¬ excuse.payout withdrawal) : (world.payoutsOf withdrawal).length ≤ 1 := by
  refine Network.length_flatMap_le_one (fun network => (books.ledgers network).distinct.of_map.filter _) ?_
  intro first left known second right known'
  obtain ⟨member, paid⟩ := List.mem_filter.mp known
  obtain ⟨member', paid'⟩ := List.mem_filter.mp known'
  have same := books.payOnce.unique withdrawal (first, left.txid) (second, right.txid) kept
    ⟨left, member, rfl, of_decide_eq_true paid⟩ ⟨right, member', rfl, of_decide_eq_true paid'⟩
  obtain ⟨rfl, txid⟩ := Prod.mk.inj same
  exact ⟨rfl, List.inj_on_of_nodup_map (books.ledgers first).distinct member member' txid⟩

/-- A failed row is not the one being paid. -/
theorem Invariant.failed_unpaid (invariant : Invariant config excuse world waiting) {row : Withdrawal}
    (member : row ∈ world.withdrawals) (failed : row.status = .failed) (kept : ¬ excuse.payout row.id) :
    world.NeverPaid row.id := by
  obtain ⟨books, guards⟩ := invariant
  -- A row that was failed is not unpaid, so nothing was made for it.
  refine fun payout => books.payOnce.clear row.id payout kept ⟨row, member, rfl, by rw [failed]; decide⟩ ?_
  intro paying
  -- Only the mark of a payout settles one, and the mark is for a pending row.
  cases waiting with
  | none => cases paying
  | some call =>
    cases call with
    | patchWithdrawal id patch =>
      obtain ⟨other, present, rfl, pending, -⟩ := guards _ rfl
      rw [phaseOf] at paying
      split at paying
      · obtain rfl := books.withdrawal_eq present member (Option.some.inj paying)
        rw [failed] at pending
        cases pending
      · cases paying
    | patchDeposit id patch => rw [phaseOf] at paying; split at paying <;> cases paying
    | _ => cases paying

end

/-- In every run in which the payouts of a withdrawal settle, it is paid at most
once, and not at all if it ends as failed. -/
theorem withdrawal_paid_once {config : Config} {clock : Nat} {tips : Network → Nat} {withdrawal : Nat}
    {state : State World Reply} (reach : Reach (federation config) (payoutSettles withdrawal)
      ((federation config).start (World.initial clock tips)) state) :
    (state.world.payoutsOf withdrawal).length ≤ 1 ∧
      ∀ row ∈ state.world.withdrawals, row.id = withdrawal → row.status = .failed →
        state.world.payoutsOf withdrawal = [] := by
  have implies : (payoutSettles withdrawal).Implies ((Excuse.allButPayouts (· = withdrawal)).permits config) :=
    Excuse.allButPayouts_permits config _ fun _ same => same ▸ .refl _
  have invariant := reach_invariant (reach.mono implies)
  refine ⟨invariant.1.payoutsOf_length fun different => different rfl, fun row member same failed => ?_⟩
  subst same
  exact neverPaid_iff.mp (invariant.failed_unpaid member failed fun different => different rfl)

theorem payoutSettles_of_undisturbed (withdrawal : Nat) (state : State World Reply)
    (action : Action Fate Event) (passed : undisturbed state action) :
    (payoutSettles withdrawal).Meets state action :=
  meets_of_undisturbed passed (fun call _ => payoutSettles_ok withdrawal state.world call) fun _ => trivial

theorem withdrawal_paid_once_sample : ∃ state,
    (federation sampleConfig).runWhile undisturbed sampleStart (burnedCoins ++ answers 8) = some state ∧
      state.world.withdrawals.map Withdrawal.status = [.completed] ∧ (state.world.payoutsOf 9).length ≤ 1 := by
  have seen : ((federation sampleConfig).runWhile undisturbed sampleStart (burnedCoins ++ answers 8)).any
      (fun state => state.world.withdrawals.map Withdrawal.status = [.completed]) = true := by
    decide +kernel
  obtain ⟨state, ran, seen⟩ := (Option.any_eq_true _ _).mp seen
  exact ⟨state, ran, of_decide_eq_true seen,
    (withdrawal_paid_once (.of_runWhile (payoutSettles_of_undisturbed 9) ran)).1⟩

/-- Esplora's answers to two broadcasts are lost, and then the time limit passes. -/
def lostAnswers : List (Action Fate Event) :=
  burnedCoins ++ [.event (.receive .signet sampleAddress 100000)] ++ answers 6 ++ [.answer .lost, .again] ++
    answers 8 ++ [.answer .lost, .again, .event (.tick (16 * 60 * 1000))] ++ answers 5

theorem lost_answers_pay_twice_and_fail : ∃ state,
    (federation sampleConfig).run sampleStart lostAnswers = some state ∧
      (state.world.payoutsOf 9).length = 2 ∧
      state.world.withdrawals.map (fun row => (row.id, row.status)) = [(9, .failed)] := by
  have seen : ((federation sampleConfig).run sampleStart lostAnswers).any (fun state =>
      (state.world.payoutsOf 9).length = 2 ∧
      state.world.withdrawals.map (fun row => (row.id, row.status)) = [(9, .failed)]) = true := by
    decide +kernel
  obtain ⟨state, ran, seen⟩ := (Option.any_eq_true _ _).mp seen
  exact ⟨state, ran, of_decide_eq_true seen⟩

/-! ## Burns -/

section
variable {config : Config} {excuse : Excuse} {phase : Phase} {state next : State World Reply}
  {action : Action Fate Event}

/-- Only a broadcast that is carried out spends outputs and adds a payout. -/
theorem step_payouts (books : Books config excuse phase state.world)
    (stepped : (federation config).step state action = some next) :
    (∀ network, (state.world.l1 network).Grows (next.world.l1 network)) ∨
    ∃ fate network tx withdrawal ledger, action = .answer fate ∧ fate ≠ .refused ∧
      state.waiting = some (.broadcast network tx withdrawal) ∧
      (state.world.l1 network).broadcast withdrawal tx = some ledger ∧
      next.world = state.world.setL1 network ledger := by
  obtain ⟨fate, call, rfl, waits, effect⟩ | ⟨-, grows⟩ := step_effect books stepped
  · generalize next.world = after at effect ⊢
    cases effect with
    | broadcast network tx withdrawal ledger _ carried accepted =>
      exact .inr ⟨fate, network, tx, withdrawal, ledger, rfl, carried, waits, accepted, rfl⟩
    | _ => exact .inl fun _ => .refl _
  · exact .inl grows.ledgers

end

/-- Payouts for one burn are one payout. -/
def RedeemedOnce (world : World) : Prop :=
  ∀ network, ∀ first ∈ (world.l1 network).payouts, ∀ second ∈ (world.l1 network).payouts, ∀ hash,
    burnOf first.withdrawal = some hash → burnOf second.withdrawal = some hash → first = second

/-- Every payout settles, and none is made when a completed row of the network
names the same burn. -/
def redeemsOnce : Condition Call World Fate Event where
  answer world
    | .broadcast network _ withdrawal, fate => fate ≠ .lost ∧ (fate = .ok →
        ∀ row ∈ world.withdrawals, row.network = network → row.status = .completed →
          ∀ hash, burnOf withdrawal = some hash → burnOf row ≠ some hash)
    | .patchWithdrawal _ patch, fate => patch.status = some .completed → fate ≠ .refused
    | _, _ => True
  event _ _ := True
  restart _ waiting := ∀ withdrawal, phaseOf waiting ≠ .paying withdrawal

theorem redeemsOnce_settles (withdrawal : Nat) : redeemsOnce.Implies (payoutSettles withdrawal) where
  answer world call fate met := by
    cases call with
    | broadcast => exact fun _ => met.1
    | patchWithdrawal => exact fun _ => met
    | _ => trivial
  event _ _ met := met
  restart _ _ met := met withdrawal

section
variable {config : Config} {excuse : Excuse} {state next : State World Reply} {action : Action Fate Event}

/-- A burn that is about to be redeemed was not redeemed before: an older payout
for it would be of a completed row, or unmarked. -/
theorem unredeemed (invariant : Invariant config excuse state.world state.waiting)
    (kept : ∀ withdrawal, ¬ excuse.payout withdrawal) {network : Network} {tx : PayoutTx} {withdrawal : Withdrawal}
    (waits : state.waiting = some (.broadcast network tx withdrawal)) {hash : Nat}
    (unused : ∀ row ∈ state.world.withdrawals, row.network = network → row.status = .completed →
      burnOf row ≠ some hash) :
    ∀ payout ∈ (state.world.l1 network).payouts, burnOf payout.withdrawal ≠ some hash := by
  obtain ⟨books, -⟩ := invariant
  intro payout paid burn
  obtain ⟨drawn, row, member, becomes⟩ := books.payouts network payout paid
  have burn : burnOf row = some hash := by rw [burnOf, becomes.burnTxHash]; exact burn
  by_cases completed : row.status = .completed
  · exact unused row member (becomes.network.trans drawn.home) completed burn
  · refine books.payOnce.clear row.id (network, payout.txid) (kept row.id) ⟨row, member, rfl, completed⟩ ?_
      ⟨payout, paid, rfl, becomes.id.symm⟩
    rw [waits]
    exact nofun

theorem step_redeemedOnce (invariant : Invariant config excuse state.world state.waiting)
    (kept : ∀ withdrawal, ¬ excuse.payout withdrawal) (met : redeemsOnce.Meets state action)
    (stepped : (federation config).step state action = some next) (once : RedeemedOnce state.world) :
    RedeemedOnce next.world := by
  obtain same | ⟨fate, network, tx, withdrawal, ledger, rfl, carried, waits, accepted, same⟩ :=
    step_payouts invariant.1 stepped
  · intro other first left second right
    rw [(same other).payouts] at left right
    exact once other first left second right
  obtain ⟨settled, unused⟩ := met _ waits
  have answered : fate = .ok := by
    cases fate with
    | ok => rfl
    | lost => exact absurd rfl settled
    | refused => exact absurd rfl carried
  have fresh {payout : Payout} (paid : payout ∈ (state.world.l1 network).payouts) {hash : Nat}
      (burn : burnOf payout.withdrawal = some hash) : burnOf withdrawal ≠ some hash := fun again =>
    unredeemed invariant kept waits (fun row member home completed =>
      unused answered row member home completed hash again) payout paid burn
  -- Of two payouts for one burn, none is the new one, or both are.
  obtain ⟨-, rfl⟩ := Ledger.broadcast_eq accepted
  intro other first left second right hash burn burn'
  rw [same] at left right
  by_cases here : other = network
  · subst here
    rw [World.setL1_l1, Function.update_self] at left right
    obtain left | left := List.mem_append.mp left
    · obtain right | right := List.mem_append.mp right
      · exact once other first left second right hash burn burn'
      · rw [List.mem_singleton.mp right] at burn'
        exact absurd burn' (fresh left burn)
    · obtain right | right := List.mem_append.mp right
      · rw [List.mem_singleton.mp left] at burn
        exact absurd burn (fresh right burn')
      · rw [List.mem_singleton.mp left, List.mem_singleton.mp right]
  · rw [World.setL1_l1, Function.update_of_ne here] at left right
    exact once other first left second right hash burn burn'

end

/-- In every run that redeems each burn once while its payouts settle, no two
payouts of a network are for one burn. -/
theorem burns_redeemed_once {config : Config} {clock : Nat} {tips : Network → Nat}
    {state : State World Reply} (reach : Reach (federation config) redeemsOnce
      ((federation config).start (World.initial clock tips)) state) : RedeemedOnce state.world := by
  have implies : redeemsOnce.Implies ((Excuse.allButPayouts fun _ => True).permits config) :=
    Excuse.allButPayouts_permits config _ fun withdrawal _ => redeemsOnce_settles withdrawal
  induction reach with
  | start => exact fun _ _ member => absurd member List.not_mem_nil
  | step reach met stepped ih =>
    exact step_redeemedOnce (reach_invariant (reach.mono implies)) (fun _ excused => excused trivial) met stepped ih

/-- The check of redeemed burns at a broadcast, in a run without failures. -/
def redeemsFresh (state : State World Reply) (action : Action Fate Event) : Bool :=
  undisturbed state action &&
    match state.waiting with
    | some (.broadcast network _ withdrawal) => decide (∀ row ∈ state.world.withdrawals, row.network = network →
        row.status = .completed → burnOf withdrawal = none ∨ burnOf row ≠ burnOf withdrawal)
    | _ => true

theorem redeemsOnce_of_redeemsFresh (state : State World Reply) (action : Action Fate Event)
    (passed : redeemsFresh state action) : redeemsOnce.Meets state action := by
  obtain ⟨calm, fresh⟩ := Bool.and_eq_true_iff.mp passed
  refine meets_of_undisturbed calm (fun call waits => ?_) fun _ => trivial
  rw [waits] at fresh
  cases call with
  | broadcast network tx withdrawal =>
    refine ⟨by decide, fun _ row member home completed hash burn burn' => ?_⟩
    obtain none | other := of_decide_eq_true fresh row member home completed
    · rw [none] at burn
      cases burn
    · exact other (burn'.trans burn.symm)
  | patchWithdrawal => exact fun _ => by decide
  | _ => trivial

theorem burns_redeemed_once_sample : ∃ state,
    (federation sampleConfig).runWhile redeemsFresh sampleStart (burnedCoins ++ answers 8) = some state ∧
      (state.world.payoutsOf 9).length = 1 ∧ RedeemedOnce state.world := by
  have seen : ((federation sampleConfig).runWhile redeemsFresh sampleStart (burnedCoins ++ answers 8)).any
      (fun state => (state.world.payoutsOf 9).length = 1) = true := by
    decide +kernel
  obtain ⟨state, ran, seen⟩ := (Option.any_eq_true _ _).mp seen
  exact ⟨state, ran, of_decide_eq_true seen, burns_redeemed_once (.of_runWhile redeemsOnce_of_redeemsFresh ran)⟩

/-- Two rows that name one burn are paid in one turn. -/
def repeatedBurn : List (Action Fate Event) :=
  burnedCoins ++ [.event (.receive .signet sampleAddress 100000),
    .event (.postWithdrawal 10 sampleWithdrawal)] ++ answers 14

theorem repeated_burn_pays_twice : ∃ state,
    (federation sampleConfig).run sampleStart repeatedBurn = some state ∧
      (state.world.l1 .signet).payouts.map (fun payout => (payout.withdrawal.id, burnOf payout.withdrawal)) =
        [(9, some 1), (10, some 1)] ∧
      ¬ RedeemedOnce state.world := by
  have seen : ((federation sampleConfig).run sampleStart repeatedBurn).any (fun state =>
      (state.world.l1 .signet).payouts.map (fun payout => (payout.withdrawal.id, burnOf payout.withdrawal)) =
        [(9, some 1), (10, some 1)]) = true := by
    decide +kernel
  obtain ⟨state, ran, seen⟩ := (Option.any_eq_true _ _).mp seen
  have paid := of_decide_eq_true seen
  refine ⟨state, ran, paid, fun once => ?_⟩
  obtain ⟨first, left, same⟩ := List.mem_map.mp (show (9, some 1) ∈ _ by rw [paid]; simp)
  obtain ⟨second, right, same'⟩ := List.mem_map.mp (show (10, some 1) ∈ _ by rw [paid]; simp)
  obtain ⟨id, burn⟩ := Prod.mk.inj same
  obtain ⟨id', burn'⟩ := Prod.mk.inj same'
  have equal := congrArg (fun payout => payout.withdrawal.id) (once .signet first left second right 1 burn burn')
  rw [id, id'] at equal
  exact absurd equal (by decide)

/-! ## Expiry -/

namespace Excuse

/-- Only the rows that are written off are kept account of. -/
def allButLate : Excuse := ⟨fun _ => True, fun _ => True, fun _ _ => True, fun _ _ => True, fun _ => False⟩

theorem expiresInTime_permits (config : Config) : (expiresInTime config).Implies (allButLate.permits config) :=
  permits_of (fun _ kept => absurd trivial kept) (fun _ kept => absurd trivial kept) (.inl fun _ _ => trivial)
    (.inl fun _ _ => trivial) (.inr (.refl _))

end Excuse

/-- A step that fails a row whose burn verifies, whose amount is above dust and
which was never paid. -/
def WritesOff (config : Config) (before after : World) : Prop :=
  ∃ row ∈ before.withdrawals, row.status = .pending ∧
    (Redeemable config before row ∧ before.NeverPaid row.id) ∧
    ∃ later ∈ after.withdrawals, later.id = row.id ∧ later.status = .failed

instance (config : Config) (before after : World) : Decidable (WritesOff config before after) :=
  inferInstanceAs (Decidable (∃ _ ∈ _, _ ∧ _ ∧ _))

/-- In every run in which rows expire in time, no step writes off a burn. -/
theorem burn_never_written_off {config : Config} {clock : Nat} {tips : Network → Nat}
    {state next : State World Reply} {action : Action Fate Event}
    (reach : Reach (federation config) (expiresInTime config)
      ((federation config).start (World.initial clock tips)) state)
    (stepped : (federation config).step state action = some next) :
    ¬ WritesOff config state.world next.world := by
  rintro ⟨row, member, pending, unpaid, later, present, same, failed⟩
  obtain ⟨books, guards⟩ := reach_invariant (reach.mono (Excuse.expiresInTime_permits config))
  have unchanged : later ∉ state.world.withdrawals := by
    intro known
    rw [books.withdrawal_eq known member same, pending] at failed
    cases failed
  obtain ⟨fate, call, -, waits, effect⟩ | ⟨after, grows⟩ := step_effect books stepped
  · generalize next.world = after at effect present
    cases effect with
    | patchWithdrawal id patch _ carried =>
      -- Of all patches only the one of the time limit fails a row.
      obtain ⟨other, known, rfl, -, step⟩ := guards _ waits
      obtain rfl | ⟨known', -⟩ := (Api.mem_update books.withdrawalIds known _ _).mp present
      · obtain rfl := books.withdrawal_eq member known same.symm
        cases step with
        | fail now _ _ late => exact late unpaid
        | complete txid made => cases failed
      · exact unchanged known'
    | _ => exact unchanged present
  · rw [after.withdrawal_eq present (grows.withdrawals member) same, pending] at failed
    cases failed

/-- The check of ages and of burns that arrive. -/
def expiryChecked (state : State World Reply) : Action Fate Event → Bool
  | .answer _ =>
      match state.waiting with
      | some (.now .age) => decide (∀ row ∈ state.world.withdrawals, row.status = .pending →
          TimedOut state.world.clock row → ¬ WrittenOff sampleConfig state.world row)
      | _ => true
  | .event (.transact network _ _ _ _) => decide (∀ row ∈ state.world.withdrawals, row.status = .pending →
      row.network = network → TimedOut state.world.clock row →
      burnOf row ≠ some (state.world.l2 network).txs.length)
  | _ => true

theorem expiresInTime_of_expiryChecked (state : State World Reply) (action : Action Fate Event)
    (passed : expiryChecked state action) : (expiresInTime sampleConfig).Meets state action := by
  cases action with
  | answer fate =>
    intro call waits
    simp only [expiryChecked, waits] at passed
    cases call with
    | now reading =>
      cases reading with
      | age =>
        have inTime := of_decide_eq_true passed
        exact inTime
      | _ => trivial
    | _ => trivial
  | event event =>
    cases event with
    | transact =>
      have inTime := of_decide_eq_true passed
      exact inTime
    | _ => trivial
  | _ => trivial

/-- A withdrawal without a burn waits for longer than the time limit. -/
def burnless : List (Action Fate Event) :=
  [.event (.postWithdrawal 9 { sampleWithdrawal with burnTxHash := none }),
    .event (.tick (16 * 60 * 1000))] ++ answers 4

theorem burn_never_written_off_sample : ∃ state next,
    (federation sampleConfig).runWhile expiryChecked sampleStart burnless = some state ∧
      (federation sampleConfig).step state (.answer .ok) = some next ∧
      next.world.withdrawals.map Withdrawal.status = [.failed] ∧
      ¬ WritesOff sampleConfig state.world next.world := by
  have seen : ((federation sampleConfig).runWhile expiryChecked sampleStart burnless).any (fun state =>
      ((federation sampleConfig).step state (.answer .ok)).any fun next =>
        next.world.withdrawals.map Withdrawal.status = [.failed]) = true := by
    decide +kernel
  obtain ⟨state, ran, seen⟩ := (Option.any_eq_true _ _).mp seen
  obtain ⟨next, stepped, seen⟩ := (Option.any_eq_true _ _).mp seen
  exact ⟨state, next, ran, stepped, of_decide_eq_true seen,
    burn_never_written_off (.of_runWhile expiresInTime_of_expiryChecked ran) stepped⟩

/-- The burn is on L2, but the loop is down for longer than the time limit. -/
def downtime : List (Action Fate Event) := burnedCoins ++ [.event (.tick (16 * 60 * 1000))] ++ answers 2

theorem downtime_writes_off_burn : ∃ state next,
    (federation sampleConfig).run sampleStart downtime = some state ∧
      (federation sampleConfig).step state (.answer .ok) = some next ∧
      WritesOff sampleConfig state.world next.world := by
  have seen : ((federation sampleConfig).run sampleStart downtime).any (fun state =>
      ((federation sampleConfig).step state (.answer .ok)).any fun next =>
        WritesOff sampleConfig state.world next.world) = true := by
    decide +kernel
  obtain ⟨state, ran, seen⟩ := (Option.any_eq_true _ _).mp seen
  obtain ⟨next, stepped, seen⟩ := (Option.any_eq_true _ _).mp seen
  exact ⟨state, next, ran, stepped, of_decide_eq_true seen⟩

end Snowside
