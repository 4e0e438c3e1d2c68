import Snowside.Bridge.LifeCycle
import Snowside.Bridge.Payouts
import Snowside.Bridge.Reasons
import Snowside.Mainchain.Ripening

/-! The amounts of a minted deposit: what its row says, what was minted and what
had matured at its address. -/

set_option autoImplicit false

namespace Snowside

open Interaction

/-! ## Earlier worlds -/

/-- What never changes in a row, and the amount of a confirmed one. -/
structure Deposit.Keeps (row later : Deposit) : Prop where
  becomes : row.Becomes later
  amount : row.status ≠ .pending → later.amountSats = row.amountSats

theorem Deposit.Keeps.refl (row : Deposit) : row.Keeps row := ⟨.refl row, fun _ => rfl⟩

theorem Deposit.Keeps.trans {first second third : Deposit} (left : first.Keeps second) (right : second.Keeps third) :
    first.Keeps third where
  becomes := left.becomes.trans right.becomes
  amount settled := (right.amount (left.becomes.confirmed settled)).trans (left.amount settled)

theorem Deposit.Moves.keeps {config : Config} {row later : Deposit} (moves : row.Moves config later) : row.Keeps later where
  becomes := moves.becomes
  amount settled := by
    obtain ⟨world, now, patch, step, rfl⟩ := moves
    cases step with
    | assign wallet index pending => exact absurd pending settled
    | confirm result pending => exact absurd pending settled
    | mint => rfl

namespace World

/-- The first world has become the second. -/
structure Precedes (before after : World) : Prop where
  ledgers : ∀ network, (before.l1 network).Precedes (after.l1 network)
  rows : ∀ row ∈ before.deposits, ∃ later ∈ after.deposits, row.Keeps later

theorem Precedes.refl (world : World) : world.Precedes world :=
  ⟨fun _ => .refl _, fun row member => ⟨row, member, .refl row⟩⟩

theorem Precedes.trans (first second third : World) (before : first.Precedes second) (after : second.Precedes third) :
    first.Precedes third where
  ledgers network := (before.ledgers network).trans (after.ledgers network)
  rows row member := by
    obtain ⟨middle, known, kept⟩ := before.rows row member
    obtain ⟨later, present, still⟩ := after.rows middle known
    exact ⟨later, present, kept.trans still⟩

section
variable (config : Config) (world : World) (row : Deposit)

/-- Satoshis that had enough confirmations at the row's address, spent or not. -/
def matured : Nat := (world.l1 row.network).matured (config.minConfirmations row.network) row.ecashAddress

/-- What of it is spent. -/
def maturedSpent : Nat := (world.l1 row.network).maturedSpent (config.minConfirmations row.network) row.ecashAddress

end

end World

section

variable {config : Config} {clock : Nat} {tips : Network → Nat}
  {condition : Condition Call (World × BridgeLog) Fate Event} {state next : State (World × BridgeLog) Reply}
  {exchange : Exchange World Fate Reply} {earlier : BridgeLog}

theorem step_precedes {state next : State World Reply} {action : Action Fate Event}
    (reach : Reach (federation config) .free ((federation config).start (World.initial clock tips)) state)
    (stepped : (federation config).step state action = some next) : state.world.Precedes next.world where
  ledgers network := by
    have books := (reach_invariant (reach.mono (Excuse.all_permits config .free))).1
    obtain grows | ⟨fate, home, tx, withdrawal, ledger, -, -, -, accepted, same⟩ := step_payouts books stepped
    · exact (grows network).precedes
    · rw [same, World.setL1_l1]
      by_cases here : network = home
      · subst here
        rw [Function.update_self]
        exact Ledger.broadcast_precedes accepted
      · rw [Function.update_of_ne here]
        exact .refl _
  rows := (tables_step reach stepped).deposits.exists_later Deposit.Keeps.refl (fun _ _ moves => moves.keeps)
    (reach_depositIds reach)

/-- A run of the process with its log. -/
abbrev LoggedRun (config : Config) (condition : Condition Call (World × BridgeLog) Fate Event) (clock : Nat)
    (tips : Network → Nat) (state : State (World × BridgeLog) Reply) : Prop :=
  Reach (federation config).logged condition ((federation config).logged.start (World.initial clock tips, [])) state

namespace LoggedRun

theorem plain (run : LoggedRun config condition clock tips state) :
    Reach (federation config) .free ((federation config).start (World.initial clock tips)) state.unlogged :=
  Reach.unlogged run

theorem invariant (run : LoggedRun config condition clock tips state) :
    Invariant config .all state.world.1 state.waiting :=
  reach_invariant (run.plain.mono (Excuse.all_permits config .free))

theorem precedes (run : LoggedRun config condition clock tips state) :
    ∀ exchange ∈ state.world.2, exchange.world.Precedes state.world.1 := by
  refine Reach.since World.Precedes.trans (fun before after action run stepped => ?_) run rfl
  have plainly := (System.logged_step _ before action).symm.trans (congrArg (Option.map State.unlogged) stepped)
  exact step_precedes (plain run) plainly

end LoggedRun

/-- What is known of a call that was answered after some others. -/
structure Answered (config : Config) (condition : Condition Call (World × BridgeLog) Fate Event)
    (exchange : Exchange World Fate Reply) (earlier : BridgeLog) : Prop where
  invariant : Invariant config .all exchange.world (some exchange.call)
  reasoned : Reasoned config earlier exchange.call
  precedes : ∀ other ∈ earlier, other.world.Precedes exchange.world
  allowed : condition.answer (exchange.world, earlier) exchange.call exchange.fate

theorem LoggedRun.answered (run : LoggedRun config condition clock tips state)
    (part : exchange :: earlier <:+ state.world.2) : Answered config condition exchange earlier := by
  obtain ⟨⟨before, reach, held, waits, allowed⟩, -⟩ := Reach.answered run rfl part
  have invariant := LoggedRun.invariant reach
  have precedes := LoggedRun.precedes reach
  have reasoned := (Program.Asks.reach (fun _ => poll_reasons) reach).waiting waits
  rw [held] at invariant precedes reasoned
  rw [waits] at invariant
  exact ⟨invariant, reasoned, precedes, allowed⟩

/-! ## Where mints and amounts come from -/

/-- The call that sent a mint. -/
structure Exchange.Sent (exchange : Exchange World Fate Reply) (network : Network) (hash : Nat) (input : Text)
    (note : MintNote) : Prop where
  call : exchange.call = .sendTransaction network input note
  carried : exchange.fate ≠ .refused
  hash : (exchange.world.l2 network).txs.length = hash
  bytes : (callBytes input).isSome

namespace LoggedRun

theorem sent (run : LoggedRun config condition clock tips state) {network : Network} {tx : Tx} {note : MintNote}
    (member : tx ∈ (state.world.1.l2 network).txs) (noted : tx.mint = some note) :
    ∃ exchange earlier, exchange :: earlier <:+ state.world.2 ∧ Exchange.Sent exchange network tx.hash tx.input note := by
  let present (world : World) (found : Network × Nat × Text × MintNote) : Prop :=
    ∃ tx ∈ (world.l2 found.1).txs, tx.hash = found.2.1 ∧ tx.input = found.2.2.1 ∧ tx.mint = some found.2.2.2
  let source (exchange : Exchange World Fate Reply) (found : Network × Nat × Text × MintNote) : Prop :=
    Exchange.Sent exchange found.1 found.2.1 found.2.2.1 found.2.2.2
  refine Reach.origin present source ?_ ?_ ?_ run (network, tx.hash, tx.input, note)
    ⟨tx, member, rfl, rfl, noted⟩
  · rintro found ⟨tx, member, -⟩
    exact List.not_mem_nil member
  · rintro before event world found run happened ⟨tx, member, hash, input, noted⟩
    obtain ⟨old, known, becomes⟩ | nothing := ((invariant run).1.happen happened).2.mints found.1 tx member
    · exact ⟨old, known, becomes.hash.symm.trans hash, becomes.input.symm.trans input, becomes.mint.symm.trans noted⟩
    · rw [nothing] at noted
      cases noted
  · rintro world call fate reply after ⟨target, hash, input, note⟩ performed ⟨tx, member, rfl, rfl, noted⟩
    obtain old | ⟨call, carried, hash, bytes⟩ := (perform_effect performed).mint member noted
    · exact .inl ⟨tx, old, rfl, rfl, noted⟩
    · exact .inr ⟨call, carried, hash, bytes⟩

/-- The call that confirmed a row. -/
structure Exchange.Confirmed (exchange : Exchange World Fate Reply) (deposit amount : Nat) : Prop where
  carried : exchange.fate ≠ .refused
  call : ∃ patch, exchange.call = .patchDeposit deposit patch ∧ patch.amountSats = some amount

theorem confirmed (run : LoggedRun config condition clock tips state) {row : Deposit} {amount : Nat}
    (member : row ∈ state.world.1.deposits) (known : row.amountSats = some amount) :
    ∃ exchange earlier, exchange :: earlier <:+ state.world.2 ∧ Exchange.Confirmed exchange row.id amount := by
  let present (world : World) (found : Nat × Nat) : Prop :=
    ∃ row ∈ world.deposits, row.id = found.1 ∧ row.amountSats = some found.2
  let source (exchange : Exchange World Fate Reply) (found : Nat × Nat) : Prop :=
    Exchange.Confirmed exchange found.1 found.2
  refine Reach.origin present source ?_ ?_ ?_ run (row.id, amount) ⟨row, member, rfl, known⟩
  · rintro found ⟨row, member, -⟩
    exact List.not_mem_nil member
  · rintro before event world found run happened ⟨row, member, id, known⟩
    obtain ⟨books, grows⟩ := (invariant run).1.happen happened
    rcases grows.blank row member with old | blank
    · exact ⟨row, old, id, known⟩
    · -- A row without an address has no amount.
      cases books.staged row member with
      | blank _ _ _ empty => rw [empty] at known; cases known
      | assigned _ _ _ _ _ holds => rw [holds] at blank; cases blank
  · rintro world call fate reply after ⟨id, amount⟩ performed ⟨row, member, rfl, known⟩
    have effect := perform_effect performed
    cases effect with
    | patchDeposit id patch _ carried =>
      obtain ⟨other, listed, rfl⟩ := List.mem_map.mp member
      split at known
      · next same =>
        rw [if_pos same]
        cases written : patch.amountSats with
        | some amount =>
          obtain rfl : amount = _ := Option.some.inj ((congrArg (Option.or · other.amountSats) written).symm.trans known)
          exact .inr ⟨carried, patch, by rw [← same]; rfl, written⟩
        | none =>
          have kept : other.amountSats = _ := (congrArg (Option.or · other.amountSats) written).symm.trans known
          exact .inl ⟨other, listed, rfl, kept⟩
      · next different =>
        exact .inl ⟨other, listed, by rw [if_neg different], known⟩
    | _ => exact .inl ⟨row, member, rfl, known⟩

end LoggedRun

/-! ## Amounts -/

/-- What was counted at the row's address is what has matured there, if nothing more
matured since an earlier world and nothing of it is spent. -/
theorem Counted.amount_eq {row : Deposit} {result : Received} {listing reading : Exchange World Fate Reply} {first last : World}
    (counted : Counted config row result listing reading) (clean : ∀ address, row.ecashAddress = some address →
      cleanAddress address = address) (before : first.Precedes reading.world) (between : reading.world.Precedes listing.world)
    (behind : listing.world.Precedes last) (formed : ∀ world ∈ [first, listing.world, last], ∀ network,
      (world.l1 network).WellFormed) (same : last.matured config row = first.matured config row)
    (unspent : last.maturedSpent config row = 0) : result.amount = last.matured config row := by
  obtain ⟨address, assigned, -, found⟩ := counted.utxos
  rw [clean address assigned] at found
  -- The API lists unspent outputs of the address; the depth is judged with the older tip.
  have listed : result.counted = (reading.world.l1 row.network).ripe (config.minConfirmations row.network)
      row.ecashAddress (listing.world.l1 row.network).unspent := by
    rw [found, assigned, confirmedOutputs, Ledger.utxos, List.filter_filter]
    refine List.filter_congr fun output _ => ?_
    rw [Bool.decide_and, Bool.and_comm]
    congr 1
    · exact decide_eq_decide.mpr ⟨fun equal => congrArg some equal.symm, fun equal => (Option.some.inj equal).symm⟩
    · simp
  rw [counted.amount, listed]
  exact Ledger.total_listed (before.ledgers _) (between.ledgers _) (behind.ledgers _) (formed _ (by simp) _)
    (formed _ (by simp) _) (formed _ (by simp) _) same unspent

/-- The row that the call confirms. -/
def Call.confirmedRow : Call → Option Nat
  | .patchDeposit id patch => if patch.status = some .confirmed then some id else none
  | _ => none

/-- The worlds in which the tip was read for the confirmations of the deposit that
were carried out, each two calls before. -/
def readings (deposit : Nat) : BridgeLog → List World
  | [] => []
  | exchange :: earlier =>
      if exchange.call.confirmedRow = some deposit ∧ exchange.fate ≠ .refused then
        ((earlier[1]?).map Exchange.world).toList ++ readings deposit earlier
      else readings deposit earlier

theorem mem_readings {deposit : Nat} {log : BridgeLog} {confirm listing reading : Exchange World Fate Reply}
    (confirms : confirm.call.confirmedRow = some deposit) (carried : confirm.fate ≠ .refused)
    (part : confirm :: listing :: reading :: earlier <:+ log) : reading.world ∈ readings deposit log := by
  induction log with
  | nil => exact absurd (List.suffix_nil.mp part) (List.cons_ne_nil _ _)
  | cons exchange log ih =>
    rw [readings]
    rcases List.suffix_cons_iff.mp part with whole | before
    · obtain ⟨rfl, rfl⟩ := List.cons.inj whole
      rw [if_pos ⟨confirms, carried⟩]
      exact List.mem_append_left _ List.mem_cons_self
    · split
      · exact List.mem_append_right _ (ih before)
      · exact ih before

/-- From the readings for its confirmation on, no more has matured at the row's
address and nothing of it is spent; address and amount fit their words of the call. -/
structure Steady (config : Config) (row : Deposit) (log : BridgeLog) (world : World) : Prop where
  matured : ∀ reading ∈ readings row.id log, world.matured config row = reading.matured config row
  unspent : world.maturedSpent config row = 0
  address : (addressDigits config.lowerCase row.snowsideAddress).length ≤ 64
  amount : world.matured config row * satsToEcx < 2 ^ 256

/-- The mints of the deposit are sent in steady worlds only. -/
def sentSteady (config : Config) (deposit : Nat) : Condition Call (World × BridgeLog) Fate Event where
  answer held
    | .sendTransaction _ _ note, fate => fate ≠ .refused → note.deposit = deposit →
        ∀ row ∈ held.1.deposits, row.id = deposit → Steady config row held.2 held.1
    | _, _ => True
  event _ _ := True
  restart _ _ := True

/-- The count that a row was confirmed with, and the reading of the tip for it. -/
structure Confirmation (config : Config) (row : Deposit) (log : BridgeLog) (amount : Nat)
    (confirm listing reading : Exchange World Fate Reply) : Prop where
  stored : row.amountSats = some amount
  confirms : confirm.call.confirmedRow = some row.id
  carried : confirm.fate ≠ .refused
  part : ∃ rest, confirm :: listing :: reading :: rest <:+ log
  counted : ∃ known result, known.id = row.id ∧ KnownRow known log ∧ Counted config known result listing reading ∧
    result.amount = amount

namespace LoggedRun

variable {confirm listing reading : Exchange World Fate Reply} {rest : BridgeLog} {row known : Deposit} {result : Received}
  {amount : Nat}

/-- A row that is not pending has its amount from a confirmation. -/
theorem confirmation (run : LoggedRun config condition clock tips state) (member : row ∈ state.world.1.deposits)
    (settled : row.status ≠ .pending) :
    ∃ amount confirm listing reading, Confirmation config row state.world.2 amount confirm listing reading := by
  obtain ⟨amount, stored⟩ : ∃ amount, row.amountSats = some amount := by
    cases (invariant run).1.staged row member with
    | blank pending => exact absurd pending settled
    | assigned _ _ _ _ _ _ stage => exact Option.ne_none_iff_exists'.mp fun none => settled (stage.mp none)
  obtain ⟨confirm, earlier, part, carried, patch, call, written⟩ := run.confirmed member stored
  have told := run.answered part
  have guarded := told.invariant.2 _ rfl
  have reasoned := told.reasoned
  rw [call] at guarded reasoned
  obtain ⟨patched, -, same, step⟩ := guarded
  -- Only the confirmation writes the amount.
  have status : patch.status = some .confirmed := by
    cases step with
    | assign => cases written
    | confirm => rfl
    | mint => cases written
  obtain ⟨known, result, id, rfl, shown, listing, reading, rest, rfl, counted⟩ := reasoned status
  exact ⟨amount, confirm, listing, reading, stored, by rw [call]; rfl, carried, ⟨rest, part⟩, known, result, id,
    shown.mono ((List.suffix_cons confirm _).trans part), counted, Option.some.inj written⟩

/-- What was counted for a row before a call is what has matured at that call. -/
theorem counted_amount (run : LoggedRun config condition clock tips state) (part : exchange :: earlier <:+ state.world.2)
    (inner : listing :: reading :: rest <:+ earlier) (listed : KnownRow known earlier)
    (counted : Counted config known result listing reading) (member : row ∈ exchange.world.deposits) (same : known.id = row.id)
    {first : World} (formed : ∀ network, (first.l1 network).WellFormed) (before : first.Precedes reading.world)
    (matured : exchange.world.matured config row = first.matured config row)
    (unspent : exchange.world.maturedSpent config row = 0) : result.amount = exchange.world.matured config row := by
  have whole := inner.trans ((List.suffix_cons exchange earlier).trans part)
  have last := run.answered part
  have middle := run.answered whole
  obtain ⟨address, assigned, -⟩ := counted.utxos
  obtain ⟨shown, told, present⟩ := listed
  obtain ⟨later, found, kept⟩ := (last.precedes shown told).rows known present
  obtain rfl := last.invariant.1.deposit_eq found member (kept.becomes.id.trans same)
  have network := kept.becomes.network
  have home := kept.becomes.ecashAddress (by rw [assigned]; rfl)
  have clean : ∀ address, known.ecashAddress = some address → cleanAddress address = address := by
    intro address assigned
    cases last.invariant.1.staged later found with
    | blank _ blank => rw [home, assigned] at blank; cases blank
    | assigned wallet index _ _ derived =>
      rw [home, assigned] at derived
      rw [Option.some.inj derived]
      exact cleanAddress_derived _ _ _
  -- The row has kept its network and its address since it was listed.
  have moved (world : World) : world.matured config later = world.matured config known := by
    rw [World.matured, World.matured, network, home]
  have gone : exchange.world.maturedSpent config known = 0 := by
    rw [← unspent, World.maturedSpent, World.maturedSpent, network, home]
  rw [moved, moved] at matured
  rw [moved]
  refine counted.amount_eq clean before (middle.precedes _ List.mem_cons_self)
    (last.precedes _ (inner.subset List.mem_cons_self)) ?_ matured gone
  intro world among
  simp only [List.mem_cons, List.not_mem_nil, or_false] at among
  rcases among with rfl | rfl | rfl
  · exact formed
  · exact middle.invariant.1.ledgers
  · exact last.invariant.1.ledgers

/-- The tip was not read for an earlier confirmation after it was read for a count. -/
theorem reading_precedes (run : LoggedRun config condition clock tips state) (whole : listing :: reading :: rest <:+ state.world.2)
    (counted : Counted config known result listing reading) {listing' reading' : Exchange World Fate Reply}
    {rest' : BridgeLog} {deposit : Nat} (confirms : confirm.call.confirmedRow = some deposit)
    (part : confirm :: listing' :: reading' :: rest' <:+ listing :: reading :: rest) : reading'.world.Precedes reading.world := by
  obtain ⟨address, -, listed, -⟩ := counted.utxos
  -- Neither call of the count is a confirmation.
  rcases List.suffix_cons_iff.mp part with same | part
  · rw [(List.cons.inj same).1, listed] at confirms
    cases confirms
  rcases List.suffix_cons_iff.mp part with same | part
  · rw [(List.cons.inj same).1, counted.tip] at confirms
    cases confirms
  · exact (run.answered ((List.suffix_cons listing _).trans whole)).precedes _ (part.subset (by simp))

section
variable (run : LoggedRun config condition clock tips state) (part : exchange :: earlier <:+ state.world.2)
  (member : row ∈ exchange.world.deposits) (confirmation : Confirmation config row earlier amount confirm listing reading)
  (steady : Steady config row earlier exchange.world)
include run part member confirmation steady

/-- In a steady world the amount of a row is what has matured. -/
theorem stored_amount : amount = exchange.world.matured config row := by
  obtain ⟨rest, inner⟩ := confirmation.part
  obtain ⟨known, result, same, listed, counted, rfl⟩ := confirmation.counted
  have within := (List.suffix_cons confirm _).trans inner
  have first := run.answered ((List.suffix_cons listing _).trans
    (within.trans ((List.suffix_cons exchange earlier).trans part)))
  exact run.counted_amount part within listed counted member same first.invariant.1.ledgers (.refl _)
    (steady.matured _ (mem_readings confirmation.confirms confirmation.carried inner)) steady.unspent

/-- And so is what a mint of it has counted. -/
theorem minted_amount (same : known.id = row.id)
    (found : Found config known result earlier ∨ Found config known result earlier.tail) :
    result.amount = exchange.world.matured config row := by
  obtain ⟨rest, inner⟩ := confirmation.part
  have whole := (List.suffix_cons exchange earlier).trans part
  have first := run.answered ((List.suffix_cons listing _).trans ((List.suffix_cons confirm _).trans (inner.trans whole)))
  have count {listing' reading' : Exchange World Fate Reply} {rest' : BridgeLog}
      (within : listing' :: reading' :: rest' <:+ earlier) (listed : KnownRow known (listing' :: reading' :: rest'))
      (counted : Counted config known result listing' reading') (order : reading.world.Precedes reading'.world) :=
    run.counted_amount part within (listed.mono within) counted member same first.invariant.1.ledgers order
      (steady.matured _ (mem_readings confirmation.confirms confirmation.carried inner)) steady.unspent
  rcases found with ⟨listed, listing', reading', rest', rfl, counted⟩ | ⟨listed, listing', reading', rest', shape, counted⟩
  · exact count (List.suffix_refl _) listed counted (run.reading_precedes whole counted confirmation.confirms inner)
  · cases earlier with
    | nil => cases shape
    | cons last earlier =>
      rw [show earlier = listing' :: reading' :: rest' from shape] at inner whole listed count
      have within : listing' :: reading' :: rest' <:+ last :: listing' :: reading' :: rest' := List.suffix_cons _ _
      refine count within listed counted ?_
      -- The confirmation is the last call, with the same count, or an earlier one.
      rcases List.suffix_cons_iff.mp inner with same | before
      · cases same
        exact .refl _
      · exact run.reading_precedes (within.trans whole) counted confirmation.confirms before

end

end LoggedRun

/-- A mint call that was accepted by the client and whose parts fit is worth its amount. -/
theorem mintOf_of_bytes {lower : LowerCase} {toAddress : Text} {amount : Nat}
    (bytes : (callBytes (encodeMintCall lower toAddress amount)).isSome) (short : (addressDigits lower toAddress).length ≤ 64)
    (small : amount < 2 ^ 256) : ∃ recipient, mintOf (encodeMintCall lower toAddress amount) = some (recipient, amount) := by
  cases spelled : Text.hexValues (addressDigits lower toAddress) with
  | none =>
    rw [callBytes_encodeMintCall_none lower toAddress amount spelled] at bytes
    cases bytes
  | some digits =>
    exact ⟨_, mintOf_encodeMintCall_fit lower toAddress amount spelled (by rw [Text.hexValues_length spelled]; exact short) small⟩

end

/-- In every run that sends the mints of a deposit in steady worlds, its only
successful mint is worth the amount of its row, and what had matured at its address
when it was sent. -/
theorem minted_amounts_agree {config : Config} {clock : Nat} {tips : Network → Nat} {deposit : Nat}
    {state : State (World × BridgeLog) Reply} (run : LoggedRun config (sentSteady config deposit) clock tips state)
    {row : Deposit} (member : row ∈ state.world.1.deposits) (named : row.id = deposit) {tx : Tx}
    (once : state.world.1.mintsOf deposit = [tx]) :
    ∃ amount note, row.amountSats = some amount ∧ tx.mintedWei = satsToEcx * amount ∧
      ∃ exchange ∈ state.world.2, Exchange.Sent exchange row.network tx.hash tx.input note ∧
        tx.mintedWei = satsToEcx * exchange.world.matured config row := by
  obtain ⟨network, known, success, note, noted, minted⟩ :=
    mem_mintsOf (show tx ∈ state.world.1.mintsOf deposit by rw [once]; exact List.mem_singleton_self tx)
  obtain ⟨exchange, earlier, part, sent⟩ := LoggedRun.sent run known noted
  obtain ⟨⟨before, reach, held, -⟩, -⟩ := Reach.answered run rfl part
  have told := LoggedRun.answered run part
  have guarded := told.invariant.2 _ rfl
  have reasoned := told.reasoned
  have allowed := told.allowed
  rw [sent.call] at guarded reasoned allowed
  obtain ⟨old, listed, confirmed, mint, -⟩ := guarded
  have settled : old.status ≠ .pending := by rw [confirmed]; decide
  have steady := allowed sent.carried minted old listed (mint.id.trans minted)
  obtain ⟨amount, confirm, listing, reading, confirmation⟩ :=
    LoggedRun.confirmation reach (by rw [held]; exact listed) settled
  rw [held] at confirmation
  -- What the row says and what the mint counted are both what has matured.
  have stored := LoggedRun.stored_amount run part listed confirmation steady
  obtain ⟨minter, result, rfl, found⟩ := reasoned
  have counted := LoggedRun.minted_amount run part listed confirmation steady mint.id.symm found
  have worth : tx.mintedWei = satsToEcx * amount := by
    have bytes := sent.bytes
    have data := mint.data
    rw [show (MintNote.mk minter.id result.amount result.counted).sats = result.amount from rfl, counted] at data
    rw [data] at bytes
    obtain ⟨recipient, decoded⟩ := mintOf_of_bytes bytes steady.address steady.amount
    rw [Tx.mintedWei, if_pos ⟨success, by rw [noted]; rfl⟩, data, decoded, stored, Nat.mul_comm]
    rfl
  -- The row has kept its address and its amount since.
  obtain ⟨later, found, kept⟩ := (LoggedRun.precedes run exchange (part.subset List.mem_cons_self)).rows old listed
  obtain rfl := (LoggedRun.invariant run).1.deposit_eq found member
    (kept.becomes.id.trans (mint.id.trans (minted.trans named.symm)))
  refine ⟨amount, ⟨minter.id, result.amount, result.counted⟩, (kept.amount settled).trans confirmation.stored, worth,
    exchange, part.subset List.mem_cons_self, ?_, ?_⟩
  · rw [kept.becomes.network, mint.network]
    exact sent
  · rw [worth, stored]
    cases told.invariant.1.staged old listed with
    | blank pending => exact absurd pending settled
    | assigned wallet index _ _ derived =>
      rw [World.matured, World.matured, kept.becomes.network, kept.becomes.ecashAddress (by rw [derived]; rfl)]

instance (config : Config) (row : Deposit) (log : BridgeLog) (world : World) : Decidable (Steady config row log world) :=
  decidable_of_iff ((∀ reading ∈ readings row.id log, world.matured config row = reading.matured config row) ∧
      world.maturedSpent config row = 0 ∧ (addressDigits config.lowerCase row.snowsideAddress).length ≤ 64 ∧
      world.matured config row * satsToEcx < 2 ^ 256)
    ⟨fun ⟨matured, unspent, address, amount⟩ => ⟨matured, unspent, address, amount⟩,
      fun ⟨matured, unspent, address, amount⟩ => ⟨matured, unspent, address, amount⟩⟩

/-- The check of the mints that a run sends. -/
def sendsSteady (state : State (World × BridgeLog) Reply) (_ : Action Fate Event) : Bool :=
  match state.waiting with
  | some (.sendTransaction _ _ note) => decide (∀ row ∈ state.world.1.deposits, row.id = note.deposit →
      Steady sampleConfig row state.world.2 state.world.1)
  | _ => true

theorem sentSteady_of_sendsSteady (deposit : Nat) (state : State (World × BridgeLog) Reply) (action : Action Fate Event)
    (passed : sendsSteady state action) : (sentSteady sampleConfig deposit).Meets state action := by
  cases action with
  | answer fate =>
    intro call waits
    cases call with
    | sendTransaction network data note =>
      rw [sendsSteady, waits] at passed
      intro _ same row member named
      exact of_decide_eq_true passed row member (named.trans same.symm)
    | _ => trivial
  | _ => trivial

/-- A second payment arrives before the first one has matured, and waits. -/
def twoPayments : List (Action Fate Event) :=
  fundedDeposit ++ [.event (.receive .signet sampleAddress 50000)] ++ answers 6 ++
    [.event (.mineTx .signet 0 true)] ++ answers 2

theorem minted_amounts_agree_sample : ∃ state, (federation sampleConfig).logged.runWhile sendsSteady
      ((federation sampleConfig).logged.start (World.initial 1000000 fun _ => 1, [])) twoPayments = some state ∧
    ∃ row ∈ state.world.1.deposits, row.status = .minted ∧ ∃ tx, state.world.1.mintsOf row.id = [tx] ∧
      ∃ amount, row.amountSats = some amount ∧ tx.mintedWei = satsToEcx * amount := by
  have seen : ((federation sampleConfig).logged.runWhile sendsSteady ((federation sampleConfig).logged.start
      (World.initial 1000000 fun _ => 1, [])) twoPayments).any (fun state => state.world.1.deposits.any fun row =>
        row.id = 1 ∧ row.status = .minted ∧ (state.world.1.mintsOf 1).length = 1) = true := by decide +kernel
  obtain ⟨state, ran, seen⟩ := (Option.any_eq_true _ _).mp seen
  obtain ⟨row, member, seen⟩ := List.any_eq_true.mp seen
  obtain ⟨named, minted, one⟩ := of_decide_eq_true seen
  obtain ⟨tx, once⟩ := List.length_eq_one_iff.mp one
  obtain ⟨amount, note, stored, worth, -⟩ :=
    minted_amounts_agree (.of_runWhile (sentSteady_of_sendsSteady 1) ran) member named once
  exact ⟨state, ran, row, member, minted, tx, by rw [named]; exact once, amount, stored, worth⟩

/-- The mint of a confirmed row is refused, another payment matures, and the next
turn mints both. -/
def laterPayment : List (Action Fate Event) :=
  fundedDeposit ++ answers 5 ++ [.answer .refused] ++ answers 2 ++
    [.again, .event (.receive .signet sampleAddress 50000), .event (.mineBlock .signet [⟨1, 0⟩])] ++ answers 5 ++
    [.event (.mineTx .signet 0 true)] ++ answers 2

theorem later_payment_minted_unrecorded : ∃ state,
    (federation sampleConfig).run sampleStart laterPayment = some state ∧
      ∃ row ∈ state.world.deposits, row.id = 1 ∧ row.status = .minted ∧ row.amountSats = some 100000 ∧
        row.amountEcx = some (satsToEcx * 150000) ∧
        ∃ tx, state.world.mintsOf 1 = [tx] ∧ tx.mintedWei = satsToEcx * 150000 ∧ tx.mintedWei ≠ satsToEcx * 100000 := by
  have seen : ((federation sampleConfig).run sampleStart laterPayment).any (fun state => state.world.deposits.any fun row =>
      row.id = 1 ∧ row.status = .minted ∧ row.amountSats = some 100000 ∧ row.amountEcx = some (satsToEcx * 150000) ∧
        (state.world.mintsOf 1).map Tx.mintedWei = [satsToEcx * 150000]) = true := by decide +kernel
  obtain ⟨state, ran, seen⟩ := (Option.any_eq_true _ _).mp seen
  obtain ⟨row, member, seen⟩ := List.any_eq_true.mp seen
  obtain ⟨id, minted, sats, ecx, worth⟩ := of_decide_eq_true seen
  obtain ⟨tx, once, worth⟩ := List.map_eq_singleton_iff.mp worth
  exact ⟨state, ran, row, member, id, minted, sats, ecx, tx, once, worth, by rw [worth]; decide⟩

end Snowside
