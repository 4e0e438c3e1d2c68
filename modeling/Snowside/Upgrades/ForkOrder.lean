import Mathlib.Data.List.Chain
import Snowside.Evm.FeeWindow
import Snowside.Partial.Checked

/-! The order of forks, by block or by time, and what the check of neighbours says about all of them. -/

set_option autoImplicit false

namespace Snowside.ForkOrder

open Evm (NetworkUpgrades isTimestampForked)
open Checked

/-! ## The check -/

/-- The fork without a name stands for none. -/
structure Fork where
  name : String
  block : Option Int := none
  timestamp : Option UInt64 := none
  /-- The next fork may be set where this one is not. -/
  optional : Bool := false
  deriving DecidableEq, Repr

def Fork.isSet (fork : Fork) : Bool := fork.block.isSome || fork.timestamp.isSome

inductive ForkOrderError where
  | notEnabled (lastFork cur : Fork)
  | blocksOutOfOrder (lastFork cur : Fork)
  | timestampsOutOfOrder (lastFork cur : Fork)
  | revertedToBlocks (lastFork cur : Fork)
  /-- Panic: a nil pointer is read. -/
  | nilPointer
  deriving DecidableEq, Repr

def compareBlocks (lastFork cur : Fork) : Except ForkOrderError Unit :=
  match lastFork.block, cur.block with
  | some _, none => .error .nilPointer
  | some last, some block => if block < last then .error (.blocksOutOfOrder lastFork cur) else .ok ()
  | none, _ => .ok ()

def compareTimestamps (lastFork cur : Fork) : Except ForkOrderError Unit :=
  match lastFork.timestamp, cur.timestamp with
  | some _, none => .error .nilPointer
  | some last, some timestamp => if timestamp < last then .error (.timestampsOutOfOrder lastFork cur) else .ok ()
  | none, _ => .ok ()

/-- Only forks of one kind are compared, so that a block is not seen behind a timestamp. -/
def compareForks (lastFork cur : Fork) : Except ForkOrderError Unit :=
  if lastFork.isSet = false ∧ cur.isSet then .error (.notEnabled lastFork cur)
  else if lastFork.block.isSome ∧ cur.block.isSome ∨ lastFork.timestamp.isSome ∧ cur.timestamp.isSome then do
    compareBlocks lastFork cur
    compareTimestamps lastFork cur
    if lastFork.timestamp.isSome ∧ cur.block.isSome then .error (.revertedToBlocks lastFork cur) else .ok ()
  else .ok ()

/-- There is nothing to compare the first fork with. -/
def compareNamed (lastFork cur : Fork) : Except ForkOrderError Unit :=
  if lastFork.name ≠ "" then compareForks lastFork cur else .ok ()

def checkForksFrom (lastFork : Fork) : List Fork → Except ForkOrderError Unit
  | [] => .ok ()
  | cur :: forks => do
      compareNamed lastFork cur
      -- If it was optional and not set, it is ignored.
      checkForksFrom (if !cur.optional || cur.isSet then cur else lastFork) forks

def checkForks (forks : List Fork) : Except ForkOrderError Unit := checkForksFrom ⟨"", none, none, false⟩ forks

/-! ## The order -/

/-- The forks that are set or not optional. -/
def counted (forks : List Fork) : List Fork := forks.filter fun fork => !fork.optional || fork.isSet

/-- One kind of point at most. -/
def Fork.OneKind (fork : Fork) : Prop := fork.block = none ∨ fork.timestamp = none

def NotEnabled (earlier later : Fork) : Prop := earlier.isSet = false ∧ later.isSet

def Decreases (earlier later : Fork) : Prop :=
  (∃ first second, earlier.block = some first ∧ later.block = some second ∧ second < first) ∨
    ∃ first second, earlier.timestamp = some first ∧ later.timestamp = some second ∧ second < first

def Reverts (earlier later : Fork) : Prop := earlier.timestamp.isSome ∧ later.block.isSome

structure InOrder (earlier later : Fork) : Prop where
  enabled : ¬ NotEnabled earlier later
  increases : ¬ Decreases earlier later
  forward : ¬ Reverts earlier later

/-- Set forks come first, points of one kind never decrease, and no block follows a timestamp. -/
def Ordered (forks : List Fork) : Prop := (counted forks).Pairwise InOrder

/-- What the check finds of neighbours. -/
def Caught (earlier later : Fork) : Prop := earlier.name ≠ "" ∧ (NotEnabled earlier later ∨ Decreases earlier later)

/-- What it does not find: a block behind a timestamp, and what is behind a fork without a name. -/
def Missed (earlier later : Fork) : Prop :=
  Reverts earlier later ∨ earlier.name = "" ∧ (NotEnabled earlier later ∨ Decreases earlier later)

variable {earlier later third last cur : Fork} {forks : List Fork}

theorem Fork.isSet_iff {fork : Fork} : fork.isSet ↔ (∃ block, fork.block = some block) ∨ ∃ timestamp, fork.timestamp = some timestamp := by
  rw [Fork.isSet, Bool.or_eq_true, Option.isSome_iff_exists, Option.isSome_iff_exists]

/-- The order goes through the forks in between. -/
theorem InOrder.trans (first : InOrder earlier later) (second : InOrder later third) : InOrder earlier third := by
  have between : third.isSet → later.isSet := fun set => by
    by_contra unset
    exact second.enabled ⟨Bool.eq_false_iff.mpr unset, set⟩
  have before : later.isSet → earlier.isSet := fun set => by
    by_contra unset
    exact first.enabled ⟨Bool.eq_false_iff.mpr unset, set⟩
  -- A fork between blocks is at a block, and one between timestamps at a timestamp.
  have forward : ¬ Reverts earlier third := by
    rintro ⟨timed, numbered⟩
    have set : later.isSet := between (by rw [Fork.isSet, numbered]; rfl)
    rcases Bool.or_eq_true_iff.mp set with block | timestamp
    · exact first.forward ⟨timed, block⟩
    · exact second.forward ⟨timestamp, numbered⟩
  refine ⟨fun ⟨unset, set⟩ => ?_, ?_, forward⟩
  · rw [before (between set)] at unset
    cases unset
  · rintro (⟨lower, upper, at_lower, at_upper, less⟩ | ⟨lower, upper, at_lower, at_upper, less⟩)
    · have set : later.isSet := between (Fork.isSet_iff.mpr (.inl ⟨upper, at_upper⟩))
      rcases Fork.isSet_iff.mp set with ⟨middle, at_middle⟩ | ⟨timestamp, timed⟩
      · rcases lt_or_ge middle lower with below | above
        · exact first.increases (.inl ⟨lower, middle, at_lower, at_middle, below⟩)
        · exact second.increases (.inl ⟨middle, upper, at_middle, at_upper, by omega⟩)
      · exact second.forward ⟨by rw [timed]; rfl, by rw [at_upper]; rfl⟩
    · have set : later.isSet := between (Fork.isSet_iff.mpr (.inr ⟨upper, at_upper⟩))
      rcases Fork.isSet_iff.mp set with ⟨block, numbered⟩ | ⟨middle, at_middle⟩
      · exact first.forward ⟨by rw [at_lower]; rfl, by rw [numbered]; rfl⟩
      · by_cases below : middle < lower
        · exact first.increases (.inr ⟨lower, middle, at_lower, at_middle, below⟩)
        · exact second.increases (.inr ⟨middle, upper, at_middle, at_upper, UInt64.lt_of_lt_of_le less (UInt64.not_lt.mp below)⟩)

instance : IsTrans Fork InOrder := ⟨fun _ _ _ => InOrder.trans⟩

theorem isChain_and {first second : Fork → Fork → Prop} (one : forks.IsChain first) (other : forks.IsChain second) :
    forks.IsChain fun earlier later => first earlier later ∧ second earlier later := by
  induction one with
  | nil => exact .nil
  | singleton fork => exact .singleton fork
  | cons_cons related _ ih =>
    obtain ⟨related', other⟩ := List.isChain_cons_cons.mp other
    exact .cons_cons ⟨related, related'⟩ (ih other)

theorem ordered_iff_isChain : Ordered forks ↔ (counted forks).IsChain InOrder := List.isChain_iff_pairwise.symm

theorem inOrder_iff : InOrder earlier later ↔ ¬ Caught earlier later ∧ ¬ Missed earlier later := by
  unfold Caught Missed
  constructor
  · intro order
    have neither : ¬ (NotEnabled earlier later ∨ Decreases earlier later) := by
      rintro (disabled | decreases)
      · exact order.enabled disabled
      · exact order.increases decreases
    refine ⟨fun caught => neither caught.2, ?_⟩
    rintro (reverts | ⟨_, wrong⟩)
    · exact order.forward reverts
    · exact neither wrong
  · rintro ⟨uncaught, unmissed⟩
    have right : ¬ (NotEnabled earlier later ∨ Decreases earlier later) := by
      intro wrong
      by_cases named : earlier.name = ""
      · exact unmissed (.inr ⟨named, wrong⟩)
      · exact uncaught ⟨named, wrong⟩
    exact ⟨fun disabled => right (.inl disabled), fun decreases => right (.inr decreases), fun reverts => unmissed (.inl reverts)⟩

/-! ## What the check accepts -/

theorem compareBlocks_eq_ok (both : last.block.isSome → cur.block.isSome) : compareBlocks last cur = .ok () ↔
    ¬ ∃ first second, last.block = some first ∧ cur.block = some second ∧ second < first := by
  unfold compareBlocks
  cases before : last.block with
  | none => simp
  | some first =>
    rw [before] at both
    obtain ⟨second, after⟩ := Option.isSome_iff_exists.mp (both rfl)
    rw [after]
    by_cases less : second < first <;> simp [less]

theorem compareTimestamps_eq_ok (both : last.timestamp.isSome → cur.timestamp.isSome) : compareTimestamps last cur = .ok () ↔
    ¬ ∃ first second, last.timestamp = some first ∧ cur.timestamp = some second ∧ second < first := by
  unfold compareTimestamps
  cases before : last.timestamp with
  | none => simp
  | some first =>
    rw [before] at both
    obtain ⟨second, after⟩ := Option.isSome_iff_exists.mp (both rfl)
    rw [after]
    by_cases less : second < first <;> simp [less]

/-- Neighbours of one kind each are accepted if the later one is not enabled alone, and they do not decrease. -/
theorem compareForks_eq_ok (oneKind : last.OneKind) (oneKind' : cur.OneKind) :
    compareForks last cur = .ok () ↔ ¬ NotEnabled last cur ∧ ¬ Decreases last cur := by
  unfold compareForks NotEnabled
  by_cases disabled : last.isSet = false ∧ cur.isSet = true
  · rw [if_pos disabled]
    exact ⟨fun failed => (by cases failed), fun passes => absurd disabled passes.1⟩
  rw [if_neg disabled]
  by_cases same : last.block.isSome ∧ cur.block.isSome ∨ last.timestamp.isSome ∧ cur.timestamp.isSome
  · rw [if_pos same]
    have kinds : (last.block.isSome → cur.block.isSome) ∧ (last.timestamp.isSome → cur.timestamp.isSome) ∧
        ¬ (last.timestamp.isSome ∧ cur.block.isSome) := by
      rcases oneKind with none | none <;> rcases oneKind' with none' | none' <;> simp_all
    have blocks := compareBlocks_eq_ok kinds.1
    have timestamps := compareTimestamps_eq_ok kinds.2.1
    rw [if_neg kinds.2.2]
    unfold Decreases
    rw [not_or, ← blocks, ← timestamps]
    cases compareBlocks last cur with
    | error error => simp [disabled]
    | ok done =>
      cases compareTimestamps last cur with
      | error error => simp [disabled]
      | ok done => simp [disabled]
  · rw [if_neg same]
    refine ⟨fun _ => ⟨disabled, ?_⟩, fun _ => rfl⟩
    rintro (⟨first, second, before, after, _⟩ | ⟨first, second, before, after, _⟩)
    · exact same (.inl ⟨by rw [before]; rfl, by rw [after]; rfl⟩)
    · exact same (.inr ⟨by rw [before]; rfl, by rw [after]; rfl⟩)

theorem compareNamed_eq_ok (oneKind : last.OneKind) (oneKind' : cur.OneKind) : compareNamed last cur = .ok () ↔ ¬ Caught last cur := by
  unfold compareNamed Caught
  by_cases named : last.name ≠ ""
  · rw [if_pos named, compareForks_eq_ok oneKind oneKind', not_and, not_or]
    exact ⟨fun passes _ => passes, fun passes => passes named⟩
  · rw [if_neg named]
    exact ⟨fun _ caught => named caught.1, fun _ => rfl⟩

/-- A fork that is ignored is accepted behind any other. -/
theorem not_caught_unset (unset : cur.isSet = false) : ¬ Caught last cur := by
  obtain ⟨no_block, no_timestamp⟩ := Bool.or_eq_false_iff.mp unset
  rintro ⟨_, disabled | ⟨_, _, _, found, _⟩ | ⟨_, _, _, found, _⟩⟩
  · rw [disabled.2] at unset
    cases unset
  · rw [found] at no_block
    cases no_block
  · rw [found] at no_timestamp
    cases no_timestamp

theorem counted_cons (cur : Fork) (rest : List Fork) :
    counted (cur :: rest) = if !cur.optional || cur.isSet then cur :: counted rest else counted rest := List.filter_cons

/-- The loop compares the neighbours of the forks that count. -/
theorem checkForksFrom_eq_ok (oneKind : last.OneKind) (kinds : ∀ fork ∈ forks, fork.OneKind) :
    checkForksFrom last forks = .ok () ↔ (last :: counted forks).IsChain fun earlier later => ¬ Caught earlier later := by
  induction forks generalizing last with
  | nil => exact ⟨fun _ => .singleton last, fun _ => rfl⟩
  | cons cur rest ih =>
    obtain ⟨kind, kinds⟩ := List.forall_mem_cons.mp kinds
    have step := compareNamed_eq_ok oneKind kind
    rw [counted_cons, checkForksFrom]
    by_cases counts : (!cur.optional || cur.isSet) = true
    · rw [if_pos counts, if_pos counts, List.isChain_cons_cons, ← ih kind kinds, ← step]
      cases compareNamed last cur with
      | error error => simp
      | ok done => simp
    · have unset : cur.isSet = false := by
        rw [Bool.or_eq_true, not_or] at counts
        exact Bool.eq_false_iff.mpr counts.2
      rw [if_neg counts, if_neg counts, ← ih oneKind kinds, step.mpr (not_caught_unset unset), ok_bind]

theorem checkForks_eq_ok (kinds : ∀ fork ∈ forks, fork.OneKind) :
    checkForks forks = .ok () ↔ (counted forks).IsChain fun earlier later => ¬ Caught earlier later := by
  unfold checkForks
  rw [checkForksFrom_eq_ok (.inl rfl) kinds]
  cases counted forks with
  | nil => exact ⟨fun _ => .nil, fun _ => .singleton _⟩
  | cons first rest =>
    rw [List.isChain_cons_cons]
    exact and_iff_right fun caught => caught.1 rfl

/-! ## The network upgrades -/

def forkOrder (config : NetworkUpgrades) : List Fork :=
  [⟨"subnetEVMTimestamp", none, config.subnetEVMTimestamp, false⟩, ⟨"durangoTimestamp", none, config.durangoTimestamp, false⟩,
    ⟨"etnaTimestamp", none, config.etnaTimestamp, false⟩, ⟨"fortunaTimestamp", none, config.fortunaTimestamp, true⟩,
    ⟨"graniteTimestamp", none, config.graniteTimestamp, false⟩, ⟨"heliconTimestamp", none, config.heliconTimestamp, false⟩]

def checkConfigForkOrder (config : NetworkUpgrades) : Except ForkOrderError Unit := checkForks (forkOrder config)

/-- A fork by time. -/
def ofTime (fork : Evm.Fork) : Fork := ⟨fork.name, none, fork.timestamp, fork.isOptional⟩

/-- On forks by time with names, the check is the one that knows of times only. -/
theorem checkForksFrom_ofTime {last : Evm.Fork} {forks : List Evm.Fork} (named : last.name ≠ "") (names : ∀ fork ∈ forks, fork.name ≠ "") :
    checkForksFrom (ofTime last) (forks.map ofTime) = .ok () ↔ Evm.checkForks (some last) forks = .ok () := by
  induction forks generalizing last with
  | nil => exact ⟨fun _ => rfl, fun _ => rfl⟩
  | cons cur rest ih =>
    obtain ⟨name, names⟩ := List.forall_mem_cons.mp names
    have next : (if !(ofTime cur).optional || (ofTime cur).isSet then ofTime cur else ofTime last) =
        ofTime (if !cur.isOptional || cur.timestamp.isSome then cur else last) := by
      rw [apply_ite ofTime]
      rfl
    have name' : (if !cur.isOptional || cur.timestamp.isSome then cur else last).name ≠ "" := by
      split
      · exact name
      · exact named
    have later := ih name' names
    rw [List.map_cons, checkForksFrom, next, compareNamed, if_pos (show (ofTime last).name ≠ "" from named)]
    unfold Evm.checkForks
    cases before : last.timestamp with
    | none =>
      cases start : cur.timestamp with
      | none => simpa [compareForks, ofTime, Fork.isSet, before, start] using later
      | some _ => simp [compareForks, ofTime, Fork.isSet, before, start]
    | some first =>
      cases start : cur.timestamp with
      | none => simpa [compareForks, ofTime, Fork.isSet, before, start] using later
      | some second =>
        by_cases less : second < first
        · simp [compareForks, compareBlocks, compareTimestamps, ofTime, Fork.isSet, before, start, less]
        · simpa [compareForks, compareBlocks, compareTimestamps, ofTime, Fork.isSet, before, start, less] using later

theorem checkConfigForkOrder_iff (config : NetworkUpgrades) :
    checkConfigForkOrder config = .ok () ↔ config.checkConfigForkOrder = .ok () := by
  have first : checkForksFrom ⟨"", none, none, false⟩ (config.forkOrder.map ofTime) =
      checkForksFrom (ofTime ⟨"subnetEVMTimestamp", config.subnetEVMTimestamp, false⟩) (config.forkOrder.tail.map ofTime) := rfl
  have names : ∀ fork ∈ config.forkOrder.tail, fork.name ≠ "" := by simp [NetworkUpgrades.forkOrder]
  change checkForksFrom ⟨"", none, none, false⟩ (config.forkOrder.map ofTime) = .ok () ↔ _
  rw [first, checkForksFrom_ofTime (show "subnetEVMTimestamp" ≠ "" by decide) names]
  rfl
structure AvalancheRules where
  isSubnetEVM : Bool
  isDurango : Bool
  isEtna : Bool
  isFortuna : Bool
  isGranite : Bool
  isHelicon : Bool
  deriving DecidableEq, Repr

def getAvalancheRules (config : NetworkUpgrades) (time : UInt64) : AvalancheRules where
  isSubnetEVM := isTimestampForked config.subnetEVMTimestamp time
  isDurango := isTimestampForked config.durangoTimestamp time
  isEtna := isTimestampForked config.etnaTimestamp time
  isFortuna := isTimestampForked config.fortunaTimestamp time
  isGranite := isTimestampForked config.graniteTimestamp time
  isHelicon := isTimestampForked config.heliconTimestamp time

/-- With an upgrade every earlier one is active, Fortuna apart. -/
structure AvalancheRules.InOrder (rules : AvalancheRules) : Prop where
  durango : rules.isDurango → rules.isSubnetEVM
  etna : rules.isEtna → rules.isSubnetEVM ∧ rules.isDurango
  fortuna : rules.isFortuna → rules.isSubnetEVM ∧ rules.isDurango ∧ rules.isEtna
  granite : rules.isGranite → rules.isSubnetEVM ∧ rules.isDurango ∧ rules.isEtna
  helicon : rules.isHelicon → rules.isSubnetEVM ∧ rules.isDurango ∧ rules.isEtna ∧ rules.isGranite

theorem forkOrder_forks (config : NetworkUpgrades) : ∀ fork ∈ forkOrder config, fork.block = none ∧ fork.name ≠ "" := by
  simp [forkOrder]

/-- A later fork that is active has the one before it active too. -/
theorem active_of_inOrder {time : UInt64} (order : InOrder earlier later) (no_block : earlier.block = none)
    (active : isTimestampForked later.timestamp time) : isTimestampForked earlier.timestamp time := by
  cases after : later.timestamp with
  | none =>
    rw [after] at active
    cases active
  | some second =>
    rw [after] at active
    have set : later.isSet := Fork.isSet_iff.mpr (.inr ⟨second, after⟩)
    cases before : earlier.timestamp with
    | none =>
      refine absurd ⟨?_, set⟩ order.enabled
      rw [Fork.isSet, no_block, before]
      rfl
    | some first =>
      have increases : first ≤ second := by
        refine UInt64.not_lt.mp fun less => ?_
        exact order.increases (.inr ⟨first, second, before, after, less⟩)
      exact decide_eq_true (UInt64.le_trans increases (of_decide_eq_true active))

theorem forkOrder_active {config : NetworkUpgrades} (accepted : checkConfigForkOrder config = .ok ()) (time : UInt64) :
    (forkOrder config).Pairwise fun earlier later =>
      earlier.optional = false → isTimestampForked later.timestamp time → isTimestampForked earlier.timestamp time := by
  have forks := forkOrder_forks config
  have chained := (checkForks_eq_ok fun fork member => .inl (forks fork member).1).mp accepted
  -- All forks are timestamps with names, of which the check misses nothing.
  have whole : (counted (forkOrder config)).IsChain InOrder := by
    refine chained.imp_of_mem_imp fun earlier later first second uncaught => inOrder_iff.mpr ⟨uncaught, ?_⟩
    rintro (reverts | ⟨nameless, _⟩)
    · have none := (forks later (List.mem_filter.mp second).1).1
      rw [Reverts, none] at reverts
      cases reverts.2
    · exact (forks earlier (List.mem_filter.mp first).1).2 nameless
  have ordered := List.pairwise_filter.mp (List.isChain_iff_pairwise.mp whole)
  refine ordered.imp_of_mem fun {earlier later} first _ order needed active => ?_
  have set : later.isSet := by
    rw [Fork.isSet]
    cases found : later.timestamp with
    | none =>
      rw [found] at active
      cases active
    | some timestamp => exact Bool.or_true _
  exact active_of_inOrder (order (by rw [needed]; rfl) (by rw [set, Bool.or_true])) (forks earlier first).1 active

theorem rules_inOrder {config : NetworkUpgrades} (accepted : checkConfigForkOrder config = .ok ()) (time : UInt64) :
    (getAvalancheRules config time).InOrder := by
  have active := forkOrder_active accepted time
  simp only [forkOrder, List.pairwise_cons, List.forall_mem_cons, List.not_mem_nil, false_imp_iff, forall_true_iff, true_imp_iff,
    and_true, Bool.true_eq_false, true_and] at active
  obtain ⟨⟨durango, etna, fortuna, granite, helicon⟩, ⟨etna', fortuna', granite', helicon'⟩, ⟨fortuna'', granite'', helicon''⟩, last⟩ :=
    active
  exact ⟨durango, fun on => ⟨etna on, etna' on⟩, fun on => ⟨fortuna on, fortuna' on, fortuna'' on⟩,
    fun on => ⟨granite on, granite' on, granite'' on⟩, fun on => ⟨helicon on, helicon' on, helicon'' on, last.1 on⟩⟩

/-- The check tells the forks in order unless all that is wrong is a block behind a timestamp, or behind a fork without a name;
the network upgrades are told. -/
theorem checkForks_ordered_iff (kinds : ∀ fork ∈ forks, fork.OneKind) :
    ((checkForks forks = .ok () ↔ Ordered forks) ↔
      (¬ (counted forks).IsChain fun earlier later => ¬ Caught earlier later) ∨
        (counted forks).IsChain fun earlier later => ¬ Missed earlier later) ∧
    ∀ (config : NetworkUpgrades) (time : UInt64), checkConfigForkOrder config = .ok () → (getAvalancheRules config time).InOrder := by
  refine ⟨?_, fun config time accepted => rules_inOrder accepted time⟩
  have both : Ordered forks ↔ ((counted forks).IsChain fun earlier later => ¬ Caught earlier later) ∧
      (counted forks).IsChain fun earlier later => ¬ Missed earlier later := by
    rw [ordered_iff_isChain]
    constructor
    · exact fun order => ⟨order.imp fun _ _ pair => (inOrder_iff.mp pair).1, order.imp fun _ _ pair => (inOrder_iff.mp pair).2⟩
    · intro ⟨uncaught, unmissed⟩
      exact (isChain_and uncaught unmissed).imp fun _ _ pair => inOrder_iff.mpr pair
  rw [checkForks_eq_ok kinds, both]
  tauto

/-- A block behind a timestamp is accepted. -/
def revertingForks : List Fork := [⟨"first", none, some 5, false⟩, ⟨"second", some 3, none, false⟩]

theorem revertingForks_accepted : ¬ ∀ forks : List Fork, (∀ fork ∈ forks, fork.OneKind) →
    (checkForks forks = .ok () ↔ Ordered forks) := by
  intro claimed
  have kinds : ∀ fork ∈ revertingForks, fork.OneKind := by simp [revertingForks, Fork.OneKind]
  have ordered := (claimed revertingForks kinds).mp (by decide)
  have pair := List.rel_of_pairwise_cons (show [(⟨"first", none, some 5, false⟩ : Fork), ⟨"second", some 3, none, false⟩].Pairwise InOrder
    from ordered) (List.mem_singleton_self _)
  exact pair.forward ⟨rfl, rfl⟩

/-- Forks that decrease are told. -/
theorem checkForks_ordered_iff_sample :
    checkForks [⟨"first", some 5, none, false⟩, ⟨"second", some 3, none, false⟩] = .ok () ↔
      Ordered [⟨"first", some 5, none, false⟩, ⟨"second", some 3, none, false⟩] := by
  refine (checkForks_ordered_iff (by simp [Fork.OneKind])).1.mpr (.inr ?_)
  refine .cons_cons ?_ (.singleton _)
  rintro (reverts | nameless)
  · cases reverts.1
  · exact absurd nameless.1 (by decide)

end Snowside.ForkOrder
