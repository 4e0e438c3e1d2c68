import Snowside.Chain.Runs
import Snowside.Evm.Time
import Snowside.Execution.Transition

/-! When the block builder asks for the next block, and the minimum delay of that block. -/

set_option autoImplicit false

namespace Snowside.Execution.BuildDelay

open Checked Runs
open Evm (ChainHeaderReader Clock NetworkUpgrades TimeError Worker verifyTime verifyTimeMilliseconds)
open Precompile (Hash)

/-! ## The builder -/

/-- In nanoseconds, as all times and durations. -/
def millisecond : Int := 1000000

def retryDelay : Int := 100 * millisecond

/-- Of `time.Time{}`, counted from 1970 on. -/
def zeroTime : Int := -62135596800 * (1000 * millisecond)

/-- `Sub` keeps within the largest durations. -/
def sub (time other : Int) : Int := max (-2 ^ 63) (min (2 ^ 63 - 1) (time - other))

def blockTime (header : Header) : Int :=
  match header.timeMilliseconds with
  | some timeMilliseconds => timeMilliseconds.toInt64.toInt * millisecond
  | none => header.time.toInt64.toInt * (1000 * millisecond)

section

-- The delay in milliseconds that an excess stands for.
variable (delay : UInt64 → UInt64)

def minNextBlockTime (parent : Header) : Int :=
  match parent.minDelayExcess with
  | none => zeroTime
  | some excess =>
    let requiredDelay : Int64 := (delay excess).toInt64 * 1000000
    blockTime parent + requiredDelay.toInt

structure BlockBuilder where
  lastBuildTime : Int := zeroTime
  lastBuildParentHash : Hash := 0
  deriving DecidableEq, Repr

namespace BlockBuilder

def isRetry (b : BlockBuilder) (currentHeader : Header) : Bool :=
  b.lastBuildParentHash = currentHeader.parentHash ∧ b.lastBuildTime ≠ zeroTime

def calculateBlockBuildingDelay (b : BlockBuilder) (currentHeader : Header) (now : Int) : Int :=
  let nextBuildTime := if b.isRetry currentHeader then b.lastBuildTime + retryDelay else minNextBlockTime delay currentHeader
  max (sub nextBuildTime now) 0

def handleGenerateBlock (currentParentHash : Hash) (now : Int) : BlockBuilder where
  lastBuildTime := now
  lastBuildParentHash := currentParentHash

end BlockBuilder

/-! ## The VM -/

/-- How far a call of waitForEvent has come. -/
inductive Waiting where
  | idle
  /-- Until there are transactions to build with. -/
  | called (currentHeader : Header)
  | sleeping (currentHeader : Header) (wakes : Int)
  | returned (currentHeader : Header)
  deriving DecidableEq, Repr

structure VM where
  now : Int
  currentHeader : Header
  builder : BlockBuilder
  waiting : Waiting
  deriving DecidableEq, Repr

inductive VMStep where
  | clock (later : Int)
  | setHead (header : Header)
  | waitForEvent
  | needToBuild
  | wake
  | cancel
  | buildBlock
  | restart (header : Header)
  deriving DecidableEq, Repr

namespace VM

/-- A build is recorded whether or not it has succeeded. -/
def buildBlock (vm : VM) : VM :=
  { vm with builder := .handleGenerateBlock vm.currentHeader.parentHash vm.now, waiting := .idle }

def step (vm : VM) : VMStep → Option VM
  | .clock later => if vm.now ≤ later then some { vm with now := later } else none
  | .setHead header => some { vm with currentHeader := header }
  | .waitForEvent => some { vm with waiting := .called vm.currentHeader }
  | .needToBuild =>
    match vm.waiting with
    | .called header =>
      let timeUntilNextBuild := vm.builder.calculateBlockBuildingDelay delay header vm.now
      some { vm with waiting := .sleeping header (vm.now + timeUntilNextBuild) }
    | _ => none
  | .wake =>
    match vm.waiting with
    | .sleeping header wakes => if wakes ≤ vm.now then some { vm with waiting := .returned header } else none
    | _ => none
  | .cancel => some { vm with waiting := .idle }
  | .buildBlock =>
    match vm.waiting with
    | .returned _ => some vm.buildBlock
    | _ => none
  | .restart header => some { vm with currentHeader := header, builder := {}, waiting := .idle }

end VM

/-- From a start at any time on any header. -/
def builderSystem : System VM VMStep where
  initial vm := vm.builder = {} ∧ vm.waiting = .idle
  step vm action after := vm.step delay action = some after

/-! ## Waiting long enough -/

/-- The minimum next block time is past, or is so once a retry is due. -/
def InTime (vm : VM) (header : Header) : Prop :=
  minNextBlockTime delay header ≤ vm.now ∨ minNextBlockTime delay header ≤ vm.builder.lastBuildTime + retryDelay

/-- Heads that look like retries need no longer delay than a retry, delays are within durations, and a block is built on the head that was
waited for, or in time. -/
def Allowed (vm : VM) : VMStep → Prop
  | .setHead header => vm.builder.isRetry header → InTime delay vm header
  | .needToBuild => ∀ header, vm.waiting = .called header → minNextBlockTime delay header ≤ vm.now + (2 ^ 63 - 1)
  | .buildBlock => vm.waiting = .returned vm.currentHeader ∨ minNextBlockTime delay vm.currentHeader ≤ vm.now + retryDelay
  | _ => True

/-- What is waited for will be past. -/
def WaitsInTime (vm : VM) : Waiting → Prop
  | .idle => True
  | .called header => vm.builder.isRetry header → InTime delay vm header
  | .sleeping header wakes => minNextBlockTime delay header ≤ max wakes vm.now
  | .returned header => minNextBlockTime delay header ≤ vm.now

/-- A head that looks like a retry is one in time, and so is what the VM waits for. -/
structure Timely (vm : VM) : Prop where
  built : vm.builder.lastBuildTime = zeroTime ∨ vm.builder.lastBuildTime ≤ vm.now
  head : vm.builder.isRetry vm.currentHeader → InTime delay vm vm.currentHeader
  waiting : WaitsInTime delay vm vm.waiting

end

section

variable {delay : UInt64 → UInt64} {vm after : VM}

theorem delay_eq_zero {b : BlockBuilder} {header : Header} {now : Int} : b.calculateBlockBuildingDelay delay header now = 0 ↔
    (if b.isRetry header then b.lastBuildTime + retryDelay else minNextBlockTime delay header) ≤ now := by
  unfold BlockBuilder.calculateBlockBuildingDelay sub
  dsimp only
  omega

/-- Within durations a delay lasts until the next build time. -/
theorem le_delay (delay : UInt64 → UInt64) (b : BlockBuilder) (header : Header) (now : Int)
    (near : (if b.isRetry header then b.lastBuildTime + retryDelay else minNextBlockTime delay header) ≤ now + (2 ^ 63 - 1)) :
    (if b.isRetry header then b.lastBuildTime + retryDelay else minNextBlockTime delay header) ≤
      now + b.calculateBlockBuildingDelay delay header now := by
  unfold BlockBuilder.calculateBlockBuildingDelay sub
  dsimp only
  omega

theorem lastBuildTime_of_retry {b : BlockBuilder} {header : Header} (retry : b.isRetry header) : b.lastBuildTime ≠ zeroTime :=
  (of_decide_eq_true retry).2

theorem InTime.later {header : Header} (inTime : InTime delay vm header) {later : Int} (onward : vm.now ≤ later) :
    InTime delay { vm with now := later } header :=
  inTime.imp (fun past => past.trans onward) id

theorem WaitsInTime.later {waiting : Waiting} (waits : WaitsInTime delay vm waiting) {later : Int} (onward : vm.now ≤ later) :
    WaitsInTime delay { vm with now := later } waiting := by
  cases waiting with
  | idle => trivial
  | called header => exact fun retry => (waits retry).later onward
  | sleeping header wakes => exact waits.trans (max_le_max le_rfl onward)
  | returned header => exact waits.trans onward

namespace Timely

theorem fresh (new : vm.builder = {}) (idle : vm.waiting = .idle) : Timely delay vm where
  built := .inl (by rw [new])
  head retry := absurd (by rw [new]) (lastBuildTime_of_retry retry)
  waiting := by
    rw [idle]
    trivial

theorem clock (timely : Timely delay vm) {later : Int} (onward : vm.now ≤ later) : Timely delay { vm with now := later } where
  built := timely.built.imp id fun before => before.trans onward
  head retry := (timely.head retry).later onward
  waiting := timely.waiting.later onward

/-- The delay ends when the minimum next block time is past. -/
theorem sleeps (timely : Timely delay vm) {header : Header} (waits : WaitsInTime delay vm (.called header))
    (near : minNextBlockTime delay header ≤ vm.now + (2 ^ 63 - 1)) :
    minNextBlockTime delay header ≤ max (vm.now + vm.builder.calculateBlockBuildingDelay delay header vm.now) vm.now := by
  have slept := le_delay delay vm.builder header vm.now
  by_cases retry : vm.builder.isRetry header
  · rw [if_pos retry] at slept
    have before := timely.built.resolve_left (lastBuildTime_of_retry retry)
    have slept := slept (by unfold retryDelay millisecond; omega)
    rcases waits retry with past | due
    · exact past.trans (le_max_right _ _)
    · exact (due.trans slept).trans (le_max_left _ _)
  · rw [if_neg retry] at slept
    exact (slept near).trans (le_max_left _ _)

theorem buildBlock (inTime : minNextBlockTime delay vm.currentHeader ≤ vm.now + retryDelay) : Timely delay vm.buildBlock where
  built := .inr le_rfl
  head _ := .inr inTime
  waiting := trivial

theorem step (timely : Timely delay vm) {action : VMStep} (allowed : Allowed delay vm action)
    (stepped : vm.step delay action = some after) : Timely delay after := by
  have waiting := timely.waiting
  cases action with
  | clock later =>
    obtain ⟨onward, same⟩ := Option.ite_none_right_eq_some.mp stepped
    cases same
    exact timely.clock onward
  | setHead header =>
    cases stepped
    exact { timely with head := allowed }
  | waitForEvent =>
    cases stepped
    exact { timely with waiting := timely.head }
  | needToBuild =>
    cases waits : vm.waiting with
    | called header =>
      rw [waits] at waiting
      simp only [VM.step, waits] at stepped
      cases stepped
      exact { timely with waiting := timely.sleeps waiting (allowed header waits) }
    | idle => simp [VM.step, waits] at stepped
    | sleeping => simp [VM.step, waits] at stepped
    | returned => simp [VM.step, waits] at stepped
  | wake =>
    cases waits : vm.waiting with
    | sleeping header wakes =>
      rw [waits] at waiting
      simp only [VM.step, waits] at stepped
      obtain ⟨woken, same⟩ := Option.ite_none_right_eq_some.mp stepped
      cases same
      exact { timely with waiting := waiting.trans (max_le woken le_rfl) }
    | idle => simp [VM.step, waits] at stepped
    | called => simp [VM.step, waits] at stepped
    | returned => simp [VM.step, waits] at stepped
  | cancel =>
    cases stepped
    exact { timely with waiting := trivial }
  | buildBlock =>
    cases waits : vm.waiting with
    | returned header =>
      rw [waits] at waiting
      simp only [VM.step, waits] at stepped
      cases stepped
      refine .buildBlock ?_
      rcases allowed with same | inTime
      · cases waits.symm.trans same
        exact waiting.trans (by unfold retryDelay millisecond; omega)
      · exact inTime
    | idle => simp [VM.step, waits] at stepped
    | called => simp [VM.step, waits] at stepped
    | sleeping => simp [VM.step, waits] at stepped
  | restart header =>
    cases stepped
    exact .fresh rfl rfl

end Timely

theorem timely_of_reach (reach : Reach (builderSystem delay) (Allowed delay) vm) : Timely delay vm := by
  refine reach.invariant (Timely delay) ?_ fun _ _ _ timely allowed stepped => timely.step allowed stepped
  rintro _ ⟨new, idle⟩
  exact .fresh new idle

/-- Without delay the minimum next block time is past. -/
theorem Timely.past (timely : Timely delay vm) (now_or_never : vm.builder.calculateBlockBuildingDelay delay vm.currentHeader vm.now = 0) :
    minNextBlockTime delay vm.currentHeader ≤ vm.now := by
  have due := delay_eq_zero.mp now_or_never
  by_cases retry : vm.builder.isRetry vm.currentHeader
  · rw [if_pos retry] at due
    exact (timely.head retry).elim id fun inTime => inTime.trans due
  · rwa [if_neg retry] at due

/-! ## The block that is built -/

/-- The delay of a header fits in a duration, and its time in milliseconds is that of its block. -/
def Fits (delay : UInt64 → UInt64) (header : Header) : Prop :=
  ∀ excess, header.minDelayExcess = some excess → header.timeMilliseconds.isSome ∧ header.timeMS.toNat < 2 ^ 63 ∧
    (delay excess).toNat * 1000000 < 2 ^ 63

theorem toInt_toInt64 {number : UInt64} (small : number.toNat < 2 ^ 63) : number.toInt64.toInt = number.toNat := by
  rw [← Int64.toInt_toBitVec, UInt64.toBitVec_toInt64, BitVec.toInt_eq_toNat_of_lt (by simpa using (by omega : 2 * number.toNat < 2 ^ 64))]
  rfl

theorem minNextBlockTime_eq {header : Header} (fits : Fits delay header) {excess : UInt64} (found : header.minDelayExcess = some excess) :
    minNextBlockTime delay header = (header.timeMS.toNat + (delay excess).toNat) * millisecond := by
  obtain ⟨timed, small, short⟩ := fits excess found
  obtain ⟨timeMilliseconds, timed⟩ := Option.isSome_iff_exists.mp timed
  have same : header.timeMS = timeMilliseconds := by rw [Evm.Header.timeMS, timed]; rfl
  have waits : ((delay excess).toInt64 * 1000000).toInt = (delay excess).toNat * millisecond := by
    have million : (1000000 : Int64).toInt = 1000000 := by decide
    rw [Int64.toInt_mul, toInt_toInt64 (by omega), million]
    exact Int.bmod_eq_of_le (by omega) (by omega)
  rw [minNextBlockTime, found]
  dsimp only
  rw [waits, blockTime, timed, same]
  dsimp only
  rw [toInt_toInt64 (same ▸ small)]
  ring

/-- The delay of a block is checked from Granite on, against a parent that is not after it. -/
theorem delayed_of_verifyTime {config : NetworkUpgrades} {parent header : Evm.Header} {now : Int64} {actual required : UInt64}
    (refused : verifyTime delay config parent header now = .error (.minDelayNotMet actual required)) :
    parent.timeMS ≤ header.timeMS ∧ ∃ timeMilliseconds excess, header.timeMilliseconds = some timeMilliseconds ∧
      parent.minDelayExcess = some excess ∧ header.timeMS - parent.timeMS < delay excess := by
  simp only [verifyTime, bind_eq_error, refuse_eq_error, refuse_eq_ok] at refused
  rcases refused with ⟨-, same⟩ | ⟨_, ordered, ⟨-, same⟩ | ⟨_, -, refused⟩⟩
  · cases same
  · cases same
  split at refused
  · simp only [verifyTimeMilliseconds, bind_eq_error, need_eq_error, need_eq_ok, refuse_eq_error] at refused
    rcases refused with ⟨-, same⟩ | ⟨timeMilliseconds, timed, ⟨-, same⟩ | ⟨_, -, refused⟩⟩
    · cases same
    · cases same
    cases found : parent.minDelayExcess with
    | none =>
      rw [found] at refused
      cases refused
    | some excess =>
      rw [found] at refused
      exact ⟨UInt64.not_lt.mp ordered, timeMilliseconds, excess, timed, rfl, (refuse_eq_error.mp refused).1⟩
  · cases (refuse_eq_error.mp refused).2

section

variable {ReaderError Transaction TipError WorkError : Type} {config : NetworkUpgrades} {chain : ChainHeaderReader ReaderError}
  {effectiveGasTip : Transaction → Int → Except TipError Int} {worker : Worker Transaction WorkError} {parent : Header} {clock : Clock}
  {block : Evm.Block Transaction} {receipts : List Evm.Receipt}

/-- A block that is built after the minimum next block time meets its minimum delay. -/
theorem minDelay_met (fits : Fits delay parent)
    (late : minNextBlockTime delay parent < (clock.milliseconds + 1) * millisecond)
    (built : worker.commitNewWork config chain effectiveGasTip parent.toHeader clock = .ok (block, receipts)) (now : Int64)
    (actual required : UInt64) : verifyTime delay config parent.toHeader block.header now ≠ .error (.minDelayNotMet actual required) := by
  intro refused
  obtain ⟨ordered, timeMilliseconds, excess, timed, found, short⟩ := delayed_of_verifyTime refused
  obtain ⟨feeConfig, configured, built⟩ := Evm.commitNewWork_built built
  obtain ⟨parentTimed, -, -⟩ := fits excess found
  rw [minNextBlockTime_eq fits found] at late
  have milliseconds : Evm.getNextTimestamp parent.toHeader clock = clock.time := if_pos (.inr parentTimed)
  have written := built.timeMilliseconds
  rw [timed, milliseconds] at written
  have onClock : block.header.timeMS.toNat = clock.milliseconds := by
    have small := clock.representable
    split at written
    · rw [Evm.Header.timeMS, timed, written, Option.getD_some, Clock.time, UInt64.toNat_ofNat', Nat.mod_eq_of_lt (by omega)]
    · cases written
  rw [UInt64.lt_iff_toNat_lt, UInt64.toNat_sub_of_le _ _ ordered, onClock] at short
  rw [UInt64.le_iff_toNat_le, onClock] at ordered
  unfold millisecond at late
  omega

end

end

/-- Without delay the minimum next block time is past, and a block that is built from then on meets its minimum delay. -/
theorem builder_in_time (delay : UInt64 → UInt64) (vm : VM) (reach : Reach (builderSystem delay) (Allowed delay) vm)
    (now_or_never : vm.builder.calculateBlockBuildingDelay delay vm.currentHeader vm.now = 0) :
    minNextBlockTime delay vm.currentHeader ≤ vm.now ∧
      (Fits delay vm.currentHeader → ∀ (ReaderError Transaction TipError WorkError : Type) (config : NetworkUpgrades)
        (chain : ChainHeaderReader ReaderError) (effectiveGasTip : Transaction → Int → Except TipError Int)
        (worker : Worker Transaction WorkError) (clock : Clock) (block : Evm.Block Transaction) (receipts : List Evm.Receipt),
        vm.now < (clock.milliseconds + 1) * millisecond →
        worker.commitNewWork config chain effectiveGasTip vm.currentHeader.toHeader clock = .ok (block, receipts) →
        ∀ now actual required,
          verifyTime delay config vm.currentHeader.toHeader block.header now ≠ .error (.minDelayNotMet actual required)) := by
  have past := (timely_of_reach reach).past now_or_never
  refine ⟨past, fun fits _ _ _ _ _ _ _ _ clock _ _ later built => ?_⟩
  exact minDelay_met fits (past.trans_lt later) built

/-! ## Samples -/

/-- A block of the second 1000 whose excess stands for two seconds. -/
def sampleHead (milliseconds : UInt64) : Header where
  parentHash := 7
  number := 5
  time := 1000
  timeMilliseconds := some milliseconds
  minDelayExcess := some 1

def sampleVM (head : Header) (milliseconds : Int) : VM where
  now := milliseconds * millisecond
  currentHeader := head
  builder := {}
  waiting := .idle

/-- What the builder does until its first block. -/
def firstBuild : List VMStep := [.waitForEvent, .needToBuild, .wake, .buildBlock]

/-- On a younger sibling of the block that was built on, the builder takes a tenth of a second for enough. -/
theorem sibling_too_early : ¬ ∀ (delay : UInt64 → UInt64) (vm : VM), Reach (builderSystem delay) (fun _ _ => True) vm →
    vm.builder.calculateBlockBuildingDelay delay vm.currentHeader vm.now = 0 → minNextBlockTime delay vm.currentHeader ≤ vm.now := by
  intro claimed
  have ran : run (VM.step fun _ => 2000) (fun _ _ => true) (firstBuild ++ [.setHead (sampleHead 1000900), .clock (1002100 * millisecond)])
      (sampleVM (sampleHead 1000000) 1002000) = some {
        now := 1002100 * millisecond
        currentHeader := sampleHead 1000900
        builder := { lastBuildTime := 1002000 * millisecond, lastBuildParentHash := 7 }
        waiting := .idle } := by decide +kernel
  have start : Reach (builderSystem fun _ => 2000) (fun _ _ => True) (sampleVM (sampleHead 1000000) 1002000) := .start ⟨rfl, rfl⟩
  have reach := start.ofRun (fun _ _ _ stepped => stepped) (fun _ _ _ => trivial) ran
  exact absurd (claimed (fun _ => 2000) _ reach (by decide +kernel)) (by decide +kernel)

/-- Whether a step is sure to be allowed. -/
def allowedHere (vm : VM) : VMStep → Bool
  | .setHead _ => false
  | .needToBuild => minNextBlockTime (fun _ => 2000) vm.currentHeader ≤ vm.now ∧ vm.waiting = .called vm.currentHeader
  | .buildBlock => vm.waiting = .returned vm.currentHeader
  | _ => true

theorem allowed_of_here (vm : VM) (action : VMStep) (here : allowedHere vm action = true) : Allowed (fun _ => 2000) vm action := by
  cases action with
  | setHead header => cases here
  | needToBuild =>
    obtain ⟨past, called⟩ := of_decide_eq_true here
    intro header waits
    cases called.symm.trans waits
    exact past.trans (by omega)
  | buildBlock => exact .inl (of_decide_eq_true here)
  | clock => trivial
  | waitForEvent => trivial
  | wake => trivial
  | cancel => trivial
  | restart => trivial

/-- A retry on the same head. -/
theorem builder_in_time_sample : minNextBlockTime (fun _ => 2000) (sampleHead 1000000) ≤ 1002100 * millisecond := by
  have ran : run (VM.step fun _ => 2000) allowedHere (firstBuild ++ [.clock (1002100 * millisecond)])
      (sampleVM (sampleHead 1000000) 1002000) = some {
        now := 1002100 * millisecond
        currentHeader := sampleHead 1000000
        builder := { lastBuildTime := 1002000 * millisecond, lastBuildParentHash := 7 }
        waiting := .idle } := by decide +kernel
  have start : Reach (builderSystem fun _ => 2000) (Allowed fun _ => 2000) (sampleVM (sampleHead 1000000) 1002000) := .start ⟨rfl, rfl⟩
  have reach := start.ofRun (fun _ _ _ stepped => stepped) allowed_of_here ran
  exact (builder_in_time (fun _ => 2000) _ reach (by decide +kernel)).1

end Snowside.Execution.BuildDelay
