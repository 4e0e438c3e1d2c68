import Mathlib.Data.List.GetD
import Snowside.Evm.Header

/-! The fee window of a child block, and its place in the extra data. -/

set_option autoImplicit false

namespace Snowside.Evm

/-- The fee window of a child at the timestamp; empty below the first block. -/
def feeWindow (config : NetworkUpgrades) (parent : Header) (timestamp : UInt64) : Except Fault Window :=
  if config.isSubnetEVM parent.time = false ∨ parent.number = 0 then .ok .empty
  else
    match parseWindow parent.extra with
    | .error cause => .error (.windowTooShort cause)
    | .ok window =>
        if timestamp < parent.time then .error (.invalidTimestamp timestamp parent.time)
        else .ok ((window.add [parent.gasUsed]).shift (timestamp - parent.time))

/-- The expected start of the child's extra data. -/
def extraPrefix (config : NetworkUpgrades) (parent header : Header) : Except Fault Bytes :=
  if config.isSubnetEVM header.time then (feeWindow config parent header.time).map Window.bytes
  else .ok []

inductive ExtraError where
  | window (cause : Fault)
  | invalidExtraPrefix (expected found : Bytes)
  deriving DecidableEq, Repr

def verifyExtraPrefix (config : NetworkUpgrades) (parent header : Header) : Except ExtraError Unit :=
  if config.isSubnetEVM header.time = false then .ok ()
  else
    match feeWindow config parent header.time with
    | .error cause => .error (.window cause)
    | .ok window =>
        if window.bytes.isPrefixOf header.extra then .ok ()
        else .error (.invalidExtraPrefix window.bytes header.extra)

variable {config : NetworkUpgrades} {parent header : Header} {timestamp : UInt64} {window : Window}

/-- From SubnetEVM on the prefix is a window, and before it is empty. -/
theorem length_extraPrefix {windowBytes : Bytes} (found : extraPrefix config parent header = .ok windowBytes) :
    windowBytes.length = if config.isSubnetEVM header.time then windowSize else 0 := by
  unfold extraPrefix at found
  by_cases active : config.isSubnetEVM header.time
  · rw [if_pos active] at found ⊢
    cases computed : feeWindow config parent header.time with
    | error fault =>
      rw [computed] at found
      cases found
    | ok window =>
      rw [computed] at found
      rw [← Except.ok.inj found, Window.length_bytes]
  · rw [if_neg active] at found ⊢
    rw [← Except.ok.inj found, List.length_nil]

/-! ## What one block does to the window -/

theorem verifyExtraPrefix_ok (active : config.isSubnetEVM header.time)
    (verified : verifyExtraPrefix config parent header = .ok ()) :
    ∃ window, feeWindow config parent header.time = .ok window ∧ parseWindow header.extra = .ok window := by
  unfold verifyExtraPrefix at verified
  rw [if_neg (by rw [active]; decide)] at verified
  split at verified
  · cases verified
  · next window found =>
    split at verified
    · next is_prefix =>
      obtain ⟨rest, same⟩ := List.isPrefixOf_iff_prefix.mp is_prefix
      exact ⟨window, found, by rw [← same, parseWindow_bytes]⟩
    · cases verified

theorem feeWindow_first (first : config.isSubnetEVM parent.time = false ∨ parent.number = 0) :
    feeWindow config parent timestamp = .ok .empty :=
  if_pos first

theorem feeWindow_next (active : config.isSubnetEVM parent.time) (later : parent.number ≠ 0)
    (parsed : parseWindow parent.extra = .ok window) (forward : parent.time ≤ timestamp) :
    feeWindow config parent timestamp = .ok ((window.add [parent.gasUsed]).shift (timestamp - parent.time)) := by
  rw [feeWindow, if_neg, parsed]
  · exact if_neg (UInt64.not_lt.mpr forward)
  · rintro (inactive | first)
    · rw [inactive] at active
      cases active
    · exact later first

/-! ## Slots by age -/

namespace Window

/-- The entry of so many seconds ago. -/
def ago (window : Window) (age : Nat) : Nat := (window.toList.getD (windowLen - 1 - age) 0).toNat

theorem ago_eq {age : Nat} (placed : windowLen - 1 - age < windowLen) :
    window.ago age = window[windowLen - 1 - age].toNat := by
  rw [ago, List.getD_eq_getElem _ _ (by rw [Vector.length_toList]; omega)]
  simp

theorem ago_empty (age : Nat) : empty.ago age = 0 := by
  simp only [ago, empty, Vector.toList_replicate, List.getD_eq_getElem?_getD, List.getElem?_replicate]
  split <;> rfl

theorem ago_add_zero (amount : UInt64) :
    (window.add [amount]).ago 0 = min maxUint64 (window.ago 0 + amount.toNat) := by
  rw [ago_eq (by decide), ago_eq (by decide)]
  simp [add, add_toNat]

theorem ago_add_succ (amounts : List UInt64) {age : Nat} (small : age + 1 < windowLen) :
    (window.add amounts).ago (age + 1) = window.ago (age + 1) := by
  rw [ago_eq (by omega), ago_eq (by omega), add, Vector.getElem_set_ne _ _ (by omega)]

theorem ago_shift {n : UInt64} {age : Nat} (small : age < windowLen) :
    (window.shift n).ago age = if n.toNat ≤ age then window.ago (age - n.toNat) else 0 := by
  unfold shift
  split
  · next all =>
    rw [if_neg (by omega), ago_empty]
  · next part =>
    rw [ago_eq (by omega), Vector.getElem_ofFn]
    split
    · rw [ago]
      congr 3
      simp only
      omega
    · next young =>
      rw [List.getD_eq_default _ _ (by rw [Vector.length_toList]; simp only; omega)]
      rfl

theorem sum_ago (window : Window) :
    (window.toList.map UInt64.toNat).sum = ((List.range windowLen).map window.ago).sum := by
  have reversed : (List.range windowLen).map window.ago = (window.toList.map UInt64.toNat).reverse := by
    refine List.ext_getElem (by simp) fun index small _ => ?_
    simp only [List.length_map, List.length_range] at small
    simp [ago_eq (show windowLen - 1 - index < windowLen by omega)]
  rw [reversed, List.sum_reverse]

end Window

/-! ## The window over a chain -/

/-- Gas used by the headers of exactly the age. -/
def gasUsedAged (headers : List Header) (now : UInt64) (age : Nat) : Nat :=
  Sliding.aged (fun header : Header => header.time.toNat) (fun header => header.gasUsed.toNat) headers now.toNat age

/-- Gas used by the headers of less than the age. -/
def gasUsedRecently (headers : List Header) (now : UInt64) (seconds : Nat) : Nat :=
  Sliding.recent (fun header : Header => header.time.toNat) (fun header => header.gasUsed.toNat) headers now.toNat
    seconds

/-- A block that follows its parent and carries the window in its extra data. -/
structure CarriesWindow (config : NetworkUpgrades) (parent header : Header) : Prop extends Follows parent header where
  extra : verifyExtraPrefix config parent header = .ok ()

/-- A window that has counted the headers. -/
def Window.Counts (window : Window) (headers : List Header) (now : UInt64) : Prop :=
  ∀ age < windowLen, window.ago age = min maxUint64 (gasUsedAged headers now age)

theorem Window.counts_empty (now : UInt64) : Window.empty.Counts [] now := by
  intro age _
  rw [ago_empty, gasUsedAged, Sliding.aged_nil]
  rfl

/-- Capping each slot is no loss to the capped sum. -/
theorem Window.Counts.sum {headers : List Header} (counts : window.Counts headers timestamp) :
    min maxUint64 ((List.range windowLen).map window.ago).sum =
      min maxUint64 ((List.range windowLen).map (gasUsedAged headers timestamp)).sum := by
  have capped : (List.range windowLen).map window.ago =
      ((List.range windowLen).map (gasUsedAged headers timestamp)).map (min maxUint64) := by
    rw [List.map_map]
    exact List.map_congr_left fun age member => counts age (List.mem_range.mp member)
  rw [capped, Sliding.min_sum_min]

/-- Counting a block and moving on to its child's time. -/
theorem Window.Counts.next {headers : List Header} (counts : window.Counts headers header.time)
    (past : ∀ other ∈ headers, other.time ≤ header.time) (forward : header.time ≤ timestamp) :
    ((window.add [header.gasUsed]).shift (timestamp - header.time)).Counts (header :: headers) timestamp := by
  intro age small
  have elapsed : (timestamp - header.time).toNat = timestamp.toNat - header.time.toNat :=
    UInt64.toNat_sub_of_le _ _ forward
  have all : ∀ other ∈ header :: headers, other.time.toNat ≤ header.time.toNat := by
    intro other member
    obtain rfl | member := List.mem_cons.mp member
    · exact le_rfl
    · exact UInt64.le_iff_toNat_le.mp (past other member)
  -- The window is shifted by the seconds between the blocks; what is younger is empty.
  rw [ago_shift small, elapsed, gasUsedAged]
  split
  · next old =>
    obtain ⟨younger, rfl⟩ := Nat.exists_eq_add_of_le' old
    rw [Sliding.aged_later all (UInt64.le_iff_toNat_le.mp forward), Nat.add_sub_cancel, Sliding.aged_cons]
    cases younger with
    | zero =>
      rw [ago_add_zero, counts 0 (by decide), Sliding.min_add_min, if_pos (Nat.add_zero _), Nat.add_comm]
      rfl
    | succ younger =>
      rw [ago_add_succ _ (by omega), counts _ (by omega), if_neg (by omega), Nat.zero_add]
      rfl
  · next young =>
    rw [Sliding.aged_young all (by omega)]
    rfl

theorem feeWindow_counts {genesis : Header} {headers : List Header} (first : genesis.number = 0)
    (active : config.isSubnetEVM genesis.time) (above : Above (CarriesWindow config) genesis headers)
    (forward : (tip genesis headers).time ≤ timestamp) :
    ∃ window, feeWindow config (tip genesis headers) timestamp = .ok window ∧ window.Counts headers timestamp := by
  induction above generalizing timestamp with
  | start => exact ⟨.empty, feeWindow_first (.inr first), Window.counts_empty _⟩
  | @extend headers header above carries ih =>
    have follows := above.mono fun _ _ carries => carries.toFollows
    have whole := follows.extend carries.toFollows
    obtain ⟨before, found, counts⟩ := ih carries.time
    have started := isTimestampForked_mono whole.genesis_time_le active
    obtain ⟨window, same, parsed⟩ := verifyExtraPrefix_ok started carries.extra
    -- The header carries the window that its parent's gas is added to.
    obtain rfl : before = window := Except.ok.inj (found.symm.trans same)
    have numbered : header.number ≠ 0 := by
      have := whole.number
      rw [show tip genesis (header :: headers) = header from rfl, first, List.length_cons] at this
      omega
    refine ⟨_, feeWindow_next started numbered parsed forward, ?_⟩
    exact counts.next (fun other member => UInt64.le_trans (follows.time_le other member) carries.time) forward

/-- The fee window above a genesis is the sliding sum of the gas its chain used. -/
theorem feeWindow_sliding_sum {genesis : Header} {headers : List Header} (first : genesis.number = 0)
    (active : config.isSubnetEVM genesis.time) (above : Above (CarriesWindow config) genesis headers)
    (forward : (tip genesis headers).time ≤ timestamp) :
    ∃ window, feeWindow config (tip genesis headers) timestamp = .ok window ∧
      (∀ age, (small : age < windowLen) →
        (window.get ⟨windowLen - 1 - age, by omega⟩).toNat = min maxUint64 (gasUsedAged headers timestamp age)) ∧
      window.sum.toNat = min maxUint64 (gasUsedRecently headers timestamp windowLen) := by
  obtain ⟨window, found, counts⟩ := feeWindow_counts first active above forward
  refine ⟨window, found, fun age small => ?_, ?_⟩
  · have placed : windowLen - 1 - age < windowLen := by omega
    show window[windowLen - 1 - age].toNat = _
    rw [← Window.ago_eq placed, counts age small]
  have past : ∀ header ∈ headers, header.time.toNat ≤ timestamp.toNat := fun header member =>
    UInt64.le_iff_toNat_le.mp (UInt64.le_trans ((above.mono fun _ _ carries => carries.toFollows).time_le header member)
      forward)
  rw [Window.sum_toNat, Window.sum_ago, gasUsedRecently, Sliding.recent_eq past]
  exact counts.sum

/-- Every fork but the last ones is active from the start. -/
def sampleUpgrades : NetworkUpgrades where
  subnetEVMTimestamp := some 0
  durangoTimestamp := some 0

def sampleGenesis : Header where
  number := 0
  time := 100

/-- Two blocks in one second, and one much later. -/
def sampleHeaders : List Header :=
  [{ number := 3, time := 109, gasUsed := 7, extra := (Window.shift (Window.empty.add [40, 2]) 7).bytes },
    { number := 2, time := 102, gasUsed := 2, extra := (Window.empty.add [40]).bytes },
    { number := 1, time := 102, gasUsed := 40, extra := Window.empty.bytes }]

theorem feeWindow_sliding_sum_sample : ∃ window, feeWindow sampleUpgrades (tip sampleGenesis sampleHeaders) 111 = .ok window ∧
    window[0].toNat = 42 ∧ window[7].toNat = 7 ∧ window.sum.toNat = 49 := by
  have above : Above (CarriesWindow sampleUpgrades) sampleGenesis sampleHeaders := by
    refine .extend (.extend (.extend .start ⟨⟨?_, ?_⟩, ?_⟩) ⟨⟨?_, ?_⟩, ?_⟩) ⟨⟨?_, ?_⟩, ?_⟩ <;> decide
  have later : (tip sampleGenesis sampleHeaders).time ≤ 111 := by decide
  obtain ⟨window, found, slots, sum⟩ := feeWindow_sliding_sum rfl (by decide) above later
  exact ⟨window, found, slots 9 (by decide), slots 2 (by decide), sum⟩

end Snowside.Evm
