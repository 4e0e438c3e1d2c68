import Snowside.Blockchain.Restart

/-! What a restart finds, from any disk that a crash can leave. -/

set_option autoImplicit false

namespace Snowside.Blockchain

open Ancestry (IsParent Ancestor Path)
open BlockChain (Moved)
open Checked (need need_eq_ok refuse_eq_ok refuse_eq_error)
open Runs (Along)
open Stateful (Action Ends perform check)

variable {Block Hash Root Transaction : Type} [ChainBlock Block Hash] [StateBlock Block Root Transaction]

/-! ## The search for a state -/

namespace Disk

variable {disk : Disk Block} {reexec steps : Nat} {current found : Block}

theorem stepDown_eq_ok {parent : Block} :
    disk.stepDown current = .ok parent ↔ IsParent parent current ∧ disk.chain.Stored parent := by
  rw [stepDown, ← Database.getParent_eq_some]
  split
  · next bottom =>
    simp [Database.getParent, bottom]
  · exact need_eq_ok

/-- The search finds the nearest state. -/
theorem findState_eq_ok (searched : disk.findState reexec steps current = .ok found) :
    Ancestor found current ∧ disk.hasState (root found) ∧ number current ≤ number found + steps ∧
      ∀ block, Ancestor block current → number found < number block → ¬ disk.hasState (root block) := by
  induction steps generalizing current with
  | zero =>
    rw [findState] at searched
    split at searched
    · next present =>
      cases searched
      exact ⟨.refl _, present, Nat.le_refl _, fun block above high => absurd high (Nat.not_lt.mpr (number_le above))⟩
    · obtain ⟨_, _, impossible⟩ := Checked.bind_eq_ok.mp searched
      cases impossible
  | succ steps ih =>
    rw [findState] at searched
    split at searched
    · next present =>
      cases searched
      exact ⟨.refl _, present, Nat.le_add_right _ _, fun block above high => absurd high (Nat.not_lt.mpr (number_le above))⟩
    next absent =>
    obtain ⟨parent, below, further⟩ := Checked.bind_eq_ok.mp searched
    obtain ⟨above, present, near, nearest⟩ := ih further
    obtain ⟨step, _⟩ := stepDown_eq_ok.mp below
    have next := number_child step
    refine ⟨above.child step, present, by omega, fun block based high => ?_⟩
    rcases based.eq_or_parent with rfl | ⟨other, isParent, rest⟩
    · exact absent
    · obtain rfl := Ancestry.parent_unique step isParent
      exact nearest block rest high

/-- A state within reach is found. -/
theorem findState_of_state {state : Block} (above : Ancestor state current) (present : disk.hasState (root state))
    (near : number current ≤ number state + steps)
    (stored : ∀ block, Ancestor state block → Ancestor block current → disk.chain.Stored block) :
    ∃ found, disk.findState reexec steps current = .ok found := by
  induction steps generalizing current with
  | zero =>
    obtain rfl := above.eq_of_level near
    exact ⟨state, by rw [findState, if_pos present]⟩
  | succ steps ih =>
    by_cases here : disk.hasState (root current)
    · exact ⟨current, by rw [findState, if_pos here]⟩
    rcases above.eq_or_parent with rfl | ⟨parent, step, further⟩
    · exact absurd present here
    have next := number_child step
    have below := stepDown_eq_ok.mpr ⟨step, stored parent further (.of_parent step)⟩
    obtain ⟨found, searched⟩ := ih further (by omega) fun block based under => stored block based (under.child step)
    refine ⟨found, ?_⟩
    rw [findState, if_neg here, below]
    exact searched

end Disk

/-- From the origin to the last block: what the index and the store hold for the walk up. -/
structure Walkable (origin last : Block) (db : Database Block Hash) : Prop where
  follows : db.Follows origin last
  stored : ∀ block, Ancestor origin block → Ancestor block last → db.Stored block
  valid : ∀ parent block, Ancestor origin parent → IsParent parent block → Ancestor block last → valid parent block

theorem Walkable.getBlockByNumber {origin last block : Block} {db : Database Block Hash} (walkable : Walkable origin last db)
    (based : Ancestor origin block) (below : Ancestor block last) : db.getBlockByNumber (number block) = some block := by
  have entry : db.getCanonicalHash (number block) = some (hash block) := walkable.follows block based below
  rw [Database.getBlockByNumber, entry, Option.bind_some]
  exact Database.getBlock_eq_some.mpr ⟨walkable.stored block based below, rfl⟩

/-! ## What a crash leaves -/

/-- What a disk holds at any moment: of the decided blocks, the last accepted one and the
acceptor tip are in it, and the origin has its state. -/
structure Disk.Sound (origin last decided : Block) (disk : Disk Block) : Prop where
  persisted : disk.lastAcceptedHash = hash last
  rooted : Ancestor origin last
  final : Ancestor last decided
  upholds : disk.chain.Upholds origin last decided
  valid : ∀ parent block, Ancestor origin parent → IsParent parent block → Ancestor block decided → valid parent block
  tip : ∀ key, disk.acceptorTip = some key → ∃ block, hash block = key ∧ Ancestor origin block ∧ Ancestor block decided
  base : disk.hasState (root origin)

/-- Where the search for a state begins. -/
def Disk.Searches (disk : Disk Block) (last start : Block) : Prop := hash start = disk.acceptorTip.getD (hash last)

/-- A state is in reach below the acceptor tip, and if the last accepted block has none, no
block above it has one. -/
def Disk.Recoverable (commitInterval : Nat) (disk : Disk Block) : Prop :=
  ∃ last start, hash last = disk.lastAcceptedHash ∧ disk.Searches last start ∧
    (∃ state, Ancestor state start ∧ disk.hasState (root state) ∧ number start ≤ number state + 2 * commitInterval) ∧
    (disk.hasState (root last) ∨ ∀ block, Ancestor block start → number last < number block → ¬ disk.hasState (root block))

namespace Disk.Sound

variable {origin last decided : Block} {disk : Disk Block}

theorem exists_start (sound : disk.Sound origin last decided) :
    ∃ start, disk.Searches last start ∧ Ancestor origin start ∧ Ancestor start decided := by
  unfold Searches
  cases tip : disk.acceptorTip with
  | none => exact ⟨last, rfl, sound.rooted, sound.final⟩
  | some key =>
    obtain ⟨block, named, based, below⟩ := sound.tip key tip
    exact ⟨block, named, based, below⟩

theorem walkable (sound : disk.Sound origin last decided) {db : Database Block Hash} (blocks : db.blocks = disk.chain.blocks)
    (follows : db.Follows origin last) : Walkable origin last db where
  follows := follows
  stored block based below := by
    rw [Database.Stored, blocks]
    exact sound.upholds.kept block based (below.trans sound.final)
  valid parent block based step below := sound.valid parent block based step (below.trans sound.final)

end Disk.Sound

/-! ## The head -/

variable [DecidableEq Hash] [DecidableEq Root] [DecidableEq Transaction]

def Boot.writeAll (writes : List (DiskWrite Block Root)) (boot : Boot Block) : Boot Block :=
  ⟨boot.disk.applyAll writes, boot.written ++ writes⟩

@[simp] theorem Boot.writeAll_nil (boot : Boot Block) : boot.writeAll [] = boot :=
  congrArg (Boot.mk boot.disk) (List.append_nil _)

theorem Boot.writeAll_append (boot : Boot Block) (first second : List (DiskWrite Block Root)) :
    boot.writeAll (first ++ second) = (boot.writeAll first).writeAll second := by
  simp only [writeAll, Disk.applyAll_append, List.append_assoc]

theorem Boot.foldl_write {Item : Type} (items : List Item) (batch : Item → DiskWrite Block Root) (boot : Boot Block) :
    items.foldl (fun boot item => Boot.write (batch item) boot) boot = boot.writeAll (items.map batch) := by
  induction items generalizing boot with
  | nil => exact boot.writeAll_nil.symm
  | cons item rest ih => exact (ih (boot.write (batch item))).trans (boot.writeAll_append [batch item] (rest.map batch)).symm

@[simp] theorem Disk.applyAll_chain (disk : Disk Block) (writes : List (Write Block)) :
    disk.applyAll (writes.map .chain) = { disk with chain := disk.chain.applyAll writes } := by
  induction writes generalizing disk with
  | nil => rfl
  | cons batch rest ih => exact ih (disk.apply (.chain batch))

/-- From a head over the last accepted block the preference moves down to that block. -/
theorem preference_restored {origin last decided head : Block} {db : Database Block Hash} (upholds : db.Upholds origin last decided)
    (first : IsOrigin origin) (rooted : Ancestor origin last) (named : db.headBlockHash = hash head) :
    Ends (⟨db, [], head, last⟩ : BlockChain Block Hash) (setPreference last) fun result after =>
      result = .ok () ∧ after.db = db.applyAll after.written ∧ Safe (Database.Upholds origin last decided) after.written db ∧
      after.db.blocks = db.blocks ∧ after.db.canonical.Filled (number origin) (number last) ∧ after.db.Follows origin last ∧
      after.db.headBlockHash = hash last := by
  obtain ⟨found, same, under, stored, exact_at⟩ := upholds.head
  obtain rfl := hash_injective (same.symm.trans named)
  have low := number_le under
  have succeeds : Ends (⟨db, [], found, last⟩ : BlockChain Block Hash) (setPreference last) fun result _ => result = .ok () :=
    setPreference_succeeds under (.refl last) (fun middle based above => stored middle (rooted.trans based) above)
      fun middle based above _ => stored middle (rooted.trans based) (above.trans under)
  have moves := setPreference_ends (⟨db, [], found, last⟩ : BlockChain Block Hash) last
  unfold Ends at succeeds moves ⊢
  rcases ended : perform (setPreference last) (⟨db, [], found, last⟩ : BlockChain Block Hash) with ⟨result, after⟩
  rw [ended] at succeeds moves
  obtain rfl : result = .ok () := succeeds
  replace moves : Moved (⟨db, [], found, last⟩ : BlockChain Block Hash) last after := moves
  refine ⟨rfl, ?_⟩
  cases moves with
  | stays same =>
    obtain rfl : found = last := same
    exact ⟨rfl, upholds, rfl, exact_at rfl, upholds.follows, named⟩
  | grows parent =>
    -- The head would be the parent of a block above it.
    replace parent : parentHash last = hash found := parent
    rcases rooted.eq_or_parent with rfl | ⟨other, step, _⟩
    · have below := first found parent.symm
      omega
    · obtain rfl := hash_injective (step.1.trans parent)
      have next := number_child step
      omega
  | @switches common path ancestor way high =>
    replace high : number last ≤ number common := high
    obtain rfl : common = last := way.ancestor.eq_of_level high
    obtain rfl : path = [] := by
      rcases way.exists_last with ⟨empty, _⟩ | ⟨front, parent, _, begun, step⟩
      · exact empty
      · have next := number_child step
        have up := number_le begun.ancestor
        omega
    obtain ⟨top, inside, filled⟩ := upholds.filled
    obtain ⟨safe, full, follows⟩ := Safe.switch upholds rooted (.refl common) way upholds.follows filled inside
      fun block based above => stored block based (above.trans under)
    exact ⟨rfl, safe, rfl, full, follows, rfl⟩

theorem loadPreference_ends {origin last decided head : Block} {boot : Boot Block}
    (upholds : boot.disk.chain.Upholds origin last decided) (first : IsOrigin origin) (rooted : Ancestor origin last)
    (named : boot.disk.chain.headBlockHash = hash head) :
    Ends boot (loadPreference head last) fun result after =>
      result = .ok () ∧ ∃ writes, after = boot.writeAll (writes.map .chain) ∧
        Safe (Database.Upholds origin last decided) writes boot.disk.chain ∧
        after.disk.chain.blocks = boot.disk.chain.blocks ∧ after.disk.chain.canonical.Filled (number origin) (number last) ∧
        after.disk.chain.Follows origin last ∧ after.disk.chain.headBlockHash = hash last := by
  have restored := preference_restored upholds first rooted named
  unfold loadPreference
  refine Ends.get_bind ?_
  dsimp only
  rcases made : perform (setPreference last) (⟨boot.disk.chain, [], head, last⟩ : BlockChain Block Hash) with ⟨result, chain⟩
  unfold Ends at restored ⊢
  rw [made] at restored
  obtain ⟨rfl, applied, safe, blocks, filled, follows, headed⟩ := restored
  dsimp only at applied safe blocks filled follows headed ⊢
  rw [Stateful.perform_bind_ok (Stateful.perform_forM_modify chain.written (fun batch => Boot.write (.chain batch)) boot),
    Boot.foldl_write]
  have db : (boot.writeAll (chain.written.map .chain)).disk.chain = chain.db := by
    rw [Boot.writeAll, Disk.applyAll_chain, applied]
  rw [← db] at blocks filled follows headed
  exact ⟨rfl, chain.written, rfl, safe, blocks, filled, follows, headed⟩

/-! ## The blocks processed again -/

/-- The indices are written for the blocks after the acceptor tip, if the walk comes past it. -/
def Indexes (acceptorTip : Option Hash) (start last : Block) (blocks : List Block) : Prop :=
  (∃ tip, acceptorTip = some (hash tip) ∧ Ancestor start tip ∧ Path tip blocks last) ∨
    (blocks = [] ∧ ∀ tip, acceptorTip = some (hash tip) → Ancestor start tip → Ancestor tip last → tip = last)

theorem regenerate_ends {origin last start : Block} {boot : Boot Block} {acceptorTip : Option Hash} {steps : Nat} {writeIndices : Bool}
    (walkable : Walkable origin last boot.disk.chain) (based : Ancestor origin start) (below : Ancestor start last)
    (level : number last = number start + steps) :
    Ends boot (regenerate acceptorTip steps start writeIndices) fun result after =>
      result = .ok last ∧ ∃ blocks, after = boot.writeAll (blocks.map .acceptedIndices) ∧
        (∀ block ∈ blocks, Ancestor start block ∧ Ancestor block last) ∧
        (if writeIndices then Path start blocks last else Indexes acceptorTip start last blocks) := by
  induction steps generalizing boot start writeIndices with
  | zero =>
    obtain rfl := below.eq_of_level (Nat.le_of_eq level)
    refine ⟨rfl, [], boot.writeAll_nil.symm, fun block member => (List.not_mem_nil member).elim, ?_⟩
    split
    · exact rfl
    · exact .inr ⟨rfl, fun tip _ based below => below.eq_of_level based.level_le⟩
  | succ steps ih =>
    obtain ⟨current, above, rest, height⟩ := below.exists_level (show number start ≤ number start + 1 by omega)
      (show number start + 1 ≤ number last by omega)
    replace height : number current = number start + 1 := height
    have step : IsParent start current := by
      rcases above.eq_or_parent with rfl | ⟨parent, isParent, further⟩
      · omega
      · have next := number_child isParent
        rwa [further.eq_of_level (show number parent ≤ number start by omega)]
    have lookup : boot.disk.chain.getBlockByNumber (number start + 1) = some current := by
      rw [← height]
      exact walkable.getBlockByNumber (based.child step) rest
    have processed := walkable.valid start current based step rest
    rw [regenerate]
    refine Ends.get_bind ?_
    dsimp only
    rw [lookup, Checked.need_some, Stateful.check_ok_bind]
    refine Ends.check_bind (fun _ refused => absurd processed (refuse_eq_error.mp refused).1) fun _ _ => ?_
    cases passed : writeIndices || acceptorTip == some (hash start) with
    | true =>
      rw [if_pos rfl]
      have still : Walkable origin last (boot.write (.acceptedIndices current)).disk.chain := walkable
      refine Ends.modify_bind ((ih still (based.child step) rest (by omega)).mono fun result after holds => ?_)
      obtain ⟨ended, blocks, rfl, between, path⟩ := holds
      rw [if_pos rfl] at path
      refine ⟨ended, current :: blocks, (boot.writeAll_append [.acceptedIndices current] (blocks.map .acceptedIndices)).symm, ?_, ?_⟩
      · intro block member
        rcases List.mem_cons.mp member with rfl | member
        · exact ⟨.of_parent step, rest⟩
        · exact ⟨(Ancestor.of_parent step).trans (between block member).1, (between block member).2⟩
      · split
        · exact ⟨step, path⟩
        · next fresh =>
          -- The walk has come to the tip at this block.
          have tip : acceptorTip = some (hash start) := by
            simpa [fresh] using passed
          exact .inl ⟨start, tip, .refl start, step, path⟩
    | false =>
      rw [if_neg Bool.false_ne_true]
      refine (ih walkable (based.child step) rest (by omega)).mono fun result after holds => ?_
      obtain ⟨ended, blocks, rfl, between, indexes⟩ := holds
      rw [if_neg Bool.false_ne_true] at indexes
      rw [Bool.or_eq_false_iff, beq_eq_false_iff_ne] at passed
      refine ⟨ended, blocks, rfl, fun block member => ?_, ?_⟩
      · exact ⟨(Ancestor.of_parent step).trans (between block member).1, (between block member).2⟩
      rw [passed.1, if_neg Bool.false_ne_true]
      rcases indexes with ⟨tip, same, onward, path⟩ | ⟨rfl, only⟩
      · exact .inl ⟨tip, same, (Ancestor.of_parent step).trans onward, path⟩
      · refine .inr ⟨rfl, fun tip same onward under => only tip same ?_ under⟩
        have other : start ≠ tip := fun here => passed.2 (here ▸ same)
        have high : number current ≤ number tip := by
          by_contra low
          exact other (onward.eq_of_level (show number tip ≤ number start by omega))
        exact rest.of_level_le under high

namespace Disk.Sound

variable {origin last decided : Block} {disk : Disk Block}

theorem acceptedIndices (sound : disk.Sound origin last decided) {block : Block} (based : Ancestor origin block)
    (below : Ancestor block decided) : (disk.apply (.acceptedIndices block)).Sound origin last decided :=
  { sound with tip := fun _ same => ⟨block, Option.some.inj same, based, below⟩ }

theorem state (sound : disk.Sound origin last decided) (key : Root) : (disk.apply (.state key)).Sound origin last decided :=
  { sound with
    base := by
      show Function.update disk.hasState key true (root origin) = true
      by_cases same : root origin = key
      · rw [same, Function.update_self]
      · rw [Function.update_of_ne same]
        exact sound.base }

theorem chain (sound : disk.Sound origin last decided) {batch : Write Block}
    (upholds : (disk.chain.apply batch).Upholds origin last decided) : (disk.apply (.chain batch)).Sound origin last decided :=
  { sound with upholds := upholds }

theorem along_chain (sound : disk.Sound origin last decided) {writes : List (Write Block)}
    (safe : Safe (Database.Upholds origin last decided) writes disk.chain) :
    Along Disk.apply (Disk.Sound origin last decided) (writes.map .chain) disk := by
  induction writes generalizing disk with
  | nil => exact sound
  | cons batch rest ih => exact ⟨sound, ih (sound.chain safe.2.here) safe.2⟩

theorem along_indices (sound : disk.Sound origin last decided) {blocks : List Block}
    (between : ∀ block ∈ blocks, Ancestor origin block ∧ Ancestor block decided) :
    Along Disk.apply (Disk.Sound origin last decided) (blocks.map .acceptedIndices) disk := by
  induction blocks generalizing disk with
  | nil => exact sound
  | cons block rest ih =>
    obtain ⟨based, below⟩ := between block (List.mem_cons_self ..)
    exact ⟨sound, ih (sound.acceptedIndices based below) fun other member => between other (List.mem_cons_of_mem _ member)⟩

end Disk.Sound

/-- The ways in which the states below the last accepted block are processed again. -/
inductive Reprocessed (start last : Block) (reexec : Nat) (boot : Boot Block) :
    Except (RestartError Hash) Unit → Boot Block → Prop where
  | upToDate : boot.disk.hasState (root last) → start = last → Reprocessed start last reexec boot (.ok ()) boot
  | unavailable {error : RestartError Hash} : (∀ state, Ancestor state start → boot.disk.hasState (root state) →
      number state + reexec < number start) → Reprocessed start last reexec boot (.error error) boot
  | above {found : Block} : Ancestor found start → boot.disk.hasState (root found) → number start ≤ number found + reexec →
      (∀ block, Ancestor block start → number found < number block → ¬ boot.disk.hasState (root block)) →
      number last ≤ number found → Reprocessed start last reexec boot (.ok ()) boot
  | processed {found : Block} {blocks : List Block} : Ancestor found start → boot.disk.hasState (root found) →
      number start ≤ number found + reexec →
      (∀ block, Ancestor block start → number found < number block → ¬ boot.disk.hasState (root block)) →
      number found < number last → (∀ block ∈ blocks, Ancestor found block ∧ Ancestor block last) →
      Indexes boot.disk.acceptorTip found last blocks →
      Reprocessed start last reexec boot (.ok ()) (boot.writeAll (blocks.map .acceptedIndices ++ [.state (root last)]))

theorem reprocessState_ends {origin last decided start : Block} {boot : Boot Block} (sound : boot.disk.Sound origin last decided)
    (searches : boot.disk.Searches last start) (based : Ancestor origin start) (below : Ancestor start decided)
    (follows : boot.disk.chain.Follows origin last) (reexec : Nat) :
    Ends boot (reprocessState last reexec) fun result after => Reprocessed start last reexec boot result after := by
  have stored := fun block (from_origin : Ancestor origin block) (to_start : Ancestor block start) =>
    sound.upholds.kept block from_origin (to_start.trans below)
  unfold reprocessState
  refine Ends.get_bind ?_
  dsimp only
  split
  · next ready =>
    rw [Bool.and_eq_true, Bool.or_eq_true, beq_iff_eq, beq_iff_eq] at ready
    refine .upToDate ready.1 (hash_injective (searches.trans ?_))
    rcases ready.2 with tip | tip <;> rw [tip] <;> rfl
  have begins : boot.disk.searchStart last = .ok start := by
    unfold Disk.Searches at searches
    unfold Disk.searchStart
    cases tip : boot.disk.acceptorTip with
    | none =>
      rw [tip] at searches
      rw [hash_injective searches]
    | some key =>
      rw [tip] at searches
      obtain rfl : hash start = key := searches
      exact need_eq_ok.mpr (stored start based (.refl start))
  rw [begins, Stateful.check_ok_bind]
  refine Ends.check_bind (fun error failed => .unavailable fun state above present => ?_) fun found searched => ?_
  · by_contra near
    -- Below the origin there is no need to search.
    have found : ∃ found, boot.disk.findState reexec reexec start = .ok found := by
      by_cases low : number origin ≤ number state
      · exact Disk.findState_of_state above present (by omega) fun block high => stored block ((based.of_level_le above low).trans high)
      · exact Disk.findState_of_state based sound.base (by omega) stored
    obtain ⟨found, searched⟩ := found
    rw [searched] at failed
    cases failed
  obtain ⟨above, present, near, nearest⟩ := Disk.findState_eq_ok searched
  by_cases high : number last ≤ number found
  · rw [Nat.sub_eq_zero_of_le high]
    unfold Ends
    rw [Stateful.perform_bind_ok (show perform (regenerate boot.disk.acceptorTip 0 found false) boot = (.ok found, boot) from rfl),
      if_neg (Nat.not_lt.mpr high)]
    exact .above above present near nearest high
  · have low : number origin ≤ number found := by
      by_contra under
      exact nearest origin based (by omega) sound.base
    have from_origin := based.of_level_le above low
    have onward : Ancestor found last := (above.trans below).of_level_le sound.final (show number found ≤ number last by omega)
    refine Ends.bind (regenerate_ends (sound.walkable rfl follows) from_origin onward (by omega)) ?_ ?_
    · intro error after impossible
      cases impossible.1
    · intro value after ended
      obtain ⟨same, blocks, rfl, between, indexes⟩ := ended
      cases same
      rw [if_neg Bool.false_ne_true] at indexes
      rw [if_pos (by omega)]
      have done : (boot.writeAll (blocks.map .acceptedIndices)).write (.state (root last)) =
          boot.writeAll (blocks.map .acceptedIndices ++ [.state (root last)]) :=
        (boot.writeAll_append (blocks.map .acceptedIndices) [.state (root last)]).symm
      refine Ends.modify ?_
      rw [done]
      exact .processed above present near nearest (by omega) between indexes

/-! ## The restart -/

/-- After its first part the restart has the last accepted block as head. -/
structure Restored (origin last decided : Block) (disk : Disk Block) (restored : Boot Block) : Prop where
  wrote : ∃ writes, restored = Boot.writeAll (writes.map .chain) ⟨disk, []⟩ ∧
    Safe (Database.Upholds origin last decided) writes disk.chain
  blocks : restored.disk.chain.blocks = disk.chain.blocks
  filled : restored.disk.chain.canonical.Filled (number origin) (number last)
  follows : restored.disk.chain.Follows origin last
  named : restored.disk.chain.headBlockHash = hash last

theorem Restored.disk_eq {origin last decided : Block} {disk : Disk Block} {restored : Boot Block}
    (holds : Restored origin last decided disk restored) : restored.disk = { disk with chain := restored.disk.chain } := by
  obtain ⟨writes, rfl, _⟩ := holds.wrote
  rw [Boot.writeAll, Disk.applyAll_chain]

theorem Restored.sound {origin last decided : Block} {disk : Disk Block} {restored : Boot Block}
    (holds : Restored origin last decided disk restored) (sound : disk.Sound origin last decided) :
    restored.disk.Sound origin last decided := by
  obtain ⟨writes, rfl, safe⟩ := holds.wrote
  exact (sound.along_chain safe).last

theorem newBlockChain_ends {origin last decided start : Block} {disk : Disk Block} (sound : disk.Sound origin last decided)
    (first : IsOrigin origin) (searches : disk.Searches last start) (based : Ancestor origin start) (below : Ancestor start decided)
    (commitInterval : Nat) :
    Ends ⟨disk, []⟩ (newBlockChain commitInterval) fun result after =>
      ∃ restored outcome, Restored origin last decided disk restored ∧
        Reprocessed start last (2 * commitInterval) restored outcome after ∧
        ∀ block, result = .ok block ↔ outcome = .ok () ∧ after.disk.hasState (root last) ∧ block = last := by
  obtain ⟨head, named, under, stored, _⟩ := sound.upholds.head
  have head_stored : disk.chain.blocks disk.chain.headBlockHash = some head := by
    rw [named]
    exact stored head (sound.rooted.trans under) (.refl head)
  have last_stored : disk.chain.blocks disk.lastAcceptedHash = some last := by
    rw [sound.persisted]
    exact sound.upholds.kept last sound.rooted sound.final
  unfold newBlockChain
  refine Ends.get_bind ?_
  dsimp only
  rw [head_stored, last_stored, Checked.need_some, Checked.need_some, Stateful.check_ok_bind, Stateful.check_ok_bind]
  refine Ends.bind (loadPreference_ends sound.upholds first sound.rooted named) (fun _ _ ended => ?_) fun _ restored loaded => ?_
  · cases ended.1
  obtain ⟨_, writes, same, safe, blocks, filled, follows, headed⟩ := loaded
  have holds : Restored origin last decided disk restored := ⟨⟨writes, same, safe⟩, blocks, filled, follows, headed⟩
  have searching : restored.disk.Searches last start := by
    rw [holds.disk_eq]
    exact searches
  refine Ends.bind (reprocessState_ends (holds.sound sound) searching based below follows (2 * commitInterval))
    (fun error after lost => ?_) fun _ after reprocessed => Ends.get_bind (Ends.check_bind (fun error missing => ?_) fun _ present => ?_)
  · exact ⟨restored, .error error, holds, lost, fun block => by simp⟩
  · have absent := (refuse_eq_error.mp missing).1
    exact ⟨restored, .ok (), holds, reprocessed,
      fun block => ⟨fun impossible => (nomatch impossible), fun ended => absurd ended.2.1 absent⟩⟩
  · have available := not_not.mp (refuse_eq_ok.mp present)
    refine ⟨restored, .ok (), holds, reprocessed, fun block => ⟨fun same => ?_, fun ended => ?_⟩⟩
    · cases same
      exact ⟨rfl, available, rfl⟩
    · rw [ended.2.2]
      rfl

/-- From a sound disk a restart recovers the state of the last accepted block exactly if the
disk is recoverable. -/
theorem Disk.Sound.restarts_iff {origin last decided : Block} {disk : Disk Block} (sound : disk.Sound origin last decided)
    (first : IsOrigin origin) (commitInterval : Nat) :
    ((perform (newBlockChain commitInterval) ⟨disk, []⟩).1 = .ok last ∧
      (perform (newBlockChain commitInterval) ⟨disk, []⟩).2.disk.hasState (root last)) ↔ disk.Recoverable commitInterval := by
  obtain ⟨start, searches, based, below⟩ := sound.exists_start
  have ends := newBlockChain_ends sound first searches based below commitInterval
  unfold Ends at ends
  obtain ⟨restored, outcome, holds, reprocessed, ended⟩ := ends
  rw [ended last]
  have same_state : restored.disk.hasState = disk.hasState := by rw [holds.disk_eq]
  constructor
  · rintro ⟨⟨ok, available, _⟩, _⟩
    rw [ok] at reprocessed
    refine ⟨last, start, sound.persisted.symm, searches, ?_⟩
    rw [← same_state]
    generalize (perform (newBlockChain commitInterval) ⟨disk, []⟩).2 = after at available reprocessed
    cases reprocessed with
    | upToDate present same =>
      rw [same]
      exact ⟨⟨last, .refl last, present, Nat.le_add_right _ _⟩, .inl present⟩
    | above above present near nearest high => exact ⟨⟨_, above, present, near⟩, .inl available⟩
    | processed above present near nearest low between indexes =>
      exact ⟨⟨_, above, present, near⟩, .inr fun block under high => nearest block under (by omega)⟩
  · rintro ⟨last', start', named, searches', ⟨state, above, present, near⟩, rest⟩
    obtain rfl : last' = last := hash_injective (named.trans sound.persisted)
    obtain rfl : start' = start := hash_injective (searches'.trans searches.symm)
    rw [← same_state] at present rest
    generalize (perform (newBlockChain commitInterval) ⟨disk, []⟩).2 = after at reprocessed
    suffices outcome = .ok () ∧ after.disk.hasState (root last') from ⟨⟨this.1, this.2, rfl⟩, this.2⟩
    cases reprocessed with
    | upToDate present same => exact ⟨rfl, present⟩
    | unavailable lost =>
      have := lost state above present
      omega
    | @above found above present near nearest high =>
      refine ⟨rfl, rest.elim id fun none_above => ?_⟩
      by_cases equal : number last' = number found
      · rwa [sound.final.unique (above.trans below) equal]
      · exact absurd present (none_above found above (by omega))
    | @processed found blocks above present near nearest low between indexes =>
      refine ⟨rfl, ?_⟩
      rw [Boot.writeAll_append]
      exact Function.update_self ..

end Snowside.Blockchain
