import Mathlib.Data.List.DropRight
import Mathlib.Data.List.Pairwise
import Mathlib.Tactic.Common
import Snowside.Numeral.BigEndian

/-! How a segment of a trie is fetched leaf by leaf: the task of a worker and the callback of its segment. -/

set_option autoImplicit false

namespace Snowside.Leaves

variable {Value Proof : Type}

/-- A key stands for the number that its bytes spell. -/
structure Leaf (Value : Type) where
  key : Nat
  val : Value
  deriving DecidableEq, Repr

/-- The leaves of a trie whose keys have one length, so that there are so many of them. -/
structure LeafTrie (size : Nat) (Value : Type) where
  leaves : List (Leaf Value)
  increasing : leaves.Pairwise fun first second => first.key < second.key
  bounded : ∀ leaf ∈ leaves, leaf.key < size

/-- IncrOne on the bytes, the last one first. -/
def incrOneReversed : List Nat → List Nat
  | [] => []
  | byte :: rest => if byte < 255 then (byte + 1) :: rest else 0 :: incrOneReversed rest

def incrOneBytes (bytes : List Nat) : List Nat := (incrOneReversed bytes.reverse).reverse

/-- IncrOne on a key. -/
def incrOne (size key : Nat) : Nat := (key + 1) % size

/-- A key after the end of the range is not of the segment; a segment without an end goes to the last key. -/
def within (limit : Option Nat) (key : Nat) : Bool := limit.all fun last => decide (key ≤ last)

def LeafTrie.range {size : Nat} (trie : LeafTrie size Value) (start : Nat) (limit : Option Nat) : List (Leaf Value) :=
  trie.leaves.filter fun leaf => decide (start ≤ leaf.key) && within limit leaf.key

/-- trie.VerifyRangeProof for the root of one trie, as it is documented: without a proof the leaves are all of the trie's,
with one they are all from the first key to the last leaf, or there is none from the first key on. -/
structure RangeProofs {size : Nat} (trie : LeafTrie size Value) (Proof : Type) where
  verifyRangeProof : Nat → List (Leaf Value) → Option Proof → Option Bool
  whole : ∀ first leaves more, verifyRangeProof first leaves none = some more → leaves = trie.leaves ∧ more = false
  empty : ∀ first proof more, verifyRangeProof first [] (some proof) = some more →
    (∀ leaf ∈ trie.leaves, leaf.key < first) ∧ more = false
  edges : ∀ first leaves proof more last, verifyRangeProof first leaves (some proof) = some more →
    leaves.getLast? = some last → leaves = trie.range first (some last.key) ∧
      (more = true ↔ ∃ leaf ∈ trie.leaves, last.key < leaf.key)

/-- A response of the server, and the end that createSegments gives the segment when its leaves have come. -/
structure Reply (Value Proof : Type) where
  leaves : List (Leaf Value)
  proof : Option Proof
  split : Option Nat

structure TrieSegment where
  start : Option Nat
  pos : Option Nat
  finish : Option Nat
  deriving DecidableEq, Repr

def TrieSegment.firstKey (segment : TrieSegment) : Option Nat := segment.pos.or segment.start

section

variable {size : Nat} {trie : LeafTrie size Value}

/-- The More flag of a response that is accepted. -/
def parseLeafsResponse (proofs : RangeProofs trie Proof) (requestSize : Nat) (start : Option Nat)
    (reply : Reply Value Proof) : Option Bool :=
  if requestSize < reply.leaves.length then none
  else if reply.leaves.isEmpty && reply.proof.isNone then none
  else proofs.verifyRangeProof (start.getD 0) reply.leaves reply.proof

/-- The keys past the end of the segment go. -/
def truncate (limit : Option Nat) (leaves : List (Leaf Value)) : List (Leaf Value) :=
  leaves.rdropWhile fun leaf => !within limit leaf.key

/-- trieSegment.OnLeafs: the position is the last key itself, and it is advanced in place; beside the segment, the last key
as it is left in memory. -/
def onLeafs (size : Nat) (segment : TrieSegment) (leaves : List (Leaf Value)) : TrieSegment × Option Nat :=
  match leaves.getLast? with
  | none => (segment, none)
  | some last =>
    let pos := incrOne size last.key
    ({ segment with pos := some pos }, some pos)

/-- What createSegments does to the segment that is being synced: an end after its position. It is not called at position
zero, where the estimate of the size is zero. -/
def createSegments (segment : TrieSegment) : Option Nat → Option TrieSegment
  | none => some segment
  | some last =>
    match segment.pos, segment.finish with
    | some pos, none => if 0 < pos ∧ pos < last then some { segment with finish := some last } else none
    | _, _ => none

/-- The loop of syncTask on the responses it accepts: the calls of OnLeafs before OnFinish, and the segment at the end. -/
def syncLoop (proofs : RangeProofs trie Proof) (requestSize : Nat) : List (Reply Value Proof) → Option Nat → TrieSegment →
    Option (List (List (Leaf Value)) × TrieSegment)
  | [], _, _ => none
  | reply :: rest, start, segment =>
    match parseLeafsResponse proofs requestSize start reply with
    | none => none
    | some more =>
      let kept := truncate segment.finish reply.leaves
      let done := decide (kept.length < reply.leaves.length)
      let (advanced, lastKey) := onLeafs size segment kept
      match createSegments advanced reply.split with
      | none => none
      | some split =>
        if done || !more then if rest.isEmpty then some ([kept], split) else none
        else
          match lastKey with
          | none => none
          | some lastKey =>
            -- The same bytes again: the position moves with the start.
            let next := incrOne size lastKey
            (syncLoop proofs requestSize rest (some next) { split with pos := some next }).map fun (calls, final) =>
              (kept :: calls, final)

/-- syncTask, for a task that is not skipped. -/
def syncTask (proofs : RangeProofs trie Proof) (requestSize : Nat) (replies : List (Reply Value Proof)) (segment : TrieSegment) :
    Option (List (List (Leaf Value)) × TrieSegment) :=
  syncLoop proofs requestSize replies segment.firstKey segment

/-! ## Keys and ranges -/

open Numeral in
/-- On the bytes of a key IncrOne adds one, and goes from the last key to the first. -/
theorem value_incrOneBytes {bytes : List Nat} (small : ∀ byte ∈ bytes, byte < 256) :
    value 256 (incrOneBytes bytes) = incrOne (256 ^ bytes.length) (value 256 bytes) := by
  have reversed (digits : List Nat) (small : ∀ digit ∈ digits, digit < 256) :
      Nat.ofDigits 256 (incrOneReversed digits) = (Nat.ofDigits 256 digits + 1) % 256 ^ digits.length := by
    induction digits with
    | nil => rfl
    | cons digit rest ih =>
      have below : Nat.ofDigits 256 rest < 256 ^ rest.length :=
        Nat.ofDigits_lt_base_pow_length (by decide) fun other member => small other (List.mem_cons_of_mem _ member)
      have here := small digit List.mem_cons_self
      unfold incrOneReversed
      rw [List.length_cons, Nat.ofDigits_cons, pow_succ]
      by_cases more : digit < 255
      · rw [if_pos more, Nat.ofDigits_cons, Nat.mod_eq_of_lt (by omega)]
        omega
      · have full : digit = 255 := by omega
        rw [if_neg more, Nat.ofDigits_cons, ih fun other member => small other (List.mem_cons_of_mem _ member), full]
        have carry : 255 + 256 * Nat.ofDigits 256 rest + 1 = 256 * (Nat.ofDigits 256 rest + 1) := by ring
        rw [Nat.zero_add, carry, Nat.mul_comm (256 ^ rest.length), Nat.mul_mod_mul_left]
  have shown := reversed bytes.reverse fun byte member => small byte (List.mem_reverse.mp member)
  unfold value incrOneBytes incrOne
  rw [List.reverse_reverse, shown, List.length_reverse]

/-- What comes up to a key, and what comes after it. -/
theorem filter_append_filter (last : Nat) {leaves : List (Leaf Value)}
    (increasing : leaves.Pairwise fun first second => first.key < second.key) :
    leaves.filter (fun leaf => decide (leaf.key ≤ last)) ++ leaves.filter (fun leaf => decide (last < leaf.key)) = leaves := by
  induction leaves with
  | nil => rfl
  | cons leaf rest ih =>
    obtain ⟨after, increasing⟩ := List.pairwise_cons.mp increasing
    by_cases early : leaf.key ≤ last
    · rw [List.filter_cons_of_pos (by simpa using early), List.filter_cons_of_neg (by simpa using early), List.cons_append,
        ih increasing]
    · have none_before : rest.filter (fun leaf => decide (leaf.key ≤ last)) = [] := by
        refine List.filter_eq_nil_iff.mpr fun other member => ?_
        have := after other member
        simp only [decide_eq_true_eq]
        omega
      have all_after : rest.filter (fun leaf => decide (last < leaf.key)) = rest := by
        refine List.filter_eq_self.mpr fun other member => ?_
        have := after other member
        simp only [decide_eq_true_eq]
        omega
      rw [List.filter_cons_of_neg (by simpa using early), none_before, List.filter_cons_of_pos (by simpa using early),
        all_after, List.nil_append]

theorem mem_range {start : Nat} {limit : Option Nat} {leaf : Leaf Value} :
    leaf ∈ trie.range start limit ↔ leaf ∈ trie.leaves ∧ start ≤ leaf.key ∧ within limit leaf.key = true := by
  simp [LeafTrie.range]

theorem range_increasing (trie : LeafTrie size Value) (start : Nat) (limit : Option Nat) :
    (trie.range start limit).Pairwise fun first second => first.key < second.key :=
  trie.increasing.sublist List.filter_sublist

theorem within_some {last key : Nat} : within (some last) key = true ↔ key ≤ last := by simp [within]

theorem within_of_le {limit : Option Nat} {key other : Nat} (inside : within limit other = true) (below : key ≤ other) :
    within limit key = true := by
  cases limit with
  | none => rfl
  | some last =>
    rw [within_some] at inside ⊢
    omega

/-- A range up to a key of it, and the rest. -/
theorem range_append {start last : Nat} {limit : Option Nat} (later : start ≤ last) (inside : within limit last = true) :
    trie.range start (some last) ++ trie.range (last + 1) limit = trie.range start limit := by
  have whole := filter_append_filter last (range_increasing trie start limit)
  rw [← whole]
  unfold LeafTrie.range
  rw [List.filter_filter, List.filter_filter]
  refine congrArg₂ (· ++ ·) (List.filter_congr fun leaf _ => ?_) (List.filter_congr fun leaf _ => ?_)
  · by_cases early : leaf.key ≤ last
    · simp [within_some.mpr early, within_of_le inside early, early]
    · have outside : within (some last) leaf.key = false := by simpa [within] using early
      simp [outside, early]
  · by_cases late : last < leaf.key
    · have from_start : start ≤ leaf.key := by omega
      have from_next : last + 1 ≤ leaf.key := late
      simp [late, from_start, from_next]
    · have not_next : ¬last + 1 ≤ leaf.key := late
      simp [late, not_next]

theorem truncate_eq_filter (limit : Option Nat) {leaves : List (Leaf Value)}
    (increasing : leaves.Pairwise fun first second => first.key < second.key) :
    truncate limit leaves = leaves.filter fun leaf => within limit leaf.key := by
  unfold truncate
  induction leaves using List.reverseRecOn with
  | nil => rfl
  | append_singleton rest leaf ih =>
    obtain ⟨before, -, ordered⟩ := List.pairwise_append.mp increasing
    cases inside : within limit leaf.key with
    | true =>
      have all_inside : rest.filter (fun leaf => within limit leaf.key) = rest := by
        refine List.filter_eq_self.mpr fun other member => ?_
        exact within_of_le inside (Nat.le_of_lt (ordered other member leaf (List.mem_singleton_self leaf)))
      rw [List.rdropWhile_concat_neg _ _ _ (by simp [inside]), List.filter_append, all_inside,
        List.filter_cons_of_pos (by simpa using inside), List.filter_nil]
    | false =>
      rw [List.rdropWhile_concat_pos _ _ _ (by simp [inside]), ih before, List.filter_append,
        List.filter_cons_of_neg (by simp [inside]), List.filter_nil, List.append_nil]

/-! ## One response -/

variable {proofs : RangeProofs trie Proof} {requestSize : Nat}

/-- The three kinds of responses that are accepted. -/
theorem parse_cases {start : Option Nat} {reply : Reply Value Proof} {more : Bool}
    (parsed : parseLeafsResponse proofs requestSize start reply = some more) :
    (reply.proof = none ∧ reply.leaves = trie.leaves ∧ more = false) ∨
    (reply.proof ≠ none ∧ reply.leaves = [] ∧ (∀ leaf ∈ trie.leaves, leaf.key < start.getD 0) ∧ more = false) ∨
    (reply.proof ≠ none ∧ ∃ last, reply.leaves.getLast? = some last ∧
      reply.leaves = trie.range (start.getD 0) (some last.key) ∧ (more = true ↔ ∃ leaf ∈ trie.leaves, last.key < leaf.key)) := by
  unfold parseLeafsResponse at parsed
  split at parsed
  · cases parsed
  · split at parsed
    · cases parsed
    · cases proof : reply.proof with
      | none =>
        rw [proof] at parsed
        obtain ⟨whole, ended⟩ := proofs.whole _ _ _ parsed
        exact .inl ⟨rfl, whole, ended⟩
      | some edges =>
        rw [proof] at parsed
        refine .inr ?_
        cases final : reply.leaves.getLast? with
        | none =>
          have nothing := List.getLast?_eq_none_iff.mp final
          rw [nothing] at parsed
          obtain ⟨before, ended⟩ := proofs.empty _ _ _ parsed
          exact .inl ⟨Option.some_ne_none edges, nothing, before, ended⟩
        | some last =>
          obtain ⟨between, further⟩ := proofs.edges _ _ _ _ last parsed final
          exact .inr ⟨Option.some_ne_none edges, last, rfl, between, further⟩

theorem parse_increasing {start : Option Nat} {reply : Reply Value Proof} {more : Bool}
    (parsed : parseLeafsResponse proofs requestSize start reply = some more) :
    reply.leaves.Pairwise fun first second => first.key < second.key := by
  rcases parse_cases parsed with ⟨-, whole, -⟩ | ⟨-, nothing, -, -⟩ | ⟨-, last, -, between, -⟩
  · rw [whole]
    exact trie.increasing
  · rw [nothing]
    exact List.Pairwise.nil
  · rw [between]
    exact range_increasing _ _ _

/-- An increasing list ends in its largest key. -/
theorem le_getLast {leaves : List (Leaf Value)} (increasing : leaves.Pairwise fun first second => first.key < second.key)
    {last : Leaf Value} (final : leaves.getLast? = some last) : ∀ leaf ∈ leaves, leaf.key ≤ last.key := by
  obtain ⟨before, rfl⟩ := List.getLast?_eq_some_iff.mp final
  intro leaf member
  rcases List.mem_append.mp member with early | here
  · exact Nat.le_of_lt ((List.pairwise_append.mp increasing).2.2 leaf early last (List.mem_singleton_self last))
  · rw [List.mem_singleton.mp here]

theorem eq_of_key {leaves : List (Leaf Value)} (increasing : leaves.Pairwise fun first second => first.key < second.key)
    {one other : Leaf Value} (here : one ∈ leaves) (there : other ∈ leaves) (same : one.key = other.key) : one = other := by
  induction leaves with
  | nil => cases here
  | cons leaf rest ih =>
    obtain ⟨after, increasing⟩ := List.pairwise_cons.mp increasing
    rcases List.mem_cons.mp here with first | here <;> rcases List.mem_cons.mp there with second | there
    · rw [first, second]
    · have := after other there
      rw [first] at same
      omega
    · have := after one here
      rw [second] at same
      omega
    · exact ih increasing here there

theorem createSegments_finish {segment split : TrieSegment} {last : Option Nat}
    (created : createSegments segment last = some split) :
    (last = none ∧ split = segment) ∨
      ∃ finish pos, last = some finish ∧ segment.pos = some pos ∧ segment.finish = none ∧ 0 < pos ∧ pos < finish ∧
        split = { segment with finish := some finish } := by
  cases last with
  | none =>
    cases created
    exact .inl ⟨rfl, rfl⟩
  | some finish =>
    refine .inr ⟨finish, ?_⟩
    cases positioned : segment.pos with
    | none => simp [createSegments, positioned] at created
    | some pos =>
      cases unlimited : segment.finish with
      | some before => simp [createSegments, positioned, unlimited] at created
      | none =>
        simp only [createSegments, positioned, unlimited] at created
        split at created
        · rename_i bounds
          cases created
          exact ⟨pos, rfl, rfl, rfl, bounds.1, bounds.2, rfl⟩
        · cases created

theorem onLeafs_finish (segment : TrieSegment) (leaves : List (Leaf Value)) :
    (onLeafs size segment leaves).1.finish = segment.finish := by
  unfold onLeafs
  split <;> rfl

theorem onLeafs_pos {segment : TrieSegment} {leaves : List (Leaf Value)} {last : Leaf Value}
    (final : leaves.getLast? = some last) : (onLeafs size segment leaves).1.pos = some (incrOne size last.key) := by
  unfold onLeafs
  rw [final]

/-- A position that is not zero is past its key. -/
theorem lt_incrOne {key : Nat} (inside : key < size) (positive : 0 < incrOne size key) : key < incrOne size key := by
  unfold incrOne at positive ⊢
  by_cases full : key + 1 = size
  · rw [full, Nat.mod_self] at positive
    omega
  · rw [Nat.mod_eq_of_lt (by omega)]
    omega

/-- The leaves that are kept are those of the segment, as it is when they have been handed over. -/
theorem kept_eq_filter {start : Option Nat} {reply : Reply Value Proof} {more : Bool} {segment split : TrieSegment}
    (parsed : parseLeafsResponse proofs requestSize start reply = some more)
    (created : createSegments (onLeafs size segment (truncate segment.finish reply.leaves)).1 reply.split = some split) :
    truncate segment.finish reply.leaves = reply.leaves.filter fun leaf => within split.finish leaf.key := by
  have increasing := parse_increasing parsed
  rw [truncate_eq_filter _ increasing] at created ⊢
  obtain ⟨-, rfl⟩ | ⟨finish, pos, -, positioned, unlimited, positive, after, rfl⟩ := createSegments_finish created
  · rw [onLeafs_finish]
  · rw [onLeafs_finish] at unlimited
    rw [unlimited] at positioned ⊢
    have all_kept : reply.leaves.filter (fun leaf => within none leaf.key) = reply.leaves :=
      List.filter_eq_self.mpr fun _ _ => rfl
    rw [all_kept] at positioned ⊢
    symm
    refine List.filter_eq_self.mpr fun leaf member => ?_
    rw [within_some]
    cases final : reply.leaves.getLast? with
    | none =>
      rw [List.getLast?_eq_none_iff.mp final] at member
      cases member
    | some last =>
      rw [onLeafs_pos final] at positioned
      cases positioned
      have bounded : last.key < size := by
        have there := List.mem_of_getLast? final
        rcases parse_cases parsed with ⟨-, whole, -⟩ | ⟨-, nothing, -, -⟩ | ⟨-, other, -, between, -⟩
        · exact trie.bounded last (whole ▸ there)
        · rw [nothing] at there
          cases there
        · exact trie.bounded last (mem_range.mp (between ▸ there)).1
      have past := lt_incrOne bounded positive
      have below := le_getLast increasing final leaf member
      omega

/-! ## The loop -/

/-- What one turn of the loop does. -/
theorem syncLoop_cons {reply : Reply Value Proof} {rest : List (Reply Value Proof)} {start : Option Nat}
    {segment final : TrieSegment} {calls : List (List (Leaf Value))}
    (ran : syncLoop proofs requestSize (reply :: rest) start segment = some (calls, final)) :
    ∃ more split, parseLeafsResponse proofs requestSize start reply = some more ∧
      createSegments (onLeafs size segment (truncate segment.finish reply.leaves)).1 reply.split = some split ∧
      ((((truncate segment.finish reply.leaves).length < reply.leaves.length ∨ more = false) ∧ rest = [] ∧
          calls = [truncate segment.finish reply.leaves] ∧ final = split) ∨
        (truncate segment.finish reply.leaves = reply.leaves ∧ more = true ∧ ∃ last further,
          reply.leaves.getLast? = some last ∧ calls = reply.leaves :: further ∧
          syncLoop proofs requestSize rest (some (incrOne size (incrOne size last.key)))
            { split with pos := some (incrOne size (incrOne size last.key)) } = some (further, final))) := by
  unfold syncLoop at ran
  cases parsed : parseLeafsResponse proofs requestSize start reply with
  | none =>
    rw [parsed] at ran
    cases ran
  | some more =>
    simp only [parsed] at ran
    split at ran
    · cases ran
    · rename_i split created
      refine ⟨more, split, rfl, created, ?_⟩
      split at ran
      · rename_i ends
        simp only [Bool.or_eq_true, decide_eq_true_eq, Bool.not_eq_true'] at ends
        split at ran
        · rename_i last
          cases ran
          exact .inl ⟨ends, List.isEmpty_iff.mp last, rfl, rfl⟩
        · cases ran
      · rename_i continues
        simp only [Bool.or_eq_true, decide_eq_true_eq, Bool.not_eq_true', not_or, Bool.not_eq_false] at continues
        obtain ⟨long, further⟩ := continues
        have same : truncate segment.finish reply.leaves = reply.leaves :=
          (List.rdropWhile_prefix _ reply.leaves).eq_of_length_le (Nat.not_lt.mp long)
        refine .inr ⟨same, further, ?_⟩
        rw [same] at ran
        unfold onLeafs at ran
        cases final_leaf : reply.leaves.getLast? with
        | none =>
          rw [final_leaf] at ran
          cases ran
        | some last =>
          rw [final_leaf] at ran
          obtain ⟨⟨later, ended⟩, onwards, pair⟩ := Option.map_eq_some_iff.mp ran
          cases pair
          exact ⟨last, later, rfl, rfl, onwards⟩

/-- An end that the segment has stays. -/
theorem syncLoop_finish {replies : List (Reply Value Proof)} {start : Option Nat} {segment final : TrieSegment}
    {calls : List (List (Leaf Value))} {last : Nat} (limited : segment.finish = some last)
    (ran : syncLoop proofs requestSize replies start segment = some (calls, final)) : final.finish = some last := by
  induction replies generalizing start segment calls with
  | nil => cases ran
  | cons reply rest ih =>
    obtain ⟨more, split, -, created, turns⟩ := syncLoop_cons ran
    have same : split.finish = some last := by
      obtain ⟨-, rfl⟩ | ⟨-, -, -, -, unlimited, -⟩ := createSegments_finish created
      · rw [onLeafs_finish]
        exact limited
      · rw [onLeafs_finish, limited] at unlimited
        cases unlimited
    rcases turns with ⟨-, -, -, rfl⟩ | ⟨-, -, last, further, -, -, onwards⟩
    · exact same
    · refine ih ?_ onwards
      exact same

/-- No leaf of the segment comes right after the last one of a response that is followed by another. -/
def Gaps (trie : LeafTrie size Value) (limit : Option Nat) (replies : List (Reply Value Proof)) : Prop :=
  ∀ reply ∈ replies.dropLast, ∀ last, reply.leaves.getLast? = some last →
    last.key + 2 < size ∧ ∀ leaf ∈ trie.leaves, leaf.key = last.key + 1 → within limit leaf.key = false

/-- A response without a proof is the only one, and the segment has no leaf before its start. -/
def Proven (trie : LeafTrie size Value) (start : Nat) (limit : Option Nat) (replies : List (Reply Value Proof)) : Prop :=
  ∀ reply ∈ replies, reply.proof = none →
    replies.length = 1 ∧ ∀ leaf ∈ trie.leaves, leaf.key < start → within limit leaf.key = false

/-- A key that holds no leaf of the range may be passed over. -/
theorem range_passed {key : Nat} {limit : Option Nat}
    (gap : ∀ leaf ∈ trie.leaves, leaf.key = key + 1 → within limit leaf.key = false) :
    trie.range (key + 1) limit = trie.range (key + 2) limit := by
  refine List.filter_congr fun leaf member => ?_
  by_cases adjacent : leaf.key = key + 1
  · rw [gap leaf member adjacent, Bool.and_false, Bool.and_false]
  · have same_side : (key + 1 ≤ leaf.key) ↔ (key + 2 ≤ leaf.key) := by omega
    simp [same_side]

theorem incrOne_twice {key : Nat} (room : key + 2 < size) : incrOne size (incrOne size key) = key + 2 := by
  unfold incrOne
  rw [Nat.mod_eq_of_lt (show key + 1 < size by omega), Nat.mod_eq_of_lt (show key + 1 + 1 < size by omega)]

/-- An end that the segment gets is past what has been fetched. -/
theorem within_finish {replies : List (Reply Value Proof)} {start : Option Nat} {segment final : TrieSegment}
    {calls : List (List (Leaf Value))} {bound : Nat} {limit : Option Nat}
    (ran : syncLoop proofs requestSize replies start segment = some (calls, final)) (gaps : Gaps trie limit replies)
    (unlimited : segment.finish = none) (from_start : bound ≤ start.getD 0)
    (from_pos : ∀ pos, segment.pos = some pos → bound ≤ pos) (fetched : ∃ leaf ∈ trie.leaves, bound ≤ leaf.key) :
    within final.finish bound = true := by
  induction replies generalizing start segment calls with
  | nil => cases ran
  | cons reply rest ih =>
    obtain ⟨more, split, parsed, created, turns⟩ := syncLoop_cons ran
    have whole : truncate segment.finish reply.leaves = reply.leaves := by
      rw [unlimited, truncate_eq_filter _ (parse_increasing parsed)]
      exact List.filter_eq_self.mpr fun _ _ => rfl
    have last_late : ∀ last, reply.leaves.getLast? = some last → bound ≤ last.key ∧ last.key < size := by
      intro last final_leaf
      have there := List.mem_of_getLast? final_leaf
      rcases parse_cases parsed with ⟨-, all, -⟩ | ⟨-, nothing, -, -⟩ | ⟨-, other, -, between, -⟩
      · obtain ⟨leaf, member, late⟩ := fetched
        have below := le_getLast (parse_increasing parsed) final_leaf leaf (all ▸ member)
        exact ⟨by omega, trie.bounded last (all ▸ there)⟩
      · rw [nothing] at there
        cases there
      · obtain ⟨member, late, -⟩ := mem_range.mp (between ▸ there)
        exact ⟨by omega, trie.bounded last member⟩
    rw [whole] at created turns
    obtain ⟨-, same⟩ | ⟨finish, pos, -, positioned, -, positive, after, same⟩ := createSegments_finish created
    · have still : split.finish = none := by rw [same, onLeafs_finish, unlimited]
      rcases turns with ⟨-, -, -, rfl⟩ | ⟨-, -, last, further, final_leaf, -, onwards⟩
      · rw [still]
        rfl
      · have some_left : rest ≠ [] := by
          intro empty
          rw [empty] at onwards
          cases onwards
        have here : reply ∈ (reply :: rest).dropLast := by
          rw [List.dropLast_cons_of_ne_nil some_left]
          exact List.mem_cons_self
        have next := incrOne_twice (gaps reply here last final_leaf).1
        have late := (last_late last final_leaf).1
        have later : Gaps trie limit rest := by
          intro other member
          refine gaps other ?_
          rw [List.dropLast_cons_of_ne_nil some_left]
          exact List.mem_cons_of_mem _ member
        rw [next] at onwards
        refine ih onwards later still (show bound ≤ last.key + 2 by omega) ?_
        intro pos positioned
        cases positioned
        omega
    · have ends : split.finish = some finish := by rw [same]
      have reached : final.finish = some finish := by
        rcases turns with ⟨-, -, -, rfl⟩ | ⟨-, -, last, further, final_leaf, -, onwards⟩
        · exact ends
        · refine syncLoop_finish ?_ onwards
          exact ends
      rw [reached, within_some]
      cases final_leaf : reply.leaves.getLast? with
      | none =>
        rw [List.getLast?_eq_none_iff.mp final_leaf] at positioned
        have := from_pos pos positioned
        omega
      | some last =>
        rw [onLeafs_pos final_leaf] at positioned
        cases positioned
        obtain ⟨late, bounded⟩ := last_late last final_leaf
        have past := lt_incrOne bounded positive
        omega

/-- The last response brings what is left of the segment, unless it is without a proof and has leaves before the start. -/
theorem last_reply {start : Option Nat} {reply : Reply Value Proof} {more : Bool} {segment split : TrieSegment}
    (parsed : parseLeafsResponse proofs requestSize start reply = some more)
    (created : createSegments (onLeafs size segment (truncate segment.finish reply.leaves)).1 reply.split = some split)
    (ends : (truncate segment.finish reply.leaves).length < reply.leaves.length ∨ more = false) :
    truncate segment.finish reply.leaves = trie.range (start.getD 0) split.finish ↔
      (reply.proof = none → ∀ leaf ∈ trie.leaves, leaf.key < start.getD 0 → within split.finish leaf.key = false) := by
  have kept := kept_eq_filter parsed created
  rw [kept] at ends ⊢
  rcases parse_cases parsed with ⟨unproven, whole, -⟩ | ⟨proven, nothing, before, -⟩ | ⟨proven, last, -, between, further⟩
  · rw [whole]
    constructor
    · intro same _ leaf member early
      by_contra inside
      have there : leaf ∈ trie.leaves.filter fun leaf => within split.finish leaf.key :=
        List.mem_filter.mpr ⟨member, Bool.not_eq_false _ ▸ inside⟩
      rw [same] at there
      have := (mem_range.mp there).2.1
      omega
    · intro outside
      refine List.filter_congr fun leaf member => ?_
      by_cases early : leaf.key < start.getD 0
      · rw [outside unproven leaf member early, Bool.and_false]
      · have late : start.getD 0 ≤ leaf.key := Nat.not_lt.mp early
        simp [late]
  · refine iff_of_true ?_ (fun unproven => absurd unproven proven)
    rw [nothing, List.filter_nil]
    symm
    refine List.filter_eq_nil_iff.mpr fun leaf member => ?_
    have := before leaf member
    have early : ¬start.getD 0 ≤ leaf.key := by omega
    simp [early]
  · refine iff_of_true ?_ (fun unproven => absurd unproven proven)
    -- Nothing of the segment comes after the last leaf: either it is past the end, or the trie has no more.
    have up_to_last : ∀ leaf ∈ trie.leaves, within split.finish leaf.key = true → leaf.key ≤ last.key := by
      intro leaf member inside
      by_contra beyond
      have more_leaves : more = true := further.mpr ⟨leaf, member, Nat.not_le.mp beyond⟩
      have dropped := ends.resolve_right (by rw [more_leaves]; decide)
      obtain ⟨other, there, outside⟩ := List.length_filter_lt_length_iff_exists.mp dropped
      rw [between] at there
      have below := within_some.mp (mem_range.mp there).2.2
      exact outside (within_of_le inside (by omega))
    rw [between]
    unfold LeafTrie.range
    rw [List.filter_filter]
    refine List.filter_congr fun leaf member => ?_
    cases inside : within split.finish leaf.key with
    | false => simp
    | true =>
      have below := within_some.mpr (up_to_last leaf member inside)
      simp [below]

/-- When a response is followed by the rest of the range from the next key on, no key was passed over on the way. -/
theorem gap_of_delivered {replies : List (Reply Value Proof)} {segment final : TrieSegment} {last : Leaf Value}
    {further : List (List (Leaf Value))}
    (ran : syncLoop proofs requestSize replies (some (incrOne size (incrOne size last.key))) segment = some (further, final))
    (fetched : last ∈ trie.leaves) (beyond : ∃ leaf ∈ trie.leaves, last.key < leaf.key)
    (inside : within segment.finish last.key = true)
    (delivered : further.flatten = trie.range (last.key + 1) final.finish) :
    last.key + 2 < size ∧ ∀ leaf ∈ trie.leaves, leaf.key = last.key + 1 → within final.finish leaf.key = false := by
  cases replies with
  | nil => cases ran
  | cons reply rest =>
    obtain ⟨more, split, parsed, created, turns⟩ := syncLoop_cons ran
    have increasing := parse_increasing parsed
    have kept := truncate_eq_filter segment.finish increasing
    obtain ⟨later, calls⟩ : ∃ later, further = truncate segment.finish reply.leaves :: later ∧
        (truncate segment.finish reply.leaves = [] → later = []) := by
      rcases turns with ⟨-, -, rfl, -⟩ | ⟨same, -, other, later, final_leaf, rfl, -⟩
      · exact ⟨[], rfl, fun _ => rfl⟩
      · rw [same]
        refine ⟨later, rfl, fun nothing => ?_⟩
        rw [nothing] at final_leaf
        cases final_leaf
    obtain ⟨rfl, ended⟩ := calls
    rw [kept] at delivered ended
    rw [List.flatten_cons] at delivered
    have above : ∀ leaf ∈ reply.leaves, leaf.key ≤ last.key → False := by
      intro leaf member early
      have handed : leaf ∈ trie.range (last.key + 1) final.finish :=
        delivered ▸ List.mem_append_left _ (List.mem_filter.mpr ⟨member, within_of_le inside early⟩)
      have := (mem_range.mp handed).2.1
      omega
    obtain ⟨next, there, after⟩ := beyond
    have bounded := trie.bounded next there
    have room : last.key + 2 < size := by
      by_contra full
      have wraps : incrOne size (incrOne size last.key) = 0 := by
        unfold incrOne
        rw [Nat.mod_eq_of_lt (show last.key + 1 < size by omega), show last.key + 1 + 1 = size by omega, Nat.mod_self]
      rw [wraps] at parsed
      rcases parse_cases parsed with ⟨-, whole, -⟩ | ⟨-, -, before, -⟩ | ⟨-, other, final_leaf, between, -⟩
      · exact above last (whole ▸ fetched) (Nat.le_refl _)
      · have := before last fetched
        simp only [Option.getD_some] at this
        omega
      · by_cases early : other.key ≤ last.key
        · exact above other (List.mem_of_getLast? final_leaf) early
        · have member : last ∈ reply.leaves := by
            rw [between]
            exact mem_range.mpr ⟨fetched, Nat.zero_le _, within_some.mpr (by omega)⟩
          exact above last member (Nat.le_refl _)
    refine ⟨room, fun leaf member adjacent => ?_⟩
    by_contra inside_leaf
    have wanted : leaf ∈ trie.range (last.key + 1) final.finish :=
      mem_range.mpr ⟨member, by omega, Bool.not_eq_false _ ▸ inside_leaf⟩
    rw [incrOne_twice room] at parsed
    rcases parse_cases parsed with ⟨-, whole, -⟩ | ⟨-, nothing, -, -⟩ | ⟨-, other, -, between, -⟩
    · exact above last (whole ▸ fetched) (Nat.le_refl _)
    · rw [nothing] at delivered ended
      rw [← delivered, ended rfl] at wanted
      cases wanted
    · -- The first leaf that is handed over is the least of them, and comes after the one passed over.
      cases first : reply.leaves.filter fun leaf => within segment.finish leaf.key with
      | nil =>
        rw [first] at delivered
        rw [← delivered, ended first] at wanted
        cases wanted
      | cons head tail =>
        have handed : head ∈ reply.leaves :=
          (List.mem_filter.mp (first ▸ List.mem_cons_self : head ∈ reply.leaves.filter _)).1
        have late := (mem_range.mp (between ▸ handed)).2.1
        simp only [Option.getD_some] at late
        rw [first, List.cons_append] at delivered
        have least := range_increasing trie (last.key + 1) final.finish
        rw [← delivered] at least wanted
        rcases List.mem_cons.mp wanted with same | behind
        · rw [same] at adjacent
          omega
        · have := (List.pairwise_cons.mp least).1 leaf behind
          omega

theorem gaps_cons {reply : Reply Value Proof} {rest : List (Reply Value Proof)} {limit : Option Nat} {last : Leaf Value}
    (some_left : rest ≠ []) (final_leaf : reply.leaves.getLast? = some last) :
    Gaps trie limit (reply :: rest) ↔
      (last.key + 2 < size ∧ ∀ leaf ∈ trie.leaves, leaf.key = last.key + 1 → within limit leaf.key = false) ∧
        Gaps trie limit rest := by
  unfold Gaps
  rw [List.dropLast_cons_of_ne_nil some_left, List.forall_mem_cons]
  refine and_congr_left fun _ => ?_
  simp [final_leaf]

/-- The calls of a run bring the leaves of the segment from the start on, each once and in order, exactly when no leaf is
passed over between two responses and no response without a proof brings leaves from before the start. -/
theorem delivered_iff {replies : List (Reply Value Proof)} {start : Option Nat} {segment final : TrieSegment}
    {calls : List (List (Leaf Value))}
    (ran : syncLoop proofs requestSize replies start segment = some (calls, final)) :
    calls.flatten = trie.range (start.getD 0) final.finish ↔
      Gaps trie final.finish replies ∧ Proven trie (start.getD 0) final.finish replies := by
  induction replies generalizing start segment calls with
  | nil => cases ran
  | cons reply rest ih =>
    obtain ⟨more, split, parsed, created, turns⟩ := syncLoop_cons ran
    rcases turns with ⟨ends, rfl, rfl, rfl⟩ | ⟨same, further, last, later, final_leaf, rfl, onwards⟩
    · rw [List.flatten_singleton, last_reply parsed created ends]
      refine ⟨fun outside => ⟨fun other member => (by cases member), ?_⟩, fun met => ?_⟩
      · intro other member unproven
        rw [List.mem_singleton.mp member] at unproven
        exact ⟨rfl, outside unproven⟩
      · intro unproven
        exact (met.2 reply List.mem_cons_self unproven).2
    · have some_left : rest ≠ [] := by
        intro empty
        rw [empty] at onwards
        cases onwards
      have kept := kept_eq_filter parsed created
      rw [same] at kept
      -- More leaves follow, so the response has a proof and is the range up to its last leaf.
      obtain ⟨proven, between, beyond⟩ : reply.proof ≠ none ∧ reply.leaves = trie.range (start.getD 0) (some last.key) ∧
          ∃ leaf ∈ trie.leaves, last.key < leaf.key := by
        rcases parse_cases parsed with ⟨-, -, ended⟩ | ⟨-, -, -, ended⟩ | ⟨proven, other, other_final, between, beyond⟩
        · rw [further] at ended
          cases ended
        · rw [further] at ended
          cases ended
        · rw [final_leaf] at other_final
          cases other_final
          exact ⟨proven, between, beyond.mp further⟩
      have there := List.mem_of_getLast? final_leaf
      have kept_last : last ∈ reply.leaves.filter fun leaf => within split.finish leaf.key := kept ▸ there
      have inside : within split.finish last.key = true := (List.mem_filter.mp kept_last).2
      obtain ⟨fetched, from_start, -⟩ := mem_range.mp (between ▸ there)
      rw [List.flatten_cons, gaps_cons some_left final_leaf]
      constructor
      · intro delivered
        have covered : within final.finish last.key = true := by
          have handed : last ∈ trie.range (start.getD 0) final.finish := delivered ▸ List.mem_append_left _ there
          exact (mem_range.mp handed).2.2
        have rest_delivered : later.flatten = trie.range (last.key + 1) final.finish := by
          rw [← range_append from_start covered, ← between] at delivered
          exact List.append_cancel_left delivered
        have gap := gap_of_delivered onwards fetched beyond inside rest_delivered
        have next_delivered : later.flatten = trie.range (last.key + 2) final.finish :=
          rest_delivered.trans (range_passed gap.2)
        have next := incrOne_twice gap.1
        rw [next] at onwards
        obtain ⟨gaps, rest_proven⟩ := (ih onwards).mp next_delivered
        refine ⟨⟨gap, gaps⟩, fun other member unproven => ?_⟩
        rcases List.mem_cons.mp member with here | behind
        · rw [here] at unproven
          exact absurd unproven proven
        · have outside := (rest_proven other behind unproven).2 last fetched (show last.key < last.key + 2 by omega)
          rw [covered] at outside
          cases outside
      · intro met
        obtain ⟨⟨gap, gaps⟩, all_proven⟩ := met
        have next := incrOne_twice gap.1
        rw [next] at onwards
        have covered : within final.finish last.key = true := by
          cases limited : split.finish with
          | none =>
            refine within_finish onwards gaps limited (show last.key ≤ last.key + 2 by omega) ?_ ⟨last, fetched, Nat.le_refl _⟩
            intro pos positioned
            cases positioned
            omega
          | some finish =>
            have kept_finish : final.finish = some finish := by
              refine syncLoop_finish ?_ onwards
              exact limited
            rw [kept_finish, ← limited]
            exact inside
        have rest_delivered : later.flatten = trie.range (last.key + 2) final.finish := by
          refine (ih onwards).mpr ⟨gaps, fun other member unproven => ?_⟩
          have short := (all_proven other (List.mem_cons_of_mem _ member) unproven).1
          have long := List.length_pos_of_ne_nil some_left
          rw [List.length_cons] at short
          omega
        rw [rest_delivered, ← range_passed gap.2, between, range_append from_start covered]

/-- syncTask delivers the segment, as its end is when it finishes, exactly when no leaf of it stands right after the last
one of a response that is followed by another, and a response without a proof is the only one and brings nothing of the
segment from before its first key. -/
theorem syncTask_delivers_iff (proofs : RangeProofs trie Proof) (requestSize : Nat) (replies : List (Reply Value Proof))
    (segment final : TrieSegment) (calls : List (List (Leaf Value)))
    (ran : syncTask proofs requestSize replies segment = some (calls, final)) :
    calls.flatten = trie.range (segment.firstKey.getD 0) final.finish ↔
      Gaps trie final.finish replies ∧ Proven trie (segment.firstKey.getD 0) final.finish replies :=
  delivered_iff ran

end

/-! ## Runs -/

/-- A verifier that does what is documented: a proof has nothing to say but that it is one. -/
def documentedProofs [DecidableEq Value] {size : Nat} (trie : LeafTrie size Value) : RangeProofs trie Unit where
  verifyRangeProof first leaves proof :=
    match proof with
    | none => if leaves = trie.leaves then some false else none
    | some _ =>
      match leaves.getLast? with
      | none => if ∀ leaf ∈ trie.leaves, leaf.key < first then some false else none
      | some last =>
        if leaves = trie.range first (some last.key) then some (trie.leaves.any fun leaf => decide (last.key < leaf.key))
        else none
  whole first leaves more verified := by
    simp only at verified
    split at verified
    · rename_i same
      cases verified
      exact ⟨same, rfl⟩
    · cases verified
  empty first proof more verified := by
    simp only [List.getLast?_nil] at verified
    split at verified
    · rename_i before
      cases verified
      exact ⟨before, rfl⟩
    · cases verified
  edges first leaves proof more last verified final := by
    simp only [final] at verified
    split at verified
    · rename_i same
      cases verified
      exact ⟨same, by simp⟩
    · cases verified

/-- A trie of one-byte keys with two leaves side by side. -/
def adjacentTrie : LeafTrie 256 Nat := ⟨[⟨1, 10⟩, ⟨2, 20⟩, ⟨5, 50⟩], by decide, by decide⟩

/-- Fetched one by one, the second of two leaves side by side is passed over. -/
theorem adjacent_passedOver : ¬∀ replies calls final,
    syncTask (documentedProofs adjacentTrie) 1 replies ⟨none, none, none⟩ = some (calls, final) →
      calls.flatten = adjacentTrie.range 0 final.finish := by
  intro delivers
  have ran : syncTask (documentedProofs adjacentTrie) 1
      [⟨[⟨1, 10⟩], some (), none⟩, ⟨[⟨5, 50⟩], some (), none⟩] ⟨none, none, none⟩ =
        some ([[⟨1, 10⟩], [⟨5, 50⟩]], ⟨none, some 6, none⟩) := by decide +kernel
  exact absurd (delivers _ _ _ ran) (by decide)

def apartTrie : LeafTrie 256 Nat := ⟨[⟨1, 10⟩, ⟨3, 30⟩, ⟨7, 70⟩], by decide, by decide⟩

/-- With a key between any two leaves, and an end that the segment gets on the way, the leaves come each once. -/
theorem apart_delivered : ([[⟨1, 10⟩], [⟨3, 30⟩], []] : List (List (Leaf Nat))).flatten = apartTrie.range 0 (some 5) := by
  have ran : syncTask (documentedProofs apartTrie) 1
      [⟨[⟨1, 10⟩], some (), some 5⟩, ⟨[⟨3, 30⟩], some (), none⟩, ⟨[⟨7, 70⟩], some (), none⟩] ⟨none, none, none⟩ =
        some ([[⟨1, 10⟩], [⟨3, 30⟩], []], ⟨none, some 5, some 5⟩) := by decide +kernel
  refine (syncTask_delivers_iff _ _ _ _ _ _ ran).mpr ⟨?_, ?_⟩
  · intro reply member last final
    simp only [List.dropLast_cons_cons, List.dropLast_singleton, List.mem_cons, List.not_mem_nil, or_false] at member
    rcases member with rfl | rfl <;> cases final <;> decide
  · intro reply member unproven
    simp only [List.mem_cons, List.not_mem_nil, or_false] at member
    rcases member with rfl | rfl | rfl <;> cases unproven

end Snowside.Leaves
