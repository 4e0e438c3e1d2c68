import Snowside.Sync.Leaves

/-! How a server answers a request for leaves, from its snapshot as far as that agrees with the trie. -/

set_option autoImplicit false

namespace Snowside.Leaves

variable {Value Proof : Type} {size : Nat} {trie : LeafTrie size Value}

def maxLeavesLimit : Nat := 1024
def segmentLen : Nat := 64

/-- The proofs of one trie, made by generateRangeProof from the first key and the last leaf; as they are documented, a
proof of what the trie has is accepted. -/
structure Prover (trie : LeafTrie size Value) (Proof : Type) extends RangeProofs trie Proof where
  generateRangeProof : Nat → Option Nat → Proof
  proves_whole : ∀ first, (verifyRangeProof first trie.leaves none).isSome
  proves_empty : ∀ first, (∀ leaf ∈ trie.leaves, leaf.key < first) →
    (verifyRangeProof first [] (some (generateRangeProof first none))).isSome
  proves_edges : ∀ first last, trie.range first (some last) ≠ [] →
    (trie.range first (some last)).getLast?.map Leaf.key = some last →
    (verifyRangeProof first (trie.range first (some last)) (some (generateRangeProof first (some last)))).isSome

/-- A request for leaves; the root and the account choose the trie and the snapshot. -/
structure LeafsRequest where
  start : Option Nat
  finish : Option Nat
  limit : Nat
  deriving DecidableEq, Repr

/-- The key at which what follows in the response begins. -/
def nextKey (size : Nat) (start : Option Nat) (response : List (Leaf Value)) : Option Nat :=
  match response.getLast? with
  | none => start
  | some last => some (incrOne size last.key)

/-- The loop of fillFromTrie on the leaves of its iterator, with whether there are more. -/
def appendLeaves (limit : Nat) (finish : Option Nat) : List (Leaf Value) → List (Leaf Value) → List (Leaf Value) × Bool
  | [], response => (response, false)
  | leaf :: rest, response =>
    if !within finish leaf.key then (response, true)
    else if limit ≤ response.length then (response, true)
    else appendLeaves limit finish rest (response ++ [leaf])

def fillFromTrie (trie : LeafTrie size Value) (limit : Nat) (start finish : Option Nat) (response : List (Leaf Value)) :
    List (Leaf Value) × Bool :=
  appendLeaves limit finish (trie.range ((nextKey size start response).getD 0) none) response

/-- What is read of the snapshot: the entries from the start to the end, up to the limit. -/
def readLeafsFromSnapshot (snapshot : LeafTrie size Value) (limit : Nat) (start finish : Option Nat) : List (Leaf Value) :=
  ((snapshot.range (start.getD 0) none).takeWhile fun leaf => within finish leaf.key).take limit

/-- The More flag of the proof for the leaves from a key on, when they are the trie's. -/
def provenFrom (prover : Prover trie Proof) (first : Nat) (leaves : List (Leaf Value)) : Option Bool :=
  prover.verifyRangeProof first leaves (some (prover.generateRangeProof first (leaves.getLast?.map Leaf.key)))

/-- isRangeValid: behind a gap the leaves are taken by themselves, else they must follow on the response. -/
def isRangeValid (prover : Prover trie Proof) (start : Option Nat) (response leaves : List (Leaf Value)) (hasGap : Bool) :
    Option Bool :=
  provenFrom prover (((if hasGap then leaves.head?.map Leaf.key else nextKey size start response)).getD 0) leaves

/-- The entries in segments of segmentLen. -/
def segmentsOf : Nat → List (Leaf Value) → List (List (Leaf Value))
  | 0, _ => []
  | _ + 1, [] => []
  | fuel + 1, leaf :: rest => (leaf :: rest).take segmentLen :: segmentsOf fuel ((leaf :: rest).drop segmentLen)

/-- The loop of fillFromSnapshot on the segments: a valid one is taken, with the gap before it filled from the trie. -/
def stitch (prover : Prover trie Proof) (limit : Nat) (start : Option Nat) :
    List (List (Leaf Value)) → List (Leaf Value) → Bool → List (Leaf Value)
  | [], response, _ => response
  | segment :: rest, response, hasGap =>
    match isRangeValid prover start response segment hasGap with
    | none => stitch prover limit start rest response true
    | some _ =>
      if hasGap then
        let filled := (fillFromTrie trie limit start (segment.head?.map Leaf.key) response).1
        if limit ≤ filled.length then filled
        else
          let kept := filled.dropLast
          let added := kept ++ segment.take (limit - kept.length)
          if limit ≤ added.length then added else stitch prover limit start rest added false
      else
        let added := response ++ segment.take (limit - response.length)
        if limit ≤ added.length then added else stitch prover limit start rest added false

/-- What the handler answers with. -/
structure LeafsResponse (Value Proof : Type) where
  leaves : List (Leaf Value)
  proof : Option Proof

/-- The response as fillFromSnapshot leaves it, and whether it is complete. -/
def fillFromSnapshot (prover : Prover trie Proof) (snapshot : LeafTrie size Value) (limit : Nat) (start finish : Option Nat) :
    LeafsResponse Value Proof × Bool :=
  let entries := readLeafsFromSnapshot snapshot limit start finish
  match isRangeValid prover start [] entries false with
  | some more =>
    if start.isNone && !more then (⟨entries, none⟩, true)
    else (⟨entries, some (prover.generateRangeProof (start.getD 0) (entries.getLast?.map Leaf.key))⟩, !more)
  | none => (⟨stitch prover limit start (segmentsOf entries.length entries) [] false, none⟩, false)

/-- handleRequest, once the snapshot has been read. -/
def finishResponse (prover : Prover trie Proof) (limit : Nat) (start finish : Option Nat) (response : List (Leaf Value)) :
    LeafsResponse Value Proof :=
  let proven (leaves : List (Leaf Value)) : LeafsResponse Value Proof :=
    ⟨leaves, some (prover.generateRangeProof (start.getD 0) (leaves.getLast?.map Leaf.key))⟩
  if response.length < limit then
    let (leaves, more) := fillFromTrie trie limit start finish response
    if start.isNone && !more then ⟨leaves, none⟩ else proven leaves
  else proven response

def handleRequest (prover : Prover trie Proof) (snapshot : Option (LeafTrie size Value)) (limit : Nat)
    (start finish : Option Nat) : LeafsResponse Value Proof :=
  match snapshot with
  | none => finishResponse prover limit start finish []
  | some snapshot =>
    let (response, done) := fillFromSnapshot prover snapshot limit start finish
    if done then response else finishResponse prover limit start finish response.leaves

/-- OnLeafsRequest for a trie that is found: the limit is capped, and a request with a start after its end or no limit is
dropped. -/
def onLeafsRequest (prover : Prover trie Proof) (snapshot : Option (LeafTrie size Value)) (request : LeafsRequest) :
    Option (LeafsResponse Value Proof) :=
  if (request.finish.any fun finish => decide (finish < request.start.getD 0)) || decide (request.limit = 0) then none
  else some (handleRequest prover snapshot (min request.limit maxLeavesLimit) request.start request.finish)

/-! ## What proofs and iterators give -/

/-- The leaves are the trie's from a key to their last, or there is none from the key on. -/
def Exact (trie : LeafTrie size Value) (first : Nat) (leaves : List (Leaf Value)) : Prop :=
  (leaves = [] ∧ ∀ leaf ∈ trie.leaves, leaf.key < first) ∨
    ∃ last, leaves.getLast? = some last ∧ leaves = trie.range first (some last.key)

variable {prover : Prover trie Proof}

theorem exact_of_proven {first : Nat} {leaves : List (Leaf Value)} {more : Bool}
    (proven : provenFrom prover first leaves = some more) :
    Exact trie first leaves ∧ (more = true ↔ ∃ last, leaves.getLast? = some last ∧ ∃ leaf ∈ trie.leaves, last.key < leaf.key) := by
  unfold provenFrom at proven
  cases final : leaves.getLast? with
  | none =>
    have nothing := List.getLast?_eq_none_iff.mp final
    subst nothing
    obtain ⟨before, ended⟩ := prover.empty _ _ _ proven
    refine ⟨.inl ⟨rfl, before⟩, ?_⟩
    rw [ended]
    exact iff_of_false (by decide) fun beyond => (by obtain ⟨last, impossible, -⟩ := beyond; cases impossible)
  | some last =>
    obtain ⟨between, further⟩ := prover.edges _ _ _ _ last proven final
    refine ⟨.inr ⟨last, final, between⟩, further.trans ?_⟩
    simp

theorem proven_of_exact {first : Nat} {leaves : List (Leaf Value)} (exact_leaves : Exact trie first leaves) :
    ∃ more, provenFrom prover first leaves = some more := by
  unfold provenFrom
  rcases exact_leaves with ⟨rfl, before⟩ | ⟨last, final, between⟩
  · exact Option.isSome_iff_exists.mp (prover.proves_empty first before)
  · have some_leaf : trie.range first (some last.key) ≠ [] := by
      rw [← between]
      intro nothing
      rw [nothing] at final
      cases final
    have ends : (trie.range first (some last.key)).getLast?.map Leaf.key = some last.key := by
      rw [← between, final]
      rfl
    have accepted := prover.proves_edges first last.key some_leaf ends
    rw [← between] at accepted
    rw [final]
    exact Option.isSome_iff_exists.mp accepted

theorem proven_none {first : Nat} {leaves : List (Leaf Value)} (unproven : provenFrom prover first leaves = none) :
    ¬Exact trie first leaves := by
  intro exact_leaves
  obtain ⟨more, proven⟩ : ∃ more, provenFrom prover first leaves = some more := proven_of_exact exact_leaves
  rw [unproven] at proven
  cases proven

/-- The loop appends what is within the range, up to the limit, and says whether it left anything. -/
theorem appendLeaves_eq {limit : Nat} {finish : Option Nat} {leaves response : List (Leaf Value)}
    (increasing : leaves.Pairwise fun first second => first.key < second.key) (room : response.length ≤ limit) :
    (appendLeaves limit finish leaves response).1 =
        response ++ (leaves.filter fun leaf => within finish leaf.key).take (limit - response.length) ∧
      ((appendLeaves limit finish leaves response).2 = false ↔
        (appendLeaves limit finish leaves response).1 = response ++ leaves) := by
  induction leaves generalizing response with
  | nil => exact ⟨by simp [appendLeaves], by simp [appendLeaves]⟩
  | cons leaf rest ih =>
    obtain ⟨after, increasing⟩ := List.pairwise_cons.mp increasing
    have unfinished (later : List (Leaf Value)) : response ≠ response ++ leaf :: later := by
      intro same
      have long := congrArg List.length same
      rw [List.length_append, List.length_cons] at long
      omega
    cases inside : within finish leaf.key with
    | false =>
      have none_inside : (leaf :: rest).filter (fun leaf => within finish leaf.key) = [] := by
        refine List.filter_eq_nil_iff.mpr fun other member => ?_
        rcases List.mem_cons.mp member with same | later
        · rw [same, inside]
          decide
        · intro within_other
          have first := within_of_le within_other (Nat.le_of_lt (after other later))
          rw [inside] at first
          cases first
      rw [none_inside]
      simp only [appendLeaves, inside]
      refine ⟨by simp, iff_of_false (by simp) ?_⟩
      simp [unfinished]
    | true =>
      by_cases full : limit ≤ response.length
      · have no_room : limit - response.length = 0 := by omega
        rw [no_room, List.take_zero, List.append_nil]
        simp only [appendLeaves, inside, Bool.not_true, Bool.false_eq_true, if_false, if_pos full]
        exact ⟨trivial, iff_of_false (by simp) (unfinished rest)⟩
      · have longer : (response ++ [leaf]).length ≤ limit := by
          rw [List.length_append, List.length_singleton]
          omega
        obtain ⟨appended, complete⟩ := ih increasing longer
        have step : appendLeaves limit finish (leaf :: rest) response = appendLeaves limit finish rest (response ++ [leaf]) := by
          simp [appendLeaves, inside, full]
        have less : limit - response.length = (limit - (response ++ [leaf]).length) + 1 := by
          rw [List.length_append, List.length_singleton]
          omega
        rw [step]
        refine ⟨?_, ?_⟩
        · rw [appended, List.filter_cons_of_pos (by simpa using inside), less, List.take_succ_cons, List.append_assoc,
            List.singleton_append]
        · rw [complete, List.append_assoc, List.singleton_append]

/-! ## Prefixes of a range -/

variable {start finish : Option Nat} {limit : Nat}

/-- The beginning of an increasing list is what comes up to its last key. -/
theorem filter_of_leading {response leaves rest : List (Leaf Value)} {last : Leaf Value}
    (increasing : leaves.Pairwise fun first second => first.key < second.key) (whole : response ++ rest = leaves)
    (final : response.getLast? = some last) :
    response = leaves.filter (fun leaf => decide (leaf.key ≤ last.key)) ∧
      rest = leaves.filter fun leaf => decide (last.key < leaf.key) := by
  subst whole
  obtain ⟨early, -, apart⟩ := List.pairwise_append.mp increasing
  have below := le_getLast early final
  have there := List.mem_of_getLast? final
  have first_kept : response.filter (fun leaf => decide (leaf.key ≤ last.key)) = response :=
    List.filter_eq_self.mpr fun leaf member => by simpa using below leaf member
  have rest_gone : rest.filter (fun leaf => decide (leaf.key ≤ last.key)) = [] :=
    List.filter_eq_nil_iff.mpr fun leaf member => by simpa using apart last there leaf member
  have first_gone : response.filter (fun leaf => decide (last.key < leaf.key)) = [] :=
    List.filter_eq_nil_iff.mpr fun leaf member => by simpa using below leaf member
  have rest_kept : rest.filter (fun leaf => decide (last.key < leaf.key)) = rest :=
    List.filter_eq_self.mpr fun leaf member => by simpa using apart last there leaf member
  rw [List.filter_append, List.filter_append, first_kept, rest_gone, first_gone, rest_kept]
  exact ⟨(List.append_nil _).symm, (List.nil_append _).symm⟩

/-- Where the response goes on is where the range goes on. -/
theorem range_eq_append {response : List (Leaf Value)} (begins : response <+: trie.range (start.getD 0) finish)
    (low : ∀ leaf ∈ response, leaf.key + 1 < size) :
    response ++ trie.range ((nextKey size start response).getD 0) finish = trie.range (start.getD 0) finish := by
  obtain ⟨rest, whole⟩ := begins
  cases final : response.getLast? with
  | none =>
    rw [List.getLast?_eq_none_iff.mp final]
    rfl
  | some last =>
    have there := List.mem_of_getLast? final
    obtain ⟨-, tail⟩ := filter_of_leading (range_increasing trie _ _) whole final
    have from_start : start.getD 0 ≤ last.key :=
      (mem_range.mp (whole ▸ List.mem_append_left rest there : last ∈ trie.range (start.getD 0) finish)).2.1
    have next : (nextKey size start response).getD 0 = last.key + 1 := by
      unfold nextKey
      rw [final]
      exact Nat.mod_eq_of_lt (low last there)
    have follows : trie.range (last.key + 1) finish = rest := by
      rw [tail]
      unfold LeafTrie.range
      rw [List.filter_filter]
      refine List.filter_congr fun leaf _ => ?_
      by_cases late : last.key < leaf.key
      · have from_next : last.key + 1 ≤ leaf.key := late
        have inside : start.getD 0 ≤ leaf.key := by omega
        simp [late, from_next, inside]
      · have not_next : ¬last.key + 1 ≤ leaf.key := late
        simp [late, not_next]
    rw [next, follows, whole]

/-- A range cut off at a key of it. -/
theorem range_filter_le {first last : Nat} {finish : Option Nat} (inside : within finish last = true) :
    (trie.range first finish).filter (fun leaf => decide (leaf.key ≤ last)) = trie.range first (some last) := by
  unfold LeafTrie.range
  rw [List.filter_filter]
  refine List.filter_congr fun leaf _ => ?_
  by_cases early : leaf.key ≤ last
  · simp [within_some.mpr early, within_of_le inside early, early]
  · have outside : within (some last) leaf.key = false := by simpa [within] using early
    simp [outside, early]

theorem range_leading {first last : Nat} {finish : Option Nat} (inside : within finish last = true) :
    trie.range first (some last) <+: trie.range first finish := by
  refine ⟨(trie.range first finish).filter (fun leaf => decide (last < leaf.key)), ?_⟩
  have split := filter_append_filter last (range_increasing trie first finish)
  rw [range_filter_le inside] at split
  exact split

/-- A part of a range from its beginning that stays below a key is a part of the range up to that key. -/
theorem prefix_range {response : List (Leaf Value)} {first last : Nat} (begins : response <+: trie.range first finish)
    (inside : within finish last = true) (below : ∀ leaf ∈ response, leaf.key ≤ last) :
    response <+: trie.range first (some last) := by
  refine List.prefix_of_prefix_length_le begins (range_leading inside) ?_
  have sub : response.Sublist (trie.range first (some last)) := by
    have kept : response.filter (fun leaf => decide (leaf.key ≤ last)) = response :=
      List.filter_eq_self.mpr fun leaf member => by simpa using below leaf member
    have filtered := begins.sublist.filter fun leaf => decide (leaf.key ≤ last)
    rw [kept, range_filter_le inside] at filtered
    exact filtered
  exact sub.length_le

/-- fillFromTrie brings the response up to the limit. -/
theorem fillFromTrie_eq {response : List (Leaf Value)} (begins : response <+: trie.range (start.getD 0) finish)
    (room : response.length ≤ limit) (low : ∀ leaf ∈ response, leaf.key + 1 < size) :
    (fillFromTrie trie limit start finish response).1 = (trie.range (start.getD 0) finish).take limit := by
  let onwards := trie.range ((nextKey size start response).getD 0) none
  have appended : (appendLeaves limit finish onwards response).1 =
      response ++ (onwards.filter fun leaf => within finish leaf.key).take (limit - response.length) :=
    (appendLeaves_eq (range_increasing trie _ none) room).1
  have inside : (trie.range ((nextKey size start response).getD 0) none).filter (fun leaf => within finish leaf.key) =
      trie.range ((nextKey size start response).getD 0) finish := by
    unfold LeafTrie.range
    rw [List.filter_filter]
    refine List.filter_congr fun leaf _ => ?_
    cases within finish leaf.key <;> simp [within]
  unfold fillFromTrie
  rw [appended, inside, ← range_eq_append begins low, List.take_append, List.take_of_length_le room]

/-- A beginning that is long enough is all that is answered. -/
theorem take_of_prefix {response leaves : List (Leaf Value)} (begins : response <+: leaves) (long : response.length = limit) :
    response = leaves.take limit := by
  rw [← long]
  exact List.prefix_iff_eq_take.mp begins

/-! ## Stitching -/

/-- Whether a gap is left behind the last segment: a valid segment follows on what was taken, or stands by itself behind a
gap. -/
def gapAfter (prover : Prover trie Proof) : Nat → Bool → List (List (Leaf Value)) → Bool
  | _, hasGap, [] => hasGap
  | next, hasGap, segment :: rest =>
    match provenFrom prover (if hasGap then (segment.head?.map Leaf.key).getD 0 else next) segment with
    | none => gapAfter prover next true rest
    | some _ => gapAfter prover ((nextKey size none segment).getD 0) false rest

theorem isRangeValid_eq (response segment : List (Leaf Value)) (hasGap : Bool) :
    isRangeValid prover start response segment hasGap =
      provenFrom prover (if hasGap then (segment.head?.map Leaf.key).getD 0 else (nextKey size start response).getD 0)
        segment := by
  unfold isRangeValid
  cases hasGap <;> rfl

/-- A range ends in a leaf of it that has the last key. -/
theorem getLast?_range {first : Nat} {last : Leaf Value} (fetched : last ∈ trie.leaves) (late : first ≤ last.key) :
    (trie.range first (some last.key)).getLast? = some last := by
  have there : last ∈ trie.range first (some last.key) := mem_range.mpr ⟨fetched, late, within_some.mpr (Nat.le_refl _)⟩
  cases ended : (trie.range first (some last.key)).getLast? with
  | none =>
    rw [List.getLast?_eq_none_iff.mp ended] at there
    cases there
  | some leaf =>
    have above := le_getLast (range_increasing trie _ _) ended last there
    obtain ⟨member, -, high⟩ := mem_range.mp (List.mem_of_getLast? ended)
    have below := within_some.mp high
    rw [eq_of_key trie.increasing member fetched (by omega)]

/-- A valid segment follows on the response, when the gap before it has been filled from the trie. -/
theorem kept_append {segment : List (Leaf Value)} {head last : Leaf Value} {first : Nat}
    (begins : segment.head? = some head) (between : segment = trie.range head.key (some last.key)) (late : first ≤ head.key) :
    (trie.range first (some head.key)).dropLast ++ segment = trie.range first (some last.key) := by
  have there : head ∈ segment := List.mem_of_head? begins
  obtain ⟨fetched, -, inside⟩ := mem_range.mp (between ▸ there)
  have ends := getLast?_range fetched late
  have back : (trie.range first (some head.key)).dropLast ++ [head] = trie.range first (some head.key) :=
    List.dropLast_append_getLast? head ends
  have tail : segment = head :: trie.range (head.key + 1) (some last.key) := by
    obtain ⟨rest, whole⟩ := List.head?_eq_some_iff.mp begins
    have after := (filter_of_leading (between ▸ range_increasing trie _ _) (show [head] ++ rest = segment from whole.symm)
      rfl).2
    have follows : trie.range (head.key + 1) (some last.key) = rest := by
      rw [after, between]
      unfold LeafTrie.range
      rw [List.filter_filter]
      refine List.filter_congr fun leaf _ => ?_
      by_cases late : head.key < leaf.key
      · have from_next : head.key + 1 ≤ leaf.key := late
        have from_head : head.key ≤ leaf.key := Nat.le_of_lt late
        simp [late, from_next, from_head]
      · have not_next : ¬head.key + 1 ≤ leaf.key := late
        simp [late, not_next]
    rw [follows, whole]
  rw [tail, ← List.singleton_append, ← List.append_assoc, back, range_append late inside]

/-- A beginning of the range that fills the response is what is answered. -/
theorem take_eq_of_full {grown leaves : List (Leaf Value)} (begins : grown <+: leaves)
    (full : limit ≤ (grown.take limit).length) : grown.take limit = leaves.take limit := by
  have long : (grown.take limit).length = limit := by
    rw [List.length_take] at full ⊢
    omega
  exact take_of_prefix ((List.take_prefix _ _).trans begins) long

theorem getLast?_flatten {segment : List (Leaf Value)} {rest : List (List (Leaf Value))} (some_left : rest.flatten ≠ []) :
    (segment :: rest).flatten.getLast? = rest.flatten.getLast? := by
  rw [List.flatten_cons, List.getLast?_append]
  cases final : rest.flatten.getLast? with
  | none => exact absurd (List.getLast?_eq_none_iff.mp final) some_left
  | some leaf => rfl

/-- What the segments leave: the whole answer, or a beginning of it that ends in the last entry when no gap is left. -/
structure Stitched (prover : Prover trie Proof) (limit : Nat) (start finish : Option Nat) (hasGap : Bool)
    (segments : List (List (Leaf Value))) (response after : List (Leaf Value)) : Prop where
  short : after.length < limit
  begins : after <+: trie.range (start.getD 0) finish
  ends : gapAfter prover ((nextKey size start response).getD 0) hasGap segments = false → segments ≠ [] →
    after.getLast? = segments.flatten.getLast?
  low : gapAfter prover ((nextKey size start response).getD 0) hasGap segments = true →
    (hasGap = true → ∀ leaf ∈ response, leaf.key + 1 < size) → ∀ leaf ∈ after, leaf.key + 1 < size

/-- A valid segment makes the response the range up to its last entry, or up to the limit. -/
theorem taken_segment {response segment : List (Leaf Value)} {last : Leaf Value} {more hasGap : Bool}
    (begins : response <+: trie.range (start.getD 0) finish) (room : response.length < limit)
    (low : ∀ leaf ∈ response, leaf.key + 1 < size) (later : ∀ leaf ∈ response, ∀ entry ∈ segment, leaf.key < entry.key)
    (inside : ∀ entry ∈ segment, start.getD 0 ≤ entry.key ∧ within finish entry.key = true)
    (final : segment.getLast? = some last)
    (proven : isRangeValid prover start response segment hasGap = some more) :
    (trie.range (start.getD 0) (some last.key) <+: trie.range (start.getD 0) finish ∧ last ∈ trie.leaves) ∧
      ∀ rest, stitch prover limit start (segment :: rest) response hasGap =
        if limit ≤ ((trie.range (start.getD 0) (some last.key)).take limit).length then (trie.range (start.getD 0) finish).take limit
        else stitch prover limit start rest (trie.range (start.getD 0) (some last.key)) false := by
  have there := List.mem_of_getLast? final
  obtain ⟨from_start, last_inside⟩ := inside last there
  have grown : trie.range (start.getD 0) (some last.key) <+: trie.range (start.getD 0) finish := range_leading last_inside
  have below : ∀ leaf ∈ response, leaf.key ≤ last.key := fun leaf member => Nat.le_of_lt (later leaf member last there)
  obtain ⟨exact_segment, -⟩ := exact_of_proven (isRangeValid_eq response segment hasGap ▸ proven)
  have between : segment = trie.range
      (if hasGap then (segment.head?.map Leaf.key).getD 0 else (nextKey size start response).getD 0) (some last.key) := by
    rcases exact_segment with ⟨nothing, -⟩ | ⟨other, other_final, between⟩
    · rw [nothing] at there
      cases there
    · rw [final] at other_final
      cases other_final
      exact between
  have fetched : last ∈ trie.leaves := (mem_range.mp (between ▸ there)).1
  refine ⟨⟨grown, fetched⟩, fun rest => ?_⟩
  -- In both cases what is added makes the range up to the last entry, cut off at the limit.
  have added_eq {kept : List (Leaf Value)} (few : kept.length ≤ limit)
      (whole : kept ++ segment = trie.range (start.getD 0) (some last.key)) :
      kept ++ segment.take (limit - kept.length) = (trie.range (start.getD 0) (some last.key)).take limit := by
    rw [← whole, List.take_append, List.take_of_length_le few]
  have onwards : (if limit ≤ ((trie.range (start.getD 0) (some last.key)).take limit).length
        then (trie.range (start.getD 0) (some last.key)).take limit
        else stitch prover limit start rest ((trie.range (start.getD 0) (some last.key)).take limit) false) =
      if limit ≤ ((trie.range (start.getD 0) (some last.key)).take limit).length then (trie.range (start.getD 0) finish).take limit
      else stitch prover limit start rest (trie.range (start.getD 0) (some last.key)) false := by
    split
    · rename_i full
      exact take_eq_of_full grown full
    · rename_i some_room
      rw [List.length_take] at some_room
      rw [List.take_of_length_le (by omega)]
  cases hasGap with
  | false =>
    have whole : response ++ segment = trie.range (start.getD 0) (some last.key) := by
      have follows := range_eq_append (prefix_range begins last_inside below) low
      rw [between]
      exact follows
    simp only [stitch, proven, Bool.false_eq_true, if_false]
    rw [added_eq (Nat.le_of_lt room) whole]
    exact onwards
  | true =>
    obtain ⟨head, begins_with⟩ : ∃ head, segment.head? = some head := by
      cases first : segment.head? with
      | none =>
        rw [List.head?_eq_none_iff.mp first] at there
        cases there
      | some head => exact ⟨head, rfl⟩
    have head_there := List.mem_of_head? begins_with
    obtain ⟨head_late, head_inside⟩ := inside head head_there
    simp only [if_true, begins_with, Option.map_some, Option.getD_some] at between
    have filled : (fillFromTrie trie limit start (some head.key) response).1 =
        (trie.range (start.getD 0) (some head.key)).take limit := by
      refine fillFromTrie_eq (prefix_range begins head_inside ?_) (Nat.le_of_lt room) low
      exact fun leaf member => Nat.le_of_lt (later leaf member head head_there)
    simp only [stitch, proven, if_true, begins_with, Option.map_some, filled]
    by_cases full : limit ≤ ((trie.range (start.getD 0) (some head.key)).take limit).length
    · have cut := take_eq_of_full (range_leading head_inside) full
      have also_full : limit ≤ ((trie.range (start.getD 0) (some last.key)).take limit).length := by
        have up_to_last : within (some last.key) head.key = true := (mem_range.mp (between ▸ head_there)).2.2
        have shorter : trie.range (start.getD 0) (some head.key) <+: trie.range (start.getD 0) (some last.key) :=
          range_leading up_to_last
        have longer := shorter.length_le
        rw [List.length_take] at full ⊢
        omega
      rw [if_pos full, if_pos also_full, cut]
    · have whole_gap : (trie.range (start.getD 0) (some head.key)).take limit = trie.range (start.getD 0) (some head.key) := by
        refine List.take_of_length_le ?_
        rw [List.length_take] at full
        omega
      rw [if_neg full, whole_gap]
      have few : (trie.range (start.getD 0) (some head.key)).dropLast.length ≤ limit := by
        rw [whole_gap] at full
        rw [List.length_dropLast]
        omega
      rw [added_eq few (kept_append begins_with between head_late)]
      exact onwards

/-- The segments make the whole answer, or a beginning of it that ends in the last entry when no gap is left. -/
theorem stitch_spec {segments : List (List (Leaf Value))} {response : List (Leaf Value)} {hasGap : Bool}
    (begins : response <+: trie.range (start.getD 0) finish) (room : response.length < limit)
    (later : ∀ leaf ∈ response, ∀ entry ∈ segments.flatten, leaf.key < entry.key)
    (ordered : segments.flatten.Pairwise fun first second => first.key < second.key)
    (inside : ∀ entry ∈ segments.flatten, start.getD 0 ≤ entry.key ∧ within finish entry.key = true)
    (bounded : ∀ entry ∈ segments.flatten, entry.key < size) (nonempty : ∀ segment ∈ segments, segment ≠ []) :
    (stitch prover limit start segments response hasGap = (trie.range (start.getD 0) finish).take limit ∧
        limit ≤ (stitch prover limit start segments response hasGap).length) ∨
      Stitched prover limit start finish hasGap segments response (stitch prover limit start segments response hasGap) := by
  induction segments generalizing response hasGap with
  | nil =>
    refine .inr ⟨room, begins, fun _ impossible => absurd rfl impossible, fun gap low => ?_⟩
    exact low gap
  | cons segment rest ih =>
    rw [List.flatten_cons] at later ordered inside bounded
    obtain ⟨own_order, rest_order, apart⟩ := List.pairwise_append.mp ordered
    have some_entry := nonempty segment List.mem_cons_self
    obtain ⟨last, final⟩ : ∃ last, segment.getLast? = some last := by
      cases ended : segment.getLast? with
      | none => exact absurd (List.getLast?_eq_none_iff.mp ended) some_entry
      | some last => exact ⟨last, rfl⟩
    have there := List.mem_of_getLast? final
    have low : ∀ leaf ∈ response, leaf.key + 1 < size := by
      intro leaf member
      have before := later leaf member last (List.mem_append_left _ there)
      have := bounded last (List.mem_append_left _ there)
      omega
    have rest_inside := fun entry member => inside entry (List.mem_append_right segment member)
    have rest_bounded := fun entry member => bounded entry (List.mem_append_right segment member)
    have rest_nonempty := fun other member => nonempty other (List.mem_cons_of_mem segment member)
    have rest_entries (some_left : rest ≠ []) : rest.flatten ≠ [] := by
      obtain ⟨first, others, rfl⟩ := List.exists_cons_of_ne_nil some_left
      have filled := rest_nonempty first List.mem_cons_self
      rw [List.flatten_cons]
      exact fun nothing => filled (List.append_eq_nil_iff.mp nothing).1
    cases proven : isRangeValid prover start response segment hasGap with
    | none =>
      have step : stitch prover limit start (segment :: rest) response hasGap = stitch prover limit start rest response true := by
        simp only [stitch, proven]
      have gap : gapAfter prover ((nextKey size start response).getD 0) hasGap (segment :: rest) =
          gapAfter prover ((nextKey size start response).getD 0) true rest := by
        rw [isRangeValid_eq] at proven
        simp only [gapAfter, proven]
      rw [step]
      have rest_later := fun leaf member entry behind => later leaf member entry (List.mem_append_right segment behind)
      rcases ih begins room rest_later rest_order rest_inside rest_bounded rest_nonempty with whole | stitched
      · exact .inl whole
      · refine .inr ⟨stitched.short, stitched.begins, fun closed _ => ?_, fun left _ => ?_⟩
        · rw [gap] at closed
          have some_left : rest ≠ [] := by
            intro empty
            rw [empty] at closed
            cases closed
          rw [getLast?_flatten (rest_entries some_left)]
          exact stitched.ends closed some_left
        · rw [gap] at left
          exact stitched.low left fun _ => low
    | some more =>
      have own_later := fun leaf member entry here => later leaf member entry (List.mem_append_left _ here)
      have own_inside := fun entry here => inside entry (List.mem_append_left _ here)
      obtain ⟨⟨grown, fetched⟩, step⟩ := taken_segment begins room low own_later own_inside final proven
      rw [step rest]
      split
      · rename_i full
        exact .inl ⟨rfl, take_eq_of_full grown full ▸ full⟩
      · rename_i some_room
        have grown_end := getLast?_range fetched (own_inside last there).1
        have next : (nextKey size none segment).getD 0 =
            (nextKey size start (trie.range (start.getD 0) (some last.key))).getD 0 := by
          unfold nextKey
          rw [grown_end, final]
        have gap : gapAfter prover ((nextKey size start response).getD 0) hasGap (segment :: rest) =
            gapAfter prover ((nextKey size start (trie.range (start.getD 0) (some last.key))).getD 0) false rest := by
          rw [isRangeValid_eq] at proven
          simp only [gapAfter, proven, next]
        have grown_room : (trie.range (start.getD 0) (some last.key)).length < limit := by
          rw [List.length_take] at some_room
          omega
        have rest_later : ∀ leaf ∈ trie.range (start.getD 0) (some last.key), ∀ entry ∈ rest.flatten, leaf.key < entry.key := by
          intro leaf member entry behind
          have high := within_some.mp (mem_range.mp member).2.2
          have := apart last there entry behind
          omega
        rcases ih grown grown_room rest_later rest_order rest_inside rest_bounded rest_nonempty with whole | stitched
        · exact .inl whole
        · refine .inr ⟨stitched.short, stitched.begins, fun closed _ => ?_, fun left _ => ?_⟩
          · rw [gap] at closed
            by_cases some_left : rest = []
            · subst some_left
              rw [List.flatten_cons, List.flatten_nil, List.append_nil, final]
              exact grown_end
            · rw [getLast?_flatten (rest_entries some_left)]
              exact stitched.ends closed some_left
          · rw [gap] at left
            exact stitched.low left fun impossible => (by cases impossible)

/-! ## The whole response -/

theorem flatten_segmentsOf {fuel : Nat} {leaves : List (Leaf Value)} (enough : leaves.length ≤ fuel) :
    (segmentsOf fuel leaves).flatten = leaves := by
  induction fuel generalizing leaves with
  | zero =>
    rw [List.eq_nil_of_length_eq_zero (Nat.le_zero.mp enough)]
    rfl
  | succ fuel ih =>
    cases leaves with
    | nil => rfl
    | cons leaf rest =>
      rw [segmentsOf, List.flatten_cons, ih, List.take_append_drop]
      rw [List.length_drop, List.length_cons]
      rw [List.length_cons] at enough
      unfold segmentLen
      omega

theorem segmentsOf_ne_nil {fuel : Nat} {leaves : List (Leaf Value)} : ∀ segment ∈ segmentsOf fuel leaves, segment ≠ [] := by
  induction fuel generalizing leaves with
  | zero => exact fun segment member => absurd member List.not_mem_nil
  | succ fuel ih =>
    cases leaves with
    | nil => exact fun segment member => absurd member List.not_mem_nil
    | cons leaf rest =>
      intro segment member
      rcases List.mem_cons.mp member with first | later
      · rw [first]
        unfold segmentLen
        simp
      · exact ih segment later

variable {content : LeafTrie size Value}

theorem mem_readLeafs {leaf : Leaf Value} (member : leaf ∈ readLeafsFromSnapshot content limit start finish) :
    start.getD 0 ≤ leaf.key ∧ within finish leaf.key = true ∧ leaf.key < size := by
  have taken := List.mem_of_mem_take member
  have inside := List.mem_takeWhile_imp taken
  obtain ⟨there, late, -⟩ := mem_range.mp ((List.takeWhile_sublist _).subset taken)
  exact ⟨late, inside, content.bounded leaf there⟩

theorem readLeafs_increasing : (readLeafsFromSnapshot content limit start finish).Pairwise fun first second =>
    first.key < second.key :=
  (range_increasing content _ _).sublist ((List.take_sublist _ _).trans (List.takeWhile_sublist _))

/-- The snapshot is not the trie's from the start on, but its last segment follows on what was taken and ends in the
greatest key, with room in the response: the key after it is the first one. -/
def Wraps (prover : Prover trie Proof) (snapshot : Option (LeafTrie size Value)) (limit : Nat) (start finish : Option Nat) :
    Prop :=
  ∃ content last, snapshot = some content ∧ (readLeafsFromSnapshot content limit start finish).getLast? = some last ∧
    last.key + 1 = size ∧ (trie.range (start.getD 0) finish).length < limit ∧
    provenFrom prover (start.getD 0) (readLeafsFromSnapshot content limit start finish) = none ∧
    gapAfter prover (start.getD 0) false (segmentsOf (readLeafsFromSnapshot content limit start finish).length
      (readLeafsFromSnapshot content limit start finish)) = false

/-- From a beginning of the range that does not end in the greatest key the response is completed. -/
theorem finishResponse_leaves {response : List (Leaf Value)} (begins : response <+: trie.range (start.getD 0) finish)
    (room : response.length ≤ limit) (low : response.length < limit → ∀ leaf ∈ response, leaf.key + 1 < size) :
    (finishResponse prover limit start finish response).leaves = (trie.range (start.getD 0) finish).take limit := by
  unfold finishResponse
  by_cases more_room : response.length < limit
  · have filled := fillFromTrie_eq begins room (low more_room)
    simp only [if_pos more_room]
    split <;> exact filled
  · simp only [if_neg more_room]
    exact take_of_prefix begins (by omega)

/-- A beginning of a range that ends in the greatest key is all of it. -/
theorem eq_of_greatest {response leaves : List (Leaf Value)} {last : Leaf Value} (begins : response <+: leaves)
    (increasing : leaves.Pairwise fun first second => first.key < second.key) (bounded : ∀ leaf ∈ leaves, leaf.key < size)
    (final : response.getLast? = some last) (greatest : last.key + 1 = size) : response = leaves := by
  obtain ⟨rest, whole⟩ := begins
  have nothing : rest = [] := by
    rw [(filter_of_leading increasing whole final).2]
    refine List.filter_eq_nil_iff.mpr fun leaf member => ?_
    have := bounded leaf member
    simp only [decide_eq_true_eq]
    omega
  rw [← whole, nothing, List.append_nil]

theorem range_bounded (first : Nat) (finish : Option Nat) : ∀ leaf ∈ trie.range first finish, leaf.key < size :=
  fun leaf member => trie.bounded leaf (mem_range.mp member).1

/-- What the loop over the segments makes of the entries that are read. -/
theorem stitch_entries (prover : Prover trie Proof) (content : LeafTrie size Value) (start finish : Option Nat)
    (positive : 0 < limit) :
    let entries := readLeafsFromSnapshot content limit start finish
    let response := stitch prover limit start (segmentsOf entries.length entries) [] false
    (response = (trie.range (start.getD 0) finish).take limit ∧ limit ≤ response.length) ∨
      Stitched prover limit start finish false (segmentsOf entries.length entries) [] response := by
  intro entries response
  have flat : (segmentsOf entries.length entries).flatten = entries := flatten_segmentsOf (Nat.le_refl _)
  refine stitch_spec List.nil_prefix positive (fun leaf impossible => absurd impossible List.not_mem_nil) ?_ ?_ ?_
    segmentsOf_ne_nil
  · rw [flat]
    exact readLeafs_increasing
  · rw [flat]
    exact fun entry member => ⟨(mem_readLeafs member).1, (mem_readLeafs member).2.1⟩
  · rw [flat]
    exact fun entry member => (mem_readLeafs member).2.2

/-- A response that the proof of the snapshot's entries completes. -/
theorem proven_entries {more : Bool}
    (proven : provenFrom prover (start.getD 0) (readLeafsFromSnapshot content limit start finish) = some more) :
    readLeafsFromSnapshot content limit start finish <+: trie.range (start.getD 0) finish ∧
      (more = false → trie.range (start.getD 0) finish = readLeafsFromSnapshot content limit start finish) ∧
      (more = true → ∀ leaf ∈ readLeafsFromSnapshot content limit start finish, leaf.key + 1 < size) := by
  obtain ⟨exact_entries, further⟩ := exact_of_proven proven
  rcases exact_entries with ⟨nothing, before⟩ | ⟨last, final, between⟩
  · rw [nothing]
    refine ⟨List.nil_prefix, fun _ => ?_, fun _ leaf impossible => absurd impossible List.not_mem_nil⟩
    refine List.filter_eq_nil_iff.mpr fun leaf member => ?_
    have := before leaf member
    have early : ¬start.getD 0 ≤ leaf.key := by omega
    simp [early]
  · have there := List.mem_of_getLast? final
    have inside := (mem_readLeafs there).2.1
    refine ⟨?_, fun ended => ?_, fun continues leaf member => ?_⟩
    · rw [between]
      exact range_leading inside
    · rw [between]
      have split : trie.range (start.getD 0) (some last.key) ++ trie.range (last.key + 1) finish =
          trie.range (start.getD 0) finish := range_append (mem_range.mp (between ▸ there)).2.1 inside
      have nothing : trie.range (last.key + 1) finish = [] := by
        refine List.filter_eq_nil_iff.mpr fun leaf member => ?_
        have none_beyond : ¬last.key < leaf.key := by
          intro late
          have continues := further.mpr ⟨last, final, leaf, member, late⟩
          rw [ended] at continues
          cases continues
        have early : ¬last.key + 1 ≤ leaf.key := none_beyond
        simp [early]
      rw [nothing, List.append_nil] at split
      exact split.symm
    · obtain ⟨other, other_final, beyond, fetched, late⟩ := further.mp continues
      rw [final] at other_final
      cases other_final
      have below := le_getLast readLeafs_increasing final leaf member
      have := trie.bounded beyond fetched
      omega

/-- Where the start does not wrap around, the segments make a beginning of the answer that can be completed. -/
theorem stitch_begins (positive : 0 < limit)
    (unproven : isRangeValid prover start [] (readLeafsFromSnapshot content limit start finish) false = none)
    (straight : ¬Wraps prover (some content) limit start finish) :
    let entries := readLeafsFromSnapshot content limit start finish
    let response := stitch prover limit start (segmentsOf entries.length entries) [] false
    response <+: trie.range (start.getD 0) finish ∧
      (response.length < limit → ∀ leaf ∈ response, leaf.key + 1 < size) := by
  intro entries response
  rcases stitch_entries prover content start finish positive with ⟨whole, long⟩ | stitched
  · refine ⟨?_, fun short => ?_⟩
    · rw [show response = _ from whole]
      exact List.take_prefix _ _
    · change limit ≤ response.length at long
      omega
  · refine ⟨stitched.begins, fun _ => ?_⟩
    cases gap : gapAfter prover (start.getD 0) false (segmentsOf entries.length entries) with
    | true => exact stitched.low gap fun impossible => (by cases impossible)
    | false =>
      cases final : entries.getLast? with
      | none =>
        have nothing := List.getLast?_eq_none_iff.mp final
        have none_taken : response = [] := by
          show stitch prover limit start (segmentsOf entries.length entries) [] false = []
          rw [nothing]
          rfl
        rw [none_taken]
        exact fun leaf impossible => absurd impossible List.not_mem_nil
      | some last =>
        have there := List.mem_of_getLast? final
        have flat : (segmentsOf entries.length entries).flatten = entries := flatten_segmentsOf (Nat.le_refl _)
        have some_segment : segmentsOf entries.length entries ≠ [] := by
          intro nothing
          rw [nothing] at flat
          rw [← flat] at there
          cases there
        have ends := stitched.ends gap some_segment
        rw [flat, final] at ends
        intro leaf member
        have below := le_getLast ((range_increasing trie _ _).sublist stitched.begins.sublist) ends leaf member
        have bounded := (mem_readLeafs there).2.2
        by_contra high
        have greatest : last.key + 1 = size := by omega
        have all := eq_of_greatest stitched.begins (range_increasing trie _ _) (range_bounded _ _) ends greatest
        have short := stitched.short
        rw [all] at short
        exact straight ⟨content, last, rfl, final, greatest, short, unproven, gap⟩

theorem handleRequest_of_not_wraps {snapshot : Option (LeafTrie size Value)} (positive : 0 < limit)
    (straight : ¬Wraps prover snapshot limit start finish) :
    (handleRequest prover snapshot limit start finish).leaves = (trie.range (start.getD 0) finish).take limit := by
  cases snapshot with
  | none =>
    exact finishResponse_leaves List.nil_prefix (Nat.zero_le _) fun _ leaf impossible => absurd impossible List.not_mem_nil
  | some content =>
    have few : (readLeafsFromSnapshot content limit start finish).length ≤ limit := List.length_take_le _ _
    cases proven : isRangeValid prover start [] (readLeafsFromSnapshot content limit start finish) false with
    | some more =>
      have direct : provenFrom prover (start.getD 0) (readLeafsFromSnapshot content limit start finish) = some more := proven
      obtain ⟨begins, ended, low⟩ := proven_entries direct
      cases more with
      | false =>
        have whole : (handleRequest prover (some content) limit start finish).leaves =
            readLeafsFromSnapshot content limit start finish := by
          unfold handleRequest fillFromSnapshot
          simp only [proven, Bool.not_false, Bool.and_true]
          cases start.isNone <;> rfl
        rw [whole, ended rfl, List.take_of_length_le few]
      | true =>
        have onwards : handleRequest prover (some content) limit start finish =
            finishResponse prover limit start finish (readLeafsFromSnapshot content limit start finish) := by
          unfold handleRequest fillFromSnapshot
          simp [proven]
        rw [onwards]
        exact finishResponse_leaves begins few fun _ => low rfl
    | none =>
      have onwards : handleRequest prover (some content) limit start finish = finishResponse prover limit start finish
          (stitch prover limit start (segmentsOf (readLeafsFromSnapshot content limit start finish).length
            (readLeafsFromSnapshot content limit start finish)) [] false) := by
        unfold handleRequest fillFromSnapshot
        simp [proven]
      rw [onwards]
      have room : (stitch prover limit start (segmentsOf (readLeafsFromSnapshot content limit start finish).length
          (readLeafsFromSnapshot content limit start finish)) [] false).length ≤ limit := by
        rcases stitch_entries prover content start finish positive with ⟨whole, -⟩ | stitched
        · rw [whole]
          exact List.length_take_le _ _
        · exact Nat.le_of_lt stitched.short
      obtain ⟨begins, low⟩ := stitch_begins positive proven straight
      exact finishResponse_leaves begins room low

/-- Where the start wraps around, leaves from the beginning of the trie follow on the whole answer. -/
theorem handleRequest_of_wraps {snapshot : Option (LeafTrie size Value)} (positive : 0 < limit)
    (wraps : Wraps prover snapshot limit start finish) :
    ∃ again, again ≠ [] ∧ again <+: trie.range 0 finish ∧
      (handleRequest prover snapshot limit start finish).leaves = trie.range (start.getD 0) finish ++ again ∧
      ∃ last ∈ trie.range (start.getD 0) finish, last.key + 1 = size := by
  obtain ⟨content, last, rfl, final, greatest, short, unproven, gap⟩ := wraps
  have there := List.mem_of_getLast? final
  have onwards : handleRequest prover (some content) limit start finish = finishResponse prover limit start finish
      (stitch prover limit start (segmentsOf (readLeafsFromSnapshot content limit start finish).length
        (readLeafsFromSnapshot content limit start finish)) [] false) := by
    have invalid : isRangeValid prover start [] (readLeafsFromSnapshot content limit start finish) false = none := unproven
    unfold handleRequest fillFromSnapshot
    simp [invalid]
  have stitched : Stitched prover limit start finish false (segmentsOf (readLeafsFromSnapshot content limit start finish).length
      (readLeafsFromSnapshot content limit start finish)) [] (stitch prover limit start
        (segmentsOf (readLeafsFromSnapshot content limit start finish).length
          (readLeafsFromSnapshot content limit start finish)) [] false) := by
    rcases stitch_entries prover content start finish positive with ⟨whole, long⟩ | stitched
    · rw [whole, List.length_take] at long
      omega
    · exact stitched
  have flat := flatten_segmentsOf (Nat.le_refl (readLeafsFromSnapshot content limit start finish).length)
  have some_segment : segmentsOf (readLeafsFromSnapshot content limit start finish).length
      (readLeafsFromSnapshot content limit start finish) ≠ [] := by
    intro nothing
    rw [nothing] at flat
    rw [← flat] at there
    cases there
  have ends := stitched.ends gap some_segment
  rw [flat, final] at ends
  have all := eq_of_greatest stitched.begins (range_increasing trie _ _) (range_bounded _ _) ends greatest
  rw [all] at ends onwards
  have fetched := List.mem_of_getLast? ends
  have next : nextKey size start (trie.range (start.getD 0) finish) = some 0 := by
    unfold nextKey
    rw [ends]
    unfold incrOne
    simp only
    rw [greatest, Nat.mod_self]
  have appended : (appendLeaves limit finish (trie.range 0 none) (trie.range (start.getD 0) finish)).1 =
      trie.range (start.getD 0) finish ++ ((trie.range 0 none).filter fun leaf => within finish leaf.key).take
        (limit - (trie.range (start.getD 0) finish).length) :=
    (appendLeaves_eq (range_increasing trie 0 none) (Nat.le_of_lt short)).1
  have inside : (trie.range 0 none).filter (fun leaf => within finish leaf.key) = trie.range 0 finish := by
    unfold LeafTrie.range
    rw [List.filter_filter]
    refine List.filter_congr fun leaf _ => ?_
    cases within finish leaf.key <;> simp [within]
  rw [inside] at appended
  refine ⟨(trie.range 0 finish).take (limit - (trie.range (start.getD 0) finish).length), ?_, List.take_prefix _ _, ?_,
    last, fetched, greatest⟩
  · have member : last ∈ trie.range 0 finish :=
      mem_range.mpr ⟨(mem_range.mp fetched).1, Nat.zero_le _, (mem_range.mp fetched).2.2⟩
    intro nothing
    rcases List.take_eq_nil_iff.mp nothing with none_left | empty
    · omega
    · rw [empty] at member
      cases member
  · rw [onwards]
    unfold finishResponse fillFromTrie
    simp only [if_pos short, next, Option.getD_some]
    split <;> exact appended

/-- The response holds the first leaves of the range, as many as the limit admits, whatever the snapshot says, exactly when
the start does not wrap around. -/
theorem handleRequest_leaves_iff (prover : Prover trie Proof) (snapshot : Option (LeafTrie size Value)) (request : LeafsRequest)
    (positive : 0 < request.limit) :
    (handleRequest prover snapshot (min request.limit maxLeavesLimit) request.start request.finish).leaves =
        (trie.range (request.start.getD 0) request.finish).take (min request.limit maxLeavesLimit) ↔
      ¬Wraps prover snapshot (min request.limit maxLeavesLimit) request.start request.finish := by
  have some_room : 0 < min request.limit maxLeavesLimit := by
    unfold maxLeavesLimit
    omega
  refine ⟨fun same wraps => ?_, handleRequest_of_not_wraps some_room⟩
  obtain ⟨again, some_again, -, answered, -⟩ := handleRequest_of_wraps some_room wraps
  obtain ⟨-, -, -, -, -, short, -⟩ := wraps
  rw [answered, List.take_of_length_le (Nat.le_of_lt short)] at same
  have long := congrArg List.length same
  rw [List.length_append] at long
  have := List.length_pos_of_ne_nil some_again
  omega

/-! ## Requests -/

/-- A prover that does what is documented. -/
def documentedProver [DecidableEq Value] (trie : LeafTrie size Value) : Prover trie Unit where
  toRangeProofs := documentedProofs trie
  generateRangeProof _ _ := ()
  proves_whole first := by simp [documentedProofs]
  proves_empty first before := by
    simp only [documentedProofs, List.getLast?_nil]
    rw [if_pos before]
    rfl
  proves_edges first last _ ends := by
    obtain ⟨leaf, final, same⟩ := Option.map_eq_some_iff.mp ends
    simp [documentedProofs, final, same]

/-- A trie of one leaf, at the greatest of the one-byte keys. -/
def greatestTrie : LeafTrie 256 Nat := ⟨[⟨255, 1⟩], by decide, by decide⟩

/-- A snapshot with a segment of entries that the trie does not have, and its one leaf. -/
def staleSnapshot : LeafTrie 256 Nat where
  leaves := (List.range 64).map (fun key => ⟨key, 0⟩) ++ [⟨255, 1⟩]
  increasing := by decide +kernel
  bounded := by decide +kernel

/-- The leaf at the greatest key is answered twice. -/
theorem greatest_answeredTwice : ¬∀ (snapshot : Option (LeafTrie 256 Nat)) (request : LeafsRequest), 0 < request.limit →
    (handleRequest (documentedProver greatestTrie) snapshot (min request.limit maxLeavesLimit) request.start
        request.finish).leaves =
      (greatestTrie.range (request.start.getD 0) request.finish).take (min request.limit maxLeavesLimit) := by
  intro same
  have answered : (handleRequest (documentedProver greatestTrie) (some staleSnapshot) (min 128 maxLeavesLimit) none none).leaves =
      [⟨255, 1⟩, ⟨255, 1⟩] := by decide +kernel
  have expected := same (some staleSnapshot) ⟨none, none, 128⟩ (by decide)
  rw [answered] at expected
  exact absurd expected (by decide +kernel)

/-- A snapshot that lacks a leaf and has a stale one makes no difference. -/
theorem stale_answered :
    (handleRequest (documentedProver apartTrie) (some ⟨[⟨1, 11⟩, ⟨7, 70⟩], by decide, by decide⟩) (min 2 maxLeavesLimit) none
        (some 5)).leaves = (apartTrie.range 0 (some 5)).take (min 2 maxLeavesLimit) := by
  refine (handleRequest_leaves_iff (documentedProver apartTrie) _ ⟨none, some 5, 2⟩ (by decide)).mpr fun wraps => ?_
  obtain ⟨content, last, same, final, greatest, -⟩ := wraps
  cases same
  have below := (mem_readLeafs (List.mem_of_getLast? final)).2.1
  have := within_some.mp below
  omega

end Snowside.Leaves
