import Snowside.Sync.Serving

/-! What an honest server answers, and what its client accepts. -/

set_option autoImplicit false

namespace Snowside.Leaves

variable {Value Proof : Type} {size : Nat} {trie : LeafTrie size Value} {prover : Prover trie Proof}
variable {start finish : Option Nat} {limit : Nat}

/-! ## Leaves -/

/-- The first leaves of a range are the trie's from the start to the last of them. -/
theorem exact_take (positive : 0 < limit) : Exact trie (start.getD 0) ((trie.range (start.getD 0) none).take limit) := by
  cases final : ((trie.range (start.getD 0) none).take limit).getLast? with
  | none =>
    have nothing := List.getLast?_eq_none_iff.mp final
    refine .inl ⟨nothing, fun leaf member => ?_⟩
    have empty : trie.range (start.getD 0) none = [] := (List.take_eq_nil_iff.mp nothing).resolve_left (Nat.ne_of_gt positive)
    by_contra late
    have there : leaf ∈ trie.range (start.getD 0) none := mem_range.mpr ⟨member, Nat.not_lt.mp late, rfl⟩
    rw [empty] at there
    cases there
  | some last =>
    have head := (filter_of_leading (range_increasing trie _ _) (List.take_append_drop limit _) final).1
    have cut : (trie.range (start.getD 0) none).filter (fun leaf => decide (leaf.key ≤ last.key)) =
        trie.range (start.getD 0) (some last.key) := range_filter_le rfl
    rw [cut] at head
    exact .inr ⟨last, final, head⟩

/-- A response has the proof of its leaves, or none when it is the whole trie from its first key. -/
def Evidenced (prover : Prover trie Proof) (start : Option Nat) (response : LeafsResponse Value Proof) : Prop :=
  response.proof = some (prover.generateRangeProof (start.getD 0) (response.leaves.getLast?.map Leaf.key)) ∨
    (response.proof = none ∧ start = none ∧ response.leaves = trie.leaves)

theorem range_zero : trie.range 0 none = trie.leaves :=
  List.filter_eq_self.mpr fun leaf _ => by simp [within]

theorem finishResponse_evidenced {response : List (Leaf Value)} (begins : response <+: trie.range (start.getD 0) none)
    (low : response.length < limit → ∀ leaf ∈ response, leaf.key + 1 < size) :
    Evidenced prover start (finishResponse prover limit start none response) := by
  unfold finishResponse
  by_cases more_room : response.length < limit
  · simp only [if_pos more_room]
    split
    · rename_i complete
      simp only [Bool.and_eq_true, Option.isNone_iff_eq_none, Bool.not_eq_true'] at complete
      obtain ⟨absent, ended⟩ := complete
      refine .inr ⟨rfl, absent, ?_⟩
      have appended := (appendLeaves_eq (range_increasing trie ((nextKey size start response).getD 0) none)
        (Nat.le_of_lt more_room)).2.mp ended
      have whole := range_eq_append begins (low more_room)
      show (fillFromTrie trie limit start none response).1 = _
      unfold fillFromTrie
      rw [appended, whole, absent]
      exact range_zero
    · exact .inl rfl
  · simp only [if_neg more_room]
    exact .inl rfl

theorem handleRequest_evidenced {snapshot : Option (LeafTrie size Value)} (positive : 0 < limit)
    (straight : ¬Wraps prover snapshot limit start none) :
    Evidenced prover start (handleRequest prover snapshot limit start none) := by
  cases snapshot with
  | none =>
    exact finishResponse_evidenced List.nil_prefix fun _ leaf impossible => absurd impossible List.not_mem_nil
  | some content =>
    cases proven : isRangeValid prover start [] (readLeafsFromSnapshot content limit start none) false with
    | some more =>
      have direct : provenFrom prover (start.getD 0) (readLeafsFromSnapshot content limit start none) = some more := proven
      obtain ⟨begins, ended, low⟩ := proven_entries direct
      cases more with
      | false =>
        unfold handleRequest fillFromSnapshot
        simp only [proven, Bool.not_false, Bool.and_true]
        cases start with
        | none =>
          refine .inr ⟨rfl, rfl, ?_⟩
          have whole := ended rfl
          show readLeafsFromSnapshot content limit none none = trie.leaves
          rw [← whole]
          exact range_zero
        | some first => exact .inl rfl
      | true =>
        have onwards : handleRequest prover (some content) limit start none =
            finishResponse prover limit start none (readLeafsFromSnapshot content limit start none) := by
          unfold handleRequest fillFromSnapshot
          simp [proven]
        rw [onwards]
        exact finishResponse_evidenced begins fun _ => low rfl
    | none =>
      have onwards : handleRequest prover (some content) limit start none = finishResponse prover limit start none
          (stitch prover limit start (segmentsOf (readLeafsFromSnapshot content limit start none).length
            (readLeafsFromSnapshot content limit start none)) [] false) := by
        unfold handleRequest fillFromSnapshot
        simp [proven]
      rw [onwards]
      obtain ⟨begins, low⟩ := stitch_begins positive proven straight
      exact finishResponse_evidenced begins low

/-- A request of syncTask: no end. -/
def leafRequest (start : Option Nat) (limit : Nat) : LeafsRequest := ⟨start, none, limit⟩

/-- The server answers, and the client accepts the answer with the right More flag. -/
def LeavesServed (prover : Prover trie Proof) (snapshot : Option (LeafTrie size Value)) (request : LeafsRequest) : Prop :=
  ∃ response more, onLeafsRequest prover snapshot request = some response ∧
    parseLeafsResponse prover.toRangeProofs request.limit request.start ⟨response.leaves, response.proof, none⟩ = some more ∧
    (more = true ↔ ∃ last, response.leaves.getLast? = some last ∧ ∃ leaf ∈ trie.leaves, last.key < leaf.key)

theorem onLeafsRequest_eq (snapshot : Option (LeafTrie size Value)) (positive : 0 < limit) :
    onLeafsRequest prover snapshot (leafRequest start limit) =
      some (handleRequest prover snapshot (min limit maxLeavesLimit) start none) := by
  have some_limit : limit ≠ 0 := Nat.ne_of_gt positive
  simp [onLeafsRequest, leafRequest, some_limit]

/-- Leaves with their proof are accepted, and so is the whole trie without one. -/
theorem parse_of_evidenced {requestSize : Nat} {response : LeafsResponse Value Proof} (some_leaf : trie.leaves ≠ [])
    (few : response.leaves.length ≤ requestSize) (exact_leaves : Exact trie (start.getD 0) response.leaves)
    (evidenced : Evidenced prover start response) :
    ∃ more, parseLeafsResponse prover.toRangeProofs requestSize start ⟨response.leaves, response.proof, none⟩ = some more ∧
      (more = true ↔ ∃ last, response.leaves.getLast? = some last ∧ ∃ leaf ∈ trie.leaves, last.key < leaf.key) := by
  unfold parseLeafsResponse
  simp only [if_neg (Nat.not_lt.mpr few)]
  rcases evidenced with proven | ⟨unproven, absent, whole⟩
  · obtain ⟨more, accepted⟩ : ∃ more, provenFrom prover (start.getD 0) response.leaves = some more :=
      proven_of_exact exact_leaves
    have further := (exact_of_proven accepted).2
    rw [proven]
    exact ⟨more, by simpa [provenFrom] using accepted, further⟩
  · obtain ⟨more, accepted⟩ := Option.isSome_iff_exists.mp (prover.proves_whole (start.getD 0))
    rw [unproven, whole]
    have present : trie.leaves.isEmpty = false := by simpa using some_leaf
    refine ⟨more, by simpa [present] using accepted, ?_⟩
    rw [(prover.whole _ _ _ accepted).2]
    refine iff_of_false (by decide) fun beyond => ?_
    obtain ⟨last, final, leaf, member, late⟩ := beyond
    have := le_getLast trie.increasing final leaf member
    omega

/-- An answer whose start has wrapped around is not increasing, and is not accepted. -/
theorem not_parsed_of_wraps {snapshot : Option (LeafTrie size Value)} {requestSize : Nat} {more : Bool} (positive : 0 < limit)
    (wraps : Wraps prover snapshot limit start none) :
    parseLeafsResponse prover.toRangeProofs requestSize start
      ⟨(handleRequest prover snapshot limit start none).leaves, (handleRequest prover snapshot limit start none).proof, none⟩ ≠
        some more := by
  intro parsed
  have increasing := parse_increasing parsed
  obtain ⟨again, some_again, begins, answered, last, there, greatest⟩ := handleRequest_of_wraps positive wraps
  rw [answered] at increasing
  obtain ⟨leaf, rest, rfl⟩ := List.exists_cons_of_ne_nil some_again
  have after := (List.pairwise_append.mp increasing).2.2 last there leaf List.mem_cons_self
  have bounded := range_bounded 0 none leaf (begins.subset List.mem_cons_self)
  omega

theorem leavesServed_iff (prover : Prover trie Proof) (snapshot : Option (LeafTrie size Value)) (some_leaf : trie.leaves ≠ [])
    (positive : 0 < limit) :
    LeavesServed prover snapshot (leafRequest start limit) ↔ ¬Wraps prover snapshot (min limit maxLeavesLimit) start none := by
  have some_room : 0 < min limit maxLeavesLimit := by
    unfold maxLeavesLimit
    omega
  constructor
  · intro served wraps
    obtain ⟨response, more, answered, parsed, -⟩ := served
    rw [onLeafsRequest_eq snapshot positive] at answered
    cases answered
    exact not_parsed_of_wraps some_room wraps parsed
  · intro straight
    have leaves := handleRequest_of_not_wraps some_room straight
    have few : (handleRequest prover snapshot (min limit maxLeavesLimit) start none).leaves.length ≤ limit := by
      rw [leaves]
      have := List.length_take_le (min limit maxLeavesLimit) (trie.range (start.getD 0) none)
      omega
    have exact_leaves : Exact trie (start.getD 0) (handleRequest prover snapshot (min limit maxLeavesLimit) start none).leaves := by
      rw [leaves]
      exact exact_take some_room
    obtain ⟨more, parsed, further⟩ := parse_of_evidenced some_leaf few exact_leaves (handleRequest_evidenced some_room straight)
    exact ⟨_, more, onLeafsRequest_eq snapshot positive, parsed, further⟩

/-! ## Blocks -/

/-- A server's blocks, and the encoding and parser that it shares with its clients: a block is found under its hash, and
parses to itself. -/
structure BlockStore (Block Hash : Type) where
  zero : Hash
  hash : Block → Hash
  parentHash : Block → Hash
  encode : Block → List UInt8
  parseEthBlock : List UInt8 → Option Block
  getBlock : Hash → BitVec 64 → Option Block
  hash_getBlock : ∀ name height block, getBlock name height = some block → hash block = name
  parse_encode : ∀ name height block, getBlock name height = some block → parseEthBlock (encode block) = some block

structure BlockRequest (Hash : Type) where
  hash : Hash
  height : BitVec 64
  parents : Nat

def parentLimit : Nat := 64
def targetMessageByteSize : Nat := 1024 * 1024 - 1024

variable {Block Hash : Type} [DecidableEq Hash] {store : BlockStore Block Hash}

/-- The loop of OnBlockRequest: so many more blocks, from a hash and a height on. -/
def collectBlocks (store : BlockStore Block Hash) : Nat → Hash → BitVec 64 → List (List UInt8) → Nat → List (List UInt8)
  | 0, _, _, blocks, _ => blocks
  | count + 1, hash, height, blocks, totalBytes =>
    if hash = store.zero then blocks
    else
      match store.getBlock hash height with
      | none => blocks
      | some block =>
        let buffer := store.encode block
        if targetMessageByteSize < buffer.length + totalBytes ∧ 0 < blocks.length then blocks
        else collectBlocks store count (store.parentHash block) (height - 1) (blocks ++ [buffer]) (totalBytes + buffer.length)

/-- OnBlockRequest; without a block the request is dropped. -/
def onBlockRequest (store : BlockStore Block Hash) (request : BlockRequest Hash) : Option (List (List UInt8)) :=
  let blocks := collectBlocks store (min request.parents parentLimit) request.hash request.height [] 0
  if blocks.isEmpty then none else some blocks

/-- The loop of parseBlocks: each block has the hash that the one before names as its parent. -/
def parseChain (store : BlockStore Block Hash) : Hash → List (List UInt8) → Option (List Block)
  | _, [] => some []
  | hash, bytes :: rest =>
    match store.parseEthBlock bytes with
    | none => none
    | some block =>
      if store.hash block = hash then (parseChain store (store.parentHash block) rest).map fun blocks => block :: blocks
      else none

def parseBlocks (store : BlockStore Block Hash) (request : BlockRequest Hash) (response : List (List UInt8)) :
    Option (List Block) :=
  if response.isEmpty then none
  else if request.parents < response.length then none
  else parseChain store request.hash response

/-- What is collected from a hash on is a chain from it. -/
theorem collectBlocks_chain (store : BlockStore Block Hash) (count : Nat) (hash : Hash) (height : BitVec 64) (blocks : List (List UInt8)) (totalBytes : Nat) :
    ∃ tail, collectBlocks store count hash height blocks totalBytes = blocks ++ tail ∧ tail.length ≤ count ∧
      (parseChain store hash tail).isSome := by
  have nothing : ∃ tail, blocks = blocks ++ tail ∧ tail.length ≤ count ∧ (parseChain store hash tail).isSome :=
    ⟨[], (List.append_nil _).symm, Nat.zero_le _, rfl⟩
  induction count generalizing hash height blocks totalBytes with
  | zero => exact nothing
  | succ count ih =>
    unfold collectBlocks
    split
    · exact nothing
    · split
      · exact nothing
      · rename_i block found
        dsimp only
        split
        · exact nothing
        · obtain ⟨tail, collected, short, chained⟩ := ih (store.parentHash block) (height - 1)
            (blocks ++ [store.encode block]) (totalBytes + (store.encode block).length)
            ⟨[], (List.append_nil _).symm, Nat.zero_le _, rfl⟩
          refine ⟨store.encode block :: tail, ?_, Nat.succ_le_succ short, ?_⟩
          · rw [collected, List.append_assoc, List.singleton_append]
          · obtain ⟨later, parsed⟩ := Option.isSome_iff_exists.mp chained
            simp only [parseChain, store.parse_encode hash height block found, store.hash_getBlock hash height block found,
              if_true, parsed]
            rfl

/-- The first block is always sent. -/
theorem collectBlocks_ne_nil {count : Nat} {hash : Hash} {height : BitVec 64} {block : Block} (named : hash ≠ store.zero)
    (found : store.getBlock hash height = some block) : collectBlocks store (count + 1) hash height [] 0 ≠ [] := by
  unfold collectBlocks
  simp only [if_neg named, found, List.length_nil, Nat.lt_irrefl, and_false, if_false, List.nil_append]
  obtain ⟨tail, collected, -, -⟩ := collectBlocks_chain store count (store.parentHash block) (height - 1)
    [store.encode block] (0 + (store.encode block).length)
  rw [collected]
  simp

/-- The server answers, and the client accepts the answer. -/
def BlocksServed (store : BlockStore Block Hash) (request : BlockRequest Hash) : Prop :=
  ∃ response blocks, onBlockRequest store request = some response ∧ parseBlocks store request response = some blocks

theorem blocks_served {request : BlockRequest Hash} {block : Block} (named : request.hash ≠ store.zero)
    (found : store.getBlock request.hash request.height = some block) (positive : 0 < request.parents) :
    BlocksServed store request := by
  have some_parent : 0 < min request.parents parentLimit := by
    unfold parentLimit
    omega
  obtain ⟨tail, collected, short, chained⟩ :=
    collectBlocks_chain store (min request.parents parentLimit) request.hash request.height [] 0
  rw [List.nil_append] at collected
  have some_block : tail ≠ [] := by
    obtain ⟨count, more⟩ := Nat.exists_eq_add_one.mpr some_parent
    rw [← collected, more]
    exact collectBlocks_ne_nil named found
  obtain ⟨blocks, parsed⟩ := Option.isSome_iff_exists.mp chained
  have present : tail.isEmpty = false := by simpa using some_block
  refine ⟨tail, blocks, ?_, ?_⟩
  · simp only [onBlockRequest, collected, present]
    rfl
  · have few : ¬request.parents < tail.length := by omega
    simp only [parseBlocks, present, Bool.false_eq_true, if_false, if_neg few]
    exact parsed

/-! ## Both -/

/-- The answers of an honest server to a request for leaves and to one for blocks are accepted, with the right More flag,
exactly when the start of the answer to the first does not wrap around. -/
theorem honestServer_accepted_iff (prover : Prover trie Proof) (snapshot : Option (LeafTrie size Value))
    (some_leaf : trie.leaves ≠ []) (positive : 0 < limit) (store : BlockStore Block Hash) {request : BlockRequest Hash}
    {block : Block} (named : request.hash ≠ store.zero)
    (found : store.getBlock request.hash request.height = some block) (some_parent : 0 < request.parents) :
    LeavesServed prover snapshot (leafRequest start limit) ∧ BlocksServed store request ↔
      ¬Wraps prover snapshot (min limit maxLeavesLimit) start none := by
  rw [leavesServed_iff prover snapshot some_leaf positive]
  exact and_iff_left (blocks_served named found some_parent)

/-- The answer that has the leaf at the greatest key twice is not accepted. -/
theorem greatest_rejected : ¬∀ (snapshot : Option (LeafTrie 256 Nat)) (start : Option Nat) (limit : Nat), 0 < limit →
    LeavesServed (documentedProver greatestTrie) snapshot (leafRequest start limit) := by
  intro served
  have wraps : Wraps (documentedProver greatestTrie) (some staleSnapshot) (min 128 maxLeavesLimit) none none :=
    ⟨staleSnapshot, ⟨255, 1⟩, rfl, by decide +kernel, rfl, by decide +kernel, by decide +kernel, by decide +kernel⟩
  exact (leavesServed_iff _ _ (by decide) (by decide)).mp (served (some staleSnapshot) none 128 (by decide)) wraps

/-- A chain of two blocks. -/
def twoBlocks : BlockStore Bool Nat where
  zero := 0
  hash block := if block then 2 else 1
  parentHash block := if block then 1 else 0
  encode block := if block then [1] else [0]
  parseEthBlock bytes := if bytes = [1] then some true else if bytes = [0] then some false else none
  getBlock name _ := if name = 2 then some true else if name = 1 then some false else none
  hash_getBlock name height block found := by
    split at found
    · rename_i same
      cases found
      exact same.symm
    · split at found
      · rename_i same
        cases found
        exact same.symm
      · cases found
  parse_encode name height block _ := by cases block <;> rfl

theorem apart_accepted :
    LeavesServed (documentedProver apartTrie) (some ⟨[⟨1, 11⟩, ⟨7, 70⟩], by decide, by decide⟩) (leafRequest (some 2) 1) ∧
      BlocksServed twoBlocks ⟨2, 7, 5⟩ := by
  refine (honestServer_accepted_iff (documentedProver apartTrie) _ (by decide) (by decide) twoBlocks (by decide)
    (show twoBlocks.getBlock 2 7 = some true from rfl) (by decide)).mpr fun wraps => ?_
  obtain ⟨content, last, same, final, greatest, -⟩ := wraps
  cases same
  have there := List.mem_of_getLast? final
  have read : readLeafsFromSnapshot (⟨[⟨1, 11⟩, ⟨7, 70⟩], by decide, by decide⟩ : LeafTrie 256 Nat) (min 1 maxLeavesLimit)
      (some 2) none = [⟨7, 70⟩] := by decide +kernel
  rw [read] at there
  rw [List.mem_singleton.mp there] at greatest
  cases greatest

end Snowside.Leaves
