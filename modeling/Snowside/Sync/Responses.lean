import Mathlib.Data.List.Lex
import Mathlib.Order.Fin.Basic
import Snowside.Partial.Checked
import Snowside.Sync.Queue

/-! The client's check of a response with leaves, byte string by byte string. -/

set_option autoImplicit false

namespace Snowside.Responses

open Checked
open Queue (Bytes byte)

variable {Root CodecError VerifyError : Type}

/-! ## Requests and responses -/

structure LeafsRequest (Root : Type) where
  root : Root
  start : Option Bytes
  limit : UInt16

structure LeafsResponse where
  keys : List Bytes
  vals : List Bytes
  more : Bool
  proofVals : List Bytes
  deriving DecidableEq

/-- The memory database of a proof: each value at its hash. -/
abbrev ProofDB := List (Bytes × Bytes)

/-- What parseLeafsResponse calls. -/
structure Libraries (Root CodecError VerifyError : Type) where
  unmarshal : Bytes → Except CodecError LeafsResponse
  keccak256 : Bytes → Bytes
  verifyRangeProof : Root → Bytes → List Bytes → List Bytes → Option ProofDB → Except VerifyError Bool

inductive ParseError (CodecError VerifyError : Type) where
  | unmarshal (cause : CodecError)
  /-- "response contains more than requested leaves" -/
  | tooManyLeaves (keys : Nat) (limit : UInt16)
  /-- "empty key response must include merkle proof" -/
  | emptyKeyResponse
  /-- "failed to verify range proof" -/
  | invalidRangeProof (cause : VerifyError)

section

variable (libraries : Libraries Root CodecError VerifyError)

/-- The proof is there only when it has values. -/
def proofOf (proofVals : List Bytes) : Option ProofDB :=
  if proofVals.length > 0 then some (proofVals.map fun proofVal => (libraries.keccak256 proofVal, proofVal)) else none

/-- The start of the request; without one the smallest key as long as the last one. -/
def firstKey (start : Option Bytes) (keys : List Bytes) : Bytes :=
  match start, keys.getLast? with
  | some start, _ => start
  | none, some lastKey => List.replicate lastKey.length (byte 0)
  | none, none => []

/-- parseLeafsResponse: the response with its flag, and the number of its keys. -/
def parseLeafsResponse (leafsRequest : LeafsRequest Root) (data : Bytes) :
    Except (ParseError CodecError VerifyError) (LeafsResponse × Nat) := do
  let leafsResponse ← (libraries.unmarshal data).mapError .unmarshal
  -- Not more than the maximum requested number of leaves.
  refuse (leafsResponse.keys.length > leafsRequest.limit.toNat ∨ leafsResponse.vals.length > leafsRequest.limit.toNat)
    (.tooManyLeaves leafsResponse.keys.length leafsRequest.limit)
  refuse (leafsResponse.keys.length = 0 ∧ leafsResponse.proofVals.length = 0) .emptyKeyResponse
  let more ← (libraries.verifyRangeProof leafsRequest.root (firstKey leafsRequest.start leafsResponse.keys) leafsResponse.keys
    leafsResponse.vals (proofOf libraries leafsResponse.proofVals)).mapError .invalidRangeProof
  return ({ leafsResponse with more := more }, leafsResponse.keys.length)

end

/-! ## Tries -/

/-- The keys and values of a trie whose keys have one length. -/
structure Trie where
  keyLength : Nat
  leaves : List (Bytes × Bytes)
  increasing : leaves.Pairwise fun first second => first.1 < second.1
  lengths : ∀ leaf ∈ leaves, leaf.1.length = keyLength

/-- trie.VerifyRangeProof as it is documented, on every trie with the root: without a proof the range is all leaves of the trie;
with one and no key there are no leaves from the first key on; with one and keys, they are all leaves from the first key to the
last one, and the flag says whether there are leaves beyond. There are as many values as keys. -/
structure Documented (rootOf : Trie → Root)
    (verifyRangeProof : Root → Bytes → List Bytes → List Bytes → Option ProofDB → Except VerifyError Bool) : Prop where
  lengths : ∀ root first keys vals proof more, verifyRangeProof root first keys vals proof = .ok more → vals.length = keys.length
  all : ∀ trie first keys vals more, verifyRangeProof (rootOf trie) first keys vals none = .ok more →
    keys.zip vals = trie.leaves ∧ more = false
  zero : ∀ trie first vals proof more, verifyRangeProof (rootOf trie) first [] vals (some proof) = .ok more →
    (∀ leaf ∈ trie.leaves, leaf.1 < first) ∧ more = false
  range : ∀ trie first keys vals proof more last, verifyRangeProof (rootOf trie) first keys vals (some proof) = .ok more →
    keys.getLast? = some last →
    keys.zip vals = trie.leaves.filter (fun leaf => first ≤ leaf.1 && leaf.1 ≤ last) ∧
      (more = true ↔ ∃ leaf ∈ trie.leaves, last < leaf.1)

/-! ## Leaves in a range -/

/-- Without a start every key is from it on. -/
def fromStart (start : Option Bytes) (key : Bytes) : Bool := start.all fun start => start ≤ key

/-- Without a last key every key is up to it. -/
def upTo (last : Option Bytes) (key : Bytes) : Bool := last.all fun last => key ≤ last

/-- The leaves of a response are the trie's from the start up to the last of them, or all from the start on when there is none;
the flag says whether there are leaves beyond. -/
structure Exact (trie : Trie) (leafsRequest : LeafsRequest Root) (response : LeafsResponse) : Prop where
  lengths : response.vals.length = response.keys.length
  leaves : response.keys.zip response.vals =
    trie.leaves.filter fun leaf => fromStart leafsRequest.start leaf.1 && upTo response.keys.getLast? leaf.1
  few : response.keys.length ≤ leafsRequest.limit.toNat
  more : response.more = true ↔ ∃ last ∈ response.keys.getLast?, ∃ leaf ∈ trie.leaves, last < leaf.1

/-- Zeros are the smallest key of their length. -/
theorem zeros_le (key : Bytes) : List.replicate key.length (byte 0) ≤ key := by
  induction key with
  | nil => exact le_rfl
  | cons byte rest ih =>
    rw [← not_lt] at ih ⊢
    rw [List.length_cons, List.replicate_succ, List.cons_lt_cons_iff]
    rintro (below | ⟨-, below⟩)
    · exact Nat.not_lt_zero _ below
    · exact ih below

theorem map_fst_zip {keys vals : List Bytes} (lengths : vals.length = keys.length) : (keys.zip vals).map Prod.fst = keys :=
  List.map_fst_zip lengths.symm.le

section

variable {libraries : Libraries Root CodecError VerifyError} {rootOf : Trie → Root} {leafsRequest : LeafsRequest Root} {data : Bytes}
  {response : LeafsResponse} {count : Nat}

/-- What has been checked when a response is accepted. -/
theorem parseLeafsResponse_eq_ok (accepted : parseLeafsResponse libraries leafsRequest data = .ok (response, count)) :
    response.keys.length ≤ leafsRequest.limit.toNat ∧ (response.keys ≠ [] ∨ response.proofVals ≠ []) ∧
      libraries.verifyRangeProof leafsRequest.root (firstKey leafsRequest.start response.keys) response.keys response.vals
        (proofOf libraries response.proofVals) = .ok response.more := by
  unfold parseLeafsResponse at accepted
  simp only [bind_eq_ok, mapError_eq_ok, refuse_eq_ok, pure_eq, Except.ok.injEq, Prod.mk.injEq] at accepted
  obtain ⟨unmarshalled, -, _, few, _, some_proof, more, verified, rfl, -⟩ := accepted
  refine ⟨Nat.not_lt.mp fun many => few (.inl many), ?_, verified⟩
  by_contra nothing
  obtain ⟨no_keys, no_proof⟩ := not_or.mp nothing
  exact some_proof ⟨List.length_eq_zero_iff.mpr (not_not.mp no_keys), List.length_eq_zero_iff.mpr (not_not.mp no_proof)⟩

variable {trie : Trie}

/-- With a proof the leaves are what was asked for. -/
theorem exact_of_proof (documented : Documented rootOf libraries.verifyRangeProof) (rooted : rootOf trie = leafsRequest.root)
    (accepted : parseLeafsResponse libraries leafsRequest data = .ok (response, count)) (proven : response.proofVals ≠ []) :
    Exact trie leafsRequest response := by
  obtain ⟨few, -, verified⟩ := parseLeafsResponse_eq_ok accepted
  have lengths := documented.lengths _ _ _ _ _ _ verified
  rw [← rooted, proofOf, if_pos (List.length_pos_iff.mpr proven)] at verified
  cases final : response.keys.getLast? with
  | none =>
    have no_keys := List.getLast?_eq_none_iff.mp final
    rw [no_keys] at verified
    obtain ⟨before, no_more⟩ := documented.zero _ _ _ _ _ verified
    refine ⟨lengths, ?_, few, ?_⟩
    · rw [no_keys, List.zip_nil_left]
      refine (List.filter_eq_nil_iff.mpr fun leaf member => ?_).symm
      have below := before leaf member
      cases asked : leafsRequest.start with
      | none =>
        rw [asked] at below
        exact absurd below (List.not_lt_nil leaf.1)
      | some start =>
        rw [asked] at below
        have late : ¬ start ≤ leaf.1 := not_le.mpr below
        simp [fromStart, late]
    · simp [no_more, final]
  | some last =>
    obtain ⟨same, beyond⟩ := documented.range _ _ _ _ _ _ _ verified final
    refine ⟨lengths, ?_, few, ?_⟩
    · rw [same, final]
      refine List.filter_congr fun leaf member => ?_
      suffices first : decide (firstKey leafsRequest.start response.keys ≤ leaf.1) = fromStart leafsRequest.start leaf.1 by
        rw [first]
        rfl
      cases asked : leafsRequest.start with
      | some start => rfl
      | none =>
        have last_listed : last ∈ (response.keys.zip response.vals).map Prod.fst := by
          rw [map_fst_zip lengths]
          exact List.mem_of_getLast? final
        obtain ⟨last_leaf, listed, rfl⟩ := List.mem_map.mp last_listed
        rw [same] at listed
        have long := trie.lengths last_leaf (List.mem_filter.mp listed).1
        simp only [firstKey, final, fromStart, Option.all_none, long, ← trie.lengths leaf member]
        exact decide_eq_true (zeros_le leaf.1)
    · simpa [final] using beyond

/-- Without a proof they are all leaves of the trie. -/
theorem exact_of_whole (documented : Documented rootOf libraries.verifyRangeProof) (rooted : rootOf trie = leafsRequest.root)
    (accepted : parseLeafsResponse libraries leafsRequest data = .ok (response, count)) (unproven : response.proofVals = [])
    (asked : ∀ key ∈ response.keys, fromStart leafsRequest.start key = true) : Exact trie leafsRequest response := by
  obtain ⟨few, some_key, verified⟩ := parseLeafsResponse_eq_ok accepted
  have lengths := documented.lengths _ _ _ _ _ _ verified
  rw [← rooted, proofOf, if_neg (by simp [unproven])] at verified
  obtain ⟨same, no_more⟩ := documented.all _ _ _ _ _ verified
  have keys : trie.leaves.map Prod.fst = response.keys := by rw [← same, map_fst_zip lengths]
  have increasing : response.keys.Pairwise (· < ·) := keys ▸ List.pairwise_map.mpr trie.increasing
  obtain ⟨last, final⟩ : ∃ last, response.keys.getLast? = some last :=
    ⟨_, List.getLast?_eq_some_getLast (some_key.resolve_right (absurd unproven))⟩
  have up_to_last : ∀ leaf ∈ trie.leaves, leaf.1 ≤ last := by
    intro leaf member
    have listed : leaf.1 ∈ response.keys := keys ▸ List.mem_map_of_mem member
    rw [← List.dropLast_append_getLast? last final] at listed increasing
    rcases List.mem_append.mp listed with earlier | here
    · exact ((List.pairwise_append.mp increasing).2.2 leaf.1 earlier last (List.mem_singleton_self last)).le
    · exact (List.mem_singleton.mp here).le
  refine ⟨lengths, ?_, few, ?_⟩
  · rw [same, final]
    refine (List.filter_eq_self.mpr fun leaf member => ?_).symm
    have listed : leaf.1 ∈ response.keys := keys ▸ List.mem_map_of_mem member
    rw [asked leaf.1 listed, Bool.true_and]
    exact decide_eq_true (up_to_last leaf member)
  · rw [no_more, final]
    simp only [Bool.false_eq_true, Option.mem_some_iff, false_iff]
    rintro ⟨_, rfl, leaf, member, beyond⟩
    exact absurd (up_to_last leaf member) (not_le.mpr beyond)

end

/-- A verifier that does what is documented, where a trie is its own root: a proof has nothing to say but that it is one. -/
def sampleVerify (root : List (Bytes × Bytes)) (first : Bytes) (keys vals : List Bytes) (proof : Option ProofDB) : Except Unit Bool :=
  if vals.length ≠ keys.length then .error ()
  else
    match proof, keys.getLast? with
    | none, _ => if keys.zip vals = root then .ok false else .error ()
    | some _, none => if ∀ leaf ∈ root, leaf.1 < first then .ok false else .error ()
    | some _, some last =>
      if keys.zip vals = root.filter (fun leaf => first ≤ leaf.1 && leaf.1 ≤ last) then
        .ok (root.any fun leaf => last < leaf.1)
      else .error ()

theorem sampleVerify_documented : Documented Trie.leaves sampleVerify where
  lengths root first keys vals proof more verified := by
    unfold sampleVerify at verified
    split at verified
    · cases verified
    · rename_i lengths
      exact not_not.mp lengths
  all trie first keys vals more verified := by
    unfold sampleVerify at verified
    split at verified
    · cases verified
    · dsimp only at verified
      split at verified
      · rename_i same
        exact ⟨same, (Except.ok.inj verified).symm⟩
      · cases verified
  zero trie first vals proof more verified := by
    unfold sampleVerify at verified
    split at verified
    · cases verified
    · rw [List.getLast?_nil] at verified
      dsimp only at verified
      split at verified
      · rename_i before
        exact ⟨before, (Except.ok.inj verified).symm⟩
      · cases verified
  range trie first keys vals proof more last verified final := by
    unfold sampleVerify at verified
    split at verified
    · cases verified
    · rw [final] at verified
      dsimp only at verified
      split at verified
      · rename_i same
        cases verified
        exact ⟨same, by simp⟩
      · cases verified

/-- Every response is the given one. -/
def sampleLibraries (response : LeafsResponse) : Libraries (List (Bytes × Bytes)) Unit Unit where
  unmarshal _ := .ok response
  keccak256 value := value
  verifyRangeProof := sampleVerify

def sampleTrie : Trie where
  keyLength := 1
  leaves := [([byte 1], [byte 10]), ([byte 3], [byte 30]), ([byte 7], [byte 70])]
  increasing := by decide
  lengths := by decide

def sampleRequest : LeafsRequest (List (Bytes × Bytes)) := ⟨sampleTrie.leaves, some [byte 2], 8⟩

/-- The whole trie, without a proof. -/
def wholeResponse : LeafsResponse := ⟨[[byte 1], [byte 3], [byte 7]], [[byte 10], [byte 30], [byte 70]], false, []⟩

/-- One of two leaves, with a proof. -/
def provenResponse : LeafsResponse := ⟨[[byte 3]], [[byte 30]], false, [[byte 5]]⟩

end Snowside.Responses
