import Snowside.State.TrieWriter

/-! The references to the roots of recent and of undecided blocks. -/

set_option autoImplicit false

namespace Snowside.State

open Precompile (Hash)
open BoundedBuffer (Holds givenUp kept givenUp_append_kept givenUp_room givenUp_full inserts recorded)
open Runs Stateful TrieDB

/-! ## Lost references -/

section

variable {S TrieError Size : Type} [TrieDB S TrieError Size] {before between after : S} {lost more : Hash → Nat}

theorem Loses.refl (db : S) : Loses 0 db db := fun root => by
  by_cases stored : onDisk db root
  · exact .inl stored
  · exact .inr ⟨stored, le_rfl⟩

theorem Loses.trans (first : Loses lost before between) (second : Loses more between after) : Loses (lost + more) before after := by
  intro root
  rcases second root with stored | ⟨absent, later⟩
  · exact .inl stored
  rcases first root with stored | ⟨absent', earlier⟩
  · exact absurd stored absent
  · exact .inr ⟨absent', by rw [Pi.add_apply]; omega⟩

/-- The roots that are held keep their references. -/
theorem Loses.held (loses : Loses lost before after) {held held' : Hash → Nat} (fewer : ∀ root, held' root + lost root ≤ held root)
    (referenced : ∀ root, onDisk before root ∨ held root ≤ references before root) (root : Hash) :
    onDisk after root ∨ held' root ≤ references after root := by
  rcases loses root with stored | ⟨absent, enough⟩
  · exact .inl stored
  rcases referenced root with stored | held
  · exact absurd stored absent
  · have fewer := fewer root
    exact .inr (by omega)

end

/-! ## Roots of blocks -/

/-- How many of the blocks have a root. -/
def rootCount (blocks : List Block) (root : Hash) : Nat := (blocks.map Block.root).count root

theorem rootCount_cons (block : Block) (blocks : List Block) (root : Hash) :
    rootCount (block :: blocks) root = rootCount blocks root + [block.root].count root := by
  rw [rootCount, rootCount, List.map_cons, List.count_cons, List.count_singleton]

theorem rootCount_append (first second : List Block) (root : Hash) :
    rootCount (first ++ second) root = rootCount first root + rootCount second root := by
  rw [rootCount, List.map_append, List.count_append]
  rfl

theorem rootCount_erase {block : Block} {blocks : List Block} (member : block ∈ blocks) (root : Hash) :
    rootCount blocks root = rootCount (blocks.erase block) root + [block.root].count root := by
  rw [← rootCount_cons]
  exact ((List.perm_cons_erase member).map Block.root).count_eq root

theorem givenUp_map (size : Nat) (blocks : List Block) : givenUp size (blocks.map Block.root) = (givenUp size blocks).map Block.root := by
  rw [givenUp, givenUp, List.length_map, List.map_take]

section

variable {size : Nat} {accepted : List Block} {block : Block} {lost : List Hash}
  (more : givenUp size (accepted.map Block.root ++ [block.root]) = givenUp size (accepted.map Block.root) ++ lost)

include more

theorem rootCount_givenUp (root : Hash) :
    rootCount (givenUp size (accepted ++ [block])) root = rootCount (givenUp size accepted) root + lost.count root := by
  rw [rootCount, rootCount, ← givenUp_map, ← givenUp_map, List.map_append, ← List.count_append, ← more]
  rfl

theorem rootCount_kept (root : Hash) :
    rootCount (kept size (accepted ++ [block])) root + lost.count root = rootCount (kept size accepted) root + [block.root].count root := by
  have given := rootCount_givenUp more root
  have before := congrArg (rootCount · root) (givenUp_append_kept size accepted)
  have after := congrArg (rootCount · root) (givenUp_append_kept size (accepted ++ [block]))
  simp only [rootCount_append] at before after
  have one : rootCount [block] root = [block.root].count root := rfl
  omega

end

/-! ## The writer -/

section

variable {S TrieError Size : Type} [TrieDB S TrieError Size] [LawfulTrieDB S]

theorem dereference_cases (root : Hash) (db : S) (dereferenced : List Hash) :
    (∃ after, perform (dereference root) (db, dereferenced) = (.ok (), (after, dereferenced ++ [root])) ∧
      Loses ([root].count ·) db after) ∨
    ∃ error after, perform (dereference root) (db, dereferenced) = (.error error, (after, dereferenced)) ∧ Loses 0 db after := by
  rcases ended : perform (dereference root) db with ⟨result, after⟩
  cases result with
  | ok =>
    have loses := LawfulTrieDB.dereference db root after ended
    exact .inl ⟨after, BoundedBuffer.perform_recorded_ok dereferenced ended, loses⟩
  | error error =>
    have loses := LawfulTrieDB.dereference_error db root error after ended
    exact .inr ⟨error, after, BoundedBuffer.perform_recorded_error dereferenced ended, loses⟩

/-- Of the writer only the database has changed, and no reference is lost. -/
structure Leaves (before after : TrieWriter (S × List Hash) Size) : Prop where
  tipBuffer : after.tipBuffer = before.tipBuffer
  dereferenced : after.db.2 = before.db.2
  loses : Loses 0 before.db.1 after.db.1

omit [LawfulTrieDB S] in
theorem Leaves.refl (cm : TrieWriter (S × List Hash) Size) : Leaves cm cm := ⟨rfl, rfl, .refl _⟩

omit [LawfulTrieDB S] in
theorem Leaves.trans (first second third : TrieWriter (S × List Hash) Size) (one : Leaves first second) (other : Leaves second third) :
    Leaves first third :=
  ⟨other.tipBuffer.trans one.tipBuffer, other.dereferenced.trans one.dereferenced, one.loses.trans other.loses⟩

theorem leaves_commit (root : Hash) (report : Bool) :
    Moves (Leaves : TrieWriter (S × List Hash) Size → _ → Prop) (TrieWriter.onDB (commit root report)) :=
  fun cm => ⟨rfl, rfl, LawfulTrieDB.commit cm.db.1 root report⟩

theorem leaves_cap (limit : Size) : Moves (Leaves : TrieWriter (S × List Hash) Size → _ → Prop) (TrieWriter.onDB (cap limit)) :=
  fun cm => ⟨rfl, rfl, LawfulTrieDB.cap cm.db.1 limit⟩

theorem leaves_insertTrie [LE Size] [DecidableLE Size] [Sub Size] [NatCast Size] (block : Block) :
    Moves (Leaves : TrieWriter (S × List Hash) Size → _ → Prop) (TrieWriter.insertTrie block) := by
  refine .bind Leaves.trans (.get Leaves.refl) fun cm => ?_
  dsimp only
  split
  · exact .pure Leaves.refl _
  · exact .wrap (leaves_cap _)

theorem leaves_flush [LE Size] [DecidableLE Size] [Add Size] [Sub Size] [Mul Size] [NatCast Size] (block : Block) :
    Moves (Leaves : TrieWriter (S × List Hash) Size → _ → Prop) (TrieWriter.flush block) := by
  refine .bind Leaves.trans (.get Leaves.refl) fun cm => ?_
  dsimp only
  split
  · exact .throw Leaves.refl _
  split
  · exact .wrap (leaves_commit _ _)
  split
  · exact .pure Leaves.refl _
  split
  · exact .pure Leaves.refl _
  · exact .wrap (leaves_cap _)

omit [LawfulTrieDB S] in
/-- Dereference fails before anything is written. -/
theorem flush_error [LE Size] [DecidableLE Size] [Add Size] [Sub Size] [Mul Size] [NatCast Size] (block : Block)
    (cm : TrieWriter (S × List Hash) Size) (cause : TrieError) :
    (perform (TrieWriter.flush block) cm).1 ≠ .error (.dereference cause) := by
  have apart (error : TrieError → TrieWriterError TrieError Size) (result : Except TrieError Unit)
      (other : ∀ found, error found ≠ .dereference cause) : result.mapError error ≠ .error (.dereference cause) := by
    cases result with
    | ok => exact fun same => nomatch same
    | error found => exact fun same => other found (Except.error.inj same)
  have ends : Ends cm (TrieWriter.flush block) fun result _ => result ≠ .error (.dereference cause) := by
    refine .get_bind ?_
    dsimp only
    split
    · exact .throw fun same => nomatch same
    split
    · exact .wrap (apart _ _ fun found same => nomatch same)
    split
    · exact .pure fun same => nomatch same
    split
    · exact .pure fun same => nomatch same
    · exact .wrap (apart _ _ fun found same => nomatch same)
  exact ends

/-- The tip buffer takes a root and gives up another, or it fails. -/
theorem ends_insertTip {size : Nat} {roots : List Hash} {cm : TrieWriter (S × List Hash) Size} (holds : Holds size roots cm.tipBuffer)
    (positive : 0 < size) (root : Hash) : Ends cm (TrieWriter.insertTip root) fun result after =>
      (result = .ok () ∧ Holds size (roots ++ [root]) after.tipBuffer ∧
        ∃ lost, givenUp size (roots ++ [root]) = givenUp size roots ++ lost ∧ after.db.2 = cm.db.2 ++ lost ∧
          Loses (lost.count ·) cm.db.1 after.db.1) ∨
      ∃ error, result = .error error ∧ Holds size roots after.tipBuffer ∧ after.db.2 = cm.db.2 ∧ Loses 0 cm.db.1 after.db.1 := by
  refine .zoom ?_
  rcases Nat.lt_or_ge roots.length size with room | full
  · obtain ⟨buffer, inserted, holds⟩ := holds.insert_room positive room dereference cm.db root
    rw [inserted]
    refine .inl ⟨rfl, holds, [], ?_, (List.append_nil _).symm, .refl _⟩
    rw [givenUp_room room, List.append_nil]
  rcases dereference_cases roots[roots.length - size] cm.db.1 cm.db.2 with ⟨db, ended, loses⟩ | ⟨error, db, ended, loses⟩
  · obtain ⟨buffer, inserted, holds⟩ := holds.insert_full positive full ended root
    rw [inserted]
    exact .inl ⟨rfl, holds, _, givenUp_full positive full root, rfl, loses⟩
  · obtain ⟨refused, holds⟩ := holds.insert_refused positive full ended root
    rw [refused]
    exact .inr ⟨error, rfl, holds, rfl, loses⟩

/-! ## The node -/

/-- Dereferences follow decisions, and what is kept or undecided is referenced. -/
structure TrieNode.Referenced (size : Nat) (node : TrieNode (S × List Hash) Size) : Prop where
  holds : Holds size (node.accepted.map Block.root) node.cm.tipBuffer
  dereferenced : ∀ root, node.cm.db.2.count root ≤ rootCount (givenUp size node.accepted ++ node.rejected) root
  referenced : ∀ root, onDisk node.cm.db.1 root ∨
    rootCount (kept size node.accepted ++ node.undecided) root ≤ references node.cm.db.1 root

variable {size : Nat} {node : TrieNode (S × List Hash) Size}

namespace TrieNode.Referenced

omit [LawfulTrieDB S] in
/-- The references that are lost are those of decided blocks. -/
theorem change (referenced : node.Referenced size) {after : TrieNode (S × List Hash) Size} (lost : List Hash)
    (holds : Holds size (after.accepted.map Block.root) after.cm.tipBuffer) (dereferenced : after.cm.db.2 = node.cm.db.2 ++ lost)
    (loses : Loses (lost.count ·) node.cm.db.1 after.cm.db.1)
    (decided : ∀ root, rootCount (givenUp size node.accepted ++ node.rejected) root + lost.count root ≤
      rootCount (givenUp size after.accepted ++ after.rejected) root)
    (held : ∀ root, rootCount (kept size after.accepted ++ after.undecided) root + lost.count root ≤
      rootCount (kept size node.accepted ++ node.undecided) root) : after.Referenced size where
  holds := holds
  dereferenced root := by
    rw [dereferenced, List.count_append]
    exact (Nat.add_le_add_right (referenced.dereferenced root) _).trans (decided root)
  referenced := loses.held held referenced.referenced

omit [LawfulTrieDB S] in
/-- Fewer blocks are undecided, and no reference is lost. -/
theorem leave (referenced : node.Referenced size) {cm : TrieWriter (S × List Hash) Size} (leaves : Leaves node.cm cm)
    {undecided : List Block} (fewer : ∀ root, rootCount undecided root ≤ rootCount node.undecided root) :
    { node with cm, undecided }.Referenced size := by
  refine referenced.change [] (leaves.tipBuffer ▸ referenced.holds) ?_ leaves.loses (fun root => le_rfl) fun root => ?_
  · rw [leaves.dereferenced, List.append_nil]
  · have fewer := fewer root
    simp only [rootCount_append, List.count_nil]
    omega

/-- The reference that an insertion takes is that of its block. -/
theorem update (referenced : node.Referenced size) (block : Block) :
    { node with cm.db := TrieDB.update block.root node.cm.db, undecided := block :: node.undecided }.Referenced size where
  holds := referenced.holds
  dereferenced := referenced.dereferenced
  referenced root := by
    have updates : Loses 0 node.cm.db.1 (TrieDB.update block.root node.cm.db.1) := LawfulTrieDB.update _ _
    rcases updates root with stored | ⟨absent, enough⟩
    · exact .inl stored
    have held := (referenced.referenced root).resolve_left absent
    rw [rootCount_append, rootCount_cons, ← Nat.add_assoc, ← rootCount_append]
    by_cases same : root = block.root
    · subst same
      have takes : onDisk (TrieDB.update block.root node.cm.db.1) block.root ∨
          references (TrieDB.update block.root node.cm.db.1) block.root = references node.cm.db.1 block.root + 1 :=
        LawfulTrieDB.references_update _ _
      refine takes.imp id fun taken => ?_
      rw [List.count_singleton_self]
      exact (Nat.add_le_add_right held 1).trans taken.ge
    · rw [List.count_singleton, if_neg (by simpa using Ne.symm same)]
      exact .inr (held.trans enough)

variable [LE Size] [DecidableLE Size] [Add Size] [Sub Size] [Mul Size] [Div Size] [NatCast Size]

omit [Add Size] [Mul Size] [Div Size] in
theorem insertBlock (referenced : node.Referenced size) (block : Block) : (node.insertBlock block).Referenced size := by
  have updated := referenced.update block
  have leaves := leaves_insertTrie block { node.cm with db := TrieDB.update block.root node.cm.db }
  unfold TrieNode.insertBlock
  unfold Ends at leaves
  rcases ended : perform (TrieWriter.insertTrie block) { node.cm with db := TrieDB.update block.root node.cm.db } with ⟨result, cm⟩
  rw [ended] at leaves
  cases result with
  | ok => exact updated.leave leaves fun root => le_rfl
  | error => exact updated.leave leaves fun root => (rootCount_cons block node.undecided root).symm ▸ Nat.le_add_right _ _

omit [Div Size] in
theorem accept (referenced : node.Referenced size) (positive : 0 < size) {block : Block} (member : block ∈ node.undecided) :
    (node.accept block).Referenced size := by
  have tipped := ends_insertTip referenced.holds positive block.root
  unfold Ends at tipped
  rcases ended : perform (TrieWriter.insertTip block.root) node.cm with ⟨result, cm⟩
  rw [ended] at tipped
  rcases tipped with ⟨rfl, holds, lost, more, dereferenced, loses⟩ | ⟨error, rfl, holds, dereferenced, loses⟩
  · have tipped : perform (wrap TrieWriterError.dereference (TrieWriter.insertTip block.root)) node.cm =
        ((.ok () : Except (TrieWriterError TrieError Size) Unit), cm) := by
      rw [perform_wrap, ended]
      rfl
    have leaves := leaves_flush block cm
    have apart := flush_error block cm
    have accepted : perform (TrieWriter.acceptTrie block) node.cm = perform (TrieWriter.flush block) cm := perform_bind_ok tipped
    unfold Ends at leaves
    unfold TrieNode.accept
    rw [accepted]
    rcases flushed : perform (TrieWriter.flush block) cm with ⟨result, final⟩
    rw [flushed] at leaves apart
    have after : { node with
        cm := final, undecided := node.undecided.erase block, accepted := node.accepted ++ [block] }.Referenced size := by
      refine referenced.change lost ?_ (leaves.dereferenced.trans dereferenced) ?_ (fun root => ?_) fun root => ?_
      · rw [List.map_append, leaves.tipBuffer]
        exact holds
      · have loses := loses.trans leaves.loses
        rwa [add_zero] at loses
      · have given := rootCount_givenUp more root
        rw [rootCount_append, rootCount_append]
        dsimp only
        omega
      · have held := rootCount_kept more root
        have fewer := rootCount_erase member root
        rw [rootCount_append, rootCount_append]
        dsimp only
        omega
    cases result with
    | ok => exact after
    | error error =>
      cases error with
      | dereference cause => exact absurd rfl (apart cause)
      | capFailed => exact after
      | commitFailed => exact after
      | divideByZero => exact after
  · have refused : perform (TrieWriter.acceptTrie block) node.cm = (.error (.dereference error), cm) := by
      refine perform_bind_error ?_
      rw [perform_wrap, ended]
      rfl
    unfold TrieNode.accept
    rw [refused]
    exact referenced.change [] holds (by rw [dereferenced, List.append_nil]) loses (fun _ => le_rfl) fun _ => le_rfl

omit [LE Size] [DecidableLE Size] [Add Size] [Sub Size] [Mul Size] [Div Size] [NatCast Size] in
theorem reject (referenced : node.Referenced size) {block : Block} (member : block ∈ node.undecided) :
    (node.reject block).Referenced size := by
  have decided (root : Hash) : rootCount (givenUp size node.accepted ++ block :: node.rejected) root =
      rootCount (givenUp size node.accepted ++ node.rejected) root + [block.root].count root := by
    rw [rootCount_append, rootCount_cons, ← Nat.add_assoc, ← rootCount_append]
  have held (root : Hash) : rootCount (kept size node.accepted ++ node.undecided) root =
      rootCount (kept size node.accepted ++ node.undecided.erase block) root + [block.root].count root := by
    rw [rootCount_append, rootCount_erase member, ← Nat.add_assoc, ← rootCount_append]
  unfold TrieNode.reject TrieWriter.rejectTrie TrieWriter.onDB
  rw [perform_zoom]
  rcases dereference_cases block.root node.cm.db.1 node.cm.db.2 with ⟨db, ended, loses⟩ | ⟨error, db, ended, loses⟩
  · rw [ended]
    exact referenced.change [block.root] referenced.holds rfl loses (fun root => (decided root).ge) fun root => (held root).ge
  · rw [ended]
    refine referenced.change [] referenced.holds (List.append_nil _).symm loses (fun root => ?_) fun root => ?_
    · exact (decided root).ge.trans' (Nat.add_le_add_left (Nat.zero_le _) _)
    · exact (held root).ge.trans' (Nat.add_le_add_left (Nat.zero_le _) _)

end TrieNode.Referenced

variable [LE Size] [DecidableLE Size] [Add Size] [Sub Size] [Mul Size] [Div Size] [NatCast Size]

theorem referenced_of_reach {config : CacheConfig} (positive : 0 < config.stateHistory)
    (reach : Reach (trieSystem S Size config) (fun _ _ => True) node) : node.Referenced config.stateHistory := by
  refine reach.invariant (TrieNode.Referenced config.stateHistory) ?_ fun node action after referenced _ stepped => ?_
  · rintro _ ⟨db, rfl⟩
    exact ⟨BoundedBuffer.holds_new _, fun _ => Nat.zero_le _, fun _ => .inr (by simp [rootCount, kept, TrieNode.start])⟩
  cases action with
  | insertBlock block =>
    cases stepped
    exact referenced.insertBlock block
  | accept block =>
    obtain ⟨member, accepted⟩ := Option.ite_none_right_eq_some.mp stepped
    cases accepted
    exact referenced.accept positive member
  | reject block =>
    obtain ⟨member, rejected⟩ := Option.ite_none_right_eq_some.mp stepped
    cases rejected
    exact referenced.reject member

end

/-! ## Recent items and recent tries -/

/-- The buffer has called back with all but the last items, and a failed Insert leaves it. -/
structure BoundedBuffer.Progress.Queues {K E S : Type} [Inhabited K] (size : Nat) (callback : K → Action E S Unit)
    (progress : BoundedBuffer.Progress K S) : Prop where
  called : progress.called = givenUp size progress.accepted
  all : progress.called ++ progress.buffer.contents = progress.accepted
  contents : progress.buffer.contents = kept size progress.accepted
  last : progress.buffer.last = progress.accepted.getLast?
  refused : ∀ h buffer state called error,
    perform (BoundedBuffer.insert (recorded callback) h) (progress.buffer, progress.state, progress.called) =
      (.error error, (buffer, state, called)) →
    buffer.contents = progress.buffer.contents ∧ buffer.last = progress.buffer.last ∧ called = progress.called

theorem BoundedBuffer.Progress.Queued.queues {K E S : Type} [Inhabited K] {size : Nat} {progress : BoundedBuffer.Progress K S}
    (queued : progress.Queued size) (positive : 0 < size) (callback : K → Action E S Unit) : progress.Queues size callback where
  called := queued.called
  all := by rw [queued.called, queued.holds.contents_eq positive, givenUp_append_kept]
  contents := queued.holds.contents_eq positive
  last := queued.holds.last_eq positive
  refused h buffer state called error failed := by
    rcases queued.cases positive callback h with ⟨_, _, inserted, -⟩ | ⟨_, _, _, refused, holds⟩
    · rw [inserted] at failed
      cases failed
    · rw [refused] at failed
      cases failed
      rw [holds.contents_eq positive, holds.last_eq positive, queued.holds.contents_eq positive, queued.holds.last_eq positive]
      exact ⟨rfl, rfl, rfl⟩

/-- The buffer is a queue of its last items, and so the roots of recent and undecided blocks stay referenced. -/
theorem recent_tries_referenced :
    (∀ (K E S : Type) [Inhabited K] (callback : K → Action E S Unit) (size : Nat) (state : S) (items : List K), 0 < size →
      (inserts callback size state items).Queues size callback) ∧
    ∀ (S Size TrieError : Type) [TrieDB S TrieError Size] [LawfulTrieDB S] [LE Size] [DecidableLE Size] [Add Size] [Sub Size]
        [Mul Size] [Div Size] [NatCast Size] (config : CacheConfig) (node : TrieNode (S × List Hash) Size), 0 < config.stateHistory →
      Reach (trieSystem S Size config) (fun _ _ => True) node → node.Referenced config.stateHistory := by
  refine ⟨fun K E S _ callback size state items positive => ?_, fun S Size TrieError _ _ _ _ _ _ _ _ _ config node positive reach => ?_⟩
  · exact (BoundedBuffer.queued_inserts positive state items).queues positive callback
  · exact referenced_of_reach positive reach

/-! ## A sample -/

/-- Of each root the references in memory, and whether it is on disk. -/
structure RootTable where
  references : Hash → Nat
  onDisk : Hash → Bool

instance : TrieDB RootTable Unit Nat where
  update root db := { db with references := Function.update db.references root (db.references root + 1) }
  dereference root := modify fun db => { db with references := Function.update db.references root (db.references root - 1) }
  commit root _ := modify fun db =>
    { references := Function.update db.references root 0, onDisk := Function.update db.onDisk root true }
  size _ := (0, 0, 0)
  cap _ := return ()
  references := RootTable.references
  onDisk db root := db.onDisk root

instance : LawfulTrieDB RootTable where
  update db root other := by
    by_cases stored : db.onDisk other
    · exact .inl stored
    refine .inr ⟨stored, ?_⟩
    change db.references other ≤ Function.update db.references root (db.references root + 1) other + 0
    rw [Function.update_apply]
    split
    · next same => exact same ▸ Nat.le_succ _
    · exact le_rfl
  references_update db root := .inr (Function.update_self ..)
  dereference db root after ended := by
    cases ended
    intro other
    by_cases stored : db.onDisk other
    · exact .inl stored
    refine .inr ⟨stored, ?_⟩
    change db.references other ≤ Function.update db.references root (db.references root - 1) other + [root].count other
    rw [Function.update_apply]
    split
    · next same =>
      subst same
      rw [List.count_singleton_self]
      omega
    · exact Nat.le_add_right _ _
  dereference_error db root error after ended := nomatch ended
  commit db root report other := by
    change Function.update db.onDisk root true other ∨ ¬ db.onDisk other ∧ _ ≤ Function.update db.references root 0 other + 0
    rw [Function.update_apply, Function.update_apply]
    split
    · exact .inl rfl
    · by_cases stored : db.onDisk other
      · exact .inl stored
      · exact .inr ⟨stored, le_rfl⟩
  cap db limit := .refl db

def sampleCache : CacheConfig where
  trieDirtyLimit := 512
  trieDirtyCommitTarget := 20
  commitInterval := 4096
  stateHistory := 1

def sampleBlock (hash : Hash) : Block where
  hash := hash
  number := 5
  root := 7

/-- Of three blocks of one root two are accepted. -/
def sampleNode : TrieNode (RootTable × List Hash) Nat :=
  (((((TrieNode.start (⟨fun _ => 0, fun _ => false⟩, []) sampleCache).insertBlock (sampleBlock 1)).insertBlock (sampleBlock 2)).insertBlock
    (sampleBlock 3)).accept (sampleBlock 1)).accept (sampleBlock 2)

def sampleCallback (_ : Hash) : Action Unit Unit Unit := return ()

/-- One reference is given up, and the two others stay. -/
theorem recent_tries_referenced_sample : sampleNode.cm.db.2 = [7] ∧ references sampleNode.cm.db.1 7 = 2 ∧
    (inserts sampleCallback 1 () [4, 5]).Queues 1 sampleCallback ∧
    sampleNode.Referenced 1 := by
  have reach : Reach (trieSystem RootTable Nat sampleCache) (fun _ _ => True) sampleNode := by
    have ran : run TrieNode.step (fun _ _ => true) [.insertBlock (sampleBlock 1), .insertBlock (sampleBlock 2),
        .insertBlock (sampleBlock 3), .accept (sampleBlock 1), .accept (sampleBlock 2)]
        (TrieNode.start (⟨fun _ => 0, fun _ => false⟩, []) sampleCache) = some sampleNode := rfl
    exact .ofRun (fun _ _ _ stepped => stepped) (fun _ _ _ => trivial) (.start ⟨_, rfl⟩) ran
  exact ⟨by decide +kernel, by decide +kernel,
    recent_tries_referenced.1 Hash Unit Unit sampleCallback 1 () [4, 5] Nat.one_pos,
    recent_tries_referenced.2 RootTable Nat Unit sampleCache sampleNode Nat.one_pos reach⟩

end Snowside.State
