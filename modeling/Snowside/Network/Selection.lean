import Snowside.Network.Peers

/-! Which peers the tracker selects. -/

set_option autoImplicit false

namespace Snowside.Peers

open Requests (NodeID EmptyNodeID)
open Checked Runs Stateful
open Maps (Map)

/-! ## Picks -/

section

variable {α : Type} {place : Nat} {item : α} {items : List α}

theorem mem_of_pick (picked : pick place items = some item) : item ∈ items := List.mem_of_getElem? picked

theorem pick_eq_none : pick place items = none ↔ items = [] := by
  rw [pick, List.getElem?_eq_none_iff]
  constructor
  · intro outside
    by_contra some_items
    exact absurd (Nat.mod_lt place (List.length_pos_iff.mpr some_items)) outside.not_gt
  · rintro rfl
    exact Nat.zero_le _

theorem exists_pick (member : item ∈ items) : ∃ place, pick place items = some item := by
  obtain ⟨place, inside, found⟩ := List.getElem_of_mem member
  refine ⟨place, ?_⟩
  rw [pick, Nat.mod_eq_of_lt inside, List.getElem?_eq_getElem inside, found]

end

section

variable {Version Bandwidth Averager : Type} {p after : PeerTracker Version Averager} {nodeID : NodeID}

/-! ## What is always known of peers -/

/-- Responsive peers are connected and have a bandwidth; those on the heap are connected. -/
structure PeerTracker.Sound (p : PeerTracker Version Averager) : Prop where
  responsive : ∀ nodeID ∈ p.responsivePeers, ∃ peer averager, p.peers.lookup nodeID = some peer ∧ peer.bandwidth = some averager
  heap : ∀ nodeID ∈ p.bandwidthHeap, nodeID ∈ p.peers

/-- Tracked peers are connected. -/
def PeerTracker.TracksConnected (p : PeerTracker Version Averager) : Prop := ∀ nodeID ∈ p.trackedPeers, nodeID ∈ p.peers

/-- Only the heap has changed, and has no more peers on it. -/
structure Shrinks (p after : PeerTracker Version Averager) : Prop where
  peers : after.peers = p.peers
  trackedPeers : after.trackedPeers = p.trackedPeers
  responsivePeers : after.responsivePeers = p.responsivePeers
  heap : ∀ nodeID ∈ after.bandwidthHeap, nodeID ∈ p.bandwidthHeap

theorem Shrinks.refl (p : PeerTracker Version Averager) : Shrinks p p := ⟨rfl, rfl, rfl, fun _ member => member⟩

theorem shrinks_removeBandwidth (nodeID : NodeID) (p : PeerTracker Version Averager) : Shrinks p (p.removeBandwidth nodeID) :=
  ⟨rfl, rfl, rfl, fun _ member => (AList.mem_erase.mp member).2⟩

namespace PeerTracker.Sound

theorem shrinks (sound : p.Sound) (shrinks : Shrinks p after) : after.Sound where
  responsive nodeID member := by
    rw [shrinks.peers]
    exact sound.responsive nodeID (shrinks.responsivePeers ▸ member)
  heap nodeID member := by
    rw [shrinks.peers]
    exact sound.heap nodeID (shrinks.heap nodeID member)

theorem trackPeer (sound : p.Sound) (nodeID : NodeID) : (p.trackPeer nodeID).Sound := ⟨sound.responsive, sound.heap⟩

theorem trackBandwidth [Averaging Bandwidth Averager] (sound : p.Sound) (nodeID : NodeID) (bandwidth : Bandwidth) :
    (p.trackBandwidth nodeID bandwidth).Sound := by
  unfold PeerTracker.trackBandwidth
  cases known : p.peers.lookup nodeID with
  | none => exact sound
  | some peer =>
    refine ⟨fun other member => ?_, fun other member => ?_⟩
    · dsimp only at member ⊢
      by_cases same : other = nodeID
      · subst same
        exact ⟨_, _, AList.lookup_insert _, rfl⟩
      · rw [AList.lookup_insert_ne same]
        refine sound.responsive other ?_
        split at member
        · exact (List.mem_filter.mp member).1
        · exact (List.mem_insert_iff.mp member).resolve_left same
    · dsimp only at member ⊢
      rw [AList.mem_insert] at member ⊢
      exact member.imp id (sound.heap other)

theorem connected [Ord Version] (sound : p.Sound) (nodeID : NodeID) (nodeVersion : Version) :
    (p.connected nodeID nodeVersion).Sound := by
  unfold PeerTracker.connected
  cases known : p.peers.lookup nodeID with
  | none =>
    refine ⟨fun other member => ?_, fun other member => (AList.mem_insert _).mpr (.inr (sound.heap other member))⟩
    obtain ⟨peer, averager, found, has⟩ := sound.responsive other member
    have apart : other ≠ nodeID := by
      rintro rfl
      rw [known] at found
      cases found
    exact ⟨peer, averager, (AList.lookup_insert_ne apart).trans found, has⟩
  | some peer =>
    dsimp only
    split
    · refine ⟨fun other member => ?_, fun other member => (AList.mem_insert _).mpr (.inr (sound.heap other member))⟩
      obtain ⟨peer', averager, found, has⟩ := sound.responsive other member
      by_cases same : other = nodeID
      · subst same
        obtain rfl : peer = peer' := Option.some.inj (known.symm.trans found)
        exact ⟨_, averager, AList.lookup_insert _, has⟩
      · exact ⟨peer', averager, (AList.lookup_insert_ne same).trans found, has⟩
    · exact sound

theorem disconnected (sound : p.Sound) (nodeID : NodeID) : (p.disconnected nodeID).Sound where
  responsive other member := by
    obtain ⟨member, apart⟩ := List.mem_filter.mp member
    obtain ⟨peer, averager, found, has⟩ := sound.responsive other member
    exact ⟨peer, averager, (AList.lookup_erase_ne (of_decide_eq_true apart)).trans found, has⟩
  heap other member := by
    obtain ⟨apart, member⟩ := AList.mem_erase.mp member
    exact AList.mem_erase.mpr ⟨apart, sound.heap other member⟩

end PeerTracker.Sound

/-! ## Selections -/

/-- The peer is connected, and of no lower version. -/
def PeerTracker.Suits [Ord Version] (p : PeerTracker Version Averager) (minVersion : Option Version) (nodeID : NodeID) : Prop :=
  ∃ peer, p.peers.lookup nodeID = some peer ∧ peer.suits minVersion

/-- GetAnyPeer always turns to a new peer. -/
def PeerTracker.Opens [Ord Version] (p : PeerTracker Version Averager) (minVersion : Option Version) : Prop :=
  p.responsivePeers.length < desiredMinResponsivePeers ∧ p.candidates minVersion ≠ []

/-- A peer that may be selected where no new one is. -/
def PeerTracker.Fallback (p : PeerTracker Version Averager) (nodeID : NodeID) : Prop :=
  nodeID ∈ p.responsivePeers ∨ nodeID ∈ p.bandwidthHeap ∨
    (p.responsivePeers = [] ∨ p.bandwidthHeap.entries = []) ∧ nodeID ∈ p.trackedPeers

/-- Of the peers with a bandwidth one is found, or there are none. -/
structure Popped (p : PeerTracker Version Averager) (nodes : NodeID → Prop) (result : Except TrackerError (Option (NodeID × Option Averager)))
    (after : PeerTracker Version Averager) : Prop where
  shrinks : Shrinks p after
  found : (result = .ok none ∧ ∀ nodeID, ¬ nodes nodeID) ∨
    ∃ nodeID averager, result = .ok (some (nodeID, some averager)) ∧ nodes nodeID

theorem ends_getResponsivePeer (sound : p.Sound) (draws : Draws) :
    Ends p (PeerTracker.getResponsivePeer draws) (Popped p (· ∈ p.responsivePeers)) := by
  refine .get_bind ?_
  cases picked : pick draws.responsive p.responsivePeers with
  | none => exact .pure ⟨.refl p, .inl ⟨rfl, by simp [pick_eq_none.mp picked]⟩⟩
  | some nodeID =>
    have member := mem_of_pick picked
    dsimp only
    cases onHeap : p.bandwidthHeap.lookup nodeID with
    | some averager => exact .modify_bind (.pure ⟨shrinks_removeBandwidth nodeID p, .inr ⟨nodeID, averager, rfl, member⟩⟩)
    | none =>
      obtain ⟨peer, averager, found, has⟩ := sound.responsive nodeID member
      rw [found]
      exact .pure ⟨.refl p, .inr ⟨nodeID, averager, by rw [has], member⟩⟩

theorem ends_popPeer (draws : Draws) : Ends p (PeerTracker.popPeer draws) (Popped p (· ∈ p.bandwidthHeap)) := by
  refine .get_bind ?_
  cases picked : pick draws.best p.bandwidthHeap.entries with
  | none =>
    have empty := pick_eq_none.mp picked
    exact .pure ⟨.refl p, .inl ⟨rfl, fun nodeID member => by simp [AList.mem_keys, AList.keys, empty] at member⟩⟩
  | some entry =>
    have member : entry.1 ∈ p.bandwidthHeap := List.mem_map.mpr ⟨entry, mem_of_pick picked, rfl⟩
    exact .modify_bind (.pure ⟨shrinks_removeBandwidth entry.1 p, .inr ⟨entry.1, entry.2, rfl, member⟩⟩)

/-- What a selection may come to. -/
structure Selected [Ord Version] (p : PeerTracker Version Averager) (minVersion : Option Version)
    (result : Except TrackerError (Option NodeID)) (after : PeerTracker Version Averager) : Prop where
  shrinks : Shrinks p after
  sane : result ≠ .error .nilPointer
  offered : ∀ nodeID, result = .ok (some nodeID) → nodeID ∈ p.candidates minVersion ∨ ¬ p.Opens minVersion ∧ p.Fallback nodeID

variable [Ord Version] {minVersion : Option Version}

theorem Selected.refused (p : PeerTracker Version Averager) (minVersion : Option Version) :
    Selected p minVersion (.error .random) p :=
  ⟨.refl p, fun same => (nomatch same), fun _ same => nomatch same⟩

theorem ends_getTrackedPeer (sound : p.Sound) (closed : ¬ p.Opens minVersion) (draws : Draws) :
    Ends p (PeerTracker.getTrackedPeer draws) (Selected p minVersion) := by
  unfold PeerTracker.getTrackedPeer
  cases draws.randomPeer with
  | error => exact Selected.refused p minVersion
  | ok random =>
    have popped : Ends p (PeerTracker.getRatedPeer random draws) fun result after =>
        ∃ nodes, (∀ nodeID, nodes nodeID → nodeID ∈ p.responsivePeers ∨ nodeID ∈ p.bandwidthHeap) ∧
          ((∀ nodeID, ¬ nodes nodeID) → p.responsivePeers = [] ∨ p.bandwidthHeap.entries = []) ∧ Popped p nodes result after := by
      cases random with
      | true =>
        refine (ends_getResponsivePeer sound draws).mono fun result after popped => ⟨_, fun _ => .inl, fun none => .inl ?_, popped⟩
        exact List.eq_nil_iff_forall_not_mem.mpr none
      | false =>
        refine (ends_popPeer draws).mono fun result after popped => ⟨_, fun _ => .inr, fun none => .inr ?_, popped⟩
        exact List.map_eq_nil_iff.mp (List.eq_nil_iff_forall_not_mem.mpr none)
    refine popped.bind (fun error after => ?_) fun found after => ?_
    · rintro ⟨nodes, -, -, -, ⟨failed, -⟩ | ⟨_, _, failed, -⟩⟩ <;> cases failed
    · rintro ⟨nodes, inside, none_left, shrinks, ⟨same, none⟩ | ⟨nodeID, averager, same, member⟩⟩
      · cases same
        refine .get_bind (.pure ⟨shrinks, fun same => (nomatch same), fun nodeID picked => .inr ⟨closed, ?_⟩⟩)
        have member := mem_of_pick (Except.ok.inj picked)
        rw [shrinks.trackedPeers] at member
        exact .inr (.inr ⟨none_left none, member⟩)
      · cases same
        refine .pure ⟨shrinks, fun same => (nomatch same), fun other same => .inr ⟨closed, ?_⟩⟩
        cases same
        exact (inside nodeID member).imp id .inl

theorem ends_getAnyPeer (sound : p.Sound) (minVersion : Option Version) (draws : Draws) :
    Ends p (PeerTracker.getAnyPeer minVersion draws) (Selected p minVersion) := by
  refine .get_bind ?_
  cases tracks : p.shouldTrackNewPeer draws with
  | error error =>
    have random : error = .random := by
      unfold PeerTracker.shouldTrackNewPeer at tracks
      split_ifs at tracks
      cases drawn : draws.newPeer with
      | error =>
        rw [drawn] at tracks
        exact (Except.error.inj tracks).symm
      | ok =>
        rw [drawn] at tracks
        cases tracks
    subst random
    exact Selected.refused p minVersion
  | ok tracks_new =>
    rw [check_ok_bind]
    cases picked : if tracks_new then pick draws.next (p.candidates minVersion) else none with
    | some nodeID =>
      have member : nodeID ∈ p.candidates minVersion := by
        split at picked
        · exact mem_of_pick picked
        · cases picked
      exact .pure ⟨.refl p, fun same => (nomatch same), fun other same => .inl (by cases same; exact member)⟩
    | none =>
      refine ends_getTrackedPeer sound (fun opens => ?_) draws
      have always : p.shouldTrackNewPeer draws = .ok true := if_pos opens.1
      obtain rfl : tracks_new = true := Except.ok.inj (tracks.symm.trans always)
      rw [if_pos rfl] at picked
      exact opens.2 (pick_eq_none.mp picked)

/-! ## When every selection is suitable -/

/-- A new peer is always found, or the others are suitable. -/
def PeerTracker.Serves (p : PeerTracker Version Averager) (minVersion : Option Version) : Prop :=
  p.Opens minVersion ∨ ∀ nodeID, p.Fallback nodeID → p.Suits minVersion nodeID

theorem suits_of_candidate (member : nodeID ∈ p.candidates minVersion) : p.Suits minVersion nodeID := by
  obtain ⟨-, suits⟩ := List.mem_filter.mp member
  have suits := (of_decide_eq_true suits).1
  cases known : p.peers.lookup nodeID with
  | none =>
    rw [known] at suits
    cases suits
  | some peer =>
    rw [known] at suits
    exact ⟨peer, known, suits⟩

/-- Where no new peer is sure to be found, chance may decide against a new one. -/
theorem perform_getAnyPeer_closed (closed : ¬ p.Opens minVersion) {draws : Draws} (drawn : draws.newPeer = .ok false) :
    perform (PeerTracker.getAnyPeer minVersion draws) p = perform (PeerTracker.getTrackedPeer draws) p := by
  have tracks : ∃ tracks_new, p.shouldTrackNewPeer draws = .ok tracks_new ∧ (tracks_new = true → p.candidates minVersion = []) := by
    unfold PeerTracker.shouldTrackNewPeer
    split_ifs with few all
    · exact ⟨true, rfl, fun _ => by_contra fun some_new => closed ⟨few, some_new⟩⟩
    · exact ⟨false, rfl, fun same => nomatch same⟩
    · exact ⟨false, by rw [drawn]; rfl, fun same => nomatch same⟩
  obtain ⟨tracks_new, tracks, none_new⟩ := tracks
  have read : perform get p = ((.ok p : Except TrackerError _), p) := rfl
  unfold PeerTracker.getAnyPeer
  rw [perform_bind_ok read, tracks, check_ok_bind]
  cases tracks_new with
  | false => rfl
  | true =>
    rw [if_pos rfl, pick_eq_none.mpr (none_new rfl)]

omit [Ord Version] in
theorem ends_getTrackedPeer_rated {draws : Draws} {random : Bool} (drawn : draws.randomPeer = .ok random)
    (rated : Ends p (PeerTracker.getRatedPeer random draws) fun result _ => ∃ averager, result = .ok (some (nodeID, some averager))) :
    Ends p (PeerTracker.getTrackedPeer draws) fun result _ => result = .ok (some nodeID) := by
  unfold PeerTracker.getTrackedPeer
  rw [drawn]
  refine rated.bind ?_ ?_
  · rintro error after ⟨averager, same⟩
    cases same
  · rintro found after ⟨averager, same⟩
    cases same
    exact .pure rfl

omit [Ord Version] in
theorem ends_getTrackedPeer_unrated {draws : Draws} {random : Bool} (drawn : draws.randomPeer = .ok random)
    (rated : perform (PeerTracker.getRatedPeer random draws) p = (.ok none, p)) :
    Ends p (PeerTracker.getTrackedPeer draws) fun result _ => result = .ok (pick draws.tracked p.trackedPeers) := by
  have read : perform (check (draws.randomPeer.mapError fun _ => TrackerError.random)) p = (.ok random, p) := by
    rw [drawn]
    rfl
  unfold PeerTracker.getTrackedPeer
  rw [Ends, perform_bind_ok read, perform_bind_ok rated]
  rfl

/-- Every fallback is selected by chance. -/
theorem exists_draws (sound : p.Sound) (closed : ¬ p.Opens minVersion) (fallback : p.Fallback nodeID) :
    ∃ draws, (perform (PeerTracker.getAnyPeer minVersion draws) p).1 = .ok (some nodeID) := by
  rcases fallback with member | member | ⟨none_rated, member⟩
  · obtain ⟨place, picked⟩ := exists_pick member
    refine ⟨{ newPeer := .ok false, randomPeer := .ok true, next := 0, responsive := place, best := 0, tracked := 0 }, ?_⟩
    rw [perform_getAnyPeer_closed closed rfl]
    refine ends_getTrackedPeer_rated rfl (.get_bind ?_)
    dsimp only
    rw [picked]
    dsimp only
    cases onHeap : p.bandwidthHeap.lookup nodeID with
    | some averager => exact .modify_bind (.pure ⟨averager, rfl⟩)
    | none =>
      obtain ⟨peer, averager, found, has⟩ := sound.responsive nodeID member
      rw [found]
      exact .pure ⟨averager, by rw [has]⟩
  · obtain ⟨entry, inside, rfl⟩ := List.mem_map.mp member
    obtain ⟨place, picked⟩ := exists_pick inside
    refine ⟨{ newPeer := .ok false, randomPeer := .ok false, next := 0, responsive := 0, best := place, tracked := 0 }, ?_⟩
    rw [perform_getAnyPeer_closed closed rfl]
    refine ends_getTrackedPeer_rated rfl (.get_bind ?_)
    dsimp only
    rw [picked]
    exact .modify_bind (.pure ⟨entry.2, rfl⟩)
  · obtain ⟨place, picked⟩ := exists_pick member
    obtain ⟨random, rated⟩ : ∃ random, ∀ draws, perform (PeerTracker.getRatedPeer random draws) p =
        ((.ok none : Except TrackerError _), p) := by
      rcases none_rated with empty | empty
      · refine ⟨true, fun draws => (perform_get_bind _ p).trans ?_⟩
        rw [pick_eq_none.mpr empty]
        rfl
      · refine ⟨false, fun draws => (perform_get_bind _ p).trans ?_⟩
        rw [pick_eq_none.mpr empty]
        rfl
    refine ⟨{ newPeer := .ok false, randomPeer := .ok random, next := 0, responsive := 0, best := 0, tracked := place }, ?_⟩
    rw [perform_getAnyPeer_closed closed rfl, ← picked]
    exact ends_getTrackedPeer_unrated rfl (rated _)

theorem serves_iff (sound : p.Sound) (minVersion : Option Version) :
    (∀ draws nodeID, (perform (PeerTracker.getAnyPeer minVersion draws) p).1 = .ok (some nodeID) → p.Suits minVersion nodeID) ↔
      p.Serves minVersion := by
  constructor
  · intro suits
    by_cases opens : p.Opens minVersion
    · exact .inl opens
    · refine .inr fun nodeID fallback => ?_
      obtain ⟨draws, selected⟩ := exists_draws sound opens fallback
      exact suits draws nodeID selected
  · intro serves draws nodeID selected
    rcases (ends_getAnyPeer sound minVersion draws).offered nodeID selected with candidate | ⟨closed, fallback⟩
    · exact suits_of_candidate candidate
    · exact serves.resolve_left closed nodeID fallback

/-! ## Runs -/

variable {n : Network Version Averager}

theorem connected_of_suits (suits : p.Suits minVersion nodeID) : nodeID ∈ p.peers := by
  obtain ⟨peer, known, -⟩ := suits
  exact AList.lookup_isSome.mp (known ▸ rfl)

omit [Ord Version] in
theorem connected_of_fallback (sound : p.Sound) (tracks : p.TracksConnected) (fallback : p.Fallback nodeID) : nodeID ∈ p.peers := by
  rcases fallback with member | member | ⟨-, member⟩
  · obtain ⟨peer, averager, known, -⟩ := sound.responsive nodeID member
    exact AList.lookup_isSome.mp (known ▸ rfl)
  · exact sound.heap nodeID member
  · exact tracks nodeID member

omit [Ord Version] in
theorem request_cases (nodeID : NodeID) (cancelled : Bool) (n : Network Version Averager) :
    n.request nodeID cancelled = n ∨ n.request nodeID cancelled = { n with peers := n.peers.trackPeer nodeID } :=
  ite_eq_or_eq ..

/-- A call for any peer leaves the peers, but for the heap and for a selected one that is tracked. -/
theorem sendAppRequestAny_cases (sound : n.peers.Sound) (minVersion : Option Version) (draws : Draws) (cancelled cancelledLate : Bool) :
    ∃ peers, Shrinks n.peers peers ∧
      (n.sendAppRequestAny minVersion draws cancelled cancelledLate = { n with peers } ∨
        ∃ nodeID, (nodeID ∈ n.peers.candidates minVersion ∨ n.peers.Fallback nodeID) ∧
          n.sendAppRequestAny minVersion draws cancelled cancelledLate = { n with peers := peers.trackPeer nodeID }) := by
  unfold Network.sendAppRequestAny
  by_cases stopped : cancelled
  · exact ⟨n.peers, .refl _, .inl (if_pos stopped)⟩
  rw [if_neg stopped]
  have selected := ends_getAnyPeer sound minVersion draws
  unfold Ends at selected
  rcases ended : perform (PeerTracker.getAnyPeer minVersion draws) n.peers with ⟨result, peers⟩
  rw [ended] at selected
  refine ⟨peers, selected.shrinks, ?_⟩
  match result with
  | .error _ => exact .inl rfl
  | .ok none => exact .inl rfl
  | .ok (some nodeID) =>
    refine (request_cases nodeID cancelledLate { n with peers }).imp id fun tracked => ⟨nodeID, ?_, tracked⟩
    exact (selected.offered nodeID rfl).imp id And.right

variable [Averaging Bandwidth Averager]

theorem sound_step (sound : n.peers.Sound) (call : Call Version Bandwidth) : (n.step call).peers.Sound := by
  cases call with
  | connected nodeID nodeVersion =>
    simp only [Network.step]
    split
    · exact sound
    · exact sound.connected nodeID nodeVersion
  | disconnected nodeID =>
    simp only [Network.step]
    split
    · exact sound
    · exact sound.disconnected nodeID
  | trackBandwidth nodeID bandwidth => exact sound.trackBandwidth nodeID bandwidth
  | sendAppRequest nodeID cancelled =>
    simp only [Network.step, Network.sendAppRequest]
    split
    · exact sound
    · rcases request_cases nodeID cancelled n with same | tracked
      · rwa [same]
      · rw [tracked]
        exact sound.trackPeer nodeID
  | sendAppRequestAny minVersion draws cancelled cancelledLate =>
    simp only [Network.step]
    obtain ⟨peers, shrinks, same | ⟨nodeID, -, same⟩⟩ := sendAppRequestAny_cases sound minVersion draws cancelled cancelledLate
    · rw [same]
      exact sound.shrinks shrinks
    · rw [same]
      exact (sound.shrinks shrinks).trackPeer nodeID
  | shutdown => exact sound

/-- A request that is sent goes to a connected peer. -/
def Allowed (n : Network Version Averager) : Call Version Bandwidth → Prop
  | .sendAppRequest nodeID cancelled => nodeID ≠ EmptyNodeID → ¬ (n.closed ∨ cancelled) → nodeID ∈ n.peers.peers
  | _ => True

namespace PeerTracker.TracksConnected

omit [Ord Version] [Averaging Bandwidth Averager] in
theorem grow (tracks : p.TracksConnected) (same : after.trackedPeers = p.trackedPeers) (more : ∀ nodeID ∈ p.peers, nodeID ∈ after.peers) :
    after.TracksConnected :=
  fun nodeID member => more nodeID (tracks nodeID (same ▸ member))

theorem connected (tracks : p.TracksConnected) (nodeID : NodeID) (nodeVersion : Version) :
    (p.connected nodeID nodeVersion).TracksConnected := by
  unfold PeerTracker.connected
  cases p.peers.lookup nodeID with
  | none => exact tracks.grow rfl fun other member => (AList.mem_insert _).mpr (.inr member)
  | some peer =>
    dsimp only
    split
    · exact tracks.grow rfl fun other member => (AList.mem_insert _).mpr (.inr member)
    · exact tracks

omit [Ord Version] in
theorem trackBandwidth (tracks : p.TracksConnected) (nodeID : NodeID) (bandwidth : Bandwidth) :
    (p.trackBandwidth nodeID bandwidth).TracksConnected := by
  unfold PeerTracker.trackBandwidth
  cases p.peers.lookup nodeID with
  | none => exact tracks
  | some peer => exact tracks.grow rfl fun other member => (AList.mem_insert _).mpr (.inr member)

omit [Ord Version] [Averaging Bandwidth Averager] in
theorem disconnected (tracks : p.TracksConnected) (nodeID : NodeID) : (p.disconnected nodeID).TracksConnected := by
  intro other member
  obtain ⟨member, apart⟩ := List.mem_filter.mp member
  exact AList.mem_erase.mpr ⟨of_decide_eq_true apart, tracks other member⟩

omit [Ord Version] [Averaging Bandwidth Averager] in
theorem trackPeer_iff (tracks : p.TracksConnected) (nodeID : NodeID) : (p.trackPeer nodeID).TracksConnected ↔ nodeID ∈ p.peers := by
  constructor
  · exact fun tracks => tracks nodeID List.mem_insert_self
  · intro connected other member
    rcases List.mem_insert_iff.mp member with rfl | member
    · exact connected
    · exact tracks other member

end PeerTracker.TracksConnected

/-- Tracked peers stay connected exactly if the call is allowed. -/
theorem tracksConnected_step_iff (sound : n.peers.Sound) (tracks : n.peers.TracksConnected) (call : Call Version Bandwidth) :
    (n.step call).peers.TracksConnected ↔ Allowed n call := by
  cases call with
  | connected nodeID nodeVersion =>
    refine iff_of_true ?_ trivial
    simp only [Network.step]
    split
    · exact tracks
    · exact tracks.connected nodeID nodeVersion
  | disconnected nodeID =>
    refine iff_of_true ?_ trivial
    simp only [Network.step]
    split
    · exact tracks
    · exact tracks.disconnected nodeID
  | trackBandwidth nodeID bandwidth => exact iff_of_true (tracks.trackBandwidth nodeID bandwidth) trivial
  | sendAppRequest nodeID cancelled =>
    simp only [Network.step, Network.sendAppRequest, Network.request, Allowed]
    split_ifs with empty stopped
    · exact iff_of_true tracks fun some_node => absurd empty some_node
    · exact iff_of_true tracks fun _ running => absurd stopped running
    · rw [tracks.trackPeer_iff]
      exact ⟨fun connected _ _ => connected, fun allowed => allowed empty stopped⟩
  | sendAppRequestAny minVersion draws cancelled cancelledLate =>
    refine iff_of_true ?_ trivial
    simp only [Network.step]
    obtain ⟨peers, shrinks, same | ⟨nodeID, offered, same⟩⟩ := sendAppRequestAny_cases sound minVersion draws cancelled cancelledLate
    · rw [same]
      exact tracks.grow shrinks.trackedPeers fun other member => shrinks.peers ▸ member
    · rw [same]
      have tracks' : peers.TracksConnected := tracks.grow shrinks.trackedPeers fun other member => shrinks.peers ▸ member
      refine (tracks'.trackPeer_iff nodeID).mpr (shrinks.peers ▸ ?_)
      rcases offered with candidate | fallback
      · exact connected_of_suits (suits_of_candidate candidate)
      · exact connected_of_fallback sound tracks fallback
  | shutdown => exact iff_of_true tracks trivial

theorem sound_of_reach {condition : Network Version Averager → Call Version Bandwidth → Prop}
    (reach : Reach (peerSystem Version Bandwidth Averager) condition n) : n.peers.Sound := by
  refine reach.invariant (fun n => n.peers.Sound) ?_ fun n call after sound _ stepped => ?_
  · rintro n ⟨-, new⟩
    rw [new]
    exact ⟨fun nodeID member => absurd member List.not_mem_nil, fun nodeID member => absurd member List.not_mem_nil⟩
  · rw [← stepped]
    exact sound_step sound call

theorem tracksConnected_of_reach (reach : Reach (peerSystem Version Bandwidth Averager) Allowed n) : n.peers.TracksConnected := by
  have both : n.peers.Sound ∧ n.peers.TracksConnected := by
    refine reach.invariant (fun n => n.peers.Sound ∧ n.peers.TracksConnected) ?_ fun n call after kept allowed stepped => ?_
    · intro n initial
      refine ⟨sound_of_reach (.start initial : Reach (peerSystem Version Bandwidth Averager) Allowed n), ?_⟩
      rw [initial.2]
      exact fun nodeID member => absurd member List.not_mem_nil
    · rw [← stepped]
      exact ⟨sound_step kept.1 call, (tracksConnected_step_iff kept.1 kept.2 call).mpr allowed⟩
  exact both.2

end

instance : Averaging Nat Nat where
  isZero bandwidth := bandwidth = 0
  newAverager bandwidth := bandwidth
  observe bandwidth averager := (bandwidth + averager) / 2

def freshNetwork : Network Nat Nat where
  self := 9
  closed := false
  peers := .new

def plainDraws : Draws where
  newPeer := .ok false
  randomPeer := .ok false
  next := 0
  responsive := 0
  best := 0
  tracked := 0

/-- A peer of version 3 has been sent a request. -/
def usedNetwork : Network Nat Nat :=
  (freshNetwork.step (.connected 5 3 : Call Nat Nat)).step (.sendAppRequest 5 false : Call Nat Nat)

end Snowside.Peers
