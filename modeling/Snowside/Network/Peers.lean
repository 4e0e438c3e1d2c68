import Snowside.Network.Requests
import Snowside.Partial.Checked
import Snowside.Partial.Maps
import Snowside.Partial.Stateful

/-! The peer tracker of the chain's network, and the calls that use it. -/

set_option autoImplicit false

namespace Snowside.Peers

open Requests (NodeID EmptyNodeID)
open Checked Runs Stateful
open Maps (Map)

/-- Averages of bandwidths. -/
class Averaging (Bandwidth : Type) (Averager : outParam Type) where
  isZero : Bandwidth → Bool
  newAverager : Bandwidth → Averager
  observe : Bandwidth → Averager → Averager

open Averaging

structure PeerInfo (Version Averager : Type) where
  version : Version
  bandwidth : Option Averager

structure PeerTracker (Version Averager : Type) where
  peers : Map NodeID (PeerInfo Version Averager)
  trackedPeers : List NodeID
  responsivePeers : List NodeID
  bandwidthHeap : Map NodeID Averager

inductive TrackerError where
  | random
  /-- Panic: a nil pointer is read. -/
  | nilPointer
  deriving DecidableEq, Repr

/-- What chance decides in one selection: two comparisons of random values, and which
elements the iterations and the heap come to first. -/
structure Draws where
  newPeer : Except Unit Bool
  randomPeer : Except Unit Bool
  next : Nat
  responsive : Nat
  best : Nat
  tracked : Nat

/-- Some element, if there is one. -/
def pick {α : Type} (place : Nat) (items : List α) : Option α := items[place % items.length]?

def desiredMinResponsivePeers : Nat := 20

section

variable {Version Bandwidth Averager : Type} [Ord Version]

def PeerInfo.suits (minVersion : Option Version) (peer : PeerInfo Version Averager) : Bool :=
  minVersion.all fun minVersion => compare peer.version minVersion ≠ .lt

namespace PeerTracker

def new : PeerTracker Version Averager where
  peers := ∅
  trackedPeers := []
  responsivePeers := []
  bandwidthHeap := ∅

def shouldTrackNewPeer (draws : Draws) (p : PeerTracker Version Averager) : Except TrackerError Bool :=
  if p.responsivePeers.length < desiredMinResponsivePeers then .ok true
  else if p.peers.keys.length ≤ p.trackedPeers.length then .ok false
  else draws.newPeer.mapError fun _ => .random

/-- The peers that GetAnyPeer may turn to for the first time. -/
def candidates (minVersion : Option Version) (p : PeerTracker Version Averager) : List NodeID :=
  p.peers.keys.filter fun nodeID => (p.peers.lookup nodeID).any (·.suits minVersion) ∧ nodeID ∉ p.trackedPeers

def removeBandwidth (nodeID : NodeID) (p : PeerTracker Version Averager) : PeerTracker Version Averager :=
  { p with bandwidthHeap := p.bandwidthHeap.erase nodeID }

def getResponsivePeer (draws : Draws) : Action TrackerError (PeerTracker Version Averager) (Option (NodeID × Option Averager)) := do
  let p ← get
  match pick draws.responsive p.responsivePeers with
  | none => return none
  | some nodeID =>
    match p.bandwidthHeap.lookup nodeID with
    | some averager =>
      modify (removeBandwidth nodeID)
      return some (nodeID, some averager)
    | none =>
      let peer ← check (need .nilPointer (p.peers.lookup nodeID))
      return some (nodeID, peer.bandwidth)

/-- Pop, whichever peer is best. -/
def popPeer (draws : Draws) : Action TrackerError (PeerTracker Version Averager) (Option (NodeID × Option Averager)) := do
  let p ← get
  match pick draws.best p.bandwidthHeap.entries with
  | none => return none
  | some entry =>
    modify (removeBandwidth entry.1)
    return some (entry.1, some entry.2)

/-- A peer with a bandwidth: any, or the best. -/
def getRatedPeer (random : Bool) (draws : Draws) :
    Action TrackerError (PeerTracker Version Averager) (Option (NodeID × Option Averager)) :=
  if random then getResponsivePeer draws else popPeer draws

/-- A peer that was tracked before. -/
def getTrackedPeer (draws : Draws) : Action TrackerError (PeerTracker Version Averager) (Option NodeID) := do
  let random ← check (draws.randomPeer.mapError fun _ => .random)
  let found ← getRatedPeer random draws
  match found with
  | some (nodeID, averager) =>
    -- The bandwidth is read for the log.
    let _ ← check (need .nilPointer averager)
    return some nodeID
  | none =>
    let p ← get
    return pick draws.tracked p.trackedPeers

def getAnyPeer (minVersion : Option Version) (draws : Draws) : Action TrackerError (PeerTracker Version Averager) (Option NodeID) := do
  let p ← get
  let shouldTrackNewPeer ← check (p.shouldTrackNewPeer draws)
  match if shouldTrackNewPeer then pick draws.next (p.candidates minVersion) else none with
  | some nodeID => return some nodeID
  | none => getTrackedPeer draws

def trackPeer (nodeID : NodeID) (p : PeerTracker Version Averager) : PeerTracker Version Averager :=
  { p with trackedPeers := p.trackedPeers.insert nodeID }

def trackBandwidth [Averaging Bandwidth Averager] (nodeID : NodeID) (bandwidth : Bandwidth) (p : PeerTracker Version Averager) :
    PeerTracker Version Averager :=
  match p.peers.lookup nodeID with
  | none => p
  | some peer =>
    let averager := match peer.bandwidth with
      | none => newAverager bandwidth
      | some averager => observe bandwidth averager
    { p with
      peers := p.peers.insert nodeID { peer with bandwidth := some averager }
      bandwidthHeap := p.bandwidthHeap.insert nodeID averager
      responsivePeers :=
        if isZero bandwidth then p.responsivePeers.filter (· ≠ nodeID) else p.responsivePeers.insert nodeID }

def connected (nodeID : NodeID) (nodeVersion : Version) (p : PeerTracker Version Averager) : PeerTracker Version Averager :=
  match p.peers.lookup nodeID with
  | some peer =>
    if compare nodeVersion peer.version ≠ .eq then
      { p with peers := p.peers.insert nodeID { version := nodeVersion, bandwidth := peer.bandwidth } }
    else p
  | none => { p with peers := p.peers.insert nodeID { version := nodeVersion, bandwidth := none } }

def disconnected (nodeID : NodeID) (p : PeerTracker Version Averager) : PeerTracker Version Averager where
  bandwidthHeap := p.bandwidthHeap.erase nodeID
  trackedPeers := p.trackedPeers.filter (· ≠ nodeID)
  responsivePeers := p.responsivePeers.filter (· ≠ nodeID)
  peers := p.peers.erase nodeID

end PeerTracker

/-! ## The network -/

structure Network (Version Averager : Type) where
  self : NodeID
  closed : Bool
  peers : PeerTracker Version Averager

/-- The calls; a context may be cancelled before a request is sent. -/
inductive Call (Version Bandwidth : Type) where
  | connected (nodeID : NodeID) (nodeVersion : Version)
  | disconnected (nodeID : NodeID)
  | trackBandwidth (nodeID : NodeID) (bandwidth : Bandwidth)
  | sendAppRequest (nodeID : NodeID) (cancelled : Bool)
  | sendAppRequestAny (minVersion : Option Version) (draws : Draws) (cancelled : Bool) (cancelledLate : Bool)
  | shutdown

namespace Network

/-- sendAppRequest: what it does to the peers. -/
def request (nodeID : NodeID) (cancelled : Bool) (n : Network Version Averager) : Network Version Averager :=
  if n.closed ∨ cancelled then n else { n with peers := n.peers.trackPeer nodeID }

def sendAppRequest (nodeID : NodeID) (cancelled : Bool) (n : Network Version Averager) : Network Version Averager :=
  if nodeID = EmptyNodeID then n else n.request nodeID cancelled

def sendAppRequestAny (minVersion : Option Version) (draws : Draws) (cancelled cancelledLate : Bool) (n : Network Version Averager) :
    Network Version Averager :=
  if cancelled then n
  else
    match perform (PeerTracker.getAnyPeer minVersion draws) n.peers with
    | (.ok (some nodeID), peers) => { n with peers }.request nodeID cancelledLate
    | (_, peers) => { n with peers }

def step [Averaging Bandwidth Averager] (n : Network Version Averager) : Call Version Bandwidth → Network Version Averager
  | .connected nodeID nodeVersion =>
      if n.closed ∨ nodeID = n.self then n else { n with peers := n.peers.connected nodeID nodeVersion }
  | .disconnected nodeID => if n.closed ∨ nodeID = n.self then n else { n with peers := n.peers.disconnected nodeID }
  | .trackBandwidth nodeID bandwidth => { n with peers := n.peers.trackBandwidth nodeID bandwidth }
  | .sendAppRequest nodeID cancelled => n.sendAppRequest nodeID cancelled
  | .sendAppRequestAny minVersion draws cancelled cancelledLate => n.sendAppRequestAny minVersion draws cancelled cancelledLate
  | .shutdown => { n with closed := true }

end Network

/-- From a network without peers on. -/
def peerSystem (Version Bandwidth Averager : Type) [Ord Version] [Averaging Bandwidth Averager] :
    System (Network Version Averager) (Call Version Bandwidth) where
  initial n := n.closed = false ∧ n.peers = .new
  step n call after := n.step call = after

end

end Snowside.Peers
