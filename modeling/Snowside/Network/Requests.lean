import Mathlib.Data.List.Nodup
import Mathlib.Logic.Function.Basic
import Snowside.Chain.Runs

/-! The requests of the chain's network: the slots they hold and the handlers that wait for their answers. -/

set_option autoImplicit false

namespace Snowside.Requests

open Runs

/-- The id of a node. -/
abbrev NodeID := BitVec 160

def EmptyNodeID : NodeID := 0

/-- A call of SendAppRequest or SendAppRequestAny, with the response handler it was given. -/
abbrev Call := Nat

inductive SendError where
  | emptyNodeID
  | cancelled
  | acquiringSemaphore
  | selection
  | noPeersFound
  | sender
  deriving DecidableEq, Repr

/-- What a call comes back with; only SendAppRequestAny names a node. -/
structure Returned where
  nodeID : NodeID
  err : Option SendError
  deriving DecidableEq, Repr

/-- The two ways a response handler is invoked. -/
inductive Notice where
  | onResponse
  | onFailure
  deriving DecidableEq, Repr

/-- A call that holds a slot and waits for the lock; without a target it is SendAppRequestAny. -/
structure Request where
  call : Call
  target : Option NodeID
  deriving DecidableEq, Repr

/-- The network, with the calls on their way through it. -/
structure Network where
  requestIDGen : UInt32
  outstandingRequestHandlers : List (UInt32 × Call)
  activeAppRequests : Nat
  closed : Bool
  /-- Inside the send path. -/
  sending : List Request
  /-- Marked as fulfilled, the slot not yet released. -/
  answering : List (Call × Notice)
  /-- The slot released, the handler not yet invoked. -/
  released : List (Call × Notice)
  returned : Call → Option Returned
  invoked : Call → List Notice
  /-- The calls that found the network closed when they were about to send. -/
  ignored : List Call

/-- NewNetwork. -/
def newNetwork : Network where
  requestIDGen := 0
  outstandingRequestHandlers := []
  activeAppRequests := 0
  closed := false
  sending := []
  answering := []
  released := []
  returned := fun _ => none
  invoked := fun _ => []
  ignored := []

namespace Network

def returns (network : Network) (call : Call) (nodeID : NodeID) (err : Option SendError) : Network :=
  { network with returned := Function.update network.returned call (some ⟨nodeID, err⟩) }

def release (network : Network) : Network :=
  { network with activeAppRequests := network.activeAppRequests - 1 }

def nextRequestID (network : Network) : UInt32 × Network :=
  (network.requestIDGen, { network with requestIDGen := network.requestIDGen + 2 })

/-- The entry of a request id in the table of handlers is set. -/
def register (network : Network) (requestID : UInt32) (call : Call) : Network :=
  { network with
    outstandingRequestHandlers :=
      (requestID, call) :: network.outstandingRequestHandlers.filter fun entry => entry.1 ≠ requestID }

def delete (network : Network) (requestID : UInt32) : Network :=
  { network with outstandingRequestHandlers := network.outstandingRequestHandlers.filter fun entry => entry.1 ≠ requestID }

/-- sendAppRequest, under the lock; the node is the one its caller returns beside the error. -/
def sendAppRequest (network : Network) (call : Call) (nodeID : NodeID) (cancelled sent : Bool) : Network :=
  if network.closed then { network.release.returns call nodeID none with ignored := call :: network.ignored }
  else if cancelled then network.release.returns call nodeID (some .cancelled)
  else
    let (requestID, counted) := network.nextRequestID
    let registered := counted.register requestID call
    if sent then registered.returns call nodeID none
    else (registered.release.delete requestID).returns call nodeID (some .sender)

/-- What GetAnyPeer comes back with: an error, no peer, or a peer. -/
abbrev Selection := Except Unit (Option NodeID)

/-- The part of SendAppRequest and SendAppRequestAny under the lock. -/
def underLock (network : Network) (request : Request) (selection : Selection) (cancelled sent : Bool) : Network :=
  match request.target with
  | some _ => network.sendAppRequest request.call EmptyNodeID cancelled sent
  | none =>
    match selection with
    | .error _ => network.returns request.call EmptyNodeID (some .selection)
    | .ok (some nodeID) => network.sendAppRequest request.call nodeID cancelled sent
    | .ok none => network.release.returns request.call EmptyNodeID (some .noPeersFound)

/-- SendAppRequest and SendAppRequestAny up to the lock; none while no slot is available. -/
def acquire (capacity : Nat) (network : Network) (request : Request) (cancelled acquired : Bool) : Option Network :=
  if request.target = some EmptyNodeID then some (network.returns request.call EmptyNodeID (some .emptyNodeID))
  else if cancelled then some (network.returns request.call EmptyNodeID (some .cancelled))
  else if !acquired then some (network.returns request.call EmptyNodeID (some .acquiringSemaphore))
  else if network.activeAppRequests < capacity then
    some { network with
      activeAppRequests := network.activeAppRequests + 1
      sending := request :: network.sending }
  else none

/-- The handler of a fulfilled request leaves the table; without one the answer is for the SDK network. -/
def markRequestFulfilled (network : Network) (requestID : UInt32) (notice : Notice) : Network :=
  match network.outstandingRequestHandlers.find? fun entry => entry.1 = requestID with
  | none => network
  | some entry =>
    { network with
      outstandingRequestHandlers := network.outstandingRequestHandlers.erase entry
      answering := (entry.2, notice) :: network.answering }

/-- Every pending request fails, and the network is closed. -/
def shutdown (network : Network) : Network :=
  { network with
    outstandingRequestHandlers := []
    invoked := fun call =>
      (network.outstandingRequestHandlers.filter fun entry => entry.2 = call).map (fun _ => Notice.onFailure) ++
        network.invoked call
    closed := true }

end Network

/-- The steps of the calls, in any order. -/
inductive Action where
  | acquire (request : Request) (cancelled acquired : Bool)
  | underLock (request : Request) (selection : Network.Selection) (cancelled sent : Bool)
  /-- AppResponse and AppRequestFailed: the table, the slot, the handler. -/
  | fulfilled (requestID : UInt32) (notice : Notice)
  | release (answer : Call × Notice)
  | invoke (answer : Call × Notice)
  | shutdown
  deriving DecidableEq

/-- One step; a call is made once. -/
def step (capacity : Nat) (network : Network) : Action → Option Network
  | .acquire request cancelled acquired =>
    if (network.returned request.call).isNone && !network.sending.any fun other => other.call = request.call then
      network.acquire capacity request cancelled acquired
    else none
  | .underLock request selection cancelled sent =>
    if request ∈ network.sending then
      some ({ network with sending := network.sending.erase request }.underLock request selection cancelled sent)
    else none
  | .fulfilled requestID notice => some (network.markRequestFulfilled requestID notice)
  | .release answer =>
    if answer ∈ network.answering then
      some { network.release with
        answering := network.answering.erase answer
        released := answer :: network.released }
    else none
  | .invoke answer =>
    if answer ∈ network.released then
      some { network with
        released := network.released.erase answer
        invoked := Function.update network.invoked answer.1 (answer.2 :: network.invoked answer.1) }
    else none
  | .shutdown => some network.shutdown

def system (capacity : Nat) : System Network Action where
  initial network := network = newNetwork
  step network action after := step capacity network action = some after

/-- What a step has met, and what it leaves. -/
inductive Stepped (capacity : Nat) (network : Network) : Action → Network → Prop where
  | refused {request : Request} {cancelled acquired : Bool} {err : SendError} : network.returned request.call = none →
      (∀ other ∈ network.sending, other.call ≠ request.call) →
      Stepped capacity network (.acquire request cancelled acquired) (network.returns request.call EmptyNodeID (some err))
  | acquired {request : Request} {cancelled acquired : Bool} : network.returned request.call = none →
      (∀ other ∈ network.sending, other.call ≠ request.call) → network.activeAppRequests < capacity →
      Stepped capacity network (.acquire request cancelled acquired)
        { network with activeAppRequests := network.activeAppRequests + 1, sending := request :: network.sending }
  | underLock {request : Request} {selection : Network.Selection} {cancelled sent : Bool} : request ∈ network.sending →
      Stepped capacity network (.underLock request selection cancelled sent)
        ({ network with sending := network.sending.erase request }.underLock request selection cancelled sent)
  | unknown {requestID : UInt32} {notice : Notice} : Stepped capacity network (.fulfilled requestID notice) network
  | fulfilled {requestID : UInt32} {notice : Notice} {entry : UInt32 × Call} :
      network.outstandingRequestHandlers.find? (fun entry => entry.1 = requestID) = some entry →
      Stepped capacity network (.fulfilled requestID notice)
        { network with
          outstandingRequestHandlers := network.outstandingRequestHandlers.erase entry
          answering := (entry.2, notice) :: network.answering }
  | release {answer : Call × Notice} : answer ∈ network.answering →
      Stepped capacity network (.release answer)
        { network.release with
          answering := network.answering.erase answer
          released := answer :: network.released }
  | invoke {answer : Call × Notice} : answer ∈ network.released →
      Stepped capacity network (.invoke answer)
        { network with
          released := network.released.erase answer
          invoked := Function.update network.invoked answer.1 (answer.2 :: network.invoked answer.1) }
  | shutdown : Stepped capacity network .shutdown network.shutdown

theorem acquire_cases {capacity : Nat} {network after : Network} {request : Request} {cancelled acquired : Bool}
    (unreturned : network.returned request.call = none) (outside : ∀ other ∈ network.sending, other.call ≠ request.call)
    (stepped : network.acquire capacity request cancelled acquired = some after) :
    Stepped capacity network (.acquire request cancelled acquired) after := by
  unfold Network.acquire at stepped
  split at stepped
  · cases stepped
    exact .refused unreturned outside
  · split at stepped
    · cases stepped
      exact .refused unreturned outside
    · split at stepped
      · cases stepped
        exact .refused unreturned outside
      · split at stepped
        · next room =>
          cases stepped
          exact .acquired unreturned outside room
        · cases stepped

theorem step_cases {capacity : Nat} {network after : Network} {action : Action}
    (stepped : step capacity network action = some after) : Stepped capacity network action after := by
  cases action with
  | acquire request cancelled acquired =>
    simp only [step, Bool.and_eq_true, Option.isNone_iff_eq_none, Bool.not_eq_true', List.any_eq_false,
      decide_eq_true_eq] at stepped
    split at stepped
    · next new => exact acquire_cases new.1 new.2 stepped
    · cases stepped
  | underLock request selection cancelled sent =>
    simp only [step] at stepped
    split at stepped
    · next member =>
      cases stepped
      exact .underLock member
    · cases stepped
  | fulfilled requestID notice =>
    cases stepped
    unfold Network.markRequestFulfilled
    cases looked : network.outstandingRequestHandlers.find? (fun entry => entry.1 = requestID) with
    | none => exact .unknown
    | some entry => exact .fulfilled looked
  | release answer =>
    simp only [step] at stepped
    split at stepped
    · next member =>
      cases stepped
      exact .release member
    · cases stepped
  | invoke answer =>
    simp only [step] at stepped
    split at stepped
    · next member =>
      cases stepped
      exact .invoke member
    · cases stepped
  | shutdown =>
    cases stepped
    exact .shutdown

/-! ## What holds of the handlers and the slots -/

namespace Network

/-- How often the handler of a call is found: in the table, with an answer on its way, and invoked. -/
def found (network : Network) (call : Call) : Nat :=
  (network.outstandingRequestHandlers.countP fun entry => entry.2 = call) +
    (network.answering.countP fun answer => answer.1 = call) +
    (network.released.countP fun answer => answer.1 = call) + (network.invoked call).length

/-- The call returned nil, and not because the network was closed. -/
def sent (network : Network) (call : Call) : Prop :=
  (∃ nodeID, network.returned call = some ⟨nodeID, none⟩) ∧ call ∉ network.ignored

/-- The request gets an id and a place in the table. -/
def registers (network : Network) (request : Request) (selection : Selection) (cancelled : Bool) : Prop :=
  network.closed = false ∧ cancelled = false ∧ (request.target.isSome ∨ ∃ nodeID, selection = .ok (some nodeID))

/-- What the table and the answers say of each call. -/
structure Settled (network : Network) : Prop where
  once : ∀ call, network.sent call → network.found call = 1
  never : ∀ call, ¬network.sent call → network.found call = 0
  late : ∀ call ∈ network.ignored, network.closed = true ∧ ∃ nodeID, network.returned call = some ⟨nodeID, none⟩
  waiting : ∀ request ∈ network.sending, network.returned request.call = none
  single : (network.sending.map Request.call).Nodup

/-- Every slot held belongs to an outstanding handler, to a call in the send path or to an answer that is about to
release it. -/
def Slots (network : Network) : Prop :=
  network.activeAppRequests =
    network.outstandingRequestHandlers.length + network.sending.length + network.answering.length

variable {network : Network} {call : Call} {nodeID : NodeID}

theorem not_sent_of_unreturned (unreturned : network.returned call = none) : ¬network.sent call := by
  intro sent
  obtain ⟨⟨nodeID, back⟩, -⟩ := sent
  rw [unreturned] at back
  cases back

theorem returns_self (err : Option SendError) : (network.returns call nodeID err).returned call = some ⟨nodeID, err⟩ :=
  Function.update_self ..

theorem returns_other {other : Call} (err : Option SendError) (distinct : other ≠ call) :
    (network.returns call nodeID err).returned other = network.returned other :=
  Function.update_of_ne distinct ..

theorem sent_returns_other {other : Call} (err : Option SendError) (distinct : other ≠ call) :
    (network.returns call nodeID err).sent other ↔ network.sent other := by
  unfold sent
  rw [returns_other err distinct]
  rfl

/-- A call in no list of the send path and not returned may come back with an error. -/
theorem Settled.returnsError (settled : network.Settled) (unreturned : network.returned call = none)
    (outside : ∀ request ∈ network.sending, request.call ≠ call) (err : SendError) :
    (network.returns call nodeID (some err)).Settled := by
  have lost : ¬(network.returns call nodeID (some err)).sent call := by
    intro sent
    obtain ⟨⟨other, back⟩, -⟩ := sent
    rw [returns_self] at back
    cases back
  refine ⟨?_, ?_, ?_, ?_, settled.single⟩
  · intro other sent
    have distinct : other ≠ call := fun same => lost (same ▸ sent)
    exact settled.once other ((sent_returns_other _ distinct).mp sent)
  · intro other unsent
    by_cases same : other = call
    · subst same
      exact settled.never other (not_sent_of_unreturned unreturned)
    · exact settled.never other (fun sent => unsent ((sent_returns_other _ same).mpr sent))
  · intro other member
    obtain ⟨closed, there⟩ := settled.late other member
    have distinct : other ≠ call := by
      intro same
      obtain ⟨node, back⟩ := there
      rw [same, unreturned] at back
      cases back
    exact ⟨closed, by rw [returns_other _ distinct]; exact there⟩
  · intro request member
    rw [returns_other _ (outside request member)]
    exact settled.waiting request member

theorem Settled.release (settled : network.Settled) : network.release.Settled :=
  ⟨settled.once, settled.never, settled.late, settled.waiting, settled.single⟩

theorem Settled.leaves {request : Request} (settled : network.Settled) :
    ({ network with sending := network.sending.erase request } : Network).Settled :=
  ⟨settled.once, settled.never, settled.late,
    fun other member => settled.waiting other (List.mem_of_mem_erase member),
    settled.single.sublist (List.erase_sublist.map Request.call)⟩

/-- A call that finds the network closed comes back with nil, and its handler goes nowhere. -/
theorem Settled.ignores (settled : network.Settled) (unreturned : network.returned call = none)
    (outside : ∀ request ∈ network.sending, request.call ≠ call) (closed : network.closed = true) :
    ({ network.returns call nodeID none with ignored := call :: network.ignored } : Network).Settled := by
  refine ⟨?_, ?_, ?_, ?_, settled.single⟩
  · intro other sent
    have distinct : other ≠ call := fun same => sent.2 (same ▸ List.mem_cons_self)
    have back := sent.1
    have before : network.sent other :=
      ⟨by simpa only [returns_other none distinct] using back, fun member => sent.2 (List.mem_cons_of_mem _ member)⟩
    exact settled.once other before
  · intro other unsent
    by_cases same : other = call
    · subst same
      exact settled.never other (not_sent_of_unreturned unreturned)
    · refine settled.never other fun sent => unsent ⟨?_, ?_⟩
      · simpa only [returns_other none same] using sent.1
      · intro member
        rcases List.mem_cons.mp member with here | there
        · exact same here
        · exact sent.2 there
  · intro other member
    by_cases same : other = call
    · subst same
      exact ⟨closed, nodeID, returns_self none⟩
    · obtain ⟨late, there⟩ := settled.late other ((List.mem_cons.mp member).resolve_left same)
      exact ⟨late, by simpa only [returns_other none same] using there⟩
  · intro request member
    have there := settled.waiting request member
    simpa only [returns_other none (outside request member)] using there

/-- An id that no outstanding request has takes nothing from the table. -/
theorem filter_fresh {requestID : UInt32} (fresh : ∀ entry ∈ network.outstandingRequestHandlers, entry.1 ≠ requestID) :
    (network.outstandingRequestHandlers.filter fun entry => entry.1 ≠ requestID) = network.outstandingRequestHandlers :=
  List.filter_eq_self.mpr fun entry member => decide_eq_true (fresh entry member)

/-- A call that is registered under a fresh id comes back with nil and is found once, in the table. -/
theorem Settled.registered {requestID : UInt32} (settled : network.Settled) (unreturned : network.returned call = none)
    (outside : ∀ request ∈ network.sending, request.call ≠ call)
    (fresh : ∀ entry ∈ network.outstandingRequestHandlers, entry.1 ≠ requestID) :
    ((network.register requestID call).returns call nodeID none).Settled := by
  have unignored : call ∉ network.ignored := by
    intro member
    obtain ⟨-, node, back⟩ := settled.late call member
    rw [unreturned] at back
    cases back
  have table : (network.register requestID call).outstandingRequestHandlers =
      (requestID, call) :: network.outstandingRequestHandlers := by
    show (requestID, call) :: network.outstandingRequestHandlers.filter _ = _
    rw [filter_fresh fresh]
  have here : ((network.register requestID call).returns call nodeID none).found call = network.found call + 1 := by
    show ((network.register requestID call).outstandingRequestHandlers.countP fun entry => entry.2 = call) + _ + _ + _ = _
    rw [table, List.countP_cons_of_pos (by simp)]
    unfold found
    show _ + 1 + (network.answering.countP _) + (network.released.countP _) + (network.invoked call).length = _
    omega
  have elsewhere : ∀ other, other ≠ call →
      ((network.register requestID call).returns call nodeID none).found other = network.found other := by
    intro other distinct
    show ((network.register requestID call).outstandingRequestHandlers.countP fun entry => entry.2 = other) + _ + _ + _ = _
    rw [table, List.countP_cons_of_neg (by simp [Ne.symm distinct])]
    rfl
  refine ⟨?_, ?_, ?_, ?_, settled.single⟩
  · intro other sent
    by_cases same : other = call
    · subst same
      rw [here, settled.never other (not_sent_of_unreturned unreturned)]
    · rw [elsewhere other same]
      exact settled.once other ((sent_returns_other _ same).mp sent)
  · intro other unsent
    have distinct : other ≠ call := by
      intro same
      exact unsent ⟨⟨nodeID, same ▸ returns_self none⟩, same ▸ unignored⟩
    rw [elsewhere other distinct]
    refine settled.never other fun sent => unsent ?_
    exact (sent_returns_other _ distinct).mpr sent
  · intro other member
    have distinct : other ≠ call := fun same => unignored (same ▸ member)
    obtain ⟨closed, there⟩ := settled.late other member
    exact ⟨closed, by rw [returns_other _ distinct]; exact there⟩
  · intro request member
    rw [returns_other _ (outside request member)]
    exact settled.waiting request member

theorem delete_register {requestID : UInt32}
    (fresh : ∀ entry ∈ network.outstandingRequestHandlers, entry.1 ≠ requestID) :
    (network.register requestID call).release.delete requestID = network.release := by
  have restored : ((requestID, call) :: network.outstandingRequestHandlers.filter fun entry => entry.1 ≠ requestID).filter
      (fun entry => entry.1 ≠ requestID) = network.outstandingRequestHandlers := by
    rw [filter_fresh fresh, List.filter_cons_of_neg (by simp), filter_fresh fresh]
  unfold delete register release
  simp only [restored]

/-- A call that leaves the lock has come back, with its handler where its answer says. -/
theorem Settled.sendAppRequest {cancelled sent : Bool} (settled : network.Settled)
    (unreturned : network.returned call = none) (outside : ∀ request ∈ network.sending, request.call ≠ call)
    (fresh : network.closed = false → cancelled = false →
      ∀ entry ∈ network.outstandingRequestHandlers, entry.1 ≠ network.requestIDGen) :
    (network.sendAppRequest call nodeID cancelled sent).Settled := by
  unfold Network.sendAppRequest
  cases closed : network.closed with
  | true => exact settled.release.ignores unreturned outside closed
  | false =>
    cases cancelled with
    | true => exact settled.release.returnsError unreturned outside .cancelled
    | false =>
      have free := fresh closed rfl
      have counted : network.nextRequestID.2.Settled :=
        ⟨settled.once, settled.never, settled.late, settled.waiting, settled.single⟩
      cases sent with
      | true => exact counted.registered unreturned outside free
      | false =>
        have gone : (network.nextRequestID.2.register network.requestIDGen call).release.delete network.requestIDGen =
            network.nextRequestID.2.release := delete_register free
        show ((network.nextRequestID.2.register network.requestIDGen call).release.delete network.requestIDGen |>.returns
          call nodeID (some .sender)).Settled
        rw [gone]
        exact counted.release.returnsError unreturned outside .sender

/-- Under the lock, when an id that is about to be used is not in the table. -/
theorem Settled.underLock {request : Request} {selection : Selection} {cancelled sent : Bool} (settled : network.Settled)
    (unreturned : network.returned request.call = none)
    (outside : ∀ other ∈ network.sending, other.call ≠ request.call)
    (fresh : network.registers request selection cancelled →
      ∀ entry ∈ network.outstandingRequestHandlers, entry.1 ≠ network.requestIDGen) :
    (network.underLock request selection cancelled sent).Settled := by
  unfold Network.underLock
  cases target : request.target with
  | some node =>
    have direct : request.target.isSome := by rw [target]; rfl
    exact settled.sendAppRequest unreturned outside fun opened alive => fresh ⟨opened, alive, .inl direct⟩
  | none =>
    match selection with
    | .error _ => exact settled.returnsError unreturned outside .selection
    | .ok (some node) =>
      exact settled.sendAppRequest unreturned outside fun opened alive => fresh ⟨opened, alive, .inr ⟨node, rfl⟩⟩
    | .ok none => exact settled.release.returnsError unreturned outside .noPeersFound

/-- A call waits for the lock with a slot. -/
theorem Settled.acquired {request : Request} (settled : network.Settled) (unreturned : network.returned request.call = none)
    (outside : ∀ other ∈ network.sending, other.call ≠ request.call) :
    ({ network with
        activeAppRequests := network.activeAppRequests + 1
        sending := request :: network.sending } : Network).Settled := by
  refine ⟨settled.once, settled.never, settled.late, ?_, ?_⟩
  · intro other member
    rcases List.mem_cons.mp member with same | there
    · rw [same]
      exact unreturned
    · exact settled.waiting other there
  · refine List.nodup_cons.mpr ⟨fun member => ?_, settled.single⟩
    obtain ⟨other, there, same⟩ := List.mem_map.mp member
    exact outside other there same

/-- A network in which the calls have come back alike and every handler is found as often is as settled. -/
theorem Settled.moved {after : Network} (settled : network.Settled) (returned : after.returned = network.returned)
    (ignored : after.ignored = network.ignored) (sending : after.sending = network.sending)
    (closed : network.closed = true → after.closed = true)
    (found : ∀ call, after.found call = network.found call) : after.Settled := by
  have sent (call : Call) : after.sent call ↔ network.sent call := by
    unfold Network.sent
    rw [returned, ignored]
  refine ⟨?_, ?_, ?_, ?_, ?_⟩
  · intro call there
    rw [found]
    exact settled.once call ((sent call).mp there)
  · intro call there
    rw [found]
    exact settled.never call (fun before => there ((sent call).mpr before))
  · intro call member
    rw [ignored] at member
    rw [returned]
    exact ⟨closed (settled.late call member).1, (settled.late call member).2⟩
  · intro request member
    rw [sending] at member
    rw [returned]
    exact settled.waiting request member
  · rw [sending]
    exact settled.single

/-- An entry of the table goes over into the hands of its answer. -/
theorem Settled.fulfilled (settled : network.Settled) {entry : UInt32 × Call}
    (member : entry ∈ network.outstandingRequestHandlers) (notice : Notice) :
    ({ network with
        outstandingRequestHandlers := network.outstandingRequestHandlers.erase entry
        answering := (entry.2, notice) :: network.answering } : Network).Settled := by
  refine settled.moved rfl rfl rfl id fun call => ?_
  have table := (List.perm_cons_erase member).countP_eq (fun entry => decide (entry.2 = call))
  unfold found
  simp only [List.countP_cons] at table ⊢
  omega

theorem Settled.releaseAnswer {answer : Call × Notice} (settled : network.Settled) (member : answer ∈ network.answering) :
    ({ network.release with
        answering := network.answering.erase answer
        released := answer :: network.released } : Network).Settled := by
  refine settled.moved rfl rfl rfl id fun call => ?_
  have answers := (List.perm_cons_erase member).countP_eq (fun answer => decide (answer.1 = call))
  unfold found
  show (network.outstandingRequestHandlers.countP _) + ((network.answering.erase answer).countP _) +
    ((answer :: network.released).countP _) + (network.invoked call).length = _
  simp only [List.countP_cons] at answers ⊢
  omega

theorem Settled.invoke {answer : Call × Notice} (settled : network.Settled) (member : answer ∈ network.released) :
    ({ network with
        released := network.released.erase answer
        invoked := Function.update network.invoked answer.1 (answer.2 :: network.invoked answer.1) } : Network).Settled := by
  refine settled.moved rfl rfl rfl id fun call => ?_
  have answers := (List.perm_cons_erase member).countP_eq (fun answer => decide (answer.1 = call))
  unfold found
  simp only [List.countP_cons] at answers ⊢
  by_cases same : call = answer.1
  · subst same
    simp only [Function.update_self, List.length_cons, decide_true, if_true] at answers ⊢
    omega
  · have other : ¬answer.1 = call := fun equal => same equal.symm
    simp only [Function.update_of_ne same, other, decide_false] at answers ⊢
    simp at answers
    omega

theorem Settled.shutdown (settled : network.Settled) : network.shutdown.Settled := by
  refine settled.moved rfl rfl rfl (fun _ => rfl) fun call => ?_
  unfold found Network.shutdown
  simp only [List.filter_nil, List.length_nil, List.length_append, List.length_map, List.countP_eq_length_filter]
  omega

end Network

/-- No request is registered under an id that another one still has. -/
def freshID (network : Network) : Action → Prop
  | .underLock request selection cancelled _ =>
    network.registers request selection cancelled →
      ∀ entry ∈ network.outstandingRequestHandlers, entry.1 ≠ network.requestIDGen
  | _ => True

theorem settled_newNetwork : newNetwork.Settled := by
  refine ⟨?_, fun call _ => rfl, fun call member => absurd member List.not_mem_nil,
    fun request member => absurd member List.not_mem_nil, List.nodup_nil⟩
  intro call sent
  exact absurd sent (Network.not_sent_of_unreturned rfl)

theorem settled_step {capacity : Nat} {network after : Network} {action : Action} (settled : network.Settled)
    (fresh : freshID network action) (stepped : step capacity network action = some after) : after.Settled := by
  cases step_cases stepped with
  | refused unreturned outside => exact settled.returnsError unreturned outside _
  | acquired unreturned outside => exact settled.acquired unreturned outside
  | @underLock request _ _ _ member =>
    refine settled.leaves.underLock (settled.waiting request member) ?_ fresh
    intro other there same
    have single := ((List.perm_cons_erase member).map Request.call).nodup_iff.mp settled.single
    exact (List.nodup_cons.mp single).1 (List.mem_map.mpr ⟨other, there, same⟩)
  | unknown => exact settled
  | fulfilled looked => exact settled.fulfilled (List.mem_of_find?_eq_some looked) _
  | release member => exact settled.releaseAnswer member
  | invoke member => exact settled.invoke member
  | shutdown => exact settled.shutdown

theorem settled_of_reach {capacity : Nat} {network : Network} (reach : Reach (system capacity) freshID network) :
    network.Settled :=
  reach.invariant Network.Settled (fun state (initial : state = newNetwork) => initial ▸ settled_newNetwork)
    fun _ _ _ settled fresh stepped => settled_step settled fresh stepped

/-! ## Slots -/

/-- Peer selection does not fail with an error, and the network is shut down with no handler outstanding. -/
def returnsSlots (network : Network) : Action → Prop
  | .underLock request (.error _) _ _ => request.target.isSome
  | .shutdown => network.outstandingRequestHandlers = []
  | _ => True

namespace Network

variable {network : Network}

/-- A call that leaves the send path gives its slot back, or leaves it to its handler. -/
theorem Slots.sendAppRequest {call : Call} {nodeID : NodeID} {cancelled sent : Bool}
    (slots : network.activeAppRequests =
      network.outstandingRequestHandlers.length + (network.sending.length + 1) + network.answering.length)
    (fresh : network.closed = false → cancelled = false →
      ∀ entry ∈ network.outstandingRequestHandlers, entry.1 ≠ network.requestIDGen) :
    (network.sendAppRequest call nodeID cancelled sent).Slots := by
  unfold Network.sendAppRequest
  cases closed : network.closed with
  | true =>
    show network.activeAppRequests - 1 = _ + network.sending.length + network.answering.length
    rw [slots]
    show _ = network.outstandingRequestHandlers.length + _ + _
    omega
  | false =>
    cases cancelled with
    | true =>
      show network.activeAppRequests - 1 = network.outstandingRequestHandlers.length + network.sending.length + network.answering.length
      omega
    | false =>
      have free := fresh closed rfl
      cases sent with
      | true =>
        show network.activeAppRequests = (_ :: network.outstandingRequestHandlers.filter _).length + network.sending.length +
          network.answering.length
        rw [filter_fresh free, List.length_cons]
        omega
      | false =>
        have gone : (network.nextRequestID.2.register network.requestIDGen call).release.delete network.requestIDGen =
            network.nextRequestID.2.release := delete_register free
        show ((network.nextRequestID.2.register network.requestIDGen call).release.delete network.requestIDGen).Slots
        rw [gone]
        show network.activeAppRequests - 1 = network.outstandingRequestHandlers.length + network.sending.length +
          network.answering.length
        omega

theorem Slots.underLock {request : Request} {selection : Selection} {cancelled sent : Bool} (slots : network.Slots)
    (member : request ∈ network.sending)
    (fresh : network.registers request selection cancelled →
      ∀ entry ∈ network.outstandingRequestHandlers, entry.1 ≠ network.requestIDGen)
    (chosen : ∀ err, selection = .error err → request.target.isSome) :
    (({ network with sending := network.sending.erase request } : Network).underLock request selection cancelled sent).Slots := by
  have shorter : (network.sending.erase request).length + 1 = network.sending.length := by
    rw [List.length_erase_of_mem member]
    have := List.length_pos_of_mem member
    omega
  have counted : network.activeAppRequests = network.outstandingRequestHandlers.length +
      ((network.sending.erase request).length + 1) + network.answering.length := by
    rw [shorter]
    exact slots
  unfold Network.underLock
  cases target : request.target with
  | some node =>
    have direct : request.target.isSome := by rw [target]; rfl
    exact Slots.sendAppRequest counted fun opened alive => fresh ⟨opened, alive, .inl direct⟩
  | none =>
    match selection with
    | .error err =>
      have impossible := chosen err rfl
      rw [target] at impossible
      cases impossible
    | .ok (some node) => exact Slots.sendAppRequest counted fun opened alive => fresh ⟨opened, alive, .inr ⟨node, rfl⟩⟩
    | .ok none =>
      show network.activeAppRequests - 1 = network.outstandingRequestHandlers.length +
        (network.sending.erase request).length + network.answering.length
      omega

theorem Slots.acquired (slots : network.Slots) (request : Request) :
    ({ network with
        activeAppRequests := network.activeAppRequests + 1
        sending := request :: network.sending } : Network).Slots := by
  have before : network.activeAppRequests = _ := slots
  show network.activeAppRequests + 1 = network.outstandingRequestHandlers.length + (network.sending.length + 1) +
    network.answering.length
  omega

theorem Slots.fulfilled (slots : network.Slots) {entry : UInt32 × Call} (member : entry ∈ network.outstandingRequestHandlers)
    (notice : Notice) :
    ({ network with
        outstandingRequestHandlers := network.outstandingRequestHandlers.erase entry
        answering := (entry.2, notice) :: network.answering } : Network).Slots := by
  have table := (List.perm_cons_erase member).length_eq
  have before : network.activeAppRequests = _ := slots
  show network.activeAppRequests = (network.outstandingRequestHandlers.erase entry).length + network.sending.length +
    (network.answering.length + 1)
  rw [List.length_cons] at table
  omega

theorem Slots.releaseAnswer {answer : Call × Notice} (slots : network.Slots) (member : answer ∈ network.answering) :
    ({ network.release with
        answering := network.answering.erase answer
        released := answer :: network.released } : Network).Slots := by
  have answers := (List.perm_cons_erase member).length_eq
  have before : network.activeAppRequests = _ := slots
  show network.activeAppRequests - 1 = network.outstandingRequestHandlers.length + network.sending.length +
    (network.answering.erase answer).length
  rw [List.length_cons] at answers
  omega

end Network

theorem slots_step {capacity : Nat} {network after : Network} {action : Action} (slots : network.Slots)
    (fresh : freshID network action) (returned : returnsSlots network action)
    (stepped : step capacity network action = some after) : after.Slots := by
  cases step_cases stepped with
  | refused => exact slots
  | @acquired request => exact slots.acquired request
  | underLock member =>
    refine slots.underLock member fresh fun err failed => ?_
    rw [failed] at returned
    exact returned
  | unknown => exact slots
  | fulfilled looked => exact slots.fulfilled (List.mem_of_find?_eq_some looked) _
  | release member => exact slots.releaseAnswer member
  | invoke => exact slots
  | shutdown =>
    have none : network.outstandingRequestHandlers = [] := returned
    have before : network.activeAppRequests = _ := slots
    rw [none] at before
    exact before

/-! ## The table -/

/-- Which handlers leave the table: one whose request is answered, and all at the shutdown. -/
def takes (requestID : UInt32) : Action → Prop
  | .fulfilled answered _ => answered = requestID
  | .shutdown => True
  | _ => False

theorem mem_sendAppRequest {network : Network} {call : Call} {nodeID : NodeID} {cancelled sent : Bool} {entry : UInt32 × Call}
    (fresh : network.closed = false → cancelled = false →
      ∀ entry ∈ network.outstandingRequestHandlers, entry.1 ≠ network.requestIDGen)
    (member : entry ∈ network.outstandingRequestHandlers) :
    entry ∈ (network.sendAppRequest call nodeID cancelled sent).outstandingRequestHandlers := by
  unfold Network.sendAppRequest
  cases closed : network.closed with
  | true => exact member
  | false =>
    cases cancelled with
    | true => exact member
    | false =>
      have free : decide (entry.1 ≠ network.requestIDGen) = true := decide_eq_true (fresh closed rfl entry member)
      have kept : entry ∈ network.outstandingRequestHandlers.filter fun entry => entry.1 ≠ network.requestIDGen :=
        List.mem_filter.mpr ⟨member, free⟩
      cases sent with
      | true => exact List.mem_cons_of_mem _ kept
      | false => exact List.mem_filter.mpr ⟨List.mem_cons_of_mem _ kept, free⟩

/-- A handler stays in the table under its id until its request is answered or the network shut down. -/
theorem mem_step {capacity : Nat} {network after : Network} {action : Action} {entry : UInt32 × Call}
    (fresh : freshID network action) (stepped : step capacity network action = some after)
    (member : entry ∈ network.outstandingRequestHandlers) :
    entry ∈ after.outstandingRequestHandlers ∨ takes entry.1 action := by
  cases step_cases stepped with
  | refused => exact .inl member
  | acquired => exact .inl member
  | @underLock request selection cancelled sent =>
    refine .inl ?_
    unfold Network.underLock
    cases target : request.target with
    | some node =>
      have direct : request.target.isSome := by rw [target]; rfl
      exact mem_sendAppRequest (fun opened alive => fresh ⟨opened, alive, .inl direct⟩) member
    | none =>
      match selection with
      | .error _ => exact member
      | .ok (some node) => exact mem_sendAppRequest (fun opened alive => fresh ⟨opened, alive, .inr ⟨node, rfl⟩⟩) member
      | .ok none => exact member
  | unknown => exact .inl member
  | @fulfilled requestID notice found looked =>
    by_cases same : entry = found
    · subst same
      have key := List.find?_some looked
      exact .inr (of_decide_eq_true key).symm
    · exact .inl ((List.mem_erase_of_ne same).mpr member)
  | release => exact .inl member
  | invoke => exact .inl member
  | shutdown => exact .inr trivial

/-- A network that is closed has no handler in its table. -/
def Drained (network : Network) : Prop := network.closed = true → network.outstandingRequestHandlers = []

theorem drained_sendAppRequest {network : Network} {call : Call} {nodeID : NodeID} {cancelled sent : Bool}
    (drained : Drained network) : Drained (network.sendAppRequest call nodeID cancelled sent) := by
  unfold Network.sendAppRequest
  cases closed : network.closed with
  | true => exact drained
  | false =>
    have opened {after : Network} (same : after.closed = network.closed) : Drained after := by
      intro shut
      rw [same, closed] at shut
      cases shut
    cases cancelled <;> cases sent <;> exact opened rfl

theorem drained_step {capacity : Nat} {network after : Network} {action : Action} (drained : Drained network)
    (stepped : step capacity network action = some after) : Drained after := by
  cases step_cases stepped with
  | refused => exact drained
  | acquired => exact drained
  | @underLock request selection =>
    unfold Network.underLock
    have left : Drained { network with sending := network.sending.erase request } := drained
    cases request.target with
    | some node => exact drained_sendAppRequest left
    | none =>
      match selection with
      | .error _ => exact drained
      | .ok (some node) => exact drained_sendAppRequest left
      | .ok none => exact drained
  | unknown => exact drained
  | fulfilled looked =>
    intro closed
    have none := drained closed
    rw [none] at looked
    cases looked
  | release => exact drained
  | invoke => exact drained
  | shutdown => exact fun _ => rfl

/-! ## Every run -/

/-- One more step of a run that meets both conditions. -/
theorem reach_next {capacity : Nat} {network after : Network}
    (reach : Reach (system capacity) (fun network action => freshID network action ∧ returnsSlots network action) network)
    (action : Action) (fresh : freshID network action) (returned : returnsSlots network action)
    (stepped : step capacity network action = some after) :
    Reach (system capacity) (fun network action => freshID network action ∧ returnsSlots network action) after :=
  .next reach ⟨fresh, returned⟩ stepped

end Snowside.Requests
