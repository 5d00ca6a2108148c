import Slopdex.Library.Transition
import Slopdex.Join.ChildSession

/-!
# Registrations and the observers they spawn

A registration subscribes to the terminals of each child before it reads the child's active turn,
and spawns one observer per child. An observer waits for the terminal of its turn, follows the child
through successors, and resolves its target. Every point where it awaits is a phase, and where the
runtime picks a branch, the step names it.
-/

namespace Slopdex.Join.Observation

open Protocol Library.Transition Join.Store Join.ChildSession

structure Setting where
  parentThreadId : ThreadId
  threadOf : Incarnation → ThreadId

structure BoundTarget where
  child : ThreadId
  incarnation : Incarnation
  turnId : TurnId
  turnState : TurnStateRef
  cursor : ℕ

/-- A call of `register_obligation` that has not reached the parent's store. -/
structure Registrar where
  parentTurnId : TurnId
  triggerTurn : Bool
  remaining : List ThreadId
  subscribed : Option (ThreadId × Incarnation × ℕ)
  bound : List BoundTarget

def Registrar.targets (registrar : Registrar) : TargetBindings :=
  registrar.bound.foldl (fun targets target ↦
    targets.insert target.child (target.incarnation, target.turnId)) ∅

/-! ## Observers -/

/-- What an observer keeps while it looks for the continuation of a completed turn -/
structure Search where
  (seen parentSeen : ℕ)
  expected : Option ℕ
  registered : Bool
  deriving DecidableEq

def Search.rejects (search : Search) (generation : ℕ) : Bool := search.expected.any (· != generation)

inductive Phase
  | starting
  | watching
  | lagged
  | classify (status : AgentStatus)
  | snapshot (status : AgentStatus) (search : Search)
  | retaining (status : AgentStatus) (search : Search)
  | awaiting (status : AgentStatus) (search : Search) (owner : TurnId)
  | awaitingOwner (status : AgentStatus) (search : Search) (owner : TurnId)
  | awaitingContinuation (status : AgentStatus) (search : Search)
  | retiring (registered : Bool)
  | checking (search : Search) (inner : ℕ) (successor : JoinSuccessor)
  | rebinding (search : Search) (inner : ℕ) (successor : JoinSuccessor)
  | following (seen : ℕ) (inner : ℕ) (predecessorTurnId : TurnId)
  | awaitingSuccessor (seen : ℕ) (inner : ℕ) (predecessorTurnId : TurnId)
  | finishing (inner : ℕ) (predecessorTurnId : TurnId) (status : AgentStatus)
  | resolving (status : AgentStatus)
  | done
  deriving DecidableEq

structure Observer where
  child : ThreadId
  incarnation : Incarnation
  generation : ℕ
  turnId : TurnId
  turnState : TurnStateRef
  (cursor seenStatus : ℕ)
  phase : Phase
  deriving DecidableEq

def Observer.spawn (generation : ℕ) (target : BoundTarget) : Observer where
  child := target.child
  incarnation := target.incarnation
  generation := generation
  turnId := target.turnId
  turnState := target.turnState
  cursor := target.cursor
  seenStatus := 0
  phase := .starting

def Observer.enter (observer : Observer) (phase : Phase) : Observer := { observer with phase }

def Observer.terminal (observer : Observer) (status : AgentStatus) : ExactTerminal :=
  ⟨observer.turnId, observer.turnState, status⟩

def broadcastCapacity : ℕ := 64

inductive Received
  | lagged (cursor : ℕ)
  | terminal (terminal : ExactTerminal)

/-- A receiver that fell behind continues with the oldest message that is kept. -/
def receive (sent : List ExactTerminal) (cursor : ℕ) : Option Received :=
  if cursor + broadcastCapacity < sent.length then some (.lagged (sent.length - broadcastCapacity))
  else (sent[cursor]?).map .terminal

inductive Branch
  | next
  | event
  | newStatus
  | lost
  deriving DecidableEq

inductive Effect
  | keep
  | prune (dead : List TurnStateRef)
  | resolve (status : AgentStatus) (retainSuccessor : Bool)
  | retire
  | rebind (successorTurnId : TurnId)
  | finish (inner : ℕ) (predecessorTurnId : TurnId)

namespace Observer

variable (observer : Observer) (child : Child)

/-- `borrow_and_update` on the status of the child -/
def seeStatus (phase : Phase) : Observer :=
  { observer with seenStatus := child.statusVersion, phase }

def seesStatus : Bool :=
  observer.seenStatus != child.statusVersion

def afterSnapshot (status : AgentStatus) (search : Search) : Observer :=
  match joinContinuationForPredecessor child.store observer.child observer.turnId with
  | none => observer.enter .done
  | some none =>
    if search.expected.isNone then observer.enter (.resolving status)
    else observer.seeStatus child
      (if child.status = .shutdown then .retiring search.registered else .done)
  | some (some (generation, successor)) =>
    if search.rejects generation then observer.enter .done
    else if !search.registered then
      observer.enter (.retaining status { search with expected := some generation })
    else match successor with
      | none => observer.enter (.awaitingContinuation status { search with expected := some generation })
      | some successor =>
        if successor.turnId = "" ∨ successor.turnId = observer.turnId then observer.enter .done
        else if successor.terminalStatus.isNone then
          observer.enter (.checking search generation successor)
        else observer.enter (.rebinding search generation successor)

def afterFollowing (seen inner : ℕ) (predecessorTurnId : TurnId) : Observer :=
  match joinContinuationForPredecessor child.store observer.child predecessorTurnId with
  | some (some (generation, some successor)) =>
    if generation = inner ∧ successor.turnId = observer.turnId ∧
        successor.turnState = observer.turnState then
      match successor.terminalStatus with
      | some status => observer.enter (.finishing inner predecessorTurnId status)
      | none => observer.enter (.awaitingSuccessor seen inner predecessorTurnId)
    else observer.enter .done
  | _ => observer.enter .done

def afterRebind (seen inner : ℕ) (successor : JoinSuccessor) : Observer :=
  { observer with
    turnId := successor.turnId
    turnState := successor.turnState
    seenStatus := child.statusVersion
    phase := match successor.terminalStatus with
      | some status => .finishing inner observer.turnId status
      | none => .following seen inner observer.turnId }

def afterReceive : Received → Observer
  | .lagged cursor => { observer with cursor, phase := .lagged }
  | .terminal terminal =>
    { observer with
      cursor := observer.cursor + 1
      phase := match terminal.statusFor observer.turnId observer.turnState with
        | some status => .classify status
        | none => .starting }

def afterLookup : Option AgentStatus → Observer
  | some status => observer.enter (.classify status)
  | none => observer.enter .starting

def next (setting : Setting) (parent : JoinObligationStore) (parentRevision : ℕ) (child : Child)
    (observer : Observer) (branch : Branch) (dead : List TurnStateRef) :
    Option (Effect × Observer) :=
  match observer.phase, branch with
  | .starting, .next => some (.keep, observer.seeStatus child
      (if child.status = .shutdown then .classify .shutdown else .watching))
  | .watching, .newStatus =>
    if observer.seesStatus child then some (.keep, observer.seeStatus child .starting) else none
  | .watching, .event =>
    (receive child.sent observer.cursor).map fun received ↦ (.keep, observer.afterReceive received)
  | .lagged, .next => some (.prune dead, observer.afterLookup
      ({ child with terminals := Child.pruneTerminals child.terminals dead }.exactJoinTerminalStatus
        observer.turnId observer.turnState))
  | .classify status, .next =>
    some (.keep, observer.enter
      (if status.isCompleted then .snapshot status ⟨child.revision, parentRevision, none, false⟩
      else .resolving status))
  | .snapshot status search, .next => some (.keep, observer.afterSnapshot child status search)
  | .retaining status search, .next =>
    match (resolveJoinTargetInner parent setting.parentThreadId observer.generation observer.child
        observer.incarnation observer.turnId status true).2 with
    | none => some (.resolve status true, observer.enter .done)
    | some resolution =>
      some (.resolve status true, observer.enter (.awaiting status search resolution.parentTurnId))
  | .awaiting status search owner, .next =>
    match retainedJoinDeliveryState parent setting.parentThreadId observer.generation
        observer.child with
    | some (some delivery) =>
      if delivery.ownerTurnId != owner || delivery.consumedForTarget then
        some (.keep, observer.enter (.snapshot status { search with registered := true }))
      else some (.keep, observer.enter (.awaitingOwner status search owner))
    | _ => some (.keep, observer.enter .done)
  | .awaitingOwner status search owner, .next =>
    if parentRevision ≠ search.parentSeen then
      some (.keep, observer.enter
        (.awaiting status { search with parentSeen := parentRevision } owner))
    else none
  | .awaitingContinuation status search, .event =>
    if child.revision ≠ search.seen then
      some (.keep, observer.enter (.snapshot status { search with seen := child.revision }))
    else none
  | .awaitingContinuation status search, .newStatus =>
    if observer.seesStatus child then
      some (.keep, observer.seeStatus child
        (if child.status = .shutdown then .retiring search.registered
        else .snapshot status search))
    else none
  | .retiring registered, .next =>
    if !registered then some (.keep, observer.enter (.resolving .shutdown))
    else if (retireJoinTargetSuccessorRetention parent setting.parentThreadId observer.generation
        observer.child observer.incarnation observer.turnId).2 then
      some (.retire, observer.enter (.resolving .shutdown))
    else some (.retire, observer.enter .done)
  | .checking search inner successor, .next =>
    if child.active = some (successor.turnId, successor.turnState) then
      some (.keep, observer.enter (.rebinding search inner successor))
    else some (.keep, observer.enter .done)
  | .rebinding search inner successor, .next =>
    if (rebindJoinTargetToSuccessor parent setting.parentThreadId observer.generation observer.child
        observer.incarnation observer.turnId successor.turnId).2 then
      some (.rebind successor.turnId, observer.afterRebind child search.seen inner successor)
    else some (.rebind successor.turnId, observer.enter .done)
  | .following seen inner predecessor, .next =>
    some (.keep, observer.afterFollowing child seen inner predecessor)
  | .awaitingSuccessor seen inner predecessor, .event =>
    if child.revision ≠ seen then
      some (.keep, observer.enter (.following child.revision inner predecessor))
    else none
  | .awaitingSuccessor seen inner predecessor, .newStatus =>
    if observer.seesStatus child then
      some (.keep, observer.seeStatus child
        (if child.status = .shutdown then .finishing inner predecessor .shutdown
        else .following seen inner predecessor))
    else none
  | .finishing inner predecessor status, .next =>
    some (.finish inner predecessor, observer.enter (.classify status))
  | .resolving status, .next => some (.resolve status false, observer.enter .done)
  -- The broadcast is closed, or the parent thread is gone or another one.
  | .watching, .lost | .awaiting .., .lost | .rebinding .., .lost =>
    some (.keep, observer.enter .done)
  | _, _ => none

end Observer

inductive Event
  | stored (generation : ℕ) (child : ThreadId) (incarnation : Incarnation)
      (terminal : ExactTerminal)
  | emitted (generation : ℕ) (child : ThreadId) (incarnation : Incarnation)
      (terminal : ExactTerminal)
  | rebound (generation : ℕ) (child : ThreadId) (predecessorTurnId successorTurnId : TurnId)
  | retired (generation : ℕ) (child : ThreadId)
  deriving DecidableEq

structure State where
  parent : JoinObligationStore
  parentRevision : ℕ
  children : Incarnation → Child
  registrars : List Registrar
  observers : List Observer
  nextTurnState : ℕ
  events : List Event

def State.initial : State := ⟨.empty, 0, fun _ ↦ .initial, [], [], 0, []⟩

inductive Action
  | child (incarnation : Incarnation) (action : ChildAction)
  | parent (op : StoreOp)
  | announceParent
  | begin (parentTurnId : TurnId) (children : List ThreadId) (triggerTurn : Bool)
  | subscribe (index : ℕ) (incarnation : Incarnation)
  | bind (index : ℕ)
  | register (index : ℕ)
  | giveUp (index : ℕ)
  | observe (index : ℕ) (branch : Branch) (dead : List TurnStateRef)

namespace State

variable (setting : Setting) (s : State) (incarnation : Incarnation)

def setChild (child : Child) : State :=
  { s with children := Function.update s.children incarnation child }

variable (index : ℕ) (registrar : Registrar)

def setRegistrar : State :=
  { s with registrars := s.registrars.set index registrar }

def dropRegistrar : State :=
  { s with registrars := s.registrars.eraseIdx index }

def setObserver (observer : Observer) : State :=
  { s with observers := s.observers.set index observer }

def holds (turnState : TurnStateRef) : Bool :=
  let child := s.children incarnation
  child.active.any (·.2 == turnState) || child.reserved == some turnState ||
    child.recordings.any (·.terminal.turnState == turnState) ||
    child.store.continuations.any (·.successorTurnState == turnState) ||
    s.registrars.any (·.bound.any fun target ↦
      target.incarnation == incarnation && target.turnState == turnState) ||
    s.observers.any fun observer ↦ observer.phase != .done &&
      observer.incarnation == incarnation && observer.turnState == turnState

def dropped (dead : List TurnStateRef) : Bool :=
  dead.all (!s.holds incarnation ·)

def admits : ChildAction → Bool
  | .reserve turnState => turnState == ⟨s.nextTurnState⟩
  | .record _ dead | .prune dead => s.dropped incarnation dead
  | _ => true

def allocates : ChildAction → Bool
  | .reserve _ => true
  | _ => false

def permits : StoreOp → Bool
  | .register .. | .resolve .. | .rebind .. | .retire .. => false
  | _ => true

def spawn (s : State) (generation : ℕ) (registrar : Registrar) : State :=
  { s with observers := s.observers ++ registrar.bound.map (.spawn generation) }

/-- The last part of `register_obligation`. -/
def register : State :=
  let (store, token) := registerObligation s.parent setting.parentThreadId registrar.parentTurnId
    registrar.targets registrar.triggerTurn
  match token with
  | none => { s with parent := store }
  | some token => spawn { s with parent := store } token.generation registrar

def resolved (observer : Observer) (status : AgentStatus) :
    Option RetainedJoinResolution → List Event
  | none => []
  | some resolution =>
    .stored observer.generation observer.child observer.incarnation (observer.terminal status) ::
      if resolution.completion.isSome then
        [.emitted observer.generation observer.child observer.incarnation
          (observer.terminal status)]
      else []

def perform (setting : Setting) (s : State) (observer : Observer) : Effect → State
  | .keep => s
  | .prune dead =>
    let child := s.children observer.incarnation
    s.setChild observer.incarnation
      { child with terminals := Child.pruneTerminals child.terminals dead }
  | .resolve status retainSuccessor =>
    let (store, resolution) := resolveJoinTargetInner s.parent setting.parentThreadId
      observer.generation observer.child observer.incarnation observer.turnId status retainSuccessor
    { s with parent := store, events := s.events ++ resolved observer status resolution }
  | .retire =>
    let (store, retired) := retireJoinTargetSuccessorRetention s.parent setting.parentThreadId
      observer.generation observer.child observer.incarnation observer.turnId
    { s with
      parent := store
      events := s.events ++ if retired then [.retired observer.generation observer.child] else [] }
  | .rebind successorTurnId =>
    let (store, rebound) := rebindJoinTargetToSuccessor s.parent setting.parentThreadId
      observer.generation observer.child observer.incarnation observer.turnId successorTurnId
    { s with
      parent := store
      events := s.events ++ if rebound then
        [.rebound observer.generation observer.child observer.turnId successorTurnId] else [] }
  | .finish inner predecessorTurnId =>
    s.setChild observer.incarnation ((s.children observer.incarnation).perform
      (.finishContinuation observer.child inner predecessorTurnId observer.turnId
        observer.turnState))

def observe (observer : Observer) (branch : Branch)
    (dead : List TurnStateRef) : Option State :=
  (observer.next setting s.parent s.parentRevision (s.children observer.incarnation) branch
    dead).map fun (effect, after) ↦ (s.perform setting observer effect).setObserver index after

def subscribe (incarnation : Incarnation) : Option State :=
  match registrar.subscribed, registrar.remaining with
  | none, child :: rest =>
    if setting.threadOf incarnation = child then
      some (s.setRegistrar index { registrar with
        remaining := rest
        subscribed := some (child, incarnation, (s.children incarnation).sent.length) })
    else none
  | _, _ => none

/-- Without an active turn on the child the registration is given up. -/
def bind : Option State :=
  registrar.subscribed.map fun (child, incarnation, cursor) ↦
    match (s.children incarnation).active with
    | none => s.dropRegistrar index
    | some (turnId, turnState) => s.setRegistrar index { registrar with
        subscribed := none
        bound := registrar.bound ++ [⟨child, incarnation, turnId, turnState, cursor⟩] }

def step (setting : Setting) (s : State) : Action → Option State
  | .child incarnation action =>
    if s.admits incarnation action then
      ((s.children incarnation).step (setting.threadOf incarnation) action).map fun child ↦
        { s.setChild incarnation child with
          nextTurnState := s.nextTurnState + (allocates action).toNat }
    else none
  | .parent op => if permits op then some { s with parent := s.parent.apply op } else none
  | .announceParent => some { s with parentRevision := s.parentRevision + 1 }
  | .begin parentTurnId children triggerTurn =>
    some { s with
      registrars := s.registrars ++ [⟨parentTurnId, triggerTurn, children, none, []⟩] }
  | .subscribe index incarnation =>
    (s.registrars[index]?).bind fun registrar ↦ s.subscribe setting index registrar incarnation
  | .bind index => (s.registrars[index]?).bind fun registrar ↦ s.bind index registrar
  | .register index =>
    (s.registrars[index]?).bind fun registrar ↦
      if registrar.remaining = [] ∧ registrar.subscribed = none then
        some (register setting (s.dropRegistrar index) registrar)
      else none
  | .giveUp index => some (s.dropRegistrar index)
  | .observe index branch dead =>
    (s.observers[index]?).bind fun observer ↦
      if s.dropped observer.incarnation dead then s.observe setting index observer branch dead
      else none

end State

def joinObservers (setting : Setting) : System State Action := ⟨.initial, State.step setting⟩

def joining (triggerTurn : Bool) : List Action :=
  [.child ⟨0⟩ (.reserve ⟨0⟩), .child ⟨0⟩ (.start "T1"), .begin "A" [⟨2⟩] triggerTurn,
    .subscribe 0 ⟨0⟩, .bind 0, .register 0]

def completing : List Action :=
  .child ⟨0⟩ (.finish "T1" (.completed none)) :: List.replicate 4 (.child ⟨0⟩ (.record 0 []))

def resolving (index : ℕ) : List Action :=
  .observe index .event [] :: List.replicate 3 (.observe index .next [])

end Slopdex.Join.Observation
