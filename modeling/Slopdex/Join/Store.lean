import Slopdex.Library.FirstMatch
import Slopdex.Library.KeyedMap
import Slopdex.Protocol.Types

/-!
# The store of owned join obligations

A parent turn that joins or waits for its children owns an obligation: the child turns it is bound
to, the results collected so far and the generation that names it. A delivered completion can leave
a continuation lease to the turn that received it. Every function below runs under the store's lock
in one piece.
-/

namespace Slopdex.Join.Store

open Protocol Library.FirstMatch Library.KeyedMap

/-- The one-shot completion token. The `consumed` flag is shared by its copies. -/
structure OwnedObligation where
  generation : ℕ
  consumed : Bool

def OwnedObligation.new (generation : ℕ) : OwnedObligation := ⟨generation, false⟩

/-- The answer of `consume_if_current`; the caller drops the token afterwards. -/
def OwnedObligation.consumeIfCurrent (token : OwnedObligation) (generation : ℕ) : Bool :=
  token.generation == generation && !token.consumed

abbrev TargetBinding := Incarnation × TurnId
abbrev TargetBindings := Map ThreadId TargetBinding

def singleTarget (child : ThreadId) (incarnation : Incarnation) (turnId : TurnId) : TargetBindings :=
  AList.insert child (incarnation, turnId) ∅

structure JoinObligation where
  parentThreadId : ThreadId
  parentTurnId : TurnId
  targets : TargetBindings
  results : Map ThreadId AgentStatus
  (ready triggerSent dispatchComplete triggerTurn : Bool)
  retainedTargets : Finset ThreadId
  retainedDeliveryPredecessorTurnId : Option TurnId
  token : OwnedObligation

structure JoinContinuationLease where
  parentThreadId : ThreadId
  generation : ℕ
  (predecessorTurnId successorTurnId : TurnId)
  successorTurnState : TurnStateRef
  terminalStatus : Option AgentStatus

structure JoinObligationStore where
  nextGeneration : ℕ
  obligations : List JoinObligation
  continuations : List JoinContinuationLease

def JoinObligationStore.empty : JoinObligationStore := ⟨0, [], []⟩

structure JoinCompletion where
  parentTurnId : TurnId
  generation : ℕ
  outcomes : List (ThreadId × AgentStatus)
  triggerTurn : Bool

structure RetainedJoinResolution where
  completion : Option JoinCompletion
  parentTurnId : TurnId

def JoinObligation.generation (obligation : JoinObligation) : ℕ := obligation.token.generation

/-- `saturating_add(1)` on the generation counter -/
def saturatingSucc (n : ℕ) : ℕ := min (n + 1) u64Max

def sameTargetBindings (left right : TargetBindings) : Bool :=
  size left == size right &&
    left.entries.all fun entry ↦
      match right.lookup entry.1 with
      | some other => entry.2.1 == other.1 && entry.2.2 == other.2
      | none => false

variable (obligation : JoinObligation) (store : JoinObligationStore) (parentThreadId : ThreadId)

variable (parentTurnId : TurnId)

def JoinObligation.ownedBy : Bool :=
  obligation.parentThreadId == parentThreadId && obligation.parentTurnId == parentTurnId

variable (targets : TargetBindings) (triggerTurn : Bool)

def JoinObligation.registered (token : OwnedObligation) : JoinObligation where
  parentThreadId := parentThreadId
  parentTurnId := parentTurnId
  targets := targets
  results := ∅
  ready := false
  triggerSent := false
  dispatchComplete := false
  triggerTurn := triggerTurn
  retainedTargets := ∅
  retainedDeliveryPredecessorTurnId := none
  token := token

def JoinObligationStore.add :
    JoinObligationStore :=
  { store with
    nextGeneration := saturatingSucc store.nextGeneration
    obligations := store.obligations ++ [.registered parentThreadId parentTurnId targets
      triggerTurn (.new (saturatingSucc store.nextGeneration))] }

/-- A wait reattaches to an obligation of its turn with the same bindings, whatever its kind; past
that, a turn owns at most one obligation of each kind. -/
def registerObligation :
    JoinObligationStore × Option OwnedObligation :=
  match (if triggerTurn then none else store.obligations.find? fun obligation ↦
      obligation.ownedBy parentThreadId parentTurnId &&
        sameTargetBindings obligation.targets targets) with
  | some obligation => (store, some obligation.token)
  | none =>
    if store.obligations.any fun obligation ↦
        obligation.ownedBy parentThreadId parentTurnId && obligation.triggerTurn == triggerTurn then
      (store, none)
    else
      (store.add parentThreadId parentTurnId targets triggerTurn,
        some (.new (saturatingSucc store.nextGeneration)))

theorem registerObligation_cases :
    (registerObligation store parentThreadId parentTurnId targets triggerTurn).1 = store ∨
    (∀ o ∈ store.obligations, o.ownedBy parentThreadId parentTurnId = true →
      o.triggerTurn ≠ triggerTurn) ∧
    registerObligation store parentThreadId parentTurnId targets triggerTurn =
      (store.add parentThreadId parentTurnId targets triggerTurn,
        some (.new (saturatingSucc store.nextGeneration))) := by
  unfold registerObligation
  generalize (if triggerTurn then none else store.obligations.find? fun obligation ↦
      obligation.ownedBy parentThreadId parentTurnId &&
        sameTargetBindings obligation.targets targets) = reattached
  cases reattached with
  | some => exact .inl rfl
  | none =>
    dsimp only
    split
    next => exact .inl rfl
    next hnone =>
      refine .inr ⟨?_, rfl⟩
      intro o ho howned hkind
      exact hnone (List.any_eq_true.mpr ⟨o, ho, by simp [howned, hkind]⟩)

/-- The results in the order of the identifiers' texts, which is the order of their values. -/
def sortedOutcomes (results : Map ThreadId AgentStatus) : List (ThreadId × AgentStatus) :=
  (results.entries.map fun entry ↦ (entry.1, entry.2)).mergeSort
    fun left right ↦ left.1.uuid.toNat ≤ right.1.uuid.toNat

namespace JoinObligation

variable (obligation : JoinObligation)

def retainTarget (child : ThreadId) (retainSuccessor : Bool) : JoinObligation :=
  if retainSuccessor then
    { obligation with retainedTargets := insert child obligation.retainedTargets }
  else obligation

/-- `results.entry(child).or_insert(status)` -/
def insertResult (child : ThreadId) (status : AgentStatus) : JoinObligation :=
  if child ∈ obligation.results then obligation
  else { obligation with results := obligation.results.insert child status }

def hasAllResults : Bool :=
  size obligation.results == size obligation.targets

def inRetainedDelivery : Bool :=
  decide obligation.retainedTargets.Nonempty && obligation.retainedDeliveryPredecessorTurnId.isSome

/-- The trigger goes out once; a join with a retained target enters retained delivery with it. -/
def sendTrigger : JoinObligation :=
  { obligation with
    ready := true
    triggerSent := true
    retainedDeliveryPredecessorTurnId :=
      if obligation.triggerTurn && decide obligation.retainedTargets.Nonempty then
        some obligation.parentTurnId
      else obligation.retainedDeliveryPredecessorTurnId }

def completion : JoinCompletion where
  parentTurnId := obligation.parentTurnId
  generation := obligation.generation
  outcomes := sortedOutcomes obligation.results
  triggerTurn := obligation.triggerTurn

def recordResult (child : ThreadId) (status : AgentStatus)
    (retainSuccessor : Bool) : JoinObligation × RetainedJoinResolution :=
  let recorded := (obligation.retainTarget child retainSuccessor).insertResult child status
  let silent : RetainedJoinResolution := ⟨none, recorded.parentTurnId⟩
  if !recorded.hasAllResults then (recorded, silent)
  else if recorded.inRetainedDelivery then (recorded, silent)
  else if recorded.triggerSent then ({ recorded with ready := true }, silent)
  else (recorded.sendTrigger, ⟨some recorded.completion, recorded.parentTurnId⟩)

end JoinObligation

def JoinObligation.hasTarget
    (generation : ℕ) (child : ThreadId) : Bool :=
  obligation.parentThreadId == parentThreadId && obligation.generation == generation &&
    decide (child ∈ obligation.targets)

/-- What decides whether a target that was found may be resolved. -/
def JoinObligation.accepts (obligation : JoinObligation) (child : ThreadId)
    (incarnation : Incarnation) (childTurnId : TurnId) (retainSuccessor : Bool) : Bool :=
  obligation.targets.lookup child == some (incarnation, childTurnId) &&
    !(retainSuccessor && !obligation.triggerTurn)

def resolvable (status : AgentStatus) (retainSuccessor : Bool) : Bool :=
  status.isFinal && !(retainSuccessor && !status.isCompleted)

def resolveJoinTargetInner
    (generation : ℕ) (child : ThreadId) (incarnation : Incarnation) (childTurnId : TurnId)
    (status : AgentStatus) (retainSuccessor : Bool) :
    JoinObligationStore × Option RetainedJoinResolution :=
  if !resolvable status retainSuccessor then (store, none)
  else match store.obligations.find? (·.hasTarget parentThreadId generation child) with
    | none => (store, none)
    | some obligation =>
      if !obligation.accepts child incarnation childTurnId retainSuccessor then (store, none)
      else
        ({ store with
            obligations := updateFirst (·.hasTarget parentThreadId generation child)
              (fun found ↦ (found.recordResult child status retainSuccessor).1)
              store.obligations },
          some (obligation.recordResult child status retainSuccessor).2)

namespace JoinObligation

variable (obligation : JoinObligation)

def inRetainedDeliveryFor (predecessorTurnId : TurnId) : Bool :=
  obligation.retainedDeliveryPredecessorTurnId == some predecessorTurnId

/-- The test by which acknowledgement, startup and validation find the obligation of a completion. -/
def awaitsDelivery (generation : ℕ) (predecessorTurnId : TurnId) : Bool :=
  obligation.generation == generation &&
    ((obligation.parentTurnId == predecessorTurnId && obligation.ready) ||
      obligation.inRetainedDeliveryFor predecessorTurnId)

/-- A retained delivery forgets the retained results and moves the obligation to its successor. -/
def handOver (successorTurnId : TurnId) : JoinObligation :=
  { obligation with
    results := retainKeys (fun child ↦ decide (child ∉ obligation.retainedTargets))
      obligation.results
    parentTurnId := successorTurnId
    ready := false
    triggerSent := false
    dispatchComplete := false
    retainedDeliveryPredecessorTurnId := none }

def lease (generation : ℕ) (predecessorTurnId successorTurnId : TurnId)
    (successorTurnState : TurnStateRef) : JoinContinuationLease where
  parentThreadId := obligation.parentThreadId
  generation := generation
  predecessorTurnId := predecessorTurnId
  successorTurnId := successorTurnId
  successorTurnState := successorTurnState
  terminalStatus := none

end JoinObligation

/-- The leases a delivery to another turn adds; a delivery inside the same turn adds none. -/
def newLeases (generation : ℕ)
    (predecessorTurnId successorTurnId : TurnId) (successorTurnState : Option TurnStateRef) :
    List JoinContinuationLease :=
  match successorTurnState with
  | some state =>
    if predecessorTurnId ≠ successorTurnId then
      [obligation.lease generation predecessorTurnId successorTurnId state]
    else []
  | none => []

/-- The answer says whether the continuation revision changed; `none` leaves nothing acknowledged. -/
def acknowledgeReadyJoinDelivery (predecessorTurnId : TurnId)
    (generation : ℕ) (successorTurnId : TurnId) (successorTurnState : Option TurnStateRef) :
    JoinObligationStore × Option Bool :=
  match store.obligations.find? (·.awaitsDelivery generation predecessorTurnId) with
  | none => (store, none)
  | some obligation =>
    let leases := newLeases obligation generation predecessorTurnId successorTurnId
      successorTurnState
    if obligation.inRetainedDeliveryFor predecessorTurnId then
      ({ store with
          obligations := updateFirst (·.awaitsDelivery generation predecessorTurnId)
            (·.handOver successorTurnId) store.obligations
          continuations := store.continuations ++ leases },
        some true)
    else
      let removed := store.obligations.eraseP (·.awaitsDelivery generation predecessorTurnId)
      if !obligation.token.consumeIfCurrent generation then
        ({ store with obligations := removed }, none)
      else if obligation.triggerTurn then
        ({ store with obligations := removed, continuations := store.continuations ++ leases },
          some !leases.isEmpty)
      else ({ store with obligations := removed }, some false)

/-- `finish_join_dispatch` -/
def finishJoinDispatch (generation : ℕ) : JoinObligationStore :=
  { store with
    obligations := updateFirst (fun obligation ↦ obligation.generation == generation &&
      obligation.ready) (fun obligation ↦ { obligation with dispatchComplete := true })
      store.obligations }

variable (targetIds : List ThreadId) (currentTargets : TargetBindings)

/-- A ready obligation whose targets are exactly the requested ones, still bound to the current
child turns; a child without a current turn is accepted through its stored result. -/
def JoinObligation.satisfiesWait : Bool :=
  obligation.ownedBy parentThreadId parentTurnId && obligation.ready &&
    obligation.dispatchComplete && size obligation.targets == targetIds.length &&
    targetIds.all fun child ↦
      match obligation.targets.lookup child, currentTargets.lookup child with
      | some (expectedIncarnation, expectedTurnId), some (currentIncarnation, currentTurnId) =>
        expectedTurnId != "" && expectedIncarnation == currentIncarnation &&
          (expectedTurnId == currentTurnId ||
            (currentTurnId == "" && decide (child ∈ obligation.results)))
      | _, _ => false

/-- The single obligation a targetful wait may consume; an ambiguous request consumes nothing. -/
def waitCandidate : Option JoinObligation :=
  match store.obligations.filter
      (·.satisfiesWait parentThreadId parentTurnId targetIds currentTargets) with
  | [obligation] => some obligation
  | _ => none

/-- The store's part of `consume_ready_join_obligation_for_targets_with_outcomes`: the consumed
generation, whose mail the caller removes, and its outcomes. -/
def consumeReadyJoinObligationForTargets :
    JoinObligationStore × Option (ℕ × List (ThreadId × AgentStatus)) :=
  match waitCandidate store parentThreadId parentTurnId targetIds currentTargets with
  | none => (store, none)
  | some obligation =>
    let (store', revisionChanged) := acknowledgeReadyJoinDelivery store parentTurnId
      obligation.generation parentTurnId none
    (store', revisionChanged.map fun _ ↦
      (obligation.generation, sortedOutcomes obligation.results))

def hasReadyWaitObligation : Bool :=
  store.obligations.any fun obligation ↦ obligation.ready && !obligation.triggerTurn

/-- A target whose retained result was delivered and that has not moved to its successor yet. -/
def JoinObligation.awaitsSuccessor
    (generation : ℕ) (child : ThreadId) : Bool :=
  obligation.parentThreadId == parentThreadId && obligation.generation == generation &&
    !obligation.ready && decide (child ∉ obligation.results) &&
    obligation.retainedDeliveryPredecessorTurnId.isNone &&
    decide (child ∈ obligation.retainedTargets)

def endRetention (generation : ℕ)
    (child : ThreadId) (incarnation : Incarnation) (predecessorTurnId : TurnId)
    (change : JoinObligation → JoinObligation) : JoinObligationStore × Bool :=
  match store.obligations.find? (·.awaitsSuccessor parentThreadId generation child) with
  | none => (store, false)
  | some obligation =>
    if obligation.targets.lookup child == some (incarnation, predecessorTurnId) then
      ({ store with
          obligations := updateFirst (·.awaitsSuccessor parentThreadId generation child) change
            store.obligations },
        true)
    else (store, false)

def JoinObligation.releaseTarget (obligation : JoinObligation) (child : ThreadId) :
    JoinObligation :=
  { obligation with retainedTargets := obligation.retainedTargets.erase child }

def JoinObligation.rebindTarget (obligation : JoinObligation) (child : ThreadId)
    (incarnation : Incarnation) (successorTurnId : TurnId) : JoinObligation :=
  { obligation with
    targets := obligation.targets.replace child (incarnation, successorTurnId)
    retainedTargets := obligation.retainedTargets.erase child }

def rebindJoinTargetToSuccessor (generation : ℕ) (child : ThreadId) (incarnation : Incarnation)
    (predecessorTurnId successorTurnId : TurnId) : JoinObligationStore × Bool :=
  if predecessorTurnId = "" ∨ successorTurnId = "" ∨ predecessorTurnId = successorTurnId then
    (store, false)
  else
    endRetention store parentThreadId generation child incarnation predecessorTurnId
      (·.rebindTarget child incarnation successorTurnId)

def retireJoinTargetSuccessorRetention
    (generation : ℕ) (child : ThreadId) (incarnation : Incarnation)
    (predecessorTurnId : TurnId) : JoinObligationStore × Bool :=
  endRetention store parentThreadId generation child incarnation predecessorTurnId
    (·.releaseTarget child)

/-- The answer says whether the continuation revision changed. -/
def finishJoinContinuation (generation : ℕ) (predecessorTurnId successorTurnId : TurnId)
    (successorTurnState : TurnStateRef) : JoinObligationStore × Bool :=
  let kept := store.continuations.filter fun lease ↦
    lease.parentThreadId != parentThreadId || lease.generation != generation ||
      lease.predecessorTurnId != predecessorTurnId || lease.successorTurnId != successorTurnId ||
      lease.successorTurnState != successorTurnState
  ({ store with continuations := kept }, kept.length != store.continuations.length)

def finishRootJoinContinuations (rootThreadId : ThreadId)
    (terminalTurnId : TurnId) (terminalTurnState : TurnStateRef) : JoinObligationStore × Bool :=
  let kept := store.continuations.filter fun lease ↦
    lease.parentThreadId != rootThreadId || lease.successorTurnId != terminalTurnId ||
      lease.successorTurnState != terminalTurnState
  ({ store with continuations := kept }, kept.length != store.continuations.length)

def JoinContinuationLease.isFor (lease : JoinContinuationLease) (parentThreadId : ThreadId)
    (turnId : TurnId) (turnState : TurnStateRef) : Bool :=
  lease.parentThreadId == parentThreadId && lease.successorTurnId == turnId &&
    lease.successorTurnState == turnState && lease.terminalStatus.isNone

def retiredGenerations (turnId : TurnId)
    (status : AgentStatus) : List ℕ :=
  if status.isCompleted then []
  else (store.obligations.filter fun obligation ↦
    obligation.triggerTurn && obligation.ownedBy parentThreadId turnId).map
      JoinObligation.generation

/-- The store's part of `record_nested_join_turn_terminal` for a final status: the leases of the
turn learn its status, and an unsuccessful turn retires its live joins. -/
def recordTurnTerminal (turnId : TurnId)
    (turnState : TurnStateRef) (status : AgentStatus) : JoinObligationStore :=
  let retired := retiredGenerations store parentThreadId turnId status
  { store with
    continuations := store.continuations.map fun lease ↦
      if lease.isFor parentThreadId turnId turnState then
        { lease with terminalStatus := some status }
      else lease
    obligations := store.obligations.filter fun obligation ↦
      !retired.contains obligation.generation }

/-- Whether recording a terminal bumps the continuation revision. -/
def turnTerminalChanges (turnId : TurnId)
    (turnState : TurnStateRef) (status : AgentStatus) : Bool :=
  store.continuations.any (·.isFor parentThreadId turnId turnState) ||
    !(retiredGenerations store parentThreadId turnId status).isEmpty

def hasOwnedJoinState : Bool :=
  !store.obligations.isEmpty || !store.continuations.isEmpty

structure RetainedJoinDeliveryState where
  ownerTurnId : TurnId
  consumedForTarget : Bool

/-- `none` is the ambiguity error, `some none` an unknown generation. -/
def retainedJoinDeliveryState
    (generation : ℕ) (child : ThreadId) : Option (Option RetainedJoinDeliveryState) :=
  match store.obligations.filter fun obligation ↦
      obligation.parentThreadId == parentThreadId && obligation.generation == generation with
  | [] => some none
  | [obligation] => some (some
      { ownerTurnId := obligation.parentTurnId
        consumedForTarget := decide (child ∈ obligation.retainedTargets) &&
          decide (child ∉ obligation.results) &&
          obligation.retainedDeliveryPredecessorTurnId.isNone })
  | _ => none

def JoinContinuationLease.follows (lease : JoinContinuationLease) (parentThreadId : ThreadId)
    (predecessorTurnId : TurnId) : Bool :=
  lease.parentThreadId == parentThreadId && lease.predecessorTurnId == predecessorTurnId

def JoinObligation.joinOf (turnId : TurnId) : Bool :=
  obligation.triggerTurn && obligation.ownedBy parentThreadId turnId

structure JoinSuccessor where
  turnId : TurnId
  turnState : TurnStateRef
  terminalStatus : Option AgentStatus
  deriving DecidableEq

/-- `none` is the ambiguity error; otherwise the generation that owns the turn, with the successor
once the completion was delivered. -/
def joinContinuationForPredecessor
    (predecessorTurnId : TurnId) : Option (Option (ℕ × Option JoinSuccessor)) :=
  match store.continuations.filter (·.follows parentThreadId predecessorTurnId),
      store.obligations.filter (·.joinOf parentThreadId predecessorTurnId) with
  | [], [] => some none
  | [lease], [] => some (some (lease.generation,
      some ⟨lease.successorTurnId, lease.successorTurnState, lease.terminalStatus⟩))
  | [], [obligation] => some (some (obligation.generation, none))
  | _, _ => none

inductive StoreOp
  | register (parentThreadId : ThreadId) (parentTurnId : TurnId) (targets : TargetBindings)
      (triggerTurn : Bool)
  | resolve (parentThreadId : ThreadId) (generation : ℕ) (child : ThreadId)
      (incarnation : Incarnation) (childTurnId : TurnId) (status : AgentStatus)
      (retainSuccessor : Bool)
  | finishDispatch (generation : ℕ)
  | acknowledge (predecessorTurnId : TurnId) (generation : ℕ) (successorTurnId : TurnId)
      (successorTurnState : Option TurnStateRef)
  | wait (parentThreadId : ThreadId) (parentTurnId : TurnId) (targetIds : List ThreadId)
      (currentTargets : TargetBindings)
  | rebind (parentThreadId : ThreadId) (generation : ℕ) (child : ThreadId)
      (incarnation : Incarnation) (predecessorTurnId successorTurnId : TurnId)
  | retire (parentThreadId : ThreadId) (generation : ℕ) (child : ThreadId)
      (incarnation : Incarnation) (predecessorTurnId : TurnId)
  | finishContinuation (parentThreadId : ThreadId) (generation : ℕ)
      (predecessorTurnId successorTurnId : TurnId) (successorTurnState : TurnStateRef)
  | finishRootContinuations (rootThreadId : ThreadId) (terminalTurnId : TurnId)
      (terminalTurnState : TurnStateRef)
  | turnTerminal (parentThreadId : ThreadId) (turnId : TurnId) (turnState : TurnStateRef)
      (status : AgentStatus)

def JoinObligationStore.apply : StoreOp → JoinObligationStore
  | .register thread turn targets triggerTurn =>
    (registerObligation store thread turn targets triggerTurn).1
  | .resolve thread generation child incarnation turn status retain =>
    (resolveJoinTargetInner store thread generation child incarnation turn status retain).1
  | .finishDispatch generation => finishJoinDispatch store generation
  | .acknowledge predecessor generation successor state =>
    (acknowledgeReadyJoinDelivery store predecessor generation successor state).1
  | .wait thread turn targetIds currentTargets =>
    (consumeReadyJoinObligationForTargets store thread turn targetIds currentTargets).1
  | .rebind thread generation child incarnation predecessor successor =>
    (rebindJoinTargetToSuccessor store thread generation child incarnation predecessor successor).1
  | .retire thread generation child incarnation predecessor =>
    (retireJoinTargetSuccessorRetention store thread generation child incarnation predecessor).1
  | .finishContinuation thread generation predecessor successor state =>
    (finishJoinContinuation store thread generation predecessor successor state).1
  | .finishRootContinuations thread turn state =>
    (finishRootJoinContinuations store thread turn state).1
  | .turnTerminal thread turn state status =>
    if status.isFinal then recordTurnTerminal store thread turn state status else store

/-- Whether an operation adds an obligation; a refused or reattached registration does not. -/
def JoinObligationStore.creates (op : StoreOp) : Bool :=
  decide (store.obligations.length < (store.apply op).obligations.length)

def applyAll (ops : List StoreOp) : JoinObligationStore :=
  ops.foldl JoinObligationStore.apply store

def registrations : JoinObligationStore → List StoreOp → ℕ
  | _, [] => 0
  | store, op :: rest => (store.creates op).toNat + registrations (store.apply op) rest

end Slopdex.Join.Store
