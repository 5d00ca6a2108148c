import Slopdex.Protocol.Types

/-!
# The active turn and the claims on it

A turn enters the slot without a task, under the claim of the start that will install one. The start
keeps the claim with its execution permit in a reservation; a wake leaves its reservation in the
slot until it commits, so that a user start can take it. A dropped reservation releases its permit
and cancels its claim.
-/

namespace Slopdex.Turn.Claims

open Protocol

/-- The address of a `TasklessTurnClaim`. -/
structure ClaimId where
  index : ℕ
  deriving DecidableEq

/-- An `AgentExecutionGuard`, numbered in the order in which the permits were handed out. -/
structure PermitId where
  index : ℕ
  deriving DecidableEq

inductive TasklessTurnClaimStatus
  | starting
  | running
  | cancelled
  deriving DecidableEq

structure AgentExecutionReservation where
  guard : Option PermitId
  tasklessClaimOwner : Option ClaimId
  deriving DecidableEq

inductive TaskKind
  | regular
  | review
  | compact
  deriving DecidableEq

/-- `runner` names the spawned future that runs the task. -/
structure RunningTask where
  runner : ℕ
  subId : TurnId
  kind : TaskKind
  agentExecutionGuard : Option PermitId

structure PendingWakeStart where
  reservation : Option AgentExecutionReservation
  committed : Bool

structure ActiveTurn where
  task : Option RunningTask
  turnState : TurnStateRef
  tasklessStartClaim : Option ClaimId
  pendingWakeStart : Option PendingWakeStart

namespace ActiveTurn

def withTasklessStartClaim (turnState : TurnStateRef) (claim : ClaimId) : ActiveTurn :=
  ⟨none, turnState, some claim, none⟩

def withPendingWakeReservation (turnState : TurnStateRef) (reservation : AgentExecutionReservation)
    (claim : ClaimId) : ActiveTurn :=
  ⟨none, turnState, some claim, some ⟨some reservation, false⟩⟩

variable (turn : ActiveTurn)

def takePendingWakeReservationForUser : ActiveTurn × Option AgentExecutionReservation :=
  match turn.pendingWakeStart with
  | none => (turn, none)
  | some pending =>
    if pending.committed then (turn, none)
    else ({ turn with pendingWakeStart := none }, pending.reservation)

def commitPendingWake : ActiveTurn × Option AgentExecutionReservation :=
  match turn.pendingWakeStart with
  | none => (turn, none)
  | some pending =>
    if pending.committed then (turn, none)
    else ({ turn with pendingWakeStart := some ⟨none, true⟩ }, pending.reservation)

def finishTasklessStart : ActiveTurn :=
  { turn with pendingWakeStart := none, tasklessStartClaim := none }

/-- `matches_taskless_turn` -/
def matchesTasklessTurn (claim : ClaimId) (turnState : TurnStateRef) : Bool :=
  turn.task.isNone && turn.turnState == turnState && turn.tasklessStartClaim == some claim

def permits : List PermitId :=
  (turn.task.bind (·.agentExecutionGuard)).toList ++
    ((turn.pendingWakeStart.bind (·.reservation)).bind (·.guard)).toList

end ActiveTurn

end Slopdex.Turn.Claims
