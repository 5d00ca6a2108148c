import Mathlib.Logic.Function.Basic
import Slopdex.Library.Transition
import Slopdex.Join.Mailbox
import Slopdex.Turn.Claims

/-!
# Starting, aborting and finishing turns of a session

Every start is a contender for the slot of the active turn: a user's `start_or_steer`, a
`start_if_idle`, a wake for pending mail and a task that replaces what runs. A step is one locked
part of its function, and a contender can be cancelled wherever it waits. What the rest of the
program decides comes in with the step.
-/

namespace Slopdex.Turn.Starts

open Protocol Library.Transition Join.Store Join.Mailbox Turn.Claims

inductive TurnStartKind
  | user
  | automatic
  | recovery
  deriving DecidableEq

def TurnStartKind.permitsMode (kind : TurnStartKind) (planMode : Bool) : Bool :=
  match kind with
  | .user | .recovery => true
  | .automatic => !planMode

structure TurnInputRequest where
  additionalContext : List TurnInput
  input : TurnInput
  deriving DecidableEq

namespace TurnInputRequest

variable (request : TurnInputRequest)

def canStartOrSteer : Bool :=
  match request.input with
  | .userInput .. | .functionCallOutput _ => true
  | .responseItem _ | .interAgentCommunication _ => false

def isEmpty (request : TurnInputRequest) : Bool :=
  match request.input with
  | .userInput content _ => content.isEmpty
  | _ => false

def isUserInput : Bool :=
  match request.input with
  | .userInput .. => true
  | _ => false

/-- How `handle` starts a request on an idle session. -/
def startKind : TurnStartKind :=
  match request.input with
  | .userInput content _ => if content.isEmpty then .automatic else .user
  | .responseItem _ | .functionCallOutput _ | .interAgentCommunication _ => .automatic

def content : List TurnInput :=
  request.additionalContext ++ if request.isEmpty then [] else [request.input]

end TurnInputRequest

inductive Origin
  | startOrSteer (request : TurnInputRequest)
  | startIfIdle (request : TurnInputRequest)
  | recovery
  | wake
  | spawn (input : List TurnInput)
  deriving DecidableEq

namespace Origin

/-- The kind with which `start_if_idle` is called. -/
def idleKind : Origin → Option TurnStartKind
  | .startIfIdle request => some request.startKind
  | .recovery => some .recovery
  | .startOrSteer _ | .wake | .spawn _ => none

def taskInput : Origin → List TurnInput
  | .startOrSteer request => request.content
  | .startIfIdle request =>
    match request.startKind with
    | .user => request.additionalContext ++ [request.input]
    | .automatic | .recovery => request.additionalContext
  | .recovery | .wake => []
  | .spawn input => input

def queuedInput : Origin → List TurnInput
  | .startIfIdle request =>
    match request.startKind with
    | .automatic => if request.isUserInput then [] else [request.input]
    | .user | .recovery => []
  | .startOrSteer _ | .recovery | .wake | .spawn _ => []

def reports : Origin → Bool
  | .startOrSteer _ | .startIfIdle _ | .recovery => true
  | .wake | .spawn _ => false

def callerInput : Origin → List TurnInput
  | .startOrSteer request | .startIfIdle request => request.content
  | .recovery | .wake | .spawn _ => []

end Origin

inductive NotSubmittedReason
  | pendingTriggerTurn
  | planMode
  | notIdle
  | activeTurnNotSteerable (kind : TaskKind)
  | emptyInput
  | activeTurnOutputSchemaMismatch
  deriving DecidableEq

inductive Outcome
  | started (turnId : TurnId)
  | steered (turnId : TurnId)
  | notSubmitted (reason : NotSubmittedReason)
  | failed
  deriving DecidableEq

/-! ## Contenders -/

/-- Where a contender waits, and what it has in its hands there. -/
inductive Stage
  | steering
  | claiming
  | waiting (claim : ClaimId)
  | probing
  | reserved (reservation : AgentExecutionReservation)
  | rechecking (reservation : AgentExecutionReservation) (turnState : TurnStateRef)
  | starting (reservation : AgentExecutionReservation) (turnState : TurnStateRef)
  | clearing (reservation : AgentExecutionReservation) (turnState : TurnStateRef) (outcome : Outcome)
  | leaving (reservation : AgentExecutionReservation) (outcome : Outcome)
  | waking
  | woken (claim : ClaimId) (turnState : TurnStateRef)
  | replacing (reservation : AgentExecutionReservation)
  | beginning (reservation : AgentExecutionReservation)
  | committing (guard : Option PermitId) (claim : ClaimId) (turnState : TurnStateRef)
  | returning
  deriving DecidableEq

structure Contender where
  id : ℕ
  origin : Origin
  subId : TurnId
  kind : TaskKind
  stage : Stage
  deriving DecidableEq

structure Aborting where
  task : RunningTask
  turnState : TurnStateRef

/-- `on_task_finished` between taking a task and clearing the slot. -/
structure Finisher where
  runner : ℕ
  turnState : TurnStateRef

structure Install where
  contender : ℕ
  subId : TurnId
  turnState : TurnStateRef
  (taskInput pendingInput : List TurnInput)
  deriving DecidableEq

structure StartState where
  active : Option ActiveTurn
  claims : ClaimId → TasklessTurnClaimStatus
  (nextClaim nextPermit nextTurnState nextContender : ℕ)
  pendingInput : TurnStateRef → List TurnInput
  contenders : List Contender
  aborting : List Aborting
  finishers : List Finisher
  released : List PermitId
  installs : List Install

/-- `runners` are the spawned futures that have not finished. -/
structure Session extends StartState where
  queue : InputQueue
  runners : List ℕ
  nextRunner : ℕ
  outcomes : List (ℕ × Outcome)

def StartState.initial : StartState where
  active := none
  claims _ := .starting
  nextClaim := 0
  nextPermit := 0
  nextTurnState := 0
  nextContender := 0
  pendingInput _ := []
  contenders := []
  aborting := []
  finishers := []
  released := []
  installs := []

def Session.initial : Session := ⟨.initial, .new, [], 0, []⟩

namespace StartState

variable (s : StartState)

def setStage (index : ℕ) (contender : Contender) (stage : Stage) : StartState :=
  { s with contenders := s.contenders.set index { contender with stage } }

def leave (index : ℕ) : StartState :=
  { s with contenders := s.contenders.eraseIdx index }

/-- `set_status`: a claim is decided once. -/
def setStatus (claim : ClaimId) (status : TasklessTurnClaimStatus) : StartState :=
  { s with
    claims := if s.claims claim = .starting then Function.update s.claims claim status
      else s.claims }

def cancelOwner (owner : Option ClaimId) : StartState :=
  { s with claims := owner.elim s.claims fun claim ↦ (s.setStatus claim .cancelled).claims }

def release (guard : Option PermitId) : StartState :=
  { s with released := s.released ++ guard.toList }

def dropReservation (reservation : AgentExecutionReservation) : StartState :=
  (s.release reservation.guard).cancelOwner reservation.tasklessClaimOwner

def slotReservation : AgentExecutionReservation :=
  ((s.active.bind (·.pendingWakeStart)).bind (·.reservation)).getD ⟨none, none⟩

/-- Empty the slot; the reservation of a pending wake is dropped with its turn. -/
def clearActive : StartState :=
  { s with active := none }.dropReservation s.slotReservation

def newClaim : StartState := { s with nextClaim := s.nextClaim + 1 }

def place (turn : ActiveTurn) : StartState :=
  { s with active := some turn, nextTurnState := s.nextTurnState + 1 }

def extendPendingInput (turnState : TurnStateRef) (items : List TurnInput) : StartState :=
  { s with
    pendingInput := Function.update s.pendingInput turnState (s.pendingInput turnState ++ items) }

def clearPending (turnState : TurnStateRef) : StartState :=
  { s with pendingInput := Function.update s.pendingInput turnState [] }

end StartState

/-! ## The steps of a contender

What a step answers to the caller comes with the state after it.
-/

inductive Capacity
  | refused
  | unlimited
  | limited

inductive Settings
  | applied
  | planMode
  | failed
  deriving DecidableEq

/-- What the rest of the program decides in a step. -/
structure Choice where
  capacity : Capacity := .limited
  settings : Settings := .applied
  durableSleep : Bool := false
  planMode : Bool := false
  schemaMatches : Bool := true

abbrev Result := StartState × Option Outcome

namespace StartState

variable (s : StartState) (index : ℕ)

def answer (outcome : Outcome) : Result := (s.leave index, some outcome)

variable (contender : Contender)

def goOn (stage : Stage) : Result :=
  (s.setStage index contender stage, none)

def reserveExecutionCapacity : Capacity → Option (StartState × Option PermitId)
  | .refused => none
  | .unlimited => some (s, none)
  | .limited => some ({ s with nextPermit := s.nextPermit + 1 }, some ⟨s.nextPermit⟩)

def steerInput (request : TurnInputRequest)
    (choice : Choice) : Result :=
  match s.active with
  | none => s.goOn index contender .claiming
  | some turn =>
    match turn.task with
    | none => s.goOn index contender .claiming
    | some task =>
      if task.kind ≠ .regular then
        s.answer index (.notSubmitted (.activeTurnNotSteerable task.kind))
      else if request.isEmpty then s.answer index (.notSubmitted .emptyInput)
      else if !choice.schemaMatches then
        s.answer index (.notSubmitted .activeTurnOutputSchemaMismatch)
      else (s.extendPendingInput turn.turnState (request.additionalContext ++ [request.input])).answer
        index (if choice.settings = .applied then .steered task.subId else .failed)

/-- The reservation of a user start, which owns no claim yet, gets one with a turn in the slot. -/
def claimTurn (guard : Option PermitId) : Result :=
  let claim : ClaimId := ⟨s.nextClaim⟩
  let turnState : TurnStateRef := ⟨s.nextTurnState⟩
  (s.newClaim.place (.withTasklessStartClaim turnState claim)).goOn index contender
    (.starting ⟨guard, some claim⟩ turnState)

def claimEmptySlot (choice : Choice) : Result :=
  match s.reserveExecutionCapacity choice.capacity with
  | none => s.answer index .failed
  | some (s, guard) => s.claimTurn index contender guard

/-- `claim_execution_capacity_for_user_turn_start` and what its caller does with the answer. -/
def claimExecutionCapacityForUserTurnStart
    (choice : Choice) : Result :=
  match s.active with
  | none => s.claimEmptySlot index contender choice
  | some turn =>
    if turn.task.isSome then s.goOn index contender .steering
    else match turn.tasklessStartClaim with
      | none => s.clearActive.claimEmptySlot index contender choice
      | some claim =>
        match s.claims claim with
        | .cancelled => s.clearActive.claimEmptySlot index contender choice
        | .running => s.goOn index contender .steering
        | .starting =>
          match turn.takePendingWakeReservationForUser with
          | (turn, none) =>
            { s with active := some turn }.goOn index contender (.waiting claim)
          | (_, some reservation) =>
            { s with active := none }.claimTurn index contender reservation.guard

/-- The checks of `start_if_idle` before it looks at the slot. -/
def probe (kind : TurnStartKind)
    (queue : InputQueue) (choice : Choice) : Result :=
  if hasTriggerTurnMailboxItems queue then s.answer index (.notSubmitted .pendingTriggerTurn)
  else if !kind.permitsMode choice.planMode then s.answer index (.notSubmitted .planMode)
  else match s.reserveExecutionCapacity choice.capacity with
    | none => s.answer index .failed
    | some (s, guard) =>
      s.newClaim.goOn index contender (.reserved ⟨guard, some ⟨s.nextClaim⟩⟩)

variable (reservation : AgentExecutionReservation)

def claimIfIdle : Result :=
  match s.active, reservation.tasklessClaimOwner with
  | none, some claim =>
    let turnState : TurnStateRef := ⟨s.nextTurnState⟩
    (s.place (.withTasklessStartClaim turnState claim)).goOn index contender
      (.rechecking reservation turnState)
  | _, _ => (s.dropReservation reservation).answer index (.notSubmitted .notIdle)

variable (turnState : TurnStateRef)

def recheck (queue : InputQueue) :
    Result :=
  if hasTriggerTurnMailboxItems queue then
    s.goOn index contender (.clearing reservation turnState (.notSubmitted .pendingTriggerTurn))
  else s.goOn index contender (.starting reservation turnState)

def applyStarted : Settings → Result
  | .applied => (s.extendPendingInput turnState contender.origin.queuedInput).goOn index contender
      (.beginning reservation)
  | .planMode =>
    s.goOn index contender (.clearing reservation turnState (.notSubmitted .planMode))
  | .failed => s.goOn index contender (.clearing reservation turnState .failed)

def clearReservedIdleTurn : StartState :=
  if s.active.any fun turn ↦ turn.task.isNone && turn.turnState == turnState then s.clearActive
  else s

/-- `maybe_start_turn_for_pending_work` up to the claim. -/
def claimForWake (queue : InputQueue)
    (choice : Choice) : StartState :=
  if hasPendingMailboxItems queue && (hasTriggerTurnMailboxItems queue || choice.durableSleep) &&
      s.active.isNone then
    match s.reserveExecutionCapacity choice.capacity with
    | none => s.leave index
    | some (s, guard) =>
      let claim : ClaimId := ⟨s.nextClaim⟩
      let turnState : TurnStateRef := ⟨s.nextTurnState⟩
      (s.newClaim.place (.withPendingWakeReservation turnState ⟨guard, none⟩ claim)).setStage index
        contender (.woken claim turnState)
  else s.leave index

def commitWake (claim : ClaimId)
    (turnState : TurnStateRef) : StartState :=
  let lost := (s.setStatus claim .cancelled).leave index
  match s.active with
  | none => lost
  | some turn =>
    if turn.task.isSome ∨ turn.turnState ≠ turnState then lost
    else match turn.commitPendingWake with
      | (turn, none) => { lost with active := some turn }
      | (turn, some reservation) =>
        { s with active := some turn }.setStage index contender
          (.beginning { reservation with tasklessClaimOwner := some claim })

/-- The first locked part of `start_task_with_reservation_inner`. -/
def beginTask : StartState :=
  let lost := (s.dropReservation reservation).setStage index contender .returning
  match reservation.tasklessClaimOwner, s.active with
  | some claim, some turn =>
    if turn.task.isNone ∧ turn.tasklessStartClaim = some claim then
      s.setStage index contender (.committing reservation.guard claim turn.turnState)
    else lost
  | none, none =>
    let claim : ClaimId := ⟨s.nextClaim⟩
    let turnState : TurnStateRef := ⟨s.nextTurnState⟩
    (s.newClaim.place (.withTasklessStartClaim turnState claim)).setStage index contender
      (.committing reservation.guard claim turnState)
  | _, _ => lost

def installTask (guard : Option PermitId)
    (claim : ClaimId) (turn : ActiveTurn) (runner : ℕ) (items : List TurnInput) : StartState :=
  let s := s.extendPendingInput turn.turnState items
  { s.setStatus claim .running with
    active := some { turn with
      task := some ⟨runner, contender.subId, contender.kind, guard⟩ }.finishTasklessStart
    contenders := s.contenders.set index { contender with stage := .returning }
    installs := s.installs ++ [⟨contender.id, contender.subId, turn.turnState,
      contender.origin.taskInput, s.pendingInput turn.turnState⟩] }

/-- An abort, or a suspension, takes the turn out of the slot; a turn without a task is dropped at
once. -/
def takeActiveTurn : StartState :=
  match s.active with
  | none => s
  | some turn =>
    match turn.task with
    | none => s.clearActive
    | some task => { s with active := none, aborting := s.aborting ++ [⟨task, turn.turnState⟩] }

def dropStage : Stage → StartState
  | .reserved reservation | .rechecking reservation _ | .starting reservation _
  | .clearing reservation _ _ | .leaving reservation _ | .replacing reservation
  | .beginning reservation => s.dropReservation reservation
  | .committing guard claim _ => s.dropReservation ⟨guard, some claim⟩
  | .woken claim _ => s.setStatus claim .cancelled
  | .steering | .claiming | .waiting _ | .probing | .waking | .returning => s

def firstStage : Origin → Stage
  | .startOrSteer _ => .steering
  | .startIfIdle _ | .recovery => .probing
  | .wake => .waking
  | .spawn _ => .replacing reservation

def submit (origin : Origin) (subId : TurnId) (kind : TaskKind)
    (reservation : AgentExecutionReservation) : StartState :=
  { s with
    contenders := s.contenders ++
      [⟨s.nextContender, origin, subId, kind, firstStage reservation origin⟩]
    nextContender := s.nextContender + 1 }

def wake (s : StartState) (subId : TurnId) : StartState := s.submit .wake subId .regular ⟨none, none⟩

/-- The end of an abort: the future of the task is stopped and its permit released. -/
def finishAbort (aborted : Aborting) : StartState :=
  { (s.release aborted.task.agentExecutionGuard).clearPending aborted.turnState with
    aborting := s.aborting.eraseIdx index
    finishers := s.finishers.filter (·.runner != aborted.task.runner) }

/-- `on_task_finished` takes the task that is in the slot, without asking whose it is. -/
def takeFinishedTask (runner : ℕ) (turn : ActiveTurn) (task : RunningTask) : StartState :=
  { (s.release task.agentExecutionGuard).clearPending turn.turnState with
    active := some { turn with task := none }
    finishers := s.finishers ++ [⟨runner, turn.turnState⟩] }

end StartState

inductive Action
  | submit (origin : Origin) (subId : TurnId) (kind : TaskKind) (capacity : Capacity)
  | advance (index : ℕ) (choice : Choice) (wakeSubId : TurnId)
  | cancel (index : ℕ)
  | abortAllTasks
  | abortTurnIfActive (turnId : TurnId)
  | finishAbort (index : ℕ) (wakeSubId : Option TurnId)
  | finishTask (runner : ℕ)
  | clearFinished (index : ℕ) (wakeSubId : TurnId)
  | getPendingInput (runner : ℕ) (accepts : Bool)
  | inject (items : List TurnInput)
  | receive (message : Message)
  | operate (op : StoreOp)

namespace Session

variable (s : Session)

def answer (contender : Contender) (result : Result) : Session :=
  { s with
    toStartState := result.1
    outcomes := s.outcomes ++ result.2.toList.map fun outcome ↦ (contender.id, outcome) }

/-- The second locked part of `start_task_with_reservation_inner`. -/
def commitTask (index : ℕ) (contender : Contender) (guard : Option PermitId)
    (claim : ClaimId) (turnState : TurnStateRef) : Session :=
  let lost := { s with
    toStartState := (s.dropReservation ⟨guard, some claim⟩).setStage index contender .returning }
  match s.active with
  | none => lost
  | some turn =>
    if turn.matchesTasklessTurn claim turnState then
      match commitStartupMailbox s.queue contender.subId turnState with
      | none => lost
      | some (queue, items, _) =>
        { s with
          toStartState := s.installTask index contender guard claim turn s.nextRunner items
          queue := queue
          runners := s.runners ++ [s.nextRunner]
          nextRunner := s.nextRunner + 1 }
    else lost

def advance (index : ℕ) (contender : Contender) (choice : Choice)
    (wakeSubId : TurnId) : Option Session :=
  match contender.stage with
  | .steering =>
    match contender.origin with
    | .startOrSteer request =>
      if request.canStartOrSteer then
        some (s.answer contender (s.steerInput index contender request choice))
      else some (s.answer contender (s.toStartState.answer index .failed))
    | _ => none
  | .claiming =>
    some (s.answer contender (s.claimExecutionCapacityForUserTurnStart index contender choice))
  | .waiting claim =>
    if s.claims claim = .starting then none
    else some { s with toStartState := s.setStage index contender .steering }
  | .probing =>
    contender.origin.idleKind.map fun kind ↦
      s.answer contender (s.probe index contender kind s.queue choice)
  | .reserved reservation => some (s.answer contender (s.claimIfIdle index contender reservation))
  | .rechecking reservation turnState =>
    some (s.answer contender (s.recheck index contender reservation turnState s.queue))
  | .starting reservation turnState =>
    -- Only automatic work is turned away in Plan mode.
    if choice.settings = .planMode ∧ contender.origin.idleKind ≠ some .automatic then none
    else some (s.answer contender
      (s.applyStarted index contender reservation turnState choice.settings))
  | .clearing reservation turnState outcome =>
    let cleared := (s.clearReservedIdleTurn turnState).setStage index contender
      (.leaving reservation outcome)
    some { s with
      toStartState := if outcome = .notSubmitted .pendingTriggerTurn then cleared.wake wakeSubId
        else cleared }
  | .leaving reservation outcome =>
    some (s.answer contender ((s.dropReservation reservation).answer index outcome))
  | .waking => some { s with toStartState := s.claimForWake index contender s.queue choice }
  | .woken claim turnState =>
    some { s with toStartState := s.commitWake index contender claim turnState }
  | .replacing reservation =>
    some { s with toStartState :=
      s.takeActiveTurn.setStage index contender (.beginning reservation) }
  | .beginning reservation =>
    some { s with toStartState := s.beginTask index contender reservation }
  | .committing guard claim turnState =>
    some (s.commitTask index contender guard claim turnState)
  | .returning =>
    if contender.origin.reports then
      some (s.answer contender (s.toStartState.answer index (.started contender.subId)))
    else some { s with toStartState := s.leave index }

def submit (s : Session) (origin : Origin) (subId : TurnId) (kind : TaskKind)
    (capacity : Capacity) : Option Session :=
  match origin with
  | .spawn _ =>
    (s.reserveExecutionCapacity capacity).map fun (state, guard) ↦
      { s with toStartState := state.submit origin subId kind ⟨guard, none⟩ }
  | _ => some { s with toStartState := s.toStartState.submit origin subId kind ⟨none, none⟩ }

def finishTask (runner : ℕ) : Option Session :=
  if runner ∈ s.runners then
    let ended := { s with runners := s.runners.erase runner }
    match s.active.bind fun turn ↦ turn.task.map (turn, ·) with
    | none => some ended
    | some (turn, task) => some { ended with toStartState := s.takeFinishedTask runner turn task }
  else none

def clearFinished (index : ℕ) (finisher : Finisher) (wakeSubId : TurnId) : Session :=
  let ended := { s.toStartState with finishers := s.finishers.eraseIdx index }
  { s with toStartState :=
      if s.active.any fun turn ↦ turn.task.isNone && turn.turnState == finisher.turnState then
        ended.clearActive.wake wakeSubId
      else ended }

def getPendingInput (s : Session) (accepts : Bool) : Option Session :=
  let active := s.active.map fun turn ↦ (⟨turn.task.map (·.subId), turn.turnState, accepts,
    s.pendingInput turn.turnState⟩ : ActiveDelivery)
  (Join.Mailbox.getPendingInput s.queue active).map fun (queue, items, _) ↦
    { s with
      queue := queue
      toStartState := match s.active with
        | some turn => if items.isEmpty then s.toStartState else s.clearPending turn.turnState
        | none => s.toStartState }

def step : Action → Option Session
  | .submit origin subId kind capacity => s.submit origin subId kind capacity
  | .advance index choice wakeSubId =>
    (s.contenders[index]?).bind fun contender ↦ s.advance index contender choice wakeSubId
  | .cancel index =>
    (s.contenders[index]?).map fun contender ↦
      { s with toStartState := (s.dropStage contender.stage).leave index }
  | .abortAllTasks => some { s with toStartState := s.takeActiveTurn }
  | .abortTurnIfActive turnId =>
    if s.active.any fun turn ↦ turn.task.any (·.subId == turnId) then
      some { s with toStartState := s.takeActiveTurn }
    else none
  | .finishAbort index wakeSubId =>
    (s.aborting[index]?).map fun aborted ↦
      let ended := s.toStartState.finishAbort index aborted
      { s with
        toStartState := match wakeSubId with
          | some subId => ended.wake subId
          | none => ended
        runners := s.runners.erase aborted.task.runner }
  | .finishTask runner => s.finishTask runner
  | .clearFinished index wakeSubId =>
    (s.finishers[index]?).map fun finisher ↦ s.clearFinished index finisher wakeSubId
  | .getPendingInput runner accepts =>
    if runner ∈ s.runners then s.getPendingInput accepts else none
  | .inject items =>
    s.active.map fun turn ↦
      { s with toStartState := s.extendPendingInput turn.turnState items }
  | .receive message => some { s with queue := enqueueMailboxCommunication s.queue message }
  | .operate op =>
    some { s with
      queue := { s.queue with joinObligations := s.queue.joinObligations.apply op } }

end Session

def sessionStarts : System Session Action := ⟨.initial, Session.step⟩

end Slopdex.Turn.Starts
