import Slopdex.Join.Readiness

/-!
# The session of a joined child

What observers see of a child: its active turn, its own join obligations with their leases, the
table and the broadcast of recorded terminals, and its status. `record_nested_join_turn_terminal`
gives up its locks between the leases, the announcement, the table and the broadcast, so a recording
goes through these stages one by one.
-/

namespace Slopdex.Join.ChildSession

open Protocol Library.FirstMatch Join.Store

/-- An `ExactJoinTurnTerminal`; the turn state is compared by its address. -/
structure ExactTerminal where
  turnId : TurnId
  turnState : TurnStateRef
  status : AgentStatus
  deriving DecidableEq

namespace ExactTerminal

def isFor (terminal : ExactTerminal) (turnId : TurnId) (turnState : TurnStateRef) : Bool :=
  terminal.turnId == turnId && terminal.turnState == turnState

/-- The caller holds the turn state it asks for, so the weak reference upgrades where they agree. -/
def statusFor (terminal : ExactTerminal) (turnId : TurnId) (turnState : TurnStateRef) :
    Option AgentStatus :=
  if terminal.isFor turnId turnState then some terminal.status else none

end ExactTerminal

inductive RecordStage
  | entered
  | leased (changed : Bool)
  | announced
  | tabled
  deriving DecidableEq

/-- A call of `record_nested_join_turn_terminal` with a final status. -/
structure Recording where
  terminal : ExactTerminal
  stage : RecordStage
  deriving DecidableEq

/-- `reserved` is the state of an active turn without a task. `sent` lists what was broadcast, and
`ended` the turns that ended with a final status. -/
structure Child where
  store : JoinObligationStore
  revision : ℕ
  reserved : Option TurnStateRef
  active : Option (TurnId × TurnStateRef)
  recordings : List Recording
  (terminals sent : List ExactTerminal)
  status : AgentStatus
  statusVersion : ℕ
  shutDown : Bool
  ended : List ExactTerminal

def Child.initial : Child where
  store := .empty
  revision := 0
  reserved := none
  active := none
  recordings := []
  terminals := []
  sent := []
  status := .pendingInit
  statusVersion := 0
  shutDown := false
  ended := []

/-- `dead` are turn states that nobody holds any more. -/
inductive ChildAction
  | reserve (turnState : TurnStateRef)
  | release
  | start (turnId : TurnId)
  | finish (turnId : TurnId) (status : AgentStatus)
  | record (index : ℕ) (dead : List TurnStateRef)
  | prune (dead : List TurnStateRef)
  | announce
  | setStatus (status : AgentStatus)
  | perform (op : StoreOp)

namespace Child

def pruneTerminals (terminals : List ExactTerminal) (dead : List TurnStateRef) :
    List ExactTerminal :=
  terminals.filter fun old ↦ !dead.contains old.turnState

def insertTerminal (terminals : List ExactTerminal) (terminal : ExactTerminal)
    (dead : List TurnStateRef) : List ExactTerminal :=
  let kept := pruneTerminals terminals dead
  if kept.any (·.isFor terminal.turnId terminal.turnState) then
    updateFirst (·.isFor terminal.turnId terminal.turnState) (fun _ ↦ terminal) kept
  else kept ++ [terminal]

variable (child : Child)

def setStage (index : ℕ) (recording : Recording) (stage : RecordStage) : Child :=
  { child with recordings := child.recordings.set index { recording with stage } }

def advance (threadId : ThreadId) (index : ℕ) (recording : Recording)
    (dead : List TurnStateRef) : Child :=
  let terminal := recording.terminal
  match recording.stage with
  | .entered =>
    { child.setStage index recording (.leased (turnTerminalChanges child.store threadId
        terminal.turnId terminal.turnState terminal.status)) with
      store := recordTurnTerminal child.store threadId terminal.turnId terminal.turnState
        terminal.status }
  | .leased changed =>
    { child.setStage index recording .announced with revision := child.revision + changed.toNat }
  | .announced =>
    { child.setStage index recording .tabled with
      terminals := insertTerminal child.terminals terminal dead }
  | .tabled =>
    { child with
      recordings := child.recordings.eraseIdx index
      sent := child.sent ++ [terminal] }

/-- What others do to the child's obligations: a delivery names the turn that takes the mail, and
terminals are recorded by the child itself. -/
def permits : StoreOp → Bool
  | .acknowledge _ _ successor (some state) =>
    child.active == some (successor, state) || child.reserved == some state
  | .turnTerminal .. => false
  | _ => true

/-- The operations that announce the revision before they give up the lock. -/
def announces (store : JoinObligationStore) : StoreOp → Bool
  | .finishContinuation thread generation predecessor successor state =>
    (finishJoinContinuation store thread generation predecessor successor state).2
  | .finishRootContinuations thread turn state => (finishRootJoinContinuations store thread turn state).2
  | _ => false

def perform (op : StoreOp) : Child :=
  { child with
    store := child.store.apply op
    revision := child.revision + (announces child.store op).toNat }

/-- `on_task_finished` takes the task of the active turn, whichever it is; an abort takes its own. -/
def finish (turnState : TurnStateRef) (turnId : TurnId) (status : AgentStatus) : Child :=
  if status.isFinal then
    { child with
      active := none
      recordings := child.recordings ++ [⟨⟨turnId, turnState, status⟩, .entered⟩]
      ended := child.ended ++ [⟨turnId, turnState, status⟩] }
  else { child with active := none }

def step (threadId : ThreadId) : ChildAction → Option Child
  | .reserve turnState =>
    if child.active.isNone && child.reserved.isNone then
      some { child with reserved := some turnState }
    else none
  | .release => some { child with reserved := none }
  | .start turnId =>
    child.reserved.map fun turnState ↦
      { child with reserved := none, active := some (turnId, turnState) }
  | .finish turnId status =>
    child.active.map fun turn ↦ child.finish turn.2 turnId status
  | .record index dead =>
    (child.recordings[index]?).map fun recording ↦ child.advance threadId index recording dead
  | .prune dead => some { child with terminals := pruneTerminals child.terminals dead }
  | .announce => some { child with revision := child.revision + 1 }
  | .setStatus status =>
    some { child with
      status := status
      statusVersion := child.statusVersion + 1
      shutDown := child.shutDown || status == .shutdown }
  | .perform op => if child.permits op then some (child.perform op) else none

/-- `exact_join_terminal_status` after it has pruned the table -/
def exactJoinTerminalStatus (turnId : TurnId) (turnState : TurnStateRef) : Option AgentStatus :=
  child.terminals.reverse.findSome? (·.statusFor turnId turnState)

end Child

end Slopdex.Join.ChildSession
