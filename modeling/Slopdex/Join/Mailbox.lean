import Slopdex.Join.Store

/-!
# The mailbox of a session

A message that carries the completion of a join is tagged with its generation, and taking tagged
mail acknowledges the obligation. The tag comes from a side map that the dispatch of the completion
writes under the parent turn. The start of a turn commits the whole mailbox, and a running turn
takes it if every tag is still valid.
-/

namespace Slopdex.Join.Mailbox

open Protocol Library.FirstMatch Library.KeyedMap Join.Store

inductive TurnInput
  | userInput (content : List String) (clientId : Option String)
  | functionCallOutput (item : String)
  | responseItem (item : String)
  | interAgentCommunication (communication : InterAgentCommunication)
  deriving DecidableEq

inductive MailboxProvenance
  | ordinary
  | joinAggregate (generation : ℕ)
  deriving DecidableEq

/-- Names the completion a message was built from; no function of the session reads it. -/
structure Origin where
  (index generation : ℕ)
  deriving DecidableEq

structure Message where
  communication : InterAgentCommunication
  startOptions : TurnStartOptions
  origin : Option Origin
  deriving DecidableEq

structure PendingMailboxCommunication extends Message where
  provenance : MailboxProvenance
  deriving DecidableEq

structure InputQueue where
  mailboxPendingMails : List PendingMailboxCommunication
  joinObligations : JoinObligationStore
  joinTriggerProvenance : Map TurnId ℕ

def InputQueue.new : InputQueue := ⟨[], .empty, ∅⟩

/-! ## Enqueueing

Each of the three parts takes its own lock, so other tasks run between them.
-/

variable (mail : PendingMailboxCommunication) (mails : List PendingMailboxCommunication)
  (queue : InputQueue)

def takeTrigger (message : Message) : InputQueue × MailboxProvenance :=
  if message.communication.triggerTurn then
    match message.startOptions.parentTurnId with
    | none => (queue, .ordinary)
    | some parentTurnId =>
      match queue.joinTriggerProvenance.lookup parentTurnId with
      | none => (queue, .ordinary)
      | some generation =>
        ({ queue with
            joinTriggerProvenance := queue.joinTriggerProvenance.erase parentTurnId },
          .joinAggregate generation)
  else (queue, .ordinary)

def pushMail (message : Message) (provenance : MailboxProvenance) : InputQueue :=
  { queue with
    mailboxPendingMails := queue.mailboxPendingMails ++ [{ message with provenance }] }

def finishDispatch (generation : ℕ) : InputQueue :=
  { queue with joinObligations := finishJoinDispatch queue.joinObligations generation }

def finishEnqueue : MailboxProvenance → InputQueue
  | .joinAggregate generation => finishDispatch queue generation
  | .ordinary => queue

def enqueueMailboxCommunication (message : Message) : InputQueue :=
  let (marked, provenance) := takeTrigger queue message
  finishEnqueue (pushMail marked message provenance) provenance

def markJoinTrigger (parentTurnId : TurnId) (generation : ℕ) : InputQueue :=
  { queue with
    joinTriggerProvenance := queue.joinTriggerProvenance.insert parentTurnId generation }

def clearJoinTrigger (parentTurnId : TurnId) (generation : ℕ) : InputQueue :=
  if queue.joinTriggerProvenance.lookup parentTurnId = some generation then
    { queue with joinTriggerProvenance := queue.joinTriggerProvenance.erase parentTurnId }
  else queue

def hasPendingMailboxItems : Bool := !queue.mailboxPendingMails.isEmpty

def hasTriggerTurnMailboxItems : Bool :=
  queue.mailboxPendingMails.any (·.communication.triggerTurn)

def commonParentTurn : Option TurnId :=
  match (mails.filter (·.communication.triggerTurn)).map (·.startOptions.parentTurnId) with
  | [] => none
  | first :: rest =>
    rest.foldl (fun expected candidate ↦ expected.filter fun id ↦ candidate == some id) first

/-- A later follow-up supersedes the earlier choice; parent and root turn are combined apart. -/
def mailboxStartOptions : TurnStartOptions :=
  let latest := ((mails.reverse.find? (·.communication.triggerTurn)).map (·.startOptions)).getD {}
  { latest with
    parentTurnId := (commonParentTurn mails).filter fun id ↦ !isBlank id
    rootTurnId := (mails.find? (·.communication.triggerTurn)).bind fun mail ↦
      (mail.startOptions.parentTurnId.filter fun id ↦ !isBlank id).bind fun _ ↦
        mail.startOptions.rootTurnId.filter fun id ↦ !isBlank id }

def PendingMailboxCommunication.isTagged : Bool :=
  match mail.provenance with
  | .joinAggregate _ => true
  | .ordinary => false

def PendingMailboxCommunication.joinProvenance : Option (TurnId × ℕ) :=
  if mail.communication.triggerTurn then
    match mail.provenance with
    | .joinAggregate generation =>
      (mail.startOptions.parentTurnId.filter fun id ↦ !isBlank id).map fun id ↦ (id, generation)
    | .ordinary => none
  else none

/-- The predecessor turns and generations that the mail of a batch names. -/
def mailboxJoinProvenance : List (TurnId × ℕ) :=
  mails.filterMap (·.joinProvenance)

def PendingMailboxCommunication.turnInput : TurnInput :=
  .interAgentCommunication mail.communication

variable (store : JoinObligationStore)

/-- One join of a batch: a single obligation awaits it, its dispatch is complete and the successor
can still take it over. -/
def validJoin (successorTurnId : Option TurnId)
    (predecessorTurnId : TurnId) (generation : ℕ) : Bool :=
  let successor := successorTurnId.getD predecessorTurnId
  match store.obligations.filter (·.awaitsDelivery generation predecessorTurnId) with
  | [obligation] =>
    obligation.dispatchComplete &&
      (obligation.inRetainedDeliveryFor predecessorTurnId || !obligation.token.consumed) &&
      !(obligation.triggerTurn &&
        (successor == "" || (successor != predecessorTurnId &&
          store.continuations.any (·.follows obligation.parentThreadId predecessorTurnId))))
  | _ => false

def validateJoins (store : JoinObligationStore) (successorTurnId : Option TurnId) :
    Finset ℕ → List (TurnId × ℕ) → Bool
  | _, [] => true
  | seen, (predecessorTurnId, generation) :: rest =>
    decide (generation ∉ seen) && validJoin store successorTurnId predecessorTurnId generation &&
      validateJoins store successorTurnId (insert generation seen) rest

def validatedMailboxJoinProvenance (successorTurnId : Option TurnId) :
    Option (List (TurnId × ℕ)) :=
  let joins := mailboxJoinProvenance mails
  if joins.length = mails.countP (·.isTagged) ∧ validateJoins store successorTurnId ∅ joins then
    some joins
  else none

structure ActiveDelivery where
  taskSubId : Option TurnId
  turnState : TurnStateRef
  acceptsMailboxDelivery : Bool
  pendingInput : List TurnInput

/-- Acknowledge the joins in order; `none` is the failed expectation. -/
def acknowledgeAll (successorTurnId : Option TurnId) (state : Option TurnStateRef) :
    JoinObligationStore → List (TurnId × ℕ) → Option JoinObligationStore
  | store, [] => some store
  | store, (predecessorTurnId, generation) :: rest =>
    match acknowledgeReadyJoinDelivery store predecessorTurnId generation
        (successorTurnId.getD predecessorTurnId) state with
    | (store', some _) => acknowledgeAll successorTurnId state store' rest
    | (_, none) => none

/-- The second, atomic half of the delivery; the first only repeats its tests. `none` is a panic. -/
def getPendingInput (active : Option ActiveDelivery) :
    Option (InputQueue × List TurnInput × TurnStartOptions) :=
  if active.any fun turn ↦ !turn.acceptsMailboxDelivery then some (queue, [], {})
  else match validatedMailboxJoinProvenance queue.mailboxPendingMails queue.joinObligations
      (active.bind (·.taskSubId)) with
    | none => some (queue, [], {})
    | some joins =>
      (acknowledgeAll (active.bind (·.taskSubId)) (active.map (·.turnState))
        queue.joinObligations joins).map fun store ↦
          ({ queue with mailboxPendingMails := [], joinObligations := store },
            (active.map (·.pendingInput)).getD [] ++ queue.mailboxPendingMails.map (·.turnInput),
            mailboxStartOptions queue.mailboxPendingMails)

def hasPendingInput : Option ActiveDelivery → Bool
  | some turn =>
    turn.acceptsMailboxDelivery && (!turn.pendingInput.isEmpty || hasPendingMailboxItems queue)
  | none => hasPendingMailboxItems queue

def refusesStartup (successorTurnId predecessorTurnId : TurnId)
    (generation : ℕ) : Bool :=
  match store.obligations.find? (·.awaitsDelivery generation predecessorTurnId) with
  | none => false
  | some obligation =>
    obligation.triggerTurn &&
      (successorTurnId == "" || predecessorTurnId == "" || predecessorTurnId == successorTurnId ||
        store.continuations.any (·.follows obligation.parentThreadId predecessorTurnId))

def acknowledgeEach (successorTurnId : TurnId) (state : TurnStateRef)
    (store : JoinObligationStore) (joins : List (TurnId × ℕ)) : JoinObligationStore :=
  joins.foldl (fun store join ↦
    (acknowledgeReadyJoinDelivery store join.1 join.2 successorTurnId (some state)).1) store

def commitStartupMailbox (successorTurnId : TurnId) (state : TurnStateRef) :
    Option (InputQueue × List TurnInput × TurnStartOptions) :=
  let joins := mailboxJoinProvenance queue.mailboxPendingMails
  if joins.any fun join ↦
      refusesStartup queue.joinObligations successorTurnId join.1 join.2 then
    none
  else
    some ({ queue with
        mailboxPendingMails := []
        joinObligations := acknowledgeEach successorTurnId state queue.joinObligations joins },
      queue.mailboxPendingMails.map (·.turnInput), mailboxStartOptions queue.mailboxPendingMails)

def PendingMailboxCommunication.isAggregateOf (generations : List ℕ) : Bool :=
  match mail.provenance with
  | .joinAggregate generation => generations.contains generation
  | .ordinary => false

def purgeMail (generations : List ℕ) : InputQueue :=
  { queue with
    mailboxPendingMails := queue.mailboxPendingMails.filter (!·.isAggregateOf generations) }

/-- `consume_ready_join_obligation_for_targets_with_outcomes` -/
def consumeForTargets (parentThreadId : ThreadId) (parentTurnId : TurnId)
    (targetIds : List ThreadId) (currentTargets : TargetBindings) :
    InputQueue × Option (ℕ × List (ThreadId × AgentStatus)) :=
  let (store, consumed) := consumeReadyJoinObligationForTargets queue.joinObligations
    parentThreadId parentTurnId targetIds currentTargets
  (purgeMail { queue with joinObligations := store } (consumed.map Prod.fst).toList, consumed)

/-- The locked part of `record_nested_join_turn_terminal`. -/
def recordNestedJoinTurnTerminal (parentThreadId : ThreadId) (turnId : TurnId)
    (turnState : TurnStateRef) (status : AgentStatus) : InputQueue :=
  if status.isFinal then
    purgeMail
      { queue with
        joinObligations :=
          recordTurnTerminal queue.joinObligations parentThreadId turnId turnState status }
      (retiredGenerations queue.joinObligations parentThreadId turnId status)
  else queue

end Slopdex.Join.Mailbox
