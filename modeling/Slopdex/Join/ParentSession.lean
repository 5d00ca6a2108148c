import Slopdex.Join.Mailbox
import Slopdex.Library.Transition

/-!
# Dispatch of join completions to a parent session

The transition system of one parent session: the observers that resolve targets and dispatch
completions, the submission channel with its handler, ordinary messages, and the turns that wait,
end, start or take pending input. A step is what one task does under one lock. The state also
records which completions were handed to the parent.
-/

namespace Slopdex.Join.ParentSession

open Protocol Library.KeyedMap Library.Transition Join.Store Join.Mailbox
open Option (some ite_some_none_eq_some)

/-- How far an enqueue has come: before the tag, before the push, before its dispatch is finished. -/
inductive EnqueueStage
  | received
  | tagged (provenance : MailboxProvenance)
  | pushed (provenance : MailboxProvenance)
  deriving DecidableEq

/-- One part of `enqueue_mailbox_communication`; the enqueue is over when no stage is left. -/
def advanceEnqueue (queue : InputQueue) (message : Message) :
    EnqueueStage → InputQueue × Option EnqueueStage
  | .received =>
    let (marked, provenance) := takeTrigger queue message
    (marked, some (.tagged provenance))
  | .tagged provenance => (pushMail queue message provenance, some (.pushed provenance))
  | .pushed provenance => (finishEnqueue queue provenance, none)

structure Enqueue where
  message : Message
  stage : EnqueueStage

inductive DispatchStage
  | entered
  | marked
  | enqueuing (stage : EnqueueStage)
  | finishing
  | done
  deriving DecidableEq

/-- A call of `dispatch_join_completion`. -/
structure Dispatch where
  (parentPath childPath : String)
  completion : JoinCompletion
  stage : DispatchStage

def Dispatch.message (dispatch : Dispatch) (index : ℕ) : Message where
  communication :=
    { author := dispatch.childPath
      recipient := dispatch.parentPath
      content := .joinCompletion dispatch.completion.parentTurnId dispatch.completion.outcomes
      triggerTurn := true }
  startOptions := { parentTurnId := some dispatch.completion.parentTurnId }
  origin := some ⟨index, dispatch.completion.generation⟩

/-- `dispatches` lists the calls in the order of their completions, `latest` the last completion of
a generation and `handed` the completions that reached the parent. -/
structure State where
  queue : InputQueue
  dispatches : List Dispatch
  channel : List Message
  handler : Option Enqueue
  capacityReadyLeases : List (TurnId × ℕ)
  latest : ℕ → Option ℕ
  handed : List ℕ

def State.initial : State := ⟨.new, [], [], none, [], fun _ ↦ none, []⟩

inductive Action
  | register (parentThreadId : ThreadId) (parentTurnId : TurnId) (targets : TargetBindings)
      (triggerTurn : Bool)
  | resolve (parentThreadId : ThreadId) (generation : ℕ) (child : ThreadId)
      (incarnation : Incarnation) (childTurnId : TurnId) (status : AgentStatus)
      (retainSuccessor : Bool) (parentPath childPath : String)
  | rebind (parentThreadId : ThreadId) (generation : ℕ) (child : ThreadId)
      (incarnation : Incarnation) (predecessorTurnId successorTurnId : TurnId)
  | retire (parentThreadId : ThreadId) (generation : ℕ) (child : ThreadId)
      (incarnation : Incarnation) (predecessorTurnId : TurnId)
  | finishContinuation (parentThreadId : ThreadId) (generation : ℕ)
      (predecessorTurnId successorTurnId : TurnId) (successorTurnState : TurnStateRef)
  | finishRootContinuations (rootThreadId : ThreadId) (terminalTurnId : TurnId)
      (terminalTurnState : TurnStateRef)
  | abandon (index : ℕ)
  | notify (index : ℕ)
  | mark (index : ℕ)
  | loseParent (index : ℕ)
  | replaceParent (index : ℕ)
  | submit (index : ℕ)
  | overflow (index : ℕ)
  | reject (index : ℕ)
  | enqueue (index : ℕ)
  | finish (index : ℕ)
  | releaseLease (parentTurnId : TurnId) (generation : ℕ)
  | send (communication : InterAgentCommunication) (startOptions : TurnStartOptions)
  | receive
  | handle
  | wait (parentThreadId : ThreadId) (parentTurnId : TurnId) (targetIds : List ThreadId)
      (currentTargets : TargetBindings)
  | terminal (parentThreadId : ThreadId) (turnId : TurnId) (turnState : TurnStateRef)
      (status : AgentStatus)
  | startup (successorTurnId : TurnId) (state : TurnStateRef)
  | deliver (active : Option ActiveDelivery)

namespace State

variable (s : State)

def withStore (store : JoinObligationStore) : State :=
  { s with queue := { s.queue with joinObligations := store } }

def setStage (index : ℕ) (dispatch : Dispatch) (stage : DispatchStage) : State :=
  { s with dispatches := s.dispatches.set index { dispatch with stage } }

def emit (completion : JoinCompletion) (parentPath childPath : String) : State :=
  { s with
    dispatches := s.dispatches ++ [⟨parentPath, childPath, completion, .entered⟩]
    latest := Function.update s.latest completion.generation (some s.dispatches.length) }

def carried (mails : List PendingMailboxCommunication) : List ℕ :=
  mails.filterMap fun mail ↦ mail.origin.map (·.index)

def resolve (parentThreadId : ThreadId) (generation : ℕ) (child : ThreadId)
    (incarnation : Incarnation) (childTurnId : TurnId) (status : AgentStatus)
    (retainSuccessor : Bool) (parentPath childPath : String) : State :=
  let (store, resolution) := resolveJoinTargetInner s.queue.joinObligations parentThreadId
    generation child incarnation childTurnId status retainSuccessor
  match resolution.bind (·.completion) with
  | none => s.withStore store
  | some completion => (s.withStore store).emit completion parentPath childPath

instance decidableMemLeases (lease : TurnId × ℕ) (leases : List (TurnId × ℕ)) :
    Decidable (lease ∈ leases) := inferInstance

def dispatchStep (index : ℕ) (dispatch : Dispatch) : Action → Option State
  | .abandon _ =>
    if dispatch.stage = .entered then some (s.setStage index dispatch .done) else none
  | .notify _ =>
    if dispatch.stage = .entered ∧ dispatch.completion.triggerTurn = false then
      some { s.setStage index dispatch .done with
        queue := finishDispatch s.queue dispatch.completion.generation }
    else none
  | .mark _ =>
    if dispatch.stage = .entered ∧ dispatch.completion.triggerTurn = true then
      some { s.setStage index dispatch .marked with
        queue := markJoinTrigger s.queue dispatch.completion.parentTurnId
          dispatch.completion.generation }
    else none
  | .loseParent _ =>
    if dispatch.stage = .marked then some (s.setStage index dispatch .done) else none
  | .replaceParent _ =>
    if dispatch.stage = .marked then
      some { s.setStage index dispatch .done with
        queue := clearJoinTrigger s.queue dispatch.completion.parentTurnId
          dispatch.completion.generation }
    else none
  | .submit _ =>
    if dispatch.stage = .marked then
      some { s.setStage index dispatch .finishing with
        channel := s.channel ++ [dispatch.message index] }
    else none
  | .overflow _ =>
    if dispatch.stage = .marked then
      let lease := (dispatch.completion.parentTurnId, dispatch.completion.generation)
      if lease ∈ s.capacityReadyLeases then some (s.setStage index dispatch .finishing)
      else some { s.setStage index dispatch (.enqueuing .received) with
        capacityReadyLeases := s.capacityReadyLeases ++ [lease] }
    else none
  | .reject _ =>
    if dispatch.stage = .marked then
      some { s.setStage index dispatch .finishing with
        queue := clearJoinTrigger s.queue dispatch.completion.parentTurnId
          dispatch.completion.generation }
    else none
  | .enqueue _ =>
    match dispatch.stage with
    | .enqueuing stage =>
      let (queue, next) := advanceEnqueue s.queue (dispatch.message index) stage
      some { s.setStage index dispatch ((next.map .enqueuing).getD .finishing) with queue := queue }
    | _ => none
  | .finish _ =>
    if dispatch.stage = .finishing then
      some { s.setStage index dispatch .done with
        queue := finishDispatch s.queue dispatch.completion.generation }
    else none
  | _ => none

def receive : Option State :=
  match s.handler, s.channel with
  | none, message :: rest => some { s with handler := some ⟨message, .received⟩, channel := rest }
  | _, _ => none

def handle : Option State :=
  match s.handler with
  | none => none
  | some enqueue =>
    let (queue, next) := advanceEnqueue s.queue enqueue.message enqueue.stage
    some { s with queue := queue, handler := next.map fun stage ↦ ⟨enqueue.message, stage⟩ }

def wait (parentThreadId : ThreadId) (parentTurnId : TurnId)
    (targetIds : List ThreadId) (currentTargets : TargetBindings) : State :=
  let (queue, consumed) := consumeForTargets s.queue parentThreadId parentTurnId targetIds
    currentTargets
  { s with queue := queue, handed := s.handed ++ (consumed.bind (s.latest ·.1)).toList }

def startup (successorTurnId : TurnId) (state : TurnStateRef) : Option State :=
  (commitStartupMailbox s.queue successorTurnId state).map fun result ↦
    { s with queue := result.1, handed := s.handed ++ carried s.queue.mailboxPendingMails }

def deliver (active : Option ActiveDelivery) : Option State :=
  (getPendingInput s.queue active).map fun result ↦
    { s with
      queue := result.1
      handed := s.handed ++ if result.1.mailboxPendingMails = [] then
        carried s.queue.mailboxPendingMails else [] }

def step (action : Action) : Option State :=
  match action with
  | .register thread turn targets triggerTurn =>
    some (s.withStore
      (registerObligation s.queue.joinObligations thread turn targets triggerTurn).1)
  | .resolve thread generation child incarnation turn status retain parentPath childPath =>
    some (s.resolve thread generation child incarnation turn status retain parentPath childPath)
  | .rebind thread generation child incarnation predecessor successor =>
    some (s.withStore (rebindJoinTargetToSuccessor s.queue.joinObligations thread generation child
      incarnation predecessor successor).1)
  | .retire thread generation child incarnation predecessor =>
    some (s.withStore (retireJoinTargetSuccessorRetention s.queue.joinObligations thread generation
      child incarnation predecessor).1)
  | .finishContinuation thread generation predecessor successor state =>
    some (s.withStore (finishJoinContinuation s.queue.joinObligations thread generation predecessor
      successor state).1)
  | .finishRootContinuations thread turn state =>
    some (s.withStore (finishRootJoinContinuations s.queue.joinObligations thread turn state).1)
  | .abandon index | .notify index | .mark index | .loseParent index | .replaceParent index
  | .submit index | .overflow index | .reject index | .enqueue index | .finish index =>
    (s.dispatches[index]?).bind fun dispatch ↦ s.dispatchStep index dispatch action
  | .releaseLease turn generation =>
    some { s with capacityReadyLeases := s.capacityReadyLeases.filter (· != (turn, generation)) }
  | .send communication startOptions =>
    some { s with channel := s.channel ++ [⟨communication, startOptions, none⟩] }
  | .receive => s.receive
  | .handle => s.handle
  | .wait thread turn targetIds currentTargets => some (s.wait thread turn targetIds currentTargets)
  | .terminal thread turn turnState status =>
    some { s with queue := recordNestedJoinTurnTerminal s.queue thread turn turnState status }
  | .startup successor state => s.startup successor state
  | .deliver active => s.deliver active

end State

def parentSession : System State Action := ⟨.initial, State.step⟩

theorem handle_eq_some {s s' : State} (h : s.handle = some s') :
    ∃ enqueue, s.handler = some enqueue ∧ s' =
      { s with
        queue := (advanceEnqueue s.queue enqueue.message enqueue.stage).1
        handler := (advanceEnqueue s.queue enqueue.message enqueue.stage).2.map
          fun stage ↦ ⟨enqueue.message, stage⟩ } := by
  unfold State.handle at h
  split at h
  next => cases h
  next enqueue hh => exact ⟨enqueue, hh, (some.inj h).symm⟩

theorem receive_eq_some {s s' : State} (h : s.receive = some s') :
    ∃ msg rest, s.handler = none ∧ s.channel = msg :: rest ∧
      s' = { s with handler := some ⟨msg, .received⟩, channel := rest } := by
  unfold State.receive at h
  split at h
  next msg rest hh hc =>
    exact ⟨msg, rest, hh, hc, (some.inj h).symm⟩
  next => cases h

inductive DispatchMove (s : State) (index : ℕ) (dispatch : Dispatch) : Action → State → Prop
  | giveUp (action : Action) (stage : DispatchStage)
      (hstage : dispatch.stage = .entered ∨ dispatch.stage = .marked)
      (hnext : stage = .done ∨ stage = .finishing) :
      DispatchMove s index dispatch action (s.setStage index dispatch stage)
  | mark (i : ℕ) (hstage : dispatch.stage = .entered)
      (htrigger : dispatch.completion.triggerTurn = true) :
      DispatchMove s index dispatch (.mark i) { s.setStage index dispatch .marked with
        queue := markJoinTrigger s.queue dispatch.completion.parentTurnId
          dispatch.completion.generation }
  | withdraw (action : Action) (stage : DispatchStage) (hstage : dispatch.stage = .marked)
      (hnext : stage = .done ∨ stage = .finishing) :
      DispatchMove s index dispatch action { s.setStage index dispatch stage with
        queue := clearJoinTrigger s.queue dispatch.completion.parentTurnId
          dispatch.completion.generation }
  | submit (action : Action) (hstage : dispatch.stage = .marked) :
      DispatchMove s index dispatch action { s.setStage index dispatch .finishing with
        channel := s.channel ++ [dispatch.message index] }
  | overflow (action : Action) (leases : List (TurnId × ℕ)) (hstage : dispatch.stage = .marked) :
      DispatchMove s index dispatch action { s.setStage index dispatch (.enqueuing .received) with
        capacityReadyLeases := leases }
  | enqueue (action : Action) (stage : EnqueueStage)
      (hstage : dispatch.stage = .enqueuing stage) :
      DispatchMove s index dispatch action { s.setStage index dispatch
          (((advanceEnqueue s.queue (dispatch.message index) stage).2.map .enqueuing).getD
            .finishing) with
        queue := (advanceEnqueue s.queue (dispatch.message index) stage).1 }
  | finish (action : Action) (hstage : dispatch.stage = .finishing ∨
        dispatch.stage = .entered ∧ dispatch.completion.triggerTurn = false) :
      DispatchMove s index dispatch action { s.setStage index dispatch .done with
        queue := finishDispatch s.queue dispatch.completion.generation }

theorem dispatchMove_of_dispatchStep {s s' : State} {index : ℕ} {dispatch : Dispatch}
    {action : Action} (h : s.dispatchStep index dispatch action = some s') :
    DispatchMove s index dispatch action s' := by
  cases action with simp only [State.dispatchStep, ite_some_none_eq_some] at h
  | abandon =>
    obtain ⟨hs, rfl⟩ := h
    exact .giveUp _ _ (.inl hs) (.inl rfl)
  | notify =>
    obtain ⟨hs, rfl⟩ := h
    exact .finish _ (.inr hs)
  | mark =>
    obtain ⟨hs, rfl⟩ := h
    exact .mark _ hs.1 hs.2
  | loseParent =>
    obtain ⟨hs, rfl⟩ := h
    exact .giveUp _ _ (.inr hs) (.inl rfl)
  | replaceParent =>
    obtain ⟨hs, rfl⟩ := h
    exact .withdraw _ _ hs (.inl rfl)
  | submit =>
    obtain ⟨hs, rfl⟩ := h
    exact .submit _ hs
  | overflow =>
    obtain ⟨hs, hs'⟩ := Option.ite_none_right_eq_some.mp h
    split at hs' <;> cases hs'
    · exact .giveUp _ _ (.inr hs) (.inr rfl)
    · exact .overflow _ _ hs
  | reject =>
    obtain ⟨hs, rfl⟩ := h
    exact .withdraw _ _ hs (.inr rfl)
  | enqueue =>
    split at h
    next stage hs =>
      cases h
      exact .enqueue _ stage hs
    next => cases h
  | finish =>
    obtain ⟨hs, rfl⟩ := h
    exact .finish _ (.inl hs)
  | _ => cases h

def dispatching (index : ℕ) (child : ThreadId) (incarnation : Incarnation) (path : String) :
    List Action :=
  [.register ⟨1⟩ "A" (singleTarget child incarnation "child") true,
    .resolve ⟨1⟩ (index + 1) child incarnation "child" (.completed none) false "/root" path,
    .mark index, .submit index, .finish index]

def enqueuing : List Action := [.receive, .handle, .handle, .handle]

def waiting : Action := .wait ⟨1⟩ "A" [⟨2⟩] (singleTarget ⟨2⟩ ⟨0⟩ "")

end Slopdex.Join.ParentSession
