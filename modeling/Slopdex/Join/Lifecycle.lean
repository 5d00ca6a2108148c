import Slopdex.Join.Handover
import Slopdex.Join.StoredResults

/-!
# The turns of a session next to its observers and its mailbox

The composition of `parentSession` and `joinObservers` over the one store of the session, with its
turns. A turn starts with the commit of the mailbox; when its task is over, its terminal is recorded
and a root session finishes the leases of the turn. A finished turn stays in the slot until that is
done, an aborted one leaves it first.
-/

namespace Slopdex.Join.Lifecycle

open Protocol Library.Transition Library.Transition.System Join.Store Join.Evolution Join.WellFormed
  Join.Mailbox Join.SessionStore
open Observation.State (setObserver perform subscribe permits)
open Option (ite_none_right_eq_some map_eq_some_iff bind_eq_some_iff)
open Option

variable {childPath parentPath : String} {op : ParentSession.Action}

structure Setting extends Observation.Setting where
  isRoot : Bool

structure SlotTurn where
  turnId : TurnId
  turnState : TurnStateRef
  hasTask : Bool
  deriving DecidableEq

structure EndingTurn where
  turnId : TurnId
  turnState : TurnStateRef
  status : AgentStatus
  recorded : Bool

structure State where
  session : ParentSession.State
  observation : Observation.State
  active : Option SlotTurn
  ending : List EndingTurn

def State.initial : State := ⟨.initial, .initial, none, []⟩

inductive Action
  | observe (action : Observation.Action) (parentPath childPath : String)
  | dispatch (action : ParentSession.Action)
  | start (turnId : TurnId) (turnState : TurnStateRef)
  | deliver (accepts : Bool) (pendingInput : List TurnInput)
  | finish (status : AgentStatus)
  | abort (status : AgentStatus)
  | record (index : ℕ)
  | release (index : ℕ)
  | clear

def observes : Observation.Action → Bool
  | .parent _ => false
  | .begin _ children _ => !children.isEmpty
  | _ => true

def dispatches : ParentSession.Action → Bool
  | .register .. | .resolve .. | .rebind .. | .retire .. | .finishRootContinuations ..
  | .terminal .. | .startup .. | .deliver _ => false
  | _ => true

def emission (setting : Setting) (s : Observation.State) :
    Observation.Action → Option JoinCompletion
  | .observe index branch dead =>
    (s.observers[index]?).bind fun observer ↦
      (observer.next setting.toSetting s.parent s.parentRevision (s.children observer.incarnation)
        branch dead).bind fun (effect, _) ↦
          match effect with
          | .resolve status retainSuccessor =>
            (resolveJoinTargetInner s.parent setting.parentThreadId observer.generation
              observer.child observer.incarnation observer.turnId status retainSuccessor).2.bind
                (·.completion)
          | _ => none
  | _ => none

namespace State

variable (s : State)

def store : JoinObligationStore := s.session.queue.joinObligations

def setSession (session : ParentSession.State) : State :=
  { s with
    session := session
    observation := { s.observation with parent := session.queue.joinObligations } }

/-- The session learns what an observer did to the store and dispatches its completion. -/
def setObservation (observation : Observation.State)
    (completion : Option JoinCompletion) (parentPath childPath : String) : State :=
  { s with
    observation := observation
    session := match completion with
      | none => s.session.withStore observation.parent
      | some completion =>
        (s.session.withStore observation.parent).emit completion parentPath childPath }

def activeDelivery (accepts : Bool) (pendingInput : List TurnInput) :
    Option ActiveDelivery :=
  s.active.map fun turn ↦
    ⟨if turn.hasTask then some turn.turnId else none, turn.turnState, accepts, pendingInput⟩

def running : Option SlotTurn := s.active.filter (·.hasTask)

def endTurn (turn : SlotTurn) (status : AgentStatus) (active : Option SlotTurn) :
    State :=
  { s with
    active := active
    ending := s.ending ++ [⟨turn.turnId, turn.turnState, status, false⟩] }

/-- `record_nested_join_turn_terminal` for a turn that ends -/
def record (setting : Setting) (s : State) (index : ℕ) (turn : EndingTurn) : Option State :=
  if turn.recorded then none
  else (s.session.step (.terminal setting.parentThreadId turn.turnId turn.turnState
    turn.status)).map fun session ↦
      { s.setSession session with ending := s.ending.set index { turn with recorded := true } }

/-- `finish_root_join_continuations` for a turn that ends; other sessions skip it. -/
def release (setting : Setting) (s : State) (index : ℕ) (turn : EndingTurn) : Option State :=
  if !turn.recorded then none
  else if setting.isRoot then
    (s.session.step (.finishRootContinuations setting.parentThreadId turn.turnId
      turn.turnState)).map fun session ↦
        { s.setSession session with ending := s.ending.eraseIdx index }
  else some { s with ending := s.ending.eraseIdx index }

def step (setting : Setting) (s : State) : Action → Option State
  | .observe action parentPath childPath =>
    if observes action then
      (s.observation.step setting.toSetting action).map fun observation ↦
        s.setObservation observation (emission setting s.observation action) parentPath childPath
    else none
  | .dispatch action => if dispatches action then (s.session.step action).map s.setSession else none
  | .start turnId turnState =>
    if s.active.isNone then
      (s.session.step (.startup turnId turnState)).map fun session ↦
        { s.setSession session with active := some ⟨turnId, turnState, true⟩ }
    else none
  | .deliver accepts pendingInput =>
    (s.session.step (.deliver (s.activeDelivery accepts pendingInput))).map s.setSession
  | .finish status =>
    s.running.map fun turn ↦ s.endTurn turn status (some { turn with hasTask := false })
  | .abort status => s.running.map fun turn ↦ s.endTurn turn status none
  | .record index => (s.ending[index]?).bind (s.record setting index)
  | .release index => (s.ending[index]?).bind (s.release setting index)
  | .clear =>
    s.active.bind fun turn ↦
      if turn.hasTask || s.ending.any (·.turnState == turn.turnState) then none
      else some { s with active := none }

end State

def lifecycle (setting : Setting) : System State Action := ⟨.initial, State.step setting⟩

variable {setting : Setting} {s s' : State} {action : Action}

inductive Move (setting : Setting) (s : State) : Action → State → Prop
  | observe {observed observation} (parentPath childPath : String)
      (hobserves : observes observed = true)
      (hobservation : s.observation.step setting.toSetting observed = some observation) :
      Move setting s (.observe observed parentPath childPath) (s.setObservation observation
        (emission setting s.observation observed) parentPath childPath)
  | dispatch {op session} (hdispatches : dispatches op = true)
      (hsession : s.session.step op = some session) :
      Move setting s (.dispatch op) (s.setSession session)
  | start {turnId turnState session} (hactive : s.active = none)
      (hsession : s.session.step (.startup turnId turnState) = some session) :
      Move setting s (.start turnId turnState)
        { s.setSession session with active := some ⟨turnId, turnState, true⟩ }
  | deliver {accepts pendingInput session}
      (hsession : s.session.step (.deliver (s.activeDelivery accepts pendingInput)) =
        some session) :
      Move setting s (.deliver accepts pendingInput) (s.setSession session)
  | finish {turn} (status) (hturn : s.running = some turn) :
      Move setting s (.finish status) (s.endTurn turn status (some { turn with hasTask := false }))
  | abort {turn} (status) (hturn : s.running = some turn) :
      Move setting s (.abort status) (s.endTurn turn status none)
  | record {index turn session} (hturn : s.ending[index]? = some turn)
      (hsession : s.session.step (.terminal setting.parentThreadId turn.turnId turn.turnState
        turn.status) = some session) :
      Move setting s (.record index) { s.setSession session with
        ending := s.ending.set index { turn with recorded := true } }
  | releaseRoot {index turn session} (hroot : setting.isRoot = true)
      (hturn : s.ending[index]? = some turn)
      (hsession : s.session.step (.finishRootContinuations setting.parentThreadId turn.turnId
        turn.turnState) = some session) :
      Move setting s (.release index)
        { s.setSession session with ending := s.ending.eraseIdx index }
  | release {index turn} (hroot : setting.isRoot = false) (hturn : s.ending[index]? = some turn) :
      Move setting s (.release index) { s with ending := s.ending.eraseIdx index }
  | clear {turn} (hactive : s.active = some turn) (htask : turn.hasTask = false) :
      Move setting s .clear { s with active := none }

theorem move_of_step (hs : s.step setting action = some s') : Move setting s action s' := by
  cases action with
  | observe _ parentPath childPath =>
    obtain ⟨hobserves, hm⟩ := ite_none_right_eq_some.mp hs
    obtain ⟨_, ho, rfl⟩ := map_eq_some_iff.mp hm
    exact .observe parentPath childPath hobserves ho
  | dispatch =>
    obtain ⟨hd, hm⟩ := ite_none_right_eq_some.mp hs
    obtain ⟨_, hse, rfl⟩ := map_eq_some_iff.mp hm
    exact .dispatch hd hse
  | start =>
    obtain ⟨hac, hm⟩ := ite_none_right_eq_some.mp hs
    obtain ⟨_, hse, rfl⟩ := map_eq_some_iff.mp hm
    exact .start (isNone_iff_eq_none.mp hac) hse
  | deliver =>
    obtain ⟨_, hse, rfl⟩ := map_eq_some_iff.mp hs
    exact .deliver hse
  | finish status =>
    obtain ⟨_, hturn, rfl⟩ := map_eq_some_iff.mp hs
    exact .finish status hturn
  | abort status =>
    obtain ⟨_, hturn, rfl⟩ := map_eq_some_iff.mp hs
    exact .abort status hturn
  | record =>
    obtain ⟨_, hturn, hre⟩ := bind_eq_some_iff.mp hs
    obtain ⟨-, hm⟩ := ite_none_left_eq_some.mp hre
    obtain ⟨_, hse, rfl⟩ := map_eq_some_iff.mp hm
    exact .record hturn hse
  | release =>
    obtain ⟨_, hturn, hr⟩ := bind_eq_some_iff.mp hs
    obtain ⟨-, ha⟩ := ite_none_left_eq_some.mp hr
    split at ha
    next hroot =>
      obtain ⟨_, hse, rfl⟩ := map_eq_some_iff.mp ha
      exact .releaseRoot hroot hturn hse
    next hroot =>
      cases ha
      exact .release (Bool.not_eq_true _ ▸ hroot) hturn
  | clear =>
    obtain ⟨_, hac, hc⟩ := bind_eq_some_iff.mp hs
    obtain ⟨he, ha⟩ := ite_none_left_eq_some.mp hc
    rw [Bool.or_eq_true, not_or, Bool.not_eq_true] at he
    cases ha
    exact .clear hac he.1

def registers : StoreOp → Bool
  | .register .. => true
  | _ => false

@[simp] theorem setSession_store (s : State) (session : ParentSession.State) :
    (s.setSession session).store = session.queue.joinObligations := rfl

@[simp] theorem setObservation_store (s : State) (observation : Observation.State)
    (completion : Option JoinCompletion) (parentPath childPath : String) :
    (s.setObservation observation completion parentPath childPath).store = observation.parent := by
  cases completion <;> rfl

@[simp] theorem setObservation_active (s : State) (observation : Observation.State)
    (completion : Option JoinCompletion) (parentPath childPath : String) :
    (s.setObservation observation completion parentPath childPath).active = s.active := rfl

/-- The two copies of the store agree. -/
def Shared (s : State) : Prop := s.observation.parent = s.store

theorem Shared.step (hs : Shared s) (hst : s.step setting action = some s') : Shared s' := by
  cases move_of_step hst with
  | observe => exact (setObservation_store s _ _ _ _).symm
  | dispatch | start | deliver | record | releaseRoot => rfl
  | finish | abort | release | clear => exact hs

/-! ## The step of the session -/

def observerAction (setting : Setting) (observer : Observation.Observer)
    (parentPath childPath : String) : Observation.Effect → Option ParentSession.Action
  | .resolve status retainSuccessor => some (.resolve setting.parentThreadId observer.generation
      observer.child observer.incarnation observer.turnId status retainSuccessor parentPath
      childPath)
  | .retire => some (.retire setting.parentThreadId observer.generation observer.child
      observer.incarnation observer.turnId)
  | .rebind successorTurnId => some (.rebind setting.parentThreadId observer.generation
      observer.child observer.incarnation observer.turnId successorTurnId)
  | .keep | .prune _ | .finish .. => none

def sessionAction (setting : Setting) (s : State) : Action → Option ParentSession.Action
  | .observe (.register index) _ _ => (s.observation.registrars[index]?).map fun registrar ↦
      .register setting.parentThreadId registrar.parentTurnId registrar.targets
        registrar.triggerTurn
  | .observe (.observe index branch dead) parentPath childPath =>
    (s.observation.observers[index]?).bind fun observer ↦
      (observer.next setting.toSetting s.observation.parent s.observation.parentRevision
        (s.observation.children observer.incarnation) branch dead).bind fun (effect, _) ↦
          observerAction setting observer parentPath childPath effect
  | .dispatch op => some op
  | .start turnId turnState => some (.startup turnId turnState)
  | .deliver accepts pendingInput => some (.deliver (s.activeDelivery accepts pendingInput))
  | .record index => (s.ending[index]?).map fun turn ↦
      .terminal setting.parentThreadId turn.turnId turn.turnState turn.status
  | .release index =>
    if setting.isRoot then (s.ending[index]?).map fun turn ↦
      .finishRootContinuations setting.parentThreadId turn.turnId turn.turnState
    else none
  | .observe .. | .finish _ | .abort _ | .clear => none

def SessionMove (setting : Setting) (s : State) (action : Action) (s' : State) : Prop :=
  sessionAction setting s action = none ∧ s'.session = s.session ∨
    ∃ op, sessionAction setting s action = some op ∧ s.session.step op = some s'.session

theorem withStore_of_shared (hs : Shared s) :
    s.session.withStore s.observation.parent = s.session := by
  rw [hs]
  rfl

theorem sessionMove_of_effect (hs : Shared s) {index : ℕ} {branch : Observation.Branch}
    {dead : List TurnStateRef} {obs after : Observation.Observer}
    {effect : Observation.Effect} (ho : s.observation.observers[index]? = some obs)
    (hn : obs.next setting.toSetting s.observation.parent s.observation.parentRevision
      (s.observation.children obs.incarnation) branch dead = some (effect, after)) :
    SessionMove setting s (.observe (.observe index branch dead) parentPath childPath)
      (s.setObservation ((s.observation.perform setting.toSetting obs effect).setObserver
        index after) (emission setting s.observation (.observe index branch dead)) parentPath
          childPath) := by
  have hstore : s.observation.parent = s.session.queue.joinObligations := hs
  have haction : sessionAction setting s (.observe (.observe index branch dead) parentPath
      childPath) = observerAction setting obs parentPath childPath effect := by
    simp only [sessionAction, ho, bind_some, hn]
  unfold SessionMove
  rw [haction]
  simp only [emission, ho, bind_some, hn]
  cases effect with
  | keep | prune | finish => exact .inl ⟨rfl, withStore_of_shared hs⟩
  | retire | rebind =>
    refine .inr ⟨_, rfl, ?_⟩
    simp only [ParentSession.State.step, State.setObservation, setObserver, perform, hstore]
  | resolve =>
    refine .inr ⟨_, rfl, ?_⟩
    simp only [State.setObservation, setObserver, perform, hstore]
    rfl

theorem sessionMove_of_observe (hs : Shared s) {observed : Observation.Action}
    {observation : Observation.State}
    (hobserves : observes observed = true)
    (hst : s.observation.step setting.toSetting observed = some observation) :
    SessionMove setting s (.observe observed parentPath childPath)
      (s.setObservation observation (emission setting s.observation observed) parentPath
        childPath) := by
  have hi (hp : observation.parent = s.observation.parent) :
      s.session.withStore observation.parent = s.session := by
    rw [hp]
    exact withStore_of_shared hs
  cases observed with
  | parent => cases hobserves
  | child =>
    obtain ⟨-, hm⟩ := ite_none_right_eq_some.mp hst
    obtain ⟨_, -, rfl⟩ := map_eq_some_iff.mp hm
    exact .inl ⟨rfl, hi rfl⟩
  | announceParent | begin | giveUp =>
    cases hst
    exact .inl ⟨rfl, hi rfl⟩
  | subscribe =>
    obtain ⟨_, -, hsu⟩ := bind_eq_some_iff.mp hst
    unfold subscribe at hsu
    split at hsu
    next =>
      obtain ⟨-, rfl⟩ := ite_some_none_eq_some.mp hsu
      exact .inl ⟨rfl, hi rfl⟩
    next => cases hsu
  | bind =>
    obtain ⟨_, -, hb⟩ := bind_eq_some_iff.mp hst
    obtain ⟨_, -, ha⟩ := map_eq_some_iff.mp hb
    refine .inl ⟨rfl, hi ?_⟩
    rw [← ha]
    dsimp only
    split <;> rfl
  | register index =>
    obtain ⟨reg, hr, hl⟩ := bind_eq_some_iff.mp hst
    obtain ⟨-, rfl⟩ := ite_some_none_eq_some.mp hl
    refine .inr ⟨_, by rw [sessionAction, hr]; rfl, ?_⟩
    have hstore : s.observation.parent = s.session.queue.joinObligations := hs
    have hp := (StoredResults.register_parent setting.toSetting
      (s.observation.dropRegistrar index) reg).1
    simp only [ParentSession.State.step, State.setObservation, emission, hp]
    rw [Observation.State.dropRegistrar, hstore]
  | observe =>
    obtain ⟨_, hob, ho⟩ := bind_eq_some_iff.mp hst
    obtain ⟨-, ha⟩ := ite_none_right_eq_some.mp ho
    obtain ⟨⟨_, _⟩, hn, rfl⟩ := map_eq_some_iff.mp ha
    exact sessionMove_of_effect hs hob hn

theorem sessionMove_of_step (hs : Shared s) (hst : s.step setting action = some s') :
    SessionMove setting s action s' := by
  cases move_of_step hst with
  | observe _ _ hobserves ho => exact sessionMove_of_observe hs hobserves ho
  | dispatch _ hse | start _ hse | deliver hse => exact .inr ⟨_, rfl, hse⟩
  | record hturn hse =>
    refine .inr ⟨_, ?_, hse⟩
    rw [sessionAction, hturn]
    rfl
  | releaseRoot hroot hturn hse =>
    refine .inr ⟨_, ?_, hse⟩
    rw [sessionAction, if_pos hroot, hturn]
    rfl
  | release hroot =>
    refine .inl ⟨?_, rfl⟩
    rw [sessionAction, hroot, if_neg Bool.false_ne_true]
  | finish | abort | clear => exact .inl ⟨rfl, rfl⟩

def observing : ParentSession.Action → Bool
  | .register .. | .resolve .. | .rebind .. | .retire .. => true
  | _ => false

theorem permits_storeOps {session : ParentSession.State}
    (hop : observing op = false) {storeOp : StoreOp} (hm : storeOp ∈ storeOps session op) :
    permits storeOp = true := by
  cases storeOpOf_of_mem hm with
  | register | resolve | rebind | retire => cases hop
  | _ => rfl

theorem observing_of_dispatches (h : dispatches op = true) : observing op = false := by
  cases op with
  | register | resolve | rebind | retire => cases h
  | _ => rfl

theorem observing_of_observe {observed : Observation.Action}
    (hop : sessionAction setting s (.observe observed parentPath childPath) = some op) :
    observing op = true := by
  cases observed with
  | register =>
    obtain ⟨_, -, rfl⟩ := map_eq_some_iff.mp hop
    rfl
  | observe =>
    obtain ⟨_, -, hn⟩ := bind_eq_some_iff.mp hop
    obtain ⟨⟨eff, _⟩, -, he⟩ := bind_eq_some_iff.mp hn
    cases eff with
    | resolve | retire | rebind =>
      cases he
      rfl
    | _ => cases he
  | _ => cases hop

theorem observing_of_sessionAction
    (hs : s.step setting action = some s') (hop : sessionAction setting s action = some op)
    (ho : observing op = true) : ∃ observed parentPath childPath,
      action = .observe observed parentPath childPath := by
  cases move_of_step hs with
  | observe parentPath childPath => exact ⟨_, parentPath, childPath, rfl⟩
  | dispatch hd =>
    cases hop
    rw [observing_of_dispatches hd] at ho
    cases ho
  | record hturn =>
    rw [sessionAction, hturn] at hop
    cases hop
    cases ho
  | releaseRoot hroot hturn =>
    rw [sessionAction, if_pos hroot, hturn] at hop
    cases hop
    cases ho
  | release hroot =>
    rw [sessionAction, hroot] at hop
    cases hop
  | start | deliver =>
    cases hop
    cases ho
  | finish | abort | clear => cases hop

/-- A step performs operations on the store, of which only the last part of a registration adds
an obligation. -/
inductive StoreMove (setting : Setting) (s : State) (action : Action) (s' : State) : Prop
  | operate (ops : List StoreOp) (hops : ∀ op ∈ ops, registers op = false)
      (hstore : s'.store = applyAll s.store ops)
  | register (index : ℕ) (registrar : Observation.Registrar) (parentPath childPath : String)
      (haction : action = .observe (.register index) parentPath childPath)
      (hregistrar : s.observation.registrars[index]? = some registrar)
      (hactive : s'.active = s.active)
      (hstore : s'.store = (registerObligation s.store setting.parentThreadId
        registrar.parentTurnId registrar.targets registrar.triggerTurn).1)

def isRegistration : ParentSession.Action → Bool
  | .register .. => true
  | _ => false

theorem registers_storeOps {session : ParentSession.State} {action : ParentSession.Action}
    (haction : isRegistration action = false) :
    ∀ op ∈ storeOps session action, registers op = false := by
  intro _ hop
  cases storeOpOf_of_mem hop with
  | register => cases haction
  | _ => rfl

theorem eq_register_of_sessionAction
    (hs : s.step setting action = some s') (hop : sessionAction setting s action = some op)
    (hr : isRegistration op = true) :
    ∃ index reg parentPath childPath, action = .observe (.register index) parentPath childPath ∧
      s.observation.registrars[index]? = some reg ∧ s'.active = s.active ∧
      op = .register setting.parentThreadId reg.parentTurnId reg.targets reg.triggerTurn := by
  have ho : observing op = true := by
    cases op with
    | register => rfl
    | _ => cases hr
  obtain ⟨observed, parentPath, childPath, rfl⟩ := observing_of_sessionAction hs hop ho
  cases move_of_step hs
  cases observed with
  | register index =>
    obtain ⟨reg, hre, rfl⟩ := map_eq_some_iff.mp hop
    exact ⟨index, reg, parentPath, childPath, rfl, hre, rfl, rfl⟩
  | observe =>
    obtain ⟨_, -, hn⟩ := bind_eq_some_iff.mp hop
    obtain ⟨⟨eff, _⟩, -, he⟩ := bind_eq_some_iff.mp hn
    cases eff <;> cases he <;> cases hr
  | _ => cases hop

theorem storeMove_of_step (hs : Shared s) (hst : s.step setting action = some s') :
    StoreMove setting s action s' := by
  rcases sessionMove_of_step hs hst with ⟨-, hsa⟩ | ⟨op, hop, hse⟩
  · exact .operate [] nofun (congrArg (·.queue.joinObligations) hsa)
  · have hstore : s'.store = applyAll s.store (storeOps s.session op) :=
      step_joinObligations hse
    cases hr : isRegistration op with
    | false => exact .operate _ (registers_storeOps hr) hstore
    | true =>
      obtain ⟨index, reg, parentPath, childPath, haction, hre, ha, rfl⟩ :=
        eq_register_of_sessionAction hst hop hr
      exact .register index reg parentPath childPath haction hre ha hstore

theorem sound_of_storeMove (h : Sound s.store) (hm : StoreMove setting s action s') :
    Sound s'.store := by
  cases hm with
  | operate ops _ hstore =>
    rw [hstore]
    exact applyAll_sound ops h
  | register _ _ _ _ _ _ _ hstore =>
    rw [hstore]
    exact h.apply (.register ..)

end Slopdex.Join.Lifecycle
