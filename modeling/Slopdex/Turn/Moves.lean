import Slopdex.Turn.Starts

/-!
# What a step can do to the slot and to what the contenders hold

Every step of a session is a sequence of a few moves. A move says who holds the claim and the permit
before and after it, so that an invariant of the starts is proved once for each move. The moves by
which a start can lose a turn that still is its own are named.
-/

namespace Slopdex.Turn.Starts

open Protocol Turn.Claims

namespace Stage

/-- Everything that a contender has in its hands. -/
def holding : Stage → AgentExecutionReservation
  | .reserved reservation | .rechecking reservation _ | .starting reservation _
  | .clearing reservation _ _ | .leaving reservation _ | .replacing reservation
  | .beginning reservation => reservation
  | .committing guard claim _ => ⟨guard, some claim⟩
  | .woken claim _ => ⟨none, some claim⟩
  | .steering | .claiming | .waiting _ | .probing | .waking | .returning => ⟨none, none⟩

def turnState : Stage → Option TurnStateRef
  | .rechecking _ turnState | .starting _ turnState | .clearing _ turnState _
  | .woken _ turnState | .committing _ _ turnState => some turnState
  | _ => none

def detached : Stage → Bool
  | .reserved _ | .leaving .. => true
  | _ => false

def isReserved : Stage → Bool
  | .reserved _ => true
  | _ => false

def isWoken : Stage → Bool
  | .woken .. => true
  | _ => false

def inSlot : Stage → Bool
  | .rechecking .. | .starting .. | .clearing .. | .beginning _ | .committing .. => true
  | _ => false

def ready : Stage → Bool
  | .beginning _ | .committing .. => true
  | _ => false

def outcome : Stage → Option Outcome
  | .clearing _ _ outcome | .leaving _ outcome => some outcome
  | _ => none

/-- Only starts without a caller get here. -/
def silent : Stage → Bool
  | .waking | .woken .. | .replacing _ => true
  | _ => false

end Stage

namespace Contender

def guard (contender : Contender) : Option PermitId := contender.stage.holding.guard

def claim (contender : Contender) : Option ClaimId := contender.stage.holding.tasklessClaimOwner

end Contender

namespace StartState

variable (s : StartState)

def slotClaim : Option ClaimId := s.active.bind (·.tasklessStartClaim)

def Owns (contender : Contender) : Prop :=
  ∃ claim, contender.claim = some claim ∧ s.slotClaim = some claim

instance (contender : Contender) : Decidable (s.Owns contender) :=
  decidable_of_iff (contender.claim.isSome ∧ s.slotClaim = contender.claim) <| by
    unfold Owns
    cases contender.claim <;> simp

@[simp] theorem release_none : s.release none = s := by
  simp [release]

@[simp] theorem dropReservation_none : s.dropReservation ⟨none, none⟩ = s := by
  simp [dropReservation, cancelOwner]

theorem dropStage_eq (stage : Stage) : s.dropStage stage = s.dropReservation stage.holding := by
  cases stage with
  | woken =>
    simp [dropStage, Stage.holding, dropReservation, cancelOwner, setStatus]
  | steering | claiming | waiting _ | probing | waking | returning =>
    rw [Stage.holding, dropReservation_none]
    rfl
  | _ => rfl

end StartState

end Slopdex.Turn.Starts

namespace Slopdex.Turn.Moves

open Protocol Turn.Claims Turn.Starts
open Join.Mailbox (TurnInput)

/-- How a start can lose what it holds: by cancellation, by a commit that refuses the mail, by an
abort, or by a running task that takes the input queued for the turn. -/
inductive Disturbance
  | abandon
  | refuse (reports : Bool)
  | abort
  | kill
  | drain

structure Follows (s : StartState) (x : Contender) (stage : Stage) : Prop where
  holding : stage.holding = x.stage.holding
  active : x.stage ≠ .returning
  unwoken : x.stage.isWoken = false
  next : stage ≠ .returning
  unreserved : stage.isReserved = false
  silent : stage.silent = false
  turnState : ∀ t, stage.turnState = some t → x.stage.turnState = some t ∨
    ∃ turn claim, s.active = some turn ∧ x.claim = some claim ∧
      turn.tasklessStartClaim = some claim ∧ turn.turnState = t
  detached : stage.detached = true → ¬ s.Owns x
  inSlot : stage.inSlot = true → x.stage.inSlot = true ∨ x.stage.silent = true
  ready : stage.ready = true → x.stage.ready = true ∨ x.stage.silent = true ∨
    ∃ t, x.stage.turnState = some t ∧ x.origin.queuedInput ⊆ s.pendingInput t
  outcome : ∀ turnId, stage.outcome = some (.started turnId) →
    x.stage.outcome = some (.started turnId)

structure Enters (s : StartState) (x : Contender) (reservation : AgentExecutionReservation)
    (stage : Stage) : Prop where
  holding : stage.holding = reservation
  turnState : stage.turnState = some ⟨s.nextTurnState⟩
  detached : stage.detached = false
  silent : stage.silent = false
  ready : stage.ready = true → x.origin.reports = false
  outcome : stage.outcome = none

inductive Move (allowed : Disturbance → Prop) : StartState → StartState → Prop
  | follow {s i x stage} (hx : s.contenders[i]? = some x) (hfollows : Follows s x stage) :
      Move allowed s (s.setStage i x stage)
  | newPermit {s i x} (hx : s.contenders[i]? = some x) (hactive : x.stage ≠ .returning)
      (hholding : x.stage.holding = ⟨none, none⟩) :
      Move allowed s ({ s with nextPermit := s.nextPermit + 1 }.setStage i x
        (.reserved ⟨some ⟨s.nextPermit⟩, none⟩))
  | newClaim {s i x} (hx : s.contenders[i]? = some x) (hactive : x.stage ≠ .returning)
      (hclaim : x.claim = none) :
      Move allowed s (s.newClaim.setStage i x (.reserved ⟨x.guard, some ⟨s.nextClaim⟩⟩))
  | place {s i x reservation claim stage} (hx : s.contenders[i]? = some x)
      (hstage : x.stage = .reserved reservation) (howner : reservation.tasklessClaimOwner = some claim)
      (hactive : s.active = none) (henters : Enters s x reservation stage) :
      Move allowed s ((s.place (.withTasklessStartClaim ⟨s.nextTurnState⟩ claim)).setStage i x stage)
  | placeWake {s i x guard claim} (hx : s.contenders[i]? = some x)
      (hstage : x.stage = .reserved ⟨guard, some claim⟩) (hactive : s.active = none)
      (hreports : x.origin.reports = false) :
      Move allowed s ((s.place (.withPendingWakeReservation ⟨s.nextTurnState⟩ ⟨guard, none⟩
        claim)).setStage i x (.woken claim ⟨s.nextTurnState⟩))
  | takeWake {s i x turn reservation} (hx : s.contenders[i]? = some x)
      (hactive : x.stage ≠ .returning) (hholding : x.stage.holding = ⟨none, none⟩)
      (hturn : s.active = some turn) (htask : turn.task = none)
      (hwake : turn.pendingWakeStart = some ⟨some reservation, false⟩) :
      Move allowed s ({ s with active := none }.setStage i x (.reserved ⟨reservation.guard, none⟩))
  | commitWake {s i x claim turn reservation} (hx : s.contenders[i]? = some x)
      (hstage : x.stage = .woken claim turn.turnState) (hturn : s.active = some turn)
      (hwake : turn.pendingWakeStart = some ⟨some reservation, false⟩) :
      Move allowed s ({ s with
        active := some { turn with pendingWakeStart := some ⟨none, true⟩ } }.setStage i x
          (.beginning { reservation with tasklessClaimOwner := some claim }))
  | giveUp {s i x} (hx : s.contenders[i]? = some x) (hslot : x.stage.inSlot = true)
      (hlost : s.Owns x → allowed (.refuse x.origin.reports)) :
      Move allowed s ((s.dropReservation x.stage.holding).setStage i x .returning)
  | quit {s i x} (hx : s.contenders[i]? = some x) (hlost : s.Owns x → allowed .abandon) :
      Move allowed s ((s.dropReservation x.stage.holding).leave i)
  | clear {s turn} (hturn : s.active = some turn) (htask : turn.task = none)
      (hfree : ∀ x ∈ s.contenders, s.Owns x → x.origin.reports = true → allowed .abort) :
      Move allowed s s.clearActive
  | clearOwn {s i x reservation outcome turn} (hx : s.contenders[i]? = some x)
      (hstage : x.stage = .clearing reservation turn.turnState outcome)
      (hturn : s.active = some turn) (htask : turn.task = none) :
      Move allowed s (s.clearActive.setStage i x (.leaving reservation outcome))
  | abortTask {s turn task} (hturn : s.active = some turn) (htask : turn.task = some task) :
      Move allowed s { s with active := none, aborting := s.aborting ++ [⟨task, turn.turnState⟩] }
  | finishAbort {s i aborted} (haborted : s.aborting[i]? = some aborted)
      (hkill : ∀ finisher ∈ s.finishers, finisher.runner = aborted.task.runner →
        ∀ turn, s.active = some turn → turn.task = none → turn.turnState = finisher.turnState →
          allowed .kill) :
      Move allowed s (s.finishAbort i aborted)
  | takeTask {s turn task} (runner : ℕ) (hturn : s.active = some turn)
      (htask : turn.task = some task) : Move allowed s (s.takeFinishedTask runner turn task)
  | endFinisher {s i finisher} (hfinisher : s.finishers[i]? = some finisher)
      (hdone : ∀ turn, s.active = some turn → turn.task = none →
        turn.turnState ≠ finisher.turnState) :
      Move allowed s { s with finishers := s.finishers.eraseIdx i }
  | enter {s} (origin : Origin) (subId : TurnId) (kind : TaskKind) :
      Move allowed s (s.submit origin subId kind ⟨none, none⟩)
  | enterWithPermit {s} (input : List TurnInput) (subId : TurnId) (kind : TaskKind) :
      Move allowed s ({ s with nextPermit := s.nextPermit + 1 }.submit (.spawn input) subId kind
        ⟨some ⟨s.nextPermit⟩, none⟩)
  | install {s i x guard claim turn} (runner : ℕ) (items : List TurnInput)
      (hx : s.contenders[i]? = some x) (hstage : x.stage = .committing guard claim turn.turnState)
      (hturn : s.active = some turn) (htask : turn.task = none)
      (hclaim : turn.tasklessStartClaim = some claim) :
      Move allowed s (s.installTask i x guard claim turn runner items)
  | extend {s} (turnState : TurnStateRef) (items : List TurnInput) :
      Move allowed s (s.extendPendingInput turnState items)
  | drain {s turn} (hturn : s.active = some turn)
      (hdrain : ∀ x ∈ s.contenders, s.Owns x → x.origin.queuedInput ≠ [] → allowed .drain) :
      Move allowed s (s.clearPending turn.turnState)

def Sequence (allowed : Disturbance → Prop) : StartState → StartState → Prop :=
  Relation.ReflTransGen (Move allowed)

end Slopdex.Turn.Moves
