import Slopdex.Turn.Contention

/-!
# Every step of the session is a sequence of moves

The bookkeeping decides what the checks of the program mean: a contender that does not find its claim
in the slot has lost its turn, and a slot that the program takes for a leftover is nobody's turn.
-/

namespace Slopdex.Turn.Steps

open Protocol Library.FirstMatch Join.Mailbox Turn.Claims Turn.Starts Turn.Moves Turn.Contention
  StartState
open Relation.ReflTransGen (head single)
open Option (some any_eq_true isNone_iff_eq_none bind_eq_some_iff map_eq_some_iff)
open Option Bool Contender Stage Session

variable {capacity : Capacity} {guard : Option PermitId} {reservation : AgentExecutionReservation}
  {s₁ : StartState} {turnState : TurnStateRef}

/-- Whether a step takes from a start what it still holds. -/
def disturbs (s : Session) : Action → Disturbance → Bool
  | .cancel index, .abandon => (s.contenders[index]?).any fun x ↦ s.Owns x
  | .advance index _ _, .refuse reports =>
    (s.contenders[index]?).any fun x ↦ x.origin.reports == reports && decide (s.Owns x) &&
      match x.stage with
      | .committing _ _ turnState => (commitStartupMailbox s.queue x.subId turnState).isNone
      | _ => false
  | .advance index _ _, .abort =>
    ((s.contenders[index]?).any fun x ↦ match x.stage with
      | .replacing _ => true
      | _ => false) && s.contenders.any fun x ↦ x.origin.reports && decide (s.Owns x)
  | .abortAllTasks, .abort => s.contenders.any fun x ↦ x.origin.reports && decide (s.Owns x)
  | .finishAbort index _, .kill =>
    (s.aborting[index]?).any fun aborted ↦ s.finishers.any fun finisher ↦
      finisher.runner == aborted.task.runner &&
        s.active.any fun turn ↦ turn.task.isNone && turn.turnState == finisher.turnState
  | .getPendingInput .., .drain =>
    s.contenders.any fun x ↦ !x.origin.queuedInput.isEmpty && decide (s.Owns x)
  | _, _ => false

section Sequences

variable {allowed : Disturbance → Prop} {s : StartState} {x : Contender} {i : ℕ} {stage : Stage}
  {turn : ActiveTurn}

section

variable (hx : s.contenders[i]? = some x)
include hx

theorem getElem?_setStage (stage : Stage) :
    (s.setStage i x stage).contenders[i]? = some { x with stage } := by
  obtain ⟨hlt, -⟩ := List.getElem?_eq_some_iff.mp hx
  simp [setStage, hlt]

theorem sequence_leave (hh : x.stage.holding = ⟨none, none⟩) : Sequence allowed s (s.leave i) := by
  have hq : Move allowed _ _ := .quit hx fun ⟨c, hc, _⟩ ↦ by
    simp [claim, hh] at hc
  rw [hh, dropReservation_none] at hq
  exact .single hq

section

variable (hactive : x.stage ≠ .returning)
include hactive

theorem sequence_claim (hc : x.claim = none) (hg : x.guard = guard) :
    Sequence allowed s (s.newClaim.setStage i x (.reserved ⟨guard, some ⟨s.nextClaim⟩⟩)) := by
  subst hg
  exact .single (.newClaim hx hactive hc)

theorem sequence_claimTurn (hc : x.claim = none) (hg : x.guard = guard)
    (hem : s.active = none) (he : Enters s x ⟨guard, some ⟨s.nextClaim⟩⟩ stage) :
    Sequence allowed s
      ((s.newClaim.place (.withTasklessStartClaim ⟨s.nextTurnState⟩ ⟨s.nextClaim⟩)).setStage i x
        stage) := by
  have hp := @Move.place allowed _ _ _ _ _ stage
    (getElem?_setStage (s := s.newClaim) hx (.reserved ⟨guard, some ⟨s.nextClaim⟩⟩)) rfl rfl hem
    ⟨he.holding, he.turnState, he.detached, he.silent, he.ready,
      he.outcome⟩
  have hs := (sequence_claim hx hactive hc hg).tail hp
  simpa [Sequence, setStage, place, newClaim] using hs

theorem sequence_reserve (hh : x.stage.holding = ⟨none, none⟩)
    (hr : s.reserveExecutionCapacity capacity = some (s₁, guard)) :
    ∃ stage, stage ≠ .returning ∧ stage.holding = ⟨guard, none⟩ ∧ s₁.contenders = s.contenders ∧
      s₁.active = s.active ∧ Sequence allowed s (s₁.setStage i x stage) := by
  cases capacity with
  | refused => simp [reserveExecutionCapacity] at hr
  | unlimited =>
    simp only [reserveExecutionCapacity, some.injEq, Prod.mk.injEq] at hr
    obtain ⟨rfl, rfl⟩ := hr
    obtain ⟨hlt, hg⟩ := List.getElem?_eq_some_iff.mp hx
    have hse : s.contenders.set i { x with stage := x.stage } = s.contenders := by
      rw [← hg]
      exact List.set_getElem_self hlt
    have hs : s.setStage i x x.stage = s := by
      rw [setStage, hse]
    exact ⟨x.stage, hactive, hh, rfl, rfl, hs.symm ▸ .refl⟩
  | limited =>
    simp only [reserveExecutionCapacity] at hr
    obtain ⟨rfl, rfl⟩ := hr
    exact ⟨_, by simp, rfl, rfl, rfl, .single (.newPermit hx hactive hh)⟩

theorem sequence_reserve_claim (hh : x.stage.holding = ⟨none, none⟩)
    (hr : s.reserveExecutionCapacity capacity = some (s₁, guard)) :
    s₁.active = s.active ∧
      (s₁.newClaim.setStage i x (.reserved ⟨guard, some ⟨s₁.nextClaim⟩⟩)).contenders[i]? =
        some { x with stage := .reserved ⟨guard, some ⟨s₁.nextClaim⟩⟩ } ∧
      Sequence allowed s (s₁.newClaim.setStage i x (.reserved ⟨guard, some ⟨s₁.nextClaim⟩⟩)) := by
  obtain ⟨stage₁, hs₁, hh₁, hc, hsl, hs⟩ :=
    sequence_reserve hx hactive hh hr
  have hx₁ : s₁.contenders[i]? = some x := hc ▸ hx
  have hg : Contender.guard { x with stage := stage₁ } = guard := by
    simp [Contender.guard, hh₁]
  have hcl : Sequence allowed _ _ := sequence_claim (getElem?_setStage hx₁ stage₁) hs₁
    (by simp [Contender.claim, hh₁]) hg
  have hb : Sequence allowed s _ := hs.trans hcl
  refine ⟨hsl, getElem?_setStage (s := s₁.newClaim) hx₁ _, ?_⟩
  simpa [Sequence, setStage, newClaim] using hb

end

end

end Sequences

/-! ## The steps of a contender -/

attribute [local simp] holding turnState detached isReserved isWoken inSlot ready outcome silent

section Contenders

variable {allowed : Disturbance → Prop} {s : StartState} {x : Contender} {i : ℕ} {turn : ActiveTurn}

/-- Between its tries a user start has nothing in its hands. -/
theorem sequence_retry {stage : Stage} (hx : s.contenders[i]? = some x)
    (hh : x.stage.holding = ⟨none, none⟩) (hactive : x.stage ≠ .returning)
    (hs : stage = .steering ∨ stage = .claiming ∨ ∃ claim, stage = .waiting claim) :
    Sequence allowed s (s.setStage i x stage) := by
  have hu : x.stage.isWoken = false := by
    cases hs : x.stage <;> simp_all
  refine .single (.follow hx ?_)
  obtain rfl | rfl | ⟨_, rfl⟩ := hs
  all_goals
    exact ⟨hh.symm, hactive, hu, by simp, rfl, rfl, by simp, by simp, by simp, by simp,
      by simp⟩

theorem sequence_steerInput (hx : s.contenders[i]? = some x) (hs : x.stage = .steering)
    (request : TurnInputRequest) (choice : Choice) :
    Sequence allowed s (s.steerInput i x request choice).1 := by
  have hh : x.stage.holding = ⟨none, none⟩ := by rw [hs]; rfl
  have hr : Sequence allowed s (s.setStage i x .claiming) :=
    sequence_retry hx hh (by simp [hs]) (by simp)
  unfold steerInput
  split
  · exact hr
  next turn _ =>
    split
    · exact hr
    · split
      · exact sequence_leave hx hh
      · split
        · exact sequence_leave hx hh
        · split
          · exact sequence_leave hx hh
          · exact head (.extend turn.turnState (request.additionalContext ++ [request.input]))
              (sequence_leave hx hh)

theorem sequence_claimEmptySlot (hx : s.contenders[i]? = some x) (hst : x.stage = .claiming)
    (he : s.active = none) (choice : Choice) :
    Sequence allowed s (s.claimEmptySlot i x choice).1 := by
  have hh : x.stage.holding = ⟨none, none⟩ := by rw [hst]; rfl
  unfold claimEmptySlot
  split
  · exact sequence_leave hx hh
  next s₁ guard hr =>
    obtain ⟨hs, hx₁, hc⟩ : _ ∧ _ ∧ Sequence allowed s _ :=
      sequence_reserve_claim hx (by simp [hst]) hh hr
    have hp := hc.tail (@Move.place allowed _ _ _ _ _
      (.starting ⟨guard, some ⟨s₁.nextClaim⟩⟩ ⟨s₁.nextTurnState⟩) hx₁ rfl rfl
      (hs.trans he) ⟨rfl, rfl, rfl, rfl, by simp, rfl⟩)
    simpa [Sequence, setStage, place, newClaim, claimTurn, goOn] using hp

theorem takePendingWakeReservationForUser_cases (hs : SlotInvariant s turn) :
    turn.takePendingWakeReservationForUser = (turn, none) ∨
      ∃ reservation, turn.pendingWakeStart = some ⟨some reservation, false⟩ ∧
        turn.takePendingWakeReservationForUser.2 = some reservation := by
  unfold ActiveTurn.takePendingWakeReservationForUser
  cases hw : turn.pendingWakeStart with
  | none => exact .inl rfl
  | some pending =>
    cases hc : pending.committed with
    | true => exact .inl (by simp [hc])
    | false =>
      obtain ⟨reservation, hr⟩ := hs.wake_reservation pending hw hc
      refine .inr ⟨reservation, ?_, by simp [hc, hr]⟩
      obtain ⟨_, _⟩ := pending
      simp_all

theorem sequence_takeWake
    (hx : s.contenders[i]? = some x) (hs : x.stage = .claiming) (ht : s.active = some turn)
    (hta : turn.task = none)
    (hw : turn.pendingWakeStart = some ⟨some reservation, false⟩) :
    Sequence allowed s ({ s with active := none }.claimTurn i x reservation.guard).1 := by
  have htak : Move allowed s _ := .takeWake hx (by simp [hs])
    (by rw [hs]; rfl) ht hta hw
  have hx₁ := getElem?_setStage (s := { s with active := none }) hx
    (.reserved ⟨reservation.guard, none⟩)
  have he : Enters ({ s with active := none }.setStage i x (.reserved ⟨reservation.guard, none⟩))
      { x with stage := .reserved ⟨reservation.guard, none⟩ }
      ⟨reservation.guard, some ⟨s.nextClaim⟩⟩
      (.starting ⟨reservation.guard, some ⟨s.nextClaim⟩⟩ ⟨s.nextTurnState⟩) :=
    ⟨rfl, rfl, rfl, rfl, by simp, rfl⟩
  have hc : Sequence allowed _ _ := sequence_claimTurn hx₁ (by simp) rfl rfl rfl he
  have hb : Sequence allowed s _ := head htak hc
  simpa [Sequence, claimTurn, goOn, setStage, place, newClaim] using hb

theorem sequence_claimExecutionCapacityForUserTurnStart (h : StartInvariant s)
    (hx : s.contenders[i]? = some x) (hst : x.stage = .claiming) (choice : Choice) :
    Sequence allowed s (s.claimExecutionCapacityForUserTurnStart i x choice).1 := by
  have hh : x.stage.holding = ⟨none, none⟩ := by rw [hst]; rfl
  have hr : ∀ stage, (stage = .steering ∨ stage = .claiming ∨ ∃ claim, stage = .waiting claim) →
      Sequence allowed s (s.setStage i x stage) :=
    fun stage ↦ sequence_retry hx hh (by simp [hst])
  unfold claimExecutionCapacityForUserTurnStart
  split
  next he => exact sequence_claimEmptySlot hx hst he choice
  next turn htu =>
    have hcl : (∀ y ∈ s.contenders, ¬ s.Owns y) → turn.task = none →
        Sequence allowed s (s.clearActive.claimEmptySlot i x choice).1 := by
      intro hf ht
      apply head (.clear htu ht fun y hy ho ↦ absurd ho (hf y hy))
      exact sequence_claimEmptySlot (s := s.clearActive) hx hst rfl choice
    split
    · exact hr .steering (by simp)
    next ht =>
      have ht : turn.task = none := by simpa using ht
      split
      next hclaim =>
        apply hcl _ ht
        intro y _ ho
        obtain ⟨c, -, hc⟩ := (owns_iff htu).mp ho
        simp [hclaim] at hc
      next claim hclaim =>
        split
        next hca =>
          -- A contender that has the claim would have it undecided.
          apply hcl _ ht
          intro y hy ho
          obtain ⟨c, hyc, hc⟩ := (owns_iff htu).mp ho
          obtain rfl := mem_unique hclaim hc
          simp [(h.each y hy).claim_starting claim hyc] at hca
        · exact hr .steering (by simp)
        · obtain hn | ⟨reservation, hw, hs⟩ :=
            takePendingWakeReservationForUser_cases (h.slot turn htu)
          · rw [hn]
            have hsa : { s with active := some turn } = s := by rw [← htu]
            simp only [hsa]
            exact hr (.waiting claim) (by simp)
          · rw [← Prod.mk.eta (p := turn.takePendingWakeReservationForUser), hs]
            exact sequence_takeWake hx hst htu ht hw

theorem sequence_probe (hx : s.contenders[i]? = some x) (hs : x.stage = .probing)
    (kind : TurnStartKind) (queue : InputQueue) (choice : Choice) :
    Sequence allowed s (s.probe i x kind queue choice).1 := by
  have hh : x.stage.holding = ⟨none, none⟩ := by rw [hs]; rfl
  unfold probe
  split
  · exact sequence_leave hx hh
  · split
    · exact sequence_leave hx hh
    · split
      · exact sequence_leave hx hh
      next hr =>
        exact (sequence_reserve_claim hx (by simp [hs]) hh hr).2.2

theorem sequence_quit (h : StartInvariant s) (hx : s.contenders[i]? = some x)
    (hd : x.stage.detached = true) :
    Sequence allowed s ((s.dropReservation x.stage.holding).leave i) :=
  .single (.quit hx fun ho ↦ absurd ho ((h.of_getElem? hx).detached hd))

theorem sequence_claimIfIdle (h : StartInvariant s)
    (hx : s.contenders[i]? = some x) (hs : x.stage = .reserved reservation) :
    Sequence allowed s (s.claimIfIdle i x reservation).1 := by
  have hq : Sequence allowed _ _ := sequence_quit h hx (by rw [hs]; rfl)
  rw [hs] at hq
  unfold claimIfIdle
  split
  next he ho =>
    exact .single (.place hx hs ho he ⟨rfl, rfl, rfl, rfl, by simp, rfl⟩)
  · exact hq

theorem sequence_recheck
    (hx : s.contenders[i]? = some x) (hs : x.stage = .rechecking reservation turnState)
    (queue : InputQueue) : Sequence allowed s (s.recheck i x reservation turnState queue).1 := by
  unfold recheck
  split
  all_goals
    refine .single (.follow hx ?_)
    constructor <;> simp [hs]

theorem sequence_applyStarted
    (hx : s.contenders[i]? = some x) (hs : x.stage = .starting reservation turnState)
    (settings : Settings) :
    Sequence allowed s (s.applyStarted i x reservation turnState settings).1 := by
  cases settings with
  | applied =>
    refine head (.extend turnState x.origin.queuedInput) (.single (.follow hx ?_))
    constructor <;> simp [hs, extendPendingInput]
  | planMode | failed =>
    refine .single (.follow hx ?_)
    constructor <;> simp [hs]

section

variable (h : StartInvariant s)
include h

theorem task_of_owns (ht : s.active = some turn) (ho : s.Owns x) : turn.task = none := by
  obtain ⟨c, -, hc⟩ := (owns_iff ht).mp ho
  by_contra hta
  have hn := (h.slot turn ht).task_claim hta
  simp [hn] at hc

section

variable (hx : s.contenders[i]? = some x)
include hx

theorem turnState_of_owns (hs : x.stage.turnState = some turnState)
    (ht : s.active = some turn) (ho : s.Owns x) : turn.turnState = turnState := by
  obtain ⟨c, hxc, hc⟩ := (owns_iff ht).mp ho
  exact ((h.of_getElem? hx).bound c turnState turn hxc hs ht).mp hc

theorem sequence_clearReservedIdleTurn {outcome : Outcome}
    (hst : x.stage = .clearing reservation turnState outcome) :
    Sequence allowed s
      ((s.clearReservedIdleTurn turnState).setStage i x (.leaving reservation outcome)) := by
  unfold clearReservedIdleTurn
  split
  next how =>
    obtain ⟨_, ht, hm⟩ := (any_eq_true _ _).mp how
    rw [and_eq_true, beq_iff_eq, isNone_iff_eq_none] at hm
    exact .single (.clearOwn hx (by rw [hst, hm.2]) ht hm.1)
  next hn =>
    refine .single (.follow hx ?_)
    constructor <;> try simp [hst]
    intro ho
    apply hn
    obtain ⟨c, -, hsl⟩ := id ho
    obtain ⟨_, ht, -⟩ := bind_eq_some_iff.mp hsl
    have hs := turnState_of_owns h hx (by rw [hst]; rfl) ht ho
    simp [ht, task_of_owns h ht ho, hs]

theorem sequence_claimForWake (hst : x.stage = .waking) (queue : InputQueue) (choice : Choice) :
    Sequence allowed s (s.claimForWake i x queue choice) := by
  have hh : x.stage.holding = ⟨none, none⟩ := by rw [hst]; rfl
  unfold claimForWake
  split
  next hi =>
    rw [and_eq_true, isNone_iff_eq_none] at hi
    split
    · exact sequence_leave hx hh
    next hr =>
      obtain ⟨hs, hx₁, hc⟩ : _ ∧ _ ∧ Sequence allowed s _ :=
        sequence_reserve_claim hx (by simp [hst]) hh hr
      have hp := hc.tail (.placeWake hx₁ rfl (hs.trans hi.2)
        ((h.of_getElem? hx).silent (by rw [hst]; rfl)))
      simpa [Sequence, setStage, place, newClaim] using hp
  · exact sequence_leave hx hh

theorem sequence_commitWake {claim : ClaimId} (hst : x.stage = .woken claim turnState) :
    Sequence allowed s (s.commitWake i x claim turnState) := by
  have hse := h.of_getElem? hx
  have hcl : x.claim = some claim := by rw [Contender.claim, hst]; rfl
  have hs : x.stage.turnState = some turnState := by rw [hst]; rfl
  have hl : ¬ s.Owns x → Sequence allowed s ((s.setStatus claim .cancelled).leave i) := by
    intro ho
    have hq : Move allowed _ _ := .quit hx fun how ↦ absurd how ho
    rw [← dropStage_eq, hst] at hq
    exact .single hq
  unfold commitWake
  split
  next he => exact hl (not_owns_of_empty he)
  next turn ht =>
    split
    next hot =>
      apply hl
      intro ho
      obtain hta | hne := hot
      · simp [task_of_owns h ht ho] at hta
      · exact hne (turnState_of_owns h hx hs ht ho)
    next how =>
      -- The turn is the wake's own, so its reservation is still in it.
      push Not at how
      have hsl := (hse.bound claim turnState turn hcl hs ht).mpr how.2
      obtain ⟨reservation, hw⟩ := hse.woken claim turnState turn hst ht hsl
      have hc : turn.commitPendingWake =
          ({ turn with pendingWakeStart := some ⟨none, true⟩ }, some reservation) := by
        simp [ActiveTurn.commitPendingWake, hw]
      rw [hc]
      exact .single (.commitWake hx (by rw [hst, how.2]) ht hw)

end

end

theorem sequence_takeActiveTurn
    (hf : ∀ y ∈ s.contenders, s.Owns y → y.origin.reports = true → allowed .abort) :
    Sequence allowed s s.takeActiveTurn := by
  unfold takeActiveTurn
  split
  · exact .refl
  next htu =>
    split
    next ht => exact .single (.clear htu ht hf)
    next ht => exact .single (.abortTask htu ht)

theorem contenders_takeActiveTurn : s.takeActiveTurn.contenders = s.contenders := by
  unfold takeActiveTurn
  split
  · rfl
  · split <;> rfl

theorem sequence_replace (hx : s.contenders[i]? = some x) (hs : x.stage = .replacing reservation)
    (hf : ∀ y ∈ s.contenders, s.Owns y → y.origin.reports = true → allowed .abort) :
    Sequence allowed s (s.takeActiveTurn.setStage i x (.beginning reservation)) := by
  have ht : Sequence allowed s s.takeActiveTurn := sequence_takeActiveTurn hf
  have hx' : s.takeActiveTurn.contenders[i]? = some x := by
    rw [contenders_takeActiveTurn]
    exact hx
  refine ht.tail (.follow hx' ?_)
  constructor <;> simp [hs]

theorem sequence_beginTask (h : StartInvariant s)
    (hx : s.contenders[i]? = some x) (hst : x.stage = .beginning reservation) :
    Sequence allowed s (s.beginTask i x reservation) := by
  have hcl : x.claim = reservation.tasklessClaimOwner := by rw [claim, hst]; rfl
  have hl : ¬ s.Owns x →
      Sequence allowed s ((s.dropReservation reservation).setStage i x .returning) := by
    intro how
    have hg : Move allowed s _ := .giveUp hx (by rw [hst]; rfl) fun hown ↦ absurd hown how
    rw [hst] at hg
    exact .single hg
  unfold beginTask
  split
  next claim turn ho htu =>
    split
    next hown =>
      have hh : (⟨reservation.guard, some claim⟩ : AgentExecutionReservation) =
          x.stage.holding := by
        rw [hst, ← ho]
        rfl
      refine .single (.follow hx ?_)
      exact {
        holding := hh
        active := by simp [hst]
        unwoken := by rw [hst]; rfl
        next := by simp
        unreserved := rfl
        silent := rfl
        turnState := fun t ht ↦
          .inr ⟨turn, claim, htu, hcl.trans ho, hown.2, some.inj ht⟩
        detached := by simp
        inSlot := fun _ ↦ .inl (by rw [hst]; rfl)
        ready := fun _ ↦ .inl (by rw [hst]; rfl)
        outcome := by simp }
    next hot =>
      apply hl
      intro how
      apply hot
      obtain ⟨c, hc, hs⟩ := (owns_iff htu).mp how
      refine ⟨by simp [task_of_owns h htu how], ?_⟩
      rw [hs, ← hc, hcl, ho]
  next ho he =>
    -- Only a start without a caller begins without a claim.
    have hr : x.origin.reports = false := by
      by_contra hr
      obtain ⟨c, hc⟩ := (h.of_getElem? hx).reports_claim (by simpa using hr) (by rw [hst]; rfl)
      simp [hcl, ho] at hc
    exact sequence_claimTurn hx (by simp [hst]) (hcl.trans ho)
      (by rw [Contender.guard, hst]; rfl) he ⟨rfl, rfl, rfl, rfl, fun _ ↦ hr, rfl⟩
  next hm₁ _ =>
    apply hl
    intro how
    obtain ⟨c, hc, hs⟩ := id how
    obtain ⟨turn, htu, -⟩ := bind_eq_some_iff.mp hs
    exact hm₁ c turn (hcl ▸ hc) htu

end Contenders

/-! ## The steps of the session -/

section Sessions

variable {allowed : Disturbance → Prop} {s s' : Session} {x : Contender} {i : ℕ}

theorem sequence_commitTask {claim : ClaimId}
    (h : StartInvariant s.toStartState) (hx : s.contenders[i]? = some x)
    (hstg : x.stage = .committing guard claim turnState)
    (hr : s.Owns x → commitStartupMailbox s.queue x.subId turnState = none →
      allowed (.refuse x.origin.reports)) :
    Sequence allowed s.toStartState (s.commitTask i x guard claim turnState).toStartState := by
  have hcl : x.claim = some claim := by rw [Contender.claim, hstg]; rfl
  have hst : x.stage.turnState = some turnState := by rw [hstg]; rfl
  have hl : (s.Owns x → allowed (.refuse x.origin.reports)) → Sequence allowed s.toStartState
      ((s.dropReservation ⟨guard, some claim⟩).setStage i x .returning) := by
    intro ho
    have hg := Move.giveUp hx (by rw [hstg]; rfl) ho
    rw [hstg] at hg
    exact .single hg
  unfold commitTask
  split
  next he => exact hl fun ho ↦ absurd ho (not_owns_of_empty he)
  next ht =>
    split
    next hm =>
      simp only [ActiveTurn.matchesTasklessTurn, and_eq_true, beq_iff_eq,
        isNone_iff_eq_none] at hm
      obtain ⟨⟨hta, rfl⟩, hs⟩ := hm
      split
      next hre => exact hl fun ho ↦ hr ho hre
      next items _ _ =>
        exact .single (.install s.nextRunner items hx hstg ht hta hs)
    next hot =>
      apply hl
      intro ho
      exfalso
      apply hot
      obtain ⟨c, hc, hs⟩ := (owns_iff ht).mp ho
      obtain rfl := mem_unique hcl hc
      simp [ActiveTurn.matchesTasklessTurn, task_of_owns h ht ho,
        turnState_of_owns h hx hst ht ho, hs]

theorem sequence_advance {choice : Choice} {wakeSubId : TurnId}
    (h : StartInvariant s.toStartState) (hx : s.contenders[i]? = some x)
    (ha : ∀ d, disturbs s (.advance i choice wakeSubId) d = true → allowed d)
    (hs : s.advance i x choice wakeSubId = some s') :
    Sequence allowed s.toStartState s'.toStartState := by
  unfold advance at hs
  cases hst : x.stage with simp only [hst] at hs
  | steering =>
    split at hs
    next request _ =>
      split at hs <;> cases hs
      · exact sequence_steerInput hx hst request choice
      · exact sequence_leave hx (by rw [hst]; rfl)
    next => cases hs
  | claiming =>
    cases hs
    exact sequence_claimExecutionCapacityForUserTurnStart h hx hst choice
  | waiting =>
    split at hs
    · cases hs
    · cases hs
      exact sequence_retry hx (by rw [hst]; rfl) (by simp [hst]) (by simp)
  | probing =>
    obtain ⟨kind, -, rfl⟩ := map_eq_some_iff.mp hs
    exact sequence_probe hx hst kind s.queue choice
  | reserved =>
    cases hs
    exact sequence_claimIfIdle h hx hst
  | rechecking =>
    cases hs
    exact sequence_recheck hx hst s.queue
  | starting =>
    split at hs
    · cases hs
    · cases hs
      exact sequence_applyStarted hx hst choice.settings
  | clearing =>
    cases hs
    have hc : Sequence allowed s.toStartState _ := sequence_clearReservedIdleTurn h hx hst
    split
    · exact hc.tail (.enter .wake wakeSubId .regular)
    · exact hc
  | leaving =>
    cases hs
    have hq : Sequence allowed _ _ := sequence_quit h hx (by rw [hst]; rfl)
    rw [hst] at hq
    exact hq
  | waking =>
    cases hs
    exact sequence_claimForWake h hx hst s.queue choice
  | woken =>
    cases hs
    exact sequence_commitWake h hx hst
  | replacing =>
    cases hs
    apply sequence_replace hx hst
    intro y hy ho hre
    apply ha
    simp only [disturbs, hx, any_some, hst, Bool.true_and, List.any_eq_true]
    exact ⟨y, hy, by simp [hre, ho]⟩
  | beginning =>
    cases hs
    exact sequence_beginTask h hx hst
  | committing =>
    cases hs
    apply sequence_commitTask h hx hst
    intro ho hr
    apply ha
    simp [disturbs, hx, ho, hst, hr]
  | returning =>
    have hl : Sequence allowed _ _ := sequence_leave hx (by rw [hst]; rfl)
    split at hs
    all_goals
      cases hs
      exact hl

theorem sequence_submit {origin : Starts.Origin} {subId : TurnId} {kind : TaskKind}
    (hs : s.submit origin subId kind capacity = some s') :
    Sequence allowed s.toStartState s'.toStartState := by
  unfold Session.submit at hs
  split at hs
  next input =>
    cases capacity with
    | refused => simp [reserveExecutionCapacity] at hs
    | unlimited =>
      cases hs
      exact .single (.enter (.spawn input) subId kind)
    | limited =>
      cases hs
      exact .single (.enterWithPermit input subId kind)
  next =>
    cases hs
    exact .single (.enter origin subId kind)

theorem sequence_clearFinished {finisher : Finisher} (wakeSubId : TurnId)
    (h : StartInvariant s.toStartState) (hf : s.finishers[i]? = some finisher) :
    Sequence allowed s.toStartState (s.clearFinished i finisher wakeSubId).toStartState := by
  unfold clearFinished
  split
  next how =>
    obtain ⟨turn, ht, hm⟩ := (any_eq_true _ _).mp how
    rw [and_eq_true, beq_iff_eq, isNone_iff_eq_none] at hm
    have hn := (h.slot turn ht).installed_claim
      (hm.2 ▸ h.finishers finisher (List.mem_of_getElem? hf))
    have hcl : Move allowed _ _ := .clear ht hm.1 fun y _ ho ↦ by
      obtain ⟨c, -, hc⟩ := (owns_iff ht).mp ho
      simp [hn] at hc
    have he : Move allowed (clearActive _) _ := .endFinisher hf fun turn ht ↦ by cases ht
    exact ((single hcl).tail he).tail (.enter .wake wakeSubId .regular)
  next hno =>
    refine .single (.endFinisher hf fun turn ht hta hs ↦ hno ?_)
    simp [ht, hta, hs]

theorem sequence_finishAbort {aborted : Aborting} {wakeSubId : Option TurnId}
    (ha : s.aborting[i]? = some aborted)
    (hal : ∀ d, disturbs s (.finishAbort i wakeSubId) d = true → allowed d) :
    Sequence allowed s.toStartState (s.toStartState.finishAbort i aborted) := by
  refine .single (.finishAbort ha ?_)
  intro finisher hf hr _ ht hta hs
  apply hal
  simp only [disturbs, ha, any_some, List.any_eq_true]
  exact ⟨finisher, hf, by simp [hr, ht, hta, hs]⟩

theorem sequence_getPendingInput {runner : ℕ} {accepts : Bool}
    (ha : ∀ d, disturbs s (.getPendingInput runner accepts) d = true → allowed d)
    (hs : s.getPendingInput accepts = some s') :
    Sequence allowed s.toStartState s'.toStartState := by
  obtain ⟨⟨_, _, _⟩, -, rfl⟩ := map_eq_some_iff.mp hs
  dsimp only
  split
  next ht =>
    split
    · exact .refl
    · refine .single (.drain ht ?_)
      intro x hx ho hq
      apply ha
      simp only [disturbs, List.any_eq_true]
      exact ⟨x, hx, by simp [hq, ho]⟩
  · exact .refl

theorem sequence_step {a : Action} (h : StartInvariant s.toStartState)
    (ha : ∀ d, disturbs s a d = true → allowed d) (hs : s.step a = some s') :
    Sequence allowed s.toStartState s'.toStartState := by
  cases a with
  | submit => exact sequence_submit hs
  | advance =>
    obtain ⟨x, hx, had⟩ := bind_eq_some_iff.mp hs
    exact sequence_advance h hx ha had
  | cancel =>
    obtain ⟨x, hx, rfl⟩ := map_eq_some_iff.mp hs
    have hq : Move allowed _ _ := .quit hx fun ho ↦
      ha .abandon (by simp [disturbs, hx, ho])
    rw [← dropStage_eq] at hq
    exact .single hq
  | abortAllTasks =>
    cases hs
    apply sequence_takeActiveTurn
    intro y hy ho hr
    apply ha
    simp only [disturbs, List.any_eq_true]
    exact ⟨y, hy, by simp [hr, ho]⟩
  | abortTurnIfActive =>
    simp only [step] at hs
    split at hs
    next hactive =>
      cases hs
      apply sequence_takeActiveTurn
      intro y _ ho _
      obtain ⟨_, ht, hta⟩ := (any_eq_true _ _).mp hactive
      simp [task_of_owns h ht ho] at hta
    next => cases hs
  | finishAbort _ wakeSubId =>
    obtain ⟨_, hab, rfl⟩ := map_eq_some_iff.mp hs
    have hf : Sequence allowed s.toStartState _ := sequence_finishAbort hab ha
    cases wakeSubId with
    | none => exact hf
    | some subId => exact hf.tail (.enter .wake subId .regular)
  | finishTask runner =>
    simp only [step, finishTask] at hs
    split at hs
    · split at hs
      · cases hs
        exact .refl
      next hfn =>
        cases hs
        obtain ⟨_, ht, hm⟩ := bind_eq_some_iff.mp hfn
        obtain ⟨_, hta, heq⟩ := map_eq_some_iff.mp hm
        obtain ⟨rfl, rfl⟩ := Prod.mk.inj heq
        exact .single (.takeTask runner ht hta)
    · cases hs
  | clearFinished _ wakeSubId =>
    obtain ⟨_, hfi, rfl⟩ := map_eq_some_iff.mp hs
    exact sequence_clearFinished wakeSubId h hfi
  | getPendingInput =>
    simp only [step] at hs
    split at hs
    · exact sequence_getPendingInput ha hs
    · cases hs
  | inject items =>
    obtain ⟨turn, -, rfl⟩ := map_eq_some_iff.mp hs
    exact .single (.extend turn.turnState items)
  | receive | operate =>
    cases hs
    exact .refl

end Sessions

end Slopdex.Turn.Steps
