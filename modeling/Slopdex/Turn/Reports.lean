import Slopdex.Turn.Takeover

/-!
# Starts that are reported to a caller

`start_or_steer` and `start_if_idle` answer that the turn was started once the installing function
has returned, which it also does when it finds the turn gone. The answer is right as long as nobody
takes the turn of a caller, or the input in it, before the task is installed.
-/

namespace Slopdex.Turn.Reports

open Protocol Library.FirstMatch Library.Transition Library.Transition.System Turn.Claims
open Option List
  Turn.Starts Turn.Moves Turn.Contention Turn.Steps Turn.Takeover StartState Origin List

variable {resv : AgentExecutionReservation}

/-! ## What a caller can rely on -/

def Delivers (x : Contender) (install : Install) : Prop :=
  install.contender = x.id ∧ install.subId = x.subId ∧ install.taskInput = x.origin.taskInput ∧
    x.origin.queuedInput ⊆ install.pendingInput

/-- A contender with a caller has its turn in the slot until its task is installed. -/
structure ReportInvariant (s : StartState) (x : Contender) : Prop where
  owns : x.origin.reports = true → x.stage.inSlot = true → s.Owns x
  queued : x.origin.reports = true → x.stage.ready = true → ∀ turn, s.active = some turn →
    x.origin.queuedInput ⊆ s.pendingInput turn.turnState
  installed : x.origin.reports = true → x.stage = .returning →
    ∃ install ∈ s.installs, Delivers x install
  outcome : ∀ turnId, x.stage.outcome ≠ some (.started turnId)

def EachReport (s : StartState) : Prop := ∀ x ∈ s.contenders, ReportInvariant s x

def takesTurn : Disturbance → Bool
  | .refuse true | .abort | .drain => true
  | .abandon | .refuse false | .kill => false

variable {s s' : StartState} {x y : Contender} {i : ℕ} {stage : Stage} {turn : ActiveTurn}

theorem inSlot_of_ready (h : stage.ready = true) : stage.inSlot = true := by
  cases stage <;> simp_all [Stage.ready, Stage.inSlot]

theorem ReportInvariant.frame (h : ReportInvariant s x)
    (hsl : x.origin.reports = true → s.Owns x → s'.Owns x)
    (hinp : x.origin.reports = true → s.Owns x → x.origin.queuedInput ≠ [] →
      ∀ turn', s'.active = some turn' → ∃ turn, s.active = some turn ∧
        s.pendingInput turn.turnState ⊆ s'.pendingInput turn'.turnState)
    (hinsts : s.installs ⊆ s'.installs) : ReportInvariant s' x where
  owns hrep hin := hsl hrep (h.owns hrep hin)
  queued hrep hr turn' ht' := by
    by_cases he : x.origin.queuedInput = []
    · rw [he]
      exact nil_subset _
    · have ho := h.owns hrep (inSlot_of_ready hr)
      obtain ⟨turn, ht, hsu⟩ := hinp hrep ho he turn' ht'
      exact Subset.trans (h.queued hrep hr turn ht) hsu
  installed hrep hretn := by
    obtain ⟨install, hinst, hd⟩ := h.installed hrep hretn
    exact ⟨install, hinsts hinst, hd⟩
  outcome := h.outcome

theorem reportInvariant_of_waiting (hin : x.stage.inSlot = false)
    (ha : x.stage ≠ .returning) (ho : ∀ turnId, x.stage.outcome ≠ some (.started turnId)) :
    ReportInvariant s x where
  owns _ h := by simp [hin] at h
  queued _ h := by simp [inSlot_of_ready h] at hin
  installed _ h := absurd h ha
  outcome := ho

theorem reportInvariant_of_silent (hrep : x.origin.reports = false)
    (ho : ∀ turnId, x.stage.outcome ≠ some (.started turnId)) : ReportInvariant s x where
  owns h := by simp [hrep] at h
  queued h := by simp [hrep] at h
  installed h := by simp [hrep] at h
  outcome := ho

theorem EachReport.set (h : EachReport s) (hx : s.contenders[i]? = some x)
    (hcont : s'.contenders = s.contenders.set i { x with stage })
    (ho : ∀ j y, j ≠ i → s.contenders[j]? = some y → ReportInvariant s y →
      ReportInvariant s' y)
    (hse : ReportInvariant s x → ReportInvariant s' { x with stage }) : EachReport s' := by
  unfold EachReport
  rw [hcont]
  apply forall_mem_set
  · intro j y hij hy
    exact ho j y hij hy (h y (mem_of_getElem? hy))
  · exact hse (h x (mem_of_getElem? hx))

theorem ReportInvariant.keep (h : ReportInvariant s x) (ha : s'.active = s.active)
    (hin : s'.pendingInput = s.pendingInput) (hinsts : s'.installs = s.installs) :
    ReportInvariant s' x := by
  apply h.frame
  · intro _ _
    rwa [StartState.Owns, slotClaim, ha]
  · intro _ _ _ turn ht
    exact ⟨turn, ha ▸ ht, by rw [hin]; exact Subset.refl _⟩
  · rw [hinsts]
    exact Subset.refl _

/-- A move that changes the slot does not matter to those whose turn it is not. -/
theorem ReportInvariant.elsewhere (h : ReportInvariant s x)
    (hn : x.origin.reports = true → ¬ s.Owns x) (hinsts : s.installs ⊆ s'.installs) :
    ReportInvariant s' x := by
  apply h.frame
  · exact fun hrep ho ↦ absurd ho (hn hrep)
  · exact fun hrep ho ↦ absurd ho (hn hrep)
  · exact hinsts

theorem not_owns_of_owns {j : ℕ} (hinv : StartInvariant s) (hij : j ≠ i)
    (hx : s.contenders[i]? = some x) (hy : s.contenders[j]? = some y) (ho : s.Owns x) :
    ¬ s.Owns y := by
  intro ⟨c, hc, hsl⟩
  obtain ⟨_, hc', hs'⟩ := ho
  obtain rfl := mem_unique hsl hs'
  exact hinv.claim_ne hij hx hy hc' hc

theorem not_owns_of_wake (hinv : StartInvariant s)
    (hy : y ∈ s.contenders) (hrep : y.origin.reports = true) (ht : s.active = some turn)
    (hw : turn.pendingWakeStart = some ⟨some resv, false⟩) : ¬ s.Owns y := by
  intro ho
  obtain ⟨c, hc, hsl⟩ := (owns_iff ht).mp ho
  have hu : y.stage.isWoken = false := by
    by_contra hwo
    have hsi : y.stage.silent = true := by
      cases hst : y.stage <;> simp_all [Stage.isWoken, Stage.silent]
    simp [(hinv.each y hy).silent hsi] at hrep
  have hn := (hinv.each y hy).committed c turn hc hu ht hsl
  simp [hw] at hn

theorem owns_of_clearing {r : AgentExecutionReservation} {outcome : Outcome}
    (hinv : StartInvariant s) (hx : s.contenders[i]? = some x)
    (hstg : x.stage = .clearing r turn.turnState outcome) (ht : s.active = some turn) :
    s.Owns x := by
  have hst : x.stage.turnState = some turn.turnState := by rw [hstg]; rfl
  obtain ⟨c, hc⟩ := (hinv.of_getElem? hx).state_claim _ hst
  apply (owns_iff ht).mpr
  exact ⟨c, hc, ((hinv.of_getElem? hx).bound c _ turn hc hst ht).mpr rfl⟩

section

variable (h : EachReport s)
include h

namespace EachReport

section

variable (hinv : StartInvariant s)
include hinv

theorem follow (hx : s.contenders[i]? = some x) (hf : Follows s x stage) :
    EachReport (s.setStage i x stage) := by
  have hcl : Contender.claim { x with stage } = x.claim :=
    congrArg AgentExecutionReservation.tasklessClaimOwner hf.holding
  have ho : x.origin.reports = true → stage.inSlot = true → ReportInvariant s x → s.Owns x := by
    intro hrep hin hold
    obtain hsl | hsi := hf.inSlot hin
    · exact hold.owns hrep hsl
    · simp [(hinv.of_getElem? hx).silent hsi] at hrep
  refine h.set hx (by rfl) (fun _ y _ _ hy ↦ hy.keep rfl rfl rfl) fun hold ↦ ?_
  exact {
    owns := by
      intro hrep hin
      obtain ⟨c, hc, hsl⟩ := ho hrep hin hold
      exact ⟨c, hcl.trans hc, hsl⟩
    queued := by
      intro hrep hr turn htu
      obtain hb | hsi | ⟨t, ht, hqueued⟩ := hf.ready hr
      · exact hold.queued hrep hb turn htu
      · have hfa := (hinv.of_getElem? hx).silent hsi
        simp [show x.origin.reports = true from hrep] at hfa
      · have how := ho hrep (inSlot_of_ready hr) hold
        rw [turnState_of_owns hinv hx ht htu how]
        exact hqueued
    installed := fun _ hretn ↦ absurd hretn hf.next
    outcome := fun turnId hst ↦ hold.outcome turnId (hf.outcome turnId hst) }

theorem install {guard : Option PermitId} {claim : ClaimId} (runner : ℕ)
    (items : List Join.Mailbox.TurnInput)
    (hx : s.contenders[i]? = some x) (hst : x.stage = .committing guard claim turn.turnState)
    (ht : s.active = some turn) (hc : turn.tasklessStartClaim = some claim) :
    EachReport (s.installTask i x guard claim turn runner items) := by
  have ho : s.Owns x :=
    (owns_iff ht).mpr ⟨claim, by rw [Contender.claim, hst]; rfl, hc⟩
  refine h.set hx (StartInvariant.contenders_installTask s i x guard claim turn runner items) ?_
    fun hold ↦ ?_
  · intro j y hij hy hold
    apply hold.elsewhere fun _ ↦ not_owns_of_owns hinv hij hx hy ho
    exact subset_append_left _ _
  · exact {
      owns := by simp [Stage.inSlot]
      queued := by simp [Stage.ready]
      installed := by
        intro hrep _
        refine ⟨_, mem_concat_self, rfl, rfl, rfl, ?_⟩
        have hqueued := hold.queued hrep (by rw [hst]; rfl) turn ht
        simp only [extendPendingInput, Function.update_self]
        exact Subset.trans hqueued (subset_append_left _ _)
      outcome := by simp [Stage.outcome] }

omit hinv in
theorem place {c : ClaimId} (hx : s.contenders[i]? = some x)
    (he : s.active = none) (ht : turn.tasklessStartClaim = some c)
    (hc : stage.holding.tasklessClaimOwner = some c) (ha : stage ≠ .returning)
    (hrd : x.origin.reports = true → stage.ready = false) (ho : stage.outcome = none) :
    EachReport ((s.place turn).setStage i x stage) := by
  refine h.set hx (by rfl) ?_ fun _ ↦ ?_
  · intro _ y _ _ hold
    exact hold.elsewhere (fun _ ↦ not_owns_of_empty he) (Subset.refl _)
  · exact {
      owns := fun _ _ ↦ ⟨c, hc, ht⟩
      queued := fun hrep hr ↦ by simp [hrd hrep] at hr
      installed := fun _ hretn ↦ absurd hretn ha
      outcome := by simp [ho] }

theorem finishAbort {aborted : Aborting}
    (ha : s.aborting[i]? = some aborted) : EachReport (s.finishAbort i aborted) := by
  intro y hy
  apply (h y hy).frame
  · exact fun _ ho ↦ ho
  · intro _ ho _ turn ht
    refine ⟨turn, ht, ?_⟩
    -- The input that is dropped belongs to a turn that has had its task.
    have hne : turn.turnState ≠ aborted.turnState := by
      intro heq
      have hinstalled := hinv.aborting aborted (mem_of_getElem? ha)
      have hn := (hinv.slot turn ht).installed_claim (heq ▸ hinstalled)
      obtain ⟨c, -, hc⟩ := (owns_iff ht).mp ho
      simp [hn] at hc
    simp [StartState.finishAbort, StartState.clearPending, StartState.release, hne]
  · exact Subset.refl _

omit hinv in
theorem extend (ts : TurnStateRef)
    (items : List Join.Mailbox.TurnInput) : EachReport (s.extendPendingInput ts items) := by
  intro y hy
  apply (h y hy).frame
  · exact fun _ ho ↦ ho
  · intro _ _ _ turn ht
    refine ⟨turn, ht, ?_⟩
    by_cases heq : turn.turnState = ts
    all_goals simp [extendPendingInput, heq]
  · exact Subset.refl _

theorem move (hm : Move (fun d ↦ takesTurn d = false) s s') : EachReport s' := by
  cases hm with
  | follow hx hf => exact h.follow hinv hx hf
  | newPermit hx _ _ | newClaim hx _ _ =>
    refine h.set hx (by rfl) (fun _ y _ _ hold ↦ hold.keep rfl rfl rfl) fun _ ↦ ?_
    exact reportInvariant_of_waiting rfl (by simp) (by simp [Stage.outcome])
  | place hx _ how hem he =>
    refine h.place hx hem rfl (by rw [he.holding, how]) ?_ ?_ he.outcome
    · intro hretn
      have hst := he.turnState
      simp [hretn, Stage.turnState] at hst
    · intro hrep
      by_contra hr
      simp [he.ready (by simpa using hr)] at hrep
  | placeWake hx _ hem hrep =>
    exact h.place hx hem rfl rfl (by simp) (by simp [hrep]) rfl
  | takeWake hx _ _ ht _ hw =>
    refine h.set hx (by rfl) ?_ fun _ ↦ ?_
    · intro _ y _ hy hold
      exact hold.elsewhere (fun hrep ↦
        not_owns_of_wake hinv (mem_of_getElem? hy) hrep ht hw) (Subset.refl _)
    · exact reportInvariant_of_waiting rfl (by simp) (by simp [Stage.outcome])
  | @commitWake _ x claim turn _ hx hstg ht _ =>
    have hc : x.claim = some claim := by rw [Contender.claim, hstg]; rfl
    have ho : s.Owns x := (owns_iff ht).mpr ⟨claim, hc,
      ((hinv.of_getElem? hx).bound claim _ turn hc (by rw [hstg]; rfl) ht).mpr rfl⟩
    refine h.set hx (by rfl) ?_ fun _ ↦ ?_
    · intro j y hij hy hold
      exact hold.elsewhere (fun _ ↦ not_owns_of_owns hinv hij hx hy ho) (Subset.refl _)
    · exact reportInvariant_of_silent ((hinv.of_getElem? hx).silent (by rw [hstg]; rfl))
        (by simp [Stage.outcome])
  | giveUp hx hin hl =>
    refine h.set hx (by rfl) (fun _ y _ _ hold ↦ hold.keep rfl rfl rfl) fun hold ↦ ?_
    apply reportInvariant_of_silent
    · by_contra hrep
      rw [Bool.not_eq_false] at hrep
      have ha := hl (hold.owns hrep hin)
      rw [hrep] at ha
      cases ha
    · simp [Stage.outcome]
  | quit =>
    intro y hy
    exact (h y (eraseIdx_subset hy)).keep rfl rfl rfl
  | clear _ _ hfr =>
    intro y hy
    refine (h y hy).elsewhere (fun hrep ho ↦ ?_) (Subset.refl _)
    cases hfr y hy ho hrep
  | @clearOwn _ _ _ _ _ hx hstg ht _ =>
    have ho := owns_of_clearing hinv hx hstg ht
    refine h.set hx (by rfl) ?_ fun hold ↦ ?_
    · intro j y hij hy hot
      exact hot.elsewhere (fun _ ↦ not_owns_of_owns hinv hij hx hy ho) (Subset.refl _)
    · apply reportInvariant_of_waiting rfl (by simp)
      intro turnId
      have hn := hold.outcome turnId
      rwa [hstg] at hn
  | finishAbort hab => exact h.finishAbort hinv hab
  | abortTask ht hta | takeTask _ ht hta =>
    intro y hy
    refine (h y hy).elsewhere (fun _ ho ↦ ?_) (Subset.refl _)
    simp [task_of_owns hinv ht ho] at hta
  | endFinisher => exact fun y hy ↦ (h y hy).keep rfl rfl rfl
  | enter _ _ _ | enterWithPermit _ _ _ =>
    intro y hy
    obtain hold | rfl := mem_concat.mp hy
    · exact (h y hold).keep rfl rfl rfl
    · apply reportInvariant_of_waiting
      all_goals
        try cases ‹Origin›
        all_goals simp [firstStage, Stage.inSlot, Stage.outcome]
  | install runner items hx hstg ht _ hc =>
    exact h.install hinv runner items hx hstg ht hc
  | extend ts items => exact h.extend ts items
  | drain _ hd =>
    intro y hy
    apply (h y hy).frame
    · exact fun _ ho ↦ ho
    · intro _ ho hqueued
      cases hd y hy ho hqueued
    · exact Subset.refl _

theorem sequence (hmoves : Sequence (fun d ↦ takesTurn d = false) s s') : EachReport s' := by
  induction hmoves with
  | refl => exact h
  | tail hb hl ih => exact ih.move (hinv.sequence hb) hl

end

end EachReport

end

section Answers

variable {choice : Choice} {turnId : TurnId}

theorem steerInput_not_started {request : TurnInputRequest} :
    (s.steerInput i x request choice).2 ≠ some (.started turnId) := by
  unfold steerInput
  split
  · simp [goOn]
  · split
    · simp [goOn]
    · split
      · simp [answer]
      · split
        · simp [answer]
        · split
          · simp [answer]
          · by_cases ha : choice.settings = .applied
            all_goals simp [answer, ha]

theorem claimEmptySlot_not_started : (s.claimEmptySlot i x choice).2 ≠ some (.started turnId) := by
  unfold claimEmptySlot
  split
  · simp [answer]
  · simp [claimTurn, goOn]

theorem claimExecutionCapacityForUserTurnStart_not_started :
    (s.claimExecutionCapacityForUserTurnStart i x choice).2 ≠ some (.started turnId) := by
  unfold claimExecutionCapacityForUserTurnStart
  split
  · exact claimEmptySlot_not_started
  · split
    · simp [goOn]
    · split
      · exact claimEmptySlot_not_started
      · split
        · exact claimEmptySlot_not_started
        · simp [goOn]
        · split
          · simp [goOn]
          · simp [claimTurn, goOn]

theorem probe_not_started {kind : TurnStartKind} {queue : Join.Mailbox.InputQueue} :
    (s.probe i x kind queue choice).2 ≠ some (.started turnId) := by
  unfold probe
  split
  · simp [answer]
  · split
    · simp [answer]
    · split
      · simp [answer]
      · simp [goOn]

theorem claimIfIdle_not_started : (s.claimIfIdle i x resv).2 ≠ some (.started turnId) := by
  unfold claimIfIdle
  split
  · simp [goOn]
  · simp [answer]

theorem recheck_not_started {ts : TurnStateRef} {queue : Join.Mailbox.InputQueue} :
    (s.recheck i x resv ts queue).2 ≠ some (.started turnId) := by
  unfold recheck
  split <;> simp [goOn]

theorem applyStarted_not_started {ts : TurnStateRef} {settings : Settings} :
    (s.applyStarted i x resv ts settings).2 ≠ some (.started turnId) := by
  cases settings <;> simp [applyStarted, goOn]

end Answers

section Steps

variable {s s' : Session} {id : ℕ} {turnId : TurnId}

theorem not_reported_of_same (h : s'.outcomes = s.outcomes) :
    s'.outcomes ≠ s.outcomes ++ [(id, .started turnId)] := by
  rw [h]
  simp

theorem started_of_answer {res : Result}
    (h : (s.answer x res).outcomes = s.outcomes ++ [(id, .started turnId)]) :
    x.id = id ∧ res.2 = some (.started turnId) := by
  have hl : res.2.toList.map (fun outcome ↦ (x.id, outcome)) = [(id, .started turnId)] :=
    append_cancel_left h
  cases ha : res.2 with
  | none => simp [ha] at hl
  | some =>
    simp only [ha, toList_some, map_cons, map_nil, cons.injEq,
      Prod.mk.injEq, and_true] at hl
    exact ⟨hl.1, congrArg some hl.2⟩

theorem returning_of_advance {choice : Choice} {wakeSubId : TurnId}
    (ho : x.stage.outcome ≠ some (.started turnId))
    (hstep : s.advance i x choice wakeSubId = some s')
    (hrpt : s'.outcomes = s.outcomes ++ [(id, .started turnId)]) :
    x.id = id ∧ x.stage = .returning ∧ x.origin.reports = true ∧ x.subId = turnId := by
  unfold Session.advance at hstep
  cases hst : x.stage with simp only [hst] at hstep
  | steering =>
    split at hstep
    · split at hstep <;> cases hstep
      · exact absurd (started_of_answer hrpt).2 steerInput_not_started
      · simpa [answer] using (started_of_answer hrpt).2
    · cases hstep
  | claiming =>
    cases hstep
    exact absurd (started_of_answer hrpt).2 claimExecutionCapacityForUserTurnStart_not_started
  | waiting =>
    split at hstep
    · cases hstep
    · cases hstep
      exact absurd hrpt (not_reported_of_same rfl)
  | probing =>
    obtain ⟨_, -, rfl⟩ := map_eq_some_iff.mp hstep
    exact absurd (started_of_answer hrpt).2 probe_not_started
  | reserved =>
    cases hstep
    exact absurd (started_of_answer hrpt).2 claimIfIdle_not_started
  | rechecking =>
    cases hstep
    exact absurd (started_of_answer hrpt).2 recheck_not_started
  | starting =>
    split at hstep
    · cases hstep
    · cases hstep
      exact absurd (started_of_answer hrpt).2 applyStarted_not_started
  | leaving =>
    cases hstep
    rw [hst] at ho
    exact absurd (started_of_answer hrpt).2 ho
  | committing =>
    cases hstep
    refine absurd hrpt (not_reported_of_same ?_)
    unfold Session.commitTask
    split
    · rfl
    · split
      · split <;> rfl
      · rfl
  | returning =>
    split at hstep
    next hrep =>
      cases hstep
      have ha := started_of_answer hrpt
      exact ⟨ha.1, rfl, hrep, by simpa [answer] using ha.2⟩
    next =>
      cases hstep
      exact absurd hrpt (not_reported_of_same rfl)
  | _ =>
    cases hstep
    exact absurd hrpt (not_reported_of_same rfl)

theorem returning_of_step {a : Action}
    (ho : ∀ x ∈ s.contenders, x.stage.outcome ≠ some (.started turnId))
    (hstep : s.step a = some s')
    (hrpt : s'.outcomes = s.outcomes ++ [(id, .started turnId)]) :
    ∃ x ∈ s.contenders, x.id = id ∧ x.stage = .returning ∧ x.origin.reports = true ∧
      x.subId = turnId := by
  cases a with
  | advance =>
    obtain ⟨x, hx, ha⟩ := bind_eq_some_iff.mp hstep
    have hm := mem_of_getElem? hx
    exact ⟨x, hm, returning_of_advance (ho x hm) ha hrpt⟩
  | submit =>
    simp only [Session.step, Session.submit] at hstep
    refine absurd hrpt (not_reported_of_same ?_)
    split at hstep
    · obtain ⟨_, -, rfl⟩ := map_eq_some_iff.mp hstep
      rfl
    · cases hstep
      rfl
  | abortTurnIfActive =>
    simp only [Session.step] at hstep
    split at hstep
    · cases hstep
      exact absurd hrpt (not_reported_of_same rfl)
    · cases hstep
  | finishTask =>
    simp only [Session.step, Session.finishTask] at hstep
    refine absurd hrpt (not_reported_of_same ?_)
    split at hstep
    · split at hstep
      all_goals
        cases hstep
        rfl
    · cases hstep
  | getPendingInput =>
    simp only [Session.step] at hstep
    split at hstep
    · obtain ⟨_, -, rfl⟩ := map_eq_some_iff.mp hstep
      exact absurd hrpt (not_reported_of_same rfl)
    · cases hstep
  | cancel _ | finishAbort _ _ | clearFinished _ _ | inject _ =>
    obtain ⟨_, -, rfl⟩ := map_eq_some_iff.mp hstep
    exact absurd hrpt (not_reported_of_same rfl)
  | abortAllTasks | receive _ | operate _ =>
    cases hstep
    exact absurd hrpt (not_reported_of_same rfl)

end Steps

theorem callerInput_subset (origin : Origin) :
    origin.callerInput ⊆ origin.taskInput ++ origin.queuedInput := by
  cases origin with
  | startOrSteer => simp [callerInput, taskInput, queuedInput]
  | startIfIdle request =>
    obtain ⟨_, input⟩ := request
    cases input with
    | userInput content =>
      by_cases he : content = []
      all_goals
        simp [callerInput, taskInput, queuedInput, TurnInputRequest.content,
          TurnInputRequest.startKind, TurnInputRequest.isEmpty, TurnInputRequest.isUserInput, he]
    | _ =>
      simp [callerInput, taskInput, queuedInput, TurnInputRequest.content,
        TurnInputRequest.startKind, TurnInputRequest.isEmpty, TurnInputRequest.isUserInput]
  | recovery | wake | spawn _ => simp [callerInput]

/-- No abort and no replacing task takes the turn of a caller before its task is installed, the
commit does not refuse the mail, and no running task takes the input queued for the turn. -/
def SparesCallers (s : Session) (a : Action) : Prop :=
  disturbs s a .abort = false ∧ disturbs s a (.refuse true) = false ∧ disturbs s a .drain = false

instance (s : Session) (a : Action) : Decidable (SparesCallers s a) :=
  inferInstanceAs (Decidable (_ ∧ _))

theorem SparesCallers.allowed {s : Session} {a : Action} (h : SparesCallers s a) (d : Disturbance)
    (hd : disturbs s a d = true) : takesTurn d = false := by
  obtain ⟨ha, _, hdr⟩ := h
  cases d with
  | abandon | kill => rfl
  | refuse reports => cases reports <;> simp_all [takesTurn]
  | abort => simp [ha] at hd
  | drain => simp [hdr] at hd

theorem guarded_started_installed (s s' : Session) (a : Action) (x : Contender) (turnId : TurnId)
    (hs : sessionStarts.Guarded SparesCallers s) (hstep : s.step a = some s')
    (hx : x ∈ s.contenders)
    (hreport : s'.outcomes = s.outcomes ++ [(x.id, .started turnId)]) :
    ∃ install ∈ s.installs, install.contender = x.id ∧ install.subId = turnId ∧
      x.origin.callerInput ⊆ install.taskInput ++ install.pendingInput := by
  have hinv : StartInvariant s.toStartState ∧ EachReport s.toStartState := by
    apply hs.invariant fun s ↦ StartInvariant s.toStartState ∧ EachReport s.toStartState
    · exact ⟨startInvariant_initial, fun x hx ↦ by cases hx⟩
    · intro _ _ _ hinv hok hstep
      have hmoves := sequence_step hinv.1 hok.allowed hstep
      exact ⟨hinv.1.sequence hmoves, hinv.2.sequence hinv.1 hmoves⟩
  obtain ⟨y, hy, hid, hretn, hrep, hsubId⟩ :=
    returning_of_step (fun y hy ↦ (hinv.2 y hy).outcome turnId) hstep hreport
  -- The number of a contender is its own, so the report is about `x`.
  obtain rfl : y = x := by
    obtain ⟨i, hi⟩ := mem_iff_getElem?.mp hx
    obtain ⟨j, hj⟩ := mem_iff_getElem?.mp hy
    by_cases hij : j = i
    · subst hij
      exact mem_unique hj hi
    · exact absurd hid (hinv.1.id_ne hij hi hj)
  obtain ⟨install, hinst, hcontender, hinstalled, htaskInput, hqueued⟩ :=
    (hinv.2 y hy).installed hrep hretn
  refine ⟨install, hinst, hcontender, hinstalled.trans hsubId, ?_⟩
  calc
    y.origin.callerInput ⊆ y.origin.taskInput ++ y.origin.queuedInput :=
      callerInput_subset y.origin
    _ ⊆ install.taskInput ++ install.pendingInput := by
      rw [htaskInput]
      exact append_subset.mpr ⟨subset_append_left _ _,
        Subset.trans hqueued (subset_append_right _ _)⟩

def startedByUser : List Action :=
  [.submit (.startOrSteer greeting) "T" .regular .limited, .advance 0 {} "", .advance 0 {} "",
    .advance 0 {} "", .advance 0 {} "", .advance 0 {} ""]

def userStart : Contender := ⟨0, .startOrSteer greeting, "T", .regular, .returning⟩

theorem guarded_started_installed_startedByUser :
    ∃ s s', sessionStarts.Guarded SparesCallers s ∧ s.step (.advance 0 {} "") = some s' ∧
      userStart ∈ s.contenders ∧ s'.outcomes = s.outcomes ++ [(0, .started "T")] ∧
      ∃ install ∈ s.installs, install.contender = 0 ∧ install.subId = "T" ∧
        greeting.content ⊆ install.taskInput ++ install.pendingInput := by
  obtain ⟨s, hs, hcheck⟩ := exists_guarded_of_runIf sessionStarts SparesCallers startedByUser
    (fun s ↦ s.contenders == [userStart] && (s.step (.advance 0 {} "")).any fun s' ↦
      s'.outcomes == s.outcomes ++ [(0, .started "T")]) (by decide +kernel)
  simp only [Bool.and_eq_true, beq_iff_eq, Option.any_eq_true] at hcheck
  obtain ⟨hcont, s', hstep, hrpt⟩ := hcheck
  have hx : userStart ∈ s.contenders := by simp [hcont]
  exact ⟨s, s', hs, hstep, hx, hrpt,
    guarded_started_installed s s' (.advance 0 {} "") userStart "T" hs hstep hx hrpt⟩

def abortedBeforeTask : List Action :=
  [.submit (.startOrSteer greeting) "T" .regular .limited, .advance 0 {} "", .advance 0 {} "",
    .abortAllTasks, .advance 0 {} "", .advance 0 {} ""]

theorem reachable_started_not_installed :
    ∃ s s', sessionStarts.Reachable s ∧ s.step (.advance 0 {} "") = some s' ∧
      userStart ∈ s.contenders ∧ s'.outcomes = s.outcomes ++ [(0, .started "T")] ∧
      s'.installs = [] := by
  obtain ⟨s, hs, hcheck⟩ := exists_reachable_of_run sessionStarts abortedBeforeTask
    (fun s ↦ s.contenders == [userStart] && (s.step (.advance 0 {} "")).any fun s' ↦
      s'.outcomes == s.outcomes ++ [(0, .started "T")] && s'.installs == []) (by decide +kernel)
  simp only [Bool.and_eq_true, beq_iff_eq, Option.any_eq_true] at hcheck
  obtain ⟨hcont, s', hstep, hrpt, hinsts⟩ := hcheck
  exact ⟨s, s', hs, hstep, by simp [hcont], hrpt, hinsts⟩

end Slopdex.Turn.Reports
