import Slopdex.Turn.Contention

/-!
# Execution permits

A permit is in the hands of a contender, in the slot (with the running task or with the reservation
of a pending wake), with a task that is being aborted, or released. Every move hands a permit from
one of these places to another, so each permit that was given out is in exactly one place.
-/

namespace Slopdex.Turn.Permits

open Protocol Library.FirstMatch Turn.Claims Turn.Starts Turn.Moves Turn.Contention StartState
open List Option Stage

def share (guard : Option PermitId) (p : PermitId) : ℕ := if guard = some p then 1 else 0

variable (s : StartState) (p : PermitId)

def heldByContenders : ℕ :=
  s.contenders.countP (·.guard == some p)

def heldInSlot : ℕ := (s.active.elim [] (·.permits)).count p

def heldByAborts : ℕ :=
  s.aborting.countP (·.task.agentExecutionGuard == some p)

def owners : ℕ :=
  heldByContenders s p + heldInSlot s p + heldByAborts s p

/-- A permit that was given out has one owner or was released once. -/
def PermitInvariant : Prop :=
  ∀ p, owners s p + s.released.count p = if p.index < s.nextPermit then 1 else 0

variable {s s' : StartState} {x : Contender} {i : ℕ} {stage : Stage} {turn : ActiveTurn}
  {p : PermitId}

@[simp] theorem share_none : share none p = 0 := by
  simp [share]

theorem count_toList (guard : Option PermitId) (p : PermitId) :
    guard.toList.count p = share guard p := by
  cases guard with
  | none => simp
  | some q =>
    by_cases hq : q = p
    all_goals simp [share, hq]

theorem heldByContenders_set (hx : s.contenders[i]? = some x)
    (hc : s'.contenders = s.contenders.set i { x with stage }) (p : PermitId) :
    heldByContenders s' p + share x.guard p =
      heldByContenders s p + share stage.holding.guard p := by
  have hcn := countP_set_of_getElem? (p := fun y ↦ y.guard == some p) hx { x with stage }
  simp only [beq_iff_eq] at hcn
  unfold heldByContenders
  rw [hc]
  exact hcn

theorem heldByContenders_erase (hx : s.contenders[i]? = some x)
    (hc : s'.contenders = s.contenders.eraseIdx i) (p : PermitId) :
    heldByContenders s' p + share x.guard p = heldByContenders s p := by
  have hcn := countP_eraseIdx_of_getElem? (p := fun y ↦ y.guard == some p) hx
  simp only [beq_iff_eq] at hcn
  unfold heldByContenders
  rw [hc]
  exact hcn

theorem heldByContenders_append (hc : s'.contenders = s.contenders ++ [x]) (p : PermitId) :
    heldByContenders s' p = heldByContenders s p + share x.guard p := by
  unfold heldByContenders
  rw [hc]
  simp [share, countP_cons]

theorem heldInSlot_of_active (ht : s.active = some turn) (p : PermitId) :
    heldInSlot s p = share (turn.task.bind (·.agentExecutionGuard)) p +
      share ((turn.pendingWakeStart.bind (·.reservation)).bind (·.guard)) p := by
  simp [heldInSlot, ht, ActiveTurn.permits, count_toList]

theorem heldInSlot_of_empty (he : s.active = none) (p : PermitId) : heldInSlot s p = 0 := by
  simp [heldInSlot, he]

theorem count_released_dropReservation (resv : AgentExecutionReservation) (p : PermitId) :
    (s.dropReservation resv).released.count p = s.released.count p + share resv.guard p := by
  simp [dropReservation, cancelOwner, release, count_toList]

theorem share_slotReservation (ht : s.active = some turn) (hta : turn.task = none)
    (p : PermitId) : share s.slotReservation.guard p = heldInSlot s p := by
  rw [heldInSlot_of_active ht, hta, slotReservation, ht]
  cases hr : turn.pendingWakeStart.bind (·.reservation) with
  | none | some => simp [hr]

theorem PermitInvariant.handOn (h : PermitInvariant s) (hn : s'.nextPermit = s.nextPermit)
    (hs : ∀ p, owners s' p + s'.released.count p = owners s p + s.released.count p) :
    PermitInvariant s' := by
  intro p
  rw [hs p, hn]
  exact h p

theorem PermitInvariant.giveOut (h : PermitInvariant s) (hn : s'.nextPermit = s.nextPermit + 1)
    (hne : ∀ p, owners s' p + s'.released.count p =
      owners s p + s.released.count p + share (some ⟨s.nextPermit⟩) p) : PermitInvariant s' := by
  intro p
  have hold := h p
  rw [hne p, hold]
  by_cases hp : p.index = s.nextPermit
  · have hs : share (some ⟨s.nextPermit⟩) p = 1 := by
      rw [share, if_pos (by rw [← hp])]
    rw [hs, if_neg (by omega), if_pos (by omega)]
  · have hs : share (some ⟨s.nextPermit⟩) p = 0 := by
      rw [share, if_neg]
      intro heq
      exact hp (congrArg PermitId.index (some.inj heq)).symm
    rw [hs]
    by_cases hlt : p.index < s.nextPermit
    · rw [if_pos hlt, if_pos (by omega)]
    · rw [if_neg hlt, if_neg (by omega)]

/-! ## Moves -/

namespace PermitInvariant

section

variable (h : PermitInvariant s)
include h

theorem exchange (hx : s.contenders[i]? = some x)
    (hc : s'.contenders = s.contenders.set i { x with stage })
    (hn : s'.nextPermit = s.nextPermit) (ha : s'.aborting = s.aborting)
    (hb : ∀ p, share stage.holding.guard p + heldInSlot s' p + s'.released.count p =
      share x.guard p + heldInSlot s p + s.released.count p) : PermitInvariant s' := by
  apply h.handOn hn
  intro p
  have hcn := heldByContenders_set hx hc p
  have hs := hb p
  have hab : heldByAborts s' p = heldByAborts s p := by rw [heldByAborts, ha]; rfl
  rw [owners, owners]
  omega

theorem elsewhere (hc : s'.contenders = s.contenders) (hn : s'.nextPermit = s.nextPermit)
    (hb : ∀ p, heldInSlot s' p + heldByAborts s' p + s'.released.count p =
      heldInSlot s p + heldByAborts s p + s.released.count p) : PermitInvariant s' := by
  apply h.handOn hn
  intro p
  have hsu := hb p
  have hs : heldByContenders s' p = heldByContenders s p := by
    rw [heldByContenders, hc]
    rfl
  rw [owners, owners]
  omega

theorem newPermit (hx : s.contenders[i]? = some x) (hh : x.stage.holding = ⟨none, none⟩) :
    PermitInvariant ({ s with nextPermit := s.nextPermit + 1 }.setStage i x
      (.reserved ⟨some ⟨s.nextPermit⟩, none⟩)) := by
  apply h.giveOut rfl
  intro p
  have hs : ({ s with nextPermit := s.nextPermit + 1 }.setStage i x
      (.reserved ⟨some ⟨s.nextPermit⟩, none⟩)).contenders =
    s.contenders.set i { x with stage := .reserved ⟨some ⟨s.nextPermit⟩, none⟩ } := rfl
  have hc := heldByContenders_set hx hs p
  rw [Contender.guard, hh, share_none] at hc
  simp only [owners, heldInSlot, heldByAborts, setStage, holding] at hc ⊢
  omega

omit h in
theorem contenders_submit (s : StartState) (origin : Origin) (subId : TurnId) (kind : TaskKind)
    (resv : AgentExecutionReservation) :
    (s.submit origin subId kind resv).contenders = s.contenders ++
      [⟨s.nextContender, origin, subId, kind, firstStage resv origin⟩] := rfl

theorem enter {origin : Origin} {subId : TurnId} {kind : TaskKind} :
    PermitInvariant (s.submit origin subId kind ⟨none, none⟩) := by
  refine h.handOn (by rfl) ?_
  intro p
  have hc := heldByContenders_append (contenders_submit s origin subId kind ⟨none, none⟩) p
  have hg : Contender.guard ⟨s.nextContender, origin, subId, kind,
      firstStage ⟨none, none⟩ origin⟩ = none := by
    cases origin <;> rfl
  rw [hg] at hc
  rw [owners, hc]
  rfl

theorem enterWithPermit {input : List Join.Mailbox.TurnInput} {subId : TurnId} {kind : TaskKind} :
    PermitInvariant ({ s with nextPermit := s.nextPermit + 1 }.submit (.spawn input) subId kind
      ⟨some ⟨s.nextPermit⟩, none⟩) := by
  apply h.giveOut rfl
  intro p
  have hc := heldByContenders_append (contenders_submit { s with
    nextPermit := s.nextPermit + 1 } (.spawn input) subId kind ⟨some ⟨s.nextPermit⟩, none⟩) p
  have hs : heldByContenders { s with nextPermit := s.nextPermit + 1 } p =
    heldByContenders s p := rfl
  rw [hs] at hc
  simp only [owners, heldInSlot, heldByAborts, submit, Contender.guard,
    firstStage, holding] at hc ⊢
  omega

theorem quit (hx : s.contenders[i]? = some x) :
    PermitInvariant ((s.dropReservation x.stage.holding).leave i) := by
  refine h.handOn (by rfl) ?_
  intro p
  have hl : ((s.dropReservation x.stage.holding).leave i).contenders =
    s.contenders.eraseIdx i := rfl
  have hc := heldByContenders_erase hx hl p
  have hr := count_released_dropReservation (s := s) x.stage.holding p
  change heldByContenders _ p + heldInSlot s p + heldByAborts s p +
    (s.dropReservation x.stage.holding).released.count p = _
  rw [owners]
  change _ + share x.stage.holding.guard p = _ at hc
  omega

theorem clear (ht : s.active = some turn) (hta : turn.task = none) :
    PermitInvariant s.clearActive := by
  refine h.elsewhere (by rfl) (by rfl) fun p ↦ ?_
  have hr := count_released_dropReservation (s := { s with active := none }) s.slotReservation p
  have hs := share_slotReservation ht hta p
  have he := heldInSlot_of_empty (s := s.clearActive) rfl p
  change heldInSlot _ p + heldByAborts s p + s.clearActive.released.count p = _
  rw [he, clearActive, hr]
  change _ + (s.released.count p + _) = _
  omega

end

theorem heldInSlot_of_task {task : RunningTask} (hinv : StartInvariant s)
    (ht : s.active = some turn) (hta : turn.task = some task) (p : PermitId) :
    heldInSlot s p = share task.agentExecutionGuard p := by
  have hs := hinv.slot turn ht
  have hw : turn.pendingWakeStart = none := by
    by_contra hw
    exact hs.wake_claim hw (hs.task_claim (by simp [hta]))
  simp [heldInSlot_of_active ht, hta, hw]

section

variable (h : PermitInvariant s)
include h

theorem abortTask {task : RunningTask} (hinv : StartInvariant s)
    (ht : s.active = some turn) (hta : turn.task = some task) :
    PermitInvariant { s with
      active := none, aborting := s.aborting ++ [⟨task, turn.turnState⟩] } := by
  refine h.elsewhere (by rfl) (by rfl) fun p ↦ ?_
  rw [heldInSlot_of_task hinv ht hta]
  simp only [heldInSlot, heldByAborts, elim_none, count_nil, countP_append,
    countP_singleton, beq_iff_eq, share]
  omega

theorem finishAbort {aborted : Aborting}
    (ha : s.aborting[i]? = some aborted) : PermitInvariant (s.finishAbort i aborted) := by
  refine h.elsewhere (by rfl) (by rfl) fun p ↦ ?_
  have hc := countP_eraseIdx_of_getElem?
    (p := fun a : Aborting ↦ a.task.agentExecutionGuard == some p) ha
  have hs := count_toList aborted.task.agentExecutionGuard p
  simp only [beq_iff_eq] at hc
  simp only [share] at hs
  simp only [heldInSlot, heldByAborts, StartState.finishAbort, StartState.release,
    StartState.clearPending, count_append]
  omega

section

variable (hinv : StartInvariant s)
include hinv

theorem takeTask {task : RunningTask}
    (runner : ℕ) (ht : s.active = some turn) (hta : turn.task = some task) :
    PermitInvariant (s.takeFinishedTask runner turn task) := by
  have hs := hinv.slot turn ht
  have hw : turn.pendingWakeStart = none := by
    by_contra hw
    exact hs.wake_claim hw (hs.task_claim (by simp [hta]))
  refine h.elsewhere (by rfl) (by rfl) fun p ↦ ?_
  have ha := heldInSlot_of_active (s := s.takeFinishedTask runner turn task) rfl p
  have hb := heldInSlot_of_task hinv ht hta p
  have hsh := count_toList task.agentExecutionGuard p
  simp only [hw, bind_none, share_none] at ha
  rw [ha]
  simp only [heldByAborts, takeFinishedTask, release, clearPending, count_append]
  omega

theorem install {guard : Option PermitId} {claim : ClaimId} (runner : ℕ)
    (items : List Join.Mailbox.TurnInput)
    (hx : s.contenders[i]? = some x) (hs : x.stage = .committing guard claim turn.turnState)
    (ht : s.active = some turn) (hta : turn.task = none)
    (hc : turn.tasklessStartClaim = some claim) :
    PermitInvariant (s.installTask i x guard claim turn runner items) := by
  have hr : turn.pendingWakeStart.bind (·.reservation) = none :=
    (hinv.of_getElem? hx).committed claim turn (by rw [Contender.claim, hs]; rfl)
      (by rw [hs]; rfl) ht hc
  refine h.exchange hx (StartInvariant.contenders_installTask s i x guard claim turn runner items)
    (by rfl) (by rfl) fun p ↦ ?_
  have ha := heldInSlot_of_active (s := s.installTask i x guard claim turn runner items) rfl p
  have hb := heldInSlot_of_active ht p
  have hg : x.guard = guard := by rw [Contender.guard, hs]; rfl
  simp only [hta, hr, bind_none] at hb
  simp only [ActiveTurn.finishTasklessStart, bind_some, bind_none] at ha
  rw [ha, hb, hg]
  simp only [holding, share_none, installTask, setStatus, extendPendingInput]
  omega

theorem move {allowed : Disturbance → Prop} (hm : Move allowed s s') : PermitInvariant s' := by
  cases hm with
  | follow hx hf =>
    refine h.exchange hx (by rfl) (by rfl) (by rfl) fun p ↦ ?_
    rw [hf.holding]
    rfl
  | newPermit hx _ hh => exact h.newPermit hx hh
  | newClaim hx =>
    refine h.exchange hx (by rfl) (by rfl) (by rfl) fun p ↦ ?_
    rfl
  | place hx hs _ hem he =>
    refine h.exchange hx (by rfl) (by rfl) (by rfl) fun p ↦ ?_
    rw [he.holding, Contender.guard, hs, heldInSlot_of_empty hem]
    rfl
  | placeWake hx hs hem =>
    refine h.exchange hx (by rfl) (by rfl) (by rfl) fun p ↦ ?_
    rw [Contender.guard, hs, heldInSlot_of_empty hem, heldInSlot_of_active (by rfl)]
    simp [holding, ActiveTurn.withPendingWakeReservation, setStage, place]
  | takeWake hx _ hh ht hta hw =>
    refine h.exchange hx (by rfl) (by rfl) (by rfl) fun p ↦ ?_
    rw [Contender.guard, hh, heldInSlot_of_empty (by rfl), heldInSlot_of_active ht]
    simp [holding, hta, hw, setStage]
  | commitWake hx hs ht hw =>
    refine h.exchange hx (by rfl) (by rfl) (by rfl) fun p ↦ ?_
    rw [Contender.guard, hs, heldInSlot_of_active ht, heldInSlot_of_active (by rfl)]
    simp only [holding, hw, bind_some, bind_none, share_none, setStage]
    omega
  | @giveUp _ x hx _ _ =>
    refine h.exchange hx (by rfl) (by rfl) (by rfl) fun p ↦ ?_
    have hr := count_released_dropReservation (s := s) x.stage.holding p
    change _ + heldInSlot s p + (s.dropReservation x.stage.holding).released.count p = _
    rw [hr, Contender.guard]
    simp only [holding, share_none]
    omega
  | quit hx => exact h.quit hx
  | clear ht hta => exact h.clear ht hta
  | clearOwn hx hs ht hta =>
    refine (h.clear ht hta).exchange hx (by rfl) (by rfl) (by rfl) fun p ↦ ?_
    rw [Contender.guard, hs]
    rfl
  | abortTask ht hta => exact h.abortTask hinv ht hta
  | finishAbort ha => exact h.finishAbort ha
  | takeTask runner ht hta => exact h.takeTask hinv runner ht hta
  | enter => exact h.enter
  | enterWithPermit => exact h.enterWithPermit
  | install runner items hx hs ht hta hc =>
    exact h.install hinv runner items hx hs ht hta hc
  | endFinisher _ _ | extend _ _ | drain _ _ =>
    exact h.elsewhere (by rfl) (by rfl) fun p ↦ rfl

theorem sequence {allowed : Disturbance → Prop}
    (hm : Sequence allowed s s') : PermitInvariant s' := by
  induction hm with
  | refl => exact h
  | tail hb hl ih => exact ih.move (hinv.sequence hb) hl

end

end

end PermitInvariant

theorem permitInvariant_initial : PermitInvariant .initial := by
  intro p
  simp [owners, heldByContenders, heldInSlot, heldByAborts, initial]

end Slopdex.Turn.Permits
