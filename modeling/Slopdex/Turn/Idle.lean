import Slopdex.Turn.Takeover

/-!
# Whether an idle session can start a turn

A turn without a task stays in the slot until the contender whose claim is in it clears it, or the
future of the task that has finished. Only a user start clears a turn that has nobody left; the
automatic starts (a wake for triggering mail and `start_if_idle`) return when they find any turn in
the slot.
-/

namespace Slopdex.Turn.Idle

open Protocol Library.FirstMatch Library.Transition Library.Transition.System Join.Mailbox List
open Option
  Turn.Claims Turn.Starts Turn.Moves Turn.Contention Turn.Steps Turn.Takeover StartState Contender

/-- Somebody is there who will put a task into the turn or clear the slot. -/
def Attended (s : StartState) : Prop :=
  ∀ turn, s.active = some turn → turn.task = none →
    (∃ x ∈ s.contenders, s.Owns x) ∨ ∃ finisher ∈ s.finishers, finisher.turnState = turn.turnState

variable {s s' : StartState} {x : Contender} {i : ℕ} {stage : Stage} {turn : ActiveTurn}

theorem attended_of_empty (hemp : s.active = none) : Attended s := by
  intro _ hturn
  simp [hemp] at hturn

theorem Attended.mono (h : Attended s)
    (hsl : ∀ turn', s'.active = some turn' → turn'.task = none → ∃ turn, s.active = some turn ∧
      turn.task = none ∧ turn.turnState = turn'.turnState)
    (ho : ∀ x ∈ s.contenders, s.Owns x → ∃ y ∈ s'.contenders, s'.Owns y)
    (hf : ∀ finisher ∈ s.finishers, (∀ turn', s'.active = some turn' → turn'.task = none →
      finisher.turnState = turn'.turnState → finisher ∈ s'.finishers)) : Attended s' := by
  intro turn' ht' hta'
  obtain ⟨turn, hturn, ht, hst⟩ := hsl turn' ht' hta'
  obtain ⟨x, hx, how⟩ | ⟨finisher, hfin, hsa⟩ := h turn hturn ht
  · exact .inl (ho x hx how)
  · have hs' := hsa.trans hst
    exact .inr ⟨finisher, hf finisher hfin turn' ht' hta' hs', hs'⟩

theorem Attended.set (h : Attended s) (hx : s.contenders[i]? = some x)
    (hco : s'.contenders = s.contenders.set i { x with stage })
    (hslo : ∀ turn', s'.active = some turn' → turn'.task = none → ∃ turn, s.active = some turn ∧
      turn.task = none ∧ turn.turnState = turn'.turnState)
    (hclaim : s'.slotClaim = s.slotClaim) (hf : s'.finishers = s.finishers)
    (hse : s.Owns x → s'.Owns { x with stage }) : Attended s' := by
  apply h.mono hslo
  · intro y hy ho
    obtain ⟨hlt, _⟩ := List.getElem?_eq_some_iff.mp hx
    by_cases hyx : y = x
    · subst hyx
      refine ⟨{ y with stage }, ?_, hse ho⟩
      rw [hco]
      exact mem_set hlt _
    · refine ⟨y, ?_, ?_⟩
      · rw [hco]
        exact mem_set_of_ne hx hy hyx _
      · obtain ⟨c, hc, hsl⟩ := ho
        exact ⟨c, hc, hclaim.trans hsl⟩
  · intro _ hfin _ _ _ _
    rw [hf]
    exact hfin

theorem attended_of_owns (hx : x ∈ s.contenders) (ho : s.Owns x) : Attended s :=
  fun _ _ _ ↦ .inl ⟨x, hx, ho⟩

theorem Attended.same (h : Attended s) (hact : s'.active = s.active)
    (hc : s.contenders ⊆ s'.contenders) (hf : s'.finishers = s.finishers) :
    Attended s' := by
  apply h.mono
  · intro turn hturn ht
    exact ⟨turn, hact ▸ hturn, ht, rfl⟩
  · intro x hx _
    refine ⟨x, hc hx, ?_⟩
    rwa [StartState.Owns, slotClaim, hact]
  · intro _ hfin _ _ _ _
    exact hf ▸ hfin

def leavesTurn : Disturbance → Bool
  | .abandon | .refuse _ | .kill => true
  | .abort | .drain => false

section

variable (h : Attended s)
include h

theorem Attended.finishAbort {aborted : Aborting}
    (hk : ∀ finisher ∈ s.finishers, finisher.runner = aborted.task.runner →
      ∀ turn, s.active = some turn → turn.task = none → turn.turnState = finisher.turnState →
        leavesTurn .kill = false) : Attended (s.finishAbort i aborted) := by
  apply h.mono
  · intro turn hturn ht
    exact ⟨turn, hturn, ht, rfl⟩
  · intro x hx ho
    exact ⟨x, hx, ho⟩
  · intro finisher hfin turn hturn ht hst
    apply mem_filter.mpr
    refine ⟨hfin, ?_⟩
    rw [bne_iff_ne]
    intro hr
    have hf := hk finisher hfin hr turn hturn ht hst.symm
    cases hf

theorem Attended.endFinisher {finisher : Finisher} (hfin : s.finishers[i]? = some finisher)
    (hd : ∀ turn, s.active = some turn → turn.task = none →
      turn.turnState ≠ finisher.turnState) :
    Attended { s with finishers := s.finishers.eraseIdx i } := by
  apply h.mono
  · intro turn hturn ht
    exact ⟨turn, hturn, ht, rfl⟩
  · intro x hx how
    exact ⟨x, hx, how⟩
  · intro _ ho turn hturn ht hst
    obtain ⟨j, hj⟩ := mem_iff_getElem?.mp ho
    apply mem_eraseIdx_iff_getElem?.mpr
    refine ⟨j, ?_, hj⟩
    intro hij
    subst hij
    obtain rfl := mem_unique hj hfin
    exact hd turn hturn ht hst.symm

theorem Attended.quit (hx : s.contenders[i]? = some x) (hl : ¬ s.Owns x) :
    Attended ((s.dropReservation x.stage.holding).leave i) := by
  apply h.mono
  · intro turn hturn ht
    exact ⟨turn, hturn, ht, rfl⟩
  · intro y hy ho
    obtain ⟨j, hj⟩ := mem_iff_getElem?.mp hy
    refine ⟨y, mem_eraseIdx_iff_getElem?.mpr ⟨j, ?_, hj⟩, ho⟩
    intro hij
    subst hij
    obtain rfl := mem_unique hj hx
    exact hl ho
  · exact fun finisher hfin _ _ _ _ ↦ hfin

theorem Attended.move (hm : Move (fun d ↦ leavesTurn d = false) s s') : Attended s' := by
  have hk : ∀ turn, s.active = some turn → turn.task = none →
      ∃ before, s.active = some before ∧ before.task = none ∧ before.turnState = turn.turnState :=
    fun turn hturn ht ↦ ⟨turn, hturn, ht, rfl⟩
  cases hm with
  | follow hx hf =>
    refine h.set hx (by rfl) hk (by rfl) (by rfl) ?_
    intro ⟨c, hc, hsl⟩
    refine ⟨c, ?_, hsl⟩
    rw [claim, hf.holding]
    exact hc
  | newPermit hx _ hh =>
    refine h.set hx (by rfl) hk (by rfl) (by rfl) ?_
    intro ⟨c, hc, _⟩
    simp [claim, hh] at hc
  | newClaim hx _ hclaim =>
    refine h.set hx (by rfl) hk (by rfl) (by rfl) ?_
    intro ⟨c, hc, _⟩
    simp [hclaim] at hc
  | place hx _ hown _ he =>
    apply attended_of_owns (mem_of_getElem? (getElem?_setStage (s := s.place _) hx _))
    exact ⟨_, by rw [claim, he.holding]; exact hown, rfl⟩
  | placeWake hx =>
    apply attended_of_owns (mem_of_getElem? (getElem?_setStage (s := s.place _) hx _))
    exact ⟨_, rfl, rfl⟩
  | commitWake hx hstg hturn =>
    refine h.set hx (by rfl) ?_ ?_ (by rfl) ?_
    · intro _ ht' hta'
      cases ht'
      exact ⟨_, hturn, hta', rfl⟩
    · rw [slotClaim, slotClaim, hturn]
      rfl
    · intro ⟨c, hc, hsl⟩
      rw [claim, hstg] at hc
      rw [slotClaim, hturn] at hsl
      exact ⟨c, hc, hsl⟩
  | giveUp hx _ hl =>
    refine h.set hx (by rfl) hk (by rfl) (by rfl) ?_
    intro ho
    cases hl ho
  | quit hx hl =>
    apply h.quit hx
    intro ho
    cases hl ho
  | takeTask =>
    intro _ ht' _
    cases ht'
    exact .inr ⟨_, mem_concat_self, rfl⟩
  | install =>
    intro _ ht' hta'
    cases ht'
    simp [ActiveTurn.finishTasklessStart] at hta'
  | finishAbort _ hki => exact h.finishAbort hki
  | endFinisher hfin hd => exact h.endFinisher hfin hd
  | enter | enterWithPermit => exact h.same rfl (subset_append_left ..) rfl
  | extend _ _ | drain _ _ => exact h.same rfl (Subset.refl _) rfl
  | _ =>
    exact attended_of_empty rfl

theorem Attended.sequence (hmoves : Sequence (fun d ↦ leavesTurn d = false) s s') :
    Attended s' := by
  induction hmoves with
  | refl => exact h
  | tail _ hl ih => exact ih.move hl

end

/-- No start is in progress and no task is running; a task runs until its future has cleared the
slot. -/
structure Quiet (s : Session) : Prop where
  contenders : s.contenders = []
  finishers : s.finishers = []
  task : ∀ turn, s.active = some turn → turn.task = none

def admits (s : Session) (origin : Starts.Origin) (subId : TurnId) (choice : Choice)
    (steps : ℕ) : Bool :=
  (sessionStarts.run s (.submit origin subId .regular .limited ::
    replicate steps (.advance s.contenders.length choice ""))).any fun s' ↦
      (s'.contenders[s.contenders.length]?).any fun x ↦ s'.Owns x

/-- The next automatic start gets the slot: the wake for triggering mail, or without such mail a
`start_if_idle`. -/
structure Startable (s : Session) : Prop where
  wake : hasTriggerTurnMailboxItems s.queue = true → ∀ subId choice, choice.capacity ≠ .refused →
    admits s .wake subId choice 1 = true
  startIfIdle : hasTriggerTurnMailboxItems s.queue = false → ∀ request subId choice,
    choice.capacity ≠ .refused → request.startKind.permitsMode choice.planMode = true →
    admits s (.startIfIdle request) subId choice 2 = true

theorem hasPendingMailboxItems_of_trigger {queue : InputQueue}
    (h : hasTriggerTurnMailboxItems queue = true) : hasPendingMailboxItems queue = true := by
  unfold hasTriggerTurnMailboxItems at h
  obtain ⟨_, hma, -⟩ := any_eq_true.mp h
  cases hm : queue.mailboxPendingMails with
  | nil => simp [hm] at hma
  | cons => simp [hasPendingMailboxItems, hm]

theorem startable_of_idle {s : Session} (hemp : s.active = none) (hi : s.contenders = []) :
    Startable s where
  wake := by
    intro htrig _ choice hcap
    have hp := hasPendingMailboxItems_of_trigger htrig
    cases hc : choice.capacity with
    | refused => exact absurd hc hcap
    | unlimited | limited =>
      simp [admits, run, sessionStarts, Session.step, Session.submit, submit, hi,
        firstStage, Session.advance, claimForWake, htrig, hp, hemp,
        hc, reserveExecutionCapacity, setStage, place,
        newClaim, StartState.Owns, slotClaim, claim, Stage.holding,
        ActiveTurn.withPendingWakeReservation]
  startIfIdle := by
    intro htrig _ _ choice hcap hm
    cases hc : choice.capacity with
    | refused => exact absurd hc hcap
    | unlimited | limited =>
      simp [admits, run, sessionStarts, Session.step, Session.submit, submit, hi,
        firstStage, Session.advance, Origin.idleKind, probe, htrig, hm,
        hemp, hc, reserveExecutionCapacity, Session.answer, goOn,
        setStage, newClaim, claimIfIdle, place,
        StartState.Owns, slotClaim, claim, Stage.holding,
        ActiveTurn.withTasklessStartClaim]

/-- No start is cancelled while its turn is in the slot, none is refused its mail when it commits,
and no abort stops the future of a finished task that has yet to clear the slot. -/
def LeavesNoTurn (s : Session) (a : Action) : Prop :=
  disturbs s a .abandon = false ∧ disturbs s a (.refuse true) = false ∧
    disturbs s a (.refuse false) = false ∧ disturbs s a .kill = false

instance (s : Session) (a : Action) : Decidable (LeavesNoTurn s a) :=
  inferInstanceAs (Decidable (_ ∧ _))

theorem LeavesNoTurn.allowed {s : Session} {a : Action} (h : LeavesNoTurn s a) (d : Disturbance)
    (hd : disturbs s a d = true) : leavesTurn d = false := by
  obtain ⟨ha, _, _, hk⟩ := h
  cases d with
  | abandon => simp [ha] at hd
  | refuse reports => cases reports <;> simp_all
  | kill => simp [hk] at hd
  | abort | drain => rfl

theorem guarded_quiet_startable (s : Session) (hs : sessionStarts.Guarded LeavesNoTurn s)
    (hquiet : Quiet s) : s.active = none ∧ Startable s := by
  have hattended : Attended s.toStartState := by
    have hboth : StartInvariant s.toStartState ∧ Attended s.toStartState := by
      apply hs.invariant fun s ↦ StartInvariant s.toStartState ∧ Attended s.toStartState
      · exact ⟨startInvariant_initial, attended_of_empty rfl⟩
      · intro _ _ _ hinv hok hstep
        have hmoves := sequence_step hinv.1 hok.allowed hstep
        exact ⟨hinv.1.sequence hmoves, hinv.2.sequence hmoves⟩
    exact hboth.2
  have hemp : s.active = none := by
    by_contra hact
    obtain ⟨turn, hturn⟩ := ne_none_iff_exists'.mp hact
    obtain ⟨_, hx, -⟩ | ⟨_, hfin, -⟩ := hattended turn hturn (hquiet.task turn hturn)
    · simp [hquiet.contenders] at hx
    · simp [hquiet.finishers] at hfin
  exact ⟨hemp, startable_of_idle hemp hquiet.contenders⟩

def wokenAndFinished : List Action :=
  [.receive wakingMail, .submit .wake "W" .regular .limited, .advance 0 {} "", .advance 0 {} "",
    .advance 0 {} "", .advance 0 {} "", .advance 0 {} "", .finishTask 0, .clearFinished 0 "V",
    .advance 0 {} ""]

def isQuiet (s : Session) : Bool :=
  s.contenders.isEmpty && s.finishers.isEmpty && s.active.all (·.task.isNone)

theorem quiet_of_isQuiet {s : Session} (h : isQuiet s = true) : Quiet s := by
  simp only [isQuiet, Bool.and_eq_true, List.isEmpty_iff, Option.all_eq_true,
    Option.isNone_iff_eq_none] at h
  exact ⟨h.1.1, h.1.2, h.2⟩

theorem guarded_quiet_startable_wokenAndFinished :
    ∃ s, sessionStarts.Guarded LeavesNoTurn s ∧ Quiet s ∧ s.installs.length = 1 ∧
      s.active = none ∧ Startable s := by
  obtain ⟨s, hs, hcheck⟩ := exists_guarded_of_runIf sessionStarts LeavesNoTurn wokenAndFinished
    (fun s ↦ isQuiet s && s.installs.length == 1) (by decide +kernel)
  rw [Bool.and_eq_true, beq_iff_eq] at hcheck
  have hquiet := quiet_of_isQuiet hcheck.1
  exact ⟨s, hs, hquiet, hcheck.2, guarded_quiet_startable s hs hquiet⟩

/-- The future of a wake is cancelled while its turn is in the slot, and new mail comes. -/
def cancelledWake : List Action :=
  [.receive wakingMail, .submit .wake "W" .regular .limited, .advance 0 {} "", .cancel 0]

theorem reachable_quiet_not_startable :
    ∃ s, sessionStarts.Reachable s ∧ Quiet s ∧
      (∃ turn claim, s.active = some turn ∧ turn.tasklessStartClaim = some claim ∧
        s.claims claim = .cancelled) ∧ ¬ Startable s := by
  obtain ⟨s, hs, hcheck⟩ := exists_reachable_of_run sessionStarts cancelledWake
    (fun s ↦ isQuiet s && hasTriggerTurnMailboxItems s.queue && !admits s .wake "V" {} 1 &&
      s.active.any fun turn ↦ turn.tasklessStartClaim.any fun claim ↦ s.claims claim == .cancelled)
    (by decide +kernel)
  simp only [Bool.and_eq_true, Bool.not_eq_true', Option.any_eq_true, beq_iff_eq] at hcheck
  obtain ⟨⟨⟨hquiet, htrig⟩, hblocked⟩, turn, hturn, claim, hclaim, hcancelled⟩ := hcheck
  refine ⟨s, hs, quiet_of_isQuiet hquiet, ⟨turn, claim, hturn, hclaim, hcancelled⟩, ?_⟩
  intro hstartable
  have hadmits := hstartable.wake htrig "V" {} (by simp)
  rw [hblocked] at hadmits
  cases hadmits

end Slopdex.Turn.Idle
