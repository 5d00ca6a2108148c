import Slopdex.Join.Lifecycle

/-!
# Whose wait obligation wakes a turn

A turn that waits or sleeps is woken at once if mail is pending or any wait obligation of the store
is ready. As long as every turn consumes its waits before it ends, the store holds no wait
obligation of another turn; a wait that timed out leaves one behind, which wakes all later turns.
-/

namespace Slopdex.Join.Activity

open Protocol Library.FirstMatch Library.Transition Library.Transition.System Join.Store List
  Join.Evolution Join.WellFormed Join.Mailbox Join.Lifecycle

inductive InputQueueActivity
  | mailbox
  | steer
  deriving DecidableEq

/-- The pending activity that `subscribe_activity` answers; the turn state says whether input of the
user is pending for the turn. -/
def subscribeActivity (queue : InputQueue) (hasPendingSteer : Bool) : Option InputQueueActivity :=
  if hasPendingSteer then some .steer
  else if hasPendingMailboxItems queue || hasReadyWaitObligation queue.joinObligations then
    some .mailbox
  else none

/-- The running turn is told of mailbox activity only for mail or for a ready wait of its own. -/
def Attributed (s : State) : Prop :=
  ∀ turn ∈ s.running, ∀ hasPendingSteer,
    subscribeActivity s.session.queue hasPendingSteer = some .mailbox →
      s.session.queue.mailboxPendingMails ≠ [] ∨
        ∃ o ∈ s.store.obligations, o.ready = true ∧ o.triggerTurn = false ∧
          o.parentTurnId = turn.turnId

def SettlesWaits (s : State) : Action → Prop
  | .observe (.register index) _ _ => ∀ registrar ∈ s.observation.registrars[index]?,
      registrar.triggerTurn = false → ∃ turn ∈ s.running, registrar.parentTurnId = turn.turnId
  | .finish _ | .abort _ => ∀ turn ∈ s.running, ∀ o ∈ s.store.obligations,
      o.triggerTurn = false → o.parentTurnId ≠ turn.turnId
  | _ => True

instance (s : State) (action : Action) : Decidable (SettlesWaits s action) := by
  unfold SettlesWaits
  split <;> infer_instance

def WaitsFrom (store store' : JoinObligationStore) : Prop :=
  ∀ o' ∈ store'.obligations, o'.triggerTurn = false →
    ∃ o ∈ store.obligations, o.triggerTurn = false ∧ o.parentTurnId = o'.parentTurnId

variable {store store' : JoinObligationStore}

theorem WaitsFrom.refl (store : JoinObligationStore) : WaitsFrom store store :=
  fun o ho hw ↦ ⟨o, ho, hw, rfl⟩

theorem waitsFrom_of_evolves (h : Evolves store store') : WaitsFrom store store' := by
  intro _ ho' hw
  obtain ⟨o, ho, hc⟩ := h.exists_change ho'
  have hown := hc.owner_eq
  simp only [owner, Prod.mk.injEq] at hown
  exact ⟨o, ho, hown.2.2.2 ▸ hw, hown.2.2.1.symm⟩

/-- Only joins are handed over to another turn. -/
theorem waitsFrom_apply (hso : Sound store) {op : StoreOp} (hop : registers op = false) :
    WaitsFrom store (store.apply op) := by
  have ha := applies_apply store op
  generalize store.apply op = store' at ha ⊢
  cases ha with
  | evolves he => exact waitsFrom_of_evolves he
  | adds _ _ _ _ hr =>
    rw [hr] at hop
    cases hop
  | hands hh =>
    intro o' ho' hw
    rcases hh.mem_cases ho' with hold | ⟨ho, rfl⟩
    · exact ⟨o', hold, hw, rfl⟩
    · have hj := ((hso _ ho).retained_delivery _ hh.retained).2.1
      rw [JoinObligation.handOver, hj] at hw
      cases hw

theorem waitsFrom_applyAll (hso : Sound store) {ops : List StoreOp}
    (hop : ∀ op ∈ ops, registers op = false) : WaitsFrom store (applyAll store ops) := by
  induction ops generalizing store with
  | nil => exact .refl store
  | cons op _ ih =>
    intro o' ho' hw
    have hr := ih (hso.apply op) fun op' hop' ↦ hop op' (mem_cons_of_mem op hop')
    obtain ⟨o, ho, hw', ht⟩ := hr o' ho' hw
    obtain ⟨first, hf, hk, hsa⟩ :=
      waitsFrom_apply hso (hop op mem_cons_self) o ho hw'
    exact ⟨first, hf, hk, hsa.trans ht⟩

variable {setting : Setting} {s s' : State} {action : Action}

structure WaitInvariant (s : State) : Prop where
  shared : Shared s
  sound : Sound s.store
  owned : ∀ o ∈ s.store.obligations, o.triggerTurn = false →
    ∃ turn ∈ s.running, o.parentTurnId = turn.turnId

theorem running_of_step (hstep : s.step setting action = some s') :
    s'.running = s.running ∨ s.running = none ∨
      (∃ status, action = .finish status ∨ action = .abort status) ∧ s'.store = s.store := by
  cases move_of_step hstep with
  | start ha => exact .inr (.inl (by rw [State.running, ha]; rfl))
  | finish status => exact .inr (.inr ⟨⟨status, .inl rfl⟩, rfl⟩)
  | abort status => exact .inr (.inr ⟨⟨status, .inr rfl⟩, rfl⟩)
  | clear ha ht => exact .inr (.inl (by simp [State.running, ha, Option.filter, ht]))
  | _ => exact .inl rfl

theorem WaitInvariant.step (h : WaitInvariant s) (hok : SettlesWaits s action)
    (hstep : s.step setting action = some s') : WaitInvariant s' := by
  have hm := storeMove_of_step h.shared hstep
  -- What the store held before the step and the step has kept.
  have hk (hf : WaitsFrom s.store s'.store) : ∀ o ∈ s'.store.obligations,
      o.triggerTurn = false → ∃ turn ∈ s'.running, o.parentTurnId = turn.turnId := by
    intro o' ho' hw'
    obtain ⟨o, ho, hw, ht⟩ := hf o' ho' hw'
    obtain ⟨turn, hrun, hown⟩ := h.owned o ho hw
    rcases running_of_step hstep with hsa | hn | ⟨⟨_, he⟩, -⟩
    · exact ⟨turn, hsa ▸ hrun, ht.symm.trans hown⟩
    · rw [hn] at hrun
      cases hrun
    · have hno : o.parentTurnId ≠ turn.turnId := by
        rcases he with rfl | rfl <;> exact hok turn hrun o ho hw
      exact absurd hown hno
  refine ⟨h.shared.step hstep, sound_of_storeMove h.sound hm, ?_⟩
  cases hm with
  | operate _ hop hst => exact hk (hst ▸ waitsFrom_applyAll h.sound hop)
  | register _ reg _ _ ha hr hac hst =>
    rcases registerObligation_cases s.store setting.parentThreadId reg.parentTurnId
        reg.targets reg.triggerTurn with hsa | ⟨-, had⟩
    · exact hk (by rw [hst, hsa]; exact .refl s.store)
    · intro o ho hw
      rw [hst, had] at ho
      rcases mem_concat.mp ho with hold | rfl
      · obtain ⟨turn, _, hown⟩ := h.owned o hold hw
        exact ⟨turn, by rwa [State.running, hac], hown⟩
      · rw [ha] at hok
        obtain ⟨turn, _, hown⟩ := hok reg hr hw
        exact ⟨turn, by rwa [State.running, hac], hown⟩

theorem waitInvariant_initial : WaitInvariant .initial where
  shared := rfl
  sound := forall_mem_nil _
  owned := forall_mem_nil _

theorem WaitInvariant.attributed (h : WaitInvariant s) : Attributed s := by
  intro _ ht _ hactiv
  unfold subscribeActivity at hactiv
  split at hactiv
  next => cases hactiv
  next =>
    split at hactiv
    next hp =>
      rcases Bool.or_eq_true_iff.mp hp with hmail | hr
      · refine .inl ?_
        intro hemp
        simp [hasPendingMailboxItems, hemp] at hmail
      · obtain ⟨o, ho, hb⟩ := any_eq_true.mp hr
        rw [Bool.and_eq_true, Bool.not_eq_true'] at hb
        obtain ⟨_, hown, hsa⟩ := h.owned o ho hb.2
        rw [Option.mem_def.mp ht, Option.mem_some_iff] at hown
        exact .inr ⟨o, ho, hb.1, hb.2, hown ▸ hsa⟩
    next => cases hactiv

/-- In every run in which turns settle their waits, no other turn is woken by them. -/
theorem guarded_activity_attributed (setting : Setting) (s : State)
    (hs : (lifecycle setting).Guarded SettlesWaits s) : Attributed s := by
  have hinv : WaitInvariant s :=
    hs.invariant WaitInvariant waitInvariant_initial fun _ _ _ h hok hstep ↦ h.step hok hstep
  exact hinv.attributed

def rootWithChild : Setting := ⟨⟨⟨1⟩, fun _ ↦ ⟨2⟩⟩, true⟩

def observed (actions : List Observation.Action) : List Action :=
  actions.map (.observe · "/root" "/root/child")

/-- Turn A waits for turn T1 of its child, which completes. -/
def waitedFor : List Action :=
  [.start "A" ⟨10⟩] ++
    observed (Observation.joining false ++ .observe 0 .next [] :: Observation.completing ++
      Observation.resolving 0) ++
    [.dispatch (.notify 0)]

theorem guarded_activity_attributed_waitedFor :
    ∃ s, Attributed s ∧ (s.running.map (·.turnId)) = some "A" ∧
      subscribeActivity s.session.queue false = some .mailbox := by
  obtain ⟨s, hs, hcheck⟩ := exists_guarded_of_runIf (lifecycle rootWithChild) SettlesWaits waitedFor
    (fun s ↦ decide ((s.running.map (·.turnId)) = some "A" ∧
      subscribeActivity s.session.queue false = some .mailbox)) (by decide +kernel)
  exact ⟨s, guarded_activity_attributed rootWithChild s hs, of_decide_eq_true hcheck⟩

def timedOut : List Action :=
  waitedFor ++ [.finish (.completed none), .record 0, .release 0, .clear, .start "B" ⟨11⟩]

/-- The wait obligation of turn A tells turn B of mailbox activity. -/
theorem reachable_activity_not_attributed :
    ¬ ∀ setting s, (lifecycle setting).Reachable s → Attributed s := by
  intro hclaim
  obtain ⟨s, hs, hcheck⟩ := exists_reachable_of_run (lifecycle rootWithChild) timedOut
    (fun s ↦ decide (s.running = some ⟨"B", ⟨11⟩, true⟩ ∧
      subscribeActivity s.session.queue false = some .mailbox ∧
      s.session.queue.mailboxPendingMails = [] ∧
      s.store.obligations.map (·.parentTurnId) = ["A"])) (by decide +kernel)
  obtain ⟨hrun, hactiv, hemp, howners⟩ := of_decide_eq_true hcheck
  rcases hclaim rootWithChild s hs ⟨"B", ⟨11⟩, true⟩ hrun false hactiv with
    hmail | ⟨o, ho, -, -, hown⟩
  · exact hmail hemp
  · have hmem : o.parentTurnId ∈ s.store.obligations.map (·.parentTurnId) :=
      mem_map_of_mem ho
    rw [howners, hown] at hmem
    exact absurd hmem (by decide)

end Slopdex.Join.Activity
