import Slopdex.Join.Activity
import Slopdex.Join.Coverage
import Slopdex.Join.Undelivered

/-!
# What a quiet session still owns

A session is quiet when no turn runs or ends, its mailbox is empty, its observers and dispatches are
done and the child turns of its obligations are terminal. It owns no join state then, as long as
turns settle their waits, nobody gives up what a join waits for, and leases are finished with their
turns. A wait that timed out stays behind.
-/

namespace Slopdex.Join.Residue

open Protocol Library.Transition Library.Transition.System Join.Store Join.Evolution Join.Mailbox
  Join.SessionStore Join.Provenance Join.PendingMail Join.Handover Join.Recordings
  Join.StoredResults Join.Lifecycle Join.Activity Join.Watching Join.Carriers Join.Coverage
  Join.Undelivered List Option

variable {setting : Setting} {s s' : State} {action : Action} {op : ParentSession.Action}
  {thread : ThreadId} {store : JoinObligationStore} {turnId : TurnId} {turnState : TurnStateRef}

structure Quiet (s : State) : Prop where
  active : s.active = none
  ending : s.ending = []
  mailbox : s.session.queue.mailboxPendingMails = []
  observers : ∀ observer ∈ s.observation.observers, observer.phase = .done
  dispatches : ∀ dispatch ∈ s.session.dispatches, dispatch.stage = .done
  channel : s.session.channel = []
  handler : s.session.handler = none
  terminal : ∀ o ∈ s.store.obligations, ∀ target ∈ o.targets.entries,
    ∃ ended ∈ (s.observation.children target.2.1).ended, ended.turnId = target.2.2

/-- Turns and generations are proper, nobody gives up what a join waits for, and a turn is released
only once its leases are finished. -/
def SettlesJoins (setting : Setting) (s : State) : Action → Prop
  | .observe (.register index) _ _ => s.observation.parent.nextGeneration < u64Max ∧
      ∀ registrar ∈ s.observation.registrars[index]?, isBlank registrar.parentTurnId = false
  | .observe (.observe index branch _) _ _ => ∀ observer ∈ s.observation.observers[index]?,
      Proceeds setting.toSetting s.observation.parent
        (s.observation.children observer.incarnation) observer branch
  | .dispatch op => KeepsMarks s.session op ∧ FailsUnowed s.session op
  | .start turnId _ => isBlank turnId = false
  | .release index => setting.isRoot = true ∨ ∀ turn ∈ s.ending[index]?,
      ∀ lease ∈ s.store.continuations,
        ¬ (lease.successorTurnId = turn.turnId ∧ lease.successorTurnState = turn.turnState)
  | _ => True

instance (setting : Setting) (s : State) (action : Action) :
    Decidable (SettlesJoins setting s action) := by
  induction action using Lifecycle.Action.casesOn with
  | observe op =>
    induction op using Observation.Action.casesOn <;> dsimp only [SettlesJoins] <;> infer_instance
  | _ =>
    dsimp only [SettlesJoins]
    infer_instance

def SettlesAll (setting : Setting) (s : State) (action : Action) : Prop :=
  SettlesWaits s action ∧ SettlesJoins setting s action

instance (setting : Setting) (s : State) (action : Action) :
    Decidable (SettlesAll setting s action) :=
  inferInstanceAs (Decidable (_ ∧ _))

/-- Every lease belongs to the thread and leads to a turn of `holder`. -/
def Held (thread : ThreadId) (holder : TurnId → TurnStateRef → Prop)
    (store : JoinObligationStore) : Prop :=
  ∀ lease ∈ store.continuations, lease.parentThreadId = thread ∧
    holder lease.successorTurnId lease.successorTurnState

section Leases

variable {holder : TurnId → TurnStateRef → Prop}

section

variable (h : Held thread holder store)
include h

theorem Held.of_subset {store' : JoinObligationStore}
    (hsu : store'.continuations ⊆ store.continuations) : Held thread holder store' :=
  fun lease hl ↦ h lease (hsu hl)

theorem Held.of_eq {store' : JoinObligationStore}
    (heq : store'.continuations = store.continuations) : Held thread holder store' := by
  unfold Held
  rw [heq]
  exact h

theorem Held.acknowledge (ht : ∀ o ∈ store.obligations, o.parentThreadId = thread) (pred : TurnId)
    (gen : ℕ) (succ : TurnId) (state : Option TurnStateRef)
    (hh : ∀ turnState ∈ state, pred ≠ succ → holder succ turnState) :
    Held thread holder (acknowledgeReadyJoinDelivery store pred gen succ state).1 := by
  rcases acknowledge_leases store pred gen succ state with
    hsa | ⟨o, ho, ha⟩
  · exact h.of_eq hsa
  · intro lease hl
    rw [ha] at hl
    rcases mem_append.mp hl with hold | hn
    · exact h lease hold
    · cases state with
      | none => cases hn
      | some turnState =>
        unfold newLeases at hn
        dsimp only at hn
        split at hn
        next hne =>
          rw [mem_singleton.mp hn]
          exact ⟨ht o ho, hh turnState rfl hne⟩
        next => cases hn

theorem Held.apply (ht : ∀ o ∈ store.obligations, o.parentThreadId = thread) (storeOp : StoreOp)
    (hh : ∀ pred gen succ turnState,
      storeOp = .acknowledge pred gen succ (some turnState) → pred ≠ succ → holder succ turnState) :
    Held thread holder (store.apply storeOp) := by
  cases storeOp with
  | register thread turn targets triggerTurn =>
    unfold JoinObligationStore.apply
    dsimp only
    rcases registerObligation_cases store thread turn targets triggerTurn with hsa | ⟨-, ha⟩
    · rw [hsa]
      exact h
    · rw [ha]
      exact h
  | resolve => exact h.of_eq (resolveJoinTargetInner_updates _ _ _ _ _ _ _ _).continuations
  | rebind => exact h.of_eq (rebindJoinTargetToSuccessor_amends _ _ _ _ _ _ _).continuations
  | retire => exact h.of_eq (retireJoinTargetSuccessorRetention_amends _ _ _ _ _ _).continuations
  | finishDispatch => exact h
  | acknowledge pred gen succ state =>
    apply h.acknowledge ht pred gen succ state
    rintro turnState rfl hne
    exact hh pred gen succ turnState rfl hne
  | wait thread turn targetIds current =>
    unfold JoinObligationStore.apply
    dsimp only
    rcases consumeReadyJoinObligationForTargets_cases store thread turn targetIds current with
      hsa | ⟨o, -, hac⟩
    · rw [hsa]
      exact h
    · rw [hac]
      exact h.acknowledge ht turn o.generation turn none nofun
  | finishContinuation | finishRootContinuations => exact h.of_subset filter_sublist.subset
  | turnTerminal _ turn _ status =>
    unfold JoinObligationStore.apply
    dsimp only
    split
    · -- The lease learns the status of its turn and keeps the rest.
      intro _ hl
      obtain ⟨before, hb, rfl⟩ := mem_map.mp hl
      split
      all_goals exact h before hb
    · exact h

/-- The operations of the parent itself. -/
theorem Held.applyAll {ops : List StoreOp} (hst : StoreOk thread store)
    (hop : ∀ storeOp ∈ ops, Observation.State.permits storeOp = true)
    (hh : ∀ pred gen succ turnState,
      .acknowledge pred gen succ (some turnState) ∈ ops → pred ≠ succ → holder succ turnState) :
    Held thread holder (applyAll store ops) := by
  induction ops generalizing store with
  | nil => exact h
  | cons storeOp _ ih =>
    refine ih ?_ (hst.operate (hop storeOp mem_cons_self)) ?_ ?_
    · apply h.apply (fun o ho ↦ (hst.prompt o ho).thread_eq) storeOp
      rintro pred gen succ turnState rfl
      exact hh pred gen succ turnState mem_cons_self
    · exact fun other hot ↦ hop other (mem_cons_of_mem storeOp hot)
    · intro pred gen succ turnState hm
      exact hh pred gen succ turnState (mem_cons_of_mem storeOp hm)

end

end Leases

def Unreleased (s : State) (turnId : TurnId) (turnState : TurnStateRef) : Prop :=
  (∃ turn ∈ s.running, turn.turnId = turnId ∧ turn.turnState = turnState) ∨
    ∃ turn ∈ s.ending, turn.turnId = turnId ∧ turn.turnState = turnState

theorem unreleased_of_step (hstep : s.step setting action = some s')
    (h : Unreleased s turnId turnState) : Unreleased s' turnId turnState ∨
      ∃ index turn, action = .release index ∧ s.ending[index]? = some turn ∧
        turn.turnId = turnId ∧ turn.turnState = turnState := by
  have hrels {index : ℕ} {released : EndingTurn} (hrel : s.ending[index]? = some released)
      (hru : s'.running = s.running) (he : s'.ending = s.ending.eraseIdx index) :
      Unreleased s' turnId turnState ∨
        released.turnId = turnId ∧ released.turnState = turnState := by
    rcases h with hr | ⟨turn, ht, hsa⟩
    · exact .inl (.inl (hru ▸ hr))
    · obtain ⟨other, ho⟩ := mem_iff_getElem?.mp ht
      by_cases heq : other = index
      · rw [heq, hrel, some.injEq] at ho
        exact .inr (ho ▸ hsa)
      · have hk : turn ∈ s'.ending := by
          rw [he]
          exact mem_eraseIdx_iff_getElem?.mpr ⟨other, heq, ho⟩
        exact .inl (.inr ⟨turn, hk, hsa⟩)
  have hen {turn : SlotTurn} (status : AgentStatus) (active : Option SlotTurn)
      (ht : s.running = some turn) : Unreleased (s.endTurn turn status active) turnId turnState := by
    rcases h with ⟨_, hru, hsa⟩ | ⟨ended, hm, hsa⟩
    · rw [ht, mem_some_iff] at hru
      subst hru
      exact .inr ⟨_, mem_append_right _ (mem_singleton.mpr rfl), hsa⟩
    · exact .inr ⟨ended, mem_append_left _ hm, hsa⟩
  cases move_of_step hstep with
  | observe | dispatch | deliver => exact .inl h
  | start ha =>
    rcases h with ⟨_, ht, -⟩ | he
    · rw [State.running, ha] at ht
      cases ht
    · exact .inl (.inr he)
  | finish status ht | abort status ht => exact .inl (hen status _ ht)
  | @record index _ _ hre =>
    rcases h with hr | ⟨ended, hm, hsa⟩
    · exact .inl (.inl hr)
    · obtain ⟨other, ho⟩ := mem_iff_getElem?.mp hm
      refine .inl (.inr ?_)
      by_cases heq : index = other
      · rw [← heq, hre, some.injEq] at ho
        have hlt := (List.getElem?_eq_some_iff.mp hre).1
        exact ⟨_, mem_set hlt _, ho ▸ hsa⟩
      · refine ⟨ended, mem_iff_getElem?.mpr ⟨other, ?_⟩, hsa⟩
        rw [List.getElem?_set_ne heq, ho]
  | releaseRoot _ ht | release _ ht =>
    rcases hrels ht rfl rfl with hk | hsa
    · exact .inl hk
    · exact .inr ⟨_, _, rfl, ht, hsa⟩
  | clear ha hta =>
    rcases h with ⟨_, ht, -⟩ | he
    · simp [State.running, ha, Option.filter, hta] at ht
    · exact .inl (.inr he)

def NamesTurn : ParentSession.Action → Prop
  | .register _ turn _ _ => isBlank turn = false
  | .startup successor _ => isBlank successor = false
  | .deliver active => ∀ turnId ∈ active.bind (·.taskSubId), isBlank turnId = false
  | _ => True

theorem namesTurns_of_mem {session : ParentSession.State} (h : NamesTurn op) :
    ∀ storeOp ∈ storeOps session op, NamesTurns storeOp := by
  intro _ hm
  cases storeOpOf_of_mem hm with
  | register | startup => exact h
  | deliver active _ hj =>
    unfold NamesTurns
    cases ht : active.bind (·.taskSubId) with
    | none => exact isBlank_of_mem_mailboxJoinProvenance hj
    | some turnId => exact h turnId ht
  | _ => trivial

/-! ## The invariant -/

structure ResidueInvariant (setting : Setting) (s : State) : Prop where
  waits : WaitInvariant s
  base : Base s.session
  carried : Carried s.session
  coverage : CoverageInvariant setting.toSetting s.observation
  named : ∀ turn ∈ s.active, isBlank turn.turnId = false
  leases : Held setting.parentThreadId (Unreleased s) s.store

section

variable (h : ResidueInvariant setting s)
include h

section

variable (hok : SettlesJoins setting s action)
include hok

section

variable (hstep : s.step setting action = some s')
include hstep

theorem ResidueInvariant.keepsCompletions
    (hop : sessionAction setting s action = some op) : KeepsCompletions s.session op := by
  cases move_of_step hstep with
  | @observe observed _ _ _ _ _ =>
    cases observed with
    | register =>
      obtain ⟨reg, hre, rfl⟩ := map_eq_some_iff.mp hop
      have hn : NamesTurn (.register setting.parentThreadId reg.parentTurnId
        reg.targets reg.triggerTurn) := hok.2 reg hre
      refine ⟨trivial, trivial, namesTurns_of_mem hn, fun _ ↦ ?_⟩
      have hsh : s.observation.parent = s.session.queue.joinObligations := h.waits.shared
      exact hsh ▸ hok.1
    | observe =>
      obtain ⟨_, -, hne⟩ := bind_eq_some_iff.mp hop
      obtain ⟨⟨effect, _⟩, -, he⟩ := bind_eq_some_iff.mp hne
      cases effect with
      | resolve | retire | rebind =>
        cases he
        exact ⟨trivial, trivial, namesTurns_of_mem trivial, Bool.noConfusion⟩
      | _ => cases he
    | _ => cases hop
  | dispatch hdisp =>
    cases hop
    cases op with
    | register | startup | deliver => cases hdisp
    | _ => exact ⟨hok.1, hok.2, namesTurns_of_mem trivial, Bool.noConfusion⟩
  | start =>
    cases hop
    exact ⟨trivial, trivial, namesTurns_of_mem hok, Bool.noConfusion⟩
  | @deliver accepts pendingInput =>
    cases hop
    have hn : NamesTurn (.deliver (s.activeDelivery accepts pendingInput)) := by
      intro _ hta
      obtain ⟨_, hd, hsu⟩ := bind_eq_some_iff.mp hta
      obtain ⟨turn, ht, rfl⟩ := map_eq_some_iff.mp hd
      obtain ⟨-, rfl⟩ := ite_some_none_eq_some.mp hsu
      exact h.named turn ht
    exact ⟨trivial, trivial, namesTurns_of_mem hn, Bool.noConfusion⟩
  | record ht =>
    rw [sessionAction, ht] at hop
    cases hop
    exact ⟨trivial, trivial, namesTurns_of_mem trivial, Bool.noConfusion⟩
  | releaseRoot hr ht =>
    rw [sessionAction, if_pos hr, ht] at hop
    cases hop
    exact ⟨trivial, trivial, namesTurns_of_mem trivial, Bool.noConfusion⟩
  | release hr =>
    rw [sessionAction, hr] at hop
    cases hop
  | finish | abort | clear => cases hop

omit hstep in
omit hok in
theorem ResidueInvariant.coverage_setSession
    {session : ParentSession.State} (hop : observing op = false)
    (hse : s.session.step op = some session) : CoverageInvariant setting.toSetting
      { s.observation with parent := session.queue.joinObligations } := by
  have hst : session.queue.joinObligations =
      applyAll s.observation.parent (storeOps s.session op) := by
    rw [step_joinObligations hse, h.waits.shared]
    rfl
  rw [hst]
  exact h.coverage.operateAll fun storeOp hm ↦ permits_storeOps hop hm

theorem ResidueInvariant.coverage_step : CoverageInvariant setting.toSetting s'.observation := by
  cases move_of_step hstep with
  | @observe observed _ _ _ ho hob =>
    have hk : KeepsWatch setting.toSetting s.observation observed := by
      cases observed with
      | begin =>
        intro he
        rw [he] at ho
        cases ho
      | register => exact hok.1
      | observe => exact hok
      | _ => trivial
    exact h.coverage.step hk hob
  | dispatch hdisp hse =>
    exact h.coverage_setSession (observing_of_dispatches hdisp) hse
  | start _ hse | deliver hse | record _ hse | releaseRoot _ _ hse =>
    exact h.coverage_setSession rfl hse
  | finish | abort | release | clear => exact h.coverage

theorem ResidueInvariant.named_step : ∀ turn ∈ s'.active, isBlank turn.turnId = false := by
  intro turn ht
  cases move_of_step hstep with
  | start =>
    cases ht
    exact hok
  | finish _ hr =>
    have ha := h.named _ (filter_eq_some_iff.mp hr).1
    cases ht
    exact ha
  | abort | clear => cases ht
  | _ => exact h.named turn ht

end

end

end

theorem unreleased_of_acknowledge {pred succ : TurnId} {gen : ℕ}
    (hstep : s.step setting action = some s') (hop : sessionAction setting s action = some op)
    (hm : .acknowledge pred gen succ (some turnState) ∈
      storeOps s.session op) (hne : pred ≠ succ) :
    Unreleased s succ turnState ∨ Unreleased s' succ turnState := by
  have hop' := acknowledge_mem_storeOps hm
  cases move_of_step hstep with
  | observe =>
    have hob := observing_of_observe hop
    rcases hop' with ⟨_, rfl, -⟩ | ⟨_, rfl, -⟩ <;> cases hob
  | dispatch hdisp =>
    cases hop
    rcases hop' with ⟨_, rfl, -⟩ | ⟨_, rfl, -⟩ <;> cases hdisp
  | start =>
    cases hop
    rcases hop' with ⟨_, hst, hsta⟩ | ⟨_, hd, -⟩
    · cases hst
      cases hsta
      exact .inr (.inl ⟨_, rfl, rfl, rfl⟩)
    · cases hd
  | @deliver _ _ =>
    cases hop
    rcases hop' with ⟨_, hst, -⟩ | ⟨_, hd, hsu, hsta⟩
    · cases hst
    · cases hd
      obtain ⟨_, hde, htu⟩ := map_eq_some_iff.mp hsta.symm
      obtain ⟨turn, ht, rfl⟩ := map_eq_some_iff.mp hde
      cases hta : turn.hasTask with
      | false =>
        -- Without a task the join stays with its turn.
        simp [hde, hta] at hsu
        exact absurd hsu.symm hne
      | true =>
        simp [hde, hta] at hsu
        have hru : turn ∈ s.running := filter_eq_some_iff.mpr ⟨ht, hta⟩
        exact .inl (.inl ⟨turn, hru, hsu.symm, htu⟩)
  | record ht =>
    rw [sessionAction, ht] at hop
    cases hop
    rcases hop' with ⟨_, ho, -⟩ | ⟨_, ho, -⟩ <;> cases ho
  | releaseRoot hr ht =>
    rw [sessionAction, if_pos hr, ht] at hop
    cases hop
    rcases hop' with ⟨_, ho, -⟩ | ⟨_, ho, -⟩ <;> cases ho
  | release hr =>
    rw [sessionAction, hr] at hop
    cases hop
  | finish | abort | clear => cases hop

theorem not_successor_of_release {index : ℕ} {turn : EndingTurn}
    (hok : SettlesJoins setting s (.release index))
    (hstep : s.step setting (.release index) = some s') (ht : s.ending[index]? = some turn)
    {lease : JoinContinuationLease} (hl : lease ∈ s'.store.continuations)
    (hth : lease.parentThreadId = setting.parentThreadId) :
    ¬ (turn.turnId = lease.successorTurnId ∧ turn.turnState = lease.successorTurnState) := by
  rintro ⟨hid, hst⟩
  cases move_of_step hstep with
  | @releaseRoot _ _ _ _ hr hse =>
    obtain rfl := mem_unique ht hr
    cases hse
    have hk := (mem_filter.mp hl).2
    simp [hth, hid, hst] at hk
  | release hro =>
    have hn := hok.resolve_left (by rw [hro]; exact Bool.false_ne_true)
    exact hn turn ht lease hl ⟨hid.symm, hst.symm⟩

theorem ResidueInvariant.leases_step (h : ResidueInvariant setting s)
    (hok : SettlesJoins setting s action) (hstep : s.step setting action = some s') :
    Held setting.parentThreadId (Unreleased s') s'.store := by
  -- A lease is that of a turn from before the step or of one that the step has started.
  have hh : Held setting.parentThreadId
      (fun turnId turnState ↦ Unreleased s turnId turnState ∨ Unreleased s' turnId turnState)
      s'.store := by
    have hb : Held setting.parentThreadId
        (fun turnId turnState ↦ Unreleased s turnId turnState ∨ Unreleased s' turnId turnState)
        s.store := fun lease hl ↦ ⟨(h.leases lease hl).1, .inl (h.leases lease hl).2⟩
    have hst : StoreOk setting.parentThreadId s.store := h.waits.shared ▸ h.coverage.store
    rcases sessionMove_of_step h.waits.shared hstep with ⟨-, hsa⟩ | ⟨op, hop, hse⟩
    · exact hb.of_eq (congrArg (·.queue.joinObligations.continuations) hsa)
    · rw [State.store, step_joinObligations hse]
      cases hob : observing op with
      | false =>
        apply hb.applyAll hst fun storeOp hm ↦ permits_storeOps hob hm
        intro _ _ _ _ hm hne
        exact unreleased_of_acknowledge hstep hop hm hne
      | true =>
        have hth := fun o ho ↦ (hst.prompt o ho).thread_eq
        cases op with
        | register => exact hb.apply hth (.register ..) fun _ _ _ _ heq ↦ nomatch heq
        | resolve => exact hb.apply hth (.resolve ..) fun _ _ _ _ heq ↦ nomatch heq
        | rebind => exact hb.apply hth (.rebind ..) fun _ _ _ _ heq ↦ nomatch heq
        | retire => exact hb.apply hth (.retire ..) fun _ _ _ _ heq ↦ nomatch heq
        | _ => cases hob
  intro lease hl
  obtain ⟨hth, hk | hn⟩ := hh lease hl
  · rcases unreleased_of_step hstep hk with hn | ⟨_, _, rfl, ht, hsa⟩
    · exact ⟨hth, hn⟩
    · exact absurd hsa (not_successor_of_release hok hstep ht hl hth)
  · exact ⟨hth, hn⟩

theorem ResidueInvariant.step (h : ResidueInvariant setting s)
    (hok : SettlesAll setting s action) (hstep : s.step setting action = some s') :
    ResidueInvariant setting s' := by
  have hse : Base s'.session ∧ Carried s'.session := by
    rcases sessionMove_of_step h.waits.shared hstep with ⟨-, hsa⟩ | ⟨_, hop, hse⟩
    · rw [hsa]
      exact ⟨h.base, h.carried⟩
    · have hk := h.keepsCompletions hok.2 hstep hop
      exact ⟨base_of_keepsCompletions h.base hk hse,
        h.carried.step h.base hk.failures hse⟩
  exact ⟨h.waits.step hok.1 hstep, hse.1, hse.2, h.coverage_step hok.2 hstep,
    h.named_step hok.2 hstep, h.leases_step hok.2 hstep⟩

theorem residueInvariant_initial (setting : Setting) : ResidueInvariant setting .initial where
  waits := waitInvariant_initial
  base := base_initial
  carried := carried_initial
  coverage := coverageInvariant_initial setting.toSetting
  named := nofun
  leases := nofun

theorem Quiet.pending_eq_zero (h : Quiet s) (n : ℕ) : pending s.session n = 0 := by
  have hd : (s.session.dispatches[n]?).toList.countP sending = 0 := by
    rw [countP_eq_zero]
    intro dispatch hm hse
    rw [mem_toList] at hm
    rw [sending, h.dispatches dispatch (mem_of_getElem? hm)] at hse
    cases hse
  simp [pending, onTheWay, mailed, hd, h.channel, h.handler, h.mailbox]

theorem ResidueInvariant.unowned (h : ResidueInvariant setting s) (hquiet : Quiet s) :
    hasOwnedJoinState s.store = false := by
  have hob : s.store.obligations = [] := by
    rw [eq_nil_iff_forall_not_mem]
    intro o ho
    cases hk : o.triggerTurn with
    | false =>
      obtain ⟨_, hr, -⟩ := h.waits.owned o ho hk
      rw [State.running, hquiet.active] at hr
      cases hr
    | true =>
      have hpa : o ∈ s.observation.parent.obligations := h.waits.shared ▸ ho
      have hrd := h.coverage.ready_of_done hquiet.observers hpa hk
      obtain ⟨n, _, -, -, -, hp⟩ := h.carried.carried o ho hrd hk
      rw [hquiet.pending_eq_zero n] at hp
      exact absurd hp (lt_irrefl 0)
  have hl : s.store.continuations = [] := by
    rw [eq_nil_iff_forall_not_mem]
    intro lease hle
    rcases (h.leases lease hle).2 with ⟨_, hr, -⟩ | ⟨_, he, -⟩
    · rw [State.running, hquiet.active] at hr
      cases hr
    · rw [hquiet.ending] at he
      cases he
  rw [hasOwnedJoinState, hob, hl]
  rfl

/-- In every run in which waits and joins are settled, a quiet session owns no join state. -/
theorem guarded_quiet_unowned (setting : Setting) (s : State)
    (hs : (lifecycle setting).Guarded (SettlesAll setting) s) (hquiet : Quiet s) :
    hasOwnedJoinState s.store = false := by
  have hinv : ResidueInvariant setting s :=
    hs.invariant (ResidueInvariant setting) (residueInvariant_initial setting)
      fun _ _ _ h hok hstep ↦ h.step hok hstep
  exact hinv.unowned hquiet

instance (s : State) : Decidable (Quiet s) :=
  decidable_of_iff (s.active = none ∧ s.ending = [] ∧ s.session.queue.mailboxPendingMails = [] ∧
    (∀ observer ∈ s.observation.observers, observer.phase = .done) ∧
    (∀ dispatch ∈ s.session.dispatches, dispatch.stage = .done) ∧ s.session.channel = [] ∧
    s.session.handler = none ∧ ∀ o ∈ s.store.obligations, ∀ target ∈ o.targets.entries,
      ∃ ended ∈ (s.observation.children target.2.1).ended, ended.turnId = target.2.2)
    ⟨fun ⟨h₁, h₂, h₃, h₄, h₅, h₆, h₇, h₈⟩ ↦ ⟨h₁, h₂, h₃, h₄, h₅, h₆, h₇, h₈⟩,
      fun h ↦ ⟨h.1, h.2, h.3, h.4, h.5, h.6, h.7, h.8⟩⟩

/-- Turn A joins turn T1 of its child and ends; turn B takes the completion of the join and ends. -/
def joinedAndContinued : List Action :=
  [.start "A" ⟨10⟩] ++
    observed (Observation.joining true ++ .observe 0 .next [] :: Observation.completing ++
      Observation.resolving 0) ++
    [.dispatch (.mark 0), .dispatch (.submit 0), .dispatch (.finish 0), .dispatch .receive,
      .dispatch .handle, .dispatch .handle, .dispatch .handle, .finish (.completed none),
      .record 0, .release 0, .clear, .start "B" ⟨11⟩, .finish (.completed none), .record 0,
      .release 0, .clear]

theorem guarded_quiet_unowned_continued :
    ∃ s, Quiet s ∧ s.session.dispatches.length = 1 ∧ hasOwnedJoinState s.store = false := by
  obtain ⟨s, hs, hcheck⟩ := exists_guarded_of_runIf (lifecycle rootWithChild)
    (SettlesAll rootWithChild) joinedAndContinued
    (fun s ↦ decide (Quiet s ∧ s.session.dispatches.length = 1)) (by decide +kernel)
  obtain ⟨hquiet, hdisp⟩ := of_decide_eq_true hcheck
  exact ⟨s, hquiet, hdisp, guarded_quiet_unowned rootWithChild s hs hquiet⟩

/-- The wait of turn A times out and the turn ends; nothing removes its obligation. -/
theorem reachable_quiet_owned :
    ¬ ∀ setting s, (lifecycle setting).Reachable s → Quiet s →
      hasOwnedJoinState s.store = false := by
  intro hclaim
  obtain ⟨s, hs, hcheck⟩ := exists_reachable_of_run (lifecycle rootWithChild)
    (waitedFor ++ [.finish (.completed none), .record 0, .release 0, .clear])
    (fun s ↦ decide (Quiet s ∧ hasOwnedJoinState s.store = true)) (by decide +kernel)
  obtain ⟨hquiet, howned⟩ := of_decide_eq_true hcheck
  rw [hclaim rootWithChild s hs hquiet] at howned
  cases howned

end Slopdex.Join.Residue
