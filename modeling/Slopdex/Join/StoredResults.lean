import Slopdex.Join.Terminals

/-!
# What observers wait for and what they store

Every result in the parent's store was stored by an observer for the turn that the target is bound
to, and that turn ended with this status unless the child was shut down. A parked observer has the
terminal of its turn still ahead.
-/

namespace Slopdex.Join.StoredResults

open Protocol Library.FirstMatch Library.Transition Library.Transition.System Join.Store List
  Join.Evolution Join.WellFormed Join.ChildSession Join.Recordings Join.Results Join.Observation
  Join.Terminals

variable {setting : Setting} {s s' : State} {action : Action}

inductive ParentMove (setting : Setting) (s : State) (action : Action) (s' : State) : Prop
  | keep (hparent : s'.parent = s.parent) (hevents : s'.events = s.events)
  | operate (op : StoreOp) (hop : State.permits op = true) (hparent : s'.parent = s.parent.apply op)
      (hevents : s'.events = s.events)
  | register (index : ℕ) (registrar : Registrar) (haction : action = .register index)
      (hparent : s'.parent = (registerObligation s.parent setting.parentThreadId
        registrar.parentTurnId registrar.targets registrar.triggerTurn).1)
      (hevents : s'.events = s.events)
  | observe (index : ℕ) (branch : Branch) (dead : List TurnStateRef) (observer after : Observer)
      (effect : Effect) (haction : action = .observe index branch dead)
      (hobserver : s.observers[index]? = some observer)
      (hnext : observer.next setting s.parent s.parentRevision (s.children observer.incarnation)
        branch dead = some (effect, after))
      (hparent : s'.parent = (s.perform setting observer effect).parent)
      (hevents : s'.events = (s.perform setting observer effect).events)

theorem register_parent (setting : Setting) (s : State) (reg : Registrar) :
    (State.register setting s reg).parent = (registerObligation s.parent
      setting.parentThreadId reg.parentTurnId reg.targets reg.triggerTurn).1 ∧
      (State.register setting s reg).events = s.events := by
  unfold State.register
  dsimp only
  split <;> exact ⟨rfl, rfl⟩

theorem parentMove_of_step (hstep : s.step setting action = some s') :
    ParentMove setting s action s' := by
  cases action with
  | child =>
    obtain ⟨-, hm⟩ := Option.ite_none_right_eq_some.mp hstep
    obtain ⟨_, -, rfl⟩ := Option.map_eq_some_iff.mp hm
    exact .keep rfl rfl
  | parent op =>
    obtain ⟨hop, rfl⟩ := Option.ite_some_none_eq_some.mp hstep
    exact .operate op hop rfl rfl
  | announceParent | begin | giveUp =>
    cases hstep
    exact .keep rfl rfl
  | subscribe =>
    obtain ⟨_, -, hsu⟩ := Option.bind_eq_some_iff.mp hstep
    unfold State.subscribe at hsu
    split at hsu
    next =>
      obtain ⟨-, rfl⟩ := Option.ite_some_none_eq_some.mp hsu
      exact .keep rfl rfl
    next => cases hsu
  | bind =>
    obtain ⟨_, -, hb⟩ := Option.bind_eq_some_iff.mp hstep
    obtain ⟨_, -, rfl⟩ := Option.map_eq_some_iff.mp hb
    dsimp only
    split <;> exact .keep rfl rfl
  | register index =>
    obtain ⟨reg, -, hr⟩ := Option.bind_eq_some_iff.mp hstep
    obtain ⟨-, rfl⟩ := Option.ite_some_none_eq_some.mp hr
    obtain ⟨hp, he⟩ := register_parent setting (s.dropRegistrar index) reg
    exact .register index reg rfl hp he
  | observe index branch dead =>
    obtain ⟨obs, hobsr, ho⟩ := Option.bind_eq_some_iff.mp hstep
    obtain ⟨-, ha⟩ := Option.ite_none_right_eq_some.mp ho
    obtain ⟨⟨eff, after⟩, hnext, rfl⟩ := Option.map_eq_some_iff.mp ha
    exact .observe index branch dead obs after eff rfl hobsr hnext rfl rfl

/-- The obligation's results were stored for the turns that their targets are bound to. -/
def StoredFor (events : List Event) (o : JoinObligation) : Prop :=
  ∀ child status, o.results.lookup child = some status →
    ∃ incarnation turnId turnState, o.targets.lookup child = some (incarnation, turnId) ∧
      .stored o.generation child incarnation ⟨turnId, turnState, status⟩ ∈ events

def ResultsStored (s : State) : Prop := ∀ o ∈ s.parent.obligations, StoredFor s.events o

theorem StoredFor.resultsFrom {events events' : List Event} {o o' : JoinObligation}
    (h : StoredFor events o) (hf : ResultsFrom o o') (hev : events ⊆ events') :
    StoredFor events' o' := by
  intro child status hr
  obtain ⟨hbe, ht⟩ := hf.results child status hr
  obtain ⟨inc, turnId, turnState, hb, he⟩ := h child status hbe
  rw [ht, hf.generation_eq]
  exact ⟨inc, turnId, turnState, hb, hev he⟩

theorem ResultsStored.keepsResults (h : ResultsStored s)
    (hk : KeepsResults s.parent s'.parent) (he : s.events ⊆ s'.events) :
    ResultsStored s' := by
  intro o' ho'
  rcases hk o' ho' with ⟨o, ho, hf⟩ | hem
  · exact (h o ho).resultsFrom hf he
  · intro _ _ hr
    rw [hem] at hr
    cases hr

section Permitted

variable {P : JoinObligation → Prop} {store : JoinObligationStore} {op : StoreOp}
  {o' : JoinObligation}

inductive Leaves (o : JoinObligation) : JoinObligation → Prop
  | same : Leaves o o
  | dispatched : Leaves o { o with dispatchComplete := true }
  | handed (predecessor successor : TurnId)
      (hretained : o.retainedDeliveryPredecessorTurnId = some predecessor) :
      Leaves o (o.handOver successor)

theorem leaves_acknowledge {pred succ : TurnId} {gen : ℕ} {state : Option TurnStateRef}
    (ho' : o' ∈ (acknowledgeReadyJoinDelivery store pred gen succ
      state).1.obligations) : ∃ o ∈ store.obligations, Leaves o o' := by
  rcases acknowledgeReadyJoinDelivery_cases store pred gen succ state with
    hsa | ⟨o, hh | hf⟩
  · exact ⟨o', hsa ▸ ho', .same⟩
  · rcases hh.mem_cases ho' with hold | ⟨ho, rfl⟩
    · exact ⟨o', hold, .same⟩
    · exact ⟨o, ho, .handed pred succ hh.retained⟩
  · rw [hf.obligations] at ho'
    exact ⟨o', eraseP_subset ho', .same⟩

theorem leaves_of_permits (hop : State.permits op = true)
    (ho' : o' ∈ (store.apply op).obligations) : ∃ o ∈ store.obligations, Leaves o o' := by
  cases op with
  | register | resolve | rebind | retire => cases hop
  | finishDispatch =>
    rcases mem_updateFirst ho' with hold | ⟨o, hf, rfl⟩
    · exact ⟨o', hold, .same⟩
    · exact ⟨o, mem_of_find?_eq_some hf, .dispatched⟩
  | acknowledge => exact leaves_acknowledge ho'
  | wait thread turn targetIds current =>
    simp only [JoinObligationStore.apply] at ho'
    rcases consumeReadyJoinObligationForTargets_cases store thread turn targetIds current with
      hsa | ⟨o, -, ha⟩
    · exact ⟨o', hsa ▸ ho', .same⟩
    · rw [ha] at ho'
      exact leaves_acknowledge ho'
  | finishContinuation | finishRootContinuations => exact ⟨o', ho', .same⟩
  | turnTerminal =>
    simp only [JoinObligationStore.apply] at ho'
    split at ho'
    · exact ⟨o', filter_sublist.subset ho', .same⟩
    · exact ⟨o', ho', .same⟩

theorem forall_of_permits (hop : State.permits op = true) (hso : Sound store)
    (hd : ∀ o, P o → P { o with dispatchComplete := true })
    (hh : ∀ o pred succ, ObligationInvariant o →
      o.retainedDeliveryPredecessorTurnId = some pred → P o → P (o.handOver succ))
    (h : ∀ o ∈ store.obligations, P o) : ∀ o ∈ (store.apply op).obligations, P o := by
  intro o' ho'
  obtain ⟨o, ho, hl⟩ := leaves_of_permits hop ho'
  cases hl with
  | same => exact h o' ho
  | dispatched => exact hd o (h o ho)
  | handed pred succ hr =>
    exact hh o pred succ (hso o ho) hr (h o ho)

end Permitted

theorem keepsResults_of_permits {op : StoreOp} (hop : State.permits op = true)
    (store : JoinObligationStore) : KeepsResults store (store.apply op) := by
  intro o' ho'
  obtain ⟨o, ho, hl⟩ := leaves_of_permits hop ho'
  refine .inl ⟨o, ho, ?_⟩
  cases hl with
  | same => exact .refl o'
  | dispatched => exact ⟨rfl, fun _ _ h ↦ ⟨h, rfl⟩⟩
  | handed _ succ => exact handOver_resultsFrom o succ

theorem ResultsStored.resolve (h : ResultsStored s) (obs : Observer) (status : AgentStatus)
    (retain : Bool) : ResultsStored (s.perform setting obs (.resolve status retain)) := by
  unfold State.perform
  dsimp only
  rcases resolveJoinTargetInner_cases s.parent setting.parentThreadId obs.generation
      obs.child obs.incarnation obs.turnId status retain with
    hre | ⟨resolution, o, hresn, hr⟩
  · rw [hre]
    exact h.keepsResults (.refl s.parent) (subset_append_left _ _)
  · rw [hresn]
    obtain ⟨_, _, hsp, ha⟩ := hr.obligations
    have hold : ∀ other ∈ s.parent.obligations, StoredFor (s.events ++
        State.resolved obs status (some resolution)) other :=
      fun other ho ↦ (h other ho).resultsFrom (.refl other) (subset_append_left _ _)
    unfold ResultsStored
    rw [ha]
    refine forall_mem_split (fun other ho ↦ hold other (hsp ▸ mem_of_mem_split ho)) ?_
    intro child found hres
    rw [(recordResult_records ..).targets, recordResult_generation]
    rcases lookup_recordResult hres with hb | ⟨rfl, rfl⟩
    · exact hold o hr.mem child found hb
    · refine ⟨obs.incarnation, obs.turnId, obs.turnState, hr.bound, ?_⟩
      rw [hr.generation_eq]
      exact mem_append_right _ mem_cons_self

theorem ResultsStored.perform (h : ResultsStored s) (obs : Observer) (eff : Effect) :
    ResultsStored (s.perform setting obs eff) := by
  cases eff with
  | keep | prune | finish => exact h
  | resolve status retain => exact h.resolve obs status retain
  | retire =>
    exact h.keepsResults
      (keepsResults_of_amends (retireJoinTargetSuccessorRetention_amends _ _ _ _ _ _))
      (subset_append_left _ _)
  | rebind =>
    exact h.keepsResults (keepsResults_of_amends (rebindJoinTargetToSuccessor_amends _ _ _ _ _ _ _))
      (subset_append_left _ _)

theorem ResultsStored.step (h : ResultsStored s) (hstep : s.step setting action = some s') :
    ResultsStored s' := by
  cases parentMove_of_step hstep with
  | keep hp he =>
    unfold ResultsStored
    rw [hp, he]
    exact h
  | operate _ hop hp he =>
    exact h.keepsResults (hp ▸ keepsResults_of_permits hop s.parent) (he ▸ Subset.refl _)
  | register _ _ _ hp he =>
    exact h.keepsResults (hp ▸ registerObligation_keepsResults _ _ _ _ _) (he ▸ Subset.refl _)
  | observe _ _ _ observer _ effect _ _ _ hp he =>
    unfold ResultsStored
    rw [hp, he]
    exact h.perform observer effect

theorem resultsStored_initial : ResultsStored State.initial :=
  nofun

/-- A terminal of the observed turn is still being recorded, or the observer has not yet received
what announces it: the broadcast, or the revision of the lease that it follows. -/
structure NothingMissed (child : Child) (observer : Observer) : Prop where
  watching : observer.phase = .watching → ∀ terminal ∈ child.ended,
    terminal.isFor observer.turnId observer.turnState = true → Underway child terminal ∨
      ∃ position, observer.cursor ≤ position ∧ child.sent[position]? = some terminal
  following : ∀ seen inner predecessor,
    observer.phase = .awaitingSuccessor seen inner predecessor → ∀ terminal ∈ child.ended,
      terminal.isFor observer.turnId observer.turnState = true →
        Underway child terminal ∨ seen < child.revision

theorem nothingMissed_of_phaseOk {child : Child} {observer : Observer} {bound : ℕ}
    (hchild : ChildInvariant observer.child bound child) (h : PhaseOk child observer) :
    NothingMissed child observer := by
  unfold PhaseOk at h
  constructor
  · intro hph terminal he hf
    rw [hph] at h
    rcases hchild.ended_recorded terminal he with hu | hse
    · exact .inl hu
    · obtain ⟨pos, hp⟩ := mem_iff_getElem?.mp hse
      exact .inr ⟨pos, h.1.ahead pos terminal hp hf, hp⟩
  · intro _ _ _ hph terminal he hf
    rw [hph] at h
    rcases hchild.ended_recorded terminal he with hu | hse
    · exact .inl hu
    · exact .inr (Followed.lt_revision h hchild hse hf)

/-- No parked observer has missed the terminal of its turn. Every stored status is the one with which
the observed turn ended, of which a turn has one, or the shutdown of the child; and every result
was stored for the turn that its target is bound to. -/
theorem reachable_terminals_observed (setting : Setting) (s : State)
    (hs : (joinObservers setting).Reachable s) :
    (∀ observer ∈ s.observers, NothingMissed (s.children observer.incarnation) observer) ∧
      (∀ generation child incarnation terminal,
        .stored generation child incarnation terminal ∈ s.events →
          terminal ∈ (s.children incarnation).ended ∨
            terminal.status = .shutdown ∧ (s.children incarnation).shutDown = true) ∧
      (∀ incarnation, ((s.children incarnation).ended.map ExactTerminal.turnState).Nodup) ∧
      ∀ o ∈ s.parent.obligations, ∀ child status, o.results.lookup child = some status →
        ∃ incarnation turnId turnState, o.targets.lookup child = some (incarnation, turnId) ∧
          .stored o.generation child incarnation ⟨turnId, turnState, status⟩ ∈ s.events := by
  have hinv : ObserverInvariant setting s ∧ ResultsStored s :=
    hs.invariant (fun s ↦ ObserverInvariant setting s ∧ ResultsStored s)
      ⟨observerInvariant_initial setting, resultsStored_initial⟩
      fun _ _ _ h hstep ↦ ⟨h.1.step hstep, h.2.step hstep⟩
  refine ⟨?_, hinv.1.stored, fun incarnation ↦ (hinv.1.children incarnation).ended_nodup, hinv.2⟩
  intro observer hmem
  obtain ⟨hthr, hph⟩ := hinv.1.observers observer hmem
  have hchild := hinv.1.children observer.incarnation
  rw [hthr] at hchild
  exact nothingMissed_of_phaseOk hchild hph

/-- Thread 1 joins thread 2, of which every incarnation is one. -/
def oneChild : Setting := ⟨⟨1⟩, fun _ ↦ ⟨2⟩⟩

/-- Turn A joins and waits for turn T1 of its child. One observer stores the result; the other is
parked before the broadcast. -/
def storedAndParked : List Action :=
  joining true ++ [.begin "A" [⟨2⟩] false, .subscribe 0 ⟨0⟩, .bind 0, .register 0,
    .observe 0 .next [], .observe 1 .next []] ++ completing ++ resolving 0

theorem reachable_terminals_observed_storedAndParked :
    ∃ s, (joinObservers oneChild).Reachable s ∧
      .stored 1 ⟨2⟩ ⟨0⟩ ⟨"T1", ⟨0⟩, .completed none⟩ ∈ s.events ∧
      ∃ observer ∈ s.observers, observer.phase = .watching ∧
        NothingMissed (s.children observer.incarnation) observer := by
  obtain ⟨s, hs, hcheck⟩ := exists_reachable_of_run (joinObservers oneChild) storedAndParked
    (fun s ↦ s.events.contains (.stored 1 ⟨2⟩ ⟨0⟩ ⟨"T1", ⟨0⟩, .completed none⟩) &&
      s.observers.any (·.phase == .watching)) (by decide +kernel)
  rw [Bool.and_eq_true, contains_iff_mem, any_eq_true] at hcheck
  obtain ⟨hstd, observer, hobsr, hph⟩ := hcheck
  exact ⟨s, hs, hstd, observer, hobsr, beq_iff_eq.mp hph,
    (reachable_terminals_observed oneChild s hs).1 observer hobsr⟩

end Slopdex.Join.StoredResults
