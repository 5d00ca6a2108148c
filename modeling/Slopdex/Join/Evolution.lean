import Slopdex.Join.Store

/-!
# How the operations change the obligations of a store

An operation changes at most one of the obligations. `Change` lists the changes that leave an
obligation with its owner, `Evolves` lifts them to the store, and each operation gets one lemma.
Only a registration adds an obligation and only the acknowledgement of a retained delivery moves one
to another turn.
-/

namespace Slopdex.Join.Evolution

open Protocol Library.FirstMatch Library.KeyedMap Join.Store JoinObligation List Bool
open JoinObligationStore

variable {completion : JoinCompletion} {state : Option TurnStateRef} {successor : TurnId}

variable {generation : ℕ} {o o' : JoinObligation} {predecessor pred : TurnId}

inductive Change : JoinObligation → JoinObligation → Prop
  | same (o : JoinObligation) : Change o o
  | record (o : JoinObligation) (child : ThreadId) (status : AgentStatus) (retain : Bool)
      (htarget : child ∈ o.targets) : Change o (o.recordResult child status retain).1
  | finishDispatch (o : JoinObligation) (hready : o.ready = true) :
      Change o { o with dispatchComplete := true }
  | release (o : JoinObligation) (child : ThreadId)
      (hdelivery : o.retainedDeliveryPredecessorTurnId = none) : Change o (o.releaseTarget child)
  | rebind (o : JoinObligation) (child : ThreadId) (incarnation : Incarnation)
      (successor : TurnId) (hdelivery : o.retainedDeliveryPredecessorTurnId = none) :
      Change o (o.rebindTarget child incarnation successor)

def owner (o : JoinObligation) : OwnedObligation × ThreadId × TurnId × Bool :=
  (o.token, o.parentThreadId, o.parentTurnId, o.triggerTurn)

structure Records (o : JoinObligation) (child : ThreadId) (status : AgentStatus) (retain : Bool)
    (o' : JoinObligation) : Prop where
  owner_eq : owner o' = owner o
  targets : o'.targets = o.targets
  results : o'.results = if child ∈ o.results then o.results else o.results.insert child status
  retainedTargets : o'.retainedTargets =
    if retain then insert child o.retainedTargets else o.retainedTargets
  dispatchComplete : o'.dispatchComplete = o.dispatchComplete
  ready : o.ready = true → o'.ready = true

theorem recordResult_records (o : JoinObligation) (child : ThreadId) (status : AgentStatus)
    (retain : Bool) : Records o child status retain (o.recordResult child status retain).1 := by
  have hr : Records o child status retain
      ((o.retainTarget child retain).insertResult child status) := by
    unfold insertResult retainTarget
    constructor <;> split <;> split <;> first | rfl | exact id
  simp only [recordResult]
  split
  · exact hr
  · split
    · exact hr
    · split <;> exact { hr with ready := fun _ ↦ rfl }

theorem recordResult_generation (o : JoinObligation) (child : ThreadId) (status : AgentStatus)
    (retain : Bool) : (o.recordResult child status retain).1.generation = o.generation :=
  congrArg (·.1.generation) (recordResult_records o child status retain).owner_eq

theorem Change.owner_eq (h : Change o o') : owner o' = owner o := by
  cases h with
  | record child status retain => exact (recordResult_records o child status retain).owner_eq
  | same | finishDispatch | release | rebind => rfl

theorem Change.generation_eq (h : Change o o') :
    o'.generation = o.generation :=
  congrArg OwnedObligation.generation (congrArg Prod.fst h.owner_eq)

theorem Change.joinOf_eq (h : Change o o') (thread : ThreadId)
    (turn : TurnId) : o'.joinOf thread turn = o.joinOf thread turn := by
  have ho := h.owner_eq
  simp only [owner, Prod.mk.injEq] at ho
  simp only [joinOf, ownedBy, ho.2.1, ho.2.2.1, ho.2.2.2]

structure Evolves (store store' : JoinObligationStore) : Prop where
  nextGeneration : store'.nextGeneration = store.nextGeneration
  obligations : List.SublistForall₂ (fun after before ↦ Change before after) store'.obligations
    store.obligations

variable {store store' : JoinObligationStore}

theorem Evolves.of_sublist (hn : store'.nextGeneration = store.nextGeneration)
    (hs : store'.obligations.Sublist store.obligations) : Evolves store store' := by
  have : Std.Refl fun after before : JoinObligation ↦ Change before after := ⟨.same⟩
  exact ⟨hn, hs.sublistForall₂⟩

theorem Evolves.exists_change (h : Evolves store store')
    (ho' : o' ∈ store'.obligations) : ∃ o ∈ store.obligations, Change o o' :=
  mem_of_sublistForall₂ h.obligations ho'

theorem Evolves.generations_sublist (h : Evolves store store') :
    (store'.obligations.map JoinObligation.generation).Sublist
      (store.obligations.map JoinObligation.generation) :=
  map_sublist_of_sublistForall₂ _ (fun _ _ hc ↦ hc.generation_eq) h.obligations

theorem Evolves.countP_joinOf_le (h : Evolves store store') (thread : ThreadId) (turn : TurnId) :
    store'.obligations.countP (·.joinOf thread turn) ≤
      store.obligations.countP (·.joinOf thread turn) :=
  countP_le_of_sublistForall₂ _ (fun _ _ hc ↦ hc.joinOf_eq thread turn) h.obligations

def Keeps (store store' : JoinObligationStore) : Prop :=
  ∀ o ∈ store.obligations, ∃ o' ∈ store'.obligations, Change o o'

structure Updates (store store' : JoinObligationStore) : Prop where
  nextGeneration : store'.nextGeneration = store.nextGeneration
  continuations : store'.continuations = store.continuations
  obligations : ∃ p f, (∀ o, p o = true → Change o (f o)) ∧
    store'.obligations = updateFirst p f store.obligations

theorem Updates.refl (store : JoinObligationStore) : Updates store store where
  nextGeneration := rfl
  continuations := rfl
  obligations := by
    have hn : store.obligations.find? (fun _ ↦ false) = none := by simp
    exact ⟨fun _ ↦ false, id, nofun, (updateFirst_of_find?_none hn).symm⟩

theorem Updates.evolves (h : Updates store store') : Evolves store store' := by
  obtain ⟨p, f, hc, ho⟩ := h.obligations
  refine ⟨h.nextGeneration, ?_⟩
  rw [ho]
  exact sublistForall₂_updateFirst .same fun o hf ↦ hc o (find?_some hf)

theorem Updates.keeps (h : Updates store store') : Keeps store store' := by
  obtain ⟨p, f, hc, hob⟩ := h.obligations
  intro o ho
  rw [hob]
  rcases mem_updateFirst_of_mem (p := p) (f := f) ho with hs | ⟨hf, hn⟩
  · exact ⟨o, hs, .same o⟩
  · exact ⟨f o, hn, hc o (find?_some hf)⟩

theorem resolveJoinTargetInner_updates (store : JoinObligationStore) (thread : ThreadId)
    (generation : ℕ) (child : ThreadId) (inc : Incarnation) (turn : TurnId)
    (status : AgentStatus) (retain : Bool) :
    Updates store
      (resolveJoinTargetInner store thread generation child inc turn status retain).1 := by
  unfold resolveJoinTargetInner
  split
  · exact .refl store
  · split
    · exact .refl store
    · split
      · exact .refl store
      · refine ⟨rfl, rfl, _, _, ?_, rfl⟩
        intro o hs
        simp only [hasTarget, and_eq_true, decide_eq_true_eq] at hs
        exact .record o child status retain hs.2

/-- A change that writes no result, moves no target that has one and makes nothing ready. -/
structure Adjusts (o o' : JoinObligation) : Prop where
  change : Change o o'
  ready : o'.ready = true → o.ready = true
  results : o'.results = o.results
  bound : ∀ child ∈ o.results, o'.targets.lookup child = o.targets.lookup child

structure Amends (store store' : JoinObligationStore) : Prop extends Updates store store' where
  adjusts : ∀ o' ∈ store'.obligations, ∃ o ∈ store.obligations, Adjusts o o'

theorem Amends.refl (store : JoinObligationStore) : Amends store store :=
  ⟨.refl store, fun o ho ↦ ⟨o, ho, .same o, id, rfl, fun _ _ ↦ rfl⟩⟩

theorem amends_updateFirst {p : JoinObligation → Bool} {f : JoinObligation → JoinObligation}
    (hf : ∀ o, p o = true → Adjusts o (f o)) :
    Amends store { store with obligations := updateFirst p f store.obligations } := by
  refine ⟨⟨rfl, rfl, p, f, fun o ho ↦ (hf o ho).change, rfl⟩, ?_⟩
  intro o' ho'
  rcases mem_updateFirst ho' with hold | ⟨o, hfn, rfl⟩
  · exact (Amends.refl store).adjusts o' hold
  · exact ⟨o, mem_of_find?_eq_some hfn, hf o (find?_some hfn)⟩

theorem finishJoinDispatch_amends (store : JoinObligationStore) (generation : ℕ) :
    Amends store (finishJoinDispatch store generation) := by
  apply amends_updateFirst
  intro o hs
  simp only [and_eq_true] at hs
  exact ⟨.finishDispatch o hs.2, id, rfl, fun _ _ ↦ rfl⟩

section

variable (store : JoinObligationStore) (thread : ThreadId) (generation : ℕ) (child : ThreadId)
  (inc : Incarnation) (predecessor pred : TurnId)

theorem endRetention_amends {change : JoinObligation → JoinObligation}
    (hc : ∀ o, o.retainedDeliveryPredecessorTurnId = none → child ∉ o.results →
      Adjusts o (change o)) :
    Amends store (endRetention store thread generation child inc pred change).1 := by
  unfold endRetention
  split
  · exact .refl store
  · split
    · apply amends_updateFirst
      intro o hs
      simp only [awaitsSuccessor, and_eq_true, Option.isNone_iff_eq_none, decide_eq_true_eq] at hs
      exact hc o hs.1.2 hs.1.1.2
    · exact .refl store

theorem rebindJoinTargetToSuccessor_amends (successor : TurnId) :
    Amends store (rebindJoinTargetToSuccessor store thread generation child inc
      pred successor).1 := by
  unfold rebindJoinTargetToSuccessor
  split
  · exact .refl store
  · apply endRetention_amends
    intro o hd hc
    refine ⟨.rebind o child inc successor hd, id, rfl, ?_⟩
    intro _ ho
    exact lookup_replace_of_ne (ne_of_mem_of_not_mem ho hc) _

theorem retireJoinTargetSuccessorRetention_amends :
    Amends store (retireJoinTargetSuccessorRetention store thread generation child inc
      pred).1 :=
  endRetention_amends store _ _ _ _ _ fun o hd _ ↦
    ⟨.release o child hd, id, rfl, fun _ _ ↦ rfl⟩

end

/-- The obligation a completion comes from, before and after it was emitted. -/
structure Emits (store store' : JoinObligationStore) (completion : JoinCompletion)
    (o o' : JoinObligation) : Prop where
  mem : o ∈ store.obligations
  mem' : o' ∈ store'.obligations
  unsent : o.triggerSent = false
  owner_eq : owner o' = owner o
  ready : o'.ready = true
  generation_eq : completion.generation = o.generation
  parentTurnId_eq : completion.parentTurnId = o.parentTurnId
  triggerTurn_eq : completion.triggerTurn = o.triggerTurn

theorem Emits.carries (h : Emits store store' completion o o') :
    completion.generation = o'.generation ∧ completion.parentTurnId = o'.parentTurnId ∧
      completion.triggerTurn = o'.triggerTurn := by
  have ho := h.owner_eq
  simp only [owner, Prod.mk.injEq] at ho
  refine ⟨?_, h.parentTurnId_eq.trans ho.2.2.1.symm, h.triggerTurn_eq.trans ho.2.2.2.symm⟩
  rw [h.generation_eq]
  exact congrArg OwnedObligation.generation ho.1.symm

theorem recordResult_completion {child : ThreadId} {status : AgentStatus} {retain : Bool}
    (h : (o.recordResult child status retain).2.completion = some completion) :
    o.triggerSent = false ∧ (o.recordResult child status retain).1.ready = true ∧
      completion.generation = o.generation ∧ completion.parentTurnId = o.parentTurnId ∧
        completion.triggerTurn = o.triggerTurn := by
  have hs : ((o.retainTarget child retain).insertResult child status).triggerSent =
      o.triggerSent := by
    unfold insertResult retainTarget
    split <;> split <;> rfl
  have ho : owner ((o.retainTarget child retain).insertResult child status) = owner o := by
    unfold insertResult retainTarget
    split <;> split <;> rfl
  simp only [owner, Prod.mk.injEq] at ho
  simp only [recordResult] at h ⊢
  split at h
  · cases h
  · split at h
    · cases h
    · split at h
      · cases h
      next ha hd hu =>
        cases h
        refine ⟨?_, ?_, ?_, ?_, ?_⟩
        · rw [← hs]
          exact eq_false_iff.mpr hu
        · rw [if_neg ha, if_neg hd, if_neg hu]
          rfl
        · simp only [completion, generation, ho.1]
        · simp only [completion, ho.2.2.1]
        · simp only [completion, ho.2.2.2]

theorem registerObligation_keeps (store : JoinObligationStore) (thread : ThreadId) (turn : TurnId)
    (targets : TargetBindings) (triggerTurn : Bool) :
    Keeps store (registerObligation store thread turn targets triggerTurn).1 := by
  rcases registerObligation_cases store thread turn targets triggerTurn with hs | ⟨-, ha⟩
  · rw [hs]
    exact fun o ho ↦ ⟨o, ho, .same o⟩
  · rw [ha]
    exact fun o ho ↦ ⟨o, mem_append_left _ ho, .same o⟩

theorem recordTurnTerminal_evolves (store : JoinObligationStore) (thread : ThreadId)
    (turn : TurnId) (state : TurnStateRef) (status : AgentStatus) :
    Evolves store (recordTurnTerminal store thread turn state status) :=
  .of_sublist rfl filter_sublist

theorem generation_of_awaitsDelivery {turn : TurnId}
    (h : o.awaitsDelivery generation turn = true) : o.generation = generation := by
  simp only [awaitsDelivery, and_eq_true, beq_iff_eq] at h
  exact h.1

structure HandsOver (store store' : JoinObligationStore) (predecessor : TurnId) (generation : ℕ)
    (successor : TurnId) (state : Option TurnStateRef) (o : JoinObligation) : Prop where
  found : store.obligations.find? (·.awaitsDelivery generation predecessor) = some o
  retained : o.retainedDeliveryPredecessorTurnId = some predecessor
  result : store' =
    { store with
      obligations := updateFirst (·.awaitsDelivery generation predecessor) (·.handOver successor)
        store.obligations
      continuations := store.continuations ++ newLeases o generation predecessor successor state }

structure Finishes (store store' : JoinObligationStore) (predecessor : TurnId) (generation : ℕ)
    (successor : TurnId) (state : Option TurnStateRef) (o : JoinObligation) : Prop where
  found : store.obligations.find? (·.awaitsDelivery generation predecessor) = some o
  unretained : o.retainedDeliveryPredecessorTurnId ≠ some predecessor
  nextGeneration : store'.nextGeneration = store.nextGeneration
  obligations : store'.obligations =
    store.obligations.eraseP (·.awaitsDelivery generation predecessor)
  continuations : store'.continuations = store.continuations ∨ o.triggerTurn = true ∧
    store'.continuations = store.continuations ++ newLeases o generation predecessor successor state

theorem acknowledgeReadyJoinDelivery_of_find?
    (hf : store.obligations.find? (·.awaitsDelivery generation pred) = some o)
    (successor : TurnId) (state : Option TurnStateRef) :
    HandsOver store (acknowledgeReadyJoinDelivery store pred generation successor state).1
        pred generation successor state o ∨
      Finishes store (acknowledgeReadyJoinDelivery store pred generation successor state).1
        pred generation successor state o := by
  unfold acknowledgeReadyJoinDelivery
  rw [hf]
  dsimp only
  split
  next hr =>
    simp only [inRetainedDeliveryFor, beq_iff_eq] at hr
    exact .inl ⟨hf, hr, rfl⟩
  next hr =>
    simp only [inRetainedDeliveryFor, beq_iff_eq] at hr
    refine .inr ?_
    split
    · exact ⟨hf, hr, rfl, rfl, .inl rfl⟩
    · split
      next ht => exact ⟨hf, hr, rfl, rfl, .inr ⟨ht, rfl⟩⟩
      next => exact ⟨hf, hr, rfl, rfl, .inl rfl⟩

theorem acknowledgeReadyJoinDelivery_of_find?_none
    (hn : store.obligations.find? (·.awaitsDelivery generation pred) = none)
    (successor : TurnId) (state : Option TurnStateRef) :
    acknowledgeReadyJoinDelivery store pred generation successor state = (store, none) := by
  unfold acknowledgeReadyJoinDelivery
  rw [hn]

theorem acknowledgeReadyJoinDelivery_cases (store : JoinObligationStore) (pred : TurnId)
    (generation : ℕ) (successor : TurnId) (state : Option TurnStateRef) :
    (acknowledgeReadyJoinDelivery store pred generation successor state).1 = store ∨
    ∃ o, HandsOver store (acknowledgeReadyJoinDelivery store pred generation successor state).1
        pred generation successor state o ∨
      Finishes store (acknowledgeReadyJoinDelivery store pred generation successor state).1
        pred generation successor state o := by
  cases hf : store.obligations.find? (·.awaitsDelivery generation pred) with
  | none => exact .inl (by rw [acknowledgeReadyJoinDelivery_of_find?_none hf])
  | some o => exact .inr ⟨o, acknowledgeReadyJoinDelivery_of_find? hf successor state⟩

theorem Finishes.evolves (h : Finishes store store' pred generation successor state o) :
    Evolves store store' :=
  .of_sublist h.nextGeneration (h.obligations ▸ eraseP_sublist)

theorem consumeReadyJoinObligationForTargets_cases (store : JoinObligationStore)
    (thread : ThreadId) (turn : TurnId) (targetIds : List ThreadId) (cur : TargetBindings) :
    (consumeReadyJoinObligationForTargets store thread turn targetIds cur).1 = store ∨
    ∃ o, waitCandidate store thread turn targetIds cur = some o ∧
      (consumeReadyJoinObligationForTargets store thread turn targetIds cur).1 =
        (acknowledgeReadyJoinDelivery store turn o.generation turn none).1 := by
  unfold consumeReadyJoinObligationForTargets
  split
  next => exact .inl rfl
  next o hc => exact .inr ⟨o, hc, rfl⟩

theorem HandsOver.generations (h : HandsOver store store' pred generation successor state o) :
    store'.obligations.map JoinObligation.generation =
      store.obligations.map JoinObligation.generation := by
  rw [h.result]
  exact map_updateFirst JoinObligation.generation fun _ ↦ rfl

theorem HandsOver.mem_cases (h : HandsOver store store' pred generation successor state o)
    (ho' : o' ∈ store'.obligations) :
    o' ∈ store.obligations ∨ o ∈ store.obligations ∧ o' = o.handOver successor := by
  rw [h.result] at ho'
  rcases mem_updateFirst ho' with hold | ⟨_, hf, rfl⟩
  · exact .inl hold
  · rw [h.found, Option.some.injEq] at hf
    exact .inr ⟨mem_of_find?_eq_some h.found, by rw [hf]⟩

/-- What an operation does to the obligations: it takes them along their course, adds one, or hands
one over, to another turn only as an acknowledgement. -/
inductive Applies (store : JoinObligationStore) (op : StoreOp) : JoinObligationStore → Prop
  | evolves {store' : JoinObligationStore} (h : Evolves store store') : Applies store op store'
  | adds (thread : ThreadId) (turn : TurnId) (targets : TargetBindings) (triggerTurn : Bool)
      (hop : op = .register thread turn targets triggerTurn) :
      Applies store op (store.add thread turn targets triggerTurn)
  | hands {store' : JoinObligationStore} {predecessor : TurnId} {generation : ℕ}
      {successor : TurnId} {state : Option TurnStateRef} {o : JoinObligation}
      (h : HandsOver store store' predecessor generation successor state o)
      (hop : op = .acknowledge predecessor generation successor state ∨
        successor = predecessor ∧
          ∃ thread targetIds current, op = .wait thread predecessor targetIds current) :
      Applies store op store'

theorem applies_acknowledge {op : StoreOp}
    (hop : op = .acknowledge pred generation successor state ∨
      successor = pred ∧ ∃ thread targetIds cur, op = .wait thread pred targetIds cur) :
    Applies store op (acknowledgeReadyJoinDelivery store pred generation successor state).1 := by
  rcases acknowledgeReadyJoinDelivery_cases store pred generation successor state with
    hs | ⟨o, hh | hf⟩
  · rw [hs]
    exact .evolves (Updates.refl store).evolves
  · exact .hands hh hop
  · exact .evolves hf.evolves

theorem applies_apply (store : JoinObligationStore) (op : StoreOp) :
    Applies store op (store.apply op) := by
  have hr := (Updates.refl store).evolves
  cases op with
  | register thread turn targets triggerTurn =>
    simp only [apply]
    rcases registerObligation_cases store thread turn targets triggerTurn with hs | ⟨-, ha⟩
    · rw [hs]
      exact .evolves hr
    · rw [ha]
      exact .adds thread turn targets triggerTurn rfl
  | resolve => exact .evolves (resolveJoinTargetInner_updates store _ _ _ _ _ _ _).evolves
  | finishDispatch => exact .evolves (finishJoinDispatch_amends store _).evolves
  | acknowledge => exact applies_acknowledge (.inl rfl)
  | wait thread turn targetIds current =>
    simp only [apply]
    rcases consumeReadyJoinObligationForTargets_cases store thread turn targetIds current with
      hs | ⟨o, -, hac⟩
    · rw [hs]
      exact .evolves hr
    · rw [hac]
      exact applies_acknowledge (.inr ⟨rfl, thread, targetIds, current, rfl⟩)
  | rebind => exact .evolves (rebindJoinTargetToSuccessor_amends store _ _ _ _ _ _).evolves
  | retire => exact .evolves (retireJoinTargetSuccessorRetention_amends store _ _ _ _ _).evolves
  | finishContinuation | finishRootContinuations =>
    exact .evolves (.of_sublist rfl (Sublist.refl _))
  | turnTerminal thread turn state status =>
    simp only [apply]
    split
    · exact .evolves (recordTurnTerminal_evolves store thread turn state status)
    · exact .evolves hr

end Slopdex.Join.Evolution
