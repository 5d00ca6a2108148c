import Slopdex.Join.Evolution

/-!
# What every obligation of a store satisfies

The invariant relates the generation counter, the results, the retained targets and the four flags
of an obligation. What concerns one obligation is kept by every change an obligation can undergo,
and so by every operation. That generations are distinct also needs the counter not to saturate.
-/

namespace Slopdex.Join.WellFormed

open Protocol Library.FirstMatch Library.KeyedMap Join.Store Join.Evolution JoinObligation Bool
open AList
  JoinObligationStore List

variable {o o' : JoinObligation}

structure ObligationInvariant (obligation : JoinObligation) : Prop where
  results_subset : ∀ child, child ∈ obligation.results → child ∈ obligation.targets
  retained_subset : ∀ child ∈ obligation.retainedTargets, child ∈ obligation.targets
  ready_iff_triggerSent : obligation.ready = true ↔ obligation.triggerSent = true
  ready_of_dispatchComplete : obligation.dispatchComplete = true → obligation.ready = true
  results_of_ready : obligation.ready = true →
    ∀ child, child ∈ obligation.targets → child ∈ obligation.results
  retained_delivery : ∀ turn, obligation.retainedDeliveryPredecessorTurnId = some turn →
    obligation.ready = true ∧ obligation.triggerTurn = true ∧ turn = obligation.parentTurnId ∧
      obligation.retainedTargets.Nonempty
  unconsumed : obligation.token.consumed = false

def Sound (store : JoinObligationStore) : Prop :=
  ∀ o ∈ store.obligations, ObligationInvariant o

structure Distinct (store : JoinObligationStore) : Prop where
  generations_nodup : (store.obligations.map generation).Nodup
  generation_le : ∀ o ∈ store.obligations, o.generation ≤ store.nextGeneration

/-! ## Changes of one obligation -/

theorem registered_invariant (thread : ThreadId) (turn : TurnId) (targets : TargetBindings)
    (triggerTurn : Bool) (gen : ℕ) :
    ObligationInvariant
      (.registered thread turn targets triggerTurn (OwnedObligation.new gen)) where
  results_subset := by simp [registered]
  retained_subset := by simp [registered]
  ready_iff_triggerSent := by simp [registered]
  ready_of_dispatchComplete := by simp [registered]
  results_of_ready := by simp [registered]
  retained_delivery := by simp [registered]
  unconsumed := rfl

variable {obligation : JoinObligation} {child : ThreadId} {status : AgentStatus}

section

variable (h : ObligationInvariant obligation)
include h

theorem retainTarget_invariant (hc : child ∈ obligation.targets) (retain : Bool) :
    ObligationInvariant (obligation.retainTarget child retain) := by
  unfold retainTarget
  split
  · refine { h with retained_subset := ?_, retained_delivery := ?_ }
    · intro other ho
      rcases Finset.mem_insert.mp ho with rfl | ho
      · exact hc
      · exact h.retained_subset other ho
    · intro turn ht
      obtain ⟨hr, htr, heq, -⟩ := h.retained_delivery turn ht
      exact ⟨hr, htr, heq, Finset.insert_nonempty _ _⟩
  · exact h

theorem insertResult_invariant (hc : child ∈ obligation.targets) :
    ObligationInvariant (obligation.insertResult child status) := by
  unfold insertResult
  split
  · exact h
  · refine { h with results_subset := ?_, results_of_ready := ?_ }
    · intro other ho
      rcases (mem_insert _).mp ho with rfl | ho
      · exact hc
      · exact h.results_subset other ho
    · intro hr other ho
      exact (mem_insert _).mpr (.inr (h.results_of_ready hr other ho))

section

variable (hall : obligation.hasAllResults = true)
include hall

theorem mem_results_of_hasAllResults :
    ∀ target, target ∈ obligation.targets → target ∈ obligation.results := by
  intro _ ht
  have hs : size obligation.results = size obligation.targets := by
    simpa [hasAllResults] using hall
  exact mem_of_keys_subset_of_size_eq h.results_subset hs ht

theorem sendTrigger_invariant (hs : obligation.triggerSent = false) :
    ObligationInvariant obligation.sendTrigger := by
  have hrd : obligation.ready = false := by
    cases hr : obligation.ready with
    | false => rfl
    | true =>
      rw [h.ready_iff_triggerSent.mp hr] at hs
      cases hs
  have hre := mem_results_of_hasAllResults h hall
  refine { h with
    ready_iff_triggerSent := by simp [sendTrigger]
    ready_of_dispatchComplete := fun _ ↦ rfl
    results_of_ready := fun _ ↦ hre
    retained_delivery := ?_ }
  intro turn ht
  simp only [sendTrigger] at ht
  split at ht
  next hb =>
    simp only [and_eq_true, decide_eq_true_eq] at hb
    exact ⟨rfl, hb.1, (Option.some.inj ht).symm, hb.2⟩
  next =>
    obtain ⟨hr, -⟩ := h.retained_delivery turn ht
    rw [hrd] at hr
    cases hr

theorem markReady_invariant (hs : obligation.triggerSent = true) :
    ObligationInvariant { obligation with ready := true } := by
  have hr := mem_results_of_hasAllResults h hall
  exact { h with
    ready_iff_triggerSent := by simp [hs]
    ready_of_dispatchComplete := fun _ ↦ rfl
    results_of_ready := fun _ ↦ hr
    retained_delivery := fun turn ht ↦
      ⟨rfl, (h.retained_delivery turn ht).2⟩ }

end

theorem recordResult_invariant (hc : child ∈ obligation.targets) (retain : Bool) :
    ObligationInvariant (obligation.recordResult child status retain).1 := by
  have hret := retainTarget_invariant h hc retain
  have ht : (obligation.retainTarget child retain).targets = obligation.targets := by
    unfold retainTarget
    split <;> rfl
  have hr : ObligationInvariant
      ((obligation.retainTarget child retain).insertResult child status) :=
    insertResult_invariant hret (by rw [ht]; exact hc)
  simp only [recordResult]
  split
  · exact hr
  next hall =>
    simp only [not_eq_true', not_eq_false] at hall
    split
    · exact hr
    · split
      next hs => exact markReady_invariant hr hall hs
      next hs =>
        exact sendTrigger_invariant hr hall (eq_false_iff.mpr hs)

theorem handOver_invariant (succ : TurnId) : ObligationInvariant (obligation.handOver succ) where
  results_subset := fun other ho ↦ h.results_subset other (mem_retainKeys.mp ho).1
  retained_subset := h.retained_subset
  ready_iff_triggerSent := by simp [handOver]
  ready_of_dispatchComplete := by simp [handOver]
  results_of_ready := by simp [handOver]
  retained_delivery := by simp [handOver]
  unconsumed := h.unconsumed

theorem finishDispatch_invariant (hr : obligation.ready = true) :
    ObligationInvariant { obligation with dispatchComplete := true } :=
  { h with ready_of_dispatchComplete := fun _ ↦ hr }

theorem releaseTarget_invariant (child : ThreadId)
    (hd : obligation.retainedDeliveryPredecessorTurnId = none) :
    ObligationInvariant (obligation.releaseTarget child) :=
  { h with
    retained_subset := fun other ho ↦
      h.retained_subset other (Finset.mem_of_mem_erase ho)
    retained_delivery := by simp [releaseTarget, hd] }

theorem rebindTarget_invariant (child : ThreadId)
    (hd : obligation.retainedDeliveryPredecessorTurnId = none)
    (inc : Incarnation) (succ : TurnId) :
    ObligationInvariant (obligation.rebindTarget child inc succ) :=
  { releaseTarget_invariant h child hd with
    results_subset := fun other ho ↦
      mem_replace.mpr (h.results_subset other ho)
    retained_subset := fun other ho ↦
      mem_replace.mpr (h.retained_subset other (Finset.mem_of_mem_erase ho))
    results_of_ready := fun hr other ho ↦
      h.results_of_ready hr other (mem_replace.mp ho) }

end

theorem Change.invariant (hc : Change o o')
    (h : ObligationInvariant o) : ObligationInvariant o' := by
  cases hc with
  | same => exact h
  | record _ _ retain ht => exact recordResult_invariant h ht retain
  | finishDispatch hr => exact finishDispatch_invariant h hr
  | release child hd => exact releaseTarget_invariant h child hd
  | rebind child inc succ hd =>
    exact rebindTarget_invariant h child hd inc succ

variable {store store' : JoinObligationStore}

section

variable (h : Sound store)
include h

theorem Sound.evolves (hs : Evolves store store') : Sound store' := by
  intro _ ho'
  obtain ⟨o, ho, hc⟩ := hs.exists_change ho'
  exact Change.invariant hc (h o ho)

theorem Sound.updates (hs : Updates store store') : Sound store' :=
  h.evolves hs.evolves

theorem Sound.add (thread : ThreadId) (turn : TurnId) (targets : TargetBindings)
    (triggerTurn : Bool) : Sound (store.add thread turn targets triggerTurn) := by
  intro o ho
  rcases mem_concat.mp ho with hold | rfl
  · exact h o hold
  · exact registered_invariant _ _ _ _ _

theorem Sound.apply (op : StoreOp) : Sound (store.apply op) := by
  have ha := applies_apply store op
  generalize store.apply op = store' at ha ⊢
  cases ha with
  | evolves he => exact h.evolves he
  | adds thread turn targets triggerTurn => exact h.add thread turn targets triggerTurn
  | hands hh =>
    intro o' ho'
    rcases hh.mem_cases ho' with hold | ⟨ho, rfl⟩
    · exact h o' hold
    · exact handOver_invariant (h _ ho) _

theorem Sound.acknowledge_isSome {pred : TurnId} {gen : ℕ}
    (hf : store.obligations.find? (·.awaitsDelivery gen pred) = some o)
    (succ : TurnId) (state : Option TurnStateRef) :
    (acknowledgeReadyJoinDelivery store pred gen succ state).2.isSome := by
  have hu := (h o (mem_of_find?_eq_some hf)).unconsumed
  have hs := find?_some hf
  simp only [JoinObligation.awaitsDelivery, JoinObligation.generation, and_eq_true] at hs
  have hc : o.token.consumeIfCurrent gen = true := by
    simp [OwnedObligation.consumeIfCurrent, hu, hs.1]
  unfold acknowledgeReadyJoinDelivery
  rw [hf]
  dsimp only
  rw [hc]
  split
  · rfl
  · split
    · contradiction
    · split <;> rfl

theorem Sound.consume_cases (thread : ThreadId) (turn : TurnId)
    (targetIds : List ThreadId) (cur : TargetBindings) :
    waitCandidate store thread turn targetIds cur = none ∧
      consumeReadyJoinObligationForTargets store thread turn targetIds cur = (store, none) ∨
    ∃ o ∈ store.obligations, waitCandidate store thread turn targetIds cur = some o ∧
      o.parentTurnId = turn ∧ o.ready = true ∧
      consumeReadyJoinObligationForTargets store thread turn targetIds cur =
        ((acknowledgeReadyJoinDelivery store turn o.generation turn none).1,
          some (o.generation, sortedOutcomes o.results)) := by
  cases hc : waitCandidate store thread turn targetIds cur with
  | none => exact .inl ⟨rfl, by simp [consumeReadyJoinObligationForTargets, hc]⟩
  | some o =>
    have hmem : o ∈ store.obligations.filter (·.satisfiesWait thread turn targetIds cur) := by
      unfold waitCandidate at hc
      split at hc
      next hsi =>
        cases hc
        rw [hsi]
        exact mem_singleton_self o
      next => cases hc
    obtain ⟨hmem, hs⟩ := mem_filter.mp hmem
    simp only [satisfiesWait, ownedBy, and_eq_true, beq_iff_eq] at hs
    obtain ⟨⟨⟨⟨⟨-, ht⟩, hr⟩, -⟩, -⟩, -⟩ := hs
    have hw : o.awaitsDelivery o.generation turn = true := by
      simp [awaitsDelivery, ht, hr]
    obtain ⟨_, hf⟩ := Option.isSome_iff_exists.mp
      (find?_isSome (p := (·.awaitsDelivery o.generation turn)).mpr ⟨o, hmem, hw⟩)
    obtain ⟨_, hch⟩ := Option.isSome_iff_exists.mp (h.acknowledge_isSome hf turn none)
    refine .inr ⟨o, hmem, rfl, ht, hr, ?_⟩
    simp [consumeReadyJoinObligationForTargets, hc, hch]

end

section

variable (h : Distinct store)
include h

namespace Distinct

theorem eq_of_generation_eq (ho : o ∈ store.obligations) (ho' : o' ∈ store.obligations)
    (heq : o.generation = o'.generation) : o = o' :=
  inj_on_of_nodup_map h.generations_nodup ho ho' heq

theorem generation_ne_of_split
    {before after : List JoinObligation} (hs : store.obligations = before ++ o :: after)
    (ho' : o' ∈ before ++ after) : o'.generation ≠ o.generation := by
  have hn := h.generations_nodup
  rw [hs, map_append, map_cons, nodup_middle, ← map_append, nodup_cons] at hn
  intro heq
  exact hn.1 (heq ▸ mem_map_of_mem ho')

theorem filter_eq_singleton {p : JoinObligation → Bool} (ho : o ∈ store.obligations)
    (hp : p o = true)
    (hg : ∀ o', p o' = true → o'.generation = o.generation) :
    store.obligations.filter p = [o] := by
  obtain ⟨before, after, hs⟩ := append_of_mem ho
  have hn (o' : JoinObligation) (ho' : o' ∈ before ++ after) : ¬ p o' = true :=
    fun hp' ↦ h.generation_ne_of_split hs ho' (hg o' hp')
  have hb : before.filter p = [] :=
    filter_eq_nil_iff.mpr fun o' ho' ↦ hn o' (mem_append_left _ ho')
  have ha : after.filter p = [] :=
    filter_eq_nil_iff.mpr fun o' ho' ↦ hn o' (mem_append_right _ ho')
  rw [hs, filter_append, filter_cons_of_pos hp, hb, ha, nil_append]

theorem of_sublist (hn : store'.nextGeneration = store.nextGeneration)
    (hg : (store'.obligations.map generation).Sublist
      (store.obligations.map generation)) : Distinct store' where
  generations_nodup := h.generations_nodup.sublist hg
  generation_le := by
    intro o ho
    have hmem := hg.subset (mem_map_of_mem (f := generation) ho)
    obtain ⟨old, hold, heq⟩ := mem_map.mp hmem
    rw [hn, ← heq]
    exact h.generation_le old hold

theorem evolves (hs : Evolves store store') : Distinct store' :=
  h.of_sublist hs.nextGeneration hs.generations_sublist

theorem updates (hs : Updates store store') : Distinct store' :=
  h.evolves hs.evolves

theorem add (hc : store.nextGeneration < u64Max)
    (thread : ThreadId) (turn : TurnId) (targets : TargetBindings) (triggerTurn : Bool) :
    Distinct (store.add thread turn targets triggerTurn) := by
  have hn : saturatingSucc store.nextGeneration = store.nextGeneration + 1 := by
    unfold saturatingSucc
    omega
  unfold JoinObligationStore.add
  rw [hn]
  refine ⟨?_, ?_⟩
  · rw [map_append, nodup_append]
    refine ⟨h.generations_nodup, by simp, ?_⟩
    intro _ hg g' hg' _
    obtain ⟨o, ho, rfl⟩ := mem_map.mp hg
    have hle := h.generation_le o ho
    have hne : g' = store.nextGeneration + 1 := by
      simpa [generation, registered, OwnedObligation.new] using hg'
    omega
  · intro o ho
    rcases mem_concat.mp ho with hold | rfl
    · exact (h.generation_le o hold).trans (Nat.le_succ _)
    · exact le_of_eq rfl

theorem apply (op : StoreOp)
    (hc : ∀ thread turn targets triggerTurn, op = .register thread turn targets triggerTurn →
      store.creates op = true → store.nextGeneration < u64Max) :
    Distinct (store.apply op) := by
  have ha := applies_apply store op
  unfold creates at hc
  generalize store.apply op = store' at ha hc ⊢
  cases ha with
  | evolves he => exact h.evolves he
  | adds thread turn targets triggerTurn hop =>
    refine h.add (hc thread turn targets triggerTurn hop ?_) thread turn targets triggerTurn
    simp [JoinObligationStore.add]
  | hands hh =>
    refine h.of_sublist ?_ (hh.generations ▸ List.Sublist.refl _)
    rw [hh.result]

theorem acknowledge (pred : TurnId) (gen : ℕ) (succ : TurnId) (state : Option TurnStateRef) :
    Distinct (acknowledgeReadyJoinDelivery store pred gen succ state).1 := by
  apply h.apply (.acknowledge pred gen succ state)
  intro _ _ _ _ hop
  cases hop

end Distinct

end

theorem apply_nextGeneration_le (store : JoinObligationStore) (op : StoreOp) :
    (store.apply op).nextGeneration ≤ store.nextGeneration + (store.creates op).toNat := by
  have ha := applies_apply store op
  unfold creates
  generalize store.apply op = store' at ha ⊢
  cases ha with
  | evolves he => exact Nat.le_add_right_of_le he.nextGeneration.le
  | adds => simp [JoinObligationStore.add, saturatingSucc]
  | hands hh =>
    rw [hh.result]
    exact Nat.le_add_right _ _

/-- What every operation keeps, every sequence of operations keeps. -/
theorem applyAll_induction (Inv : JoinObligationStore → Prop)
    (hs : ∀ store op, Inv store → Inv (store.apply op)) (h : Inv store) (ops : List StoreOp) :
    Inv (applyAll store ops) := by
  induction ops generalizing store with
  | nil => exact h
  | cons op _ ih => exact ih (hs store op h)

theorem applyAll_sound (ops : List StoreOp) (h : Sound store) : Sound (applyAll store ops) :=
  applyAll_induction Sound (fun _ op hs ↦ hs.apply op) h ops

theorem applyAll_distinct (ops : List StoreOp) (h : Distinct store)
    (hc : store.nextGeneration + registrations store ops < u64Max) :
    Distinct (applyAll store ops) := by
  induction ops generalizing store with
  | nil => exact h
  | cons op _ ih =>
    rw [registrations] at hc
    have hn := apply_nextGeneration_le store op
    refine ih (h.apply op fun _ ↦ by omega) ?_
    omega

/-- Every obligation of every store that fewer than `u64::MAX` registrations produce. -/
theorem applyAll_obligation_wellFormed (ops : List StoreOp)
    (hcount : registrations .empty ops < u64Max) :
    ((applyAll .empty ops).obligations.map generation).Nodup ∧
    ∀ obligation ∈ (applyAll .empty ops).obligations,
      obligation.generation ≤ (applyAll .empty ops).nextGeneration ∧
      (∀ child, child ∈ obligation.results → child ∈ obligation.targets) ∧
      (∀ child ∈ obligation.retainedTargets, child ∈ obligation.targets) ∧
      (obligation.ready = true ↔ obligation.triggerSent = true) ∧
      (obligation.dispatchComplete = true → obligation.ready = true) ∧
      (obligation.ready = true → ∀ child, child ∈ obligation.targets → child ∈ obligation.results) ∧
      ∀ turn, obligation.retainedDeliveryPredecessorTurnId = some turn →
        obligation.ready = true ∧ obligation.triggerTurn = true ∧
          turn = obligation.parentTurnId ∧ obligation.retainedTargets.Nonempty := by
  have hsound : Sound (applyAll .empty ops) :=
    applyAll_sound ops (by simp [Sound, empty])
  have hdist : Distinct (applyAll .empty ops) := by
    apply applyAll_distinct ops
    · exact ⟨by simp [empty], by simp [empty]⟩
    · rw [show empty.nextGeneration = 0 from rfl]
      omega
  refine ⟨hdist.generations_nodup, ?_⟩
  intro obligation hmem
  have h := hsound obligation hmem
  exact ⟨hdist.generation_le obligation hmem, h.results_subset, h.retained_subset,
    h.ready_iff_triggerSent, h.ready_of_dispatchComplete, h.results_of_ready, h.retained_delivery⟩

/-- A join of one child turn whose completion is retained for the child's successor. -/
def retainedDeliveryOps : List StoreOp :=
  [.register ⟨1⟩ "parent" (singleTarget ⟨2⟩ ⟨0⟩ "child") true,
    .resolve ⟨1⟩ 1 ⟨2⟩ ⟨0⟩ "child" (.completed none) true]

theorem retainedDeliveryOps_wellFormed : registrations .empty retainedDeliveryOps = 1 ∧
    (applyAll .empty retainedDeliveryOps).obligations.map
      retainedDeliveryPredecessorTurnId = [some "parent"] ∧
    ∀ obligation ∈ (applyAll .empty retainedDeliveryOps).obligations, ∀ turn,
      obligation.retainedDeliveryPredecessorTurnId = some turn →
        obligation.ready = true ∧ obligation.triggerTurn = true ∧
          turn = obligation.parentTurnId ∧ obligation.retainedTargets.Nonempty := by
  refine ⟨by decide, by decide, ?_⟩
  intro obligation hmem
  obtain ⟨-, -, -, -, -, -, hret⟩ :=
    (applyAll_obligation_wellFormed retainedDeliveryOps (by decide)).2 obligation hmem
  exact hret

end Slopdex.Join.WellFormed
