import Slopdex.Join.Evolution

/-!
# What stands in the results of an obligation

A result is written by the resolution of a target that is bound to the resolved turn, and from then
on until it is dropped neither it nor the binding of its target changes. So whatever was written for
the result still speaks about the turn that the target is bound to.
-/

namespace Slopdex.Join.Results

open Protocol Library.FirstMatch Library.KeyedMap Join.Store Join.Evolution List Bool

variable {store store' : JoinObligationStore} {o o' : JoinObligation}

/-- What is resolved later was resolved before, for the same target. -/
structure ResultsFrom (o o' : JoinObligation) : Prop where
  generation_eq : o'.generation = o.generation
  results : ∀ child status, o'.results.lookup child = some status →
    o.results.lookup child = some status ∧ o'.targets.lookup child = o.targets.lookup child

theorem ResultsFrom.refl (o : JoinObligation) : ResultsFrom o o := ⟨rfl, fun _ _ h ↦ ⟨h, rfl⟩⟩

def KeepsResults (store store' : JoinObligationStore) : Prop :=
  ∀ o' ∈ store'.obligations, (∃ o ∈ store.obligations, ResultsFrom o o') ∨ o'.results = ∅

theorem keepsResults_of_subset (h : store'.obligations ⊆ store.obligations) :
    KeepsResults store store' :=
  fun o' ho' ↦ .inl ⟨o', h ho', .refl o'⟩

theorem KeepsResults.refl (store : JoinObligationStore) : KeepsResults store store :=
  keepsResults_of_subset fun _ ho ↦ ho

theorem keepsResults_of_amends (h : Amends store store') : KeepsResults store store' := by
  intro o' ho'
  obtain ⟨o, ho, ha⟩ := h.adjusts o' ho'
  refine .inl ⟨o, ho, ha.change.generation_eq, ?_⟩
  intro child _ hr
  rw [ha.results] at hr
  exact ⟨hr, ha.bound child (AList.lookup_isSome.mp (hr ▸ rfl))⟩

theorem registerObligation_keepsResults (store : JoinObligationStore) (thread : ThreadId)
    (turn : TurnId) (targets : TargetBindings) (triggerTurn : Bool) :
    KeepsResults store (registerObligation store thread turn targets triggerTurn).1 := by
  rcases registerObligation_cases store thread turn targets triggerTurn with hs | ⟨-, ha⟩
  · rw [hs]
    exact .refl store
  · rw [ha]
    intro o' ho'
    rcases mem_concat.mp ho' with hold | rfl
    · exact .inl ⟨o', hold, .refl o'⟩
    · exact .inr rfl

theorem handOver_resultsFrom (o : JoinObligation) (succ : TurnId) :
    ResultsFrom o (o.handOver succ) :=
  ⟨rfl, fun _ _ h ↦ ⟨lookup_of_lookup_retainKeys h, rfl⟩⟩

theorem lookup_recordResult {child other : ThreadId} {status found : AgentStatus} {retain : Bool}
    (h : (o.recordResult child status retain).1.results.lookup other = some found) :
    o.results.lookup other = some found ∨ other = child ∧ found = status := by
  rw [(recordResult_records ..).results] at h
  split at h
  · exact .inl h
  · rcases lookup_insert_cases h with hn | ⟨-, hold⟩
    · exact .inr hn
    · exact .inl hold

/-- A result is recorded with one obligation of the store. -/
structure Resolves (store store' : JoinObligationStore) (generation : ℕ) (child : ThreadId)
    (incarnation : Incarnation) (turn : TurnId) (status : AgentStatus) (retain : Bool)
    (resolution : RetainedJoinResolution) (o : JoinObligation) : Prop where
  mem : o ∈ store.obligations
  generation_eq : o.generation = generation
  bound : o.targets.lookup child = some (incarnation, turn)
  resolution_eq : resolution = (o.recordResult child status retain).2
  obligations : ∃ before after, store.obligations = before ++ o :: after ∧
    store'.obligations = before ++ (o.recordResult child status retain).1 :: after

theorem resolveJoinTargetInner_cases (store : JoinObligationStore) (thread : ThreadId)
    (gen : ℕ) (child : ThreadId) (inc : Incarnation) (turn : TurnId)
    (status : AgentStatus) (retain : Bool) :
    resolveJoinTargetInner store thread gen child inc turn status retain = (store, none) ∨
      ∃ rsln o, (resolveJoinTargetInner store thread gen child inc turn status
          retain).2 = some rsln ∧
        Resolves store (resolveJoinTargetInner store thread gen child inc turn status
          retain).1 gen child inc turn status retain rsln o := by
  unfold resolveJoinTargetInner
  split
  · exact .inl rfl
  · split
    · exact .inl rfl
    next o hf =>
      split
      · exact .inl rfl
      next ha =>
        have hse := find?_some hf
        simp only [JoinObligation.hasTarget, and_eq_true, beq_iff_eq] at hse
        simp only [JoinObligation.accepts, not_eq_true, not_eq_false', and_eq_true,
          beq_iff_eq] at ha
        obtain ⟨before, after, hs, -, hu, -⟩ := split_of_find?
          (f := fun found ↦ (found.recordResult child status retain).1) hf
        exact .inr ⟨_, o, rfl, mem_of_find?_eq_some hf, hse.1.2, ha.1, rfl,
          before, after, hs, hu⟩

theorem resolveJoinTargetInner_emits {thread : ThreadId} {gen : ℕ} {child : ThreadId}
    {inc : Incarnation} {turn : TurnId} {status : AgentStatus} {retain : Bool}
    {completion : JoinCompletion}
    (h : ((resolveJoinTargetInner store thread gen child inc turn status
      retain).2.bind (·.completion)) = some completion) :
    ∃ o o', Emits store (resolveJoinTargetInner store thread gen child inc turn
      status retain).1 completion o o' := by
  rcases resolveJoinTargetInner_cases store thread gen child inc turn status retain
    with hre | ⟨rsln, o, hres, hr⟩
  · rw [hre] at h
    cases h
  · rw [hres, Option.bind_some, hr.resolution_eq] at h
    obtain ⟨hu, hrd, hg, ht, htr⟩ := recordResult_completion h
    obtain ⟨_, _, -, ha⟩ := hr.obligations
    refine ⟨o, _, hr.mem, ?_, hu, (recordResult_records ..).owner_eq, hrd,
      hg, ht, htr⟩
    rw [ha]
    exact mem_append_right _ mem_cons_self

structure EndsRetention (store store' : JoinObligationStore) (generation : ℕ) (child : ThreadId)
    (change : JoinObligation → JoinObligation) (o : JoinObligation) : Prop where
  generation_eq : o.generation = generation
  unresolved : child ∉ o.results
  obligations : ∃ before after, store.obligations = before ++ o :: after ∧
    store'.obligations = before ++ change o :: after

theorem EndsRetention.mem {gen : ℕ} {child : ThreadId} {change : JoinObligation → JoinObligation}
    (h : EndsRetention store store' gen child change o) : o ∈ store.obligations := by
  obtain ⟨_, _, hs, -⟩ := h.obligations
  rw [hs]
  exact mem_append_right _ mem_cons_self

theorem endRetention_cases (store : JoinObligationStore) (thread : ThreadId) (gen : ℕ)
    (child : ThreadId) (inc : Incarnation) (pred : TurnId)
    (change : JoinObligation → JoinObligation) :
    endRetention store thread gen child inc pred change = (store, false) ∨
      ∃ o, (endRetention store thread gen child inc pred change).2 = true ∧
        EndsRetention store (endRetention store thread gen child inc pred change).1 gen
          child change o := by
  unfold endRetention
  split
  · exact .inl rfl
  next o hf =>
    split
    next =>
      have hse := find?_some hf
      simp only [JoinObligation.awaitsSuccessor, and_eq_true, beq_iff_eq, decide_eq_true_eq] at hse
      obtain ⟨before, after, hs, -, hu, -⟩ := split_of_find? (f := change) hf
      exact .inr ⟨o, rfl, hse.1.1.1.1.2, hse.1.1.2, before, after, hs, hu⟩
    next => exact .inl rfl

end Slopdex.Join.Results
