import Slopdex.Join.Results
import Slopdex.Join.WellFormed

/-!
# Where ready obligations come from

Only a resolution that emits a completion makes an obligation ready. Every other operation leaves
the ready obligations with their owners or takes some of them away, and an acknowledgement leaves
none of its own generation.
-/

namespace Slopdex.Join.Readiness

open Protocol Library.FirstMatch Join.Store Join.Evolution Join.WellFormed Join.Results List
  JoinObligation

variable {store store' : JoinObligationStore} {o o' : JoinObligation}

/-- No owner gets a ready obligation that had none before. -/
def ReadyBefore (store store' : JoinObligationStore) : Prop :=
  ∀ o' ∈ store'.obligations, o'.ready = true →
    ∃ o ∈ store.obligations, o.ready = true ∧ owner o' = owner o

theorem readyBefore_of_subset (h : store'.obligations ⊆ store.obligations) :
    ReadyBefore store store' :=
  fun o' ho' hr ↦ ⟨o', h ho', hr, rfl⟩

theorem ReadyBefore.refl (store : JoinObligationStore) : ReadyBefore store store :=
  readyBefore_of_subset fun _ ho ↦ ho

theorem readyBefore_of_amends (h : Amends store store') : ReadyBefore store store' := by
  intro o' ho' hr
  obtain ⟨o, ho, ha⟩ := h.adjusts o' ho'
  exact ⟨o, ho, ha.ready hr, ha.change.owner_eq⟩

theorem recordTurnTerminal_readyBefore (store : JoinObligationStore) (thread : ThreadId)
    (turn : TurnId) (state : TurnStateRef) (status : AgentStatus) :
    ReadyBefore store (recordTurnTerminal store thread turn state status) :=
  readyBefore_of_subset (filter_sublist).subset

theorem registerObligation_readyBefore (store : JoinObligationStore) (thread : ThreadId)
    (turn : TurnId) (targets : TargetBindings) (triggerTurn : Bool) :
    ReadyBefore store (registerObligation store thread turn targets triggerTurn).1 := by
  rcases registerObligation_cases store thread turn targets triggerTurn with hs | ⟨-, ha⟩
  · rw [hs]
    exact .refl store
  · rw [ha]
    intro o' ho' hr
    rcases mem_concat.mp ho' with hold | rfl
    · exact ⟨o', hold, hr, rfl⟩
    · cases hr

theorem recordResult_ready (h : ObligationInvariant o) {child : ThreadId} {status : AgentStatus}
    {retain : Bool} (hrd : (o.recordResult child status retain).1.ready = true) :
    o.ready = true ∨ (o.recordResult child status retain).2.completion.isSome = true := by
  have hr : ((o.retainTarget child retain).insertResult child status).ready = o.ready ∧
      ((o.retainTarget child retain).insertResult child status).triggerSent = o.triggerSent := by
    unfold insertResult retainTarget
    split <;> split <;> exact ⟨rfl, rfl⟩
  simp only [recordResult] at hrd ⊢
  split at hrd
  next => exact .inl (hr.1 ▸ hrd)
  next ha =>
    split at hrd
    next => exact .inl (hr.1 ▸ hrd)
    next hre =>
      split at hrd
      next hs => exact .inl (h.ready_iff_triggerSent.mpr (hr.2 ▸ hs))
      next hs =>
        refine .inr ?_
        rw [if_neg ha, if_neg hre, if_neg hs]
        rfl

theorem resolveJoinTargetInner_readyBefore (hs : Sound store) {thread : ThreadId}
    {gen : ℕ} {child : ThreadId} {inc : Incarnation} {turn : TurnId}
    {status : AgentStatus} {retain : Bool}
    (ho' : o' ∈ (resolveJoinTargetInner store thread gen child inc turn status
      retain).1.obligations) (hrd : o'.ready = true) :
    (∃ o ∈ store.obligations, o.ready = true ∧ owner o' = owner o) ∨
      ∃ completion, (resolveJoinTargetInner store thread gen child inc turn status
        retain).2.bind (·.completion) = some completion ∧
          completion.generation = o'.generation := by
  rcases resolveJoinTargetInner_cases store thread gen child inc turn status retain
    with hre | ⟨resolution, o, hres, hr⟩
  · rw [hre] at ho'
    exact .inl ⟨o', ho', hrd, rfl⟩
  · obtain ⟨_, _, hsp, ha⟩ := hr.obligations
    rw [hres, Option.bind_some, hr.resolution_eq]
    rw [ha, mem_append, mem_cons, or_left_comm, ← mem_append] at ho'
    rcases ho' with rfl | ho
    · rcases recordResult_ready (hs o hr.mem) hrd with hb | he
      · exact .inl ⟨o, hr.mem, hb, (recordResult_records ..).owner_eq⟩
      · obtain ⟨completion, hc⟩ := Option.isSome_iff_exists.mp he
        refine .inr ⟨completion, hc, ?_⟩
        rw [(recordResult_completion hc).2.2.1, recordResult_generation]
    · exact .inl ⟨o', hsp ▸ mem_of_mem_split ho, hrd, rfl⟩

theorem ready_acknowledge (hd : Distinct store) {pred succ : TurnId}
    {gen : ℕ} {state : Option TurnStateRef}
    (ho' : o' ∈ (acknowledgeReadyJoinDelivery store pred gen succ
      state).1.obligations) (hr : o'.ready = true) :
    o' ∈ store.obligations ∧ ¬ (o'.generation = gen ∧ o'.parentTurnId = pred) := by
  cases hf : store.obligations.find? (·.awaitsDelivery gen pred) with
  | none =>
    rw [acknowledgeReadyJoinDelivery_of_find?_none hf] at ho'
    refine ⟨ho', ?_⟩
    rintro ⟨hg, ht⟩
    have hn := find?_eq_none.mp hf o' ho'
    simp [awaitsDelivery, hg, ht, hr] at hn
  | some o =>
    have hse := find?_some hf
    obtain ⟨before, after, hs, -, hu, he⟩ := split_of_find? (f := (·.handOver succ)) hf
    -- Both kinds of acknowledgement leave the other obligations as they are.
    have ho : o' ∈ before ++ after := by
      rcases acknowledgeReadyJoinDelivery_of_find? hf succ state with hh | hfi
      · rw [hh.result] at ho'
        rw [hu, mem_append, mem_cons] at ho'
        rcases ho' with hb | rfl | ha
        · exact mem_append_left _ hb
        · cases hr
        · exact mem_append_right _ ha
      · rw [hfi.obligations, he] at ho'
        exact ho'
    refine ⟨?_, ?_⟩
    · rw [hs]
      exact (sublist_cons_self o after).append_left before |>.subset ho
    · rintro ⟨hg, -⟩
      apply hd.generation_ne_of_split hs ho
      rw [generation_of_awaitsDelivery hse, hg]

end Slopdex.Join.Readiness
