import Slopdex.Library.Spacing
import Slopdex.Join.StoredResults

/-!
# Completions of one generation

A completion goes out when the last missing result arrives. After its delivery each retained target
waits until it is rebound or retired. An observer that resolves it before that, or once more with a
stored terminal, completes the generation again for nothing. Apart from that, two completions of a
generation have a rebound or retired target between them.
-/

namespace Slopdex.Join.Completions

open Protocol Library.Transition Library.Transition.System Library.Spacing Library.FirstMatch
open AList
  Library.KeyedMap Join.Store Join.Evolution Join.WellFormed Join.ChildSession Join.Results
  Join.Observation Join.Terminals Join.StoredResults JoinObligation List

variable {setting : Setting} {s s' : State} {o : JoinObligation} {child : ThreadId}
  {status : AgentStatus} {retain : Bool} {events : List Event}

def Completes (generation : ℕ) : Event → Prop
  | .emitted g _ _ _ => g = generation
  | _ => False

def Moves (generation : ℕ) : Event → Prop
  | .rebound g _ predecessor successor => g = generation ∧ predecessor ≠ successor
  | .retired g _ => g = generation
  | _ => False

/-- The retained result of the target was delivered, and the target has not moved on. -/
def Consumed (o : JoinObligation) (child : ThreadId) : Prop :=
  child ∈ o.retainedTargets ∧ child ∉ o.results ∧ o.retainedDeliveryPredecessorTurnId = none

instance (o : JoinObligation) (child : ThreadId) : Decidable (Consumed o child) :=
  inferInstanceAs (Decidable (_ ∧ _ ∧ _))

theorem recordResult_emits (h : ObligationInvariant o) (hc : child ∈ o.targets)
    (he : (o.recordResult child status retain).2.completion.isSome = true) :
    o.triggerSent = false ∧ (o.recordResult child status retain).1.triggerSent = true ∧
      ∀ target, target ∈ o.targets → target ∈ o.results ∨ target = child := by
  obtain ⟨_, hco⟩ := Option.isSome_iff_exists.mp he
  obtain ⟨hu, hrd, -⟩ := recordResult_completion hco
  have hinv : ObligationInvariant (o.recordResult child status retain).1 :=
    recordResult_invariant h hc retain
  refine ⟨hu, hinv.ready_iff_triggerSent.mp hrd, ?_⟩
  intro target ht
  have hr := hinv.results_of_ready hrd target
    (by rw [(recordResult_records ..).targets]; exact ht)
  rw [(recordResult_records ..).results] at hr
  split at hr
  · exact .inl hr
  · exact ((mem_insert _).mp hr).symm

/-- What a resolution without a completion leaves. -/
structure Silent (o o' : JoinObligation) : Prop where
  triggerSent_eq : o'.triggerSent = o.triggerSent
  delivery_eq : o'.retainedDeliveryPredecessorTurnId = o.retainedDeliveryPredecessorTurnId
  retained : o.retainedTargets ⊆ o'.retainedTargets
  missing : o.triggerSent = false → ∃ target, target ∈ o'.targets ∧ target ∉ o'.results

theorem recordResult_silent (h : ObligationInvariant o) (hc : child ∈ o.targets)
    (hsi : (o.recordResult child status retain).2.completion = none) :
    Silent o (o.recordResult child status retain).1 := by
  have hf : ((o.retainTarget child retain).insertResult child status).triggerSent =
        o.triggerSent ∧
      ((o.retainTarget child retain).insertResult child status).retainedDeliveryPredecessorTurnId =
        o.retainedDeliveryPredecessorTurnId ∧
      o.retainedTargets ⊆
        ((o.retainTarget child retain).insertResult child status).retainedTargets := by
    unfold insertResult retainTarget
    split <;> split <;>
      first | exact ⟨rfl, rfl, Finset.subset_insert _ _⟩ | exact ⟨rfl, rfl, Finset.Subset.refl _⟩
  have hinv : ObligationInvariant (o.recordResult child status retain).1 :=
    recordResult_invariant h hc retain
  simp only [recordResult] at hsi hinv ⊢
  split at hsi
  next ha =>
    rw [if_pos ha] at hinv ⊢
    refine ⟨hf.1, hf.2.1, hf.2.2, fun _ ↦ ?_⟩
    simp only [hasAllResults, Bool.not_eq_true', beq_eq_false_iff_ne] at ha
    exact exists_not_mem_of_size_ne hinv.results_subset ha
  next ha =>
    rw [if_neg ha] at hinv ⊢
    split at hsi
    next hr =>
      rw [if_pos hr] at hinv ⊢
      refine ⟨hf.1, hf.2.1, hf.2.2, fun hu ↦ ?_⟩
      -- A retained delivery is under way only once the trigger is out.
      simp only [inRetainedDelivery, Bool.and_eq_true] at hr
      obtain ⟨turn, ht⟩ := Option.isSome_iff_exists.mp hr.2
      have hse := hinv.ready_iff_triggerSent.mp (hinv.retained_delivery turn ht).1
      rw [hf.1, hu] at hse
      cases hse
    next hr =>
      rw [if_neg hr] at hinv ⊢
      split at hsi
      next hse =>
        rw [if_pos hse] at hinv ⊢
        refine ⟨hf.1, hf.2.1, hf.2.2, fun hu ↦ ?_⟩
        rw [hf.1, hu] at hse
        cases hse
      next => cases hsi

/-- An obligation that has not sent its trigger misses a result; and unless its generation may
complete again, its trigger is out or a consumed target is in the way. -/
structure Settled (events : List Event) (o : JoinObligation) : Prop where
  missing : o.triggerSent = false → ∀ target, target ∈ o.targets →
    ∃ other, other ∈ o.targets ∧ other ∉ o.results
  awaiting : Cleared (Completes o.generation) (Moves o.generation) events ∨
    o.triggerSent = true ∨ ∃ target, Consumed o target

theorem Settled.concat (h : Settled events o) (event : Event)
    (hevent : ¬ Completes o.generation event) : Settled (events ++ [event]) o :=
  { h with awaiting := h.awaiting.imp_left fun hc ↦ hc.concat hevent }

theorem Settled.handOver (hinv : ObligationInvariant o) {pred : TurnId}
    (hr : o.retainedDeliveryPredecessorTurnId = some pred) (events : List Event)
    (succ : TurnId) : Settled events (o.handOver succ) := by
  obtain ⟨-, -, -, target, ht⟩ := hinv.retained_delivery pred hr
  have hf : target ∉ (o.handOver succ).results := by
    intro hm
    have hk := (mem_retainKeys.mp hm).2
    rw [decide_eq_true_eq] at hk
    exact hk ht
  refine ⟨fun _ _ _ ↦ ⟨target, hinv.retained_subset target ht, hf⟩, ?_⟩
  exact .inr (.inr ⟨target, ht, hf, rfl⟩)

section

variable (h : Settled events o)
include h

theorem Settled.releaseTarget (child : ThreadId) :
    Settled (events ++ [.retired o.generation child]) (o.releaseTarget child) :=
  ⟨h.missing, .inl (cleared_concat rfl id)⟩

theorem Settled.rebindTarget (child : ThreadId) (inc : Incarnation)
    {pred succ : TurnId} (hne : pred ≠ succ) :
    Settled (events ++ [.rebound o.generation child pred succ])
      (o.rebindTarget child inc succ) := by
  refine ⟨?_, .inl (cleared_concat ⟨rfl, hne⟩ id)⟩
  intro hu target ht
  obtain ⟨other, ho, hm⟩ := h.missing hu target (mem_replace.mp ht)
  exact ⟨other, mem_replace.mpr ho, hm⟩

theorem Settled.silent (hn : ¬ Consumed o child)
    (hsi : Silent o (o.recordResult child status retain).1) :
    Settled events (o.recordResult child status retain).1 := by
  constructor
  · intro hu _ _
    rw [hsi.triggerSent_eq] at hu
    exact hsi.missing hu
  · rw [recordResult_generation, hsi.triggerSent_eq]
    refine h.awaiting.imp_right fun hl ↦ hl.imp_right ?_
    rintro ⟨target, hc⟩
    refine ⟨target, hsi.retained hc.1, ?_, hsi.delivery_eq.trans hc.2.2⟩
    intro hr
    rw [(recordResult_records ..).results] at hr
    split at hr
    · exact hc.2.1 hr
    · rcases (mem_insert _).mp hr with rfl | hold
      · exact hn hc
      · exact hc.2.1 hold

theorem Settled.cleared_of_emits (hinv : ObligationInvariant o)
    (hch : child ∈ o.targets) (hn : ¬ Consumed o child)
    (he : (o.recordResult child status retain).2.completion.isSome = true) :
    Cleared (Completes o.generation) (Moves o.generation) events := by
  obtain ⟨hu, -, ha⟩ := recordResult_emits hinv hch he
  rcases h.awaiting with hcl | hse | ⟨target, hc⟩
  · exact hcl
  · rw [hu] at hse
    cases hse
  · rcases ha target (hinv.retained_subset target hc.1) with hr | rfl
    · exact absurd hr hc.2.1
    · exact absurd hc hn

theorem Settled.missing_of_emits (hinv : ObligationInvariant o) (hc : child ∈ o.targets)
    (he : (o.recordResult child status retain).2.completion.isSome = true) :
    child ∉ o.results := by
  obtain ⟨hu, -, ha⟩ := recordResult_emits hinv hc he
  obtain ⟨other, ho, hm⟩ := h.missing hu child hc
  rcases ha other ho with hr | rfl
  · exact absurd hr hm
  · exact hm

end

/-- What holds of the history of a store that has handed out generations up to `bound`. -/
structure History (bound : ℕ) (events : List Event) : Prop where
  completes_le : ∀ event ∈ events, ∀ generation, Completes generation event → generation ≤ bound
  emitted_stored : ∀ generation child incarnation terminal,
    .emitted generation child incarnation terminal ∈ events →
      .stored generation child incarnation terminal ∈ events
  spaced : ∀ generation, Spaced (Completes generation) (Moves generation) events
  once : ∀ generation child incarnation terminal,
    events.count (.emitted generation child incarnation terminal) ≤ 1

theorem History.mono {bound bound' : ℕ} (h : History bound events) (hle : bound ≤ bound') :
    History bound' events :=
  { h with completes_le := fun event hm g hg ↦ (h.completes_le event hm g hg).trans hle }

theorem History.concat {bound : ℕ} (h : History bound events) (event : Event)
    (hevent : ∀ gen, ¬ Completes gen event) : History bound (events ++ [event]) := by
  refine ⟨?_, ?_, fun g ↦ (h.spaced g).concat fun hg ↦ absurd hg (hevent g), ?_⟩
  · intro other hm g hg
    rcases mem_concat.mp hm with hold | rfl
    · exact h.completes_le other hold g hg
    · exact absurd hg (hevent g)
  · intro g c i t hm
    rcases mem_concat.mp hm with hold | rfl
    · exact mem_append_left _ (h.emitted_stored g c i t hold)
    · exact absurd rfl (hevent g)
  · intro g c i t
    rw [count_append, count_singleton]
    have ho := h.once g c i t
    split
    next heq =>
      rw [beq_iff_eq.mp heq] at hevent
      exact absurd rfl (hevent g)
    next => exact ho

theorem History.emit {bound gen : ℕ} (h : History bound events) (hle : gen ≤ bound)
    (hc : Cleared (Completes gen) (Moves gen) events) {child : ThreadId}
    {inc : Incarnation} {terminal : ExactTerminal}
    (hst : .stored gen child inc terminal ∈ events)
    (hf : .emitted gen child inc terminal ∉ events) :
    History bound (events ++ [.emitted gen child inc terminal]) := by
  refine ⟨?_, ?_, ?_, ?_⟩
  · intro other hm g hg
    rcases mem_concat.mp hm with hold | rfl
    · exact h.completes_le other hold g hg
    · exact hg ▸ hle
  · intro g c i t hm
    rcases mem_concat.mp hm with hold | hn
    · exact mem_append_left _ (h.emitted_stored g c i t hold)
    · cases hn
      exact mem_append_left _ hst
  · intro g
    refine (h.spaced g).concat ?_
    rintro rfl
    exact hc
  · intro g c i t
    rw [count_append, count_singleton]
    have ho := h.once g c i t
    split
    next heq =>
      rw [← beq_iff_eq.mp heq, count_eq_zero_of_not_mem hf]
    next => exact ho

/-! ## Runs -/

def pendingResolution : Phase → Option AgentStatus
  | .retaining status _ | .resolving status => some status
  | _ => none

/-- The result is there, or the target is not consumed and this terminal was not stored before. -/
def StoresOnce (s : State) (observer : Observer) (status : AgentStatus) : Prop :=
  ∀ o ∈ s.parent.obligations, o.generation = observer.generation → observer.child ∈ o.results ∨
    ¬ Consumed o observer.child ∧
      .stored observer.generation observer.child observer.incarnation (observer.terminal status) ∉
        s.events

def ResolvesOnce (s : State) : Action → Prop
  | .register _ => s.parent.nextGeneration < u64Max
  | .observe index _ _ => ∀ observer ∈ s.observers[index]?,
      ∀ status ∈ pendingResolution observer.phase, StoresOnce s observer status
  | _ => True

instance (s : State) (observer : Observer) (status : AgentStatus) :
    Decidable (StoresOnce s observer status) :=
  inferInstanceAs (Decidable (∀ o ∈ s.parent.obligations, _ → _))

instance (s : State) (action : Action) : Decidable (ResolvesOnce s action) :=
  match action with
  | .register _ => inferInstanceAs (Decidable (s.parent.nextGeneration < u64Max))
  | .observe index _ _ => inferInstanceAs (Decidable (∀ observer ∈ s.observers[index]?,
      ∀ status ∈ pendingResolution observer.phase, StoresOnce s observer status))
  | .child .. | .parent _ | .announceParent | .begin .. | .subscribe .. | .bind _ | .giveUp _ =>
    inferInstanceAs (Decidable True)

theorem pendingResolution_of_next {obs after : Observer} {parent : JoinObligationStore}
    {parentRevision : ℕ} {child : Child} {branch : Branch} {dead : List TurnStateRef}
    (h : obs.next setting parent parentRevision child branch dead =
      some (.resolve status retain, after)) : pendingResolution obs.phase = some status := by
  unfold Observer.next at h
  split at h
  case h_7 hph =>
    rw [hph]
    split at h <;> cases h <;> rfl
  case h_19 hph =>
    rw [hph]
    cases h
    rfl
  case h_3 =>
    obtain ⟨_, -, heq⟩ := Option.map_eq_some_iff.mp h
    cases heq
  -- Every other phase has another effect.
  all_goals first
    | cases h
    | split at h <;> cases h
    | (split at h <;> try split at h) <;> cases h

structure CompletionsInvariant (s : State) : Prop where
  sound : Sound s.parent
  distinct : Distinct s.parent
  settled : ∀ o ∈ s.parent.obligations, Settled s.events o
  history : History s.parent.nextGeneration s.events

theorem settled_of_permits {op : StoreOp} (hop : State.permits op = true)
    {store : JoinObligationStore} (hso : Sound store)
    (h : ∀ o ∈ store.obligations, Settled events o) :
    ∀ o ∈ (store.apply op).obligations, Settled events o := by
  apply forall_of_permits hop hso _ _ h
  · intro o hse
    exact ⟨hse.missing, hse.awaiting⟩
  · intro _ _ succ hinv hr _
    exact .handOver hinv hr events succ

theorem nextGeneration_of_permits {op : StoreOp} (hop : State.permits op = true)
    (store : JoinObligationStore) : (store.apply op).nextGeneration = store.nextGeneration := by
  have ha := applies_apply store op
  generalize store.apply op = store' at ha ⊢
  cases ha with
  | evolves he => exact he.nextGeneration
  | adds _ _ _ _ hr =>
    rw [hr] at hop
    cases hop
  | hands hh => rw [hh.result]

section

variable (h : CompletionsInvariant s)
include h

theorem CompletionsInvariant.operate {op : StoreOp} (hop : State.permits op = true) :
    CompletionsInvariant { s with parent := s.parent.apply op } where
  sound := h.sound.apply op
  distinct := by
    refine h.distinct.apply op ?_
    intro _ _ _ _ hr
    rw [hr] at hop
    cases hop
  settled := settled_of_permits hop h.sound h.settled
  history := by
    rw [nextGeneration_of_permits hop]
    exact h.history

theorem CompletionsInvariant.register
    (hco : s.parent.nextGeneration < u64Max) (thread : ThreadId) (turn : TurnId)
    (targets : TargetBindings) (triggerTurn : Bool) :
    CompletionsInvariant { s with
      parent := (registerObligation s.parent thread turn targets triggerTurn).1 } := by
  rcases registerObligation_cases s.parent thread turn targets triggerTurn with hsa | ⟨-, ha⟩
  · rw [hsa]
    exact h
  · have hn : saturatingSucc s.parent.nextGeneration = s.parent.nextGeneration + 1 := by
      unfold saturatingSucc
      omega
    rw [ha]
    refine ⟨h.sound.add _ _ _ _, h.distinct.add hco _ _ _ _, ?_, ?_⟩
    · intro o ho
      rcases mem_concat.mp ho with hold | rfl
      · exact h.settled o hold
      · refine ⟨?_, .inl (cleared_of_forall_not ?_)⟩
        · intro _ target ht
          exact ⟨target, ht, notMem_empty target⟩
        · intro event hevent hc
          have hle := h.history.completes_le event hevent _ hc
          simp only [generation, registered, OwnedObligation.new] at hle
          omega
    · refine h.history.mono ?_
      simp only [JoinObligationStore.add, hn]
      exact Nat.le_succ _

variable (obs : Observer)

namespace CompletionsInvariant

theorem resolved (hon : StoresOnce s obs status) {before after : List JoinObligation}
    (hsp : s.parent.obligations = before ++ o :: after)
    (hg : o.generation = obs.generation) (hc : obs.child ∈ o.targets)
    {rsln : RetainedJoinResolution}
    (hr : rsln = (o.recordResult obs.child status retain).2) :
    (∀ x ∈ before ++ (o.recordResult obs.child status retain).1 :: after,
      Settled (s.events ++ State.resolved obs status (some rsln)) x) ∧
      History s.parent.nextGeneration
        (s.events ++ State.resolved obs status (some rsln)) := by
  have hm : o ∈ s.parent.obligations := by
    rw [hsp]
    exact mem_append_right _ mem_cons_self
  have hinv := h.sound o hm
  have hset := h.settled o hm
  have hn : ¬ Consumed o obs.child := by
    rcases hon o hm hg with hre | ⟨hn, -⟩
    · exact fun hcon ↦ hcon.2.1 hre
    · exact hn
  let stored : Event := .stored obs.generation obs.child obs.incarnation (obs.terminal status)
  have hh : History s.parent.nextGeneration (s.events ++ [stored]) :=
    h.history.concat stored fun _ ↦ id
  have hot : ∀ other ∈ before ++ after, Settled (s.events ++ [stored]) other :=
    fun other ho ↦ (h.settled other (hsp ▸ mem_of_mem_split ho)).concat stored id
  subst hr
  cases hco : (o.recordResult obs.child status retain).2.completion with
  | none =>
    have hsi := hset.silent hn (recordResult_silent hinv hc hco)
    have hev : State.resolved obs status
        (some (o.recordResult obs.child status retain).2) = [stored] := by
      simp [State.resolved, hco, stored]
    rw [hev]
    exact ⟨forall_mem_split hot (hsi.concat stored id), hh⟩
  | some =>
    have he : (o.recordResult obs.child status retain).2.completion.isSome = true := by
      rw [hco]
      rfl
    let emitted : Event := .emitted obs.generation obs.child obs.incarnation (obs.terminal status)
    have hev : State.resolved obs status
        (some (o.recordResult obs.child status retain).2) = [stored] ++ [emitted] := by
      simp [State.resolved, hco, stored, emitted]
    rw [hev, ← append_assoc]
    have hcl := hset.cleared_of_emits hinv hc hn he
    have hf : emitted ∉ s.events ++ [stored] := by
      intro hem
      rcases mem_concat.mp hem with hold | heq
      · rcases hon o hm hg with hre | ⟨-, hun⟩
        · exact hset.missing_of_emits hinv hc he hre
        · exact hun (h.history.emitted_stored _ _ _ _ hold)
      · simp [emitted, stored] at heq
    refine ⟨forall_mem_split ?_ ?_, ?_⟩
    · intro other ho
      refine (hot other ho).concat emitted ?_
      intro hcom
      apply h.distinct.generation_ne_of_split hsp ho
      rw [hg]
      exact hcom.symm
    · have hse := (recordResult_emits hinv hc he).2.1
      refine ⟨fun hu ↦ ?_, .inr (.inl hse)⟩
      rw [hse] at hu
      cases hu
    · refine hh.emit ?_ ?_ mem_concat_self hf <;> rw [← hg]
      · exact h.distinct.generation_le o hm
      · exact hcl.concat id

theorem resolve (ho : StoresOnce s obs status) :
    CompletionsInvariant (s.perform setting obs (.resolve status retain)) := by
  have hu := resolveJoinTargetInner_updates s.parent setting.parentThreadId
    obs.generation obs.child obs.incarnation obs.turnId status retain
  unfold State.perform
  dsimp only
  rcases resolveJoinTargetInner_cases s.parent setting.parentThreadId obs.generation
      obs.child obs.incarnation obs.turnId status retain with
    href | ⟨rsln, o, hre, hr⟩
  · rw [href]
    simp only [State.resolved, append_nil]
    exact ⟨h.sound, h.distinct, h.settled, h.history⟩
  · obtain ⟨_, _, hsp, ha⟩ := hr.obligations
    have hc : obs.child ∈ o.targets := by
      apply lookup_isSome.mp
      rw [hr.bound]
      rfl
    obtain ⟨hse, hh⟩ := h.resolved obs ho hsp hr.generation_eq hc
      hr.resolution_eq
    refine ⟨h.sound.updates hu, h.distinct.updates hu, ?_, ?_⟩
    · rw [hre, ha]
      exact hse
    · rw [hre, hu.nextGeneration]
      exact hh

theorem endRetention {store' : JoinObligationStore} (hu : Updates s.parent store')
    {change : JoinObligation → JoinObligation} {event : Event} {gen : ℕ}
    (he : EndsRetention s.parent store' gen child change o)
    (hevent : ∀ g, ¬ Completes g event)
    (hc : ∀ o, o.generation = gen → Settled s.events o →
      Settled (s.events ++ [event]) (change o)) :
    CompletionsInvariant { s with parent := store', events := s.events ++ [event] } := by
  obtain ⟨_, _, hsp, ha⟩ := he.obligations
  refine ⟨h.sound.updates hu, h.distinct.updates hu, ?_, ?_⟩
  · rw [ha]
    refine forall_mem_split ?_ (hc o he.generation_eq (h.settled o he.mem))
    intro other ho
    exact (h.settled other (hsp ▸ mem_of_mem_split ho)).concat event
      (hevent other.generation)
  · rw [hu.nextGeneration]
    exact h.history.concat event hevent

theorem retire : CompletionsInvariant (s.perform setting obs .retire) := by
  have hu := (retireJoinTargetSuccessorRetention_amends s.parent setting.parentThreadId
    obs.generation obs.child obs.incarnation obs.turnId).toUpdates
  unfold State.perform
  dsimp only
  unfold retireJoinTargetSuccessorRetention at hu ⊢
  rcases endRetention_cases s.parent setting.parentThreadId obs.generation obs.child
      obs.incarnation obs.turnId (·.releaseTarget obs.child) with
    hr | ⟨o, hd, he⟩
  · rw [hr]
    simp only [Bool.false_eq_true, if_false, append_nil]
    exact ⟨h.sound, h.distinct, h.settled, h.history⟩
  · rw [hd]
    refine h.endRetention hu he (fun _ ↦ id) ?_
    intro o hg hse
    rw [← hg]
    exact hse.releaseTarget obs.child

theorem rebind (succ : TurnId) : CompletionsInvariant (s.perform setting obs (.rebind succ)) := by
  have hu := (rebindJoinTargetToSuccessor_amends s.parent setting.parentThreadId
    obs.generation obs.child obs.incarnation obs.turnId succ).toUpdates
  have hk : CompletionsInvariant { s with parent := s.parent, events := s.events ++ [] } := by
    rw [append_nil]
    exact ⟨h.sound, h.distinct, h.settled, h.history⟩
  unfold State.perform
  dsimp only
  unfold rebindJoinTargetToSuccessor at hu ⊢
  split at hu
  next hn =>
    rw [if_pos hn]
    exact hk
  next hn =>
    rw [if_neg hn]
    push Not at hn
    rcases endRetention_cases s.parent setting.parentThreadId obs.generation obs.child
        obs.incarnation obs.turnId
        (·.rebindTarget obs.child obs.incarnation succ) with
      hr | ⟨o, hd, he⟩
    · rw [hr]
      exact hk
    · rw [hd]
      refine h.endRetention hu he (fun _ ↦ id) ?_
      intro o hg hse
      rw [← hg]
      exact hse.rebindTarget obs.child obs.incarnation hn.2.2

theorem perform (eff : Effect)
    (ho : ∀ status retain, eff = .resolve status retain → StoresOnce s obs status) :
    CompletionsInvariant (s.perform setting obs eff) := by
  cases eff with
  | keep | prune | finish => exact ⟨h.sound, h.distinct, h.settled, h.history⟩
  | resolve status retain => exact h.resolve obs (ho status retain rfl)
  | retire => exact h.retire obs
  | rebind succ => exact h.rebind obs succ

end CompletionsInvariant

end

theorem CompletionsInvariant.congr {t : State} (h : CompletionsInvariant t)
    (hp : s'.parent = t.parent) (he : s'.events = t.events) :
    CompletionsInvariant s' := by
  obtain ⟨hso, hd, hse, hh⟩ := h
  rw [← hp] at hso hd hse hh
  rw [← he] at hse hh
  exact ⟨hso, hd, hse, hh⟩

theorem CompletionsInvariant.step (h : CompletionsInvariant s) {action : Action}
    (hok : ResolvesOnce s action) (hstep : s.step setting action = some s') :
    CompletionsInvariant s' := by
  cases parentMove_of_step hstep with
  | keep hp he => exact h.congr hp he
  | operate _ hop hp he => exact (h.operate hop).congr hp he
  | register _ reg ha hp he =>
    subst ha
    exact (h.register hok setting.parentThreadId reg.parentTurnId reg.targets
      reg.triggerTurn).congr hp he
  | observe _ _ _ obs _ effect ha ho hn hp he =>
    refine (h.perform obs effect ?_).congr hp he
    intro status _ hef
    subst ha
    subst hef
    exact hok obs ho status (pendingResolution_of_next hn)

theorem completionsInvariant_initial : CompletionsInvariant State.initial where
  sound := forall_mem_nil _
  distinct := ⟨nodup_nil, forall_mem_nil _⟩
  settled := forall_mem_nil _
  history := ⟨nofun, nofun, fun _ ↦ spaced_nil, fun _ _ _ _ ↦ Nat.zero_le 1⟩

/-- Between two completions of a generation one of its targets was rebound to another turn or
retired, and no terminal causes two of them. -/
theorem guarded_completions_apart (setting : Setting) (s : State)
    (hs : (joinObservers setting).Guarded ResolvesOnce s) :
    (∀ generation, Spaced (Completes generation) (Moves generation) s.events) ∧
      ∀ generation child incarnation terminal,
        s.events.count (.emitted generation child incarnation terminal) ≤ 1 := by
  have hinv := hs.invariant CompletionsInvariant completionsInvariant_initial
    fun _ _ _ h hok hstep ↦ h.step hok hstep
  exact ⟨hinv.history.spaced, hinv.history.once⟩

/-- Turn A joins turn T1 of its child; the completion goes to turn B, and the child to its successor
T2, which completes the generation again. -/
def completedBySuccessor : List Action :=
  joining true ++
  [.child ⟨0⟩ (.perform (.register ⟨2⟩ "T1" (singleTarget ⟨3⟩ ⟨1⟩ "inner") true)),
    .observe 0 .next []] ++ completing ++ resolving 0 ++
  [.parent (.acknowledge "A" 1 "B" (some ⟨7⟩)), .observe 0 .next [], .observe 0 .next [],
    .child ⟨0⟩ (.perform (.resolve ⟨2⟩ 1 ⟨3⟩ ⟨1⟩ "inner" (.completed none) false)),
    .child ⟨0⟩ (.reserve ⟨1⟩), .child ⟨0⟩ (.start "T2"),
    .child ⟨0⟩ (.perform (.acknowledge "T1" 1 "T2" (some ⟨1⟩))), .child ⟨0⟩ .announce] ++
  resolving 0 ++ [.observe 0 .next [], .child ⟨0⟩ (.finish "T2" (.completed none)),
    .child ⟨0⟩ (.record 0 []), .child ⟨0⟩ (.record 0 [])] ++
  resolving 0 ++ [.observe 0 .next [], .observe 0 .next []]

theorem guarded_completions_apart_completedBySuccessor :
    ∃ s, (joinObservers oneChild).Guarded ResolvesOnce s ∧
      .emitted 1 ⟨2⟩ ⟨0⟩ ⟨"T1", ⟨0⟩, .completed none⟩ ∈ s.events ∧
      .emitted 1 ⟨2⟩ ⟨0⟩ ⟨"T2", ⟨1⟩, .completed none⟩ ∈ s.events ∧
      Spaced (Completes 1) (Moves 1) s.events := by
  obtain ⟨s, hs, hcheck⟩ := exists_guarded_of_runIf (joinObservers oneChild) ResolvesOnce
    completedBySuccessor
    (fun s ↦ s.events.contains (.emitted 1 ⟨2⟩ ⟨0⟩ ⟨"T1", ⟨0⟩, .completed none⟩) &&
      s.events.contains (.emitted 1 ⟨2⟩ ⟨0⟩ ⟨"T2", ⟨1⟩, .completed none⟩)) (by decide +kernel)
  rw [Bool.and_eq_true, contains_iff_mem, contains_iff_mem] at hcheck
  exact ⟨s, hs, hcheck.1, hcheck.2, (guarded_completions_apart oneChild s hs).1 1⟩

/-- Turn A joins and waits for turn T1 of its child. The completion goes to turn B, and then the
observer of the wait resolves the turn once more. -/
def resolvedTwice : List Action :=
  joining true ++ [.begin "A" [⟨2⟩] false, .subscribe 0 ⟨0⟩, .bind 0, .register 0,
    .child ⟨0⟩ (.perform (.register ⟨2⟩ "T1" (singleTarget ⟨3⟩ ⟨1⟩ "inner") true)),
    .observe 0 .next [], .observe 1 .next []] ++ completing ++ resolving 0 ++
  .parent (.acknowledge "A" 1 "B" (some ⟨7⟩)) :: resolving 1

theorem reachable_completed_twice :
    ¬ ∀ s, (joinObservers oneChild).Reachable s →
      (∀ generation, Spaced (Completes generation) (Moves generation) s.events) ∧
        ∀ generation child incarnation terminal,
          s.events.count (.emitted generation child incarnation terminal) ≤ 1 := by
  intro hclaim
  let terminal : ExactTerminal := ⟨"T1", ⟨0⟩, .completed none⟩
  obtain ⟨s, hs, hcheck⟩ := exists_reachable_of_run (joinObservers oneChild) resolvedTwice
    (fun s ↦ s.events == [.stored 1 ⟨2⟩ ⟨0⟩ terminal, .emitted 1 ⟨2⟩ ⟨0⟩ terminal,
      .stored 1 ⟨2⟩ ⟨0⟩ terminal, .emitted 1 ⟨2⟩ ⟨0⟩ terminal]) (by decide +kernel)
  have hspaced := (hclaim s hs).1
  rw [beq_iff_eq.mp hcheck] at hspaced
  -- Only the stored result lies between the two completions, which have one terminal.
  obtain ⟨_, hevent, hmoves⟩ := hspaced 1 [_] [_] [] _ _ rfl rfl rfl
  rw [mem_singleton.mp hevent] at hmoves
  exact hmoves

end Slopdex.Join.Completions
