import Slopdex.Join.StoredResults

/-!
# What an observer does to the target it watches

Each target of a join without a lasting result needs a live observer. An observer goes on watching,
retains the result of its target, resolves, retires or rebinds it; it returns without a result only
where something is missing that it has to find. `Proceeds` names what that is, and
`watchMove_of_next` says what every step then does.
-/

namespace Slopdex.Join.Watching

open Protocol Library.FirstMatch Library.KeyedMap Library.Transition Library.Transition.System
open Bool
  Join.Store Join.Evolution Join.WellFormed Join.ChildSession Join.Recordings Join.Results
  Join.Observation Join.Terminals Join.StoredResults Observer Option

variable {parent : JoinObligationStore} {predecessor pred : TurnId} {retain : Bool}
  {status : AgentStatus}

variable {setting : Setting} {s s' : State} {observer after : Observer} {o o' : JoinObligation}
  {store store' : JoinObligationStore} {thread child : ThreadId}

/-- The obligation belongs to the thread, and is ready once every target has a result. -/
structure Prompt (thread : ThreadId) (o : JoinObligation) : Prop where
  thread_eq : o.parentThreadId = thread
  ready_of_complete : (∀ target, target ∈ o.targets → target ∈ o.results) → o.ready = true

theorem ready_of_complete_recordResult (hi : ObligationInvariant o) (hch : child ∈ o.targets)
    (hc : ∀ target, target ∈ (o.recordResult child status retain).1.targets →
      target ∈ (o.recordResult child status retain).1.results) :
    (o.recordResult child status retain).1.ready = true := by
  have hr : ObligationInvariant (o.recordResult child status retain).1 :=
    recordResult_invariant hi hch retain
  simp only [JoinObligation.recordResult] at hc hr ⊢
  split
  next ha =>
    rw [if_pos ha] at hc hr
    simp only [JoinObligation.hasAllResults, not_eq_true', beq_eq_false_iff_ne] at ha
    obtain ⟨target, htg, hm⟩ := exists_not_mem_of_size_ne hr.results_subset ha
    exact absurd (hc target htg) hm
  next ha =>
    rw [if_neg ha] at hr
    split
    next hre =>
      -- A retained delivery is under way only while the obligation is ready.
      rw [if_pos hre] at hr
      simp only [JoinObligation.inRetainedDelivery, and_eq_true] at hre
      obtain ⟨turn, ht⟩ := isSome_iff_exists.mp hre.2
      exact (hr.retained_delivery turn ht).1
    next => split <;> rfl

theorem Prompt.change (h : Prompt thread o) (hi : ObligationInvariant o) (hch : Change o o') :
    Prompt thread o' where
  thread_eq := by
    rw [← h.thread_eq]
    exact congrArg (·.2.1) hch.owner_eq
  ready_of_complete := by
    cases hch with
    | record _ _ _ ht => exact ready_of_complete_recordResult hi ht
    | same | finishDispatch | release => exact h.ready_of_complete
    | rebind =>
      intro hc
      apply h.ready_of_complete
      intro target ht
      exact hc target (AList.mem_replace.mpr ht)

theorem Prompt.handOver (h : Prompt thread o) (hi : ObligationInvariant o)
    (hr : o.retainedDeliveryPredecessorTurnId = some pred) (succ : TurnId) :
    Prompt thread (o.handOver succ) where
  thread_eq := h.thread_eq
  ready_of_complete := by
    intro hc
    obtain ⟨target, ht⟩ := (hi.retained_delivery pred hr).2.2.2
    have hre := hc target (hi.retained_subset target ht)
    have hfree := (mem_retainKeys.mp hre).2
    exact absurd ht (of_decide_eq_true hfree)

theorem forall_prompt_evolves (h : ∀ o ∈ store.obligations, Prompt thread o) (hs : Sound store)
    (hst : Evolves store store') : ∀ o ∈ store'.obligations, Prompt thread o := by
  intro _ ho'
  obtain ⟨o, ho, hc⟩ := hst.exists_change ho'
  exact (h o ho).change (hs o ho) hc

def registered : Phase → Bool
  | .awaiting .. | .awaitingOwner .. | .checking .. | .rebinding .. => true
  | .snapshot _ search | .awaitingContinuation _ search => search.registered
  | .retiring registered => registered
  | _ => false

/-- The result of the target stays until the completion is delivered. -/
def Settles (o : JoinObligation) (child : ThreadId) : Prop :=
  child ∈ o.results ∧ child ∉ o.retainedTargets

structure Watches (observer : Observer) (o : JoinObligation) (child : ThreadId) : Prop where
  live : observer.phase ≠ .done
  generation_eq : observer.generation = o.generation
  child_eq : observer.child = child
  bound : o.targets.lookup child = some (observer.incarnation, observer.turnId)
  retained : child ∈ o.retainedTargets → registered observer.phase = true

def Covered (observers : List Observer) (o : JoinObligation) (child : ThreadId) : Prop :=
  Settles o child ∨ ∃ observer ∈ observers, Watches observer o child

/-- What is known of a target before a change still holds of it afterwards. -/
structure AgreesAt (child : ThreadId) (o o' : JoinObligation) : Prop where
  generation_eq : o'.generation = o.generation
  lookup_eq : o'.targets.lookup child = o.targets.lookup child
  settles : Settles o child → child ∈ o'.results
  retained : child ∈ o'.retainedTargets → child ∈ o.retainedTargets

theorem AgreesAt.refl (child : ThreadId) (o : JoinObligation) : AgreesAt child o o :=
  ⟨rfl, rfl, fun h ↦ h.1, id⟩

theorem Settles.agrees (h : Settles o child) (ha : AgreesAt child o o') : Settles o' child :=
  ⟨ha.settles h, fun hr ↦ h.2 (ha.retained hr)⟩

theorem Watches.agrees (h : Watches observer o child) (ha : AgreesAt child o o') :
    Watches observer o' child where
  live := h.live
  generation_eq := h.generation_eq.trans ha.generation_eq.symm
  child_eq := h.child_eq
  bound := ha.lookup_eq.trans h.bound
  retained hr := h.retained (ha.retained hr)

theorem Covered.agrees {observers observers' : List Observer} (h : Covered observers o child)
    (ha : AgreesAt child o o') (hsu : observers ⊆ observers') :
    Covered observers' o' child := by
  rcases h with hs | ⟨observer, hm, hw⟩
  · exact .inl (hs.agrees ha)
  · exact .inr ⟨observer, hsu hm, hw.agrees ha⟩

theorem Covered.set {observers : List Observer} {index : ℕ} (h : Covered observers o child)
    (hi : observers[index]? = some observer) (ha : AgreesAt child o o')
    (how : Watches observer o child → Settles o' child ∨ Watches after o' child) :
    Covered (observers.set index after) o' child := by
  rcases h with hs | ⟨other, hm, hw⟩
  · exact .inl (hs.agrees ha)
  · by_cases hsa : other = observer
    · subst hsa
      rcases how hw with hs | haf
      · exact .inl hs
      · obtain ⟨hlt, -⟩ := List.getElem?_eq_some_iff.mp hi
        exact .inr ⟨after, List.mem_set hlt after, haf⟩
    · exact .inr ⟨other, mem_set_of_ne hi hm hsa after, hw.agrees ha⟩

def Binds (o : JoinObligation) (observer : Observer) : Prop :=
  o.triggerTurn = true ∧ o.generation = observer.generation ∧
    o.targets.lookup observer.child = some (observer.incarnation, observer.turnId)

instance (o : JoinObligation) (observer : Observer) : Decidable (Binds o observer) :=
  inferInstanceAs (Decidable (_ ∧ _ ∧ _))

theorem Watches.binds (h : Watches observer o child) (hj : o.triggerTurn = true) :
    Binds o observer := by
  refine ⟨hj, h.generation_eq.symm, ?_⟩
  rw [h.child_eq]
  exact h.bound

def Followable (child : Child) (observer : Observer) (search : Search) : Prop :=
  match joinContinuationForPredecessor child.store observer.child observer.turnId with
  | none => False
  | some none => search.expected = none ∨ child.status = .shutdown
  | some (some (generation, successor)) => search.rejects generation = false ∧
      (search.registered = true → ∀ next ∈ successor,
        next.turnId ≠ "" ∧ next.turnId ≠ observer.turnId)

def LeaseKept (child : Child) (observer : Observer) (inner : ℕ) (predecessor : TurnId) : Prop :=
  match joinContinuationForPredecessor child.store observer.child predecessor with
  | some (some (generation, some successor)) => generation = inner ∧
      successor.turnId = observer.turnId ∧ successor.turnState = observer.turnState
  | _ => False

def Finds (setting : Setting) (child : Child) (o : JoinObligation) (observer : Observer) : Prop :=
  match observer.phase with
  | .snapshot _ search => Followable child observer search
  | .retiring registered => registered = true →
      o.awaitsSuccessor setting.parentThreadId observer.generation observer.child = true
  | .checking _ _ successor => child.active = some (successor.turnId, successor.turnState)
  | .rebinding _ _ successor => observer.turnId ≠ "" ∧ successor.turnId ≠ "" ∧
      observer.turnId ≠ successor.turnId ∧
        o.awaitsSuccessor setting.parentThreadId observer.generation observer.child = true
  | .following _ inner predecessor => LeaseKept child observer inner predecessor
  | _ => True

instance (child : Child) (observer : Observer) (search : Search) :
    Decidable (Followable child observer search) := by
  unfold Followable
  split <;> infer_instance

instance (child : Child) (observer : Observer) (inner : ℕ) (predecessor : TurnId) :
    Decidable (LeaseKept child observer inner predecessor) := by
  unfold LeaseKept
  split <;> infer_instance

instance (setting : Setting) (child : Child) (o : JoinObligation) (observer : Observer) :
    Decidable (Finds setting child o observer) := by
  unfold Finds
  split <;> infer_instance

def Proceeds (setting : Setting) (parent : JoinObligationStore) (child : Child)
    (observer : Observer) (branch : Branch) : Prop :=
  ∀ o ∈ parent.obligations, Binds o observer → branch ≠ .lost ∧ Finds setting child o observer

instance (setting : Setting) (parent : JoinObligationStore) (child : Child) (observer : Observer)
    (branch : Branch) : Decidable (Proceeds setting parent child observer branch) := by
  unfold Proceeds
  infer_instance

structure StoreOk (thread : ThreadId) (store : JoinObligationStore) : Prop where
  sound : Sound store
  distinct : Distinct store
  prompt : ∀ o ∈ store.obligations, Prompt thread o

section

variable (h : StoreOk thread store)
include h

theorem StoreOk.evolves (hs : Evolves store store') : StoreOk thread store' where
  sound := h.sound.evolves hs
  distinct := h.distinct.evolves hs
  prompt := forall_prompt_evolves h.prompt h.sound hs

theorem StoreOk.operate {op : StoreOp}
    (hop : State.permits op = true) : StoreOk thread (store.apply op) where
  sound := h.sound.apply op
  distinct := by
    apply h.distinct.apply op
    rintro _ _ _ _ rfl
    cases hop
  prompt := by
    apply forall_of_permits hop h.sound _ _ h.prompt
    · intro o hp
      exact ⟨hp.thread_eq, hp.ready_of_complete⟩
    · intro _ _ succ hi hr hp
      exact hp.handOver hi hr succ

section

variable (ho : o ∈ store.obligations) (hbinds : Binds o observer)
include ho hbinds

theorem StoreOk.resolves (hs : resolvable status retain = true) :
    (resolveJoinTargetInner store thread observer.generation observer.child observer.incarnation
      observer.turnId status retain).2.isSome = true := by
  obtain ⟨hj, hg, hb⟩ := hbinds
  have ht : observer.child ∈ o.targets := by
    apply AList.lookup_isSome.mp
    rw [hb]
    rfl
  have hf : store.obligations.find? (·.hasTarget thread observer.generation observer.child) =
      some o := by
    apply find?_eq_some_of_unique ho
    · simp [JoinObligation.hasTarget, (h.prompt o ho).thread_eq, hg, ht]
    · intro _ hot hse
      simp only [JoinObligation.hasTarget, and_eq_true, beq_iff_eq] at hse
      exact h.distinct.eq_of_generation_eq hot ho (hse.1.2.trans hg.symm)
  have ha : o.accepts observer.child observer.incarnation observer.turnId retain = true := by
    simp [JoinObligation.accepts, hb, hj]
  unfold resolveJoinTargetInner
  rw [hs, hf]
  simp [ha]

theorem StoreOk.endsRetention
    (hw : o.awaitsSuccessor thread observer.generation observer.child = true)
    (change : JoinObligation → JoinObligation) :
    (endRetention store thread observer.generation observer.child observer.incarnation
      observer.turnId change).2 = true := by
  have hf : store.obligations.find? (·.awaitsSuccessor thread observer.generation
      observer.child) = some o := by
    apply find?_eq_some_of_unique ho hw
    intro _ hot hs
    simp only [JoinObligation.awaitsSuccessor, and_eq_true, beq_iff_eq] at hs
    exact h.distinct.eq_of_generation_eq hot ho (hs.1.1.1.1.2.trans hbinds.2.1.symm)
  unfold endRetention
  rw [hf]
  simp [hbinds.2.2]

theorem StoreOk.delivers :
    ∃ delivery, retainedJoinDeliveryState store thread observer.generation observer.child =
      some (some delivery) := by
  have hs : store.obligations.filter (fun obligation ↦
      obligation.parentThreadId == thread && obligation.generation == observer.generation) =
        [o] := by
    apply h.distinct.filter_eq_singleton ho
    · simp [(h.prompt o ho).thread_eq, hbinds.2.1]
    · intro _ hse
      rw [and_eq_true, beq_iff_eq, beq_iff_eq] at hse
      exact hse.2.trans hbinds.2.1.symm
  unfold retainedJoinDeliveryState
  rw [hs]
  exact ⟨_, rfl⟩

end

end

/-! ## Steps of an observer -/

def SearchOk : Phase → Prop
  | .snapshot status search | .awaitingContinuation status search =>
    status.isCompleted = true ∧ (search.registered = true → search.expected.isSome = true)
  | .retaining status search | .awaiting status search _ | .awaitingOwner status search _ =>
    status.isCompleted = true ∧ search.expected.isSome = true
  | _ => True

structure Goes (observer after : Observer) : Prop where
  generation_eq : after.generation = observer.generation
  child_eq : after.child = observer.child
  incarnation_eq : after.incarnation = observer.incarnation
  turnId_eq : after.turnId = observer.turnId
  live : after.phase ≠ .done
  keeps : registered observer.phase = true → registered after.phase = true

theorem Goes.watches (h : Goes observer after) (hw : Watches observer o child) :
    Watches after o child where
  live := h.live
  generation_eq := h.generation_eq.trans hw.generation_eq
  child_eq := h.child_eq.trans hw.child_eq
  bound := by
    rw [h.incarnation_eq, h.turnId_eq]
    exact hw.bound
  retained hr := h.keeps (hw.retained hr)

theorem Goes.enter {phase : Phase} (hl : phase ≠ .done)
    (hr : registered observer.phase = true → registered phase = true) :
    Goes observer (observer.enter phase) :=
  ⟨rfl, rfl, rfl, rfl, hl, hr⟩

inductive WatchMove (setting : Setting) (parent : JoinObligationStore) (observer : Observer) :
    Effect → Observer → Prop
  | go (effect : Effect) (after : Observer)
      (hparent : ∀ s : State, (s.perform setting observer effect).parent = s.parent)
      (hgoes : Goes observer after) : WatchMove setting parent observer effect after
  | retain (status : AgentStatus) (search : Search) (owner : TurnId)
      (hphase : observer.phase = .retaining status search)
      (hresolved : (resolveJoinTargetInner parent setting.parentThreadId observer.generation
        observer.child observer.incarnation observer.turnId status true).2.isSome = true) :
      WatchMove setting parent observer (.resolve status true)
        (observer.enter (.awaiting status search owner))
  | resolve (status : AgentStatus) (hphase : observer.phase = .resolving status) :
      WatchMove setting parent observer (.resolve status false) (observer.enter .done)
  | retire (hretired : (retireJoinTargetSuccessorRetention parent setting.parentThreadId
        observer.generation observer.child observer.incarnation observer.turnId).2 = true) :
      WatchMove setting parent observer .retire (observer.enter (.resolving .shutdown))
  | rebind (child : Child) (search : Search) (inner : ℕ) (successor : JoinSuccessor)
      (hrebound : (rebindJoinTargetToSuccessor parent setting.parentThreadId observer.generation
        observer.child observer.incarnation observer.turnId successor.turnId).2 = true) :
      WatchMove setting parent observer (.rebind successor.turnId)
        (observer.afterRebind child search.seen inner successor)
  | stop (effect : Effect) (after : Observer)
      (hparent : ∀ s : State, s.parent = parent → (s.perform setting observer effect).parent = parent)
      (hfree : ∀ o ∈ parent.obligations, ¬ Binds o observer) :
      WatchMove setting parent observer effect after

theorem afterSnapshot_goes {child : Child} {search : Search}
    (hph : observer.phase = .snapshot status search)
    (hse : search.registered = true → search.expected.isSome = true)
    (hf : Followable child observer search) :
    Goes observer (observer.afterSnapshot child status search) := by
  have hr (h : registered observer.phase = true) : search.registered = true := by
    rw [hph] at h
    exact h
  unfold Followable at hf
  unfold afterSnapshot
  split
  next ha =>
    rw [ha] at hf
    cases hf
  next hno =>
    rw [hno] at hf
    split
    next hu =>
      refine .enter (by simp) fun h ↦ ?_
      have he := hse (hr h)
      rw [isNone_iff_eq_none] at hu
      rw [hu] at he
      cases he
    next he =>
      rw [isNone_iff_eq_none] at he
      have hd := hf.resolve_left he
      rw [if_pos hd]
      exact ⟨rfl, rfl, rfl, rfl, by simp [seeStatus], hr⟩
  next hso =>
    rw [hso] at hf
    obtain ⟨hac, hn⟩ := hf
    rw [if_neg (by simp [hac])]
    split
    next hun =>
      refine .enter (by simp) fun h ↦ ?_
      rw [hr h] at hun
      cases hun
    next hs =>
      rw [not_eq_true, not_eq_false'] at hs
      split
      next => exact .enter (by simp) fun _ ↦ hs
      next next' =>
        obtain ⟨hna, hot⟩ := hn hs next' rfl
        rw [if_neg (not_or.mpr ⟨hna, hot⟩)]
        split
        all_goals exact .enter (by simp) fun _ ↦ rfl

theorem afterFollowing_goes {child : Child} {seen inner : ℕ}
    (hph : observer.phase = .following seen inner pred)
    (hk : LeaseKept child observer inner pred) :
    Goes observer (observer.afterFollowing child seen inner pred) := by
  have hr (phase : Phase) (h : registered observer.phase = true) : registered phase = true := by
    rw [hph] at h
    cases h
  unfold LeaseKept at hk
  unfold afterFollowing
  split
  next hf =>
    rw [hf] at hk
    rw [if_pos hk]
    split
    all_goals exact .enter (by simp) (hr _)
  next hf =>
    split at hk
    next gen succ hs => exact absurd hs (hf gen succ)
    next => cases hk

theorem Goes.of_unregistered (hph : registered observer.phase = false)
    (hg : after.generation = observer.generation) (hc : after.child = observer.child)
    (hi : after.incarnation = observer.incarnation)
    (ht : after.turnId = observer.turnId) (hl : after.phase ≠ .done) :
    Goes observer after :=
  ⟨hg, hc, hi, ht, hl, fun h ↦ absurd h (by simp [hph])⟩

theorem resolvable_of_isCompleted (h : status.isCompleted = true)
    (retain : Bool) : resolvable status retain = true := by
  simp [resolvable, AgentStatus.isFinal_of_isCompleted h, h]

theorem resolvable_of_isFinal (h : status.isFinal = true) : resolvable status false = true := by
  simp [resolvable, h]

/-- A resolution without an answer and the failed end of a retention leave the store alone. -/
theorem perform_resolve_parent
    (hn : (resolveJoinTargetInner parent setting.parentThreadId observer.generation
      observer.child observer.incarnation observer.turnId status retain).2 = none)
    (s : State) (hs : s.parent = parent) :
    (s.perform setting observer (.resolve status retain)).parent = parent := by
  unfold State.perform
  dsimp only
  rw [hs]
  rcases resolveJoinTargetInner_cases parent setting.parentThreadId observer.generation
      observer.child observer.incarnation observer.turnId status retain with
    hre | ⟨resolution, o, hr, -⟩
  · rw [hre]
  · rw [hn] at hr
    cases hr

theorem endRetention_of_false {gen : ℕ} {inc : Incarnation}
    {change : JoinObligation → JoinObligation}
    (hf : (endRetention parent thread gen child inc pred change).2 = false) :
    (endRetention parent thread gen child inc pred change).1 = parent := by
  rcases endRetention_cases parent thread gen child inc pred change with
    hr | ⟨o, ht, -⟩
  · rw [hr]
  · rw [hf] at ht
    cases ht

theorem rebindJoinTargetToSuccessor_of_false {gen : ℕ} {inc : Incarnation} {succ : TurnId}
    (hf : (rebindJoinTargetToSuccessor parent thread gen child inc pred succ).2 = false) :
    (rebindJoinTargetToSuccessor parent thread gen child inc pred succ).1 = parent := by
  unfold rebindJoinTargetToSuccessor at hf ⊢
  split at hf
  next hn => rw [if_pos hn]
  next hn =>
    rw [if_neg hn]
    exact endRetention_of_false hf

section

variable (hstore : StoreOk setting.parentThreadId parent)
include hstore

theorem watchMove_of_refused (hst : status.isCompleted = true)
    (hn : (resolveJoinTargetInner parent setting.parentThreadId observer.generation
      observer.child observer.incarnation observer.turnId status true).2 = none) :
    WatchMove setting parent observer (.resolve status true) after := by
  apply WatchMove.stop _ _ (perform_resolve_parent hn)
  intro o ho hbinds
  have hs := hstore.resolves ho hbinds (resolvable_of_isCompleted hst true)
  rw [hn] at hs
  cases hs

theorem watchMove_of_unretired
    (hw : ∀ o ∈ parent.obligations, Binds o observer →
      o.awaitsSuccessor setting.parentThreadId observer.generation observer.child = true)
    (hf : (retireJoinTargetSuccessorRetention parent setting.parentThreadId
      observer.generation observer.child observer.incarnation observer.turnId).2 = false) :
    WatchMove setting parent observer .retire after := by
  apply WatchMove.stop
  · intro s hs
    simp only [State.perform, hs]
    exact endRetention_of_false hf
  · intro o ho hbinds
    have ht := hstore.endsRetention ho hbinds (hw o ho hbinds)
      (·.releaseTarget observer.child)
    rw [retireJoinTargetSuccessorRetention, ht] at hf
    cases hf

theorem watchMove_of_unrebound {succ : TurnId}
    (hw : ∀ o ∈ parent.obligations, Binds o observer → observer.turnId ≠ "" ∧
      succ ≠ "" ∧ observer.turnId ≠ succ ∧
        o.awaitsSuccessor setting.parentThreadId observer.generation observer.child = true)
    (hf : (rebindJoinTargetToSuccessor parent setting.parentThreadId observer.generation
      observer.child observer.incarnation observer.turnId succ).2 = false) :
    WatchMove setting parent observer (.rebind succ) after := by
  apply WatchMove.stop
  · intro s hs
    simp only [State.perform, hs]
    exact rebindJoinTargetToSuccessor_of_false hf
  · intro o ho hbinds
    obtain ⟨hn, hn', hot, hw⟩ := hw o ho hbinds
    have ht := hstore.endsRetention ho hbinds hw
      (·.rebindTarget observer.child observer.incarnation succ)
    rw [rebindJoinTargetToSuccessor, if_neg (by simp [hn, hn', hot]), ht] at hf
    cases hf

theorem watchMove_of_next {parentRevision : ℕ} {child : Child}
    {branch : Branch} {dead : List TurnStateRef} {eff : Effect} (hs : SearchOk observer.phase)
    (hok : Proceeds setting parent child observer branch)
    (hn : observer.next setting parent parentRevision child branch dead =
      some (eff, after)) : WatchMove setting parent observer eff after := by
  have hf (o : JoinObligation) (ho : o ∈ parent.obligations) (hbinds : Binds o observer) :
      Finds setting child o observer := (hok o ho hbinds).2
  unfold Finds at hf
  have hk {after : Observer} (hgoes : Goes observer after) :
      WatchMove setting parent observer .keep after := .go .keep after (fun _ ↦ rfl) hgoes
  have hd {after : Observer} (hno : ∀ o ∈ parent.obligations, ¬ Binds o observer) :
      WatchMove setting parent observer .keep after := .stop .keep after (fun _ h ↦ h) hno
  have hl (hb : branch = .lost) : ∀ o ∈ parent.obligations, ¬ Binds o observer :=
    fun o ho hbinds ↦ (hok o ho hbinds).1 hb
  unfold next at hn
  split at hn
  all_goals try first | cases hn | rw [ite_some_none_eq_some] at hn; obtain ⟨-, ⟨⟩⟩ := hn
  next hph =>
    apply hk
    refine .of_unregistered (by simp [hph, registered]) rfl rfl rfl rfl ?_
    simp only [seeStatus]
    split <;> simp
  next hph =>
    apply hk
    exact .of_unregistered (by simp [hph, registered]) rfl rfl rfl rfl (by simp [seeStatus])
  next hph =>
    obtain ⟨received, -, ha⟩ := map_eq_some_iff.mp hn
    cases ha
    apply hk
    have hu : registered observer.phase = false := by simp [hph, registered]
    cases received with
    | lagged =>
      exact .of_unregistered hu rfl rfl rfl rfl (by simp [afterReceive])
    | terminal =>
      refine .of_unregistered hu rfl rfl rfl rfl ?_
      simp only [afterReceive]
      split <;> simp
  next hph =>
    have hu : registered observer.phase = false := by simp [hph, registered]
    apply WatchMove.go _ _ fun _ ↦ rfl
    unfold afterLookup
    split <;> exact .of_unregistered hu rfl rfl rfl rfl (by simp [enter])
  next hph =>
    apply hk
    refine .of_unregistered (by simp [hph, registered]) rfl rfl rfl rfl ?_
    simp only [enter]
    split <;> simp
  next search hph =>
    rw [hph] at hs hf
    by_cases hfo : Followable child observer search
    · exact hk (afterSnapshot_goes hph hs.2 hfo)
    · exact hd fun o ho hbinds ↦ hfo (hf o ho hbinds)
  next status search hph =>
    rw [hph] at hs
    split at hn
    next hno =>
      cases hn
      exact watchMove_of_refused hstore hs.1 hno
    next hso =>
      cases hn
      exact .retain status search _ hph (by rw [hso]; rfl)
  next =>
    split at hn
    next =>
      split at hn <;> cases hn
      all_goals exact hk (.enter (by simp) fun _ ↦ rfl)
    next hno =>
      cases hn
      apply hd
      intro o ho hbinds
      obtain ⟨delivery, hde⟩ := hstore.delivers ho hbinds
      exact hno delivery hde
  next =>
    exact hk (.enter (by simp) fun _ ↦ rfl)
  next hph =>
    apply hk
    apply Goes.enter (by simp)
    intro h
    rwa [hph] at h
  next hph =>
    apply hk
    refine ⟨rfl, rfl, rfl, rfl, ?_, ?_⟩
    · simp only [seeStatus]
      split <;> simp
    · intro h
      rw [hph] at h
      simp only [seeStatus]
      split <;> exact h
  next hph =>
    rw [hph] at hf
    split at hn
    next hu =>
      cases hn
      apply hk
      refine .of_unregistered ?_ rfl rfl rfl rfl (by simp [enter])
      rw [hph]
      simpa [registered] using hu
    next hr =>
      rw [not_eq_true, not_eq_false'] at hr
      split at hn
      next hrt =>
        cases hn
        exact .retire hrt
      next hfa =>
        rw [not_eq_true] at hfa
        cases hn
        apply watchMove_of_unretired hstore _ hfa
        intro o ho hbinds
        exact hf o ho hbinds hr
  next hph =>
    split at hn
    next =>
      cases hn
      exact hk (.enter (by simp) fun _ ↦ rfl)
    next hi =>
      rw [hph] at hf
      cases hn
      exact hd fun o ho hbinds ↦ hi (hf o ho hbinds)
  next search inner succ hph =>
    split at hn
    next hre =>
      cases hn
      exact .rebind child search inner succ hre
    next hfa =>
      rw [not_eq_true] at hfa
      rw [hph] at hf
      cases hn
      exact watchMove_of_unrebound hstore hf hfa
  next inner pred hph =>
    by_cases hke : LeaseKept child observer inner pred
    · exact hk (afterFollowing_goes hph hke)
    · rw [hph] at hf
      exact hd fun o ho hbinds ↦ hke (hf o ho hbinds)
  next hph =>
    apply hk
    exact .of_unregistered (by simp [hph, registered]) rfl rfl rfl rfl (by simp [enter])
  next hph =>
    apply hk
    refine .of_unregistered (by simp [hph, registered]) rfl rfl rfl rfl ?_
    simp only [seeStatus]
    split <;> simp
  next hph =>
    apply WatchMove.go _ _ fun _ ↦ rfl
    exact .of_unregistered (by simp [hph, registered]) rfl rfl rfl rfl (by simp [enter])
  next status hph =>
    exact .resolve status hph
  iterate 3
    exact hd (hl rfl)

end

theorem searchOk_afterSnapshot {child : Child} {search : Search} (hs : status.isCompleted = true) :
    SearchOk (observer.afterSnapshot child status search).phase := by
  unfold afterSnapshot
  split
  next => trivial
  next =>
    split
    next => trivial
    next =>
      simp only [seeStatus]
      split <;> trivial
  next =>
    split
    next => trivial
    next =>
      split
      next => exact ⟨hs, rfl⟩
      next =>
        split
        next => exact ⟨hs, fun _ ↦ rfl⟩
        next =>
          split
          next => trivial
          next => split <;> trivial

theorem searchOk_afterFollowing {child : Child} {seen inner : ℕ} :
    SearchOk (observer.afterFollowing child seen inner pred).phase := by
  unfold afterFollowing
  split
  next =>
    split
    next => split <;> trivial
    next => trivial
  next => trivial

theorem searchOk_of_next {parentRevision : ℕ} {child : Child}
    {branch : Branch} {dead : List TurnStateRef} {eff : Effect}
    (h : SearchOk observer.phase)
    (hn : observer.next setting parent parentRevision child branch dead =
      some (eff, after)) : SearchOk after.phase := by
  unfold next at hn
  split at hn <;> try rw [‹observer.phase = _›] at h
  all_goals try first | cases hn | rw [ite_some_none_eq_some] at hn; obtain ⟨-, ⟨⟩⟩ := hn
  next =>
    simp only [seeStatus]
    split <;> trivial
  next =>
    trivial
  next =>
    obtain ⟨received, -, ha⟩ := map_eq_some_iff.mp hn
    cases ha
    cases received with
    | lagged => trivial
    | terminal =>
      simp only [afterReceive]
      split <;> trivial
  next =>
    unfold afterLookup
    split <;> trivial
  next =>
    simp only [enter]
    split
    next hc => exact ⟨hc, fun hf ↦ Bool.noConfusion hf⟩
    next => trivial
  next =>
    exact searchOk_afterSnapshot h.1
  next =>
    split at hn <;> cases hn
    · trivial
    · exact h
  next =>
    split at hn
    next =>
      split at hn <;> cases hn
      · exact ⟨h.1, fun _ ↦ h.2⟩
      · exact h
    next =>
      cases hn
      trivial
  next =>
    exact h
  next =>
    exact h
  next =>
    simp only [seeStatus]
    split
    next => trivial
    next => exact h
  next =>
    split at hn
    next =>
      cases hn
      trivial
    next =>
      split at hn <;> cases hn <;> trivial
  next =>
    split at hn <;> cases hn <;> trivial
  next =>
    split at hn
    next =>
      cases hn
      simp only [afterRebind]
      split <;> trivial
    next =>
      cases hn
      trivial
  next =>
    exact searchOk_afterFollowing
  next =>
    trivial
  next =>
    simp only [seeStatus]
    split <;> trivial
  all_goals trivial

end Slopdex.Join.Watching
