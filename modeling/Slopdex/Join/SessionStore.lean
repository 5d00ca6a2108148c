import Slopdex.Join.Ownership
import Slopdex.Join.ParentSession

/-!
# The store of a parent session

Whatever a parent session does, its store goes through a sequence of store operations: the steps of
`parentSession` refine `storeSystem`. Facts about sequences of store operations therefore hold of the
store of every session, and a condition on store operations becomes a condition on session steps.
-/

namespace Slopdex.Join.SessionStore

open Protocol Library.Transition Library.Transition.System Join.Store Join.Evolution Join.WellFormed
open List JoinObligationStore
  Join.Ownership Join.Mailbox Join.ParentSession Option

variable {action : Action} {generation : ℕ} {s s' : State} {store store' : JoinObligationStore}

def acknowledgements (successorTurnId : Option TurnId) (state : Option TurnStateRef)
    (joins : List (TurnId × ℕ)) : List StoreOp :=
  joins.map fun join ↦ .acknowledge join.1 join.2 (successorTurnId.getD join.1) state

def deliveredJoins (queue : InputQueue) (active : Option ActiveDelivery) : List (TurnId × ℕ) :=
  if active.any fun turn ↦ !turn.acceptsMailboxDelivery then []
  else (validatedMailboxJoinProvenance queue.mailboxPendingMails queue.joinObligations
    (active.bind (·.taskSubId))).getD []

def enqueueOps : EnqueueStage → List StoreOp
  | .pushed (.joinAggregate generation) => [.finishDispatch generation]
  | _ => []

def dispatchOps : DispatchStage → List StoreOp
  | .enqueuing stage => enqueueOps stage
  | _ => []

def storeOps (s : State) : Action → List StoreOp
  | .register thread turn targets triggerTurn => [.register thread turn targets triggerTurn]
  | .resolve thread generation child incarnation turn status retain _ _ =>
    [.resolve thread generation child incarnation turn status retain]
  | .rebind thread generation child incarnation predecessor successor =>
    [.rebind thread generation child incarnation predecessor successor]
  | .retire thread generation child incarnation predecessor =>
    [.retire thread generation child incarnation predecessor]
  | .finishContinuation thread generation predecessor successor state =>
    [.finishContinuation thread generation predecessor successor state]
  | .finishRootContinuations thread turn state => [.finishRootContinuations thread turn state]
  | .notify index => ((s.dispatches[index]?).map fun dispatch ↦
      [.finishDispatch dispatch.completion.generation]).getD []
  | .enqueue index => ((s.dispatches[index]?).map fun dispatch ↦ dispatchOps dispatch.stage).getD []
  | .finish index => ((s.dispatches[index]?).map fun dispatch ↦
      [.finishDispatch dispatch.completion.generation]).getD []
  | .handle => (s.handler.map fun enqueue ↦ enqueueOps enqueue.stage).getD []
  | .wait thread turn targetIds current => [.wait thread turn targetIds current]
  | .terminal thread turn state status => [.turnTerminal thread turn state status]
  | .startup successor state => acknowledgements (some successor) (some state)
      (mailboxJoinProvenance s.queue.mailboxPendingMails)
  | .deliver active => acknowledgements (active.bind (·.taskSubId)) (active.map (·.turnState))
      (deliveredJoins s.queue active)
  | _ => []

theorem acknowledgeAll_eq_applyAll {succ : Option TurnId} {state : Option TurnStateRef}
    {joins : List (TurnId × ℕ)}
    (h : acknowledgeAll succ state store joins = some store') :
    store' = applyAll store (acknowledgements succ state joins) := by
  induction joins generalizing store with
  | nil => exact (some.inj h).symm
  | cons _ _ ih =>
    rw [acknowledgeAll] at h
    split at h
    next ha =>
      have hr := ih h
      rw [hr]
      simp only [acknowledgements, applyAll, map_cons, foldl_cons, apply, ha]
    next => cases h

theorem acknowledgeEach_eq_applyAll (succ : TurnId) (state : TurnStateRef)
    (store : JoinObligationStore) (joins : List (TurnId × ℕ)) :
    acknowledgeEach succ state store joins =
      applyAll store (acknowledgements (some succ) (some state) joins) := by
  simp only [acknowledgeEach, applyAll, acknowledgements, foldl_map]
  rfl

/-- The session after its mail was taken and the joins in it were acknowledged. -/
def takeMailbox (s : State) (successorTurnId : Option TurnId) (state : Option TurnStateRef) : State :=
  { s with
    queue := { s.queue with
      mailboxPendingMails := []
      joinObligations := applyAll s.queue.joinObligations (acknowledgements successorTurnId state
        (mailboxJoinProvenance s.queue.mailboxPendingMails)) }
    handed := s.handed ++ State.carried s.queue.mailboxPendingMails }

theorem startup_eq_some {succ : TurnId} {state : TurnStateRef}
    (h : s.startup succ state = some s') :
    s' = takeMailbox s (some succ) (some state) := by
  obtain ⟨_, hr, rfl⟩ := map_eq_some_iff.mp h
  obtain ⟨-, hq⟩ := ite_none_left_eq_some.mp hr
  cases hq
  simp only [takeMailbox, acknowledgeEach_eq_applyAll]

theorem mailboxJoinProvenance_of_validated {mails : List PendingMailboxCommunication}
    {succ : Option TurnId} {joins : List (TurnId × ℕ)}
    (h : validatedMailboxJoinProvenance mails store succ = some joins) :
    joins = mailboxJoinProvenance mails := by
  unfold validatedMailboxJoinProvenance at h
  obtain ⟨-, hj⟩ := ite_none_right_eq_some.mp h
  exact (some.inj hj).symm

theorem deliver_eq_some {active : Option ActiveDelivery} (h : s.deliver active = some s') :
    s' = s ∧ deliveredJoins s.queue active = [] ∨
    (validatedMailboxJoinProvenance s.queue.mailboxPendingMails s.queue.joinObligations
      (active.bind (·.taskSubId))).isSome = true ∧
    deliveredJoins s.queue active = mailboxJoinProvenance s.queue.mailboxPendingMails ∧
    s' = takeMailbox s (active.bind (·.taskSubId)) (active.map (·.turnState)) := by
  have hc : (if s.queue.mailboxPendingMails = [] then
      State.carried s.queue.mailboxPendingMails else []) = [] := by
    split
    next he => simp [he, State.carried]
    next => rfl
  obtain ⟨_, hr, rfl⟩ := map_eq_some_iff.mp h
  unfold getPendingInput at hr
  unfold deliveredJoins
  split at hr
  next hcl =>
    cases hr
    exact .inl ⟨by simp only [hc, append_nil], if_pos hcl⟩
  next ho =>
    split at hr
    next hn =>
      cases hr
      refine .inl ⟨by simp only [hc, append_nil], ?_⟩
      rw [if_neg ho, hn]
      rfl
    next hj =>
      obtain ⟨_, hs, rfl⟩ := map_eq_some_iff.mp hr
      have ha := mailboxJoinProvenance_of_validated hj
      refine .inr ⟨by simp [hj], ?_, ?_⟩
      · rw [if_neg ho, hj, getD_some, ha]
      · simp only [takeMailbox, if_true, acknowledgeAll_eq_applyAll hs, ha]

theorem advanceEnqueue_store (queue : InputQueue) (msg : Message) (stage : EnqueueStage) :
    (advanceEnqueue queue msg stage).1.joinObligations =
      applyAll queue.joinObligations (enqueueOps stage) := by
  cases stage with
  | received =>
    simp only [advanceEnqueue, takeTrigger]
    split
    · split
      · rfl
      · split <;> rfl
    · rfl
  | tagged => rfl
  | pushed provenance => cases provenance <;> rfl

theorem advanceEnqueue_updates (queue : InputQueue) (msg : Message) (stage : EnqueueStage) :
    Updates queue.joinObligations (advanceEnqueue queue msg stage).1.joinObligations := by
  rw [advanceEnqueue_store]
  unfold enqueueOps
  split
  next generation => exact (finishJoinDispatch_amends _ generation).toUpdates
  next => exact .refl _

theorem step_joinObligations (h : s.step action = some s') :
    s'.queue.joinObligations = applyAll s.queue.joinObligations (storeOps s action) := by
  cases action with
  | resolve =>
    cases h
    simp only [State.resolve]
    split <;> rfl
  | terminal =>
    cases h
    simp only [storeOps, applyAll, foldl_cons, foldl_nil, apply, recordNestedJoinTurnTerminal]
    split <;> rfl
  | startup =>
    rw [startup_eq_some h]
    rfl
  | deliver =>
    rcases deliver_eq_some h with ⟨rfl, hn⟩ | ⟨-, hj, rfl⟩
    · simp only [storeOps, hn]
      rfl
    · simp only [storeOps, hj]
      rfl
  | receive =>
    obtain ⟨_, _, -, -, rfl⟩ := receive_eq_some h
    rfl
  | handle =>
    obtain ⟨_, hh, rfl⟩ := handle_eq_some h
    simp only [storeOps, hh]
    exact advanceEnqueue_store _ _ _
  | abandon index | mark index | loseParent index | submit index =>
    obtain ⟨d, -, hm⟩ := bind_eq_some_iff.mp h
    obtain ⟨-, rfl⟩ := ite_some_none_eq_some.mp hm
    rfl
  | replaceParent index | reject index =>
    obtain ⟨d, -, hm⟩ := bind_eq_some_iff.mp h
    obtain ⟨-, rfl⟩ := ite_some_none_eq_some.mp hm
    simp only [clearJoinTrigger]
    split <;> rfl
  | overflow =>
    obtain ⟨d, -, hm⟩ := bind_eq_some_iff.mp h
    obtain ⟨-, hs'⟩ := ite_none_right_eq_some.mp hm
    split at hs' <;> cases hs' <;> rfl
  | notify index | finish index =>
    obtain ⟨d, hd, hm⟩ := bind_eq_some_iff.mp h
    obtain ⟨-, rfl⟩ := ite_some_none_eq_some.mp hm
    simp only [storeOps, hd]
    rfl
  | enqueue =>
    obtain ⟨d, hd, hm⟩ := bind_eq_some_iff.mp h
    simp only [State.dispatchStep] at hm
    split at hm
    next hs =>
      cases hm
      simp only [storeOps, hd, map_some, getD_some, hs]
      exact advanceEnqueue_store _ _ _
    next => cases hm
  | _ =>
    cases h
    rfl

/-- The operations of each kind of step. Startups and deliveries acknowledge joins of the mailbox. -/
inductive StoreOpOf (s : State) : Action → StoreOp → Prop
  | register (thread turn targets triggerTurn) :
      StoreOpOf s (.register thread turn targets triggerTurn)
        (.register thread turn targets triggerTurn)
  | resolve (thread generation child incarnation turn status retain parentPath childPath) :
      StoreOpOf s (.resolve thread generation child incarnation turn status retain parentPath
        childPath) (.resolve thread generation child incarnation turn status retain)
  | rebind (thread generation child incarnation predecessor successor) :
      StoreOpOf s (.rebind thread generation child incarnation predecessor successor)
        (.rebind thread generation child incarnation predecessor successor)
  | retire (thread generation child incarnation predecessor) :
      StoreOpOf s (.retire thread generation child incarnation predecessor)
        (.retire thread generation child incarnation predecessor)
  | finishContinuation (thread generation predecessor successor state) :
      StoreOpOf s (.finishContinuation thread generation predecessor successor state)
        (.finishContinuation thread generation predecessor successor state)
  | finishRootContinuations (thread turn state) :
      StoreOpOf s (.finishRootContinuations thread turn state)
        (.finishRootContinuations thread turn state)
  | finishDispatch (action : Action) (generation) : StoreOpOf s action (.finishDispatch generation)
  | wait (thread turn targetIds current) :
      StoreOpOf s (.wait thread turn targetIds current) (.wait thread turn targetIds current)
  | terminal (thread turn state status) :
      StoreOpOf s (.terminal thread turn state status) (.turnTerminal thread turn state status)
  | startup (successor state join) (hjoin : join ∈ mailboxJoinProvenance s.queue.mailboxPendingMails) :
      StoreOpOf s (.startup successor state) (.acknowledge join.1 join.2 successor (some state))
  | deliver (active join) (hjoin : join ∈ mailboxJoinProvenance s.queue.mailboxPendingMails) :
      StoreOpOf s (.deliver active) (.acknowledge join.1 join.2
        ((active.bind (·.taskSubId)).getD join.1) (active.map (·.turnState)))

theorem mem_mailboxJoinProvenance_of_delivered {queue : InputQueue} {active : Option ActiveDelivery}
    {join : TurnId × ℕ} (h : join ∈ deliveredJoins queue active) :
    join ∈ mailboxJoinProvenance queue.mailboxPendingMails := by
  unfold deliveredJoins at h
  split at h
  next => cases h
  next =>
    cases hj : validatedMailboxJoinProvenance queue.mailboxPendingMails queue.joinObligations
        (active.bind (·.taskSubId)) with
    | none =>
      rw [hj] at h
      cases h
    | some joins =>
      rw [hj] at h
      rwa [← mailboxJoinProvenance_of_validated hj]

theorem storeOpOf_of_mem_enqueueOps {stage : EnqueueStage}
    {op : StoreOp} (h : op ∈ enqueueOps stage) : StoreOpOf s action op := by
  unfold enqueueOps at h
  split at h
  · rw [mem_singleton.mp h]
    exact .finishDispatch action _
  · cases h

theorem storeOpOf_of_mem {op : StoreOp} (h : op ∈ storeOps s action) : StoreOpOf s action op := by
  have hs {α : Type} {found : Option α} {ops : α → List StoreOp}
      (hm : op ∈ (found.map ops).getD []) : ∃ a, found = some a ∧ op ∈ ops a := by
    cases found with
    | none => cases hm
    | some a => exact ⟨a, rfl, hm⟩
  cases action with
  | register | resolve | rebind | retire | finishContinuation | finishRootContinuations | wait
  | terminal =>
    rw [mem_singleton.mp h]
    constructor
  | startup succ state =>
    obtain ⟨join, hjoin, rfl⟩ := mem_map.mp h
    exact .startup succ state join hjoin
  | deliver active =>
    obtain ⟨join, hjoin, rfl⟩ := mem_map.mp h
    exact .deliver active join (mem_mailboxJoinProvenance_of_delivered hjoin)
  | notify index | finish index =>
    obtain ⟨_, -, hm⟩ := hs h
    rw [mem_singleton.mp hm]
    exact .finishDispatch _ _
  | enqueue =>
    obtain ⟨_, -, hm⟩ := hs h
    unfold dispatchOps at hm
    split at hm
    · exact storeOpOf_of_mem_enqueueOps hm
    · cases hm
  | handle =>
    obtain ⟨_, -, hm⟩ := hs h
    exact storeOpOf_of_mem_enqueueOps hm
  | _ => cases h

theorem acknowledge_mem_storeOps {pred succ : TurnId} {state : Option TurnStateRef}
    (h : .acknowledge pred generation succ state ∈ storeOps s action) :
    (∃ turnState, action = .startup succ turnState ∧ state = some turnState) ∨
      ∃ active, action = .deliver active ∧ succ = (active.bind (·.taskSubId)).getD pred ∧
        state = active.map (·.turnState) := by
  generalize hop : StoreOp.acknowledge pred generation succ state = op at h
  cases storeOpOf_of_mem h with
  | startup _ turnState =>
    cases hop
    exact .inl ⟨turnState, rfl, rfl⟩
  | deliver active =>
    cases hop
    exact .inr ⟨active, rfl, rfl, rfl⟩
  | _ => cases hop

theorem distinct_acknowledgements (h : Distinct store)
    (succ : Option TurnId) (state : Option TurnStateRef) (joins : List (TurnId × ℕ)) :
    Distinct (applyAll store (acknowledgements succ state joins)) := by
  induction joins generalizing store with
  | nil => exact h
  | cons _ _ ih => exact ih (h.acknowledge _ _ _ _)

structure Retired (store : JoinObligationStore) (generation : ℕ) : Prop where
  absent : generation ∉ store.obligations.map JoinObligation.generation
  le : generation ≤ store.nextGeneration
  lt : generation < u64Max

theorem Retired.of_sublist
    (h : Retired store generation) (hn : store'.nextGeneration = store.nextGeneration)
    (hs : (store'.obligations.map JoinObligation.generation).Sublist
      (store.obligations.map JoinObligation.generation)) : Retired store' generation :=
  ⟨fun hm ↦ h.absent (hs.subset hm), hn ▸ h.le, h.lt⟩

theorem Retired.evolves
    (h : Retired store generation) (hs : Evolves store store') : Retired store' generation :=
  h.of_sublist hs.nextGeneration hs.generations_sublist

theorem Retired.apply
    (h : Retired store generation) (op : StoreOp) : Retired (store.apply op) generation := by
  have ha := applies_apply store op
  generalize store.apply op = store' at ha ⊢
  cases ha with
  | evolves he => exact h.evolves he
  | adds =>
    have hf : generation < saturatingSucc store.nextGeneration := by
      have hle := h.le
      have hlt := h.lt
      unfold saturatingSucc
      omega
    refine ⟨?_, hf.le, h.lt⟩
    simp only [add, map_append, map_cons, map_nil, mem_append, mem_singleton, not_or]
    exact ⟨h.absent, hf.ne⟩
  | hands hh =>
    refine h.of_sublist ?_ (hh.generations ▸ Sublist.refl _)
    rw [hh.result]

theorem Retired.from
    (h : Retired s.queue.joinObligations generation) (hr : parentSession.From s s') :
    Retired s'.queue.joinObligations generation := by
  refine hr.stable (P := fun s ↦ Retired s.queue.joinObligations generation) ?_ h
  intro _ _ _ ht hst
  rw [step_joinObligations hst]
  exact applyAll_induction (Retired · generation) (fun _ op hs ↦ hs.apply op) ht _

/-- A condition on store operations, along a sequence of them. -/
def AllOps (ok : JoinObligationStore → StoreOp → Prop) : JoinObligationStore → List StoreOp → Prop
  | _, [] => True
  | store, op :: rest => ok store op ∧ AllOps ok (store.apply op) rest

instance allOpsDecidable (ok : JoinObligationStore → StoreOp → Prop)
    [∀ store op, Decidable (ok store op)] :
    (store : JoinObligationStore) → (ops : List StoreOp) → Decidable (AllOps ok store ops)
  | _, [] => isTrue trivial
  | store, op :: rest =>
    have := allOpsDecidable ok (store.apply op) rest
    inferInstanceAs (Decidable (ok store op ∧ AllOps ok (store.apply op) rest))

theorem AllOps.applyAll {ok : JoinObligationStore → StoreOp → Prop} {ops : List StoreOp}
    (ho : AllOps ok store ops)
    (Inv : JoinObligationStore → Prop)
    (hs : ∀ store op, Inv store → ok store op → Inv (store.apply op))
    (h : Inv store) : Inv (applyAll store ops) := by
  induction ops generalizing store with
  | nil => exact h
  | cons op _ ih => exact ih ho.2 (hs store op h ho.1)

end Slopdex.Join.SessionStore
