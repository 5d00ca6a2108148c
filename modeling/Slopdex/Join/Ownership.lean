import Slopdex.Join.WellFormed
import Slopdex.Library.Transition

/-!
# Who owns a turn

A turn is owned by the join that will continue it, or by the lease that the delivered join left
behind. An observer of a nested join gives up when there are two owners. A join registered by a turn
whose delivery already moved on is a second owner, and so is a retained delivery acknowledged by a
turn that owns something itself.
-/

namespace Slopdex.Join.Ownership

open Protocol Library.FirstMatch Library.Transition Library.Transition.System Join.Store
  Join.Evolution Join.WellFormed JoinObligation JoinObligationStore List

variable {generation : ℕ} {o : JoinObligation} {predecessor successor turn : TurnId}
  {state : Option TurnStateRef} {thread : ThreadId}

def storeSystem : System JoinObligationStore StoreOp where
  init := .empty
  step store op := some (store.apply op)

def owners (store : JoinObligationStore) (thread : ThreadId) (turn : TurnId) : ℕ :=
  store.continuations.countP (·.follows thread turn) +
    store.obligations.countP (·.joinOf thread turn)

def KeepsOwnersApart (store : JoinObligationStore) : StoreOp → Prop
  | .register thread turn _ triggerTurn =>
    triggerTurn = true → store.continuations.countP (·.follows thread turn) = 0
  | .acknowledge predecessor generation successor _ =>
    successor ≠ predecessor → ∀ o ∈ store.obligations,
      o.awaitsDelivery generation predecessor = true →
      o.retainedDeliveryPredecessorTurnId = some predecessor →
        owners store o.parentThreadId successor = 0
  | _ => True

instance (store : JoinObligationStore) (op : StoreOp) : Decidable (KeepsOwnersApart store op) := by
  cases op <;> unfold KeepsOwnersApart <;> infer_instance

variable {store store' : JoinObligationStore}

theorem owners_le_of_evolves (hstep : Evolves store store')
    (hl : store'.continuations.countP (·.follows thread turn) ≤
      store.continuations.countP (·.follows thread turn)) :
    owners store' thread turn ≤ owners store thread turn :=
  Nat.add_le_add hl (hstep.countP_joinOf_le thread turn)

theorem joinOf_eq_true :
    o.joinOf thread turn = true ↔
      o.triggerTurn = true ∧ o.parentThreadId = thread ∧ o.parentTurnId = turn := by
  simp [joinOf, ownedBy]

theorem countP_newLeases_le (o : JoinObligation) (generation : ℕ) (predecessor successor : TurnId)
    (state : Option TurnStateRef) (thread : ThreadId) (turn : TurnId) :
    (newLeases o generation predecessor successor state).countP (·.follows thread turn) ≤
      if predecessor ≠ successor ∧ o.parentThreadId = thread ∧ predecessor = turn then 1 else 0 := by
  cases state with
  | none => simp [newLeases]
  | some =>
    by_cases hne : predecessor = successor
    · simp [newLeases, hne]
    · simp [newLeases, hne, countP_cons, lease, JoinContinuationLease.follows]

/-! ## Steps that add or move an owner -/

theorem register_owners_le_one {targets : TargetBindings}
    {triggerTurn : Bool} (h : ∀ thread turn, owners store thread turn ≤ 1)
    (hok : KeepsOwnersApart store (.register thread turn targets triggerTurn))
    (thread' : ThreadId) (turn' : TurnId) :
    owners (registerObligation store thread turn targets triggerTurn).1 thread' turn' ≤ 1 := by
  rcases registerObligation_cases store thread turn targets triggerTurn with hs | ⟨hf, ha⟩
  · rw [hs]
    exact h thread' turn'
  · rw [ha]
    have hold := h thread' turn'
    simp only [owners, add, countP_append, countP_singleton] at hold ⊢
    split
    next hn =>
      obtain ⟨ht, hth, htu⟩ := joinOf_eq_true.mp hn
      simp only [registered] at ht hth htu
      subst hth htu ht
      have hl := hok rfl
      have hjo : store.obligations.countP (·.joinOf thread turn) = 0 := by
        rw [countP_eq_zero]
        intro o ho hj
        simp only [joinOf, Bool.and_eq_true] at hj
        exact hf o ho hj.2 hj.1
      omega
    next => exact hold

theorem finishes_owners_le
    (h : Finishes store store' predecessor generation successor state o) (thread : ThreadId)
    (turn : TurnId) : owners store' thread turn ≤ owners store thread turn := by
  rcases h.continuations with hsa | ⟨ht, hl⟩
  · exact owners_le_of_evolves h.evolves (by rw [hsa])
  · obtain ⟨_, _, hs, -, -, he⟩ := split_of_find? (f := id) h.found
    have htu : o.parentTurnId = predecessor := by
      have hfn := find?_some h.found
      have hu := h.unretained
      simp only [awaitsDelivery, inRetainedDeliveryFor,
        Bool.and_eq_true, Bool.or_eq_true, beq_iff_eq] at hfn
      exact (hfn.2.resolve_right hu).1
    have hle := countP_newLeases_le o generation predecessor successor state thread turn
    -- The lease that is added follows the turn whose join is taken away.
    have hj : (if predecessor ≠ successor ∧ o.parentThreadId = thread ∧ predecessor = turn
        then 1 else 0) ≤ if o.joinOf thread turn = true then 1 else 0 := by
      split
      next hf =>
        rw [if_pos (joinOf_eq_true.mpr ⟨ht, hf.2.1, htu.trans hf.2.2⟩)]
      next => exact Nat.zero_le _
    simp only [owners, hl, h.obligations, he]
    rw [hs]
    simp only [countP_append, countP_cons]
    omega

section

variable (hsound : Sound store) (h : ∀ thread turn, owners store thread turn ≤ 1)
  (hok : KeepsOwnersApart store (.acknowledge predecessor generation successor state))
include hsound h hok

theorem handsOver_owners_le_one
    (hstep : HandsOver store store' predecessor generation successor state o)
    (thread : ThreadId) (turn : TurnId) : owners store' thread turn ≤ 1 := by
  obtain ⟨before, after, hsp, -, hu, -⟩ :=
    split_of_find? (f := (·.handOver successor)) hstep.found
  have hme : o ∈ store.obligations := mem_of_find?_eq_some hstep.found
  obtain ⟨-, ht, htu, -⟩ := (hsound o hme).retained_delivery predecessor hstep.retained
  have hl := countP_newLeases_le o generation predecessor successor state thread turn
  have hold := h thread turn
  have hfn := find?_some hstep.found
  have hb : o.joinOf thread turn = true ↔ o.parentThreadId = thread ∧ predecessor = turn := by
    rw [joinOf_eq_true, ← htu]
    exact and_iff_right ht
  have ha : (o.handOver successor).joinOf thread turn = true ↔
      o.parentThreadId = thread ∧ successor = turn := by
    rw [joinOf_eq_true]
    exact and_iff_right ht
  have hn : owners store' thread turn =
      store.continuations.countP (·.follows thread turn) +
        (newLeases o generation predecessor successor state).countP (·.follows thread turn) +
        (before.countP (·.joinOf thread turn) + (after.countP (·.joinOf thread turn) +
          if o.parentThreadId = thread ∧ successor = turn then 1 else 0)) := by
    rw [hstep.result]
    simp only [owners, hu, countP_append, countP_cons, ha]
  have hsu : owners store thread turn = store.continuations.countP (·.follows thread turn) +
      (before.countP (·.joinOf thread turn) + (after.countP (·.joinOf thread turn) +
        if o.parentThreadId = thread ∧ predecessor = turn then 1 else 0)) := by
    simp only [owners, hsp, countP_append, countP_cons, hb]
  by_cases hm : o.parentThreadId = thread ∧ successor = turn
  · obtain ⟨rfl, rfl⟩ := hm
    by_cases hs : successor = predecessor
    · subst hs
      simp only [ne_eq, not_true_eq_false, false_and, if_false] at hl
      omega
    · have hz := hok hs o hme hfn hstep.retained
      simp only [Ne.symm hs, and_false, if_false] at hl
      simp only [and_self, if_true] at hn
      omega
  · simp only [hm, if_false] at hn
    split at hl
    next hf =>
      simp only [hf.2, and_self, if_true] at hsu
      omega
    next => omega

theorem acknowledge_owners_le_one (thread : ThreadId) (turn : TurnId) :
    owners (acknowledgeReadyJoinDelivery store predecessor generation successor state).1
      thread turn ≤ 1 := by
  rcases acknowledgeReadyJoinDelivery_cases store predecessor generation successor state with
    hs | ⟨o, hh | hf⟩
  · rw [hs]
    exact h thread turn
  · exact handsOver_owners_le_one hsound h hok hh thread turn
  · exact (finishes_owners_le hf thread turn).trans (h thread turn)

end

theorem recordTurnTerminal_countP_follows (store : JoinObligationStore) (thread : ThreadId)
    (turn : TurnId) (state : TurnStateRef) (status : AgentStatus) (thread' : ThreadId)
    (turn' : TurnId) :
    (recordTurnTerminal store thread turn state status).continuations.countP
      (·.follows thread' turn') = store.continuations.countP (·.follows thread' turn') := by
  simp only [recordTurnTerminal, countP_map]
  apply countP_congr
  intro _ _
  simp only [Function.comp_apply]
  split <;> rfl

theorem apply_owners_le_one (hsound : Sound store) (h : ∀ thread turn, owners store thread turn ≤ 1)
    (op : StoreOp) (hok : KeepsOwnersApart store op) (thread : ThreadId) (turn : TurnId) :
    owners (store.apply op) thread turn ≤ 1 := by
  have he {store' : JoinObligationStore} (hstep : Evolves store store')
      (hl : store'.continuations.countP (·.follows thread turn) ≤
        store.continuations.countP (·.follows thread turn)) : owners store' thread turn ≤ 1 :=
    (owners_le_of_evolves hstep hl).trans (h thread turn)
  have hu {store' : JoinObligationStore} (hstep : Updates store store') :
      owners store' thread turn ≤ 1 :=
    he hstep.evolves (by rw [hstep.continuations])
  cases op with
  | register => exact register_owners_le_one h hok thread turn
  | resolve => exact hu (resolveJoinTargetInner_updates store _ _ _ _ _ _ _)
  | finishDispatch => exact hu (finishJoinDispatch_amends store _).toUpdates
  | acknowledge => exact acknowledge_owners_le_one hsound h hok thread turn
  | wait waitThread waitTurn targetIds current =>
    simp only [apply]
    rcases consumeReadyJoinObligationForTargets_cases store waitThread waitTurn targetIds current
      with hs | ⟨o, -, ha⟩
    · rw [hs]
      exact h thread turn
    · rw [ha]
      exact acknowledge_owners_le_one hsound h (fun hne ↦ absurd rfl hne) thread turn
  | rebind => exact hu (rebindJoinTargetToSuccessor_amends store _ _ _ _ _ _).toUpdates
  | retire => exact hu (retireJoinTargetSuccessorRetention_amends store _ _ _ _ _).toUpdates
  | finishContinuation | finishRootContinuations =>
    exact he (.of_sublist rfl (List.Sublist.refl _)) filter_sublist.countP_le
  | turnTerminal =>
    simp only [apply]
    split
    · refine he (recordTurnTerminal_evolves store _ _ _ _) (le_of_eq ?_)
      exact recordTurnTerminal_countP_follows store _ _ _ _ thread turn
    · exact h thread turn

theorem joinContinuationForPredecessor_ne_none
    (h : owners store thread turn ≤ 1) : joinContinuationForPredecessor store thread turn ≠ none := by
  simp only [owners, countP_eq_length_filter] at h
  unfold joinContinuationForPredecessor
  generalize store.continuations.filter (·.follows thread turn) = leases at h ⊢
  generalize store.obligations.filter (·.joinOf thread turn) = joins at h ⊢
  match leases, joins with
  | [], [] => simp
  | [_], [] => simp
  | [], [_] => simp
  | _ :: _, _ :: _ | _ :: _ :: _, [] | [], _ :: _ :: _ =>
    simp only [length_cons] at h
    omega

/-- In every run that keeps owners apart, each turn has at most one. -/
theorem guarded_join_owner_unique {store : JoinObligationStore}
    (h : storeSystem.Guarded KeepsOwnersApart store) (thread : ThreadId) (turn : TurnId) :
    store.obligations.countP (·.joinOf thread turn) ≤ 1 ∧
    store.continuations.countP (·.follows thread turn) ≤ 1 ∧
    ¬ (0 < store.obligations.countP (·.joinOf thread turn) ∧
      0 < store.continuations.countP (·.follows thread turn)) ∧
    joinContinuationForPredecessor store thread turn ≠ none := by
  have hinv : Sound store ∧ ∀ thread turn, owners store thread turn ≤ 1 := by
    refine h.invariant (fun store ↦ Sound store ∧ ∀ thread turn, owners store thread turn ≤ 1)
      ⟨?_, ?_⟩ ?_
    · simp [Sound, storeSystem, empty]
    · simp [owners, storeSystem, empty]
    · rintro _ op _ ⟨hsound, howners⟩ hok hstep
      cases hstep
      exact ⟨hsound.apply op, apply_owners_le_one hsound howners op hok⟩
  have howners := hinv.2 thread turn
  have hquery := joinContinuationForPredecessor_ne_none howners
  unfold owners at howners
  exact ⟨by omega, by omega, by omega, hquery⟩

/-- A join registered by `A`, completed with a retained child and delivered to `B`. -/
def deliveredToSuccessor : List StoreOp :=
  [.register ⟨1⟩ "A" (singleTarget ⟨2⟩ ⟨0⟩ "child") true,
    .resolve ⟨1⟩ 1 ⟨2⟩ ⟨0⟩ "child" (.completed none) true,
    .finishDispatch 1,
    .acknowledge "A" 1 "B" (some ⟨0⟩)]

theorem guarded_join_owner_unique_deliveredToSuccessor :
    ∃ store, storeSystem.Guarded KeepsOwnersApart store ∧
      store.obligations.countP (·.joinOf ⟨1⟩ "B") = 1 ∧
      store.continuations.countP (·.follows ⟨1⟩ "A") = 1 ∧
      joinContinuationForPredecessor store ⟨1⟩ "B" ≠ none := by
  obtain ⟨store, hgrd, hcheck⟩ := exists_guarded_of_runIf storeSystem KeepsOwnersApart
    deliveredToSuccessor (fun store ↦ store.obligations.countP (·.joinOf ⟨1⟩ "B") == 1 &&
      store.continuations.countP (·.follows ⟨1⟩ "A") == 1) (by decide)
  simp only [Bool.and_eq_true, beq_iff_eq] at hcheck
  obtain ⟨-, -, -, hquery⟩ := guarded_join_owner_unique hgrd ⟨1⟩ "B"
  exact ⟨store, hgrd, hcheck.1, hcheck.2, hquery⟩

/-- The same delivery after `B` registered a join of its own: both joins are then owned by `B`. -/
theorem reachable_join_owner_ambiguous :
    ¬ ∀ store, storeSystem.Reachable store → ∀ thread turn,
      store.obligations.countP (·.joinOf thread turn) ≤ 1 ∧
      store.continuations.countP (·.follows thread turn) ≤ 1 ∧
      ¬ (0 < store.obligations.countP (·.joinOf thread turn) ∧
        0 < store.continuations.countP (·.follows thread turn)) ∧
      joinContinuationForPredecessor store thread turn ≠ none := by
  intro hclaim
  obtain ⟨store, hreachable, hcheck⟩ := exists_reachable_of_run storeSystem
    [.register ⟨1⟩ "A" (singleTarget ⟨2⟩ ⟨0⟩ "child") true,
      .resolve ⟨1⟩ 1 ⟨2⟩ ⟨0⟩ "child" (.completed none) true,
      .finishDispatch 1,
      .register ⟨1⟩ "B" (singleTarget ⟨3⟩ ⟨1⟩ "other child") true,
      .acknowledge "A" 1 "B" (some ⟨0⟩)]
    (fun store ↦ (joinContinuationForPredecessor store ⟨1⟩ "B").isNone) (by decide)
  obtain ⟨-, -, -, hquery⟩ := hclaim store hreachable ⟨1⟩ "B"
  exact hquery (Option.isNone_iff_eq_none.mp hcheck)

end Slopdex.Join.Ownership
