import Slopdex.Join.Lifecycle

/-!
# The completion of a ready join is not lost

A join obligation that is ready waits for the message of its completion. The message is on its way or
in the mailbox as long as no dispatch gives up a completion that is still owed: whatever takes the
message out of the mailbox also acknowledges or removes the obligation.
-/

namespace Slopdex.Join.Undelivered

open Protocol Library.FirstMatch Library.Transition Library.Transition.System Join.Store
  Join.Evolution Join.WellFormed Join.Readiness Join.Mailbox Join.ParentSession Join.SessionStore
  Join.Provenance Join.PendingMail Join.Handover
open Join.Lifecycle (registers isRegistration registers_storeOps)
open List

variable {s s' : State} {store : JoinObligationStore} {dispatch : Dispatch} {index : ℕ}

def Owed (store : JoinObligationStore) (completion : JoinCompletion) : Prop :=
  ∃ o ∈ store.obligations, o.ready = true ∧ o.triggerTurn = true ∧
    o.generation = completion.generation ∧ o.parentTurnId = completion.parentTurnId

instance (store : JoinObligationStore) (completion : JoinCompletion) :
    Decidable (Owed store completion) := by
  unfold Owed
  infer_instance

structure Carried (s : State) : Prop where
  genuine : ∀ message ∈ messages s, Genuine s.dispatches message
  carried : ∀ o ∈ s.queue.joinObligations.obligations, o.ready = true → o.triggerTurn = true →
    ∃ n dispatch, s.dispatches[n]? = some dispatch ∧ dispatch.completion.generation = o.generation ∧
      dispatch.completion.parentTurnId = o.parentTurnId ∧ 0 < pending s n

theorem Carried.mono (h : Carried s) (he : Extends s.dispatches s'.dispatches)
    (hm : ∀ msg ∈ messages s', msg ∈ messages s ∨ Genuine s'.dispatches msg)
    (hr : ReadyBefore s.queue.joinObligations s'.queue.joinObligations)
    (hp : ∀ (n : ℕ) (d : Dispatch), s.dispatches[n]? = some d → 0 < pending s n →
      0 < pending s' n ∨ ¬ Owed s'.queue.joinObligations d.completion) : Carried s' where
  genuine := by
    intro msg hme
    rcases hm msg hme with hold | hn
    · exact (h.genuine msg hold).extends he
    · exact hn
  carried := by
    intro o' ho' hr' hj'
    obtain ⟨o, ho, hb, hown⟩ := hr o' ho' hr'
    have hg : o'.generation = o.generation := congrArg (·.1.generation) hown
    have ht : o'.parentTurnId = o.parentTurnId := congrArg (·.2.2.1) hown
    have hj : o.triggerTurn = true := (congrArg (·.2.2.2) hown).symm.trans hj'
    obtain ⟨n, d, hd, hge, hpa, hpo⟩ := h.carried o ho hb hj
    obtain ⟨d', hd', hc, -⟩ := he n d hd
    have how : Owed s'.queue.joinObligations d.completion :=
      ⟨o', ho', hr', hj', hg.trans hge.symm, ht.trans hpa.symm⟩
    have hp' : 0 < pending s' n := (hp n d hd hpo).resolve_right (absurd how)
    exact ⟨n, d', hd', hc ▸ hge.trans hg.symm, hc ▸ hpa.trans ht.symm, hp'⟩

def MayFail (s : State) (dispatch : Dispatch) : Action → Prop
  | .abandon _ | .loseParent _ | .replaceParent _ | .reject _ =>
    ¬ Owed s.queue.joinObligations dispatch.completion
  | .overflow _ =>
    (dispatch.completion.parentTurnId, dispatch.completion.generation) ∈ s.capacityReadyLeases →
      ¬ Owed s.queue.joinObligations dispatch.completion
  | _ => True

instance (s : State) (dispatch : Dispatch) (action : Action) :
    Decidable (MayFail s dispatch action) := by
  induction action using ParentSession.Action.casesOn <;> dsimp only [MayFail] <;> infer_instance

theorem Carried.purge (h : Carried s) (ht : TagInvariant s) {gens : List ℕ}
    (hr : ReadyBefore s.queue.joinObligations store)
    (hg : ∀ o ∈ store.obligations, o.ready = true → o.generation ∉ gens)
    (handed : List ℕ) :
    Carried { s with
      queue := purgeMail { s.queue with joinObligations := store } gens
      handed := handed } := by
  refine h.mono (.refl _) ?_ hr ?_
  · intro _ hme
    exact .inl (mem_messages_takeMail filter_sublist.subset hme)
  · intro n d hd hp
    by_cases hgn : d.completion.generation ∈ gens
    · right
      rintro ⟨o, ho, hr', -, hge, -⟩
      exact hg o ho hr' (hge ▸ hgn)
    · left
      have hma : mailed (purgeMail { s.queue with joinObligations := store } gens) n =
          mailed s.queue n := by
        unfold mailed purgeMail
        rw [countP_filter]
        apply countP_congr
        intro mail hm
        rw [Bool.and_eq_true, and_iff_left_iff_imp]
        intro hf
        have hta := provenance_of_eq_message (ht.mail mail hm)
          (mail_eq_message h.genuine hd hm hf)
        simp [PendingMailboxCommunication.isAggregateOf, hta, hgn]
      simp only [pending, onTheWay, hma] at hp ⊢
      exact hp

theorem Carried.wait (h : Carried s) (hb : Base s) (thread : ThreadId) (turn : TurnId)
    (targetIds : List ThreadId) (cur : TargetBindings) :
    Carried (s.wait thread turn targetIds cur) := by
  unfold State.wait consumeForTargets
  rcases hb.sound.consume_cases thread turn targetIds cur with
    ⟨-, hn⟩ | ⟨o, ho, -, ht, hr, hc⟩
  · rw [hn]
    exact h.purge hb.tags (.refl _) (fun _ _ _ ↦ not_mem_nil) _
  · rw [hc]
    have hbe {o' : JoinObligation} (ho' : o' ∈ (acknowledgeReadyJoinDelivery
        s.queue.joinObligations turn o.generation turn none).1.obligations)
        (hr' : o'.ready = true) := ready_acknowledge hb.distinct ho' hr'
    apply h.purge hb.tags
    · intro o' ho' hr'
      exact ⟨o', (hbe ho' hr').1, hr', rfl⟩
    · intro _ ho' hr' hm
      obtain ⟨hold, hot⟩ := hbe ho' hr'
      have hs := hb.distinct.eq_of_generation_eq hold ho (mem_singleton.mp hm)
      subst hs
      exact hot ⟨rfl, ht⟩

theorem Carried.terminal (h : Carried s) (ht : TagInvariant s) (thread : ThreadId)
    (turn : TurnId) (state : TurnStateRef) (status : AgentStatus) :
    Carried { s with queue := recordNestedJoinTurnTerminal s.queue thread turn state status } := by
  unfold recordNestedJoinTurnTerminal
  split
  · apply h.purge ht (recordTurnTerminal_readyBefore _ _ _ _ _)
    intro o ho _ hr
    obtain ⟨-, hk⟩ := mem_filter.mp ho
    rw [Bool.not_eq_true', contains_eq_mem, decide_eq_false_iff_not] at hk
    exact hk hr
  · exact h

theorem Carried.takeMailbox (h : Carried s) (hb : Base s) (succ : Option TurnId)
    (state : Option TurnStateRef) : Carried (SessionStore.takeMailbox s succ state) := by
  have hbe {o' : JoinObligation}
      (ho' : o' ∈ (SessionStore.takeMailbox s succ state).queue.joinObligations.obligations)
      (hr : o'.ready = true) := ready_acknowledgements hb.distinct ho' hr
  refine h.mono (.refl _) ?_ ?_ ?_
  · intro _ hme
    exact .inl (mem_messages_takeMail (nil_subset _) hme)
  · intro o' ho' hr
    exact ⟨o', (hbe ho' hr).1, hr, rfl⟩
  · intro n d hd hp
    by_cases hm : mailed s.queue n = 0
    · rw [pending, hm] at hp
      exact .inl hp
    · right
      rintro ⟨o', ho', hr, -, hg, ht⟩
      obtain ⟨hold, hn⟩ := hbe ho' hr
      obtain ⟨_, hma, hf⟩ := countP_pos_iff.mp (Nat.pos_of_ne_zero hm)
      apply hn
      rw [hg, ht]
      exact mem_mailboxJoinProvenance hb.tags h.genuine hd hma hf
        (ht ▸ hb.named o' hold)

theorem pending_le_emit (s : State) (store : JoinObligationStore) (completion : JoinCompletion)
    (parentPath childPath : String) {n : ℕ} (hd : s.dispatches[n]? = some dispatch) :
    pending s n ≤ pending ((s.withStore store).emit completion parentPath childPath) n := by
  obtain ⟨hlt, -⟩ := List.getElem?_eq_some_iff.mp hd
  simp only [pending, onTheWay, mailed, State.emit, State.withStore,
    getElem?_append_left hlt, le_refl]

theorem Carried.emit (h : Carried s) {completion : JoinCompletion} {o emitted : JoinObligation}
    (he : Emits s.queue.joinObligations store completion o emitted)
    (hr : ∀ o' ∈ store.obligations, o'.ready = true → o' = emitted ∨
      o'.generation ≠ completion.generation ∧ ∃ old ∈ s.queue.joinObligations.obligations,
        old.ready = true ∧ owner o' = owner old) (parentPath childPath : String) :
    Carried ((s.withStore store).emit completion parentPath childPath) := by
  have hex := extends_append s.dispatches [⟨parentPath, childPath, completion, .entered⟩]
  refine ⟨fun msg hm ↦ (h.genuine msg hm).extends hex, ?_⟩
  intro o' ho' hr' hj
  rcases hr o' ho' hr' with rfl | ⟨-, old, hold, hb, ho⟩
  · -- The new dispatch carries the completion that the resolution has produced.
    obtain ⟨hg, ht, htr⟩ := he.carries
    refine ⟨s.dispatches.length, _, getElem?_concat_length, hg, ht, ?_⟩
    simp only [pending, onTheWay, State.emit, getElem?_concat_length, State.withStore,
      Option.toList_some, countP_singleton, sending, htr, hj, if_true]
    omega
  · have hj' : old.triggerTurn = true := (congrArg (·.2.2.2) ho).symm.trans hj
    obtain ⟨n, d, hd, hge, ht, hp⟩ := h.carried old hold hb hj'
    obtain ⟨d', hd', hs, -⟩ := hex n d hd
    refine ⟨n, d', hd', ?_, ?_, hp.trans_le (pending_le_emit s _ _ _ _ hd)⟩
    · rw [hs, hge]
      exact (congrArg (·.1.generation) ho).symm
    · rw [hs, ht]
      exact (congrArg (·.2.2.1) ho).symm

theorem distinct_applyAll {ops : List StoreOp} (h : Distinct store)
    (ho : ∀ op ∈ ops, registers op = false) : Distinct (applyAll store ops) := by
  induction ops generalizing store with
  | nil => exact h
  | cons op _ ih =>
    apply ih (h.apply op _) fun op' hop' ↦ ho op' (mem_cons_of_mem op hop')
    rintro _ _ _ _ rfl
    cases ho _ mem_cons_self

theorem named_applyAll {ops : List StoreOp} (h : Named store) (hs : Sound store)
    (ho : ∀ op ∈ ops, NamesTurns op) : Named (applyAll store ops) := by
  induction ops generalizing store with
  | nil => exact h
  | cons op _ ih =>
    exact ih (h.apply hs op (ho op mem_cons_self)) (hs.apply op)
      fun op' hop' ↦ ho op' (mem_cons_of_mem op hop')

def FailsUnowed (s : State) (action : Action) : Prop :=
  match action with
  | .abandon index | .loseParent index | .replaceParent index | .reject index | .overflow index =>
    ∀ dispatch ∈ s.dispatches[index]?, MayFail s dispatch action
  | _ => True

instance (s : State) (action : Action) : Decidable (FailsUnowed s action) := by
  induction action using ParentSession.Action.casesOn <;> dsimp only [FailsUnowed] <;>
    infer_instance

/-- Marks are not mixed up, dispatches fail only where nobody waits, turns are named and generations
are fresh. -/
structure KeepsCompletions (s : State) (action : Action) : Prop where
  marks : KeepsMarks s action
  failures : FailsUnowed s action
  names : ∀ op ∈ storeOps s action, NamesTurns op
  fresh : isRegistration action = true → s.queue.joinObligations.nextGeneration < u64Max

theorem base_of_keepsCompletions (h : Base s) {act : Action} (hok : KeepsCompletions s act)
    (hs : s.step act = some s') : Base s' where
  tags := h.tags.step hok.marks hs
  sound := by
    rw [step_joinObligations hs]
    exact applyAll_sound _ h.sound
  distinct := by
    rw [step_joinObligations hs]
    cases hk : isRegistration act with
    | false => exact distinct_applyAll h.distinct (registers_storeOps hk)
    | true =>
      cases act with
      | register thread turn targets triggerTurn =>
        exact h.distinct.apply (.register thread turn targets triggerTurn)
          fun _ _ _ _ _ _ ↦ hok.fresh hk
      | _ => cases hk
  named := by
    rw [step_joinObligations hs]
    exact named_applyAll h.named h.sound hok.names

theorem not_owed_of_givesUp {act : Action} (hok : FailsUnowed s act)
    (hd : s.dispatches[index]? = some dispatch) (hg : GivesUp s index dispatch act) :
    ¬ Owed s.queue.joinObligations dispatch.completion := by
  cases act with
  | abandon | loseParent | replaceParent | reject =>
    cases hg
    exact hok dispatch hd
  | overflow =>
    obtain ⟨rfl, hl⟩ := hg
    exact hok dispatch hd hl
  | _ => cases hg

theorem Carried.step (h : Carried s) (hb : Base s) {act : Action}
    (hok : FailsUnowed s act) (hst : s.step act = some s') : Carried s' := by
  cases flow_of_step hb hst with
  | passes hp =>
    refine h.mono hp.ext hp.origins hp.ready ?_
    intro n d hd _
    by_cases hl : pending s' n < pending s n
    · obtain ⟨hg, hs⟩ := hp.lost n d hd hl
      rw [hs]
      exact .inr (not_owed_of_givesUp hok hd hg)
    · exact .inl (by omega)
  | emits he hr parentPath childPath => exact h.emit he hr parentPath childPath
  | waits thread turn targetIds current => exact h.wait hb thread turn targetIds current
  | ends thread turn state status => exact h.terminal hb.tags thread turn state status
  | takes succ state => exact h.takeMailbox hb succ state

theorem carried_initial : Carried State.initial where
  genuine := forall_mem_nil _
  carried := forall_mem_nil _

end Slopdex.Join.Undelivered
