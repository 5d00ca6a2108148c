import Slopdex.Join.Carriers

/-!
# Tagged mail and its acceptance by a running turn

Where nothing consumes an obligation whose completion is on its way, every tagged mail has exactly
one obligation that awaits it, and a running turn refuses the mailbox only between the push of a
mail and the completion of its dispatch. Otherwise a wait leaves orphaned mail behind, and no
running turn ever accepts the mailbox again.
-/

namespace Slopdex.Join.PendingMail

open Protocol Library.FirstMatch Library.KeyedMap Library.Transition Library.Transition.System
open Bool
  Join.Store Join.Evolution Join.WellFormed Join.Ownership Join.Mailbox Join.ParentSession
  Join.SessionStore Join.Carriers PendingMailboxCommunication List

variable {successor : Option TurnId} {action : Action} {join : TurnId × ℕ}

variable {store store' : JoinObligationStore} {s s' : State} {dispatch : Dispatch} {index : ℕ}
  {generation : ℕ} {turn : TurnId}

theorem filter_awaitsDelivery_eq_singleton (hd : Distinct store)
    (h : Awaited store generation turn) :
    ∃ o ∈ store.obligations, o.awaitsDelivery generation turn = true ∧
      store.obligations.filter (·.awaitsDelivery generation turn) = [o] := by
  obtain ⟨o, ho, hw⟩ := h
  refine ⟨o, ho, hw, hd.filter_eq_singleton ho hw ?_⟩
  intro _ hw'
  rw [generation_of_awaitsDelivery hw', generation_of_awaitsDelivery hw]

theorem countP_awaitsDelivery_eq_one (hd : Distinct store) (h : Awaited store generation turn) :
    store.obligations.countP (·.awaitsDelivery generation turn) = 1 := by
  obtain ⟨o, -, -, hsi⟩ := filter_awaitsDelivery_eq_singleton hd h
  rw [countP_eq_length_filter, hsi, length_singleton]

theorem countP_eq_one_of_tagged (h : FlightInvariant s) {mail : PendingMailboxCommunication}
    (hmail : mail ∈ s.queue.mailboxPendingMails)
    (htag : mail.provenance = .joinAggregate generation) :
    ∃ turn, mail.startOptions.parentTurnId = some turn ∧
      s.queue.joinObligations.obligations.countP (·.awaitsDelivery generation turn) = 1 := by
  obtain ⟨turn, ht⟩ := Option.isSome_iff_exists.mp (h.mail mail hmail generation htag).2
  refine ⟨turn, ht, countP_awaitsDelivery_eq_one h.distinct ?_⟩
  exact h.awaited generation turn (.mail mail hmail ht htag)

/-! ## Completed dispatches -/

/-- An enqueue has pushed its mail and is about to complete the dispatch. -/
def Completing (s : State) (generation : ℕ) : Prop :=
  (∃ enqueue ∈ s.handler, enqueue.stage = .pushed (.joinAggregate generation)) ∨
    ∃ dispatch ∈ s.dispatches, dispatch.stage = .enqueuing (.pushed (.joinAggregate generation))

def Completed (store : JoinObligationStore) (generation : ℕ) : Prop :=
  ∀ o ∈ store.obligations, o.generation = generation → o.dispatchComplete = true

/-- The dispatch of tagged mail is complete, up to an enqueue that is about to say so. -/
def CompletionInvariant (s : State) : Prop :=
  ∀ mail ∈ s.queue.mailboxPendingMails, ∀ generation,
    mail.provenance = .joinAggregate generation →
      Completing s generation ∨ Completed s.queue.joinObligations generation

theorem Change.dispatchComplete_of {o o' : JoinObligation} (hc : Change o o')
    (h : o.dispatchComplete = true) : o'.dispatchComplete = true := by
  cases hc with
  | record child status retain =>
    exact (recordResult_records o child status retain).dispatchComplete.trans h
  | finishDispatch => rfl
  | same | release | rebind => exact h

theorem Completed.evolves (h : Completed store generation) (hstep : Evolves store store') :
    Completed store' generation := by
  intro _ ho' hg
  obtain ⟨o, ho, hc⟩ := hstep.exists_change ho'
  refine Change.dispatchComplete_of hc (h o ho ?_)
  rw [← hg, hc.generation_eq]

theorem completed_finishJoinDispatch (hso : Sound store) (hd : Distinct store)
    (h : Awaited store generation turn) :
    Completed (finishJoinDispatch store generation) generation := by
  obtain ⟨o, ho, hw⟩ := h
  obtain ⟨hg, -, hr⟩ := (awaitsDelivery_iff (hso o ho)).mp hw
  obtain ⟨found, hfn⟩ := Option.isSome_iff_exists.mp (find?_isSome
    (p := fun o ↦ o.generation == generation && o.ready).mpr ⟨o, ho, by simp [hg, hr]⟩)
  have hse := find?_some hfn
  simp only [and_eq_true, beq_iff_eq] at hse
  obtain ⟨_, _, -, -, hu, -⟩ := split_of_find?
    (f := fun o ↦ { o with dispatchComplete := true }) hfn
  have hf : { found with dispatchComplete := true } ∈
      (finishJoinDispatch store generation).obligations := by
    simp only [finishJoinDispatch, hu]
    exact mem_append_right _ mem_cons_self
  intro _ ho' hg'
  have hd' := hd.updates (finishJoinDispatch_amends store generation).toUpdates
  rw [hd'.eq_of_generation_eq ho' hf (hg'.trans hse.1.symm)]

theorem CompletionInvariant.mono (h : CompletionInvariant s)
    (hmail : ∀ mail ∈ s'.queue.mailboxPendingMails, mail ∈ s.queue.mailboxPendingMails)
    (hc : ∀ generation, Completing s generation → Completing s' generation)
    (hcm : ∀ mail ∈ s'.queue.mailboxPendingMails, ∀ generation,
      mail.provenance = .joinAggregate generation →
        Completed s.queue.joinObligations generation →
          Completed s'.queue.joinObligations generation) : CompletionInvariant s' := by
  intro mail hm generation htag
  rcases h mail (hmail mail hm) generation htag with hpend | hd
  · exact .inl (hc generation hpend)
  · exact .inr (hcm mail hm generation htag hd)

theorem CompletionInvariant.evolves (h : CompletionInvariant s) {store : JoinObligationStore}
    (hstep : Evolves s.queue.joinObligations store) : CompletionInvariant (s.withStore store) :=
  h.mono (fun _ hm ↦ hm) (fun _ hpend ↦ hpend) fun _ _ _ _ hd ↦ hd.evolves hstep

theorem Completing.setStage (h : Completing s generation)
    (hd : s.dispatches[index]? = some dispatch) (stage : DispatchStage)
    (hst : dispatch.stage ≠ .enqueuing (.pushed (.joinAggregate generation))) :
    Completing (s.setStage index dispatch stage) generation := by
  rcases h with hh | ⟨d, hm, hp⟩
  · exact .inl hh
  · refine .inr ⟨d, mem_set_of_ne hd hm ?_ _, hp⟩
    rintro rfl
    exact hst hp

section

variable (h : CompletionInvariant s) (hflight : FlightInvariant s)
include h hflight

theorem CompletionInvariant.advance (msg : Message) (stage : EnqueueStage)
    (hq : s'.queue = (advanceEnqueue s.queue msg stage).1)
    (hcu : ∀ generation, Completing s generation →
      Completing s' generation ∨ stage = .pushed (.joinAggregate generation))
    (hnext : ∀ generation, (advanceEnqueue s.queue msg stage).2 =
      some (.pushed (.joinAggregate generation)) → Completing s' generation) :
    CompletionInvariant s' := by
  have hu : Updates s.queue.joinObligations s'.queue.joinObligations := by
    rw [hq]
    exact advanceEnqueue_updates _ _ stage
  intro mail hm generation htag
  rw [hq] at hm
  rcases (advanceEnqueue_passes s.queue msg stage).mail mail hm with
    hold | ⟨-, hc⟩
  · rcases h mail hold generation htag with hpend | hd
    · rcases hcu generation hpend with hst | hstg
      · exact .inl hst
      · refine .inr ?_
        rw [hq, hstg]
        obtain ⟨turn, ht⟩ :=
          Option.isSome_iff_exists.mp (hflight.mail mail hold generation htag).2
        exact completed_finishJoinDispatch hflight.sound hflight.distinct
          (hflight.awaited generation turn (.mail mail hold ht htag))
    · exact .inr (hd.evolves hu.evolves)
  · refine .inl (hnext generation ?_)
    have hstg := hc generation htag
    unfold stageCarries at hstg
    split at hstg
    next =>
      rw [beq_iff_eq] at hstg
      rw [hstg]
      rfl
    next => cases hstg

theorem CompletionInvariant.dispatchMove (hd : s.dispatches[index]? = some dispatch)
    (hmo : DispatchMove s index dispatch action s') : CompletionInvariant s' := by
  have hse {s' : State} (stage : DispatchStage) (hstg : ∀ generation,
        dispatch.stage ≠ .enqueuing (.pushed (.joinAggregate generation)))
      (hm : s'.queue.mailboxPendingMails = s.queue.mailboxPendingMails)
      (hst : s'.queue.joinObligations = s.queue.joinObligations)
      (hhd : s'.handler = s.handler)
      (hdi : s'.dispatches = (s.setStage index dispatch stage).dispatches) :
      CompletionInvariant s' := by
    refine h.mono (fun _ hme ↦ hm ▸ hme) ?_ ?_
    · intro generation hpend
      rcases hpend.setStage hd stage (hstg generation) with hh | hd'
      · exact .inl (hhd ▸ hh)
      · exact .inr (hdi ▸ hd')
    · intro _ _ _ _ hdo
      rw [hst]
      exact hdo
  cases hmo with
  | giveUp _ stage hstg =>
    refine hse stage ?_ rfl rfl rfl rfl
    rcases hstg with hstg | hstg <;> simp [hstg]
  | withdraw _ stage hstg =>
    refine hse stage (by simp [hstg]) ?_ ?_ rfl rfl
    all_goals
      unfold clearJoinTrigger
      split <;> rfl
  | mark _ hstg | submit _ hstg | overflow _ _ hstg =>
    exact hse _ (by simp [hstg]) rfl rfl rfl rfl
  | enqueue _ stage hstg =>
    refine h.advance hflight (dispatch.message index) stage rfl ?_ ?_
    · intro generation hpend
      by_cases hp : stage = .pushed (.joinAggregate generation)
      · exact .inr hp
      · refine .inl (hpend.setStage hd _ ?_)
        rw [hstg]
        exact fun heq ↦ hp (DispatchStage.enqueuing.inj heq)
    · intro _ hnext
      obtain ⟨hlt, -⟩ := List.getElem?_eq_some_iff.mp hd
      simp only [hnext]
      exact .inr ⟨_, mem_set hlt _, rfl⟩
  | finish _ hstg =>
    have hs' : CompletionInvariant (s.setStage index dispatch .done) := by
      refine hse .done ?_ rfl rfl rfl rfl
      rcases hstg with hstg | hstg <;> simp [hstg]
    exact hs'.evolves (finishJoinDispatch_amends _ _).evolves

theorem CompletionInvariant.handle (hstep : s.handle = some s') : CompletionInvariant s' := by
  obtain ⟨enqueue, hh, rfl⟩ := handle_eq_some hstep
  refine h.advance hflight enqueue.message enqueue.stage rfl ?_ ?_
  · rintro _ (⟨_, he, hp⟩ | hd)
    · rw [hh, Option.mem_some_iff] at he
      exact .inr (he ▸ hp)
    · exact .inl (.inr hd)
  · intro _ hnext
    simp only [hnext]
    exact .inl ⟨_, rfl, rfl⟩

end

theorem Completed.acknowledge (h : Completed store generation) {own : ℕ} (hne : generation ≠ own)
    (pred successor : TurnId) (state : Option TurnStateRef) :
    Completed (acknowledgeReadyJoinDelivery store pred own successor state).1 generation := by
  rcases acknowledgeReadyJoinDelivery_cases store pred own successor state with
    hsa | ⟨o, hh | hf⟩
  · rw [hsa]
    exact h
  · intro o' ho' hg
    rcases hh.mem_cases ho' with hold | ⟨-, rfl⟩
    · exact h o' hold hg
    · have hse := find?_some hh.found
      have ho := generation_of_awaitsDelivery hse
      exact absurd (hg.symm.trans ho) hne
  · exact h.evolves hf.evolves

theorem CompletionInvariant.step (h : CompletionInvariant s) (hflight : FlightInvariant s)
    (hok : SparesInFlight s action) (hstep : s.step action = some s') :
    CompletionInvariant s' := by
  have hds {i : ℕ} (hs : ((s.dispatches[i]?).bind fun d ↦ s.dispatchStep i d action) = some s') :
      CompletionInvariant s' := by
    obtain ⟨d, hd, hm⟩ := Option.bind_eq_some_iff.mp hs
    exact h.dispatchMove hflight hd (dispatchMove_of_dispatchStep hm)
  cases action with
  | register thread turn targets triggerTurn =>
    cases hstep
    simp only [State.withStore]
    rcases registerObligation_cases s.queue.joinObligations thread turn targets triggerTurn with
      hsa | ⟨-, ha⟩
    · rw [hsa]
      exact h
    · rw [ha]
      refine h.mono (fun _ hme ↦ hme) (fun _ hpend ↦ hpend) ?_
      intro mail hme generation htag hdo o ho hg
      rcases mem_concat.mp ho with hold | rfl
      · exact hdo o hold hg
      · -- The fresh generation is above every generation that mail can carry.
        obtain ⟨own, how⟩ := Option.isSome_iff_exists.mp (hflight.mail mail hme generation htag).2
        obtain ⟨old, hold, hw⟩ := hflight.awaited generation own (.mail mail hme how htag)
        have hle := hflight.distinct.generation_le old hold
        rw [generation_of_awaitsDelivery hw] at hle
        have hf : generation = saturatingSucc s.queue.joinObligations.nextGeneration := by
          rw [← hg]
          rfl
        have hlt : s.queue.joinObligations.nextGeneration < u64Max := hok
        unfold saturatingSucc at hf
        omega
  | resolve thread generation child inc turn status retain =>
    cases hstep
    have hst := h.evolves (resolveJoinTargetInner_updates s.queue.joinObligations thread
      generation child inc turn status retain).evolves
    simp only [State.resolve]
    split
    next => exact hst
    next =>
      refine hst.mono (fun _ hme ↦ hme) ?_ fun _ _ _ _ hdo ↦ hdo
      rintro _ (hh | ⟨d, hd, hp⟩)
      · exact .inl hh
      · exact .inr ⟨d, mem_append_left _ hd, hp⟩
  | rebind =>
    cases hstep
    exact h.evolves (rebindJoinTargetToSuccessor_amends _ _ _ _ _ _ _).evolves
  | retire =>
    cases hstep
    exact h.evolves (retireJoinTargetSuccessorRetention_amends _ _ _ _ _ _).evolves
  | finishContinuation | finishRootContinuations =>
    cases hstep
    exact h.evolves (.of_sublist rfl (List.Sublist.refl _))
  | releaseLease | send =>
    cases hstep
    exact h
  | receive =>
    obtain ⟨_, _, hh, -, rfl⟩ := receive_eq_some hstep
    refine h.mono (fun _ hme ↦ hme) ?_ fun _ _ _ _ hdo ↦ hdo
    rintro _ (⟨_, he, -⟩ | hdi)
    · rw [hh] at he
      cases he
    · exact .inr hdi
  | handle => exact h.handle hflight hstep
  | wait thread turn targetIds current =>
    cases hstep
    rcases hflight.sound.consume_cases thread turn targetIds current with
      ⟨-, hn⟩ | ⟨o, -, -, -, -, hc⟩
    · simp only [State.wait, consumeForTargets, hn]
      exact h.mono (fun _ hme ↦ (mem_filter.mp hme).1) (fun _ hpend ↦ hpend)
        fun _ _ _ _ hdo ↦ hdo
    · simp only [State.wait, consumeForTargets, hc]
      refine h.mono (fun _ hme ↦ (mem_filter.mp hme).1) (fun _ hpend ↦ hpend) ?_
      intro _ hme _ htag hdo
      refine hdo.acknowledge ?_ _ _ _
      rintro rfl
      have hk := (mem_filter.mp hme).2
      rw [not_eq_true'] at hk
      rw [isAggregateOf_eq_true.mpr ⟨o.generation, by simp, htag⟩] at hk
      cases hk
  | terminal =>
    cases hstep
    simp only [recordNestedJoinTurnTerminal]
    split
    · exact h.mono (fun _ hme ↦ (mem_filter.mp hme).1) (fun _ hpend ↦ hpend)
        fun _ _ _ _ hdo ↦ hdo.evolves (recordTurnTerminal_evolves _ _ _ _ _)
    · exact h
  | startup =>
    rw [startup_eq_some hstep]
    exact forall_mem_nil _
  | deliver =>
    rcases deliver_eq_some hstep with ⟨rfl, -⟩ | ⟨-, -, rfl⟩
    · exact h
    · exact forall_mem_nil _
  | _ => exact hds hstep

def NamesTurns : StoreOp → Prop
  | .register _ turn _ _ => isBlank turn = false
  | .acknowledge _ _ successor _ => isBlank successor = false
  | _ => True

instance (op : StoreOp) : Decidable (NamesTurns op) := by
  induction op using StoreOp.casesOn <;> dsimp only [NamesTurns] <;> infer_instance

def Named (store : JoinObligationStore) : Prop :=
  ∀ o ∈ store.obligations, isBlank o.parentTurnId = false

theorem Named.evolves (h : Named store) (hstep : Evolves store store') : Named store' := by
  intro _ ho'
  obtain ⟨o, ho, hc⟩ := hstep.exists_change ho'
  have how := hc.owner_eq
  simp only [owner, Prod.mk.injEq] at how
  rw [how.2.2.1]
  exact h o ho

theorem Named.apply (h : Named store) (hso : Sound store) (op : StoreOp)
    (hok : NamesTurns op) : Named (store.apply op) := by
  have ha := applies_apply store op
  generalize store.apply op = store' at ha ⊢
  cases ha with
  | evolves he => exact h.evolves he
  | adds _ _ _ _ hop =>
    intro o ho
    rcases mem_concat.mp ho with hold | rfl
    · exact h o hold
    · rw [hop] at hok
      exact hok
  | hands hh hop =>
    intro o' ho'
    rcases hh.mem_cases ho' with hold | ⟨ho, rfl⟩
    · exact h o' hold
    · rcases hop with rfl | ⟨rfl, -⟩
      · exact hok
      · have ht := ((hso _ ho).retained_delivery _ hh.retained).2.2.1
        exact (congrArg isBlank ht).trans (h _ ho)

structure Deliverable (store : JoinObligationStore) : Prop where
  sound : Sound store
  owners_le : ∀ thread turn, owners store thread turn ≤ 1
  named : Named store

theorem Deliverable.apply (h : Deliverable store) (op : StoreOp)
    (hok : KeepsOwnersApart store op ∧ NamesTurns op) : Deliverable (store.apply op) where
  sound := h.sound.apply op
  owners_le := apply_owners_le_one h.sound h.owners_le op hok.1
  named := h.named.apply h.sound op hok.2

theorem validateJoins_of_forall {joins : List (TurnId × ℕ)} (hn : (joins.map Prod.snd).Nodup)
    (hv : ∀ join ∈ joins, validJoin store successor join.1 join.2 = true) (seen : Finset ℕ)
    (hse : ∀ join ∈ joins, join.2 ∉ seen) : validateJoins store successor seen joins = true := by
  induction joins generalizing seen with
  | nil => rfl
  | cons join rest ih =>
    rw [map_cons, nodup_cons] at hn
    have hr : validateJoins store successor (insert join.2 seen) rest = true := by
      refine ih hn.2 (fun j hj ↦ hv j (mem_cons_of_mem _ hj)) _ ?_
      intro j hj hm
      rcases Finset.mem_insert.mp hm with heq | hm
      · exact hn.1 (heq ▸ mem_map_of_mem hj)
      · exact hse j (mem_cons_of_mem _ hj) hm
    rw [validateJoins, hv join mem_cons_self, hr]
    simpa using hse join mem_cons_self

theorem validJoin_of_validateJoins {joins : List (TurnId × ℕ)}
    {seen : Finset ℕ} (h : validateJoins store successor seen joins = true) (hjoin : join ∈ joins) :
    validJoin store successor join.1 join.2 = true := by
  induction joins generalizing seen with
  | nil => exact absurd hjoin not_mem_nil
  | cons _ _ ih =>
    rw [validateJoins, and_eq_true, and_eq_true] at h
    rcases mem_cons.mp hjoin with rfl | hr
    · exact h.1.2
    · exact ih h.2 hr

theorem validated_eq_none_of_retired {mails : List PendingMailboxCommunication}
    (hjoin : join ∈ mailboxJoinProvenance mails) (h : Retired store join.2)
    (successor : Option TurnId) : validatedMailboxJoinProvenance mails store successor = none := by
  have hemp : store.obligations.filter (·.awaitsDelivery join.2 join.1) = [] := by
    rw [filter_eq_nil_iff]
    intro o ho hw
    exact h.absent (generation_of_awaitsDelivery hw ▸ mem_map_of_mem ho)
  unfold validatedMailboxJoinProvenance
  refine if_neg ?_
  rintro ⟨-, hv⟩
  have hva := validJoin_of_validateJoins hv hjoin
  simp only [validJoin, hemp] at hva
  cases hva

theorem count_mailboxJoinProvenance_le (queue : InputQueue) (generation : ℕ) :
    ((mailboxJoinProvenance queue.mailboxPendingMails).map Prod.snd).count generation ≤
      taggedMails queue generation := by
  unfold mailboxJoinProvenance taggedMails
  induction queue.mailboxPendingMails with
  | nil => rfl
  | cons mail =>
    rw [countP_cons]
    cases hprov : mail.joinProvenance with
    | none =>
      simp only [filterMap_cons, hprov]
      omega
    | some =>
      have htag := (provenance_of_joinProvenance hprov).1
      simp only [filterMap_cons, hprov, map_cons, count_cons, htag, beq_iff_eq,
        MailboxProvenance.joinAggregate.injEq]
      omega

theorem joinProvenance_of_tagged {mail : PendingMailboxCommunication}
    (ht : mail.communication.triggerTurn = true)
    (htu : mail.startOptions.parentTurnId = some turn) (hname : isBlank turn = false)
    (htag : mail.provenance = .joinAggregate generation) :
    mail.joinProvenance = some (turn, generation) := by
  simp [joinProvenance, ht, htu, htag, Option.filter, hname]

theorem not_any_follows (h : Deliverable store) {o : JoinObligation} (ho : o ∈ store.obligations)
    (ht : o.triggerTurn = true) :
    store.continuations.any (·.follows o.parentThreadId o.parentTurnId) = false := by
  have hjoin : 0 < store.obligations.countP (·.joinOf o.parentThreadId o.parentTurnId) :=
    countP_pos_iff.mpr ⟨o, ho, by
      simp [JoinObligation.joinOf, JoinObligation.ownedBy, ht]⟩
  have how := h.owners_le o.parentThreadId o.parentTurnId
  unfold owners at how
  have hn : store.continuations.countP (·.follows o.parentThreadId o.parentTurnId) = 0 := by
    omega
  rw [any_eq_false]
  exact countP_eq_zero.mp hn

theorem validJoin_of_awaited (h : Deliverable store) (hd : Distinct store)
    (hawtd : Awaited store generation turn) (hdo : Completed store generation)
    (hsu : successor ≠ some "") : validJoin store successor turn generation = true := by
  obtain ⟨o, ho, hw, hsi⟩ := filter_awaitsDelivery_eq_singleton hd hawtd
  obtain ⟨hg, ht, -⟩ := (awaitsDelivery_iff (h.sound o ho)).mp hw
  have hc := hdo o ho hg
  have hu := (h.sound o ho).unconsumed
  have hname : turn ≠ "" := by
    rintro rfl
    have hb := h.named o ho
    rw [ht] at hb
    cases hb
  simp only [validJoin, hsi, hc, hu, Bool.not_false, Bool.or_true,
    Bool.and_true, Bool.true_and, Bool.not_eq_true']
  by_cases htr : o.triggerTurn = true
  · have hf := not_any_follows h ho htr
    rw [ht] at hf
    cases successor with
    | none => simp [hname]
    | some => simpa [hf] using fun _ hid ↦ hsu (congrArg some hid)
  · simp [htr]

structure AcceptanceInvariant (s : State) : Prop where
  flight : FlightInvariant s
  completion : CompletionInvariant s
  deliverable : Deliverable s.queue.joinObligations

theorem AcceptanceInvariant.length_mailboxJoinProvenance (h : AcceptanceInvariant s) :
    (mailboxJoinProvenance s.queue.mailboxPendingMails).length =
      s.queue.mailboxPendingMails.countP (·.isTagged) := by
  rw [mailboxJoinProvenance, length_filterMap_eq_countP]
  refine countP_congr fun mail hmail ↦ ?_
  constructor
  · intro hso
    obtain ⟨_, hjoin⟩ := Option.isSome_iff_exists.mp hso
    simp [isTagged, (provenance_of_joinProvenance hjoin).1]
  · intro ht
    unfold isTagged at ht
    split at ht
    next generation htag =>
      obtain ⟨htr, hp⟩ := h.flight.mail mail hmail generation htag
      obtain ⟨turn, htu⟩ := Option.isSome_iff_exists.mp hp
      obtain ⟨o, ho, hw⟩ := h.flight.awaited generation turn (.mail mail hmail htu htag)
      have hname := h.deliverable.named o ho
      rw [((awaitsDelivery_iff (h.flight.sound o ho)).mp hw).2.1] at hname
      rw [joinProvenance_of_tagged htr htu hname htag]
      rfl
    next => cases ht

theorem AcceptanceInvariant.completing_of_refused (h : AcceptanceInvariant s)
    (hsu : successor ≠ some "")
    (hr : validatedMailboxJoinProvenance s.queue.mailboxPendingMails s.queue.joinObligations
      successor = none) : ∃ generation, Completing s generation := by
  by_contra hq
  have hn : ((mailboxJoinProvenance s.queue.mailboxPendingMails).map Prod.snd).Nodup := by
    rw [nodup_iff_count_le_one]
    intro generation
    have hcnt := count_mailboxJoinProvenance_le s.queue generation
    have hle := h.flight.carriers_le generation
    omega
  have hva : ∀ join ∈ mailboxJoinProvenance s.queue.mailboxPendingMails,
      validJoin s.queue.joinObligations successor join.1 join.2 = true := by
    intro join hjoin
    obtain ⟨mail, hmail, hprov⟩ := mem_filterMap.mp hjoin
    obtain ⟨htag, ht, -⟩ := provenance_of_joinProvenance hprov
    have hawtd := h.flight.awaited join.2 join.1 (.mail mail hmail ht htag)
    rcases h.completion mail hmail join.2 htag with hc | hd
    · exact absurd ⟨join.2, hc⟩ hq
    · exact validJoin_of_awaited h.deliverable h.flight.distinct hawtd hd hsu
  have hv := validateJoins_of_forall hn hva ∅ fun _ _ ↦ Finset.notMem_empty _
  simp [validatedMailboxJoinProvenance, h.length_mailboxJoinProvenance, hv] at hr

/-- The step consumes nothing that is in flight, gives no turn a second owner and names its turns. -/
def KeepsDeliverable (s : State) (action : Action) : Prop :=
  SparesInFlight s action ∧
    AllOps (fun store op ↦ KeepsOwnersApart store op ∧ NamesTurns op) s.queue.joinObligations
      (storeOps s action)

instance (s : State) (action : Action) : Decidable (KeepsDeliverable s action) := by
  unfold KeepsDeliverable
  infer_instance

theorem AcceptanceInvariant.step (h : AcceptanceInvariant s)
    (hok : KeepsDeliverable s action) (hstep : s.step action = some s') :
    AcceptanceInvariant s' where
  flight := h.flight.step hok.1 hstep
  completion := h.completion.step h.flight hok.1 hstep
  deliverable := by
    rw [step_joinObligations hstep]
    exact hok.2.applyAll Deliverable (fun _ op hst hop ↦ hst.apply op hop) h.deliverable

theorem acceptanceInvariant_initial : AcceptanceInvariant State.initial where
  flight := flightInvariant_initial
  completion := forall_mem_nil _
  deliverable :=
    { sound := forall_mem_nil _
      owners_le := fun _ _ ↦ Nat.zero_le 1
      named := forall_mem_nil _ }

def isPushed : EnqueueStage → Bool
  | .pushed _ => true
  | _ => false

def completes : DispatchStage → Bool
  | .enqueuing stage => isPushed stage
  | _ => false

def completions (s : State) : ℕ :=
  s.handler.toList.countP (fun enqueue ↦ isPushed enqueue.stage) +
    s.dispatches.countP (fun dispatch ↦ completes dispatch.stage)

theorem exists_completion (h : Completing s generation) :
    ∃ action s', s.step action = some s' ∧ KeepsDeliverable s action ∧
      s'.queue.mailboxPendingMails = s.queue.mailboxPendingMails ∧
      completions s' < completions s := by
  rcases h with ⟨_, hh, hst⟩ | ⟨dispatch, hm, hst⟩
  · rw [Option.mem_def] at hh
    have hstep : s.step .handle =
        some { s with queue := finishDispatch s.queue generation, handler := none } := by
      simp [State.step, State.handle, hh, hst, advanceEnqueue, finishEnqueue]
    refine ⟨_, _, hstep, ?_, rfl, ?_⟩
    · simp [KeepsDeliverable, SparesInFlight, storeOps, hh, hst, enqueueOps, AllOps,
        KeepsOwnersApart, NamesTurns]
    · simp [completions, hh, hst, isPushed]
  · obtain ⟨index, hlt, hg⟩ := getElem_of_mem hm
    have hd : s.dispatches[index]? = some dispatch := List.getElem?_eq_some_iff.mpr ⟨hlt, hg⟩
    have hstep : s.step (.enqueue index) = some { s.setStage index dispatch .finishing with
        queue := finishDispatch s.queue generation } := by
      simp [State.step, State.dispatchStep, hd, hst, advanceEnqueue, finishEnqueue]
    refine ⟨_, _, hstep, ?_, rfl, ?_⟩
    · simp [KeepsDeliverable, SparesInFlight, storeOps, hd, hst, dispatchOps, enqueueOps, AllOps,
        KeepsOwnersApart, NamesTurns]
    · have hcnt := countP_set_of_getElem? (p := fun dispatch ↦ completes dispatch.stage) hd
        { dispatch with stage := .finishing }
      have hn : completes dispatch.stage = true := by
        rw [hst]
        rfl
      have hnext : completes .finishing = false := rfl
      simp only [hn, hnext, if_true, false_eq_true, if_false] at hcnt
      simp only [completions, State.setStage]
      omega

theorem AcceptanceInvariant.exists_settled (h : AcceptanceInvariant s) :
    ∃ s', parentSession.From s s' ∧ AcceptanceInvariant s' ∧
      s'.queue.mailboxPendingMails = s.queue.mailboxPendingMails ∧
      ∀ generation, ¬ Completing s' generation := by
  induction hn : completions s using Nat.strong_induction_on generalizing s with
  | _ n ih =>
    by_cases hc : ∃ generation, Completing s generation
    · obtain ⟨_, hpend⟩ := hc
      obtain ⟨action, _, hstep, hok, hm, hlt⟩ := exists_completion hpend
      obtain ⟨s', hf, hinv, hsa, hq⟩ := ih _ (hn ▸ hlt) (h.step hok hstep) rfl
      exact ⟨s', .head ⟨action, hstep⟩ hf, hinv, hsa.trans hm, hq⟩
    · exact ⟨s, .refl, h, rfl, not_exists.mp hc⟩

/-- No running turn with the given identifier ever accepts the mailbox as it is. -/
def RefusedForever (s : State) (successor : Option TurnId) : Prop :=
  ∀ s', parentSession.From s s' →
    s'.queue.mailboxPendingMails = s.queue.mailboxPendingMails →
      validatedMailboxJoinProvenance s'.queue.mailboxPendingMails s'.queue.joinObligations
        successor = none

theorem AcceptanceInvariant.not_refusedForever (h : AcceptanceInvariant s)
    (hsu : successor ≠ some "") : ¬ RefusedForever s successor := by
  intro hf
  obtain ⟨s', hfr, hinv, hsa, hq⟩ := h.exists_settled
  have hr := hf s' hfr hsa
  obtain ⟨generation, hc⟩ := hinv.completing_of_refused hsu hr
  exact hq generation hc

theorem refusedForever_of_retired (hjoin : join ∈ mailboxJoinProvenance s.queue.mailboxPendingMails)
    (h : Retired s.queue.joinObligations join.2) (successor : Option TurnId) :
    RefusedForever s successor := by
  intro _ hf hsa
  rw [hsa]
  exact validated_eq_none_of_retired hjoin (h.from hf) successor

def MailAwaited (s : State) : Prop :=
  ∀ mail ∈ s.queue.mailboxPendingMails, ∀ generation,
    mail.provenance = .joinAggregate generation →
      ∃ turn, mail.startOptions.parentTurnId = some turn ∧
        s.queue.joinObligations.obligations.countP (·.awaitsDelivery generation turn) = 1

/-- Tagged mail has its obligation where steps consume nothing in flight; where they also give no
turn a second owner and name their turns, no turn is refused the mailbox for ever. -/
theorem guarded_mail_awaited_and_accepted (s : State) :
    (parentSession.Guarded SparesInFlight s → MailAwaited s) ∧
      (parentSession.Guarded KeepsDeliverable s → ∀ active : Option ActiveDelivery,
        hasPendingInput s.queue active = true → active.bind (·.taskSubId) ≠ some "" →
          ¬ RefusedForever s (active.bind (·.taskSubId))) := by
  constructor
  · intro hs _ hmail _ htag
    exact countP_eq_one_of_tagged (guarded_flightInvariant hs) hmail htag
  · intro hs _ _ hname
    have hinv : AcceptanceInvariant s :=
      hs.invariant AcceptanceInvariant acceptanceInvariant_initial
        fun _ _ _ h hok hstep ↦ h.step hok hstep
    exact hinv.not_refusedForever hname

def enqueuedCompletion : List Action :=
  dispatching 0 ⟨2⟩ ⟨0⟩ "/root/child" ++ enqueuing

theorem guarded_mail_awaited_and_accepted_enqueuedCompletion :
    ∃ s, MailAwaited s ∧ s.queue.mailboxPendingMails.countP (·.isTagged) = 1 ∧
      ¬ RefusedForever s (some "B") := by
  obtain ⟨s, hs, hcheck⟩ := exists_guarded_of_runIf parentSession KeepsDeliverable
    enqueuedCompletion (fun s ↦ decide (s.queue.mailboxPendingMails.countP (·.isTagged) = 1) &&
      hasPendingInput s.queue (some ⟨some "B", ⟨1⟩, true, []⟩)) (by decide +kernel)
  rw [and_eq_true, decide_eq_true_iff] at hcheck
  obtain ⟨hawtd, haccepted⟩ := guarded_mail_awaited_and_accepted s
  exact ⟨s, hawtd (hs.mono fun _ _ h ↦ h.1), hcheck.1,
    haccepted hs (some ⟨some "B", ⟨1⟩, true, []⟩) hcheck.2 (by decide)⟩

/-- The parent waits for the child while the submitted completion is still in the channel. -/
def overtakenCompletion : List Action :=
  dispatching 0 ⟨2⟩ ⟨0⟩ "/root/child" ++ [waiting] ++ enqueuing

/-- The completion arrives after its obligation is gone, and no turn accepts the mailbox again. -/
theorem reachable_mail_orphaned_and_refused :
    (¬ ∀ s, parentSession.Reachable s → MailAwaited s) ∧
      ¬ ∀ s, parentSession.Reachable s → ∀ active : Option ActiveDelivery,
        hasPendingInput s.queue active = true → active.bind (·.taskSubId) ≠ some "" →
          ¬ RefusedForever s (active.bind (·.taskSubId)) := by
  obtain ⟨s, hs, hcheck⟩ := exists_reachable_of_run parentSession overtakenCompletion
    (fun s ↦ decide (mailboxJoinProvenance s.queue.mailboxPendingMails = [("A", 1)] ∧
      s.queue.joinObligations.obligations = [] ∧ s.queue.joinObligations.nextGeneration = 1 ∧
      hasPendingInput s.queue (some ⟨some "B", ⟨1⟩, true, []⟩) = true)) (by decide +kernel)
  obtain ⟨hjoins, hemp, hnext, hpend⟩ := of_decide_eq_true hcheck
  have hjoin : ("A", 1) ∈ mailboxJoinProvenance s.queue.mailboxPendingMails := by
    rw [hjoins]
    exact mem_singleton_self _
  have hrtd : Retired s.queue.joinObligations 1 :=
    ⟨by simp [hemp], hnext.ge, by decide⟩
  constructor
  · intro hclaim
    obtain ⟨mail, hmail, hprov⟩ := mem_filterMap.mp hjoin
    obtain ⟨turn, -, hcnt⟩ :=
      hclaim s hs mail hmail 1 (provenance_of_joinProvenance hprov).1
    rw [hemp] at hcnt
    cases hcnt
  · intro hclaim
    exact hclaim s hs (some ⟨some "B", ⟨1⟩, true, []⟩) hpend (by decide)
      (refusedForever_of_retired hjoin hrtd _)

end Slopdex.Join.PendingMail
