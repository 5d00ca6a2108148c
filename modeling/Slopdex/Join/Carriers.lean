import Slopdex.Join.Results
import Slopdex.Join.SessionStore

/-!
# Completions on their way into the mailbox

A completion is carried by the dispatch, then by the mark, by the enqueue that took the mark, and by
the tagged mail. As long as no wait and no terminal consumes an obligation whose completion is on
its way, each generation has at most one carrier and a carrier always finds its obligation.
-/

namespace Slopdex.Join.Carriers

open Protocol Library.FirstMatch Library.KeyedMap Library.Transition Library.Transition.System
open List
  Join.Store Join.Evolution Join.WellFormed Join.Ownership Join.Mailbox Join.ParentSession
  Join.SessionStore Join.Results InputQueue Option List

variable {o : JoinObligation} {store : JoinObligationStore}

def Awaited (store : JoinObligationStore) (generation : ℕ) (turn : TurnId) : Prop :=
  ∃ o ∈ store.obligations, o.awaitsDelivery generation turn = true

theorem awaitsDelivery_iff (h : ObligationInvariant o) {generation : ℕ} {turn : TurnId} :
    o.awaitsDelivery generation turn = true ↔
      o.generation = generation ∧ o.parentTurnId = turn ∧ o.ready = true := by
  simp only [JoinObligation.awaitsDelivery, JoinObligation.inRetainedDeliveryFor,
    Bool.and_eq_true, Bool.or_eq_true, beq_iff_eq]
  constructor
  · rintro ⟨hg, hr | hre⟩
    · exact ⟨hg, hr⟩
    · obtain ⟨hr, -, hturn, -⟩ := h.retained_delivery turn hre
      exact ⟨hg, hturn.symm, hr⟩
  · rintro ⟨hg, hr⟩
    exact ⟨hg, .inl hr⟩

theorem Change.ready_of_ready {o' : JoinObligation} (hc : Change o o')
    (h : o.ready = true) : o'.ready = true := by
  cases hc with
  | record child status retain => exact (recordResult_records o child status retain).ready h
  | same | finishDispatch | release | rebind => exact h

variable {store store' : JoinObligationStore} {generation : ℕ} {turn : TurnId}

theorem Awaited.keeps (h : Awaited store generation turn) (hs : Sound store)
    (hs' : Sound store') (hk : Keeps store store') : Awaited store' generation turn := by
  obtain ⟨o, ho, hw⟩ := h
  obtain ⟨o', ho', hc⟩ := hk o ho
  obtain ⟨hg, hturn, hr⟩ := (awaitsDelivery_iff (hs o ho)).mp hw
  have how := hc.owner_eq
  simp only [owner, Prod.mk.injEq] at how
  refine ⟨o', ho', (awaitsDelivery_iff (hs' o' ho')).mpr ⟨?_, ?_, ?_⟩⟩
  · exact hc.generation_eq.trans hg
  · exact how.2.2.1.trans hturn
  · exact Change.ready_of_ready hc hr

theorem mem_acknowledge_of_ne (ho : o ∈ store.obligations)
    (hne : o.generation ≠ generation) (pred succ : TurnId)
    (state : Option TurnStateRef) :
    o ∈ (acknowledgeReadyJoinDelivery store pred generation succ state).1.obligations
    := by
  have hot : ¬ o.awaitsDelivery generation pred = true :=
    fun hw ↦ hne (generation_of_awaitsDelivery hw)
  rcases acknowledgeReadyJoinDelivery_cases store pred generation succ state with
    hsa | ⟨found, hh | hf⟩
  · rw [hsa]
    exact ho
  · rw [hh.result]
    rcases mem_updateFirst_of_mem (p := (·.awaitsDelivery generation pred))
      (f := (·.handOver succ)) ho with hs | ⟨hfn, -⟩
    · exact hs
    · exact absurd (find?_some hfn) hot
  · rw [hf.obligations]
    exact (mem_eraseP_of_neg (p := (·.awaitsDelivery generation pred)) hot).mpr ho

theorem mem_acknowledgements_of_notMem {joins : List (TurnId × ℕ)}
    (ho : o ∈ store.obligations) (hne : o.generation ∉ joins.map Prod.snd)
    (succ : Option TurnId) (state : Option TurnStateRef) :
    o ∈ (applyAll store (acknowledgements succ state joins)).obligations := by
  induction joins generalizing store with
  | nil => exact ho
  | cons _ _ ih =>
    simp only [map_cons, mem_cons, not_or] at hne
    exact ih (mem_acknowledge_of_ne ho hne.1 _ _ _) hne.2

theorem Awaited.acknowledgements (h : Awaited store generation turn) {joins : List (TurnId × ℕ)}
    (hne : generation ∉ joins.map Prod.snd) (succ : Option TurnId)
    (state : Option TurnStateRef) :
    Awaited (applyAll store (acknowledgements succ state joins)) generation turn := by
  obtain ⟨o, ho, hw⟩ := h
  refine ⟨o, mem_acknowledgements_of_notMem ho ?_ succ state, hw⟩
  rw [generation_of_awaitsDelivery hw]
  exact hne

theorem Awaited.recordTurnTerminal (h : Awaited store generation turn) (thread : ThreadId)
    (terminalTurn : TurnId) (state : TurnStateRef) (status : AgentStatus)
    (hne : generation ∉ retiredGenerations store thread terminalTurn status) :
    Awaited (recordTurnTerminal store thread terminalTurn state status) generation turn := by
  obtain ⟨o, ho, hw⟩ := h
  refine ⟨o, mem_filter.mpr ⟨ho, ?_⟩, hw⟩
  rw [generation_of_awaitsDelivery hw]
  simpa using hne

def stageCarries (generation : ℕ) : EnqueueStage → Bool
  | .tagged (.joinAggregate tag) => tag == generation
  | _ => false

def dispatchCarries (generation : ℕ) (dispatch : Dispatch) : Bool :=
  match dispatch.stage with
  | .entered =>
    dispatch.completion.triggerTurn && dispatch.completion.generation == generation
  | .enqueuing stage => stageCarries generation stage
  | _ => false

def inFlight (s : State) (generation : ℕ) : ℕ :=
  s.dispatches.countP (dispatchCarries generation) +
    countValue s.queue.joinTriggerProvenance generation +
      s.handler.toList.countP fun enqueue ↦ stageCarries generation enqueue.stage

variable (queue : InputQueue)

def taggedMails (generation : ℕ) : ℕ :=
  queue.mailboxPendingMails.countP fun mail ↦ mail.provenance == .joinAggregate generation

inductive Carrier (s : State) (generation : ℕ) (turn : TurnId) : Prop
  | dispatch (dispatch : Dispatch) (hmem : dispatch ∈ s.dispatches)
      (hturn : dispatch.completion.parentTurnId = turn)
      (hcarries : dispatchCarries generation dispatch = true)
  | mark (hlookup : s.queue.joinTriggerProvenance.lookup turn = some generation)
  | handler (enqueue : Enqueue) (hmem : enqueue ∈ s.handler)
      (hturn : enqueue.message.startOptions.parentTurnId = some turn)
      (hcarries : stageCarries generation enqueue.stage = true)
  | mail (mail : PendingMailboxCommunication) (hmem : mail ∈ s.queue.mailboxPendingMails)
      (hturn : mail.startOptions.parentTurnId = some turn)
      (hcarries : mail.provenance = .joinAggregate generation)

theorem Carrier.one_le {s : State} (h : Carrier s generation turn) :
    1 ≤ inFlight s generation + taggedMails s.queue generation := by
  cases h with
  | dispatch dispatch hmem _ hc =>
    have hcn := countP_pos_iff.mpr ⟨dispatch, hmem, hc⟩
    unfold inFlight
    omega
  | mark hl =>
    have hcn := one_le_countValue hl
    unfold inFlight
    omega
  | handler enqueue hmem _ hc =>
    have hcn : 0 < s.handler.toList.countP fun enqueue ↦ stageCarries generation enqueue.stage :=
      countP_pos_iff.mpr ⟨enqueue, mem_toList.mpr hmem, hc⟩
    unfold inFlight
    omega
  | mail mail hmem _ hc =>
    have hcn : 0 < taggedMails s.queue generation :=
      countP_pos_iff.mpr ⟨mail, hmem, by simp [hc]⟩
    omega

def Triggering (message : Message) : Prop :=
  message.communication.triggerTurn = true ∧ message.startOptions.parentTurnId.isSome = true

structure FlightInvariant (s : State) : Prop where
  sound : Sound s.queue.joinObligations
  distinct : Distinct s.queue.joinObligations
  carriers_le : ∀ generation, inFlight s generation + taggedMails s.queue generation ≤ 1
  awaited : ∀ generation turn, Carrier s generation turn →
    Awaited s.queue.joinObligations generation turn
  handler : ∀ enqueue ∈ s.handler, ∀ generation,
    stageCarries generation enqueue.stage = true → Triggering enqueue.message
  mail : ∀ mail ∈ s.queue.mailboxPendingMails, ∀ generation,
    mail.provenance = .joinAggregate generation → Triggering mail.toMessage

def nextCarries (generation : ℕ) (next : Option EnqueueStage) : ℕ :=
  next.toList.countP (stageCarries generation)

structure Passes (queue : InputQueue) (message : Message) (stage : EnqueueStage)
    (queue' : InputQueue) (next : Option EnqueueStage) : Prop where
  count : ∀ generation,
    countValue queue'.joinTriggerProvenance generation + taggedMails queue' generation +
        nextCarries generation next ≤
      countValue queue.joinTriggerProvenance generation + taggedMails queue generation +
        if stageCarries generation stage = true then 1 else 0
  marks : ∀ turn generation, queue'.joinTriggerProvenance.lookup turn = some generation →
    queue.joinTriggerProvenance.lookup turn = some generation
  next : ∀ stage' ∈ next, ∀ generation, stageCarries generation stage' = true →
    message.communication.triggerTurn = true ∧
      ∃ turn, message.startOptions.parentTurnId = some turn ∧
        queue.joinTriggerProvenance.lookup turn = some generation
  mail : ∀ mail ∈ queue'.mailboxPendingMails, mail ∈ queue.mailboxPendingMails ∨
    mail.toMessage = message ∧ ∀ generation, mail.provenance = .joinAggregate generation →
      stageCarries generation stage = true

theorem takeTrigger_cases (msg : Message) : takeTrigger queue msg = (queue, .ordinary) ∨
    msg.communication.triggerTurn = true ∧
      ∃ turn generation, msg.startOptions.parentTurnId = some turn ∧
        queue.joinTriggerProvenance.lookup turn = some generation ∧
        takeTrigger queue msg =
          ({ queue with joinTriggerProvenance := queue.joinTriggerProvenance.erase turn },
            .joinAggregate generation) := by
  unfold takeTrigger
  split
  next ht =>
    split
    next => exact .inl rfl
    next turn hturn =>
      split
      next => exact .inl rfl
      next generation hl => exact .inr ⟨ht, turn, generation, hturn, hl, rfl⟩
  next => exact .inl rfl

theorem advanceEnqueue_passes (msg : Message) (stage : EnqueueStage) :
    Passes queue msg stage (advanceEnqueue queue msg stage).1
      (advanceEnqueue queue msg stage).2 := by
  cases stage with
  | received =>
    rcases takeTrigger_cases queue msg with ho | ⟨ht, turn, _, hturn, hl, hta⟩
    · simp only [advanceEnqueue, ho]
      refine ⟨?_, fun _ _ h ↦ h, ?_, fun mail hm ↦ .inl hm⟩
      · intro _
        simp [nextCarries, stageCarries]
      · intro _ hs' _ hc
        rw [mem_some_iff] at hs'
        rw [← hs'] at hc
        cases hc
    · simp only [advanceEnqueue, hta]
      refine ⟨?_, fun _ _ h ↦ lookup_of_lookup_erase h, ?_, fun mail hm ↦ .inl hm⟩
      · intro generation
        have he := countValue_erase_of_lookup hl generation
        simp only [nextCarries, stageCarries, toList_some, countP_singleton, beq_iff_eq,
          taggedMails]
        omega
      · intro _ hs' _ hc
        rw [mem_some_iff] at hs'
        rw [← hs', stageCarries, beq_iff_eq] at hc
        exact ⟨ht, turn, hturn, hc ▸ hl⟩
  | tagged provenance =>
    refine ⟨?_, fun _ _ h ↦ h, ?_, ?_⟩
    · intro generation
      have htag : (if (provenance == .joinAggregate generation) = true then 1 else 0) =
          if stageCarries generation (.tagged provenance) = true then 1 else 0 := by
        cases provenance <;> simp [stageCarries]
      simp only [advanceEnqueue, pushMail, taggedMails, nextCarries, stageCarries, htag,
        countP_append, countP_singleton, toList_some, Bool.false_eq_true, if_false]
      omega
    · intro _ hs' _ hc
      simp only [advanceEnqueue, mem_some_iff] at hs'
      rw [← hs'] at hc
      cases hc
    · intro _ hm
      rcases mem_concat.mp hm with hold | rfl
      · exact .inl hold
      · refine .inr ⟨rfl, ?_⟩
        rintro generation rfl
        exact beq_self_eq_true generation
  | pushed provenance =>
    have hq : (advanceEnqueue queue msg (.pushed provenance)).1.joinTriggerProvenance =
          queue.joinTriggerProvenance ∧
        (advanceEnqueue queue msg (.pushed provenance)).1.mailboxPendingMails =
          queue.mailboxPendingMails := by
      cases provenance <;> exact ⟨rfl, rfl⟩
    refine ⟨?_, ?_, fun _ hs ↦ absurd hs.symm (some_ne_none _), ?_⟩
    · intro _
      rw [hq.1]
      simp only [taggedMails, hq.2]
      exact le_of_eq rfl
    · intro _ _ hl
      rwa [hq.1] at hl
    · intro _ hm
      rw [hq.2] at hm
      exact .inl hm

/-! ## Steps that add no carrier -/

variable {s s' : State} {disp : Dispatch} {index : ℕ}

theorem Carrier.mono (h : Carrier s' generation turn)
    (hdi : ∀ d ∈ s'.dispatches, dispatchCarries generation d = true → d ∈ s.dispatches)
    (hma : s'.queue.joinTriggerProvenance.lookup turn = some generation →
      s.queue.joinTriggerProvenance.lookup turn = some generation)
    (hh : ∀ e ∈ s'.handler, stageCarries generation e.stage = true → e ∈ s.handler)
    (hmai : s'.queue.mailboxPendingMails ⊆ s.queue.mailboxPendingMails) :
    Carrier s generation turn := by
  cases h with
  | dispatch d hd hturn hc => exact .dispatch d (hdi d hd hc) hturn hc
  | mark hl => exact .mark (hma hl)
  | handler e he hturn hc => exact .handler e (hh e he hc) hturn hc
  | mail m hm hturn hc => exact .mail m (hmai hm) hturn hc

section

variable (h : FlightInvariant s)
include h

theorem FlightInvariant.mono (hs : Sound s'.queue.joinObligations)
    (hdi : Distinct s'.queue.joinObligations)
    (hcn : ∀ generation, inFlight s' generation + taggedMails s'.queue generation ≤
      inFlight s generation + taggedMails s.queue generation)
    (hca : ∀ generation turn, Carrier s' generation turn → Carrier s generation turn)
    (ha : ∀ generation turn, Carrier s' generation turn →
      Awaited s.queue.joinObligations generation turn →
        Awaited s'.queue.joinObligations generation turn)
    (hh : ∀ enqueue ∈ s'.handler, ∀ generation,
      stageCarries generation enqueue.stage = true → Triggering enqueue.message)
    (hm : ∀ mail ∈ s'.queue.mailboxPendingMails, ∀ generation,
      mail.provenance = .joinAggregate generation → Triggering mail.toMessage) :
    FlightInvariant s' where
  sound := hs
  distinct := hdi
  carriers_le := fun generation ↦ (hcn generation).trans (h.carriers_le generation)
  awaited := fun generation turn hc ↦
    ha generation turn hc (h.awaited generation turn (hca generation turn hc))
  handler := hh
  mail := hm

theorem FlightInvariant.withStore (store : JoinObligationStore)
    (hs : Sound store) (hdi : Distinct store)
    (hk : Keeps s.queue.joinObligations store) : FlightInvariant (s.withStore store) := by
  refine h.mono hs hdi (fun _ ↦ le_rfl) ?_ ?_ h.handler h.mail
  · intro _ _ hc
    exact hc.mono (fun _ hd _ ↦ hd) id (fun _ he _ ↦ he) (Subset.refl _)
  · intro _ _ _ ha
    exact ha.keeps h.sound hs hk

theorem FlightInvariant.updates
    (hs : Updates s.queue.joinObligations store) : FlightInvariant (s.withStore store) :=
  h.withStore store (h.sound.updates hs) (h.distinct.updates hs) hs.keeps

section

variable (hd : s.dispatches[index]? = some disp)
include hd

omit h in
theorem inFlight_setStage (stage : DispatchStage) (generation : ℕ) :
    inFlight (s.setStage index disp stage) generation +
        (if dispatchCarries generation disp = true then 1 else 0) =
      inFlight s generation +
        if dispatchCarries generation { disp with stage } = true then 1 else 0 := by
  have hs := countP_set_of_getElem? (p := dispatchCarries generation) hd { disp with stage }
  simp only [inFlight, State.setStage]
  omega

theorem FlightInvariant.setStage (stage : DispatchStage)
    (hs : ∀ generation, dispatchCarries generation { disp with stage } = false) :
    FlightInvariant (s.setStage index disp stage) := by
  refine h.mono h.sound h.distinct ?_ ?_ (fun _ _ _ ha ↦ ha) h.handler h.mail
  · intro generation
    have hsu := inFlight_setStage hd stage generation
    have hm : taggedMails (s.setStage index disp stage).queue generation =
      taggedMails s.queue generation := rfl
    rw [hs generation] at hsu
    simp only [Bool.false_eq_true, if_false] at hsu
    omega
  · intro generation _ hc
    refine hc.mono (fun d hd' hca ↦ ?_) id (fun _ he _ ↦ he) (Subset.refl _)
    rcases mem_or_eq_of_mem_set hd' with hold | rfl
    · exact hold
    · rw [hs generation] at hca
      cases hca

omit hd in
theorem FlightInvariant.clear (parentTurn : TurnId) (own : ℕ) :
    FlightInvariant { s with queue := clearJoinTrigger s.queue parentTurn own } := by
  unfold clearJoinTrigger
  split
  · refine h.mono h.sound h.distinct ?_ ?_ (fun _ _ _ ha ↦ ha) h.handler h.mail
    · intro generation
      have her := countValue_erase_le s.queue.joinTriggerProvenance parentTurn generation
      simp only [inFlight, taggedMails]
      omega
    · intro _ _ hc
      exact hc.mono (fun _ hd _ ↦ hd) lookup_of_lookup_erase (fun _ he _ ↦ he) (Subset.refl _)
  · exact h

theorem FlightInvariant.mark
    (hs : disp.stage = .entered) (ht : disp.completion.triggerTurn = true) :
    FlightInvariant { s.setStage index disp .marked with
      queue := markJoinTrigger s.queue disp.completion.parentTurnId
        disp.completion.generation } := by
  refine h.mono h.sound h.distinct ?_ ?_ (fun _ _ _ ha ↦ ha) h.handler h.mail
  · intro generation
    have hsu := inFlight_setStage hd .marked generation
    have hi := countValue_insert_le s.queue.joinTriggerProvenance
      disp.completion.parentTurnId disp.completion.generation generation
    simp only [dispatchCarries, hs, ht, Bool.true_and, beq_iff_eq, Bool.false_eq_true,
      if_false] at hsu
    simp only [inFlight, taggedMails, State.setStage, markJoinTrigger] at hsu ⊢
    omega
  · rintro _ turn (⟨d, hd', hturn, hc⟩ | hl | ⟨e, he, hturn, hc⟩ | ⟨m, hm, hturn, hc⟩)
    · rcases mem_or_eq_of_mem_set hd' with hold | rfl
      · exact .dispatch d hold hturn hc
      · cases hc
    · by_cases hturn : turn = disp.completion.parentTurnId
      · subst hturn
        have ho := (AList.lookup_insert s.queue.joinTriggerProvenance).symm.trans hl
        rw [some.injEq] at ho
        refine .dispatch disp (mem_of_getElem? hd) rfl ?_
        simp [dispatchCarries, hs, ht, ho]
      · exact .mark ((AList.lookup_insert_ne hturn).symm.trans hl)
    · exact .handler e he hturn hc
    · exact .mail m hm hturn hc

end

end

theorem dispatchCarries_getD (generation : ℕ) (disp : Dispatch) (next : Option EnqueueStage) :
    (if dispatchCarries generation
        { disp with stage := (next.map .enqueuing).getD .finishing } = true then 1 else 0) =
      nextCarries generation next := by
  cases next with
  | none => rfl
  | some =>
    simp only [nextCarries, toList_some, countP_singleton]
    rfl

section

variable (h : FlightInvariant s)
include h

theorem FlightInvariant.enqueue (hd : s.dispatches[index]? = some disp)
    {stage : EnqueueStage} (hst : disp.stage = .enqueuing stage) :
    FlightInvariant { s.setStage index disp
        (((advanceEnqueue s.queue (disp.message index) stage).2.map .enqueuing).getD
          .finishing) with
      queue := (advanceEnqueue s.queue (disp.message index) stage).1 } := by
  have hp := advanceEnqueue_passes s.queue (disp.message index) stage
  have hu := advanceEnqueue_updates s.queue (disp.message index) stage
  generalize (advanceEnqueue s.queue (disp.message index) stage).1 = queue at hp hu ⊢
  generalize (advanceEnqueue s.queue (disp.message index) stage).2 = next at hp ⊢
  have hcu (generation : ℕ) : dispatchCarries generation disp =
      stageCarries generation stage := by
    simp only [dispatchCarries, hst]
  have hmem := mem_of_getElem? hd
  refine h.mono (h.sound.updates hu) (h.distinct.updates hu) ?_ ?_ ?_ h.handler ?_
  · intro generation
    have hs := inFlight_setStage hd ((next.map .enqueuing).getD .finishing) generation
    have hcn := hp.count generation
    rw [dispatchCarries_getD, hcu] at hs
    simp only [inFlight, State.setStage] at hs ⊢
    omega
  · rintro generation turn (⟨d, hd', hturn, hc⟩ | hl | ⟨e, he, hturn, hc⟩ | ⟨m, hm, hturn, hc⟩)
    · rcases mem_or_eq_of_mem_set hd' with hold | rfl
      · exact .dispatch d hold hturn hc
      · cases next with
        | none => cases hc
        | some stage' =>
          obtain ⟨-, _, ho, hl⟩ := hp.next stage' rfl generation hc
          rw [← hturn]
          exact .mark ((some.inj ho) ▸ hl)
    · exact .mark (hp.marks turn generation hl)
    · exact .handler e he hturn hc
    · rcases hp.mail m hm with hold | ⟨hms, hca⟩
      · exact .mail m hold hturn hc
      · rw [hms] at hturn
        exact .dispatch disp hmem (some.inj hturn)
          ((hcu generation).trans (hca generation hc))
  · intro _ _ _ ha
    exact ha.keeps h.sound (h.sound.updates hu) hu.keeps
  · intro mail hma generation hc
    rcases hp.mail mail hma with hold | ⟨hms, -⟩
    · exact h.mail mail hold generation hc
    · rw [hms]
      exact ⟨rfl, rfl⟩

theorem FlightInvariant.handle (hs : s.handle = some s') : FlightInvariant s' := by
  obtain ⟨enqueue, hh, rfl⟩ := handle_eq_some hs
  have hp := advanceEnqueue_passes s.queue enqueue.message enqueue.stage
  have hu := advanceEnqueue_updates s.queue enqueue.message enqueue.stage
  generalize (advanceEnqueue s.queue enqueue.message enqueue.stage).1 = queue at hp hu ⊢
  generalize (advanceEnqueue s.queue enqueue.message enqueue.stage).2 = next at hp ⊢
  refine h.mono (h.sound.updates hu) (h.distinct.updates hu) ?_ ?_ ?_ ?_ ?_
  · intro generation
    have hcn := hp.count generation
    have hn : (next.map fun stage ↦ (⟨enqueue.message, stage⟩ : Enqueue)).toList.countP
        (fun enqueue ↦ stageCarries generation enqueue.stage) = nextCarries generation next := by
      cases next <;> rfl
    simp only [inFlight, hh, hn, toList_some, countP_singleton]
    omega
  · rintro generation turn (⟨d, hd, hturn, hc⟩ | hl | ⟨e, he, hturn, hc⟩ | ⟨m, hm, hturn, hc⟩)
    · exact .dispatch d hd hturn hc
    · exact .mark (hp.marks turn generation hl)
    · obtain ⟨stage', hs', rfl⟩ := map_eq_some_iff.mp he
      obtain ⟨-, _, ho, hl⟩ := hp.next stage' hs' generation hc
      rw [hturn, some.injEq] at ho
      exact .mark (ho ▸ hl)
    · rcases hp.mail m hm with hold | ⟨hms, hca⟩
      · exact .mail m hold hturn hc
      · exact .handler enqueue hh (hms ▸ hturn) (hca generation hc)
  · intro _ _ _ ha
    exact ha.keeps h.sound (h.sound.updates hu) hu.keeps
  · intro e he generation hc
    obtain ⟨stage', hs', rfl⟩ := map_eq_some_iff.mp he
    obtain ⟨ht, _, ho, -⟩ := hp.next stage' hs' generation hc
    exact ⟨ht, by simp [ho]⟩
  · intro mail hma generation hc
    rcases hp.mail mail hma with hold | ⟨hms, hca⟩
    · exact h.mail mail hold generation hc
    · rw [hms]
      exact h.handler enqueue hh generation (hca generation hc)

theorem FlightInvariant.exists_carrier
    (hp : 0 < inFlight s generation + taggedMails s.queue generation) :
    ∃ turn, Carrier s generation turn := by
  by_cases hdi : 0 < s.dispatches.countP (dispatchCarries generation)
  · obtain ⟨d, hd, hc⟩ := countP_pos_iff.mp hdi
    exact ⟨_, .dispatch d hd rfl hc⟩
  by_cases hm : 0 < countValue s.queue.joinTriggerProvenance generation
  · obtain ⟨turn, hl⟩ := exists_lookup_of_countValue_pos hm
    exact ⟨turn, .mark hl⟩
  by_cases hh : 0 < s.handler.toList.countP fun e ↦ stageCarries generation e.stage
  · obtain ⟨e, he, hc⟩ := countP_pos_iff.mp hh
    have hmem := mem_toList.mp he
    obtain ⟨turn, hturn⟩ := isSome_iff_exists.mp (h.handler e hmem generation hc).2
    exact ⟨turn, .handler e hmem hturn hc⟩
  · have hma : 0 < taggedMails s.queue generation := by
      unfold inFlight at hp
      omega
    obtain ⟨mail, hmem, hc⟩ := countP_pos_iff.mp hma
    rw [beq_iff_eq] at hc
    obtain ⟨turn, hturn⟩ := isSome_iff_exists.mp (h.mail mail hmem generation hc).2
    exact ⟨turn, .mail mail hmem hturn hc⟩

theorem FlightInvariant.carriers_eq_zero
    (ho : o ∈ s.queue.joinObligations.obligations) (hu : o.triggerSent = false) :
    inFlight s o.generation + taggedMails s.queue o.generation = 0 := by
  by_contra hne
  obtain ⟨turn, hc⟩ := h.exists_carrier (Nat.pos_of_ne_zero hne)
  obtain ⟨other, hot, hw⟩ := h.awaited _ turn hc
  obtain ⟨hg, -, hr⟩ := (awaitsDelivery_iff (h.sound other hot)).mp hw
  have heq := h.distinct.eq_of_generation_eq hot ho hg
  have hs := (h.sound o ho).ready_iff_triggerSent.mp (heq ▸ hr)
  rw [hu] at hs
  cases hs

theorem FlightInvariant.emit {completion : JoinCompletion} {o' : JoinObligation}
    (hu : Updates s.queue.joinObligations store)
    (hem : Emits s.queue.joinObligations store completion o o') (parentPath childPath : String) :
    FlightInvariant ((s.withStore store).emit completion parentPath childPath) := by
  have hn := h.carriers_eq_zero hem.mem hem.unsent
  have hs := h.updates hu
  have hw : o'.awaitsDelivery completion.generation completion.parentTurnId = true := by
    rw [awaitsDelivery_iff (hs.sound o' hem.mem')]
    exact ⟨hem.carries.1.symm, hem.carries.2.1.symm, hem.ready⟩
  refine ⟨hs.sound, hs.distinct, ?_, ?_, hs.handler, hs.mail⟩
  · intro generation
    have hle := h.carriers_le generation
    have hne : inFlight ((s.withStore store).emit completion parentPath childPath) generation =
        inFlight s generation +
          if completion.triggerTurn = true ∧ completion.generation = generation then 1 else 0 := by
      simp only [inFlight, State.emit, State.withStore, countP_append, countP_singleton,
        dispatchCarries, Bool.and_eq_true, beq_iff_eq]
      omega
    have hma : taggedMails ((s.withStore store).emit completion parentPath childPath).queue
      generation = taggedMails s.queue generation := rfl
    rw [hne, hma]
    split
    next ho =>
      rw [← ho.2, hem.generation_eq]
      omega
    next => exact hle
  · rintro generation turn (⟨d, hd, hturn, hc⟩ | hl | ⟨e, he, hturn, hc⟩ | ⟨m, hm, hturn, hc⟩)
    · rcases mem_concat.mp hd with hold | rfl
      · exact hs.awaited generation turn (.dispatch d hold hturn hc)
      · simp only [dispatchCarries, Bool.and_eq_true, beq_iff_eq] at hc
        rw [← hturn, ← hc.2]
        exact ⟨o', hem.mem', hw⟩
    · exact hs.awaited generation turn (.mark hl)
    · exact hs.awaited generation turn (.handler e he hturn hc)
    · exact hs.awaited generation turn (.mail m hm hturn hc)

end

theorem isAggregateOf_eq_true {mail : PendingMailboxCommunication} {generations : List ℕ} :
    mail.isAggregateOf generations = true ↔
      ∃ generation ∈ generations, mail.provenance = .joinAggregate generation := by
  unfold PendingMailboxCommunication.isAggregateOf
  split
  next ht => simp [ht]
  next ht => simp [ht]

theorem taggedMails_purgeMail (generations : List ℕ) (generation : ℕ) :
    taggedMails (purgeMail queue generations) generation =
      if generation ∈ generations then 0 else taggedMails queue generation := by
  simp only [taggedMails, purgeMail, countP_filter]
  split
  next hmem =>
    rw [countP_eq_zero]
    intro _ _ hb
    simp only [Bool.and_eq_true, beq_iff_eq] at hb
    rw [isAggregateOf_eq_true.mpr ⟨generation, hmem, hb.1⟩] at hb
    cases hb.2
  next hn =>
    apply countP_congr
    intro _ _
    simp only [Bool.and_eq_true, beq_iff_eq, Bool.not_eq_true']
    constructor
    · exact fun hb ↦ hb.1
    · intro ht
      refine ⟨ht, ?_⟩
      by_contra ha
      obtain ⟨_, hmem, ht'⟩ := isAggregateOf_eq_true.mp (Bool.not_eq_false _ ▸ ha)
      rw [ht] at ht'
      cases ht'
      exact hn hmem

theorem FlightInvariant.consume (h : FlightInvariant s)
    {generations : List ℕ} (handed : List ℕ) (hs : Sound store) (hdi : Distinct store)
    (hf : ∀ generation ∈ generations, inFlight s generation = 0)
    (ha : ∀ generation turn, generation ∉ generations →
      Awaited s.queue.joinObligations generation turn → Awaited store generation turn) :
    FlightInvariant { s with
      queue := purgeMail { s.queue with joinObligations := store } generations
      handed := handed } := by
  have hm (generation : ℕ) := taggedMails_purgeMail
    { s.queue with joinObligations := store } generations generation
  have hsu : (purgeMail { s.queue with joinObligations := store }
      generations).mailboxPendingMails ⊆ s.queue.mailboxPendingMails := filter_sublist.subset
  have hca {generation : ℕ} {turn : TurnId} (hc : Carrier { s with
      queue := purgeMail { s.queue with joinObligations := store } generations
      handed := handed } generation turn) : generation ∉ generations := by
    intro hmem
    have ho := hc.one_le
    rw [hm, if_pos hmem] at ho
    have hz : inFlight { s with
      queue := purgeMail { s.queue with joinObligations := store } generations
      handed := handed } generation = 0 := hf generation hmem
    omega
  refine h.mono hs hdi ?_ ?_ ?_ h.handler fun mail hma ↦ h.mail mail (hsu hma)
  · intro generation
    rw [hm]
    have hsa : taggedMails { s.queue with joinObligations := store } generation =
      taggedMails s.queue generation := rfl
    have hf' : inFlight { s with
      queue := purgeMail { s.queue with joinObligations := store } generations
      handed := handed } generation = inFlight s generation := rfl
    split <;> omega
  · intro _ _ hc
    exact hc.mono (fun _ hd _ ↦ hd) id (fun _ he _ ↦ he) hsu
  · intro generation turn hc
    exact ha generation turn (hca hc)

theorem provenance_of_joinProvenance {mail : PendingMailboxCommunication} {join : TurnId × ℕ}
    (h : mail.joinProvenance = some join) :
    mail.provenance = .joinAggregate join.2 ∧ mail.startOptions.parentTurnId = some join.1 ∧
      isBlank join.1 = false := by
  unfold PendingMailboxCommunication.joinProvenance at h
  split at h
  next =>
    split at h
    next ht =>
      obtain ⟨_, hid, rfl⟩ := map_eq_some_iff.mp h
      obtain ⟨hturn, hn⟩ := filter_eq_some_iff.mp hid
      exact ⟨ht, hturn, by simpa using hn⟩
    next => cases h
  next => cases h

theorem isBlank_of_mem_mailboxJoinProvenance {mails : List PendingMailboxCommunication}
    {join : TurnId × ℕ} (h : join ∈ mailboxJoinProvenance mails) : isBlank join.1 = false := by
  obtain ⟨_, -, hj⟩ := mem_filterMap.mp h
  exact (provenance_of_joinProvenance hj).2.2

theorem taggedMails_pos_of_mem {queue : InputQueue}
    (h : generation ∈ (mailboxJoinProvenance queue.mailboxPendingMails).map Prod.snd) :
    0 < taggedMails queue generation := by
  obtain ⟨_, hj, rfl⟩ := mem_map.mp h
  obtain ⟨mail, hm, hp⟩ := mem_filterMap.mp hj
  refine countP_pos_iff.mpr ⟨mail, hm, ?_⟩
  rw [(provenance_of_joinProvenance hp).1]
  exact beq_self_eq_true _

/-- Mail is taken together with its acknowledgements; what is still on its way is of other
generations. -/
theorem FlightInvariant.takeMailbox (h : FlightInvariant s) (succ : Option TurnId)
    (state : Option TurnStateRef) : FlightInvariant (takeMailbox s succ state) := by
  have hem (generation : ℕ) :
    taggedMails (SessionStore.takeMailbox s succ state).queue generation = 0 := rfl
  have hf (generation : ℕ) :
    inFlight (SessionStore.takeMailbox s succ state) generation = inFlight s generation := rfl
  refine h.mono (applyAll_sound _ h.sound) (distinct_acknowledgements h.distinct _ _ _) ?_ ?_ ?_
    h.handler (forall_mem_nil _)
  · intro _
    rw [hem, hf]
    omega
  · intro _ _ hc
    exact hc.mono (fun _ hd _ ↦ hd) id (fun _ he _ ↦ he) (nil_subset _)
  · intro generation _ hc ha
    refine ha.acknowledgements ?_ succ state
    intro hmem
    have ho := hc.one_le
    have ht := taggedMails_pos_of_mem hmem
    have hle := h.carriers_le generation
    rw [hem, hf] at ho
    omega

def SparesInFlight (s : State) : Action → Prop
  | .register .. => s.queue.joinObligations.nextGeneration < u64Max
  | .wait thread turn targetIds current =>
    ∀ o ∈ waitCandidate s.queue.joinObligations thread turn targetIds current,
      inFlight s o.generation = 0
  | .terminal thread turn _ status => status.isFinal = true →
    ∀ generation ∈ retiredGenerations s.queue.joinObligations thread turn status,
      inFlight s generation = 0
  | _ => True

instance (s : State) (action : Action) : Decidable (SparesInFlight s action) := by
  induction action using ParentSession.Action.casesOn <;> dsimp only [SparesInFlight] <;>
    infer_instance

section

variable (h : FlightInvariant s)
include h

namespace FlightInvariant

/-- Steps on the channel and on the capacity leases touch nothing that carries a completion. -/
theorem idle (hq : s'.queue = s.queue) (hdi : s'.dispatches = s.dispatches)
    (hh : ∀ e ∈ s'.handler, e ∈ s.handler ∨ e.stage = .received)
    (hem : s'.handler = s.handler ∨ s.handler = none) : FlightInvariant s' := by
  have hold {e : Enqueue} (he : e ∈ s'.handler) {generation : ℕ}
      (hc : stageCarries generation e.stage = true) : e ∈ s.handler := by
    rcases hh e he with hmem | hr
    · exact hmem
    · rw [hr] at hc
      cases hc
  refine h.mono (hq ▸ h.sound) (hq ▸ h.distinct) ?_ ?_ ?_ ?_ (hq ▸ h.mail)
  · intro generation
    have hcn : s'.handler.toList.countP (fun e ↦ stageCarries generation e.stage) ≤
        s.handler.toList.countP fun e ↦ stageCarries generation e.stage := by
      rcases hem with hs | hn
      · rw [hs]
      · rw [Nat.le_iff_lt_or_eq, countP_eq_zero.mpr]
        · omega
        · intro e he hc
          have hmem := hold (mem_toList.mp he) hc
          rw [hn] at hmem
          cases hmem
    simp only [inFlight, hq, hdi]
    omega
  · intro _ _ hc
    refine hc.mono (fun d hd _ ↦ hdi ▸ hd) ?_ (fun e he hca ↦ hold he hca) ?_
    all_goals rw [hq]
    · exact id
    · exact Subset.refl _
  · intro _ _ _ ha
    rw [hq]
    exact ha
  · intro e he generation hc
    exact h.handler e (hold he hc) generation hc

theorem dispatchMove {act : Action}
    (hd : s.dispatches[index]? = some disp) (hm : DispatchMove s index disp act s') :
    FlightInvariant s' := by
  cases hm with
  | giveUp _ stage _ hn =>
    refine h.setStage hd stage ?_
    rcases hn with rfl | rfl <;> exact fun _ ↦ rfl
  | mark i hst ht => exact h.mark hd hst ht
  | withdraw _ stage _ hn =>
    have hs : FlightInvariant (s.setStage index disp stage) := by
      refine h.setStage hd stage ?_
      rcases hn with rfl | rfl <;> exact fun _ ↦ rfl
    exact hs.clear _ _
  | submit =>
    have hs := h.setStage hd .finishing fun _ ↦ rfl
    exact hs.idle rfl rfl (fun _ he ↦ .inl he) (.inl rfl)
  | overflow =>
    have hs := h.setStage hd (.enqueuing .received) fun _ ↦ rfl
    exact hs.idle rfl rfl (fun _ he ↦ .inl he) (.inl rfl)
  | enqueue _ _ hst => exact h.enqueue hd hst
  | finish =>
    have hs := h.setStage hd .done fun _ ↦ rfl
    exact hs.updates (finishJoinDispatch_amends _ _).toUpdates

theorem wait {thread : ThreadId} {waitTurn : TurnId}
    {targetIds : List ThreadId} {cur : TargetBindings}
    (hok : SparesInFlight s (.wait thread waitTurn targetIds cur)) :
    FlightInvariant (s.wait thread waitTurn targetIds cur) := by
  rcases h.sound.consume_cases thread waitTurn targetIds cur with
    ⟨-, hn⟩ | ⟨o, ho, hc, -, -, hco⟩
  · simp only [State.wait, consumeForTargets, hn]
    exact h.consume _ h.sound h.distinct (by simp) fun _ _ _ ha ↦ ha
  · simp only [State.wait, consumeForTargets, hco]
    refine h.consume _ (h.sound.apply (.acknowledge ..)) (h.distinct.acknowledge _ _ _ _) ?_ ?_
    · intro _ hmem
      simp only [map_some, toList_some, mem_singleton] at hmem
      rw [hmem]
      exact hok o hc
    · rintro _ _ hne ⟨other, hot, hw⟩
      simp only [map_some, toList_some, mem_singleton] at hne
      refine ⟨other, mem_acknowledge_of_ne hot ?_ _ _ _, hw⟩
      rw [generation_of_awaitsDelivery hw]
      exact hne

theorem terminal {thread : ThreadId}
    {terminalTurn : TurnId} {state : TurnStateRef} {status : AgentStatus}
    (hok : SparesInFlight s (.terminal thread terminalTurn state status)) :
    FlightInvariant { s with
      queue := recordNestedJoinTurnTerminal s.queue thread terminalTurn state status } := by
  unfold recordNestedJoinTurnTerminal
  split
  next hf =>
    have he := recordTurnTerminal_evolves s.queue.joinObligations thread terminalTurn state
      status
    refine h.consume s.handed (h.sound.evolves he) (h.distinct.evolves he) (hok hf) ?_
    intro _ _ hne ha
    exact ha.recordTurnTerminal thread terminalTurn state status hne
  next => exact h

theorem step {act : Action}
    (hok : SparesInFlight s act) (hst : s.step act = some s') : FlightInvariant s' := by
  have hds {i : ℕ} (hs : ((s.dispatches[i]?).bind fun d ↦ s.dispatchStep i d act) = some s') :
      FlightInvariant s' := by
    obtain ⟨d, hd, hm⟩ := bind_eq_some_iff.mp hs
    exact h.dispatchMove hd (dispatchMove_of_dispatchStep hm)
  cases act with
  | register =>
    cases hst
    exact h.withStore _ (h.sound.apply (.register ..))
      (h.distinct.apply (.register ..) fun _ _ _ _ _ _ ↦ hok)
      (registerObligation_keeps _ _ _ _ _)
  | resolve thread generation child inc turn status retain parentPath childPath =>
    cases hst
    have hu := resolveJoinTargetInner_updates s.queue.joinObligations thread generation child
      inc turn status retain
    simp only [State.resolve]
    split
    next => exact h.updates hu
    next hc =>
      obtain ⟨_, _, hem⟩ := resolveJoinTargetInner_emits hc
      exact h.emit hu hem parentPath childPath
  | rebind =>
    cases hst
    exact h.updates (rebindJoinTargetToSuccessor_amends _ _ _ _ _ _ _).toUpdates
  | retire =>
    cases hst
    exact h.updates (retireJoinTargetSuccessorRetention_amends _ _ _ _ _ _).toUpdates
  | finishContinuation | finishRootContinuations =>
    cases hst
    exact h.withStore _ h.sound ⟨h.distinct.generations_nodup, h.distinct.generation_le⟩
      fun o ho ↦ ⟨o, ho, .same o⟩
  | releaseLease | send =>
    cases hst
    exact h.idle rfl rfl (fun _ he ↦ .inl he) (.inl rfl)
  | receive =>
    obtain ⟨_, _, hh, -, rfl⟩ := receive_eq_some hst
    refine h.idle rfl rfl ?_ (.inr hh)
    intro e he
    rw [mem_some_iff] at he
    exact .inr (he ▸ rfl)
  | handle => exact h.handle hst
  | wait =>
    cases hst
    exact h.wait hok
  | terminal =>
    cases hst
    exact h.terminal hok
  | startup =>
    rw [startup_eq_some hst]
    exact h.takeMailbox _ _
  | deliver =>
    rcases deliver_eq_some hst with ⟨rfl, -⟩ | ⟨-, -, rfl⟩
    · exact h
    · exact h.takeMailbox _ _
  | _ => exact hds hst

end FlightInvariant

end

theorem flightInvariant_initial : FlightInvariant .initial := by
  refine ⟨?_, ⟨?_, ?_⟩, ?_, ?_, ?_, ?_⟩
  · simp [Sound, State.initial, new, JoinObligationStore.empty]
  · simp [State.initial, new, JoinObligationStore.empty]
  · simp [State.initial, new, JoinObligationStore.empty]
  · intro _
    simp [State.initial, new, inFlight, taggedMails, countValue]
  · rintro _ _ (⟨_, hd, -, -⟩ | hl | ⟨_, he, -, -⟩ | ⟨_, hm, -, -⟩)
    · cases hd
    · cases hl
    · cases he
    · cases hm
  · simp [State.initial]
  · simp [State.initial, new]

theorem guarded_flightInvariant (h : parentSession.Guarded SparesInFlight s) : FlightInvariant s :=
  h.invariant FlightInvariant flightInvariant_initial fun _ _ _ hs hok hst ↦ hs.step hok hst

end Slopdex.Join.Carriers
