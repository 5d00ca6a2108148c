import Slopdex.Join.ParentSession

/-!
# Which mail is tagged as a join aggregate

The tag of a completion is found through a mark in a side map that is keyed by the parent turn
alone. A message that is still to be tagged relies on the mark being there and being its own. This
holds as long as a turn is marked for one completion at a time and no ordinary message takes the
mark away.
-/

namespace Slopdex.Join.Provenance

open Protocol Library.FirstMatch Library.KeyedMap Library.Transition Library.Transition.System
open Bool List
  Join.Store Join.Mailbox Join.ParentSession Option List

def KeepsMarks (s : State) : Action → Prop
  | .mark index => ∀ dispatch ∈ s.dispatches[index]?,
      s.queue.joinTriggerProvenance.lookup dispatch.completion.parentTurnId = none
  | .handle => ∀ enqueue ∈ s.handler, enqueue.stage = .received →
      enqueue.message.origin = none → enqueue.message.communication.triggerTurn = true →
        ∀ turn ∈ enqueue.message.startOptions.parentTurnId,
          s.queue.joinTriggerProvenance.lookup turn = none
  | _ => True

instance (s : State) (action : Action) : Decidable (KeepsMarks s action) := by
  cases action <;> unfold KeepsMarks <;> infer_instance

def TagMatches (provenance : MailboxProvenance) (message : Message) : Prop :=
  ∀ generation, provenance = .joinAggregate generation ↔
    message.origin.map (·.generation) = some generation

def Marked (marks : Map TurnId ℕ) (message : Message) : Prop :=
  ∀ origin ∈ message.origin, message.communication.triggerTurn = true ∧
    ∃ turn, message.startOptions.parentTurnId = some turn ∧
      marks.lookup turn = some origin.generation

def StageCorrect (marks : Map TurnId ℕ) (message : Message) : EnqueueStage → Prop
  | .received => Marked marks message
  | .tagged provenance | .pushed provenance => TagMatches provenance message

def enqueueStage : DispatchStage → Option EnqueueStage
  | .marked => some .received
  | .enqueuing stage => some stage
  | _ => none

def untaggedMessage (turn : TurnId) (message : Message) : Bool :=
  message.origin.isSome && message.startOptions.parentTurnId == some turn

def untaggedEnqueue (turn : TurnId) (enqueue : Enqueue) : Bool :=
  enqueue.stage == .received && untaggedMessage turn enqueue.message

def untaggedDispatch (turn : TurnId) (dispatch : Dispatch) : Bool :=
  enqueueStage dispatch.stage == some .received && dispatch.completion.parentTurnId == turn

def untagged (s : State) (turn : TurnId) : ℕ :=
  s.dispatches.countP (untaggedDispatch turn) + s.channel.countP (untaggedMessage turn) +
    s.handler.toList.countP (untaggedEnqueue turn)

structure TagInvariant (s : State) : Prop where
  untagged_le : ∀ turn, untagged s turn ≤ 1
  dispatches : ∀ dispatch ∈ s.dispatches, ∀ stage ∈ enqueueStage dispatch.stage, ∀ index,
    StageCorrect s.queue.joinTriggerProvenance (dispatch.message index) stage
  channel : ∀ message ∈ s.channel, Marked s.queue.joinTriggerProvenance message
  handler : ∀ enqueue ∈ s.handler,
    StageCorrect s.queue.joinTriggerProvenance enqueue.message enqueue.stage
  mail : ∀ mail ∈ s.queue.mailboxPendingMails, TagMatches mail.provenance mail.toMessage

variable {marks : Map TurnId ℕ} {message : Message} {stage : EnqueueStage} {turn : TurnId}
  {generation : ℕ}

def awaitsMark (turn : TurnId) (message : Message) (stage : EnqueueStage) : Bool :=
  stage == .received && untaggedMessage turn message

attribute [local simp] awaitsMark

theorem StageCorrect.erase (h : StageCorrect marks message stage)
    (ho : awaitsMark turn message stage = false) :
    StageCorrect (marks.erase turn) message stage := by
  cases stage with
  | received =>
    intro origin horig
    obtain ⟨ht, own, how, hl⟩ := h origin horig
    refine ⟨ht, own, how, ?_⟩
    have hne : own ≠ turn := by
      rintro rfl
      have ho' : message.origin.isSome = true := isSome_iff_exists.mpr ⟨origin, horig⟩
      simp [untaggedMessage, ho', how] at ho
    rw [AList.lookup_erase_ne hne]
    exact hl
  | tagged | pushed => exact h

theorem StageCorrect.insert (h : StageCorrect marks message stage) (generation : ℕ)
    (hf : marks.lookup turn = none) :
    StageCorrect (marks.insert turn generation) message stage := by
  cases stage with
  | received =>
    intro origin horig
    obtain ⟨ht, own, ho, hl⟩ := h origin horig
    refine ⟨ht, own, ho, ?_⟩
    have hne : own ≠ turn := by
      rintro rfl
      rw [hf] at hl
      cases hl
    rw [AList.lookup_insert_ne hne]
    exact hl
  | tagged | pushed => exact h

theorem marked_of_ordinary (ho : message.origin = none) : Marked marks message := by
  intro _ horig
  rw [ho] at horig
  cases horig

structure EnqueuePart (queue : InputQueue) (message : Message) (stage : EnqueueStage) : Prop where
  next : ∀ stage' ∈ (advanceEnqueue queue message stage).2,
    stage' ≠ .received ∧
      StageCorrect (advanceEnqueue queue message stage).1.joinTriggerProvenance message stage'
  marks : (advanceEnqueue queue message stage).1.joinTriggerProvenance =
      queue.joinTriggerProvenance ∨
    ∃ turn, awaitsMark turn message stage = true ∧
      (advanceEnqueue queue message stage).1.joinTriggerProvenance =
        queue.joinTriggerProvenance.erase turn
  mail : ∀ mail ∈ (advanceEnqueue queue message stage).1.mailboxPendingMails,
    mail ∈ queue.mailboxPendingMails ∨ TagMatches mail.provenance mail.toMessage

theorem tagMatches_ordinary (ho : message.origin = none) : TagMatches .ordinary message := by
  intro _
  simp [ho]

theorem enqueuePart_of_stageCorrect {queue : InputQueue}
    (h : StageCorrect queue.joinTriggerProvenance message stage)
    (ho : stage = .received → message.origin = none →
      message.communication.triggerTurn = true → ∀ turn ∈ message.startOptions.parentTurnId,
        queue.joinTriggerProvenance.lookup turn = none) :
    EnqueuePart queue message stage := by
  cases stage with
  | received =>
    cases horig : message.origin with
    | none =>
      have ht : takeTrigger queue message = (queue, .ordinary) := by
        unfold takeTrigger
        split
        next htr =>
          split
          next => rfl
          next turn htu =>
            rw [ho rfl horig htr turn htu]
        next => rfl
      refine ⟨?_, ?_, ?_⟩
      · intro _ hs'
        simp only [advanceEnqueue, ht, mem_some_iff] at hs'
        rw [← hs']
        exact ⟨nofun, tagMatches_ordinary horig⟩
      · exact .inl (by simp [advanceEnqueue, ht])
      · intro _ hmail
        simp only [advanceEnqueue, ht] at hmail
        exact .inl hmail
    | some origin =>
      obtain ⟨htr, turn, htu, hl⟩ := h origin horig
      have ht : takeTrigger queue message =
          ({ queue with joinTriggerProvenance := queue.joinTriggerProvenance.erase turn },
            .joinAggregate origin.generation) := by
        simp [takeTrigger, htr, htu, hl]
      refine ⟨?_, ?_, ?_⟩
      · intro _ hs'
        simp only [advanceEnqueue, ht, mem_some_iff] at hs'
        rw [← hs']
        refine ⟨nofun, ?_⟩
        intro _
        simp [horig]
      · refine .inr ⟨turn, ?_, by simp [advanceEnqueue, ht]⟩
        simp [untaggedMessage, horig, htu]
      · intro _ hmail
        simp only [advanceEnqueue, ht] at hmail
        exact .inl hmail
  | tagged =>
    refine ⟨?_, .inl rfl, ?_⟩
    · intro _ hs'
      simp only [advanceEnqueue, mem_some_iff] at hs'
      rw [← hs']
      exact ⟨nofun, h⟩
    · intro _ hmail
      rcases mem_concat.mp hmail with hold | rfl
      · exact .inl hold
      · exact .inr h
  | pushed provenance =>
    have hq : (advanceEnqueue queue message (.pushed provenance)).1.joinTriggerProvenance =
          queue.joinTriggerProvenance ∧
        (advanceEnqueue queue message (.pushed provenance)).1.mailboxPendingMails =
          queue.mailboxPendingMails := by
      cases provenance <;> exact ⟨rfl, rfl⟩
    refine ⟨nofun, .inl hq.1, ?_⟩
    intro _ hmail
    rw [hq.2] at hmail
    exact .inl hmail

/-! ## Steps keep the tags -/

variable {s s' : State} {dispatch : Dispatch} {index : ℕ}

attribute [local simp] untaggedDispatch

theorem awaitsMark_eq_false_of_untagged (hz : untagged s turn = 0) :
    (∀ d ∈ s.dispatches, ∀ stage ∈ enqueueStage d.stage, ∀ index,
      awaitsMark turn (d.message index) stage = false) ∧
    (∀ m ∈ s.channel, awaitsMark turn m .received = false) ∧
    ∀ e ∈ s.handler, awaitsMark turn e.message e.stage = false := by
  simp only [untagged, Nat.add_eq_zero_iff, countP_eq_zero] at hz
  obtain ⟨⟨hdi, hc⟩, hh⟩ := hz
  refine ⟨?_, ?_, ?_⟩
  · intro d hd stage hst _
    have h := hdi d hd
    rw [mem_def] at hst
    by_cases hr : stage = .received
    · have ht : d.completion.parentTurnId ≠ turn := by
        simpa [hst, hr] using h
      simp [untaggedMessage, Dispatch.message, ht]
    · simp [hr]
  · intro m hm
    simpa using hc m hm
  · intro e he
    simpa [untaggedEnqueue] using hh e (mem_toList.mpr he)

section

variable (h : TagInvariant s)
include h

theorem TagInvariant.withQueue (queue : InputQueue)
    (hma : queue.joinTriggerProvenance = s.queue.joinTriggerProvenance ∨
      ∃ turn, untagged s turn = 0 ∧
        queue.joinTriggerProvenance = s.queue.joinTriggerProvenance.erase turn)
    (hmail : ∀ mail ∈ queue.mailboxPendingMails,
      mail ∈ s.queue.mailboxPendingMails ∨ TagMatches mail.provenance mail.toMessage) :
    TagInvariant { s with queue := queue } := by
  have hm' : ∀ mail ∈ queue.mailboxPendingMails, TagMatches mail.provenance mail.toMessage :=
    fun mail hme ↦ (hmail mail hme).elim (h.mail mail) id
  rcases hma with hsa | ⟨_, hz, her⟩
  · refine ⟨h.untagged_le, ?_, ?_, ?_, hm'⟩
    · simpa only [hsa] using h.dispatches
    · simpa only [hsa] using h.channel
    · simpa only [hsa] using h.handler
  · obtain ⟨hdi, hc, hh⟩ := awaitsMark_eq_false_of_untagged hz
    refine ⟨h.untagged_le, ?_, ?_, ?_, hm'⟩
    · intro d hd stage hst index
      simp only [her]
      exact (h.dispatches d hd stage hst index).erase (hdi d hd stage hst index)
    · intro m hm
      simp only [her]
      have hr : StageCorrect s.queue.joinTriggerProvenance m .received := h.channel m hm
      exact hr.erase (hc m hm)
    · intro e he
      simp only [her]
      exact (h.handler e he).erase (hh e he)

theorem TagInvariant.setStage (stage : DispatchStage)
    (hcn : ∀ turn, untagged (s.setStage index dispatch stage) turn ≤ 1)
    (hc : ∀ st ∈ enqueueStage stage, ∀ i,
      StageCorrect s.queue.joinTriggerProvenance (dispatch.message i) st) :
    TagInvariant (s.setStage index dispatch stage) := by
  refine ⟨hcn, ?_, h.channel, h.handler, h.mail⟩
  intro d hd' st hst i
  rcases mem_or_eq_of_mem_set hd' with hold | rfl
  · exact h.dispatches d hold st hst i
  · exact hc st hst i

section

variable (hd : s.dispatches[index]? = some dispatch)
include hd

omit h in
theorem untagged_setStage (stage : DispatchStage) (turn : TurnId) :
    untagged (s.setStage index dispatch stage) turn +
        (if untaggedDispatch turn dispatch = true then 1 else 0) =
      untagged s turn + if untaggedDispatch turn { dispatch with stage } = true then 1 else 0 := by
  have hse := countP_set_of_getElem? (p := untaggedDispatch turn) hd { dispatch with stage }
  simp only [untagged, State.setStage]
  omega

omit h in
theorem untagged_setStage_le {stage : DispatchStage}
    (hst : enqueueStage stage = some .received → enqueueStage dispatch.stage = some .received)
    (turn : TurnId) : untagged (s.setStage index dispatch stage) turn ≤ untagged s turn := by
  have hsu := untagged_setStage hd stage turn
  by_cases hn : untaggedDispatch turn { dispatch with stage } = true
  · have hold : untaggedDispatch turn dispatch = true := by
      simp only [untaggedDispatch, and_eq_true, beq_iff_eq] at hn ⊢
      exact ⟨hst hn.1, hn.2⟩
    simp only [hn, hold] at hsu
    omega
  · rw [if_neg hn] at hsu
    omega

theorem untagged_setStage_eq_zero
    (hds : enqueueStage dispatch.stage = some .received) {stage : DispatchStage}
    (hst : enqueueStage stage ≠ some .received) :
    untagged (s.setStage index dispatch stage) dispatch.completion.parentTurnId = 0 := by
  have hsu := untagged_setStage hd stage dispatch.completion.parentTurnId
  have hle := h.untagged_le dispatch.completion.parentTurnId
  have hold : untaggedDispatch dispatch.completion.parentTurnId dispatch = true := by
    simp [hds]
  have hn : untaggedDispatch dispatch.completion.parentTurnId { dispatch with stage } = false := by
    simp [hst]
  simp only [hold, hn, if_true, false_eq_true, if_false] at hsu
  omega

omit hd in
/-- Without a mark nothing waits for one. -/
theorem untagged_eq_zero_of_lookup
    (hfr : s.queue.joinTriggerProvenance.lookup turn = none) : untagged s turn = 0 := by
  have hms (m : Message) (hm : Marked s.queue.joinTriggerProvenance m) :
      untaggedMessage turn m = false := by
    by_contra hu
    simp only [untaggedMessage, not_eq_false, and_eq_true, beq_iff_eq, isSome_iff_exists] at hu
    obtain ⟨⟨origin, horig⟩, ht⟩ := hu
    obtain ⟨-, _, ho, hl⟩ := hm origin horig
    rw [ht, some.injEq] at ho
    rw [← ho, hfr] at hl
    cases hl
  simp only [untagged, Nat.add_eq_zero_iff, countP_eq_zero]
  refine ⟨⟨?_, ?_⟩, ?_⟩
  · intro d hd hu
    simp only [untaggedDispatch, and_eq_true, beq_iff_eq] at hu
    have hc := h.dispatches d hd .received hu.1 0
    have hf := hms _ hc
    simp [untaggedMessage, Dispatch.message, hu.2] at hf
  · intro m hm
    simp [hms m (h.channel m hm)]
  · intro e he hu
    simp only [untaggedEnqueue, and_eq_true, beq_iff_eq] at hu
    have hc := h.handler e (mem_toList.mp he)
    rw [hu.1] at hc
    rw [hms _ hc] at hu
    cases hu.2

omit hd in
omit h in
theorem StageCorrect.of_ne_received {marks' : Map TurnId ℕ}
    (h : StageCorrect marks message stage) (hst : stage ≠ .received) :
    StageCorrect marks' message stage := by
  cases stage with
  | received => exact absurd rfl hst
  | tagged | pushed => exact h

theorem TagInvariant.mark
    (hf : s.queue.joinTriggerProvenance.lookup dispatch.completion.parentTurnId = none) :
    TagInvariant { s.setStage index dispatch .marked with
      queue := markJoinTrigger s.queue dispatch.completion.parentTurnId
        dispatch.completion.generation } := by
  have hz := untagged_eq_zero_of_lookup h hf
  have hi {m : Message} {st : EnqueueStage}
      (hm : StageCorrect s.queue.joinTriggerProvenance m st) :=
    hm.insert dispatch.completion.generation hf
  refine ⟨?_, ?_, ?_, fun e he ↦ hi (h.handler e he), h.mail⟩
  · intro turn
    have hsu := untagged_setStage hd .marked turn
    have hle := h.untagged_le turn
    change untagged (s.setStage index dispatch .marked) turn ≤ 1
    by_cases ht : dispatch.completion.parentTurnId = turn
    · rw [ht] at hz
      split at hsu <;> split at hsu <;> omega
    · have hn : untaggedDispatch turn { dispatch with stage := .marked } = false := by
        simp [ht]
      rw [hn] at hsu
      simp only [false_eq_true, if_false] at hsu
      omega
  · intro d hd' st hst i
    rcases mem_or_eq_of_mem_set hd' with hold | rfl
    · exact hi (h.dispatches d hold st hst i)
    · simp only [enqueueStage, mem_some_iff] at hst
      rw [← hst]
      intro _ horig
      simp only [Dispatch.message, mem_some_iff] at horig
      refine ⟨rfl, dispatch.completion.parentTurnId, rfl, ?_⟩
      rw [← horig]
      exact AList.lookup_insert _
  · intro m hm
    have hr : StageCorrect s.queue.joinTriggerProvenance m .received := h.channel m hm
    exact hi hr

end

theorem TagInvariant.advance {queue : InputQueue}
    (hq : s.queue = queue) (hp : EnqueuePart queue message stage)
    (hf : ∀ turn, awaitsMark turn message stage = true → untagged s turn = 0) :
    TagInvariant { s with queue := (advanceEnqueue queue message stage).1 } := by
  subst hq
  refine h.withQueue _ ?_ hp.mail
  rcases hp.marks with hsa | ⟨turn, hw, he⟩
  · exact .inl hsa
  · exact .inr ⟨turn, hf turn hw, he⟩

end

theorem enqueueStage_getD (next : Option EnqueueStage) :
    enqueueStage ((next.map .enqueuing).getD .finishing) = next := by
  cases next <;> rfl

theorem stageCorrect_message (h : StageCorrect marks (dispatch.message index) stage)
    (hst : stage ≠ .received) (i : ℕ) : StageCorrect marks (dispatch.message i) stage := by
  cases stage with
  | received => exact absurd rfl hst
  | tagged | pushed => exact h

section

variable (h : TagInvariant s)
include h

namespace TagInvariant

theorem dispatchMove {act : Action}
    (hd : s.dispatches[index]? = some dispatch) (hmov : DispatchMove s index dispatch act s')
    (hok : ∀ i, act = .mark i →
      s.queue.joinTriggerProvenance.lookup dispatch.completion.parentTurnId = none) :
    TagInvariant s' := by
  have hc := h.dispatches dispatch (mem_of_getElem? hd)
  have hse (stage : DispatchStage)
      (hstg : enqueueStage stage = some .received → enqueueStage dispatch.stage = some .received)
      (hnex : ∀ st ∈ enqueueStage stage, ∀ i,
        StageCorrect s.queue.joinTriggerProvenance (dispatch.message i) st) :
      TagInvariant (s.setStage index dispatch stage) :=
    h.setStage stage (fun turn ↦ (untagged_setStage_le hd hstg turn).trans (h.untagged_le turn))
      hnex
  cases hmov with
  | giveUp _ stage _ hnex =>
    have hn : enqueueStage stage = none := by rcases hnex with rfl | rfl <;> rfl
    exact hse stage (by simp [hn]) (by simp [hn])
  | mark i => exact h.mark hd (hok i rfl)
  | withdraw _ stage hstg hnex =>
    have hn : enqueueStage stage = none := by rcases hnex with rfl | rfl <;> rfl
    have hw := hse stage (by simp [hn]) (by simp [hn])
    refine hw.withQueue _ ?_ ?_
    · unfold clearJoinTrigger
      split
      · refine .inr ⟨dispatch.completion.parentTurnId, ?_, rfl⟩
        exact untagged_setStage_eq_zero h hd (by simp [enqueueStage, hstg]) (by simp [hn])
      · exact .inl rfl
    · intro _ hmail
      unfold clearJoinTrigger at hmail
      split at hmail <;> exact .inl hmail
  | submit _ hstg =>
    have hr : enqueueStage dispatch.stage = some .received := by simp [enqueueStage, hstg]
    have hsu := hse .finishing (by simp [enqueueStage]) (by simp [enqueueStage])
    refine ⟨?_, hsu.dispatches, ?_, h.handler, h.mail⟩
    · intro turn
      have hsum := untagged_setStage hd .finishing turn
      have hle := h.untagged_le turn
      have hnew : untaggedDispatch turn { dispatch with stage := .finishing } = false := rfl
      have hms : untaggedMessage turn (dispatch.message index) =
          untaggedDispatch turn dispatch := by
        simp [untaggedMessage, Dispatch.message, hr]
      simp only [untagged, State.setStage, countP_append, countP_singleton, hms,
        hnew, false_eq_true, if_false] at hsum hle ⊢
      omega
    · intro m hm
      rcases mem_concat.mp hm with hold | rfl
      · exact h.channel m hold
      · exact hc .received hr index
  | overflow _ _ hstg =>
    have hr : enqueueStage dispatch.stage = some .received := by simp [enqueueStage, hstg]
    have ho := hse (.enqueuing .received) (fun _ ↦ hr) (by
      intro _ hst i
      simp only [enqueueStage, mem_some_iff] at hst
      rw [← hst]
      exact hc .received hr i)
    exact ⟨ho.untagged_le, ho.dispatches, h.channel, h.handler, h.mail⟩
  | enqueue _ stage hstg =>
    have hcu : enqueueStage dispatch.stage = some stage := by rw [hstg]; rfl
    have hp : EnqueuePart s.queue (dispatch.message index) stage :=
      enqueuePart_of_stageCorrect (hc stage hcu index) fun _ horig ↦ nomatch horig
    have hmo := hse
      (((advanceEnqueue s.queue (dispatch.message index) stage).2.map .enqueuing).getD .finishing)
      (by
        rw [enqueueStage_getD]
        exact fun hr ↦ absurd rfl (hp.next _ hr).1)
      (by
        rw [enqueueStage_getD]
        intro st hst i
        obtain ⟨hne, hst⟩ := hp.next st hst
        exact stageCorrect_message (hst.of_ne_received hne) hne i)
    refine hmo.advance rfl hp ?_
    intro _ hwa
    simp only [awaitsMark, untaggedMessage, Dispatch.message, and_eq_true, beq_iff_eq,
      some.injEq] at hwa
    rw [hwa.1] at hcu
    rw [← hwa.2.2]
    refine untagged_setStage_eq_zero h hd hcu ?_
    rw [enqueueStage_getD]
    exact fun hr ↦ (hp.next _ hr).1 rfl
  | finish =>
    have hf := hse .done (by simp [enqueueStage]) (by simp [enqueueStage])
    exact hf.withQueue _ (.inl rfl) fun mail hmail ↦ .inl hmail

theorem handle (hok : KeepsMarks s .handle) (hstep : s.handle = some s') : TagInvariant s' := by
  obtain ⟨enqueue, hh, rfl⟩ := handle_eq_some hstep
  have hp : EnqueuePart s.queue enqueue.message enqueue.stage :=
    enqueuePart_of_stageCorrect (h.handler enqueue hh) (hok enqueue hh)
  have hcn (turn : TurnId) : s.dispatches.countP (untaggedDispatch turn) +
      s.channel.countP (untaggedMessage turn) +
        (if awaitsMark turn enqueue.message enqueue.stage = true then 1 else 0) ≤ 1 := by
    have hle := h.untagged_le turn
    simpa [untagged, hh, countP_singleton, untaggedEnqueue] using hle
  have hn (turn : TurnId) : (((advanceEnqueue s.queue enqueue.message enqueue.stage).2.map
      fun stage ↦ (⟨enqueue.message, stage⟩ : Enqueue)).toList).countP
        (untaggedEnqueue turn) = 0 := by
    rw [countP_eq_zero]
    intro e he
    obtain ⟨stage, hst, rfl⟩ := map_eq_some_iff.mp (mem_toList.mp he)
    simp [untaggedEnqueue, (hp.next stage hst).1]
  have hm : TagInvariant { s with
      handler := (advanceEnqueue s.queue enqueue.message enqueue.stage).2.map
        fun stage ↦ ⟨enqueue.message, stage⟩ } := by
    refine ⟨?_, h.dispatches, h.channel, ?_, h.mail⟩
    · intro turn
      have hle := hcn turn
      simp only [untagged, hn turn]
      omega
    · intro e he
      obtain ⟨stage, hst, rfl⟩ := map_eq_some_iff.mp he
      obtain ⟨hne, hc⟩ := hp.next stage hst
      exact hc.of_ne_received hne
  refine hm.advance rfl hp ?_
  intro turn hw
  have hle := hcn turn
  simp only [untagged, hn turn]
  rw [if_pos hw] at hle
  omega

theorem receive (hstep : s.receive = some s') : TagInvariant s' := by
  obtain ⟨message, _, hh, hc, rfl⟩ := receive_eq_some hstep
  refine ⟨?_, h.dispatches, ?_, ?_, h.mail⟩
  · intro turn
    have hle := h.untagged_le turn
    simp only [untagged, hh, hc, countP_cons, toList_none,
      toList_some, countP_nil, untaggedEnqueue, beq_self_eq_true, Bool.true_and]
      at hle ⊢
    omega
  · intro m hm
    exact h.channel m (by rw [hc]; exact mem_cons_of_mem _ hm)
  · intro e he
    rw [mem_some_iff] at he
    rw [← he]
    exact h.channel message (by rw [hc]; exact mem_cons_self)

theorem send (ho : message.origin = none) :
    TagInvariant { s with channel := s.channel ++ [message] } := by
  refine ⟨?_, h.dispatches, ?_, h.handler, h.mail⟩
  · intro turn
    have hn : untaggedMessage turn message = false := by simp [untaggedMessage, ho]
    have hle := h.untagged_le turn
    simpa [untagged, countP_append, countP_singleton, hn] using hle
  · intro m hm
    rcases mem_concat.mp hm with hold | rfl
    · exact h.channel m hold
    · exact marked_of_ordinary ho

theorem emit (completion : JoinCompletion)
    (parentPath childPath : String) : TagInvariant (s.emit completion parentPath childPath) := by
  refine ⟨?_, ?_, h.channel, h.handler, h.mail⟩
  · intro turn
    have hle := h.untagged_le turn
    simpa [untagged, State.emit, countP_append, enqueueStage] using hle
  · intro d hd st hst i
    rcases mem_concat.mp hd with hold | rfl
    · exact h.dispatches d hold st hst i
    · cases hst

theorem withStore (store : JoinObligationStore) : TagInvariant (s.withStore store) :=
  h.withQueue _ (.inl rfl) fun _ hmail ↦ .inl hmail

theorem takeMail (queue : InputQueue) (handed : List ℕ)
    (hm : queue.joinTriggerProvenance = s.queue.joinTriggerProvenance)
    (hmail : queue.mailboxPendingMails ⊆ s.queue.mailboxPendingMails) :
    TagInvariant { s with queue := queue, handed := handed } := by
  have hq := h.withQueue queue (.inl hm) fun _ hme ↦ .inl (hmail hme)
  exact ⟨hq.untagged_le, hq.dispatches, hq.channel, hq.handler, hq.mail⟩

theorem step {act : Action} (hok : KeepsMarks s act)
    (hstep : s.step act = some s') : TagInvariant s' := by
  have hds {i : ℕ} (hm : ∀ j, act = .mark j → j = i)
      (hs : ((s.dispatches[i]?).bind fun d ↦ s.dispatchStep i d act) = some s') :
      TagInvariant s' := by
    obtain ⟨d, hd, hmo⟩ := bind_eq_some_iff.mp hs
    refine h.dispatchMove hd (dispatchMove_of_dispatchStep hmo) ?_
    rintro j rfl
    rw [hm j rfl] at hok
    exact hok d hd
  cases act with
  | resolve =>
    cases hstep
    simp only [State.resolve]
    split
    · exact h.withStore _
    · exact (h.withStore _).emit _ _ _
  | register | rebind | retire | finishContinuation | finishRootContinuations =>
    cases hstep
    exact h.withStore _
  | mark => exact hds (fun j hj ↦ by cases hj; rfl) hstep
  | releaseLease =>
    cases hstep
    exact ⟨h.untagged_le, h.dispatches, h.channel, h.handler, h.mail⟩
  | send =>
    cases hstep
    exact h.send rfl
  | receive => exact h.receive hstep
  | handle => exact h.handle hok hstep
  | wait =>
    cases hstep
    exact h.takeMail _ _ rfl filter_sublist.subset
  | terminal =>
    cases hstep
    refine h.takeMail _ _ ?_ ?_ <;> unfold recordNestedJoinTurnTerminal
    · split <;> rfl
    · split
      · exact filter_sublist.subset
      · exact Subset.refl _
  | startup =>
    obtain ⟨_, hr, rfl⟩ := map_eq_some_iff.mp hstep
    obtain ⟨-, hq⟩ := ite_none_left_eq_some.mp hr
    cases hq
    exact h.takeMail _ _ rfl (nil_subset _)
  | deliver =>
    obtain ⟨_, hr, rfl⟩ := map_eq_some_iff.mp hstep
    unfold getPendingInput at hr
    split at hr
    · cases hr
      exact h.takeMail _ _ rfl (Subset.refl _)
    · split at hr
      · cases hr
        exact h.takeMail _ _ rfl (Subset.refl _)
      · obtain ⟨_, -, rfl⟩ := map_eq_some_iff.mp hr
        exact h.takeMail _ _ rfl (nil_subset _)
  | _ => exact hds nofun hstep

end TagInvariant

end

theorem tagInvariant_initial : TagInvariant .initial := by
  refine ⟨?_, ?_, ?_, ?_, ?_⟩ <;> simp [State.initial, InputQueue.new, untagged]

/-- In every run that keeps the marks, the tagged mail is the mail of the dispatches. -/
theorem guarded_tagged_iff_dispatched {s : State} (h : parentSession.Guarded KeepsMarks s)
    (mail : PendingMailboxCommunication) (hmail : mail ∈ s.queue.mailboxPendingMails)
    (generation : ℕ) :
    mail.provenance = .joinAggregate generation ↔
      mail.origin.map (·.generation) = some generation := by
  have hinv : TagInvariant s :=
    h.invariant TagInvariant tagInvariant_initial fun _ _ _ hs hok hstep ↦ hs.step hok hstep
  exact hinv.mail mail hmail generation

/-- A dispatched completion and an ordinary task, both triggering and both taken by the handler. -/
def completionAndTask : List Action :=
  dispatching 0 ⟨2⟩ ⟨0⟩ "/root/child" ++
    [.send ⟨"/root/other", "/root", .text "task", true⟩ { parentTurnId := some "B" }] ++
    enqueuing ++ enqueuing

theorem guarded_tagged_iff_dispatched_completionAndTask :
    ∃ s, parentSession.Guarded KeepsMarks s ∧
      s.queue.mailboxPendingMails.map (·.provenance) = [.joinAggregate 1, .ordinary] ∧
      ∀ mail ∈ s.queue.mailboxPendingMails, ∀ generation,
        mail.provenance = .joinAggregate generation ↔
          mail.origin.map (·.generation) = some generation := by
  obtain ⟨s, hgrd, hcheck⟩ := exists_guarded_of_runIf parentSession KeepsMarks
    completionAndTask (fun s ↦ s.queue.mailboxPendingMails.map (·.provenance) ==
      [.joinAggregate 1, .ordinary]) (by decide +kernel)
  rw [beq_iff_eq] at hcheck
  refine ⟨s, hgrd, hcheck, ?_⟩
  intro mail hmail generation
  exact guarded_tagged_iff_dispatched hgrd mail hmail generation

/-- A wait consumes the first join while its message is in the channel. The second join overwrites
the mark, so the first message gets the tag of the second. -/
def overwrittenMark : List Action :=
  dispatching 0 ⟨2⟩ ⟨0⟩ "/root/child" ++ [waiting] ++
    dispatching 1 ⟨3⟩ ⟨1⟩ "/root/second" ++ enqueuing ++ enqueuing

theorem reachable_tag_of_other_dispatch :
    ¬ ∀ s, parentSession.Reachable s → ∀ mail ∈ s.queue.mailboxPendingMails, ∀ generation,
      mail.provenance = .joinAggregate generation ↔
        mail.origin.map (·.generation) = some generation := by
  intro hclaim
  obtain ⟨s, hreachable, hcheck⟩ := exists_reachable_of_run parentSession overwrittenMark
    (fun s ↦ s.queue.mailboxPendingMails.any fun mail ↦
      mail.provenance == .joinAggregate 2 && mail.origin.map (·.generation) == some 1) (by decide +kernel)
  obtain ⟨mail, hmail, hboth⟩ := any_eq_true.mp hcheck
  simp only [and_eq_true, beq_iff_eq] at hboth
  have horig := (hclaim s hreachable mail hmail 2).mp hboth.1
  rw [hboth.2] at horig
  exact absurd horig (by decide +kernel)

end Slopdex.Join.Provenance
