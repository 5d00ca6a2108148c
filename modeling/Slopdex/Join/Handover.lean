import Slopdex.Join.Provenance
import Slopdex.Join.PendingMail
import Slopdex.Join.Readiness

/-!
# A completion reaches the parent once

A completion is in a dispatch, in the submission channel, in the handler or in the mailbox, or it
has been handed to the parent, and in one place at a time where marks are not mixed up and no wait
consumes an obligation whose completion is on its way. Otherwise a wait returns a completion that a
later turn gets as mail as well.
-/

namespace Slopdex.Join.Handover

open Protocol Library.FirstMatch Library.Transition Library.Transition.System Join.Store List
  Join.Evolution Join.WellFormed Join.Readiness Join.Mailbox Join.ParentSession Join.SessionStore
  Join.Provenance Join.PendingMail Join.Results List Option

variable {action : Action} {mail : PendingMailboxCommunication} {n : ℕ}

variable {s s' : State} {store : JoinObligationStore} {dispatch : Dispatch} {index : ℕ}
  {message : Message}

def isFrom (n : ℕ) (message : Message) : Bool := message.origin.any (·.index == n)

def unpushed : EnqueueStage → Bool
  | .received | .tagged _ => true
  | .pushed _ => false

def sending (dispatch : Dispatch) : Bool :=
  match dispatch.stage with
  | .entered => dispatch.completion.triggerTurn
  | .marked => true
  | .enqueuing stage => unpushed stage
  | .finishing | .done => false

/-- The message of completion `n` is between its dispatch and the mailbox. -/
def onTheWay (s : State) (n : ℕ) : ℕ :=
  (s.dispatches[n]?).toList.countP sending + s.channel.countP (isFrom n) +
    s.handler.toList.countP fun enqueue ↦ isFrom n enqueue.message && unpushed enqueue.stage

variable (dispatches : List Dispatch) (queue : InputQueue)

def mailed (n : ℕ) : ℕ :=
  queue.mailboxPendingMails.countP fun mail ↦ isFrom n mail.toMessage

/-- The message of completion `n` is on its way or in the mailbox. -/
def pending (s : State) (n : ℕ) : ℕ := onTheWay s n + mailed s.queue n

def occurrences (s : State) (n : ℕ) : ℕ :=
  onTheWay s n + mailed s.queue n + s.handed.count n

def Genuine (message : Message) : Prop :=
  ∀ origin ∈ message.origin, ∃ dispatch, dispatches[origin.index]? = some dispatch ∧
    message = dispatch.message origin.index

def messages (s : State) : List Message :=
  s.channel ++ s.handler.toList.map (·.message) ++ s.queue.mailboxPendingMails.map (·.toMessage)

/-- The latest completion of the generation went to the turn and was not handed over yet. -/
def Unhanded (s : State) (generation : ℕ) (turn : TurnId) : Prop :=
  ∃ n dispatch, s.latest generation = some n ∧ s.dispatches[n]? = some dispatch ∧
    dispatch.completion.generation = generation ∧ dispatch.completion.parentTurnId = turn ∧
      n ∉ s.handed

structure HandoverInvariant (s : State) : Prop where
  once : ∀ n, occurrences s n ≤ 1
  handed_lt : ∀ n ∈ s.handed, n < s.dispatches.length
  genuine : ∀ message ∈ messages s, Genuine s.dispatches message
  unhanded : ∀ o ∈ s.queue.joinObligations.obligations, o.ready = true →
    Unhanded s o.generation o.parentTurnId

structure Base (s : State) : Prop where
  tags : TagInvariant s
  sound : Sound s.queue.joinObligations
  distinct : Distinct s.queue.joinObligations
  named : Named s.queue.joinObligations

def Extends (dispatches' : List Dispatch) : Prop :=
  ∀ (i : ℕ) (d : Dispatch), dispatches[i]? = some d → ∃ d' : Dispatch,
    dispatches'[i]? = some d' ∧ d'.completion = d.completion ∧ d'.message i = d.message i

theorem Extends.refl : Extends dispatches dispatches :=
  fun _ d hd ↦ ⟨d, hd, rfl, rfl⟩

theorem extends_append (added : List Dispatch) : Extends dispatches (dispatches ++ added) := by
  intro i d hd
  refine ⟨d, ?_, rfl, rfl⟩
  obtain ⟨hlt, -⟩ := List.getElem?_eq_some_iff.mp hd
  rw [List.getElem?_append_left hlt]
  exact hd

theorem extends_setStage (hd : s.dispatches[index]? = some dispatch) (stage : DispatchStage) :
    Extends s.dispatches (s.setStage index dispatch stage).dispatches := by
  intro i d hi
  obtain ⟨hlt, -⟩ := List.getElem?_eq_some_iff.mp hi
  by_cases hid : index = i
  · subst hid
    obtain rfl := mem_unique hd hi
    exact ⟨{ dispatch with stage }, getElem?_set_self hlt, rfl, rfl⟩
  · exact ⟨d, by rw [State.setStage, getElem?_set_ne hid, hi], rfl, rfl⟩

theorem Extends.length_le {dispatches dispatches' : List Dispatch}
    (h : Extends dispatches dispatches') : dispatches.length ≤ dispatches'.length := by
  by_contra hlt
  rw [not_le] at hlt
  obtain ⟨_, hd', -⟩ := h _ _ (List.getElem?_eq_getElem hlt)
  obtain ⟨hlt', -⟩ := List.getElem?_eq_some_iff.mp hd'
  exact lt_irrefl _ hlt'

theorem Genuine.extends {dispatches dispatches' : List Dispatch} (h : Genuine dispatches message)
    (he : Extends dispatches dispatches') : Genuine dispatches' message := by
  intro origin ho
  obtain ⟨d, hd, hm⟩ := h origin ho
  obtain ⟨d', hd', -, hsa⟩ := he _ d hd
  exact ⟨d', hd', hm.trans hsa.symm⟩

theorem Unhanded.extends {gen : ℕ} {turn : TurnId} (h : Unhanded s gen turn)
    (he : Extends s.dispatches s'.dispatches) (hla : s'.latest gen = s.latest gen)
    (hh : ∀ n, s.latest gen = some n → n ∈ s'.handed → n ∈ s.handed) :
    Unhanded s' gen turn := by
  obtain ⟨n, d, hl, hd, hg, ht, hn⟩ := h
  obtain ⟨d', hd', hc, -⟩ := he n d hd
  exact ⟨n, d', hla.trans hl, hd', hc ▸ hg, hc ▸ ht,
    fun hm ↦ hn (hh n hl hm)⟩

theorem HandoverInvariant.occurrences_eq_zero (h : HandoverInvariant s)
    (hn : s.dispatches.length ≤ n) : occurrences s n = 0 := by
  have hms (message : Message) (hme : message ∈ messages s) : ¬ isFrom n message = true := by
    intro hf
    obtain ⟨origin, ho, hi⟩ := any_eq_true _ _ |>.mp hf
    obtain ⟨d, hd, -⟩ := h.genuine message hme origin ho
    obtain ⟨_, -⟩ := List.getElem?_eq_some_iff.mp hd
    rw [beq_iff_eq] at hi
    omega
  simp only [occurrences, onTheWay, mailed, Nat.add_eq_zero_iff, countP_eq_zero]
  refine ⟨⟨⟨⟨?_, ?_⟩, ?_⟩, ?_⟩, ?_⟩
  · simp [getElem?_eq_none hn]
  · intro m hm
    exact hms m (mem_append_left _ (mem_append_left _ hm))
  · intro enqueue he hb
    rw [Bool.and_eq_true] at hb
    exact hms enqueue.message (mem_append_left _ (mem_append_right _ (mem_map_of_mem he))) hb.1
  · intro mail hm
    exact hms mail.toMessage (mem_append_right _ (mem_map_of_mem hm))
  · refine count_eq_zero.mpr fun hme ↦ ?_
    have hlt := h.handed_lt n hme
    omega

theorem takeTrigger_mails (message : Message) :
    (takeTrigger queue message).1.mailboxPendingMails = queue.mailboxPendingMails := by
  unfold takeTrigger
  split
  · split
    · rfl
    · split <;> rfl
  · rfl

theorem finishEnqueue_mails (provenance : MailboxProvenance) :
    (finishEnqueue queue provenance).mailboxPendingMails = queue.mailboxPendingMails := by
  cases provenance <;> rfl

theorem mailed_advanceEnqueue (message : Message) (stage : EnqueueStage) (n : ℕ) :
    mailed (advanceEnqueue queue message stage).1 n +
        (advanceEnqueue queue message stage).2.toList.countP
          (fun stage ↦ isFrom n message && unpushed stage) =
      mailed queue n + if (isFrom n message && unpushed stage) = true then 1 else 0 := by
  cases stage with
  | received =>
    simp [mailed, advanceEnqueue, takeTrigger_mails, unpushed, countP_cons]
  | tagged =>
    simp [mailed, advanceEnqueue, pushMail, unpushed, countP_append, countP_cons]
  | pushed =>
    simp [mailed, advanceEnqueue, finishEnqueue_mails, unpushed]

theorem mem_advanceEnqueue_mails {queue : InputQueue} {stage : EnqueueStage}
    (h : mail ∈ (advanceEnqueue queue message stage).1.mailboxPendingMails) :
    mail ∈ queue.mailboxPendingMails ∨ mail.toMessage = message := by
  cases stage with
  | received =>
    simp only [advanceEnqueue, takeTrigger_mails] at h
    exact .inl h
  | tagged =>
    rcases mem_concat.mp h with hold | rfl
    · exact .inl hold
    · exact .inr rfl
  | pushed =>
    simp only [advanceEnqueue, finishEnqueue_mails] at h
    exact .inl h

theorem advanceEnqueue_readyBefore (message : Message) (stage : EnqueueStage) :
    ReadyBefore queue.joinObligations (advanceEnqueue queue message stage).1.joinObligations := by
  rw [advanceEnqueue_store]
  unfold enqueueOps
  split
  · exact readyBefore_of_amends (finishJoinDispatch_amends _ _)
  · exact .refl _

theorem countP_sending_setStage (hd : s.dispatches[index]? = some dispatch)
    (stage : DispatchStage) (n : ℕ) :
    ((s.setStage index dispatch stage).dispatches[n]?).toList.countP sending +
        (if index = n ∧ sending dispatch = true then 1 else 0) =
      (s.dispatches[n]?).toList.countP sending +
        if index = n ∧ sending { dispatch with stage } = true then 1 else 0 := by
  by_cases hi : index = n
  · subst hi
    obtain ⟨hlt, -⟩ := List.getElem?_eq_some_iff.mp hd
    simp [State.setStage, List.getElem?_set_self hlt, hd, countP_cons]
    omega
  · simp [State.setStage, getElem?_set_ne hi, hi]

theorem genuine_dispatch_message (hd : s.dispatches[index]? = some dispatch) :
    Genuine s.dispatches (dispatch.message index) := by
  intro _ ho
  rw [Dispatch.message, mem_some_iff] at ho
  subst ho
  exact ⟨dispatch, hd, rfl⟩

theorem mem_messages : message ∈ messages s ↔ message ∈ s.channel ∨
    (∃ enqueue ∈ s.handler, enqueue.message = message) ∨
      ∃ mail ∈ s.queue.mailboxPendingMails, mail.toMessage = message := by
  simp [messages]

section

variable (hd : s.dispatches[index]? = some dispatch)
include hd

theorem pending_setStage (stage : DispatchStage)
    (hdi : s'.dispatches = (s.setStage index dispatch stage).dispatches)
    (hc : s'.channel = s.channel) (hh : s'.handler = s.handler)
    (hm : s'.queue.mailboxPendingMails = s.queue.mailboxPendingMails) (n : ℕ) :
    pending s' n + (if index = n ∧ sending dispatch = true then 1 else 0) =
      pending s n + if index = n ∧ sending { dispatch with stage } = true then 1 else 0 := by
  have hse := countP_sending_setStage hd stage n
  simp only [pending, onTheWay, mailed, hdi, hc, hh, hm]
  omega

theorem pending_submit (hst : dispatch.stage = .marked) (n : ℕ) :
    pending { s.setStage index dispatch .finishing with
      channel := s.channel ++ [dispatch.message index] } n = pending s n := by
  have hse := countP_sending_setStage hd .finishing n
  have hn : sending dispatch = true := by
    rw [sending, hst]
  have ht : sending { dispatch with stage := .finishing } = false := rfl
  have hf : (isFrom n (dispatch.message index) = true) = (index = n) :=
    propext beq_iff_eq
  simp only [hn, ht, and_true, Bool.false_eq_true, and_false, if_false] at hse
  simp only [pending, onTheWay, mailed, countP_append, countP_singleton, hf]
  simp only [State.setStage] at hse ⊢
  omega

theorem pending_enqueue {stage : EnqueueStage} (hst : dispatch.stage = .enqueuing stage) (n : ℕ) :
    pending { s.setStage index dispatch
        (((advanceEnqueue s.queue (dispatch.message index) stage).2.map .enqueuing).getD
          .finishing) with
      queue := (advanceEnqueue s.queue (dispatch.message index) stage).1 } n = pending s n := by
  have hse := countP_sending_setStage hd
    (((advanceEnqueue s.queue (dispatch.message index) stage).2.map .enqueuing).getD .finishing) n
  have hm := mailed_advanceEnqueue s.queue (dispatch.message index) stage n
  have hf : isFrom n (dispatch.message index) = (index == n) := rfl
  have hno : sending dispatch = unpushed stage := by
    rw [sending, hst]
  simp only [pending, onTheWay, State.setStage] at hse ⊢
  rw [hf] at hm
  rw [hno] at hse
  cases hn : (advanceEnqueue s.queue (dispatch.message index) stage).2 with
  | none =>
    rw [hn] at hse hm
    simp [sending] at hse hm ⊢
    omega
  | some =>
    rw [hn] at hse hm
    by_cases hi : index = n
    · simp [sending, countP_cons, hi] at hse hm ⊢
      omega
    · simp [sending, hi] at hse hm ⊢
      omega

end

theorem pending_receive (hstep : s.receive = some s') (n : ℕ) : pending s' n = pending s n := by
  obtain ⟨_, _, hh, hc, rfl⟩ := receive_eq_some hstep
  simp only [pending, onTheWay, hh, hc, toList_some, toList_none,
    countP_cons, countP_nil, unpushed, Bool.and_true]
  omega

theorem pending_handle (hstep : s.handle = some s') (n : ℕ) : pending s' n = pending s n := by
  obtain ⟨enqueue, hh, rfl⟩ := handle_eq_some hstep
  have hm := mailed_advanceEnqueue s.queue enqueue.message enqueue.stage n
  simp only [pending, onTheWay, hh, toList_some, countP_singleton]
  cases hn : (advanceEnqueue s.queue enqueue.message enqueue.stage).2 with
  | none =>
    rw [hn] at hm
    simp only [toList_none, countP_nil, map_none] at hm ⊢
    omega
  | some =>
    rw [hn] at hm
    simp only [toList_some, countP_singleton, map_some] at hm ⊢
    omega

theorem mem_messages_submit {stage : DispatchStage}
    (hm : message ∈ messages { s.setStage index dispatch stage with
      channel := s.channel ++ [dispatch.message index] }) :
    message ∈ messages s ∨ message = dispatch.message index := by
  simp only [mem_messages, mem_concat] at hm
  rcases hm with (hold | ho) | hr
  · exact .inl (mem_messages.mpr (.inl hold))
  · exact .inr ho
  · exact .inl (mem_messages.mpr (.inr hr))

theorem mem_messages_enqueue {stage : EnqueueStage} {next : DispatchStage}
    (hme : message ∈ messages { s.setStage index dispatch next with
      queue := (advanceEnqueue s.queue (dispatch.message index) stage).1 }) :
    message ∈ messages s ∨ message = dispatch.message index := by
  rw [mem_messages] at hme
  rcases hme with hc | hh | ⟨mail, hm, rfl⟩
  · exact .inl (mem_messages.mpr (.inl hc))
  · exact .inl (mem_messages.mpr (.inr (.inl hh)))
  · rcases mem_advanceEnqueue_mails hm with hold | ho
    · exact .inl (mem_messages.mpr (.inr (.inr ⟨mail, hold, rfl⟩)))
    · exact .inr ho

theorem mem_messages_receive (hstep : s.receive = some s') (hme : message ∈ messages s') :
    message ∈ messages s := by
  obtain ⟨_, _, _, hc, rfl⟩ := receive_eq_some hstep
  simp only [mem_messages, mem_some_iff, exists_eq_left'] at hme
  refine mem_messages.mpr ?_
  rcases hme with hr | rfl | hm
  · exact .inl (hc ▸ mem_cons_of_mem _ hr)
  · exact .inl (hc ▸ mem_cons_self)
  · exact .inr (.inr hm)

theorem mem_messages_handle (hstep : s.handle = some s') (hme : message ∈ messages s') :
    message ∈ messages s := by
  obtain ⟨enqueue, hh, rfl⟩ := handle_eq_some hstep
  have ho : enqueue.message ∈ messages s :=
    mem_messages.mpr (.inr (.inl ⟨enqueue, hh, rfl⟩))
  simp only [mem_messages, Option.mem_map] at hme
  rcases hme with hc | ⟨_, ⟨_, -, rfl⟩, rfl⟩ | ⟨mail, hm, rfl⟩
  · exact mem_messages.mpr (.inl hc)
  · exact ho
  · rcases mem_advanceEnqueue_mails hm with hold | hsa
    · exact mem_messages.mpr (.inr (.inr ⟨mail, hold, rfl⟩))
    · exact hsa ▸ ho

theorem mem_messages_takeMail {queue : InputQueue} {handed : List ℕ}
    (hm : queue.mailboxPendingMails ⊆ s.queue.mailboxPendingMails)
    (hme : message ∈ messages { s with queue := queue, handed := handed }) :
    message ∈ messages s := by
  rw [mem_messages] at hme
  refine mem_messages.mpr ?_
  rcases hme with hc | hh | ⟨mail, hma, hms⟩
  · exact .inl hc
  · exact .inr (.inl hh)
  · exact .inr (.inr ⟨mail, hm hma, hms⟩)

/-! ## What a step does to the messages -/

def GivesUp (s : State) (index : ℕ) (dispatch : Dispatch) : Action → Prop
  | .abandon i | .loseParent i | .replaceParent i | .reject i => i = index
  | .overflow i => i = index ∧
    (dispatch.completion.parentTurnId, dispatch.completion.generation) ∈ s.capacityReadyLeases
  | _ => False

/-- A step that hands nothing over and emits nothing: it passes messages on and loses one only where
its dispatch gives it up. -/
structure PassesOn (s : State) (action : Action) (s' : State) : Prop where
  ext : Extends s.dispatches s'.dispatches
  latest : s'.latest = s.latest
  handed : s'.handed = s.handed
  origins : ∀ message ∈ messages s', message ∈ messages s ∨ Genuine s'.dispatches message
  ready : ReadyBefore s.queue.joinObligations s'.queue.joinObligations
  pending_le : ∀ n, pending s' n ≤ pending s n
  lost : ∀ n d, s.dispatches[n]? = some d → pending s' n < pending s n →
    GivesUp s n d action ∧ s'.queue.joinObligations = s.queue.joinObligations

theorem PassesOn.of_pending_eq (he : Extends s.dispatches s'.dispatches)
    (hl : s'.latest = s.latest) (hh : s'.handed = s.handed)
    (ho : ∀ message ∈ messages s', message ∈ messages s ∨ Genuine s'.dispatches message)
    (hr : ReadyBefore s.queue.joinObligations s'.queue.joinObligations)
    (hp : ∀ n, pending s' n = pending s n) : PassesOn s action s' :=
  ⟨he, hl, hh, ho, hr, fun n ↦ (hp n).le,
    fun n _ _ hlt ↦ absurd (hp n) hlt.ne⟩

theorem passesOn_withStore (hr : ReadyBefore s.queue.joinObligations store) :
    PassesOn s action (s.withStore store) :=
  .of_pending_eq (.refl _) rfl rfl (fun _ hm ↦ .inl hm) hr fun _ ↦ rfl

theorem passesOn_setStage (hd : s.dispatches[index]? = some dispatch) (stage : DispatchStage)
    (hse : sending { dispatch with stage } = true → sending dispatch = true)
    (hl : sending dispatch = true → sending { dispatch with stage } = false →
      GivesUp s index dispatch action ∧ s'.queue.joinObligations = s.queue.joinObligations)
    (hdi : s'.dispatches = (s.setStage index dispatch stage).dispatches)
    (hc : s'.channel = s.channel) (hhd : s'.handler = s.handler)
    (hla : s'.latest = s.latest) (hh : s'.handed = s.handed)
    (hm : s'.queue.mailboxPendingMails = s.queue.mailboxPendingMails)
    (hr : ReadyBefore s.queue.joinObligations s'.queue.joinObligations) :
    PassesOn s action s' := by
  have hset := pending_setStage hd stage hdi hc hhd hm
  refine ⟨hdi ▸ extends_setStage hd stage, hla, hh, ?_, hr, ?_, ?_⟩
  · intro _ hme
    rw [mem_messages, hc, hhd, hm, ← mem_messages] at hme
    exact .inl hme
  · intro n
    have hn := hset n
    split_ifs at hn with hno ht ht
    · omega
    · omega
    · exact absurd ⟨ht.1, hse ht.2⟩ hno
    · omega
  · intro n _ hf _
    have hn := hset n
    split_ifs at hn with hno ht ht
    · omega
    · obtain ⟨rfl, hsen⟩ := hno
      obtain rfl := mem_unique hd hf
      exact hl hsen (by simpa using ht)
    · omega
    · omega

theorem clearJoinTrigger_frame (turn : TurnId) (gen : ℕ) :
    (clearJoinTrigger queue turn gen).mailboxPendingMails = queue.mailboxPendingMails ∧
      (clearJoinTrigger queue turn gen).joinObligations = queue.joinObligations := by
  unfold clearJoinTrigger
  split <;> exact ⟨rfl, rfl⟩

theorem passesOn_of_dispatchStep (hd : s.dispatches[index]? = some dispatch)
    (hi : ∀ i, action = .abandon i ∨ action = .loseParent i ∨ action = .replaceParent i ∨
      action = .reject i ∨ action = .overflow i → i = index)
    (hstep : s.dispatchStep index dispatch action = some s') : PassesOn s action s' := by
  have hsa := ReadyBefore.refl s.queue.joinObligations
  cases action with
  | abandon i | loseParent i =>
    obtain ⟨-, rfl⟩ := ite_some_none_eq_some.mp hstep
    exact passesOn_setStage hd .done nofun (fun _ _ ↦ ⟨hi i (by simp), rfl⟩) rfl rfl rfl rfl rfl
      rfl hsa
  | replaceParent i | reject i =>
    obtain ⟨-, rfl⟩ := ite_some_none_eq_some.mp hstep
    obtain ⟨hm, hst⟩ := clearJoinTrigger_frame s.queue dispatch.completion.parentTurnId
      dispatch.completion.generation
    refine passesOn_setStage hd _ ?_ (fun _ _ ↦ ⟨hi i (by simp), hst⟩) rfl rfl rfl rfl rfl
      hm ?_
    · exact nofun
    · rw [hst]
      exact hsa
  | notify =>
    obtain ⟨⟨hstg, hw⟩, hs'⟩ := ite_none_right_eq_some.mp hstep
    cases hs'
    refine passesOn_setStage hd .done nofun ?_ rfl rfl rfl rfl rfl rfl
      (readyBefore_of_amends (finishJoinDispatch_amends _ _))
    intro hse
    rw [sending, hstg] at hse
    exact absurd hse (by simp [hw])
  | mark =>
    obtain ⟨⟨hstg, ht⟩, hs'⟩ := ite_none_right_eq_some.mp hstep
    cases hs'
    refine passesOn_setStage hd .marked ?_ nofun rfl rfl rfl rfl rfl rfl hsa
    intro _
    rw [sending, hstg]
    exact ht
  | submit =>
    obtain ⟨hstg, rfl⟩ := ite_some_none_eq_some.mp hstep
    refine .of_pending_eq (extends_setStage hd _) rfl rfl ?_ hsa (pending_submit hd hstg)
    intro _ hme
    rcases mem_messages_submit hme with hold | rfl
    · exact .inl hold
    · exact .inr ((genuine_dispatch_message hd).extends (extends_setStage hd _))
  | overflow i =>
    obtain ⟨hstg, hs'⟩ := ite_none_right_eq_some.mp hstep
    split at hs'
    next hl =>
      cases hs'
      exact passesOn_setStage hd .finishing nofun (fun _ _ ↦ ⟨⟨hi i (by simp), hl⟩, rfl⟩)
        rfl rfl rfl rfl rfl rfl hsa
    next =>
      cases hs'
      refine passesOn_setStage hd (.enqueuing .received) ?_ nofun rfl rfl rfl rfl rfl rfl hsa
      intro _
      rw [sending, hstg]
  | enqueue =>
    simp only [State.dispatchStep] at hstep
    split at hstep
    next hstg =>
      cases hstep
      refine .of_pending_eq (extends_setStage hd _) rfl rfl ?_ (advanceEnqueue_readyBefore _ _ _)
        (pending_enqueue hd hstg)
      intro _ hme
      rcases mem_messages_enqueue hme with hold | rfl
      · exact .inl hold
      · exact .inr ((genuine_dispatch_message hd).extends (extends_setStage hd _))
    next => cases hstep
  | finish =>
    obtain ⟨hstg, rfl⟩ := ite_some_none_eq_some.mp hstep
    refine passesOn_setStage hd .done nofun ?_ rfl rfl rfl rfl rfl rfl
      (readyBefore_of_amends (finishJoinDispatch_amends _ _))
    intro hse
    rw [sending, hstg] at hse
    cases hse
  | _ => cases hstep

/-- What a step does to the messages. -/
inductive Flow (s : State) (action : Action) : State → Prop
  | passes {s' : State} (h : PassesOn s action s') : Flow s action s'
  | emits {store : JoinObligationStore} {completion : JoinCompletion} {o emitted : JoinObligation}
      (hemits : Emits s.queue.joinObligations store completion o emitted)
      (hready : ∀ o' ∈ store.obligations, o'.ready = true → o' = emitted ∨
        o'.generation ≠ completion.generation ∧ ∃ old ∈ s.queue.joinObligations.obligations,
          old.ready = true ∧ owner o' = owner old) (parentPath childPath : String) :
      Flow s action ((s.withStore store).emit completion parentPath childPath)
  | waits (thread : ThreadId) (turn : TurnId) (targetIds : List ThreadId)
      (current : TargetBindings) (haction : action = .wait thread turn targetIds current) :
      Flow s action (s.wait thread turn targetIds current)
  | ends (thread : ThreadId) (turn : TurnId) (state : TurnStateRef) (status : AgentStatus) :
      Flow s action
        { s with queue := recordNestedJoinTurnTerminal s.queue thread turn state status }
  | takes (successor : Option TurnId) (state : Option TurnStateRef) :
      Flow s action (takeMailbox s successor state)

theorem flow_resolve (hb : Base s) (thread : ThreadId) (gen : ℕ) (child : ThreadId)
    (inc : Incarnation) (turn : TurnId) (status : AgentStatus) (retain : Bool)
    (parentPath childPath : String) :
    Flow s action (s.resolve thread gen child inc turn status retain parentPath
      childPath) := by
  have hdi := hb.distinct.updates (resolveJoinTargetInner_updates s.queue.joinObligations
    thread gen child inc turn status retain)
  have hbe {o' : JoinObligation} (ho' : o' ∈ (resolveJoinTargetInner s.queue.joinObligations
      thread gen child inc turn status retain).1.obligations)
      (hr : o'.ready = true) :=
    resolveJoinTargetInner_readyBefore hb.sound ho' hr
  simp only [State.resolve]
  split
  next hsi =>
    refine .passes (passesOn_withStore fun o' ho' hr ↦ ?_)
    rcases hbe ho' hr with hold | ⟨_, hc, -⟩
    · exact hold
    · rw [hsi] at hc
      cases hc
  next completion hc =>
    obtain ⟨_, _, hemits⟩ := resolveJoinTargetInner_emits hc
    refine .emits hemits ?_ parentPath childPath
    intro o' ho' hr
    by_cases hg : o'.generation = completion.generation
    · exact .inl (hdi.eq_of_generation_eq ho' hemits.mem' (hg.trans hemits.carries.1))
    · rcases hbe ho' hr with hold | ⟨_, ho, heq⟩
      · exact .inr ⟨hg, hold⟩
      · rw [hc, some.injEq] at ho
        exact absurd (ho ▸ heq.symm) hg

theorem flow_of_step (hb : Base s) (hstep : s.step action = some s') : Flow s action s' := by
  cases action with
  | register =>
    cases hstep
    exact .passes (passesOn_withStore (registerObligation_readyBefore _ _ _ _ _))
  | resolve =>
    cases hstep
    exact flow_resolve hb _ _ _ _ _ _ _ _ _
  | rebind =>
    cases hstep
    exact .passes (passesOn_withStore
      (readyBefore_of_amends (rebindJoinTargetToSuccessor_amends _ _ _ _ _ _ _)))
  | retire =>
    cases hstep
    exact .passes (passesOn_withStore
      (readyBefore_of_amends (retireJoinTargetSuccessorRetention_amends _ _ _ _ _ _)))
  | finishContinuation | finishRootContinuations =>
    cases hstep
    exact .passes (passesOn_withStore (readyBefore_of_subset fun _ ho ↦ ho))
  | releaseLease =>
    cases hstep
    exact .passes (.of_pending_eq (.refl _) rfl rfl (fun _ hme ↦ .inl hme) (.refl _) fun _ ↦ rfl)
  | send =>
    cases hstep
    refine .passes (.of_pending_eq (.refl _) rfl rfl ?_ (.refl _) ?_)
    · intro _ hme
      simp only [mem_messages, mem_concat] at hme
      rcases hme with (hold | rfl) | hr
      · exact .inl (mem_messages.mpr (.inl hold))
      · exact .inr fun origin hor ↦ by cases hor
      · exact .inl (mem_messages.mpr (.inr hr))
    · intro n
      simp [pending, onTheWay, mailed, countP_append, isFrom]
  | receive =>
    have hp := pending_receive hstep
    have hm {message : Message} (hme : message ∈ messages s') : message ∈ messages s :=
      mem_messages_receive hstep hme
    obtain ⟨_, _, -, -, rfl⟩ := receive_eq_some hstep
    exact .passes (.of_pending_eq (.refl _) rfl rfl (fun _ hme ↦ .inl (hm hme)) (.refl _)
      hp)
  | handle =>
    have hp := pending_handle hstep
    have hm {message : Message} (hme : message ∈ messages s') : message ∈ messages s :=
      mem_messages_handle hstep hme
    obtain ⟨_, -, rfl⟩ := handle_eq_some hstep
    exact .passes (.of_pending_eq (.refl _) rfl rfl (fun _ hme ↦ .inl (hm hme))
      (advanceEnqueue_readyBefore _ _ _) hp)
  | wait =>
    cases hstep
    exact .waits _ _ _ _ rfl
  | terminal =>
    cases hstep
    exact .ends _ _ _ _
  | startup =>
    rw [startup_eq_some hstep]
    exact .takes _ _
  | deliver =>
    rcases deliver_eq_some hstep with ⟨rfl, -⟩ | ⟨-, -, rfl⟩
    · exact .passes (passesOn_withStore (.refl _))
    · exact .takes _ _
  | _ =>
    obtain ⟨d, hd, hmo⟩ := bind_eq_some_iff.mp hstep
    exact .passes (passesOn_of_dispatchStep hd (by simp) hmo)

/-! ## Consumers -/

theorem HandoverInvariant.passesOn (h : HandoverInvariant s) (hp : PassesOn s action s') :
    HandoverInvariant s' where
  once n := by
    have hle : occurrences s' n ≤ occurrences s n := by
      simp only [occurrences, hp.handed]
      exact Nat.add_le_add_right (hp.pending_le n) _
    exact hle.trans (h.once n)
  handed_lt n hn := (h.handed_lt n (hp.handed ▸ hn)).trans_le hp.ext.length_le
  genuine message hm := by
    rcases hp.origins message hm with hold | hne
    · exact (h.genuine message hold).extends hp.ext
    · exact hne
  unhanded o' ho' hr' := by
    obtain ⟨o, ho, hb, how⟩ := hp.ready o' ho' hr'
    have hg : o'.generation = o.generation := congrArg (·.1.generation) how
    have ht : o'.parentTurnId = o.parentTurnId := congrArg (·.2.2.1) how
    rw [hg, ht]
    refine (h.unhanded o ho hb).extends hp.ext (congrFun hp.latest _) ?_
    intro n _ hm
    exact hp.handed ▸ hm

theorem mailed_purgeMail_le (gens : List ℕ) (n : ℕ) :
    mailed (purgeMail queue gens) n ≤ mailed queue n :=
  (filter_sublist).countP_le

/-- A step that removes mail without handing anything over. -/
theorem HandoverInvariant.purge (h : HandoverInvariant s) (gens : List ℕ)
    (hr : ReadyBefore s.queue.joinObligations store) :
    HandoverInvariant { s with
      queue := purgeMail { s.queue with joinObligations := store } gens } := by
  refine ⟨?_, h.handed_lt, ?_, ?_⟩
  · intro n
    have hle := mailed_purgeMail_le { s.queue with joinObligations := store } gens n
    have honce := h.once n
    simp only [occurrences, onTheWay, mailed] at hle honce ⊢
    omega
  · intro message hm
    exact h.genuine message (mem_messages_takeMail filter_sublist.subset hm)
  · exact (h.passesOn (passesOn_withStore hr : PassesOn s .receive _)).unhanded

theorem mail_eq_message (hg : ∀ message ∈ messages s, Genuine s.dispatches message)
    (hd : s.dispatches[n]? = some dispatch)
    (hm : mail ∈ s.queue.mailboxPendingMails) (hf : isFrom n mail.toMessage = true) :
    mail.toMessage = dispatch.message n := by
  obtain ⟨origin, ho, hi⟩ := any_eq_true _ _ |>.mp hf
  rw [beq_iff_eq] at hi
  obtain ⟨d, hd', hms⟩ :=
    hg mail.toMessage (mem_messages.mpr (.inr (.inr ⟨mail, hm, rfl⟩))) origin ho
  rw [hi, hd, some.injEq] at hd'
  rw [hms, hd', hi]

theorem provenance_of_eq_message (ht : TagMatches mail.provenance mail.toMessage)
    (hm : mail.toMessage = dispatch.message n) :
    mail.provenance = .joinAggregate dispatch.completion.generation := by
  rw [ht, hm]
  rfl

theorem HandoverInvariant.mailed_purge_eq_zero (h : HandoverInvariant s) (ht : TagInvariant s)
    (hd : s.dispatches[n]? = some dispatch) (store : JoinObligationStore) :
    mailed (purgeMail { s.queue with joinObligations := store }
      [dispatch.completion.generation]) n = 0 := by
  unfold mailed
  rw [countP_eq_zero]
  intro mail hm hf
  obtain ⟨hme, hk⟩ := mem_filter.mp hm
  have hta := provenance_of_eq_message (ht.mail mail hme)
    (mail_eq_message h.genuine hd hme hf)
  simp [PendingMailboxCommunication.isAggregateOf, hta] at hk

theorem mem_mailboxJoinProvenance (ht : TagInvariant s)
    (hg : ∀ message ∈ messages s, Genuine s.dispatches message)
    (hd : s.dispatches[n]? = some dispatch)
    (hm : mail ∈ s.queue.mailboxPendingMails) (hf : isFrom n mail.toMessage = true)
    (hn : isBlank dispatch.completion.parentTurnId = false) :
    (dispatch.completion.parentTurnId, dispatch.completion.generation) ∈
      mailboxJoinProvenance s.queue.mailboxPendingMails := by
  have hms := mail_eq_message hg hd hm hf
  have hta := provenance_of_eq_message (ht.mail mail hm) hms
  have htr : mail.communication.triggerTurn = true := by
    rw [hms]
    rfl
  have hp : mail.startOptions.parentTurnId = some dispatch.completion.parentTurnId := by
    rw [hms]
    rfl
  exact mem_filterMap.mpr ⟨mail, hm, joinProvenance_of_tagged htr hp hn hta⟩

theorem HandoverInvariant.wait (h : HandoverInvariant s) (hb : Base s) {thread : ThreadId}
    {turn : TurnId} {targetIds : List ThreadId} {cur : TargetBindings}
    (hok : ∀ o ∈ waitCandidate s.queue.joinObligations thread turn targetIds cur,
      ∀ n ∈ s.latest o.generation, onTheWay s n = 0) :
    HandoverInvariant (s.wait thread turn targetIds cur) := by
  rcases hb.sound.consume_cases thread turn targetIds cur with
    ⟨-, hn⟩ | ⟨o, ho, hc, ht, hr, hco⟩
  · simp only [State.wait, consumeForTargets, hn, bind_none, toList_none, append_nil]
    exact h.purge _ (.refl _)
  · obtain ⟨n, d, hl, hd, hg, -, hno⟩ := h.unhanded o ho hr
    have ha := hok o hc n hl
    simp only [State.wait, consumeForTargets, hco, bind_some, hl, toList_some, map_some]
    generalize hac : (acknowledgeReadyJoinDelivery s.queue.joinObligations turn o.generation turn
      none).1 = store
    have hz := hg ▸ h.mailed_purge_eq_zero hb.tags hd store
    refine ⟨?_, ?_, ?_, ?_⟩
    · intro m
      have hcn : s.handed.count n = 0 := count_eq_zero.mpr hno
      have hle := mailed_purgeMail_le { s.queue with joinObligations := store } [o.generation] m
      have honce := h.once m
      simp only [occurrences, count_append, count_singleton, beq_iff_eq] at honce ⊢
      by_cases hm : n = m
      · subst hm
        rw [if_pos rfl, hz]
        simp only [onTheWay] at ha ⊢
        omega
      · rw [if_neg hm]
        simp only [onTheWay, mailed] at honce hle ⊢
        omega
    · intro m hm
      rcases mem_concat.mp hm with hold | rfl
      · exact h.handed_lt m hold
      · exact (List.getElem?_eq_some_iff.mp hd).1
    · exact (h.purge [o.generation] (.refl _)).genuine
    · intro o' ho' hr'
      rw [← hac] at ho'
      obtain ⟨hold, hot⟩ := ready_acknowledge hb.distinct ho' hr'
      obtain ⟨n', d', hl', hd', hg', ht', hn'⟩ := h.unhanded o' hold hr'
      refine ⟨n', d', hl', hd', hg', ht', ?_⟩
      intro hme
      rcases mem_concat.mp hme with hme | rfl
      · exact hn' hme
      · rw [hd, some.injEq] at hd'
        have hsa := hb.distinct.eq_of_generation_eq hold ho (by rw [← hg', ← hd', hg])
        rw [hsa] at hot
        exact hot ⟨rfl, ht⟩

theorem ready_acknowledgements (hdi : Distinct store) {succ : Option TurnId}
    {state : Option TurnStateRef} {joins : List (TurnId × ℕ)} {o' : JoinObligation}
    (ho' : o' ∈ (applyAll store (acknowledgements succ state joins)).obligations)
    (hrd : o'.ready = true) :
    o' ∈ store.obligations ∧ (o'.parentTurnId, o'.generation) ∉ joins := by
  induction joins generalizing store with
  | nil => exact ⟨ho', not_mem_nil⟩
  | cons join _ ih =>
    have hn := hdi.acknowledge join.1 join.2 (succ.getD join.1) state
    obtain ⟨hm, hr⟩ := ih hn ho'
    obtain ⟨hold, ho⟩ := ready_acknowledge hdi hm hrd
    refine ⟨hold, ?_⟩
    intro hin
    rcases mem_cons.mp hin with hf | hl
    · rw [← hf] at ho
      exact ho ⟨rfl, rfl⟩
    · exact hr hl

theorem count_carried (mails : List PendingMailboxCommunication) (n : ℕ) :
    (State.carried mails).count n = mails.countP fun mail ↦ isFrom n mail.toMessage := by
  unfold State.carried
  induction mails with
  | nil => rfl
  | cons mail _ ih =>
    rw [countP_cons, ← ih]
    cases ho : mail.origin with
    | none => simp [isFrom, ho]
    | some => simp [isFrom, ho, count_cons]

theorem mem_carried {mails : List PendingMailboxCommunication}
    (h : n ∈ State.carried mails) : ∃ mail ∈ mails, isFrom n mail.toMessage = true := by
  have hp := count_pos_iff.mpr h
  rw [count_carried] at hp
  exact countP_pos_iff.mp hp

/-- A startup or a delivery hands over the completions of the mail and acknowledges each of them. -/
theorem HandoverInvariant.takeMailbox (h : HandoverInvariant s) (hb : Base s)
    (succ : Option TurnId) (state : Option TurnStateRef) :
    HandoverInvariant (takeMailbox s succ state) := by
  unfold SessionStore.takeMailbox
  refine ⟨?_, ?_, ?_, ?_⟩
  · intro n
    have honce := h.once n
    simp only [occurrences, onTheWay, mailed, count_append, count_carried, countP_nil] at honce ⊢
    omega
  · intro n hn
    rcases mem_append.mp hn with hold | hne
    · exact h.handed_lt n hold
    · obtain ⟨mail, hm, hf⟩ := mem_carried hne
      obtain ⟨origin, ho, hi⟩ := any_eq_true _ _ |>.mp hf
      obtain ⟨d, hd, -⟩ := h.genuine mail.toMessage
        (mem_messages.mpr (.inr (.inr ⟨mail, hm, rfl⟩))) origin ho
      rw [← beq_iff_eq.mp hi]
      exact (List.getElem?_eq_some_iff.mp hd).1
  · intro message hme
    exact h.genuine message (mem_messages_takeMail (nil_subset _) hme)
  · intro o' ho' hr
    obtain ⟨hold, hno⟩ := ready_acknowledgements hb.distinct ho' hr
    obtain ⟨n, d, hl, hd, hg, ht, hnot⟩ := h.unhanded o' hold hr
    refine ⟨n, d, hl, hd, hg, ht, ?_⟩
    intro hme
    rcases mem_append.mp hme with hme | hme
    · exact hnot hme
    · -- Its mail would have been acknowledged together with the obligation.
      obtain ⟨_, hm, hf⟩ := mem_carried hme
      have hj := mem_mailboxJoinProvenance hb.tags h.genuine hd hm hf
        (ht ▸ hb.named o' hold)
      rw [ht, hg] at hj
      exact hno hj

theorem HandoverInvariant.emit (h : HandoverInvariant s) {completion : JoinCompletion}
    {o emitted : JoinObligation}
    (hemits : Emits s.queue.joinObligations store completion o emitted)
    (hr : ∀ o' ∈ store.obligations, o'.ready = true → o' = emitted ∨
      o'.generation ≠ completion.generation ∧ ∃ old ∈ s.queue.joinObligations.obligations,
        old.ready = true ∧ owner o' = owner old) (parentPath childPath : String) :
    HandoverInvariant ((s.withStore store).emit completion parentPath childPath) := by
  have he := extends_append s.dispatches [⟨parentPath, childPath, completion, .entered⟩]
  refine ⟨?_, ?_, ?_, ?_⟩
  · intro n
    have honce := h.once n
    rcases lt_trichotomy n s.dispatches.length with hlt | heq | hgt
    · simp only [occurrences, onTheWay, State.emit, State.withStore,
        getElem?_append_left hlt] at honce ⊢
      exact honce
    · have hz := h.occurrences_eq_zero heq.ge
      have hle := countP_le_length (p := sending)
        (l := [⟨parentPath, childPath, completion, .entered⟩])
      simp only [occurrences, onTheWay, State.emit, State.withStore, heq,
        getElem?_concat_length, toList_some, length_singleton] at hz hle ⊢
      simp only [mailed] at hz ⊢
      omega
    · have hz := h.occurrences_eq_zero hgt.le
      have hno : (s.dispatches ++ [⟨parentPath, childPath, completion, .entered⟩])[n]? =
          none := by
        rw [getElem?_eq_none_iff, length_append, length_singleton]
        omega
      simp only [occurrences, onTheWay, State.emit, State.withStore, hno, toList_none,
        countP_nil] at hz ⊢
      simp only [mailed] at hz ⊢
      omega
  · intro n hn
    exact (h.handed_lt n hn).trans_le he.length_le
  · intro message hm
    exact (h.genuine message hm).extends he
  · intro o' ho' hr'
    rcases hr o' ho' hr' with rfl | ⟨hg, old, hold, hb, ho⟩
    · rw [← hemits.carries.1]
      refine ⟨s.dispatches.length, _, Function.update_self _ _ _, getElem?_concat_length,
        rfl, hemits.carries.2.1, ?_⟩
      intro hm
      exact lt_irrefl _ (h.handed_lt _ hm)
    · have hge : o'.generation = old.generation := congrArg (·.1.generation) ho
      have ht : o'.parentTurnId = old.parentTurnId := congrArg (·.2.2.1) ho
      rw [ht, hge]
      rw [hge] at hg
      exact (h.unhanded old hold hb).extends he (Function.update_of_ne hg _ _)
        fun _ _ hm ↦ hm

def WaitsForArrival (s : State) : Action → Prop
  | .wait thread turn targetIds current =>
    ∀ o ∈ waitCandidate s.queue.joinObligations thread turn targetIds current,
      ∀ n ∈ s.latest o.generation, onTheWay s n = 0
  | _ => True

instance (s : State) (action : Action) : Decidable (WaitsForArrival s action) := by
  induction action using ParentSession.Action.casesOn <;> dsimp only [WaitsForArrival] <;>
    infer_instance

/-- Marks are not mixed up, turns are named, generations are fresh and waits come last. -/
def HandsOverOnce (s : State) (action : Action) : Prop :=
  KeepsMarks s action ∧ WaitsForArrival s action ∧
    AllOps (fun store op ↦ NamesTurns op ∧
      (store.creates op = true → store.nextGeneration < u64Max)) s.queue.joinObligations
      (storeOps s action)

instance (s : State) (action : Action) : Decidable (HandsOverOnce s action) := by
  unfold HandsOverOnce
  infer_instance

theorem Base.step (h : Base s) (hok : HandsOverOnce s action)
    (hstep : s.step action = some s') : Base s' := by
  have hst : Sound s'.queue.joinObligations ∧ Distinct s'.queue.joinObligations ∧
      Named s'.queue.joinObligations := by
    rw [step_joinObligations hstep]
    refine hok.2.2.applyAll (fun store ↦ Sound store ∧ Distinct store ∧ Named store) ?_
      ⟨h.sound, h.distinct, h.named⟩
    intro _ op hst hop
    exact ⟨hst.1.apply op, hst.2.1.apply op fun _ _ _ _ _ ↦ hop.2,
      hst.2.2.apply hst.1 op hop.1⟩
  exact ⟨h.tags.step hok.1 hstep, hst.1, hst.2.1, hst.2.2⟩

theorem HandoverInvariant.step (h : HandoverInvariant s) (hb : Base s)
    (hok : WaitsForArrival s action) (hstep : s.step action = some s') : HandoverInvariant s' := by
  cases flow_of_step hb hstep with
  | passes hp => exact h.passesOn hp
  | emits hemits hr parentPath childPath => exact h.emit hemits hr parentPath childPath
  | waits _ _ _ _ haction =>
    rw [haction] at hok
    exact h.wait hb hok
  | ends =>
    simp only [recordNestedJoinTurnTerminal]
    split
    · exact h.purge _ (recordTurnTerminal_readyBefore _ _ _ _ _)
    · exact h
  | takes succ state => exact h.takeMailbox hb succ state

theorem base_initial : Base State.initial where
  tags := tagInvariant_initial
  sound := forall_mem_nil _
  distinct := ⟨nodup_nil, forall_mem_nil _⟩
  named := forall_mem_nil _

theorem handoverInvariant_initial : HandoverInvariant State.initial where
  once _ := Nat.zero_le 1
  handed_lt := forall_mem_nil _
  genuine := forall_mem_nil _
  unhanded := forall_mem_nil _

/-- Every completion is handed to the parent at most once, by a wait or as mail. -/
theorem guarded_handed_nodup (s : State) (hs : parentSession.Guarded HandsOverOnce s) :
    s.handed.Nodup := by
  have hinv : Base s ∧ HandoverInvariant s :=
    hs.invariant (fun s ↦ Base s ∧ HandoverInvariant s) ⟨base_initial, handoverInvariant_initial⟩
      fun _ _ _ h hok hstep ↦ ⟨h.1.step hok hstep, h.2.step h.1 hok.2.1 hstep⟩
  rw [nodup_iff_count_le_one]
  intro n
  have honce := hinv.2.once n
  unfold occurrences at honce
  omega

/-- A wait returns the first completion, whose mail has arrived; the second goes to turn B as mail. -/
def returnedAndDelivered : List Action :=
  dispatching 0 ⟨2⟩ ⟨0⟩ "/root/child" ++ enqueuing ++ [waiting] ++
    dispatching 1 ⟨3⟩ ⟨1⟩ "/root/second" ++ enqueuing ++ [.startup "B" ⟨5⟩]

theorem guarded_handed_nodup_returnedAndDelivered :
    ∃ s, parentSession.Guarded HandsOverOnce s ∧ s.handed = [0, 1] ∧ s.handed.Nodup := by
  obtain ⟨s, hs, hcheck⟩ := exists_guarded_of_runIf parentSession HandsOverOnce
    returnedAndDelivered (fun s ↦ s.handed == [0, 1]) (by decide +kernel)
  exact ⟨s, hs, beq_iff_eq.mp hcheck, guarded_handed_nodup s hs⟩

/-- A wait returns a completion that is still in the channel; turn B gets it again as mail. -/
def returnedTooEarly : List Action :=
  dispatching 0 ⟨2⟩ ⟨0⟩ "/root/child" ++ [waiting] ++ enqueuing ++ [.startup "B" ⟨5⟩]

theorem reachable_handed_twice : ¬ ∀ s, parentSession.Reachable s → s.handed.Nodup := by
  intro hclaim
  obtain ⟨s, hs, hcheck⟩ := exists_reachable_of_run parentSession returnedTooEarly
    (fun s ↦ s.handed == [0, 0]) (by decide +kernel)
  have hnodup := hclaim s hs
  rw [beq_iff_eq.mp hcheck] at hnodup
  exact absurd hnodup (by decide)

end Slopdex.Join.Handover
