import Slopdex.Join.Handover

/-!
# What becomes of the mail in a mailbox

A mailbox under all interleavings of enqueues, startup commits, active deliveries and targetful
waits, while the rest of the program may do anything to the store and to the marks. Ordinary mail is
handed over in the order of its arrival, and only the mail of a consumed completion is removed
without being handed over.
-/

namespace Slopdex.Join.MailFlow

open scoped List
open Protocol Library.FirstMatch Library.KeyedMap Library.Transition Library.Transition.System
open Option Bool Prod
  Join.Store Join.Mailbox Join.ParentSession Join.Evolution Join.SessionStore Join.PendingMail
  Join.Handover PendingMailboxCommunication

variable {items : List TurnInput} {join : TurnId × ℕ} {joins : List (TurnId × ℕ)}
  {queue : InputQueue}

/-! ## A validated delivery is acknowledged as a whole -/

section Acknowledgement

variable {store : JoinObligationStore}

def Acknowledgeable (store : JoinObligationStore) (join : TurnId × ℕ) : Prop :=
  ∃ o, store.obligations.find? (·.awaitsDelivery join.2 join.1) = some o ∧
    (o.inRetainedDeliveryFor join.1 = true ∨ o.token.consumed = false)

theorem acknowledgeable_of_validJoin {succ : Option TurnId}
    (h : validJoin store succ join.1 join.2 = true) : Acknowledgeable store join := by
  unfold validJoin at h
  split at h
  next o hf =>
    refine ⟨o, ?_, ?_⟩
    · rw [← List.head?_filter, hf, List.head?_cons]
    · rw [and_eq_true, and_eq_true, or_eq_true, not_eq_true'] at h
      exact h.1.2
  next => cases h

theorem isSome_acknowledge (h : Acknowledgeable store join)
    (succ : TurnId) (state : Option TurnStateRef) :
    (acknowledgeReadyJoinDelivery store join.1 join.2 succ state).2.isSome = true := by
  obtain ⟨o, hfn, hf⟩ := h
  have hw := List.find?_some hfn
  have hg : o.token.generation = join.2 := generation_of_awaitsDelivery hw
  unfold acknowledgeReadyJoinDelivery
  rw [hfn]
  dsimp only
  split
  next => rfl
  next hr =>
    have hc : o.token.consumeIfCurrent join.2 = true := by
      simp [OwnedObligation.consumeIfCurrent, hg, hf.resolve_left hr]
    rw [hc]
    simp only [Bool.not_true, Bool.false_eq_true, if_false]
    split <;> rfl

theorem filter_awaitsDelivery_acknowledge {other : TurnId × ℕ} (hne : other.2 ≠ join.2)
    (succ : TurnId) (state : Option TurnStateRef) :
    (acknowledgeReadyJoinDelivery store join.1 join.2 succ state).1.obligations.filter
        (·.awaitsDelivery other.2 other.1) =
      store.obligations.filter (·.awaitsDelivery other.2 other.1) := by
  cases hf : store.obligations.find? (·.awaitsDelivery join.2 join.1) with
  | none => rw [acknowledgeReadyJoinDelivery_of_find?_none hf]
  | some o =>
    have hw := List.find?_some hf
    have hg : o.generation = join.2 := generation_of_awaitsDelivery hw
    have ho : ∀ o' : JoinObligation, o'.generation = join.2 →
        o'.awaitsDelivery other.2 other.1 = false := by
      intro _ ho'
      rw [JoinObligation.awaitsDelivery, ho', beq_false_of_ne (Ne.symm hne), Bool.false_and]
    obtain ⟨before, after, hsp, -, hu, he⟩ :=
      split_of_find? (f := (·.handOver succ)) hf
    rcases acknowledgeReadyJoinDelivery_of_find? hf succ state with hands | finishes
    · rw [hands.result, hu, hsp]
      simp [ho o hg, ho (o.handOver succ) hg]
    · rw [finishes.obligations, he, hsp]
      simp [ho o hg]

theorem Acknowledgeable.acknowledge {other : TurnId × ℕ} (h : Acknowledgeable store other)
    (hne : other.2 ≠ join.2) (succ : TurnId) (state : Option TurnStateRef) :
    Acknowledgeable (acknowledgeReadyJoinDelivery store join.1 join.2 succ state).1 other := by
  obtain ⟨o, hfn, hf⟩ := h
  refine ⟨o, ?_, hf⟩
  rw [← List.head?_filter, filter_awaitsDelivery_acknowledge hne, List.head?_filter, hfn]

theorem isSome_acknowledgeAll (hn : (joins.map snd).Nodup)
    (h : ∀ join ∈ joins, Acknowledgeable store join) (succ : Option TurnId)
    (state : Option TurnStateRef) : (acknowledgeAll succ state store joins).isSome = true := by
  induction joins generalizing store with
  | nil => rfl
  | cons join rest ih =>
    rw [List.map_cons, List.nodup_cons] at hn
    have hf := isSome_acknowledge (h join List.mem_cons_self) (succ.getD join.1) state
    have hr : ∀ other ∈ rest, Acknowledgeable (acknowledgeReadyJoinDelivery store join.1 join.2
        (succ.getD join.1) state).1 other := by
      intro other hm
      refine (h other (List.mem_cons_of_mem join hm)).acknowledge ?_ _ state
      intro heq
      exact hn.1 (heq ▸ List.mem_map_of_mem hm)
    rw [acknowledgeAll]
    split
    next ha =>
      rw [ha] at hr
      exact ih hn.2 hr
    next ha =>
      rw [ha] at hf
      cases hf

theorem nodup_of_validateJoins {succ : Option TurnId}
    {seen : Finset ℕ} (h : validateJoins store succ seen joins = true) :
    (joins.map snd).Nodup ∧ ∀ join ∈ joins, join.2 ∉ seen := by
  induction joins generalizing seen with
  | nil => simp
  | cons _ _ ih =>
    rw [validateJoins, and_eq_true, and_eq_true, decide_eq_true_eq] at h
    obtain ⟨hn, hse⟩ := ih h.2
    constructor
    · rw [List.map_cons, List.nodup_cons]
      refine ⟨?_, hn⟩
      intro hm
      obtain ⟨other, ho, heq⟩ := List.mem_map.mp hm
      exact hse other ho (heq ▸ Finset.mem_insert_self _ _)
    · intro other ho
      rcases List.mem_cons.mp ho with rfl | ho
      · exact h.1.1
      · exact fun hm ↦ hse other ho (Finset.mem_insert_of_mem hm)

theorem validateJoins_of_validated {mails : List PendingMailboxCommunication} {succ : Option TurnId}
    (h : validatedMailboxJoinProvenance mails store succ = some joins) :
    validateJoins store succ ∅ joins = true := by
  unfold validatedMailboxJoinProvenance at h
  obtain ⟨⟨-, hv⟩, heq⟩ := ite_none_right_eq_some.mp h
  rw [some.injEq] at heq
  rwa [heq] at hv

theorem isSome_acknowledgeAll_of_validated {mails : List PendingMailboxCommunication}
    {succ : Option TurnId}
    (h : validatedMailboxJoinProvenance mails store succ = some joins)
    (state : Option TurnStateRef) : (acknowledgeAll succ state store joins).isSome = true := by
  have hv := validateJoins_of_validated h
  apply isSome_acknowledgeAll (nodup_of_validateJoins hv).1
  intro _ hj
  exact acknowledgeable_of_validJoin (validJoin_of_validateJoins hv hj)

theorem isSome_getPendingInput (queue : InputQueue) (active : Option ActiveDelivery) :
    (getPendingInput queue active).isSome = true := by
  unfold getPendingInput
  split
  next => rfl
  next =>
    split
    next => rfl
    next hj =>
      rw [isSome_map]
      exact isSome_acknowledgeAll_of_validated hj _

end Acknowledgement

/-- `arrived` lists what was in the mailbox and the pushes; `handed` is the mail that turns took,
`items` the input they got for it, `consumed` the generations that waits consumed and `purged` the
mail that they removed. -/
structure State where
  queue : InputQueue
  enqueues : List Enqueue
  (arrived handed : List PendingMailboxCommunication)
  items : List TurnInput
  consumed : List ℕ
  purged : List PendingMailboxCommunication

def State.initial (queue : InputQueue) : State :=
  ⟨queue, [], queue.mailboxPendingMails, [], [], [], []⟩

inductive Action
  | enqueue (message : Message)
  | advance (index : ℕ)
  | startup (successorTurnId : TurnId) (state : TurnStateRef)
  | deliver (active : Option ActiveDelivery)
  | wait (parentThreadId : ThreadId) (parentTurnId : TurnId) (targetIds : List ThreadId)
      (currentTargets : TargetBindings)
  | alter (store : JoinObligationStore) (marks : Map TurnId ℕ)

def Enqueue.push (enqueue : Enqueue) : List PendingMailboxCommunication :=
  match enqueue.stage with
  | .tagged provenance => [{ enqueue.message with provenance }]
  | .received | .pushed _ => []

namespace State

def hand (s : State) (queue : InputQueue) (items : List TurnInput) : State :=
  { s with
    queue := queue
    handed := s.handed ++ if queue.mailboxPendingMails = [] then
      s.queue.mailboxPendingMails else []
    items := s.items ++ items }

def advance (s : State) (index : ℕ) (enqueue : Enqueue) : State :=
  let (queue, next) := advanceEnqueue s.queue enqueue.message enqueue.stage
  { s with
    queue := queue
    enqueues := match next with
      | some stage => s.enqueues.set index ⟨enqueue.message, stage⟩
      | none => s.enqueues.eraseIdx index
    arrived := s.arrived ++ Enqueue.push enqueue }

def wait (s : State) (parentThreadId : ThreadId) (parentTurnId : TurnId)
    (targetIds : List ThreadId) (currentTargets : TargetBindings) : State :=
  let (queue, consumed) := consumeForTargets s.queue parentThreadId parentTurnId targetIds
    currentTargets
  { s with
    queue := queue
    consumed := s.consumed ++ (consumed.map fst).toList
    purged := s.purged ++ s.queue.mailboxPendingMails.filter
      (·.isAggregateOf (consumed.map fst).toList) }

/-- A refused start leaves everything as it is; a delivery would be disabled by its panic. The
turn's own input comes before the mail that a delivery returns. -/
def step (s : State) : Action → Option State
  | .enqueue message => some { s with enqueues := s.enqueues ++ [⟨message, .received⟩] }
  | .advance index => (s.enqueues[index]?).map (s.advance index)
  | .startup successor state =>
    match commitStartupMailbox s.queue successor state with
    | none => some s
    | some (queue, items, _) => some (s.hand queue items)
  | .deliver active =>
    (getPendingInput s.queue active).map fun (queue, items, _) ↦
      s.hand queue (items.drop ((active.map (·.pendingInput)).getD []).length)
  | .wait thread turn targetIds currentTargets => some (s.wait thread turn targetIds currentTargets)
  | .alter store marks =>
    some { s with
      queue := { s.queue with joinObligations := store, joinTriggerProvenance := marks } }

end State

def mailFlow (queue : InputQueue) : System State Action := ⟨.initial queue, State.step⟩

/-! ## Conservation -/

/-- Ordinary mail was handed over or is pending, in the order of its arrival; all mail was handed
over, is pending or was removed with the generation that a wait consumed. -/
structure Conserved (s : State) : Prop where
  ordinary : s.handed.filter (!·.isTagged) ++ s.queue.mailboxPendingMails.filter (!·.isTagged) =
    s.arrived.filter (!·.isTagged)
  items : s.items = s.handed.map (·.turnInput)
  accounted : s.arrived.Perm (s.handed ++ s.queue.mailboxPendingMails ++ s.purged)
  purged : ∀ mail ∈ s.purged, ∃ generation ∈ s.consumed, mail.provenance = .joinAggregate generation

variable {s s' : State}

theorem conserved_initial (queue : InputQueue) : Conserved (.initial queue) where
  ordinary := by simp [State.initial]
  items := rfl
  accounted := by simp [State.initial]
  purged := by simp [State.initial]

theorem advanceEnqueue_mails (queue : InputQueue) (enqueue : Enqueue) :
    (advanceEnqueue queue enqueue.message enqueue.stage).1.mailboxPendingMails =
      queue.mailboxPendingMails ++ Enqueue.push enqueue := by
  unfold Enqueue.push
  cases enqueue.stage with
  | received => simp [advanceEnqueue, takeTrigger_mails]
  | tagged => rfl
  | pushed => simp [advanceEnqueue, finishEnqueue_mails]

theorem Conserved.advance (h : Conserved s) (index : ℕ) (enqueue : Enqueue) :
    Conserved (s.advance index enqueue) := by
  have hm : (s.advance index enqueue).queue.mailboxPendingMails =
      s.queue.mailboxPendingMails ++ Enqueue.push enqueue := advanceEnqueue_mails _ _
  refine ⟨?_, h.items, ?_, h.purged⟩
  · calc
      s.handed.filter (!·.isTagged) ++
          (s.advance index enqueue).queue.mailboxPendingMails.filter (!·.isTagged)
        = s.handed.filter (!·.isTagged) ++ s.queue.mailboxPendingMails.filter (!·.isTagged) ++
            (Enqueue.push enqueue).filter (!·.isTagged) := by
          rw [hm, List.filter_append, List.append_assoc]
      _ = (s.arrived ++ Enqueue.push enqueue).filter (!·.isTagged) := by
          rw [h.ordinary, List.filter_append]
  · calc
      s.arrived ++ Enqueue.push enqueue
        ~ s.handed ++ s.queue.mailboxPendingMails ++ s.purged ++ Enqueue.push enqueue :=
          h.accounted.append_right _
      _ ~ s.handed ++ s.queue.mailboxPendingMails ++ Enqueue.push enqueue ++ s.purged := by
          rw [List.append_assoc, List.append_assoc (s.handed ++ s.queue.mailboxPendingMails)]
          exact List.perm_append_comm.append_left _
      _ = s.handed ++ (s.advance index enqueue).queue.mailboxPendingMails ++ s.purged := by
          rw [hm, List.append_assoc s.handed]

theorem Conserved.hand (h : Conserved s)
    (ht : queue.mailboxPendingMails = [] ∧
        items = s.queue.mailboxPendingMails.map (·.turnInput) ∨
      queue = s.queue ∧ items = []) : Conserved (s.hand queue items) := by
  rcases ht with ⟨he, hi⟩ | ⟨rfl, rfl⟩
  · refine ⟨?_, ?_, ?_, h.purged⟩
    · simp only [State.hand, he, if_true, List.filter_append, List.filter_nil, List.append_nil]
      exact h.ordinary
    · simp only [State.hand, he, if_true, hi, h.items, List.map_append]
    · simp only [State.hand, he, if_true, List.append_nil]
      exact h.accounted
  · have hn : (if s.queue.mailboxPendingMails = [] then s.queue.mailboxPendingMails else []) =
        [] := by
      split
      next he => exact he
      next => rfl
    have hsa : s.hand s.queue [] = s := by
      simp only [State.hand, hn, List.append_nil]
    rw [hsa]
    exact h

theorem commitStartupMailbox_takes {queue' : InputQueue} {succ : TurnId}
    {state : TurnStateRef} {options : TurnStartOptions}
    (h : commitStartupMailbox queue succ state = some (queue', items, options)) :
    queue'.mailboxPendingMails = [] ∧ items = queue.mailboxPendingMails.map (·.turnInput) := by
  obtain ⟨-, heq⟩ := ite_none_left_eq_some.mp h
  cases heq
  exact ⟨rfl, rfl⟩

theorem getPendingInput_takes {queue' : InputQueue} {active : Option ActiveDelivery}
    {options : TurnStartOptions}
    (h : getPendingInput queue active = some (queue', items, options)) :
    queue'.mailboxPendingMails = [] ∧
        items = (active.map (·.pendingInput)).getD [] ++
          queue.mailboxPendingMails.map (·.turnInput) ∨
      queue' = queue ∧ items = [] := by
  unfold getPendingInput at h
  split at h
  next =>
    cases h
    exact .inr ⟨rfl, rfl⟩
  next =>
    split at h
    next =>
      cases h
      exact .inr ⟨rfl, rfl⟩
    next =>
      obtain ⟨_, -, heq⟩ := map_eq_some_iff.mp h
      cases heq
      exact .inl ⟨rfl, rfl⟩

theorem Conserved.wait (h : Conserved s) (thread : ThreadId) (turn : TurnId)
    (targetIds : List ThreadId) (cur : TargetBindings) :
    Conserved (s.wait thread turn targetIds cur) := by
  set generations := ((consumeForTargets s.queue thread turn targetIds cur).2.map
    fst).toList with hg
  have hm : (s.wait thread turn targetIds cur).queue.mailboxPendingMails =
      s.queue.mailboxPendingMails.filter (!·.isAggregateOf generations) := rfl
  have hpu : (s.wait thread turn targetIds cur).purged =
      s.purged ++ s.queue.mailboxPendingMails.filter (·.isAggregateOf generations) := rfl
  have hk : ∀ mail : PendingMailboxCommunication,
      (!mail.isTagged && !mail.isAggregateOf generations) = !mail.isTagged := by
    intro mail
    unfold isTagged isAggregateOf
    cases mail.provenance <;> rfl
  refine ⟨?_, h.items, ?_, ?_⟩
  · rw [hm, List.filter_filter]
    simp only [hk]
    exact h.ordinary
  · rw [hm]
    calc s.arrived ~ s.handed ++ s.queue.mailboxPendingMails ++ s.purged := h.accounted
      _ ~ s.handed ++ (s.queue.mailboxPendingMails.filter (!·.isAggregateOf generations) ++
            s.queue.mailboxPendingMails.filter (·.isAggregateOf generations)) ++ s.purged := by
          refine List.Perm.append_right _ (List.Perm.append_left _ ?_)
          exact ((List.filter_append_perm (·.isAggregateOf generations) _).symm.trans
            List.perm_append_comm)
      _ ~ s.handed ++ s.queue.mailboxPendingMails.filter (!·.isAggregateOf generations) ++
            (s.purged ++ s.queue.mailboxPendingMails.filter (·.isAggregateOf generations)) := by
          simp only [List.append_assoc]
          exact (List.perm_append_comm.append_left _).append_left _
  · intro mail hma
    rw [hpu, List.mem_append] at hma
    rcases hma with hold | hn
    · obtain ⟨gen, hme, hp⟩ := h.purged mail hold
      exact ⟨gen, List.mem_append_left _ hme, hp⟩
    · have ha := (List.mem_filter.mp hn).2
      unfold isAggregateOf at ha
      split at ha
      next gen hp =>
        exact ⟨gen, List.mem_append_right _ (List.contains_iff_mem.mp ha), hp⟩
      next => cases ha

theorem Conserved.step (h : Conserved s) {action : Action} (hstep : s.step action = some s') :
    Conserved s' := by
  cases action with
  | advance index =>
    obtain ⟨enqueue, -, rfl⟩ := map_eq_some_iff.mp hstep
    exact h.advance index enqueue
  | startup =>
    simp only [State.step] at hstep
    split at hstep
    next =>
      cases hstep
      exact h
    next hc =>
      cases hstep
      exact h.hand (.inl (commitStartupMailbox_takes hc))
  | deliver =>
    obtain ⟨⟨_, _, _⟩, ht, rfl⟩ := map_eq_some_iff.mp hstep
    apply h.hand
    rcases getPendingInput_takes ht with ⟨he, rfl⟩ | ⟨hq, rfl⟩
    · exact .inl ⟨he, List.drop_left⟩
    · exact .inr ⟨hq, List.drop_nil⟩
  | wait thread turn targetIds current =>
    cases hstep
    exact h.wait thread turn targetIds current
  | enqueue | alter =>
    cases hstep
    exact ⟨h.ordinary, h.items, h.accounted, h.purged⟩

/-- Whatever the mailbox and the store were, mail is conserved in every run, and no delivery fails
with the mail already taken out. -/
theorem reachable_mail_conserved (queue : InputQueue) (s : State)
    (hs : (mailFlow queue).Reachable s) :
    Conserved s ∧ ∀ active, (getPendingInput s.queue active).isSome = true := by
  refine ⟨?_, isSome_getPendingInput s.queue⟩
  apply hs.invariant Conserved (conserved_initial queue)
  intro _ _ _ h hstep
  exact h.step hstep

def note (content : String) : PendingMailboxCommunication where
  communication :=
    { author := "/root/child"
      recipient := "/root"
      content := .text content
      triggerTurn := false }
  startOptions := {}
  origin := none
  provenance := .ordinary

/-- A ready join of one child whose completion waits between two notes. -/
def joinedMailbox : InputQueue where
  mailboxPendingMails := [note "first", { note "joined" with provenance := .joinAggregate 1 }]
  joinObligations :=
    { nextGeneration := 1
      obligations := [{ JoinObligation.registered ⟨1⟩ "A" (singleTarget ⟨2⟩ ⟨0⟩ "child") true
          (.new 1) with
        ready := true
        dispatchComplete := true }]
      continuations := [] }
  joinTriggerProvenance := ∅

/-- A second note arrives, a wait consumes the join, and the running turn takes the notes. -/
def waitedAndDelivered : List Action :=
  [.enqueue (note "second").toMessage, .advance 0, .advance 0, .advance 0,
    .wait ⟨1⟩ "A" [⟨2⟩] (singleTarget ⟨2⟩ ⟨0⟩ "child"), .deliver (some ⟨some "A", ⟨0⟩, true, []⟩)]

theorem reachable_mail_conserved_waitedAndDelivered :
    ∃ s, Conserved s ∧ s.handed = [note "first", note "second"] ∧ s.consumed = [1] ∧
      s.purged.length = 1 ∧ s.queue.mailboxPendingMails = [] := by
  obtain ⟨s, hs, hcheck⟩ := exists_reachable_of_run (mailFlow joinedMailbox) waitedAndDelivered
    (fun s ↦ decide (s.handed = [note "first", note "second"] ∧ s.consumed = [1] ∧
      s.purged.length = 1 ∧ s.queue.mailboxPendingMails = [])) (by decide +kernel)
  exact ⟨s, (reachable_mail_conserved joinedMailbox s hs).1, of_decide_eq_true hcheck⟩

end Slopdex.Join.MailFlow
