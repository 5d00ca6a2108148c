import Slopdex.Join.MailFlow

/-!
# The two deliveries of a mailbox

A validated mailbox is taken as a whole: each of its joins is acknowledged on the store that the
acknowledgements before it have left, and none of them fails. A turn that starts commits the same
mailbox with the same effect, provided that it is none of the turns the joins come from.
-/

namespace Slopdex.Join.Deliveries

open Protocol Library.KeyedMap Join.Store Join.Mailbox Join.SessionStore Join.Carriers Option Bool
  Join.PendingMail Join.MailFlow

section Batch

variable {successor succ : Option TurnId} {state : Option TurnStateRef}

theorem acknowledgeAll_append (store : JoinObligationStore) (before after : List (TurnId × ℕ)) :
    acknowledgeAll succ state store (before ++ after) =
      (acknowledgeAll succ state store before).bind fun store' ↦
        acknowledgeAll succ state store' after := by
  induction before generalizing store with
  | nil => rfl
  | cons _ _ ih =>
    rw [List.cons_append, acknowledgeAll, acknowledgeAll]
    split
    · exact ih _
    · rfl

theorem isSome_acknowledge_of_acknowledgeAll {store final : JoinObligationStore}
    {join : TurnId × ℕ} {rest : List (TurnId × ℕ)}
    (h : acknowledgeAll succ state store (join :: rest) = some final) :
    (acknowledgeReadyJoinDelivery store join.1 join.2 (succ.getD join.1) state).2.isSome =
      true := by
  rw [acknowledgeAll] at h
  split at h
  next ha => rw [ha, isSome_some]
  next => cases h

end Batch

/-- If validation yields a list of joins, each acknowledgement succeeds on the store that those
before it have left, and the delivery does not panic. -/
theorem validated_joins_acknowledged (queue : InputQueue) (active : Option ActiveDelivery)
    (joins : List (TurnId × ℕ))
    (hvalid : validatedMailboxJoinProvenance queue.mailboxPendingMails queue.joinObligations
      (active.bind (·.taskSubId)) = some joins) :
    (∀ before join after, joins = before ++ join :: after →
      ∃ store, acknowledgeAll (active.bind (·.taskSubId)) (active.map (·.turnState))
          queue.joinObligations before = some store ∧
        (acknowledgeReadyJoinDelivery store join.1 join.2
          ((active.bind (·.taskSubId)).getD join.1) (active.map (·.turnState))).2.isSome = true) ∧
      (getPendingInput queue active).isSome = true := by
  refine ⟨?_, isSome_getPendingInput queue active⟩
  rintro _ _ _ rfl
  obtain ⟨_, hfinal⟩ := isSome_iff_exists.mp
    (isSome_acknowledgeAll_of_validated hvalid (active.map (·.turnState)))
  rw [acknowledgeAll_append] at hfinal
  obtain ⟨store, hbef, hrest⟩ := bind_eq_some_iff.mp hfinal
  exact ⟨store, hbef, isSome_acknowledge_of_acknowledgeAll hrest⟩

def joinedNote (generation : ℕ) (predecessor : TurnId) : PendingMailboxCommunication where
  communication :=
    { author := "/root/child"
      recipient := "/root"
      content := .text "joined"
      triggerTurn := true }
  startOptions := { parentTurnId := some predecessor }
  origin := none
  provenance := .joinAggregate generation

/-- The completions of two joins of the turn `A`, a note between them. The first join has kept a
target. -/
def twoJoinMailbox : InputQueue where
  mailboxPendingMails := [joinedNote 1 "A", note "between", joinedNote 2 "A"]
  joinObligations :=
    { nextGeneration := 2
      obligations :=
        [{ JoinObligation.registered ⟨1⟩ "A" (singleTarget ⟨2⟩ ⟨0⟩ "kept") false (.new 1) with
            dispatchComplete := true
            retainedDeliveryPredecessorTurnId := some "A" },
          { JoinObligation.registered ⟨1⟩ "A" (singleTarget ⟨3⟩ ⟨0⟩ "child") true (.new 2) with
            ready := true
            dispatchComplete := true }]
      continuations := [] }
  joinTriggerProvenance := ∅

theorem validated_joins_acknowledged_two :
    ∃ store, acknowledgeAll (some "B") (some ⟨0⟩) twoJoinMailbox.joinObligations [("A", 1)] =
        some store ∧
      (acknowledgeReadyJoinDelivery store "A" 2 "B" (some ⟨0⟩)).2.isSome = true :=
  (validated_joins_acknowledged twoJoinMailbox (some ⟨some "B", ⟨0⟩, true, []⟩)
    [("A", 1), ("A", 2)] (by decide +kernel)).1 [("A", 1)] ("A", 2) [] rfl

theorem refusesStartup_of_validJoin {store : JoinObligationStore} {succ : TurnId}
    {join : TurnId × ℕ} (hvalid : validJoin store (some succ) join.1 join.2 = true)
    (hn : isBlank join.1 = false) (hother : join.1 ≠ succ) :
    refusesStartup store succ join.1 join.2 = false := by
  unfold validJoin at hvalid
  split at hvalid
  next o hf =>
    have hfnd : store.obligations.find? (·.awaitsDelivery join.2 join.1) = some o := by
      rw [← List.head?_filter, hf, List.head?_cons]
    have hne : join.1 ≠ "" := by
      intro hemp
      rw [hemp] at hn
      cases hn
    rw [refusesStartup, hfnd]
    simp only [getD_some, and_eq_true, not_eq_true', bne_iff_ne.mpr hother.symm] at hvalid
    simp only [beq_false_of_ne hne, beq_false_of_ne hother, Bool.or_false]
    exact hvalid.2
  next => cases hvalid

/-- A successor that is none of the predecessors takes an accepted mailbox with the same items in
the same order and leaves the same obligations and leases, whether it takes the mailbox at its
startup or as the active turn. -/
theorem startup_delivers_as_active (queue : InputQueue) (successor : TurnId) (state : TurnStateRef)
    (pending : List TurnInput) (joins : List (TurnId × ℕ))
    (hvalid : validatedMailboxJoinProvenance queue.mailboxPendingMails queue.joinObligations
      (some successor) = some joins)
    (hother : ∀ join ∈ mailboxJoinProvenance queue.mailboxPendingMails, join.1 ≠ successor) :
    ∃ queue' items options,
      commitStartupMailbox queue successor state = some (queue', items, options) ∧
        getPendingInput queue (some ⟨some successor, state, true, pending⟩) =
          some (queue', pending ++ items, options) := by
  have hjoins := mailboxJoinProvenance_of_validated hvalid
  have haccepted : ((mailboxJoinProvenance queue.mailboxPendingMails).any fun join ↦
      refusesStartup queue.joinObligations successor join.1 join.2) = false := by
    rw [List.any_eq_false]
    intro join hjoin
    have hmem : join ∈ joins := hjoins ▸ hjoin
    rw [refusesStartup_of_validJoin
      (validJoin_of_validateJoins (validateJoins_of_validated hvalid) hmem)
      (isBlank_of_mem_mailboxJoinProvenance hjoin) (hother join hjoin)]
    exact false_ne_true
  obtain ⟨store, hstore⟩ := isSome_iff_exists.mp
    (isSome_acknowledgeAll_of_validated hvalid (some state))
  -- Both folds apply the same operations to the store.
  have hsame : acknowledgeEach successor state queue.joinObligations
      (mailboxJoinProvenance queue.mailboxPendingMails) = store := by
    rw [acknowledgeEach_eq_applyAll, acknowledgeAll_eq_applyAll hstore, hjoins]
  refine ⟨{ queue with mailboxPendingMails := [], joinObligations := store },
    queue.mailboxPendingMails.map (·.turnInput), mailboxStartOptions queue.mailboxPendingMails,
    ?_, ?_⟩
  · rw [commitStartupMailbox, haccepted, hsame]
    rfl
  · rw [getPendingInput]
    simp only [any_some, Bool.not_true, Bool.false_eq_true, if_false, bind_some,
      hvalid, map_some, hstore, getD_some]

theorem startup_delivers_as_active_two :
    ∃ queue' items options,
      commitStartupMailbox twoJoinMailbox "B" ⟨0⟩ = some (queue', items, options) ∧
        getPendingInput twoJoinMailbox (some ⟨some "B", ⟨0⟩, true, []⟩) =
          some (queue', [] ++ items, options) :=
  startup_delivers_as_active twoJoinMailbox "B" ⟨0⟩ [] [("A", 1), ("A", 2)] (by decide +kernel)
    (by decide +kernel)

end Slopdex.Join.Deliveries
