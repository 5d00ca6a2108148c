import Slopdex.Rollout.Readings

/-!
# The turns that survive and the messages that are left

The scan skips a turn if user turns are still to be skipped at its start; the replay drops a message
if messages are still to be dropped in front of it. The turns that survive are those that keep a
message exactly if the two counts agree for every turn. They do in a regular rollout, in which no
rollback stops inside a turn and every user turn has a message that a rollback can drop.
-/

namespace Slopdex.Rollout

open Protocol (Text)
open ActiveReplaySegment List Option Nat

variable {segment : ActiveReplaySegment} (env : Environment)

def ActiveReplaySegment.reference (segment : ActiveReplaySegment) :
    Option TurnReferenceContextItem :=
  if (segment.hasContextBaseline ∨ segment.referenceContextItem = .cleared) ∧
      segment.referenceContextItem ≠ .neverSet then
    some segment.referenceContextItem
  else none

def ActiveReplaySegment.settings (segment : ActiveReplaySegment) : Option PreviousTurnSettings :=
  if segment.hasContextBaseline then segment.previousTurnSettings else none

def newestOf (segments : List ActiveReplaySegment) :
    Option ReplayCheckpoint × Option PreviousTurnSettings × TurnReferenceContextItem :=
  (segments.findSome? baseCompaction, segments.findSome? settings,
    (segments.findSome? reference).getD .neverSet)

def surviving (finalized : List FinalizedSegment) : List ActiveReplaySegment :=
  (finalized.filter FinalizedSegment.survived).map FinalizedSegment.segment

theorem ActiveReplaySegment.ne_neverSet_of_reference_eq
    {reference : TurnReferenceContextItem} (h : segment.reference = some reference) :
    reference ≠ .neverSet := by
  unfold ActiveReplaySegment.reference at h
  split_ifs at h with hs
  cases h
  exact hs.2

namespace ReverseScan

variable {scan : ReverseScan}

theorem outcome_finalizeActiveSegment_eq (h : scan.outcome = newestOf (surviving scan.finalized))
    (segment : ActiveReplaySegment) :
    (finalizeActiveSegment segment scan).outcome =
      newestOf (surviving (finalizeActiveSegment segment scan).finalized) := by
  unfold outcome newestOf at h
  simp only [Prod.mk.injEq] at h
  obtain ⟨hb, hc, hr⟩ := h
  unfold finalizeActiveSegment
  by_cases hp : 0 < scan.pendingRollbackTurns
  · rw [if_pos hp]
    have hs : surviving (scan.finalized ++ [⟨segment, false⟩]) = surviving scan.finalized := by
      unfold surviving
      rw [filter_append]
      simp
    rw [hs, hb, hc, hr]
    rfl
  · rw [if_neg hp]
    have ht : surviving (scan.finalized ++ [⟨segment, true⟩]) =
        surviving scan.finalized ++ [segment] := by
      unfold surviving
      rw [filter_append]
      simp
    dsimp only [outcome]
    rw [ht]
    unfold newestOf
    simp only [findSome?_append, findSome?_singleton, Prod.mk.injEq]
    refine ⟨by rw [hb], ?_, ?_⟩
    · rw [hc]
      cases (surviving scan.finalized).findSome? settings with
      | none | some => rfl
    · rw [hr]
      cases hf : (surviving scan.finalized).findSome? reference with
      | none =>
        unfold reference
        rw [none_or, getD_none]
        by_cases hse : segment.referenceContextItem = .neverSet
        · simp only [hse, ne_eq, not_true_eq_false, and_false, if_false, ite_self, getD_none]
        · simp only [hse, ne_eq, not_false_eq_true, and_true, true_and]
          split_ifs <;> rfl
      | some reference =>
        have hse : reference ≠ .neverSet := by
          obtain ⟨_, -, hf⟩ := exists_of_findSome?_eq_some hf
          exact ne_neverSet_of_reference_eq hf
        exact if_neg fun hn ↦ hse hn.1

theorem outcome_close_eq (h : scan.outcome = newestOf (surviving scan.finalized)) :
    scan.close.outcome = newestOf (surviving scan.close.finalized) := by
  unfold close
  split
  next segment _ =>
    let inactive : ReverseScan := { scan with activeSegment := none }
    have hi : inactive.outcome = newestOf (surviving inactive.finalized) := h
    exact outcome_finalizeActiveSegment_eq hi segment
  next => exact h

end ReverseScan

variable {env} {item : RolloutItem} {items rest : List RolloutItem} {index : ℕ}

theorem scanItem_cases (index : ℕ) (item : RolloutItem) (rest : List RolloutItem)
    (scan : ReverseScan) :
    (∃ change, scanItem env index item rest scan = scan.onSegment change) ∨
      (∃ pending, scanItem env index item rest scan =
        { scan with pendingRollbackTurns := pending }) ∨
      scanItem env index item rest scan = scan.close := by
  cases hr : item.reading env with
  | rollback => exact .inr (.inl ⟨_, scanItem_of_rollback index rest scan hr⟩)
  | message => exact .inl ⟨_, scanItem_of_message index rest scan hr⟩
  | part =>
    obtain ⟨change, heq, -⟩ := scanItem_of_part index rest scan hr
    exact .inl ⟨change, heq⟩
  | silent =>
    exact .inr (.inl ⟨scan.pendingRollbackTurns, scanItem_of_silent index rest scan hr⟩)
  | start =>
    rw [scanItem_of_start index rest scan hr]
    split_ifs
    · exact .inr (.inr rfl)
    · exact .inr (.inl ⟨scan.pendingRollbackTurns, rfl⟩)

theorem outcome_scanWhole (index : ℕ) (items : List RolloutItem) :
    (scanWhole env index items).outcome =
      newestOf (surviving (scanWhole env index items).finalized) := by
  induction items generalizing index with
  | nil => rfl
  | cons item rest ih =>
    rw [scanWhole]
    rcases scanItem_cases index item rest (scanWhole env (index + 1) rest) with
      ⟨change, heq⟩ | ⟨pending, heq⟩ | heq
    · rw [heq]
      exact ih (index + 1)
    · rw [heq]
      exact ih (index + 1)
    · rw [heq]
      exact ReverseScan.outcome_close_eq (ih (index + 1))

variable (env) in
theorem outcome_reverseScan_eq (items : List RolloutItem) :
    (reverseScan env items).outcome = newestOf (surviving (turns env items)) := by
  rw [outcome_reverseScan]
  exact ReverseScan.outcome_close_eq (outcome_scanWhole 0 items)

/-! ## The scan goes by the counts -/

variable (env) in
/-- The segment in progress is that of the turn in progress. -/
structure SameTurn (index : ℕ) (items : List RolloutItem) (segment : ActiveReplaySegment)
    (turn : TurnInProgress) : Prop where
  turnId : segment.turnId = turn.turnId
  counts : segment.countsAsUserTurn = turn.isUserTurn
  positions : ∀ position ∈ segment.messages, index ≤ position
  messages : match turn.keepsMessage with
    | none => segment.messages = []
    | some keeps => segment.messages ≠ [] ∧
        ((∃ position ∈ segment.messages, Kept env index items position) ↔ keeps = true)

variable (env) in
/-- A segment was finalized as that of a counted turn. -/
structure Settled (index : ℕ) (items : List RolloutItem) (finalized : FinalizedSegment)
    (counted : CountedTurn) : Prop where
  sameTurn : SameTurn env index items finalized.segment counted.turn
  survived : finalized.survived = true ↔ counted.skips = 0

variable (env) in
structure Synced (index : ℕ) (items : List RolloutItem) (scan : ReverseScan) : Prop where
  pending : scan.pendingRollbackTurns = skips env items
  active : Option.Rel (SameTurn env index items) scan.activeSegment (turnInProgress env items)
  finalized : Forall₂ (Settled env index items) scan.finalized (startedTurns env items)

theorem SameTurn.cons {turn : TurnInProgress} (h : SameTurn env (index + 1) rest segment turn) :
    SameTurn env index (item :: rest) segment turn := by
  refine ⟨h.turnId, h.counts, fun position hm ↦ le_of_succ_le (h.positions position hm), ?_⟩
  have hk : (∃ position ∈ segment.messages, Kept env index (item :: rest) position) ↔
      ∃ position ∈ segment.messages, Kept env (index + 1) rest position := by
    apply exists_congr
    intro position
    apply and_congr_right
    intro hm
    exact kept_cons_iff (h.positions position hm)
  rw [hk]
  exact h.messages

theorem Settled.cons {finalized : FinalizedSegment} {counted : CountedTurn}
    (h : Settled env (index + 1) rest finalized counted) :
    Settled env index (item :: rest) finalized counted :=
  ⟨h.sameTurn.cons, h.survived⟩

theorem Synced.nil (index : ℕ) : Synced env index [] {} := ⟨rfl, .none, .nil⟩

variable {scan : ReverseScan}

namespace Synced

section

variable (h : Synced env (index + 1) rest scan)
include h

theorem finalized_cons :
    Forall₂ (Settled env index (item :: rest)) scan.finalized (startedTurns env rest) :=
  h.finalized.imp fun _ _ ↦ Settled.cons

theorem active_cons :
    Option.Rel (SameTurn env index (item :: rest)) scan.activeSegment
      (turnInProgress env rest) := by
  have ha := h.active
  generalize scan.activeSegment = segment at ha ⊢
  generalize turnInProgress env rest = turn at ha ⊢
  cases ha with
  | none => exact .none
  | some hturn => exact .some hturn.cons

theorem sameTurn_getD :
    SameTurn env index (item :: rest) (scan.activeSegment.getD {})
      ((turnInProgress env rest).getD {}) := by
  have ha := h.active
  generalize scan.activeSegment = segment at ha ⊢
  generalize turnInProgress env rest = turn at ha ⊢
  cases ha with
  | none => exact ⟨rfl, rfl, nofun, rfl⟩
  | some hturn => exact hturn.cons

/-- A record that starts no turn leaves the turns that have been counted. -/
theorem startedTurns_cons (hs : startedTurn env item rest = none) :
    Forall₂ (Settled env index (item :: rest)) scan.finalized
      (startedTurns env (item :: rest)) := by
  rw [startedTurns, hs, Option.map_none, toList_none, append_nil]
  exact h.finalized_cons

/-! ### One lemma for each reading of the record in front -/

theorem rollback {numTurns : ℕ} (hr : item.reading env = .rollback numTurns) :
    Synced env index (item :: rest)
      { scan with pendingRollbackTurns := scan.pendingRollbackTurns + numTurns } := by
  refine ⟨?_, ?_, h.startedTurns_cons (by rw [startedTurn, hr])⟩
  · rw [skips, hr, h.pending]
  · rw [turnInProgress, hr]
    exact h.active_cons

theorem message (hr : item.reading env = .message) :
    Synced env index (item :: rest) (scan.onSegment (seeMessage index)) := by
  have hs : SameTurn env index (item :: rest) (scan.activeSegment.getD {})
      ((turnInProgress env rest).getD {}) := h.sameTurn_getD
  have hn : startedTurn env item rest = none := by rw [startedTurn, hr]
  refine ⟨?_, ?_, h.startedTurns_cons hn⟩
  · rw [skips, hr, hn]
    exact h.pending
  · rw [turnInProgress, hr]
    refine .some ⟨hs.turnId, rfl, ?_, cons_ne_nil _ _, ?_⟩
    · exact forall_mem_cons.mpr ⟨le_rfl, hs.positions⟩
    · change (∃ position ∈ index :: (scan.activeSegment.getD {}).messages, _) ↔ _
      rw [exists_mem_cons_iff, kept_message_iff hr, Bool.or_eq_true, or_comm]
      have hm := hs.messages
      cases hk : ((turnInProgress env rest).getD {}).keepsMessage with
      | none =>
        rw [hk] at hm
        rw [hm]
        simp
      | some keeps =>
        rw [hk] at hm
        rw [hm.2, getD_some]

theorem part {turnId : Option Text} {userMessage : Bool}
    {change : ActiveReplaySegment → ActiveReplaySegment}
    (hr : item.reading env = .part turnId userMessage)
    (hch : ∀ segment, (change segment).turnId = segment.turnId.or turnId ∧
      (change segment).countsAsUserTurn = (segment.countsAsUserTurn || userMessage) ∧
      (change segment).messages = segment.messages) :
    Synced env index (item :: rest) (scan.onSegment change) := by
  have hs : SameTurn env index (item :: rest) (scan.activeSegment.getD {})
      ((turnInProgress env rest).getD {}) := h.sameTurn_getD
  have hn : startedTurn env item rest = none := by rw [startedTurn, hr]
  obtain ⟨hid, hc, hm⟩ := hch (scan.activeSegment.getD {})
  refine ⟨?_, ?_, h.startedTurns_cons hn⟩
  · rw [skips, hr, hn]
    exact h.pending
  · rw [turnInProgress, hr]
    refine .some ⟨?_, ?_, ?_, ?_⟩
    · rw [hid, hs.turnId]
    · rw [hc, hs.counts]
    · rw [hm]
      exact hs.positions
    · rw [hm]
      exact hs.messages

/-- A record that neither counts nor starts or continues a turn -/
theorem skip (hturn : turnInProgress env (item :: rest) = turnInProgress env rest)
    (hskips : skips env (item :: rest) = skips env rest)
    (hn : startedTurn env item rest = none) : Synced env index (item :: rest) scan :=
  ⟨h.pending.trans hskips.symm, hturn ▸ h.active_cons, h.startedTurns_cons hn⟩

end

end Synced

theorem pendingRollbackTurns_finalizeActiveSegment (segment : ActiveReplaySegment) :
    (ReverseScan.finalizeActiveSegment segment scan).pendingRollbackTurns =
      if segment.countsAsUserTurn then scan.pendingRollbackTurns - 1
      else scan.pendingRollbackTurns := by
  unfold ReverseScan.finalizeActiveSegment
  by_cases hp : 0 < scan.pendingRollbackTurns
  · rw [if_pos hp]
  · rw [Nat.eq_zero_of_not_pos hp]
    exact (ite_self 0).symm

theorem finalized_finalizeActiveSegment (segment : ActiveReplaySegment) :
    (ReverseScan.finalizeActiveSegment segment scan).finalized =
      scan.finalized ++ [⟨segment, decide (scan.pendingRollbackTurns = 0)⟩] := by
  unfold ReverseScan.finalizeActiveSegment
  by_cases hp : 0 < scan.pendingRollbackTurns
  · rw [if_pos hp, decide_eq_false hp.ne']
  · rw [if_neg hp, decide_eq_true (Nat.eq_zero_of_not_pos hp)]

theorem activeSegment_finalizeActiveSegment (segment : ActiveReplaySegment) :
    (ReverseScan.finalizeActiveSegment segment scan).activeSegment = scan.activeSegment := by
  unfold ReverseScan.finalizeActiveSegment
  split_ifs <;> rfl

/-- Finalizing the segment in progress settles the turn in progress. -/
theorem Synced.close (h : Synced env index items scan) :
    Forall₂ (Settled env index items) scan.close.finalized (countedTurns env items) := by
  have ha := h.active
  unfold ReverseScan.close countedTurns
  cases hseg : scan.activeSegment with
  | none =>
    rw [hseg] at ha
    generalize turnInProgress env items = progress at ha ⊢
    cases ha
    rw [Option.map_none, toList_none, append_nil]
    exact h.finalized
  | some segment =>
    rw [hseg] at ha
    generalize turnInProgress env items = progress at ha ⊢
    cases ha with
    | some hs =>
      rw [finalized_finalizeActiveSegment]
      refine rel_append h.finalized (.cons ⟨hs, ?_⟩ .nil)
      rw [decide_eq_true_iff, h.pending]

theorem Synced.start {turnId : Text} (h : Synced env (index + 1) rest scan)
    (hr : item.reading env = .start turnId) :
    Synced env index (item :: rest)
      (if scan.activeSegment.any fun segment ↦ turnIdsAreCompatible segment.turnId (some turnId)
        then scan.close else scan) := by
  have ha := h.active
  have hclose := h.close
  unfold countedTurns at hclose
  rcases startedTurn_cases hr with ⟨hn, hturn, hother⟩ | ⟨turn, hst, hp, hc, hnone⟩
  · rw [if_neg]
    · exact h.skip hturn (by rw [skips, hr, hn]; rfl) hn
    · rw [Option.any_eq_true]
      rintro ⟨segment, hsegment, hc⟩
      rw [hsegment] at ha
      generalize turnInProgress env rest = progress at ha hother
      cases ha with
      | some hs => exact Bool.noConfusion ((hs.turnId ▸ hc).symm.trans (hother _ rfl))
  · -- the segment is finalized, and no turn is in progress
    rw [hp] at ha hclose
    obtain ⟨segment, hsegment, hs⟩ : ∃ segment, scan.activeSegment = some segment ∧
        SameTurn env (index + 1) rest segment turn := by
      generalize scan.activeSegment = segment at ha
      cases ha with
      | some hs => exact ⟨_, rfl, hs⟩
    have heq : scan.close = ReverseScan.finalizeActiveSegment segment
        { scan with activeSegment := none } := by
      unfold ReverseScan.close
      rw [hsegment]
    rw [hsegment, any_some, hs.turnId, if_pos hc]
    refine ⟨?_, ?_, ?_⟩
    · rw [heq, pendingRollbackTurns_finalizeActiveSegment, hs.counts, h.pending, skips, hr, hst]
      rfl
    · rw [heq, activeSegment_finalizeActiveSegment, hnone]
      exact .none
    · rw [startedTurns, hst]
      exact hclose.imp fun _ _ ↦ Settled.cons

variable (env) in
theorem synced_scanWhole (index : ℕ) (items : List RolloutItem) :
    Synced env index items (scanWhole env index items) := by
  induction items generalizing index with
  | nil => exact .nil index
  | cons item rest ih =>
    have h := ih (index + 1)
    rw [scanWhole]
    cases hr : item.reading env with
    | rollback =>
      rw [scanItem_of_rollback index rest _ hr]
      exact h.rollback hr
    | start =>
      rw [scanItem_of_start index rest _ hr]
      exact h.start hr
    | message =>
      rw [scanItem_of_message index rest _ hr]
      exact h.message hr
    | part =>
      obtain ⟨_, heq, hc⟩ := scanItem_of_part index rest (scanWhole env (index + 1) rest) hr
      rw [heq]
      exact h.part hr hc
    | silent =>
      have hn : startedTurn env item rest = none := by rw [startedTurn, hr]
      rw [scanItem_of_silent index rest _ hr]
      exact h.skip (by rw [turnInProgress, hr]) (by rw [skips, hr, hn]; rfl) hn

theorem forall_mem_iff_of_forall₂ {α β : Type*} {relation : α → β → Prop} {p : α → Prop}
    {q : β → Prop} {left : List α} {right : List β} (h : Forall₂ relation left right)
    (hiff : ∀ a b, relation a b → (p a ↔ q b)) : (∀ a ∈ left, p a) ↔ ∀ b ∈ right, q b := by
  induction h with
  | nil => exact iff_of_true (forall_mem_nil _) (forall_mem_nil _)
  | cons hab _ ih => rw [forall_mem_cons, forall_mem_cons, hiff _ _ hab, ih]

theorem Settled.agrees_iff {finalized : FinalizedSegment} {counted : CountedTurn}
    (h : Settled env index items finalized counted) :
    (finalized.segment.messages ≠ [] → (finalized.survived = true ↔
      ∃ position ∈ finalized.segment.messages, Kept env index items position)) ↔
    counted.Agrees := by
  have hm := h.sameTurn.messages
  rw [h.survived]
  unfold CountedTurn.Agrees
  cases hk : counted.turn.keepsMessage with
  | none =>
    rw [hk] at hm
    exact iff_of_true (fun hne ↦ absurd hm hne) nofun
  | some keeps =>
    rw [hk] at hm
    rw [hm.2, forall_prop_of_true hm.1]
    exact ⟨fun h keeps hk ↦ some.inj hk ▸ h, fun h ↦ h keeps rfl⟩

/-! ## Regular rollouts -/

variable (env) in
def keepsMessage (items : List RolloutItem) : Option Bool :=
  (turnInProgress env items).bind TurnInProgress.keepsMessage

variable (env) in
/-- What a record in front of the others has to meet. -/
def Reading.RegularBefore (rest : List RolloutItem) : Reading → Prop
  -- of a turn with several messages none is dropped
  | .message => ∀ keeps ∈ keepsMessage env rest, keeps = true
  -- a rollback within a turn comes before its message only if that is dropped too
  | .rollback numTurns => 0 < numTurns → ∀ keeps ∈ keepsMessage env rest, keeps = false
  -- no rollback reaches a user turn without a message
  | .start turnId =>
    ∀ turn ∈ turnInProgress env rest, turnIdsAreCompatible turn.turnId (some turnId) →
      turn.isUserTurn → turn.keepsMessage = none → demand env rest = 0
  | .part .. | .silent => True

variable (env) in
def Regular : List RolloutItem → Prop
  | [] => True
  | item :: rest => (item.reading env).RegularBefore env rest ∧ Regular rest

instance (rest : List RolloutItem) :
    (reading : Reading) → Decidable (reading.RegularBefore env rest)
  | .message => inferInstanceAs (Decidable (∀ keeps ∈ keepsMessage env rest, keeps = true))
  | .rollback numTurns =>
    inferInstanceAs (Decidable (0 < numTurns → ∀ keeps ∈ keepsMessage env rest, keeps = false))
  | .start turnId =>
    inferInstanceAs (Decidable (∀ turn ∈ turnInProgress env rest,
      turnIdsAreCompatible turn.turnId (some turnId) →
        turn.isUserTurn → turn.keepsMessage = none → demand env rest = 0))
  | .part .. | .silent => inferInstanceAs (Decidable True)

instance decidableRegular : (items : List RolloutItem) → Decidable (Regular env items)
  | [] => inferInstanceAs (Decidable True)
  | item :: rest =>
    have := decidableRegular rest
    inferInstanceAs (Decidable ((item.reading env).RegularBefore env rest ∧ Regular env rest))

/-- How the counts of turns and messages are related, by the messages of the turn in progress. -/
def InStep (skips demand : ℕ) : Option Bool → Prop
  | none => skips = demand
  | some true => skips = 0 ∧ demand = 0
  -- the turn is counted at its start only
  | some false => skips = demand + 1

variable (env) in
structure InStepWith (items : List RolloutItem) : Prop where
  inStep : InStep (skips env items) (demand env items) (keepsMessage env items)
  isUserTurn : ∀ turn ∈ turnInProgress env items, turn.keepsMessage ≠ none → turn.isUserTurn = true

theorem InStep.agrees {counted : CountedTurn} {demand : ℕ}
    (h : InStep counted.skips demand counted.turn.keepsMessage) : counted.Agrees := by
  intro keeps hk
  rw [hk] at h
  cases keeps with
  | true => exact iff_of_true h.1 rfl
  | false => exact iff_of_false (h.trans_ne (succ_ne_zero demand)) Bool.false_ne_true

theorem InStepWith.agrees (h : InStepWith env items) :
    ∀ turn ∈ turnInProgress env items, CountedTurn.Agrees ⟨turn, skips env items⟩ := by
  intro turn ht
  have hs := h.inStep
  unfold keepsMessage at hs
  rw [ht] at hs
  exact InStep.agrees hs

section

variable (h : InStepWith env rest)
include h

theorem InStepWith.rollback {numTurns : ℕ} (hr : item.reading env = .rollback numTurns)
    (hregular : 0 < numTurns → ∀ keeps ∈ keepsMessage env rest, keeps = false) :
    InStepWith env (item :: rest) := by
  have hturn : turnInProgress env (item :: rest) = turnInProgress env rest := by
    rw [turnInProgress, hr]
  refine ⟨?_, hturn ▸ h.isUserTurn⟩
  have hs := h.inStep
  rw [skips, demand, hr, keepsMessage, hturn]
  change InStep (skips env rest + numTurns) (demand env rest + numTurns) (keepsMessage env rest)
  cases hk : keepsMessage env rest with
  | none =>
    rw [hk] at hs
    exact congrArg (· + numTurns) hs
  | some keeps =>
    rw [hk] at hs
    cases keeps with
    | true =>
      have hz : numTurns = 0 := by
        by_contra hne
        exact Bool.noConfusion (hregular (Nat.pos_of_ne_zero hne) true hk)
      rw [hz]
      exact hs
    | false =>
      change skips env rest = demand env rest + 1 at hs
      change skips env rest + numTurns = demand env rest + numTurns + 1
      omega

theorem InStepWith.message (hr : item.reading env = .message)
    (hlegacy : ∀ item ∈ rest, item.isLegacyCompaction = false)
    (hregular : ∀ keeps ∈ keepsMessage env rest, keeps = true) :
    InStepWith env (item :: rest) := by
  have hn : startedTurn env item rest = none := by rw [startedTurn, hr]
  have hleaves : leavesMessage env rest = decide (demand env rest = 0) := by
    rw [Bool.eq_iff_iff, leavesMessage_iff, decide_eq_true_iff]
    exact and_iff_left hlegacy
  have hk : keepsMessage env (item :: rest) =
      some ((keepsMessage env rest).getD false || decide (demand env rest = 0)) := by
    rw [keepsMessage, turnInProgress, hr, ← hleaves, keepsMessage]
    cases turnInProgress env rest <;> rfl
  have hs := h.inStep
  constructor
  · rw [hk, skips, demand, hr, hn]
    change InStep (skips env rest) (demand env rest - 1) _
    cases hkeeps : keepsMessage env rest with
    | none =>
      rw [hkeeps] at hs
      rw [show skips env rest = demand env rest from hs]
      cases demand env rest with
      | zero => exact ⟨rfl, rfl⟩
      | succ => rfl
    | some keeps =>
      rw [hkeeps] at hs
      rw [hregular keeps hkeeps] at hs ⊢
      exact ⟨hs.1, Nat.sub_eq_zero_of_le (hs.2.le.trans zero_le_one)⟩
  · rw [turnInProgress, hr]
    rintro _ ⟨⟩ -
    rfl

theorem InStepWith.skip (hturn : turnInProgress env (item :: rest) = turnInProgress env rest)
    (hskips : skips env (item :: rest) = skips env rest)
    (hdemand : demand env (item :: rest) = demand env rest) : InStepWith env (item :: rest) := by
  refine ⟨?_, hturn ▸ h.isUserTurn⟩
  rw [hskips, hdemand, keepsMessage, hturn]
  exact h.inStep

theorem InStepWith.start {turnId : Text} (hr : item.reading env = .start turnId)
    (hregular : ∀ turn ∈ turnInProgress env rest, turnIdsAreCompatible turn.turnId (some turnId) →
      turn.isUserTurn → turn.keepsMessage = none → demand env rest = 0) :
    InStepWith env (item :: rest) := by
  have hdemand : demand env (item :: rest) = demand env rest := by rw [demand, hr]
  rcases startedTurn_cases hr with ⟨hn, hturn, -⟩ | ⟨turn, hst, hp, hc, hnone⟩
  · exact h.skip hturn (by rw [skips, hr, hn]; rfl) hdemand
  · -- the turn is counted now, and no turn is in progress
    refine ⟨?_, fun _ hm ↦ absurd (hnone.symm.trans hm) (some_ne_none _).symm⟩
    have hs := h.inStep
    rw [keepsMessage, hp] at hs
    rw [keepsMessage, hnone, skips, hr, hst, hdemand]
    change (if turn.isUserTurn = true then skips env rest - 1 else skips env rest) = demand env rest
    change InStep _ _ turn.keepsMessage at hs
    cases hk : turn.keepsMessage with
    | none =>
      rw [hk] at hs
      have heq : skips env rest = demand env rest := hs
      split_ifs with huser
      · rw [heq, hregular turn hp hc huser hk]
      · exact heq
    | some keeps =>
      rw [hk] at hs
      rw [if_pos (h.isUserTurn turn hp (hk ▸ some_ne_none keeps))]
      cases keeps with
      | true => rw [hs.1, hs.2]
      | false =>
        rw [show skips env rest = demand env rest + 1 from hs]
        rfl

theorem InStepWith.part {turnId : Option Text} {userMessage : Bool}
    (hr : item.reading env = .part turnId userMessage) : InStepWith env (item :: rest) := by
  have hn : startedTurn env item rest = none := by rw [startedTurn, hr]
  constructor
  · have hk : keepsMessage env (item :: rest) = keepsMessage env rest := by
      rw [keepsMessage, turnInProgress, hr, keepsMessage]
      cases turnInProgress env rest <;> rfl
    rw [hk, skips, demand, hr, hn]
    exact h.inStep
  · rw [turnInProgress, hr]
    rintro _ ⟨⟩ hk
    apply Bool.or_eq_true_iff.mpr
    left
    have hu := h.isUserTurn
    generalize turnInProgress env rest = progress at hk hu ⊢
    cases progress with
    | none => exact absurd rfl hk
    | some turn => exact hu turn rfl hk

end

theorem inStepWith_of_regular (hregular : Regular env items)
    (hlegacy : ∀ item ∈ items, item.isLegacyCompaction = false) : InStepWith env items := by
  induction items with
  | nil => exact ⟨rfl, nofun⟩
  | cons item rest ih =>
    have hrest := (forall_mem_cons.mp hlegacy).2
    have h := ih hregular.2 hrest
    have hi := hregular.1
    cases hr : item.reading env with
    | rollback =>
      rw [hr] at hi
      exact h.rollback hr hi
    | start =>
      rw [hr] at hi
      exact h.start hr hi
    | message =>
      rw [hr] at hi
      exact h.message hr hrest hi
    | part => exact h.part hr
    | silent =>
      have hn : startedTurn env item rest = none := by rw [startedTurn, hr]
      exact h.skip (by rw [turnInProgress, hr]) (by rw [skips, hr, hn]; rfl) (by rw [demand, hr])

theorem countsAgree_of_regular (hregular : Regular env items)
    (hlegacy : ∀ item ∈ items, item.isLegacyCompaction = false) : CountsAgree env items := by
  have hstarted : ∀ counted ∈ startedTurns env items, counted.Agrees := by
    induction items with
    | nil => exact forall_mem_nil _
    | cons item rest ih =>
      have hrest := (forall_mem_cons.mp hlegacy).2
      intro counted hm
      rw [startedTurns, mem_append, mem_toList, Option.map_eq_some_iff] at hm
      rcases hm with hold | ⟨turn, ht, rfl⟩
      · exact ih hregular.2 hrest counted hold
      · have hp : turn ∈ turnInProgress env rest := by
          unfold startedTurn at ht
          split at ht
          · exact (mem_filter_iff.mp ht).1
          · cases ht
        exact (inStepWith_of_regular hregular.2 hrest).agrees turn hp
  intro counted hm
  rw [countedTurns, mem_append, mem_toList, Option.map_eq_some_iff] at hm
  rcases hm with hold | ⟨turn, ht, rfl⟩
  · exact hstarted counted hold
  · exact (inStepWith_of_regular hregular hlegacy).agrees turn ht

/-- The scan takes the checkpoint, the settings and the reference from the turns that survive. Among
the turns with user messages these are the ones of which the replay leaves a message, exactly if the
counts of turns and messages agree, as they do in a regular rollout. -/
theorem surviving_turns_keep_messages (env : Environment) (items : List RolloutItem) :
    (reverseScan env items).outcome = newestOf (surviving (turns env items)) ∧
      ((∀ turn ∈ turns env items, turn.segment.messages ≠ [] →
          (turn.survived = true ↔ ∃ position ∈ turn.segment.messages,
            some position ∈ (replayFrom env 0 items []).messages env)) ↔
        CountsAgree env items) ∧
      (Regular env items → (∀ item ∈ items, item.isLegacyCompaction = false) →
        CountsAgree env items) := by
  refine ⟨outcome_reverseScan_eq env items, ?_, countsAgree_of_regular⟩
  have hkept : ∀ position, some position ∈ (replayFrom env 0 items []).messages env ↔
      Kept env 0 items position := fun position ↦ mem_replayFrom_iff nofun (Nat.zero_le position)
  simp only [hkept]
  exact forall_mem_iff_of_forall₂ (synced_scanWhole env 0 items).close fun _ _ ↦ Settled.agrees_iff

/-! ### Rollouts of a few turns -/

def exampleMessage (text : String) : List RolloutItem :=
  [.responseItem { item := .message "user".toList [.inputText text.toList] none none },
    .eventMsg (.userMessage ⟨text.toList, none, [], none, []⟩)]

def exampleTurn (name : String) (messages : List String) : List RolloutItem :=
  [.eventMsg (.turnStarted name.toList),
      .turnContext ⟨some name.toList, name.toList, none, none, []⟩] ++
    messages.flatMap exampleMessage ++ [.eventMsg (.turnComplete name.toList)]

def exampleRollback (numTurns : ℕ) : List RolloutItem := [.eventMsg (.threadRolledBack numTurns)]

def exampleCheckpoint (history : List String) : List RolloutItem :=
  [.compacted
    { message := []
      replacementHistory := some (history.map fun text ↦
        { item := .message "user".toList [.inputText text.toList] none none }) }]

/-- The second turn and, behind a checkpoint, the fourth are rolled back; the third has two
messages. -/
def nestedRollbacks : List RolloutItem :=
  exampleTurn "first" ["a"] ++ exampleTurn "second" ["b"] ++ exampleRollback 1 ++
    exampleTurn "third" ["c", "d"] ++ exampleCheckpoint ["summary"] ++
    exampleTurn "fourth" ["e"] ++ exampleRollback 1

theorem surviving_turns_keep_messages_nested :
    Regular exampleEnvironment nestedRollbacks ∧
      ∀ turn ∈ turns exampleEnvironment nestedRollbacks, turn.segment.messages ≠ [] →
        (turn.survived = true ↔ ∃ position ∈ turn.segment.messages, some position ∈
          (replayFrom exampleEnvironment 0 nestedRollbacks []).messages exampleEnvironment) := by
  have h := (surviving_turns_keep_messages exampleEnvironment nestedRollbacks).2
  exact ⟨by decide +kernel, h.1.mpr (h.2 (by decide +kernel) (by decide +kernel))⟩

/-- Of the second turn only the second message is rolled back. -/
def rollbackInsideTurn : List RolloutItem :=
  exampleTurn "first" ["a"] ++ exampleTurn "second" ["b", "c"] ++ exampleRollback 1

/-- The scan skips the second turn and takes the settings of the first, but the replay leaves the
first message of the second. -/
theorem skipped_turn_keeps_message :
    (reverseScan exampleEnvironment rollbackInsideTurn).previousTurnSettings =
      some ⟨"first".toList, none, none⟩ ∧
    ∃ turn ∈ turns exampleEnvironment rollbackInsideTurn, turn.survived = false ∧
      ∃ position ∈ turn.segment.messages, some position ∈
        (replayFrom exampleEnvironment 0 rollbackInsideTurn []).messages exampleEnvironment := by
  decide +kernel

end Slopdex.Rollout
