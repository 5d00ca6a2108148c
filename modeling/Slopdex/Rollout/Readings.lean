import Slopdex.Rollout.Reconstruction

/-!
# What the two readings of a rollout see in a record

The forward replay sees messages, of which a rollback drops the newest, and a compaction without a
replacement history all. The reverse scan sees turns, of which a rollback skips the next ones of the
user. Both counts are taken from the end of the rollout.
-/

namespace Slopdex.Rollout

open Protocol (Text)
open RolloutItem Option List

/-- The part of a record that decides which messages and turns are left. -/
inductive Reading
  | rollback (numTurns : ℕ)
  | start (turnId : Text)
  | message
  /-- Part of a turn, which it may name; or the event of a user message, which marks the turn -/
  | part (turnId : Option Text) (userMessage : Bool)
  | silent

/-- A turn whose start is still to come, reading from the end of the rollout. -/
structure TurnInProgress where
  turnId : Option Text := none
  isUserTurn : Bool := false
  /-- Whether one of its messages is left; nothing for a turn without messages -/
  keepsMessage : Option Bool := none

/-- A turn and how many user turns are to be skipped at its start. -/
structure CountedTurn where
  turn : TurnInProgress
  skips : ℕ

variable (env : Environment)

def RolloutItem.reading : RolloutItem → Reading
  | .eventMsg (.threadRolledBack numTurns) => .rollback numTurns
  | .eventMsg (.turnStarted turnId) => .start turnId
  | .eventMsg (.turnComplete turnId) => .part (some turnId) false
  | .eventMsg (.turnAborted (some turnId)) => .part (some turnId) false
  | .eventMsg (.userMessage _) => .part none true
  | .responseItem envelope =>
    if isUserTurnBoundary env.fragments envelope.item then .message else .part none false
  | .interAgentCommunication _ => .message
  | .turnContext item => .part item.turnId false
  | .compacted _ => .part none false
  | .worldState _ => .part none false
  | _ => .silent

/-- How many messages in front of the records they ask to drop. -/
def demand : List RolloutItem → ℕ
  | [] => 0
  | item :: rest => match item.reading env with
    | .rollback numTurns => demand rest + numTurns
    | .message => demand rest - 1
    | _ => demand rest

/-- The records leave a message that stands in front of them. -/
def leavesMessage (items : List RolloutItem) : Bool :=
  demand env items == 0 && items.all fun item ↦ !item.isLegacyCompaction

def turnInProgress : List RolloutItem → Option TurnInProgress
  | [] => none
  | item :: rest =>
    let turn := (turnInProgress rest).getD {}
    match item.reading env with
    | .start turnId =>
      (turnInProgress rest).filter fun turn ↦ !turnIdsAreCompatible turn.turnId (some turnId)
    | .message =>
      some { turn with
        isUserTurn := true
        keepsMessage := some (turn.keepsMessage.getD false || leavesMessage env rest) }
    | .part turnId userMessage =>
      some { turn with
        turnId := turn.turnId.or turnId, isUserTurn := turn.isUserTurn || userMessage }
    | .rollback _ | .silent => turnInProgress rest

/-- The turn that a record starts. -/
def startedTurn (item : RolloutItem) (rest : List RolloutItem) : Option TurnInProgress :=
  match item.reading env with
  | .start turnId =>
    (turnInProgress env rest).filter fun turn ↦ turnIdsAreCompatible turn.turnId (some turnId)
  | _ => none

/-- How many user turns in front of the records they ask to skip. -/
def skips : List RolloutItem → ℕ
  | [] => 0
  | item :: rest => match item.reading env with
    | .rollback numTurns => skips rest + numTurns
    | _ => if (startedTurn env item rest).any TurnInProgress.isUserTurn then skips rest - 1
      else skips rest

def startedTurns : List RolloutItem → List CountedTurn
  | [] => []
  | item :: rest => startedTurns rest ++
      ((startedTurn env item rest).map fun turn ↦ ⟨turn, skips env rest⟩).toList

/-- The turns of the rollout, newest first; the records before the first start count as one. -/
def countedTurns (items : List RolloutItem) : List CountedTurn :=
  startedTurns env items ++
    ((turnInProgress env items).map fun turn ↦ ⟨turn, skips env items⟩).toList

/-- A turn is to be skipped exactly if all its messages are to be dropped. -/
def CountedTurn.Agrees (counted : CountedTurn) : Prop :=
  ∀ keeps ∈ counted.turn.keepsMessage, (counted.skips = 0 ↔ keeps = true)

instance (counted : CountedTurn) : Decidable counted.Agrees :=
  inferInstanceAs (Decidable (∀ keeps ∈ counted.turn.keepsMessage, _))

/-- The count of turns and the count of messages come to the same for every turn. -/
def CountsAgree (items : List RolloutItem) : Prop :=
  ∀ counted ∈ countedTurns env items, counted.Agrees

instance (items : List RolloutItem) : Decidable (CountsAgree env items) :=
  inferInstanceAs (Decidable (∀ counted ∈ countedTurns env items, _))

/-- The message at a position is left by the records from `index` on. -/
def Kept (index : ℕ) : List RolloutItem → ℕ → Prop
  | [], _ => False
  | item :: rest, position =>
    if position = index then item.reading env = .message ∧ leavesMessage env rest = true
    else Kept (index + 1) rest position

variable {env} {item : RolloutItem} {index position : ℕ} {items rest : List RolloutItem}
  {history : History}

theorem leavesMessage_iff : leavesMessage env items = true ↔
    demand env items = 0 ∧ ∀ item ∈ items, item.isLegacyCompaction = false := by
  simp [leavesMessage]

/-- A start record starts the turn in progress if it can be its own, and else changes nothing. -/
theorem startedTurn_cases {turnId : Text} (h : item.reading env = .start turnId) :
    (startedTurn env item rest = none ∧
      turnInProgress env (item :: rest) = turnInProgress env rest ∧
      ∀ turn ∈ turnInProgress env rest, turnIdsAreCompatible turn.turnId (some turnId) = false) ∨
    ∃ turn, startedTurn env item rest = some turn ∧ turnInProgress env rest = some turn ∧
      turnIdsAreCompatible turn.turnId (some turnId) = true ∧
      turnInProgress env (item :: rest) = none := by
  rw [startedTurn, turnInProgress, h]
  cases turnInProgress env rest with
  | none => exact .inl ⟨rfl, rfl, nofun⟩
  | some turn =>
    cases hc : turnIdsAreCompatible turn.turnId (some turnId) with
    | false => exact .inl (by simp [Option.filter_some, hc])
    | true => exact .inr ⟨turn, by simp [Option.filter_some, hc]⟩

/-- Whether a message is left depends on what is behind it. -/
theorem kept_cons_iff (h : index < position) :
    Kept env index (item :: rest) position ↔ Kept env (index + 1) rest position :=
  iff_of_eq (if_neg h.ne')

theorem kept_message_iff (h : item.reading env = .message) :
    Kept env index (item :: rest) index ↔ leavesMessage env rest = true :=
  (iff_of_eq (if_pos rfl)).trans (and_iff_right h)

/-! ## The messages that a replay leaves -/

theorem messages_replayItem (h : item.isLegacyCompaction = false) (index : ℕ) (history : History) :
    (replayItem env index item history).messages env = match item.reading env with
      | .rollback numTurns => (history.messages env).rdrop numTurns
      | .message => history.messages env ++ [some index]
      | _ => history.messages env := by
  cases item with
  | responseItem envelope =>
    change (history.recordItem env index envelope).messages env = _
    rw [History.messages_recordItem, reading]
    split_ifs <;> rfl
  | interAgentCommunication communication =>
    change (history.recordItem env index { item := communication.toModelInputItem }).messages env = _
    rw [History.messages_recordItem]
    exact if_pos rfl
  | compacted compacted =>
    have hs : ¬ compacted.replacementHistory.isNone = true := by
      rw [Bool.not_eq_true]
      exact h
    exact congrArg (History.messages env) (if_neg hs)
  | eventMsg event =>
    cases event with
    | threadRolledBack numTurns => exact History.messages_dropLastNUserTurns numTurns history
    | turnAborted turnId => cases turnId <;> rfl
    | _ => rfl
  | _ => rfl

/-- A legacy compaction builds a new history, of whose items none has a position. -/
theorem not_mem_messages_of_legacy (h : item.isLegacyCompaction = true) :
    some position ∉ (replayItem env index item history).messages env := by
  cases item with
  | compacted compacted =>
    have heq : replayItem env index (.compacted compacted) history = _ := if_pos h
    rw [heq]
    unfold History.messages
    simp
  | _ => cases h

/-- Of the messages before the records as many are dropped as these ask for. -/
theorem mem_replayFrom_older_iff (h : position < index) :
    some position ∈ (replayFrom env index items history).messages env ↔
      some position ∈ (history.messages env).rdrop (demand env items) ∧
        ∀ item ∈ items, item.isLegacyCompaction = false := by
  induction items generalizing index history with
  | nil =>
    rw [replayFrom, demand, rdrop_zero]
    exact (and_iff_left (forall_mem_nil _)).symm
  | cons item rest ih =>
    rw [replayFrom, ih (h.trans (Nat.lt_succ_self index)), forall_mem_cons]
    cases hlegacy : item.isLegacyCompaction with
    | true =>
      refine iff_of_false (fun hm ↦ ?_) (fun hm ↦ Bool.noConfusion hm.2.1)
      exact not_mem_messages_of_legacy hlegacy (mem_of_mem_take hm.1)
    | false =>
      rw [messages_replayItem hlegacy, demand, and_iff_right rfl]
      apply and_congr_left
      intro _
      cases item.reading env with
      | rollback numTurns =>
        dsimp only
        simp only [rdrop_eq_reverse_drop_reverse, reverse_reverse, drop_drop, Nat.add_comm]
      | message =>
        dsimp only
        have hne : some position ≠ some index := fun heq ↦ h.ne (some.inj heq)
        cases demand env rest with
        | zero => rw [rdrop_zero, rdrop_zero, mem_append, mem_singleton, or_iff_left hne]
        | succ n => rw [rdrop_concat_succ, Nat.add_sub_cancel]
      | _ => rfl

theorem lt_of_mem_replayItem (h : ∀ position, some position ∈ history.messages env → position < index)
    (hm : some position ∈ (replayItem env index item history).messages env) :
    position < index + 1 := by
  cases hlegacy : item.isLegacyCompaction with
  | true => exact absurd hm (not_mem_messages_of_legacy hlegacy)
  | false =>
    rw [messages_replayItem hlegacy] at hm
    cases hr : item.reading env with
    | rollback =>
      rw [hr] at hm
      exact (h position (mem_of_mem_take hm)).trans (Nat.lt_succ_self index)
    | message =>
      rw [hr] at hm
      cases mem_append.mp hm with
      | inl hold => exact (h position hold).trans (Nat.lt_succ_self index)
      | inr hn => exact Nat.lt_succ_of_le (some.inj (mem_singleton.mp hn)).le
    | _ =>
      rw [hr] at hm
      exact (h position hm).trans (Nat.lt_succ_self index)

theorem mem_replayFrom_iff (h : ∀ position, some position ∈ history.messages env → position < index)
    (hle : index ≤ position) :
    some position ∈ (replayFrom env index items history).messages env ↔
      Kept env index items position := by
  induction items generalizing index history with
  | nil => exact iff_of_false (fun hm ↦ absurd (h position hm) hle.not_gt) id
  | cons item rest ih =>
    rw [replayFrom]
    cases hle.lt_or_eq with
    | inl hlt =>
      rw [kept_cons_iff hlt]
      exact ih (fun _ ↦ lt_of_mem_replayItem h) hlt
    | inr heq =>
      subst heq
      have hn : some index ∉ history.messages env := fun hm ↦ (h index hm).false
      rw [mem_replayFrom_older_iff (Nat.lt_succ_self index), Kept, if_pos rfl, leavesMessage_iff,
        ← and_assoc]
      apply and_congr_left
      intro _
      cases hlegacy : item.isLegacyCompaction with
      | true =>
        refine iff_of_false (fun hm ↦ not_mem_messages_of_legacy hlegacy (mem_of_mem_take hm)) ?_
        cases item with
        | compacted => nofun
        | _ => cases hlegacy
      | false =>
        rw [messages_replayItem hlegacy]
        cases item.reading env with
        | message =>
          rw [and_iff_right rfl]
          dsimp only
          cases demand env rest with
          | zero => exact iff_of_true (by simp) rfl
          | succ n =>
            rw [rdrop_concat_succ]
            exact iff_of_false (fun hm ↦ hn (mem_of_mem_take hm)) n.succ_ne_zero
        | rollback =>
          exact iff_of_false (fun hm ↦ hn (mem_of_mem_take (mem_of_mem_take hm))) nofun
        | _ => exact iff_of_false (fun hm ↦ hn (mem_of_mem_take hm)) nofun

section ReverseScan

open ActiveReplaySegment

variable (index rest) (scan : ReverseScan)

theorem scanItem_of_rollback {numTurns : ℕ} (h : item.reading env = .rollback numTurns) :
    scanItem env index item rest scan =
      { scan with pendingRollbackTurns := scan.pendingRollbackTurns + numTurns } := by
  unfold reading at h
  split at h <;> try cases h
  · rfl
  · split_ifs at h

theorem scanItem_of_start {turnId : Text} (h : item.reading env = .start turnId) :
    scanItem env index item rest scan =
      if scan.activeSegment.any fun segment ↦ turnIdsAreCompatible segment.turnId (some turnId) then
        scan.close
      else scan := by
  unfold reading at h
  split at h <;> try cases h
  · rfl
  · split_ifs at h

theorem scanItem_of_message (h : item.reading env = .message) :
    scanItem env index item rest scan = scan.onSegment (seeMessage index) := by
  unfold reading at h
  split at h <;> try cases h
  · split_ifs at h with hb
    exact if_pos hb
  · rfl

theorem scanItem_of_part {turnId : Option Text} {userMessage : Bool}
    (h : item.reading env = .part turnId userMessage) :
    ∃ change : ActiveReplaySegment → ActiveReplaySegment,
      scanItem env index item rest scan = scan.onSegment change ∧
      ∀ segment, (change segment).turnId = segment.turnId.or turnId ∧
        (change segment).countsAsUserTurn = (segment.countsAsUserTurn || userMessage) ∧
        (change segment).messages = segment.messages := by
  have hk : ∀ segment : ActiveReplaySegment, segment.turnId = segment.turnId.or none ∧
      segment.countsAsUserTurn = (segment.countsAsUserTurn || false) ∧
      segment.messages = segment.messages :=
    fun segment ↦ ⟨or_none.symm, (Bool.or_false _).symm, rfl⟩
  unfold reading at h
  split at h <;> try cases h
  next => exact ⟨_, rfl, fun segment ↦ ⟨rfl, (Bool.or_false _).symm, rfl⟩⟩
  next =>
    exact ⟨_, if_pos (Bool.or_true _), fun segment ↦ ⟨rfl, (Bool.or_false _).symm, rfl⟩⟩
  next =>
    refine ⟨_, rfl, fun segment ↦ ?_⟩
    exact ⟨or_none.symm, (Bool.or_true _).symm, rfl⟩
  next =>
    split_ifs at h with hb
    cases h
    exact ⟨_, if_neg hb, hk⟩
  next =>
    refine ⟨_, rfl, fun segment ↦ ?_⟩
    unfold seeTurnContext
    dsimp only
    split_ifs <;> exact ⟨rfl, (Bool.or_false _).symm, rfl⟩
  all_goals
    refine ⟨_, rfl, ?_⟩
    exact hk

theorem scanItem_of_silent (h : item.reading env = .silent) :
    scanItem env index item rest scan = scan := by
  cases item with
  | responseItem =>
    unfold reading at h
    dsimp only at h
    split_ifs at h
  | eventMsg event =>
    cases event with
    | turnAborted turnId =>
      cases turnId with
      | some => cases h
      | none =>
        -- an abort that names no turn leaves the segment in progress as it is
        unfold scanItem
        cases hact : scan.activeSegment with
        | none => rfl
        | some =>
          change scan.onSegment (seeTurnId none) = scan
          unfold ReverseScan.onSegment seeTurnId
          rw [hact, getD_some, or_none, ← hact]
    | itemCompleted | other => rfl
    | _ => cases h
  | interAgentCommunication | compacted | turnContext | worldState => cases h
  | _ => rfl

end ReverseScan

end Slopdex.Rollout
