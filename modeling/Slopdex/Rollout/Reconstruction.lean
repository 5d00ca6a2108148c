import Slopdex.Rollout.History

/-!
# Reconstruction of a session from its rollout

A resumed session reads its rollout twice. Backwards it collects the records into the segments of
turns, skips as many user turns as the rollbacks ask for, and takes from the others the newest
checkpoint and the settings; it stops once it has found them. Forwards it replays the records behind
the checkpoint on its history.
-/

namespace Slopdex.Rollout

open Protocol (Text)

structure PreviousTurnSettings where
  model : Text
  compHash : Option Text
  realtimeActive : Option Bool
  deriving DecidableEq

inductive TurnReferenceContextItem
  | neverSet
  | cleared
  | latest (item : TurnContextItem)
  deriving DecidableEq

structure ReconstructedWindow where
  number : ℕ
  (firstId previousId id : Option Text)

/-- A checkpoint with the records behind it, which begin at the position `start`. -/
structure ReplayCheckpoint where
  compacted : CompactedItem
  start : ℕ
  suffix : List RolloutItem

structure ActiveReplaySegment where
  turnId : Option Text := none
  countsAsUserTurn : Bool := false
  previousTurnSettings : Option PreviousTurnSettings := none
  referenceContextItem : TurnReferenceContextItem := .neverSet
  worldStateReplay : List RolloutItem := []
  baseCompaction : Option ReplayCheckpoint := none
  window : Option ReconstructedWindow := none
  /-- The positions of the user messages of the turn; the scan does not read them. -/
  messages : List ℕ := []

structure FinalizedSegment where
  segment : ActiveReplaySegment
  survived : Bool

structure ReverseScan where
  baseCompaction : Option ReplayCheckpoint := none
  previousTurnSettings : Option PreviousTurnSettings := none
  referenceContextItem : TurnReferenceContextItem := .neverSet
  worldStateReplay : List RolloutItem := []
  window : Option ReconstructedWindow := none
  pendingRollbackTurns : ℕ := 0
  activeSegment : Option ActiveReplaySegment := none
  /-- The segments that were finalized, newest first; the scan does not read them. -/
  finalized : List FinalizedSegment := []

/-- What a resumed session starts from. -/
structure RolloutReconstruction where
  history : List ResponseItemEnvelope
  previousTurnSettings : Option PreviousTurnSettings
  referenceContextItem : Option TurnContextItem
  worldStateBaseline : Option Text
  windowNumber : ℕ
  (firstWindowId previousWindowId windowId : Option Text)

def turnIdsAreCompatible (activeTurnId itemTurnId : Option Text) : Bool :=
  activeTurnId.all fun active ↦ itemTurnId.all fun item ↦ item == active

def RolloutItem.isCompacted : RolloutItem → Bool
  | .compacted _ => true
  | _ => false

def RolloutItem.isFullWorldState : RolloutItem → Bool
  | .worldState item => item.full
  | _ => false

namespace ActiveReplaySegment

def hasContextBaseline (segment : ActiveReplaySegment) : Bool :=
  segment.countsAsUserTurn ||
    (segment.worldStateReplay.takeWhile fun item ↦ !item.isCompacted).any
      RolloutItem.isFullWorldState

end ActiveReplaySegment

namespace ReverseScan

def finalizeActiveSegment (segment : ActiveReplaySegment) (scan : ReverseScan) : ReverseScan :=
  if 0 < scan.pendingRollbackTurns then
    { scan with
      pendingRollbackTurns :=
        if segment.countsAsUserTurn then scan.pendingRollbackTurns - 1
        else scan.pendingRollbackTurns
      finalized := scan.finalized ++ [⟨segment, false⟩] }
  else
    { scan with
      worldStateReplay := scan.worldStateReplay ++ segment.worldStateReplay
      baseCompaction := scan.baseCompaction.or segment.baseCompaction
      window := scan.window.or segment.window
      previousTurnSettings :=
        if scan.previousTurnSettings.isNone && segment.hasContextBaseline then
          segment.previousTurnSettings
        else scan.previousTurnSettings
      referenceContextItem :=
        if scan.referenceContextItem = .neverSet ∧
            (segment.hasContextBaseline ∨ segment.referenceContextItem = .cleared) then
          segment.referenceContextItem
        else scan.referenceContextItem
      finalized := scan.finalized ++ [⟨segment, true⟩] }

def onSegment (change : ActiveReplaySegment → ActiveReplaySegment) (scan : ReverseScan) :
    ReverseScan :=
  { scan with activeSegment := some (change (scan.activeSegment.getD {})) }

/-- Finalize the segment that is in progress. -/
def close (scan : ReverseScan) : ReverseScan :=
  match scan.activeSegment with
  | some segment => finalizeActiveSegment segment { scan with activeSegment := none }
  | none => scan

/-- Nothing older is needed. -/
def isComplete (scan : ReverseScan) : Bool :=
  scan.baseCompaction.isSome && scan.previousTurnSettings.isSome &&
    scan.referenceContextItem ≠ .neverSet

end ReverseScan

variable (env : Environment)

namespace ActiveReplaySegment

def seeCompacted (index : ℕ) (compacted : CompactedItem) (rest : List RolloutItem)
    (segment : ActiveReplaySegment) : ActiveReplaySegment :=
  { segment with
    worldStateReplay := segment.worldStateReplay ++ [.compacted compacted]
    window := segment.window.or (compacted.windowNumber.map fun number ↦
      { number
        firstId := compacted.firstWindowId.bind env.parseUuidV7
        previousId := compacted.previousWindowId.bind env.parseUuidV7
        id := compacted.windowId.bind env.parseUuidV7 })
    referenceContextItem :=
      if segment.referenceContextItem = .neverSet then .cleared
      else segment.referenceContextItem
    baseCompaction :=
      if segment.baseCompaction.isNone && compacted.replacementHistory.isSome then
        some ⟨compacted, index + 1, rest⟩
      else segment.baseCompaction }

/-- The newest reference of the segment stays, whereas older settings take the place of newer. -/
def seeTurnContext (context : TurnContextItem) (segment : ActiveReplaySegment) :
    ActiveReplaySegment :=
  let segment := { segment with turnId := segment.turnId.or context.turnId }
  if turnIdsAreCompatible segment.turnId context.turnId then
    { segment with
      previousTurnSettings := some ⟨context.model, context.compHash, context.realtimeActive⟩
      referenceContextItem :=
        if segment.referenceContextItem = .neverSet then .latest context
        else segment.referenceContextItem }
  else segment

def seeTurnId (turnId : Option Text) (segment : ActiveReplaySegment) : ActiveReplaySegment :=
  { segment with turnId := segment.turnId.or turnId }

def seeWorldState (item : RolloutItem) (segment : ActiveReplaySegment) : ActiveReplaySegment :=
  { segment with worldStateReplay := segment.worldStateReplay ++ [item] }

def seeUserMessageEvent (segment : ActiveReplaySegment) : ActiveReplaySegment :=
  { segment with countsAsUserTurn := true }

def seeMessage (index : ℕ) (segment : ActiveReplaySegment) : ActiveReplaySegment :=
  { segment with countsAsUserTurn := true, messages := index :: segment.messages }

end ActiveReplaySegment

open ActiveReplaySegment in
def scanItem (index : ℕ) (item : RolloutItem) (rest : List RolloutItem) (scan : ReverseScan) :
    ReverseScan :=
  match item with
  | .compacted compacted => scan.onSegment (seeCompacted env index compacted rest)
  | .eventMsg (.threadRolledBack numTurns) =>
    { scan with pendingRollbackTurns := scan.pendingRollbackTurns + numTurns }
  | .eventMsg (.turnComplete turnId) => scan.onSegment (seeTurnId (some turnId))
  | .eventMsg (.turnAborted turnId) =>
    -- an abort without a turn begins no segment
    if scan.activeSegment.isSome || turnId.isSome then scan.onSegment (seeTurnId turnId) else scan
  | .eventMsg (.userMessage _) => scan.onSegment seeUserMessageEvent
  | .turnContext context => scan.onSegment (seeTurnContext context)
  | .worldState _ => scan.onSegment (seeWorldState item)
  | .eventMsg (.turnStarted turnId) =>
    if scan.activeSegment.any fun segment ↦ turnIdsAreCompatible segment.turnId (some turnId) then
      scan.close
    else scan
  | .responseItem envelope =>
    if isUserTurnBoundary env.fragments envelope.item then scan.onSegment (seeMessage index)
    else scan.onSegment id
  | .interAgentCommunication _ => scan.onSegment (seeMessage index)
  | _ => scan

def scanFrom (index : ℕ) : List RolloutItem → ReverseScan
  | [] => {}
  | item :: rest =>
    let scan := scanFrom (index + 1) rest
    if scan.isComplete then scan else scanItem env index item rest scan

variable (items : List RolloutItem)

def reverseScan : ReverseScan := (scanFrom env 0 items).close

def replayItem (index : ℕ) (item : RolloutItem) (history : History) : History :=
  match item with
  | .responseItem envelope => history.recordItem env index envelope
  | .interAgentCommunication communication =>
    history.recordItem env index { item := communication.toModelInputItem }
  | .compacted compacted =>
    if compacted.replacementHistory.isNone then
      (env.buildCompactedHistory (history.map HistoryEntry.envelope) compacted.message).map
        (HistoryEntry.mk · none)
    else history
  | .eventMsg (.threadRolledBack numTurns) => history.dropLastNUserTurns env numTurns
  | _ => history

def replayFrom (index : ℕ) : List RolloutItem → History → History
  | [], history => history
  | item :: rest, history => replayFrom (index + 1) rest (replayItem env index item history)

def ReplayCheckpoint.history (checkpoint : ReplayCheckpoint) : History :=
  (checkpoint.compacted.replacementHistory.getD []).map (HistoryEntry.mk · none)

def historyFrom (scan : ReverseScan) : History :=
  match scan.baseCompaction with
  | some checkpoint => replayFrom env checkpoint.start checkpoint.suffix checkpoint.history
  | none => replayFrom env 0 items []

def replayWorldState (baseline : Option Text) : RolloutItem → Option Text
  | .compacted _ => none
  | .worldState item =>
    if item.full then some item.state else baseline.map (env.applyMergePatch · item.state)
  | _ => baseline

def RolloutItem.isLegacyCompaction : RolloutItem → Bool
  | .compacted item => item.replacementHistory.isNone
  | _ => false

/-- The window that the session began with; not known if a compaction does not number its window. -/
def initialWindow : Option ReconstructedWindow :=
  let unnumbered := items.any fun item ↦ match item with
    | .compacted compacted => compacted.windowNumber.isNone
    | _ => false
  if unnumbered then none
  else items.findSome? fun item ↦ match item with
    | .sessionMeta contextWindow => (contextWindow.bind env.parseUuidV7).map fun id ↦
        { number := 0, firstId := some id, previousId := none, id := some id }
    | _ => none

/-- The reconstruction from what a scan has found -/
def reconstructFrom (scan : ReverseScan) : RolloutReconstruction :=
  let suffix := (scan.baseCompaction.map ReplayCheckpoint.suffix).getD items
  let window := (scan.window.or (initialWindow env items)).getD
    { number := items.countP RolloutItem.isCompacted, firstId := none, previousId := none,
      id := none }
  { history := (historyFrom env items scan).map HistoryEntry.envelope
    previousTurnSettings := scan.previousTurnSettings
    referenceContextItem := match scan.referenceContextItem with
      | .latest item => if suffix.any RolloutItem.isLegacyCompaction then none else some item
      | _ => none
    worldStateBaseline := scan.worldStateReplay.reverse.foldl (replayWorldState env) none
    windowNumber := window.number
    firstWindowId := window.firstId
    previousWindowId := window.previousId
    windowId := window.id }

/-- `reconstruct_history_from_rollout` -/
def reconstructHistoryFromRollout : RolloutReconstruction :=
  reconstructFrom env items (reverseScan env items)

/-- The loop without the early end -/
def scanWhole (index : ℕ) : List RolloutItem → ReverseScan
  | [] => {}
  | item :: rest => scanItem env index item rest (scanWhole (index + 1) rest)

/-- The turns of the rollout, newest first, each with whether the rollbacks leave it. -/
def turns : List FinalizedSegment := (scanWhole env 0 items).close.finalized

namespace ReverseScan

def outcome (scan : ReverseScan) :
    Option ReplayCheckpoint × Option PreviousTurnSettings × TurnReferenceContextItem :=
  (scan.baseCompaction, scan.previousTurnSettings, scan.referenceContextItem)

variable {scan : ReverseScan}

theorem isComplete_iff : scan.isComplete = true ↔ scan.baseCompaction.isSome ∧
    scan.previousTurnSettings.isSome ∧ scan.referenceContextItem ≠ .neverSet := by
  unfold isComplete
  simp only [Bool.and_eq_true, decide_eq_true_eq, and_assoc]

theorem isComplete_of_outcome_eq {other : ReverseScan} (h : other.outcome = scan.outcome) :
    other.isComplete = scan.isComplete := by
  unfold outcome at h
  simp only [Prod.mk.injEq] at h
  unfold isComplete
  rw [h.1, h.2.1, h.2.2]

structure Settles (scan later : ReverseScan) : Prop where
  outcome_eq : later.outcome = scan.outcome
  window_eq : scan.window.isSome → later.window = scan.window
  replay : scan.worldStateReplay <+: later.worldStateReplay
  finalized : scan.finalized <+: later.finalized

theorem Settles.refl (scan : ReverseScan) : scan.Settles scan :=
  ⟨rfl, fun _ ↦ rfl, List.prefix_rfl, List.prefix_rfl⟩

theorem Settles.trans {next later : ReverseScan} (h : scan.Settles next) (h' : next.Settles later) :
    scan.Settles later where
  outcome_eq := h'.outcome_eq.trans h.outcome_eq
  window_eq hwindow :=
    (h'.window_eq ((h.window_eq hwindow).symm ▸ hwindow)).trans (h.window_eq hwindow)
  replay := h.replay.trans h'.replay
  finalized := h.finalized.trans h'.finalized

theorem settles_finalizeActiveSegment (h : scan.isComplete = true) (segment : ActiveReplaySegment) :
    scan.Settles (finalizeActiveSegment segment scan) := by
  obtain ⟨hb, hc, hr⟩ := isComplete_iff.mp h
  unfold finalizeActiveSegment
  by_cases hp : 0 < scan.pendingRollbackTurns
  · rw [if_pos hp]
    exact ⟨rfl, fun _ ↦ rfl, List.prefix_rfl, List.prefix_append ..⟩
  · have hf : ¬ (scan.previousTurnSettings.isNone && segment.hasContextBaseline) = true := by
      simp [Option.isNone_eq_false_iff.mpr hc]
    rw [if_neg hp, if_neg hf, if_neg fun hn ↦ hr hn.1]
    refine ⟨?_, fun hwindow ↦ Option.or_of_isSome hwindow, List.prefix_append ..,
      List.prefix_append ..⟩
    rw [outcome, Option.or_of_isSome hb, outcome]

theorem settles_close (h : scan.isComplete = true) : scan.Settles scan.close := by
  unfold close
  split
  next segment _ =>
    let inactive : ReverseScan := { scan with activeSegment := none }
    have hi : scan.Settles inactive := ⟨rfl, fun _ ↦ rfl, List.prefix_rfl, List.prefix_rfl⟩
    have hcmpl : inactive.isComplete = true := h
    exact hi.trans (settles_finalizeActiveSegment hcmpl segment)
  next => exact .refl scan

end ReverseScan

variable {env}

theorem settles_scanItem {scan : ReverseScan} (h : scan.isComplete = true) (index : ℕ)
    (item : RolloutItem) (rest : List RolloutItem) :
    scan.Settles (scanItem env index item rest scan) := by
  unfold scanItem
  split <;> try exact ⟨rfl, fun _ ↦ rfl, List.prefix_rfl, List.prefix_rfl⟩
  all_goals split_ifs <;> try exact ⟨rfl, fun _ ↦ rfl, List.prefix_rfl, List.prefix_rfl⟩
  exact ReverseScan.settles_close h

variable (env) in
/-- Nothing is found behind the end of the loop that the loop has not found. -/
theorem scanFrom_eq_or_settles (index : ℕ) (items : List RolloutItem) :
    scanFrom env index items = scanWhole env index items ∨
      (scanFrom env index items).isComplete = true ∧
        (scanFrom env index items).Settles (scanWhole env index items) := by
  induction items generalizing index with
  | nil => exact .inl rfl
  | cons _ rest ih =>
    rw [scanFrom, scanWhole]
    by_cases hcmpl : (scanFrom env (index + 1) rest).isComplete = true
    · rw [if_pos hcmpl]
      refine .inr ⟨hcmpl, ?_⟩
      rcases ih (index + 1) with heq | ⟨-, hs⟩
      · exact heq ▸ settles_scanItem hcmpl ..
      · have hwhole : (scanWhole env (index + 1) rest).isComplete = true :=
          (ReverseScan.isComplete_of_outcome_eq hs.outcome_eq).trans hcmpl
        exact hs.trans (settles_scanItem hwhole ..)
    · rw [if_neg hcmpl]
      rcases ih (index + 1) with heq | ⟨hc', -⟩
      · exact .inl (by rw [heq])
      · exact absurd hc' hcmpl

variable (env) in
/-- The early end changes nothing, or it comes when nothing older is needed. -/
theorem reverseScan_eq_or_settles :
    reverseScan env items = (scanWhole env 0 items).close ∨
      (scanFrom env 0 items).isComplete = true ∧
        (scanFrom env 0 items).Settles (reverseScan env items) ∧
        (scanFrom env 0 items).Settles (scanWhole env 0 items).close := by
  unfold reverseScan
  rcases scanFrom_eq_or_settles env 0 items with heq | ⟨hcmpl, hs⟩
  · exact .inl (by rw [heq])
  · have hwhole : (scanWhole env 0 items).isComplete = true :=
      (ReverseScan.isComplete_of_outcome_eq hs.outcome_eq).trans hcmpl
    exact .inr ⟨hcmpl, ReverseScan.settles_close hcmpl,
      hs.trans (ReverseScan.settles_close hwhole)⟩

theorem outcome_reverseScan :
    (reverseScan env items).outcome = (scanWhole env 0 items).close.outcome := by
  rcases reverseScan_eq_or_settles env items with heq | ⟨-, hstop, hwhole⟩
  · rw [heq]
  · exact hstop.outcome_eq.trans hwhole.outcome_eq.symm

end Slopdex.Rollout
