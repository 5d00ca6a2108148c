import Slopdex.Rollout.SurvivingTurns

/-!
# The early end of the reverse scan

The scan ends before the first record once the newest turns that survive hold a checkpoint, settings
and a reference. The history, the settings, the reference and the world state are then known. The
window is not, if the compactions of these turns have no window numbers.
-/

namespace Slopdex.Rollout

open Protocol (Text)
open ActiveReplaySegment RolloutItem List

variable {env : Environment} {items : List RolloutItem} {scan : ReverseScan}

/-- Turns with a checkpoint, settings and a reference -/
def enough (turns : List ActiveReplaySegment) : Bool :=
  turns.any (·.baseCompaction.isSome) && turns.any (·.settings.isSome) &&
    turns.any (·.reference.isSome)

theorem enough_mono {newer turns : List ActiveReplaySegment} (hle : newer <+: turns)
    (h : enough newer = true) : enough turns = true := by
  obtain ⟨older, rfl⟩ := hle
  simp only [enough, any_append, Bool.and_eq_true, Bool.or_eq_true] at h ⊢
  exact ⟨⟨.inl h.1.1, .inl h.1.2⟩, .inl h.2⟩

theorem isSome_findSome? {α β : Type} (f : α → Option β) (xs : List α) :
    (xs.findSome? f).isSome = xs.any fun x ↦ (f x).isSome := by
  rw [Bool.eq_iff_iff, findSome?_isSome_iff, any_eq_true]

namespace ReverseScan

/-- A scan has found what is newest in the turns that survive. -/
structure Newest (scan : ReverseScan) : Prop where
  outcome_eq : scan.outcome = newestOf (surviving scan.finalized)
  window_eq : scan.window = (surviving scan.finalized).findSome? ActiveReplaySegment.window

theorem isComplete_eq (h : scan.Newest) : scan.isComplete = enough (surviving scan.finalized) := by
  have houtcome := h.outcome_eq
  simp only [outcome, newestOf, Prod.mk.injEq] at houtcome
  obtain ⟨hbase, hsettings, hreference⟩ := houtcome
  rw [isComplete, enough, hbase, hsettings, isSome_findSome?, isSome_findSome?, hreference,
    ← isSome_findSome? ActiveReplaySegment.reference]
  congr 1
  cases hfind : (surviving scan.finalized).findSome? ActiveReplaySegment.reference with
  | none => rfl
  | some reference =>
    obtain ⟨_, -, hseg⟩ := exists_of_findSome?_eq_some hfind
    exact decide_eq_true (ne_neverSet_of_reference_eq hseg)

theorem surviving_close (scan : ReverseScan) :
    surviving scan.close.finalized = surviving scan.finalized ∨
      ∃ segment, surviving scan.close.finalized = surviving scan.finalized ++ [segment] := by
  unfold close
  split
  next segment _ =>
    rw [finalized_finalizeActiveSegment]
    by_cases hpending : scan.pendingRollbackTurns = 0
    · exact .inr ⟨segment, by simp [surviving, hpending]⟩
    · exact .inl (by simp [surviving, hpending])
  next => exact .inl rfl

theorem Newest.close (h : scan.Newest) : scan.close.Newest := by
  refine ⟨outcome_close_eq h.outcome_eq, ?_⟩
  unfold ReverseScan.close
  split
  next segment _ =>
    unfold finalizeActiveSegment
    by_cases hpending : 0 < scan.pendingRollbackTurns
    · simp [hpending, surviving, h.window_eq]
    · simp [hpending, surviving, h.window_eq, findSome?_append, findSome?_singleton]
  next => exact h.window_eq

/-- A scan that ends as soon as its turns suffice -/
structure Stops (scan : ReverseScan) : Prop extends scan.Newest where
  minimal : enough (surviving scan.finalized).dropLast = false
  idle : enough (surviving scan.finalized) = true → scan.activeSegment = none

theorem Stops.scanItem (h : scan.Stops) (hopen : scan.isComplete = false) (index : ℕ)
    (item : RolloutItem) (rest : List RolloutItem) : (scanItem env index item rest scan).Stops := by
  have henough : enough (surviving scan.finalized) = false :=
    (isComplete_eq h.toNewest).symm.trans hopen
  rcases scanItem_cases index item rest scan with ⟨change, heq⟩ | ⟨pending, heq⟩ | heq
  · rw [heq]
    exact ⟨⟨h.outcome_eq, h.window_eq⟩, h.minimal, fun hall ↦ absurd (hall.symm.trans henough) nofun⟩
  · rw [heq]
    exact ⟨⟨h.outcome_eq, h.window_eq⟩, h.minimal, h.idle⟩
  · rw [heq]
    refine ⟨h.toNewest.close, ?_, fun _ ↦ ?_⟩
    · rcases surviving_close scan with hsame | ⟨segment, hmore⟩
      · rw [hsame]
        exact h.minimal
      · rw [hmore, dropLast_concat]
        exact henough
    · unfold ReverseScan.close
      split
      next => exact activeSegment_finalizeActiveSegment _
      next hnone => exact hnone

end ReverseScan

open ReverseScan

variable (env) in
theorem stops_scanFrom (index : ℕ) (items : List RolloutItem) :
    (scanFrom env index items).Stops := by
  induction items generalizing index with
  | nil => exact ⟨⟨rfl, rfl⟩, rfl, nofun⟩
  | cons item rest ih =>
    rw [scanFrom]
    split_ifs with hcomplete
    · exact ih (index + 1)
    · exact (ih (index + 1)).scanItem (Bool.eq_false_of_not_eq_true hcomplete) ..

variable (env) in
theorem newest_scanWhole (index : ℕ) (items : List RolloutItem) :
    (scanWhole env index items).Newest := by
  induction items generalizing index with
  | nil => exact ⟨rfl, rfl⟩
  | cons item rest ih =>
    rw [scanWhole]
    have hrest := ih (index + 1)
    rcases scanItem_cases index item rest (scanWhole env (index + 1) rest) with
      ⟨change, heq⟩ | ⟨pending, heq⟩ | heq
    · rw [heq]
      exact ⟨hrest.outcome_eq, hrest.window_eq⟩
    · rw [heq]
      exact ⟨hrest.outcome_eq, hrest.window_eq⟩
    · rw [heq]
      exact hrest.close

/-- No fewer turns than the scan has read are enough. -/
theorem minimal_reverseScan (env : Environment) (items : List RolloutItem) :
    enough (surviving (reverseScan env items).finalized).dropLast = false := by
  have hstops := stops_scanFrom env 0 items
  rcases henough : enough (surviving (scanFrom env 0 items).finalized) with _ | _
  · rcases surviving_close (scanFrom env 0 items) with hsame | ⟨segment, hmore⟩
    · rw [reverseScan, hsame]
      exact hstops.minimal
    · rw [reverseScan, hmore, dropLast_concat]
      exact henough
  · rw [reverseScan, close, hstops.idle henough]
    exact hstops.minimal

/-- The turns that suffice are at least those that the scan has read. -/
theorem read_of_enough {newer older : List ActiveReplaySegment}
    (hsplit : surviving (turns env items) = newer ++ older) (henough : enough newer = true)
    (hread : surviving (reverseScan env items).finalized <+: surviving (turns env items)) :
    surviving (reverseScan env items).finalized <+: newer := by
  have hminimal := minimal_reverseScan env items
  generalize surviving (reverseScan env items).finalized = read at hread hminimal
  rw [hsplit] at hread
  by_cases hlength : read.length ≤ newer.length
  · exact prefix_of_prefix_length_le hread (prefix_append ..) hlength
  · have hlast : read.dropLast <+: newer ++ older := ( dropLast_prefix read).trans hread
    have hshort : newer <+: read.dropLast := by
      refine prefix_of_prefix_length_le (prefix_append newer older) hlast ?_
      rw [length_dropLast]
      omega
    rw [enough_mono hshort henough] at hminimal
    cases hminimal

/-! ## What a checkpoint settles -/

/-- A checkpoint comes with a window, unless a compaction is `unnumbered`, and with a compaction among
the records of the world state. -/
def Anchors (unnumbered : Prop) (baseCompaction : Option ReplayCheckpoint)
    (window : Option ReconstructedWindow) (replay : List RolloutItem) : Prop :=
  baseCompaction.isSome → (window.isSome ∨ unnumbered) ∧ replay.any isCompacted

def ActiveReplaySegment.Anchored (unnumbered : Prop) (segment : ActiveReplaySegment) : Prop :=
  Anchors unnumbered segment.baseCompaction segment.window segment.worldStateReplay

structure ReverseScan.Anchored (unnumbered : Prop) (scan : ReverseScan) : Prop where
  found : Anchors unnumbered scan.baseCompaction scan.window scan.worldStateReplay
  active : (scan.activeSegment.getD {}).Anchored unnumbered

variable {unnumbered : Prop}

theorem Anchors.or {base base' : Option ReplayCheckpoint}
    {window window' : Option ReconstructedWindow}
    {replay replay' : List RolloutItem} (h : Anchors unnumbered base window replay)
    (h' : Anchors unnumbered base' window' replay') :
    Anchors unnumbered (base.or base') (window.or window') (replay ++ replay') := by
  unfold Anchors at h h' ⊢
  simp only [Option.isSome_or, Bool.or_eq_true, any_append]
  rintro (hb | hb)
  · exact ⟨(h hb).1.imp_left .inl, .inl (h hb).2⟩
  · exact ⟨(h' hb).1.imp_left .inr, .inr (h' hb).2⟩

namespace ReverseScan.Anchored

theorem close (h : scan.Anchored unnumbered) : scan.close.Anchored unnumbered := by
  have ha := h.active
  unfold ReverseScan.close
  split
  next segment hs =>
    rw [hs] at ha
    unfold finalizeActiveSegment
    by_cases hp : 0 < scan.pendingRollbackTurns
    · rw [if_pos hp]
      exact ⟨h.found, nofun⟩
    · rw [if_neg hp]
      exact ⟨h.found.or ha, nofun⟩
  next => exact h

theorem onSegment (h : scan.Anchored unnumbered)
    {change : ActiveReplaySegment → ActiveReplaySegment}
    (hc : ∀ segment : ActiveReplaySegment,
      segment.Anchored unnumbered → (change segment).Anchored unnumbered) :
    (scan.onSegment change).Anchored unnumbered :=
  ⟨h.found, hc _ h.active⟩

theorem scanItem {item : RolloutItem} (h : scan.Anchored unnumbered) (index : ℕ)
    (rest : List RolloutItem)
    (hi : ∀ compacted, item = .compacted compacted → compacted.windowNumber = none → unnumbered) :
    (scanItem env index item rest scan).Anchored unnumbered := by
  unfold Rollout.scanItem
  cases item with
  | compacted compacted =>
    refine h.onSegment fun segment _ _ ↦ ⟨?_, by simp [seeCompacted, isCompacted]⟩
    cases hnumber : compacted.windowNumber with
    | none => exact .inr (hi compacted rfl hnumber)
    | some => simp [seeCompacted, hnumber]
  | worldState =>
    exact h.onSegment fun segment hs hb ↦
      ⟨(hs hb).1, by simpa [seeWorldState, isCompacted] using (hs hb).2⟩
  | turnContext context =>
    refine h.onSegment fun segment hs ↦ ?_
    unfold seeTurnContext
    dsimp only
    split_ifs <;> exact hs
  | eventMsg event =>
    cases event with dsimp only
    | turnStarted =>
      split_ifs
      · exact h.close
      · exact h
    | turnAborted =>
      split_ifs
      · exact h.onSegment fun _ hs ↦ hs
      · exact h
    | turnComplete | userMessage => exact h.onSegment fun _ hs ↦ hs
    | _ => exact ⟨h.found, h.active⟩
  | responseItem =>
    dsimp only
    split_ifs <;> exact h.onSegment fun _ hs ↦ hs
  | interAgentCommunication => exact h.onSegment fun _ hs ↦ hs
  | _ => exact h

end ReverseScan.Anchored

theorem anchored_scanFrom (index : ℕ) (h : ∀ compacted, .compacted compacted ∈ items →
    compacted.windowNumber = none → unnumbered) : (scanFrom env index items).Anchored unnumbered := by
  induction items generalizing index with
  | nil => exact ⟨nofun, nofun⟩
  | cons item rest ih =>
    have hr := ih (index + 1) fun compacted hm ↦ h compacted (.tail _ hm)
    unfold scanFrom
    dsimp only
    split_ifs
    · exact hr
    · exact hr.scanItem index rest fun compacted heq ↦ h compacted (heq ▸ .head _)

/-- What comes before a compaction is no part of the world state. -/
theorem foldl_replayWorldState {replay : List RolloutItem} (h : replay.any isCompacted)
    (baseline : Option Text) :
    replay.foldl (replayWorldState env) baseline = replay.foldl (replayWorldState env) none := by
  induction replay generalizing baseline with
  | nil => cases h
  | cons item replay ih =>
    by_cases hr : replay.any isCompacted
    · rw [foldl_cons, ih hr, foldl_cons, ← ih hr]
    · have hi : item.isCompacted := by simpa [hr] using h
      cases item with
      | compacted => rfl
      | _ => cases hi

/-- The window that the count of the compactions stands in for -/
def countedWindow (items : List RolloutItem) : ReconstructedWindow :=
  ⟨items.countP isCompacted, none, none, none⟩

theorem initialWindow_eq_none (h : ∃ compacted, .compacted compacted ∈ items ∧
    compacted.windowNumber = none) : initialWindow env items = none := by
  obtain ⟨compacted, hmem, hnumber⟩ := h
  unfold initialWindow
  exact if_pos (any_eq_true.mpr ⟨_, hmem, by simp [hnumber]⟩)

/-- Of what a scan with a checkpoint has found, only the window may depend on older records. -/
theorem reconstructFrom_eq_iff {later : ReverseScan} (hcomplete : scan.isComplete = true)
    (hanchored : scan.Anchored (∃ compacted, .compacted compacted ∈ items ∧
      compacted.windowNumber = none)) (h : scan.Settles later) :
    reconstructFrom env items scan = reconstructFrom env items later ↔
      (scan.window = none → ∀ window ∈ later.window, window = countedWindow items) := by
  obtain ⟨hwindow, hre⟩ := hanchored.found (isComplete_iff.mp hcomplete).1
  obtain ⟨older, holder⟩ := h.replay
  have hworld : later.worldStateReplay.reverse.foldl (replayWorldState env) none =
      scan.worldStateReplay.reverse.foldl (replayWorldState env) none := by
    rw [← holder, reverse_append, foldl_append, foldl_replayWorldState (by rwa [any_reverse])]
  obtain ⟨hbase, hsettings, hreference⟩ : later.baseCompaction = scan.baseCompaction ∧
      later.previousTurnSettings = scan.previousTurnSettings ∧
      later.referenceContextItem = scan.referenceContextItem := by
    simpa [outcome] using h.outcome_eq
  unfold reconstructFrom historyFrom
  rw [hworld, hbase, hsettings, hreference]
  cases hfound : scan.window with
  | some window => simp [h.window_eq (by simp [hfound]), hfound]
  | none =>
    have hinitial : initialWindow env items = none :=
      initialWindow_eq_none (hwindow.resolve_left (by simp [hfound]))
    rw [hinitial]
    cases later.window with
    | none => simp
    | some window =>
      obtain ⟨number, firstId, previousId, id⟩ := window
      simp only [Option.or_none, Option.getD_none, Option.getD_some,
        RolloutReconstruction.mk.injEq, true_and, forall_const, Option.mem_def, Option.some.injEq,
        forall_eq', countedWindow, ReconstructedWindow.mk.injEq]
      exact and_congr eq_comm (and_congr eq_comm (and_congr eq_comm eq_comm))

/-- The early end changes no part of the result, if and only if no turn that survives has a window
other than the counted one behind newer turns that have a checkpoint, settings and a reference but no
window. -/
theorem reconstruction_stops_early (env : Environment) (items : List RolloutItem) :
    reconstructHistoryFromRollout env items =
        reconstructFrom env items (scanWhole env 0 items).close ↔
      ∀ newer older, surviving (turns env items) = newer ++ older → enough newer = true →
        (∀ turn ∈ newer, turn.window = none) →
        ∀ window ∈ older.findSome? ActiveReplaySegment.window, window = countedWindow items := by
  have hwhole := (newest_scanWhole env 0 items).close
  have hturns : (scanWhole env 0 items).close.window =
      (surviving (turns env items)).findSome? ActiveReplaySegment.window := hwhole.window_eq
  rcases reverseScan_eq_or_settles env items with heq | ⟨hcomplete, hstop, hsettles⟩
  · -- the scan reaches the first record, and all turns are read
    refine iff_of_true (by rw [reconstructHistoryFromRollout, heq]) ?_
    intro newer older hsplit henough _ window hwindow
    have hread : surviving (reverseScan env items).finalized = surviving (turns env items) := by
      rw [heq]
      rfl
    have hreads := read_of_enough hsplit henough (hread ▸ prefix_rfl)
    rw [hread, hsplit] at hreads
    have hnil : older = [] := by
      have := hreads.length_le
      rw [length_append] at this
      exact length_eq_zero_iff.mp (by omega)
    simp [hnil] at hwindow
  · -- the scan has ended between two turns
    have hstops := stops_scanFrom env 0 items
    have henough : enough (surviving (scanFrom env 0 items).finalized) = true :=
      (isComplete_eq hstops.toNewest).symm.trans hcomplete
    have hsame : reverseScan env items = scanFrom env 0 items := by
      rw [reverseScan, close, hstops.idle henough]
    have hread : surviving (scanFrom env 0 items).finalized <+: surviving (turns env items) :=
      (hsettles.finalized.filter _).map _
    have hanchored : (scanFrom env 0 items).Anchored (∃ compacted, .compacted compacted ∈ items ∧
        compacted.windowNumber = none) :=
      anchored_scanFrom 0 fun compacted hmem hnumber ↦ ⟨compacted, hmem, hnumber⟩
    rw [reconstructHistoryFromRollout, hsame, reconstructFrom_eq_iff hcomplete hanchored hsettles,
      hturns, hstops.window_eq]
    constructor
    · intro h newer older hsplit henough hnone
      have hnewer : newer.findSome? ActiveReplaySegment.window = none :=
        findSome?_eq_none_iff.mpr hnone
      have hreads := read_of_enough hsplit henough (hsame ▸ hread)
      rw [hsame] at hreads
      rw [hsplit, findSome?_append, hnewer, Option.none_or] at h
      exact h (findSome?_eq_none_iff.mpr fun turn hturn ↦ hnone turn (hreads.subset hturn))
    · intro h hnone
      obtain ⟨older, holder⟩ := hread
      rw [← holder, findSome?_append, hnone, Option.none_or]
      exact h _ older holder.symm henough (findSome?_eq_none_iff.mp hnone)

def compactedTwice (windowNumber : Option ℕ) : List RolloutItem :=
  [.compacted { message := [], replacementHistory := some [], windowNumber := some 5 },
    .eventMsg (.turnStarted ['t']), .turnContext ⟨some ['t'], [], none, none, []⟩,
    .eventMsg (.userMessage ⟨[], none, [], none, []⟩),
    .compacted { message := [], replacementHistory := some [], windowNumber }]

/-- The newer compaction has no number, and the early end hides the number of the older. -/
theorem reconstruction_stops_too_early : ¬∀ env items, reconstructHistoryFromRollout env items =
    reconstructFrom env items (scanWhole env 0 items).close := by
  intro hclaim
  have hwindow := congrArg RolloutReconstruction.windowNumber
    (hclaim exampleEnvironment (compactedTwice none))
  revert hwindow
  decide +kernel

end Slopdex.Rollout
