import Slopdex.NetworkProxy.Allowlist
import Slopdex.NetworkProxy.Runtime

/-!
# The log of blocked requests along a run

The buffer is meant to hold the most recent requests since the last drain, and the total to count
all that were ever recorded. A task may put back a state with the log as it has read it, so the log
is right in the runs in which it has not changed since. The sets in force are compiled from the
configuration in force in every run.
-/

namespace Slopdex.NetworkProxy

open Protocol (Text)
open Library Library.KeyedMap Library.Transition List World

variable {Hook Glob : Type} {libs : Libraries Hook Glob} {w w' : World Hook Glob}

namespace Phase

def pending : Phase Hook Glob → Option (ConfigState Hook Glob)
  | .writeReloaded _ newState => some newState
  | .writeUpdated _ _ _ _ newState => some newState
  | .writeForced newState => some newState
  | _ => none

/-- The state that a task puts behind the lock, where it finds `shared`. -/
def installs [DecidableEq Hook] (shared : ConfigState Hook Glob) :
    Phase Hook Glob → Option (ConfigState Hook Glob)
  | .writeReloaded _ newState => some newState
  | .writeUpdated _ _ previousCfg constraints newState =>
    if shared.constraints ≠ constraints ∨ shared.config ≠ previousCfg then none else some newState
  | .writeForced newState => some { newState with blocked := shared.blocked }
  | _ => none

end Phase

def Action.task : Action Hook → ℕ
  | .call task _ => task
  | .forceReload task _ _ => task
  | .notChanged task => task
  | .reloaded task _ _ => task
  | .proceed task => task
  | .abandon task => task

theorem InForce.withLog {state : ConfigState Hook Glob} (h : InForce libs state)
    (blocked : List BlockedRequest) (blockedTotal : ℕ) :
    InForce libs { state with blocked, blockedTotal } := ⟨h.allow, h.deny⟩

variable [DecidableEq Hook] {a : Action Hook}

theorem Phase.inForce_of_installs {phase : Phase Hook Glob}
    {shared newState : ConfigState Hook Glob}
    (h : phase.installs shared = some newState)
    (hpe : ∀ prepared ∈ phase.pending, InForce libs prepared) : InForce libs newState := by
  cases phase with
  | maybeReload | handle | writeMode => cases h
  | writeReloaded =>
    cases h
    exact hpe newState rfl
  | writeUpdated =>
    unfold installs at h
    dsimp only at h
    split_ifs at h
    cases h
    exact hpe newState rfl
  | writeForced prepared =>
    cases h
    have hp := hpe prepared rfl
    exact ⟨hp.allow, hp.deny⟩

namespace World

inductive Change (libs : Libraries Hook Glob) (w : World Hook Glob) :
    Action Hook → World Hook Glob → Prop
  | none {a : Action Hook} : Change libs w a w
  | recorded {a : Action Hook} (entry : BlockedRequest) : Change libs w a (w.recordBlocked entry)
  | drained {a : Action Hook} : Change libs w a w.drainBlocked
  | installed {task : ℕ} {phase : Phase Hook Glob} {newState : ConfigState Hook Glob}
      (hphase : w.tasks.lookup task = some phase)
      (hinstalls : phase.installs w.shared = some newState) :
      Change libs w (.proceed task) (w.withShared newState)
  | replaced {a : Action Hook} {newState : ConfigState Hook Glob} (hnew : InForce libs newState) :
      Change libs w a (w.withShared { newState with
        blocked := w.shared.blocked, blockedTotal := w.shared.blockedTotal })
  | mode {a : Action Hook} (mode : NetworkMode) : Change libs w a (w.withShared { w.shared with
      config := { w.shared.config with mode } })

inductive Moves (libs : Libraries Hook Glob) (w : World Hook Glob) (a : Action Hook) :
    World Hook Glob → Prop
  | finish {m : World Hook Glob} (hchange : Change libs w a m) : Moves libs w a (m.finish a.task)
  | toPhase {m : World Hook Glob} {phase : Phase Hook Glob} (hchange : Change libs w a m)
      (hpending : ∀ newState ∈ phase.pending, InForce libs newState) :
      Moves libs w a (m.toPhase a.task phase)

theorem Moves.waits {phase : Phase Hook Glob} (hn : phase.pending = none) :
    Moves libs w a (w.toPhase a.task phase) := by
  apply Moves.toPhase .none
  rw [hn]
  intro _ hm
  cases hm

theorem prepareUpdate_moves (w : World Hook Glob) (kind : DomainListKind) (host : Text) :
    Moves libs w a (w.prepareUpdate libs a.task kind host) := by
  unfold prepareUpdate
  dsimp only
  split_ifs
  · exact .finish .none
  · split
    next => exact .finish .none
    next =>
      split
      next => exact .finish .none
      next hb =>
        apply Moves.toPhase .none
        intro _ hp
        cases hp
        exact InForce.withLog (build_spec hb).1 _ _

theorem prepareMode_moves (w : World Hook Glob) (mode : NetworkMode) :
    Moves libs w a (w.prepareMode libs a.task mode) := by
  unfold prepareMode
  split
  next => exact .finish .none
  next => exact .waits rfl

theorem handle_moves {request : Request Hook}
    (h : w.handle libs a.task request = some w') : Moves libs w a w' := by
  cases request with
  | query =>
    cases h
    exact .finish .none
  | recordBlocked =>
    cases h
    exact .finish (.recorded _)
  | drainBlocked =>
    cases h
    exact .finish .drained
  | updateDomainList kind host =>
    cases h
    exact prepareUpdate_moves w kind host
  | setNetworkMode mode =>
    cases h
    exact prepareMode_moves w mode
  | replaceConfigState config constraints =>
    change w.replaceConfigState libs a.task config constraints = some w' at h
    unfold replaceConfigState at h
    split at h
    next => cases h
    next hb =>
      cases h
      exact .finish (.replaced (build_spec hb).1)

theorem start_moves {phase : Phase Hook Glob} (h : w.start a.task phase = some w')
    (hp : ∀ newState ∈ phase.pending, InForce libs newState) : Moves libs w a w' := by
  unfold start at h
  split_ifs at h
  cases h
  exact .toPhase .none hp

theorem proceed_moves {task : ℕ} {phase : Phase Hook Glob}
    (hph : w.tasks.lookup task = some phase) (h : w.proceed libs task phase = some w') :
    Moves libs w (.proceed task) w' := by
  cases phase with
  | maybeReload => cases h
  | writeReloaded =>
    cases h
    apply Moves.toPhase (.installed hph rfl)
    intro _ hs
    cases hs
  | handle => exact handle_moves h
  | writeUpdated =>
    unfold proceed at h
    dsimp only at h
    split_ifs at h with hc
    · cases h
      exact .waits rfl
    · cases h
      exact .finish (.installed hph (if_neg hc))
  | writeMode mode =>
    unfold proceed at h
    dsimp only at h
    split_ifs at h
    · cases h
      exact .waits rfl
    · cases h
      exact .finish (.mode mode)
  | writeForced =>
    cases h
    exact .finish (.installed hph rfl)

end World

theorem World.step_moves (h : w.step libs a = some w') : Moves libs w a w' := by
  cases a with
  | call =>
    obtain ⟨_, -, hst⟩ := Option.bind_eq_some_iff.mp h
    apply start_moves hst
    intro _ hm
    cases hm
  | forceReload =>
    unfold step at h
    dsimp only at h
    split at h
    next => cases h
    next hb =>
      apply start_moves h
      intro _ hs
      cases hs
      exact (build_spec hb).1
  | notChanged =>
    unfold step at h
    dsimp only at h
    split at h
    next =>
      cases h
      exact .waits rfl
    next => cases h
  | reloaded =>
    unfold step at h
    dsimp only at h
    split at h
    next hb =>
      cases h
      apply Moves.toPhase .none
      intro _ hs
      cases hs
      exact InForce.withLog (build_spec hb).1 _ _
    next => cases h
  | proceed =>
    obtain ⟨_, hph, hp⟩ := Option.bind_eq_some_iff.mp h
    exact proceed_moves hph hp
  | abandon =>
    unfold step at h
    dsimp only at h
    split_ifs at h
    cases h
    exact .finish .none

/-- The sets of the shared state and of the states that tasks have prepared are compiled from the
configurations beside them. -/
structure World.Compiled (libs : Libraries Hook Glob) (w : World Hook Glob) : Prop where
  shared : InForce libs w.shared
  tasks : ∀ task phase, w.tasks.lookup task = some phase →
    ∀ newState ∈ phase.pending, InForce libs newState

namespace World.Compiled

theorem of_change {m : World Hook Glob} (h : w.Compiled libs) (hc : Change libs w a m) :
    m.Compiled libs := by
  cases hc with
  | none => exact h
  | installed hph hi =>
    exact ⟨Phase.inForce_of_installs hi (h.tasks _ _ hph), h.tasks⟩
  | replaced hnew => exact ⟨⟨hnew.allow, hnew.deny⟩, h.tasks⟩
  | recorded | drained | mode => exact ⟨⟨h.shared.allow, h.shared.deny⟩, h.tasks⟩

theorem of_moves (h : w.Compiled libs) (hmoves : Moves libs w a w') : w'.Compiled libs := by
  cases hmoves with
  | finish hc =>
    have hm := h.of_change hc
    refine ⟨hm.shared, fun other phase hl ↦ ?_⟩
    exact hm.tasks other phase (lookup_of_lookup_erase hl)
  | toPhase hc hp =>
    have hm := h.of_change hc
    refine ⟨hm.shared, fun other phase hl ↦ ?_⟩
    rcases lookup_insert_cases hl with ⟨-, rfl⟩ | ⟨-, hold⟩
    · exact hp
    · exact hm.tasks other phase hold

end World.Compiled

theorem compiled_of_reachable {initial : ConfigState Hook Glob} (hinitial : InForce libs initial)
    (hw : (runtime libs initial).Reachable w) : w.Compiled libs := by
  apply hw.invariant
  · refine ⟨hinitial, fun task phase hl ↦ ?_⟩
    rw [runtime] at hl
    cases hl
  · intro _ _ _ hw hstep
    exact hw.of_moves (step_moves hstep)

theorem popFront_eq_rtake (blocked : List BlockedRequest) :
    popFront blocked = blocked.rtake maxBlockedEvents := by
  induction blocked with
  | nil => rfl
  | cons entry rest ih =>
    unfold popFront
    split_ifs with hlen
    · have hd : (entry :: rest).length - maxBlockedEvents =
          (rest.length - maxBlockedEvents) + 1 := by
        rw [length_cons] at hlen ⊢
        omega
      rw [ih, rtake, rtake, hd, drop_succ_cons]
    · rw [rtake, Nat.sub_eq_zero_of_le (not_lt.mp hlen), drop_zero]

/-- Keeping the most recent elements may be done before the next one is added. -/
theorem rtake_concat {α : Type} (l : List α) (x : α) (n : ℕ) :
    (l.rtake n ++ [x]).rtake n = (l ++ [x]).rtake n := by
  have hc : l.length - n ≤ l.length := Nat.sub_le _ _
  unfold rtake
  rw [← drop_append_of_le_length hc, drop_drop]
  simp only [length_drop, length_append]
  congr 1
  omega

/-- The total counts the recorded requests, and the buffer holds the most recent of those that were
recorded after the last drain. -/
structure World.Accounted (w : World Hook Glob) : Prop where
  total : w.shared.blockedTotal = min w.recorded.length maxBlockedTotal
  buffer : w.shared.blocked = (w.recorded.drop w.drained).rtake maxBlockedEvents
  drained : w.drained ≤ w.recorded.length

/-- If the step installs a state, the log has not changed since the task has read it. A forced
reload installs the total of a new state. -/
def Undisturbed (w : World Hook Glob) : Action Hook → Prop
  | .proceed task => ∀ newState ∈ (w.tasks.lookup task).bind (Phase.installs w.shared),
      newState.blocked = w.shared.blocked ∧ newState.blockedTotal = w.shared.blockedTotal
  | _ => True

instance (w : World Hook Glob) (a : Action Hook) : Decidable (Undisturbed w a) := by
  unfold Undisturbed
  cases a <;> infer_instance

namespace World.Accounted

theorem of_change {m : World Hook Glob} (h : w.Accounted) (hundist : Undisturbed w a)
    (hc : Change libs w a m) : m.Accounted := by
  cases hc with
  | none => exact h
  | recorded entry =>
    refine ⟨?_, ?_, ?_⟩
    · change min (w.shared.blockedTotal + 1) maxBlockedTotal =
        min (w.recorded ++ [entry]).length maxBlockedTotal
      rw [h.total, length_append, length_singleton]
      omega
    · change popFront (w.shared.blocked ++ [entry]) =
        ((w.recorded ++ [entry]).drop w.drained).rtake maxBlockedEvents
      rw [popFront_eq_rtake, h.buffer, rtake_concat, drop_append_of_le_length h.drained]
    · change w.drained ≤ (w.recorded ++ [entry]).length
      rw [length_append]
      exact h.drained.trans (Nat.le_add_right _ _)
  | drained =>
    refine ⟨h.total, ?_, le_rfl⟩
    change [] = (w.recorded.drop w.recorded.length).rtake maxBlockedEvents
    rw [drop_length]
    rfl
  | installed hph hi =>
    have hs := hundist _ (Option.bind_eq_some_iff.mpr ⟨_, hph, hi⟩)
    exact ⟨hs.2.trans h.total, hs.1.trans h.buffer, h.drained⟩
  | replaced | mode => exact ⟨h.total, h.buffer, h.drained⟩

theorem of_moves (h : w.Accounted) (hundist : Undisturbed w a) (hmoves : Moves libs w a w') :
    w'.Accounted := by
  cases hmoves with
  | finish hc | toPhase hc =>
    have hm := h.of_change hundist hc
    exact ⟨hm.total, hm.buffer, hm.drained⟩

end World.Accounted

theorem World.Moves.recorded_isPrefix (hmoves : Moves libs w a w') :
    w.recorded <+: w'.recorded := by
  have hc {m : World Hook Glob} (h : Change libs w a m) : w.recorded <+: m.recorded := by
    cases h with
    | recorded => exact prefix_append _ _
    | none | drained | installed | replaced | mode => exact prefix_rfl
  cases hmoves with
  | finish h | toPhase h =>
    have hm := hc h
    exact hm

theorem accounted_of_guarded {initial : ConfigState Hook Glob} (hblocked : initial.blocked = [])
    (htotal : initial.blockedTotal = 0) (hw : (runtime libs initial).Guarded Undisturbed w) :
    w.Accounted := by
  apply hw.invariant
  · refine ⟨htotal.trans (Nat.zero_min _).symm, ?_, le_rfl⟩
    change initial.blocked = (drop 0 []).rtake maxBlockedEvents
    rw [hblocked, drop_nil, rtake_nil]
  · intro _ _ _ hw hundist hstep
    exact hw.of_moves hundist (step_moves hstep)

/-- Along every run in which each prepared state is installed with the log as it stands, the total
counts the recorded requests and never decreases, the buffer holds the most recent of the requests
since the last drain, and the sets in force are compiled from the configuration in force. -/
theorem blocked_requests_accounted (libs : Libraries Hook Glob) (config : NetworkProxyConfig Hook)
    (constraints : NetworkProxyConstraints) (initial : ConfigState Hook Glob)
    (hinitial : buildConfigState libs config constraints = .ok initial) (w : World Hook Glob)
    (hw : (runtime libs initial).Guarded Undisturbed w) :
    w.Accounted ∧ InForce libs w.shared ∧
      ∀ a w', Undisturbed w a → (runtime libs initial).step w a = some w' →
        w.shared.blockedTotal ≤ w'.shared.blockedTotal := by
  obtain ⟨hinForce, hblocked, htotal⟩ := build_spec hinitial
  have haccounted := accounted_of_guarded hblocked htotal hw
  refine ⟨haccounted, (compiled_of_reachable hinForce hw.reachable).shared, ?_⟩
  intro _ _ hundist hstep
  have hmoves := step_moves hstep
  have hlen := hmoves.recorded_isPrefix.length_le
  rw [haccounted.total, (haccounted.of_moves hundist hmoves).total]
  exact min_le_min_right _ hlen

def emptyState : ConfigState Unit Text :=
  { config := {}, brokerageCreatedDefaultAllowlist := false, allowSet := [], denySet := [],
    constraints := {}, blocked := [], blockedTotal := 0 }

def requestTo (host : String) : BlockedRequest :=
  { host := host.toList, reason := "not_allowed".toList, client := none, method := none,
    mode := none, protocol := "http".toList, executionId := none, decision := none, source := none,
    port := none, timestamp := 0 }

def recording (task : ℕ) (host : String) : List (Action Unit) :=
  [.call task (.recordBlocked (requestTo host) none), .notChanged task, .proceed task]

def draining (task : ℕ) : List (Action Unit) :=
  [.call task .drainBlocked, .notChanged task, .proceed task]

/-- Two requests are recorded with a drain and a change of the deny-list between them. -/
theorem blocked_requests_accounted_example :
    ∃ w, (runtime exampleLibraries emptyState).Guarded Undisturbed w ∧ w.Accounted ∧
      InForce exampleLibraries w.shared ∧ w.shared.blockedTotal = 2 := by
  obtain ⟨w, hw, hcheck⟩ := System.exists_guarded_of_runIf (runtime exampleLibraries emptyState)
    Undisturbed
    (recording 0 "a.com" ++ draining 1 ++
      [.call 2 (.updateDomainList .deny "b.com".toList), .notChanged 2, .proceed 2, .proceed 2] ++
      recording 3 "b.com")
    (fun w ↦ w.shared.blockedTotal == 2) (by decide +kernel)
  obtain ⟨haccounted, hinForce, -⟩ :=
    blocked_requests_accounted exampleLibraries {} {} emptyState (by decide +kernel) w hw
  exact ⟨w, hw, haccounted, hinForce, beq_iff_eq.mp hcheck⟩

/-- A forced reload forgets the total. A request recorded while a reload or an update holds a copy of
the log is lost, and one drained meanwhile reappears. -/
theorem blocked_requests_miscounted :
    (∃ w, (runtime exampleLibraries emptyState).Reachable w ∧
      (w.recorded.length == 1 && w.shared.blockedTotal == 0) = true) ∧
    (∃ w, (runtime exampleLibraries emptyState).Reachable w ∧
      (w.recorded.length == 1 && w.drained == 0 && w.shared.blocked == []) = true) ∧
    ∃ w, (runtime exampleLibraries emptyState).Reachable w ∧
      (w.drained == 1 && w.recorded.length == 1 && w.shared.blocked == [requestTo "a.com"]) =
        true := by
  refine ⟨?_, ?_, ?_⟩
  · exact System.exists_reachable_of_run _
      (recording 0 "a.com" ++ [.forceReload 1 {} {}, .proceed 1]) _ (by decide +kernel)
  · exact System.exists_reachable_of_run _
      ([.call 1 .query, .reloaded 1 {} {}] ++ recording 0 "a.com" ++ [.proceed 1]) _
      (by decide +kernel)
  · exact System.exists_reachable_of_run _
      (recording 0 "a.com" ++
        [.call 2 (.updateDomainList .deny "b.com".toList), .notChanged 2, .proceed 2] ++
        draining 1 ++ [.proceed 2]) _ (by decide +kernel)

end Slopdex.NetworkProxy
