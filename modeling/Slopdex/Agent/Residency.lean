import Slopdex.Protocol.Session
import Slopdex.Join.Mailbox
import Slopdex.Library.Transition

/-!
# The threads that stay loaded

At most as many sub-agents as the configuration allows are kept in memory. A spawn or a reload takes
a slot first; where none is free it unloads the resident that was used longest ago. The victim
leaves the list of residents before it is known whether it can be unloaded, and another reservation
may take its place in the meantime.
-/

namespace Slopdex.Agent.Residency

open Protocol Join.Store Join.Mailbox
open Library.Transition Library.Transition.System Library.FirstMatch
open Option (some mem_def)
open List

def usizeMax : ℕ := 2 ^ 64 - 1

def saturatingAdd (a b : ℕ) : ℕ := min (a + b) usizeMax

/-- Residents stand in the order of their last use. -/
structure V2ResidencyState where
  residents : List ThreadId
  pendingSlots : ℕ
  deriving DecidableEq

def touchResident (residents : List ThreadId) (threadId : ThreadId) : List ThreadId :=
  residents.filter (· != threadId) ++ [threadId]

/-- The loop of `pop_lru_candidate`: a protected thread goes to the end of the list. -/
def popUnprotected (protectedThreadId : Option ThreadId) :
    ℕ → List ThreadId → Option ThreadId × List ThreadId
  | 0, residents => (none, residents)
  | _ + 1, [] => (none, [])
  | scans + 1, candidate :: rest =>
    if some candidate = protectedThreadId then
      popUnprotected protectedThreadId scans (rest ++ [candidate])
    else (some candidate, rest)

namespace V2ResidencyState

variable (state : V2ResidencyState)

def tryReservePendingSlot (capacity : ℕ) : V2ResidencyState × Bool :=
  if capacity ≤ saturatingAdd state.residents.length state.pendingSlots then (state, false)
  else ({ state with pendingSlots := state.pendingSlots + 1 }, true)

def residentCount : ℕ := state.residents.length

def popLruCandidate (protectedThreadId : Option ThreadId) : V2ResidencyState × Option ThreadId :=
  let (candidate, residents) :=
    popUnprotected protectedThreadId state.residents.length state.residents
  ({ state with residents }, candidate)

def touch (threadId : ThreadId) : V2ResidencyState :=
  { state with residents := touchResident state.residents threadId }

def remove (threadId : ThreadId) : V2ResidencyState :=
  { state with residents := state.residents.filter (· != threadId) }

def releasePendingSlot : V2ResidencyState :=
  { state with pendingSlots := state.pendingSlots - 1 }

def commitSlot (threadId : ThreadId) : V2ResidencyState :=
  state.releasePendingSlot.touch threadId

def taken : ℕ := state.residents.length + state.pendingSlots

end V2ResidencyState

open V2ResidencyState

structure CodexThread where
  multiAgentVersion : Option MultiAgentVersion
  sessionSource : SessionSource
  agentStatus : AgentStatus
  hasActiveTurn : Bool
  queue : InputQueue

namespace CodexThread

def isResidentCandidate (thread : CodexThread) : Bool :=
  thread.multiAgentVersion == some .v2 && thread.sessionSource.isSubAgent

def isUnloadable (thread : CodexThread) : Bool :=
  (match thread.agentStatus with
    | .completed _ | .errored _ | .interrupted => true
    | _ => false) &&
  !thread.hasActiveTurn && !hasPendingMailboxItems thread.queue &&
  !hasOwnedJoinState thread.queue.joinObligations

end CodexThread

/-- Where a call of `reserve_slot` is, and what became of the slot it returned. -/
inductive Stage
  | trying
  | counting
  | scanning (remaining : ℕ)
  | evicting (remaining : ℕ) (candidate : ThreadId)
  | reserved
  | agentLimitReached
  | ended
  deriving DecidableEq

structure Reservation where
  protectedThreadId : Option ThreadId
  stage : Stage

structure Eviction where
  thread : Option CodexThread
  shutsDown : Bool

namespace Eviction

/-- The candidate is loaded, and it has to stay. -/
def keeps (eviction : Eviction) : Bool :=
  match eviction.thread with
  | none => false
  | some thread => thread.isResidentCandidate && (!thread.isUnloadable || !eviction.shutsDown)

/-- The candidate was unloaded, or another runtime had taken its id. -/
def unloads (eviction : Eviction) : Bool :=
  match eviction.thread with
  | none => false
  | some thread => thread.isResidentCandidate && thread.isUnloadable && eviction.shutsDown

end Eviction

inductive Part
  | tryReserve
  | count
  | pop
  | evict (eviction : Eviction)
  | commit (threadId : ThreadId)
  /-- The slot is dropped, or the future that reserves it. -/
  | drop

/-- `capacity` is what the configuration leaves beside the root thread. -/
def Reservation.advance (reservation : Reservation) (capacity : ℕ) (state : V2ResidencyState)
    (part : Part) : Option (V2ResidencyState × Stage) :=
  match part, reservation.stage with
  | .tryReserve, .trying =>
    let (state, reserved) := state.tryReservePendingSlot capacity
    some (state, if reserved then .reserved else .counting)
  | .count, .counting => some (state, .scanning state.residentCount)
  | .pop, .scanning 0 => some (state, .agentLimitReached)
  | .pop, .scanning (remaining + 1) =>
    match state.popLruCandidate reservation.protectedThreadId with
    | (state, none) => some (state, .agentLimitReached)
    | (state, some candidate) => some (state, .evicting remaining candidate)
  | .evict eviction, .evicting remaining candidate =>
    if eviction.keeps then some (state.touch candidate, .scanning remaining)
    else if eviction.unloads then some (state, .trying)
    else some (state, .scanning remaining)
  | .commit threadId, .reserved => some (state.commitSlot threadId, .ended)
  | .drop, .reserved => some (state.releasePendingSlot, .ended)
  | .drop, _ => some (state, .ended)
  | _, _ => none

structure State where
  residency : V2ResidencyState
  reservations : List Reservation

inductive Action
  /-- A spawn or a reload asks for a slot. -/
  | request (protectedThreadId : Option ThreadId)
  | advance (i : ℕ) (part : Part)
  /-- `touch_loaded_v2_residency`, with the thread if it is loaded. -/
  | touchLoaded (threadId : ThreadId) (thread : Option CodexThread)
  | forget (threadId : ThreadId)

namespace State

def put (s : State) (i : ℕ) (reservation : Reservation) (residency : V2ResidencyState)
    (stage : Stage) : State :=
  { residency, reservations := s.reservations.set i { reservation with stage } }

def step (capacity : ℕ) (s : State) : Action → Option State
  | .request protectedThreadId =>
    some { s with reservations := s.reservations ++ [⟨protectedThreadId, .trying⟩] }
  | .advance i part =>
    (s.reservations[i]?).bind fun reservation ↦
      (reservation.advance capacity s.residency part).map fun (residency, stage) ↦
        s.put i reservation residency stage
  | .touchLoaded threadId thread =>
    if thread.any (·.isResidentCandidate) then
      some { s with residency := s.residency.touch threadId }
    else some s
  | .forget threadId => some { s with residency := s.residency.remove threadId }

end State

/-- `effective_agent_max_threads` of the second version: the root thread takes one place itself. -/
def effectiveAgentMaxThreads (maxConcurrentThreadsPerSession : Fin (2 ^ 64)) : ℕ :=
  maxConcurrentThreadsPerSession.val - 1

variable (maxThreads : Fin (2 ^ 64))

def residency : System State Action where
  init := ⟨⟨[], 0⟩, []⟩
  step := State.step (effectiveAgentMaxThreads maxThreads)

/-- Residents and pending slots together stay within the capacity. -/
def Within (s : State) : Prop := s.residency.taken ≤ effectiveAgentMaxThreads maxThreads

def Reservation.putBack (reservation : Reservation) : Part → Option ThreadId
  | .evict eviction =>
    match reservation.stage with
    | .evicting _ candidate => if eviction.keeps then some candidate else none
    | _ => none
  | _ => none

def putBack (s : State) : Action → Option ThreadId
  | .advance i part => (s.reservations[i]?).bind (·.putBack part)
  | .touchLoaded threadId thread =>
    if thread.any (·.isResidentCandidate) then some threadId else none
  | .request _ | .forget _ => none

/-- A thread returns to the residents only where it is one already or a place is free. -/
def KeepsRoom (s : State) (a : Action) : Prop :=
  ∀ threadId ∈ putBack s a, threadId ∈ s.residency.residents ∨
    s.residency.taken < effectiveAgentMaxThreads maxThreads

instance (s : State) (a : Action) : Decidable (KeepsRoom maxThreads s a) :=
  inferInstanceAs (Decidable (∀ _ ∈ putBack s a, _))

/-- The slots that callers hold. -/
def held (s : State) : ℕ := s.reservations.countP (·.stage == .reserved)

def SlotsHeld (s : State) : Prop :=
  s.residency.pendingSlots = held s

section Residents

variable {residents : List ThreadId} {threadId tid : ThreadId}

theorem length_filter_lt_of_mem (h : tid ∈ residents) :
    (residents.filter (· != tid)).length < residents.length := by
  apply length_filter_lt_length_iff_exists.mpr
  exact ⟨tid, h, by simp⟩

theorem length_touchResident_le_of_mem (h : tid ∈ residents) :
    (touchResident residents tid).length ≤ residents.length := by
  have hlt := length_filter_lt_of_mem h
  simp only [touchResident, length_append, length_singleton]
  omega

theorem length_touchResident_of_not_mem (h : tid ∉ residents) :
    (touchResident residents tid).length = residents.length + 1 := by
  have hk : residents.filter (· != tid) = residents := by
    apply filter_eq_self.mpr
    intro _ ho
    rw [bne_iff_ne]
    rintro rfl
    exact h ho
  simp [touchResident, hk]

theorem length_touchResident_le :
    (touchResident residents tid).length ≤ residents.length + 1 := by
  have hle := length_filter_le (· != tid) residents
  simp only [touchResident, length_append, length_singleton]
  omega

theorem length_popUnprotected_le (protectedThreadId : Option ThreadId) (scans : ℕ) :
    (popUnprotected protectedThreadId scans residents).2.length ≤ residents.length := by
  induction scans generalizing residents with
  | zero => rfl
  | succ scans ih =>
    cases residents with
    | nil => rfl
    | cons cand rest =>
      rw [popUnprotected]
      split
      · calc (popUnprotected protectedThreadId scans (rest ++ [cand])).2.length
            ≤ (rest ++ [cand]).length := ih
          _ = (cand :: rest).length := by simp
      · simp

end Residents

/-- How a part of the program can move the places that are taken. The flags say whether the
reservation holds a slot before and after. -/
inductive Effect (capacity : ℕ) (state state' : V2ResidencyState) :
    Bool → Bool → Option ThreadId → Prop
  | keep (hresidents : state'.residents.length ≤ state.residents.length)
      (hpending : state'.pendingSlots = state.pendingSlots) :
      Effect capacity state state' false false none
  | grant (hresidents : state'.residents = state.residents)
      (hpending : state'.pendingSlots = state.pendingSlots + 1) (hroom : state.taken < capacity) :
      Effect capacity state state' false true none
  | settle (hresidents : state'.residents.length ≤ state.residents.length + 1)
      (hpending : state'.pendingSlots = state.pendingSlots - 1) :
      Effect capacity state state' true false none
  | putBack (threadId : ThreadId) (htouch : state' = state.touch threadId) :
      Effect capacity state state' false false (some threadId)

theorem effect_tryReservePendingSlot {capacity : ℕ} (hc : capacity ≤ usizeMax)
    (state : V2ResidencyState) :
    Effect capacity state (state.tryReservePendingSlot capacity).1 false
      (state.tryReservePendingSlot capacity).2 none := by
  unfold tryReservePendingSlot
  split
  next => exact .keep le_rfl rfl
  next hroom =>
    refine Effect.grant (by rfl) (by rfl) ?_
    unfold saturatingAdd at hroom
    unfold taken
    omega

theorem effect_popLruCandidate (capacity : ℕ) (state : V2ResidencyState)
    (protectedThreadId : Option ThreadId) :
    Effect capacity state (state.popLruCandidate protectedThreadId).1 false false none :=
  .keep (length_popUnprotected_le protectedThreadId _) rfl

theorem effect_of_advance {capacity : ℕ} (hc : capacity ≤ usizeMax)
    {resv : Reservation} {state state' : V2ResidencyState} {part : Part} {stage : Stage}
    (h : resv.advance capacity state part = some (state', stage)) :
    Effect capacity state state' (resv.stage == .reserved) (stage == .reserved)
      (resv.putBack part) := by
  obtain ⟨protectedThreadId, before⟩ := resv
  cases part with
  | tryReserve =>
    cases before with
    | trying =>
      have he := effect_tryReservePendingSlot hc state
      unfold Reservation.advance at h
      cases ht : state.tryReservePendingSlot capacity with
      | mk _ reserved =>
        rw [ht] at he
        simp only [ht] at h
        obtain ⟨rfl, rfl⟩ := h
        cases reserved <;> exact he
    | _ => cases h
  | count =>
    cases before with
    | counting =>
      cases h
      exact .keep le_rfl rfl
    | _ => cases h
  | pop =>
    cases before with
    | scanning remaining =>
      cases remaining with
      | zero =>
        cases h
        exact .keep le_rfl rfl
      | succ =>
        have he := effect_popLruCandidate capacity state protectedThreadId
        unfold Reservation.advance at h
        cases hp : state.popLruCandidate protectedThreadId with
        | mk _ cand =>
          rw [hp] at he
          cases cand <;> simp only [hp, some.injEq, Prod.mk.injEq] at h <;>
            obtain ⟨rfl, rfl⟩ := h <;> exact he
    | _ => cases h
  | evict =>
    cases before with
    | evicting _ cand =>
      simp only [Reservation.advance] at h
      simp only [Reservation.putBack]
      split at h
      next hk =>
        cases h
        rw [if_pos hk]
        exact .putBack cand rfl
      next hk =>
        rw [if_neg hk]
        split at h <;> obtain ⟨rfl, rfl⟩ := Prod.mk.inj (some.inj h) <;> exact .keep le_rfl rfl
    | _ => cases h
  | commit =>
    cases before with
    | reserved =>
      cases h
      exact .settle length_touchResident_le rfl
    | _ => cases h
  | drop =>
    cases before <;> obtain ⟨rfl, rfl⟩ := Prod.mk.inj (some.inj h) <;>
      first
        | exact .settle (Nat.le_succ _) rfl
        | exact .keep le_rfl rfl

section Runs

variable {maxThreads} {s s' : State}

theorem effectiveAgentMaxThreads_le : effectiveAgentMaxThreads maxThreads ≤ usizeMax := by
  have hlt := maxThreads.isLt
  unfold effectiveAgentMaxThreads usizeMax
  omega

theorem effect_of_step {a : Action} (h : (residency maxThreads).step s a = some s') :
    ∃ before after, Effect (effectiveAgentMaxThreads maxThreads) s.residency s'.residency before
      after (putBack s a) ∧ held s' + before.toNat = held s + after.toNat := by
  cases a with
  | request =>
    cases h
    exact ⟨false, false, .keep le_rfl rfl, by simp [held, countP_append]⟩
  | advance =>
    obtain ⟨resv, hr, h⟩ := Option.bind_eq_some_iff.mp h
    obtain ⟨⟨_, stage⟩, ha, rfl⟩ := Option.map_eq_some_iff.mp h
    refine ⟨resv.stage == .reserved, stage == .reserved, ?_, ?_⟩
    · simp only [putBack, hr]
      exact effect_of_advance effectiveAgentMaxThreads_le ha
    · have hcn := countP_set_of_getElem? (p := (·.stage == .reserved)) hr { resv with stage }
      simpa only [held, State.put, Bool.toNat, Bool.cond_eq_ite] using hcn
  | touchLoaded tid =>
    refine ⟨false, false, ?_⟩
    simp only [residency, State.step, putBack] at h ⊢
    split at h
    next hc =>
      cases h
      rw [if_pos hc]
      exact ⟨.putBack tid rfl, rfl⟩
    next hc =>
      cases h
      rw [if_neg hc]
      exact ⟨.keep le_rfl rfl, rfl⟩
  | forget =>
    cases h
    exact ⟨false, false, .keep (length_filter_le _ _) rfl, rfl⟩

theorem slotsHeld_step {a : Action} (hheld : SlotsHeld s)
    (h : (residency maxThreads).step s a = some s') : SlotsHeld s' := by
  obtain ⟨_, _, he, hc⟩ := effect_of_step h
  generalize putBack s a = back at he
  unfold SlotsHeld at hheld ⊢
  cases he with
  | keep _ hp | grant _ hp | settle _ hp =>
    simp only [Bool.toNat_false, Bool.toNat_true] at hc
    omega
  | putBack _ htouch =>
    rw [htouch]
    simp only [Bool.toNat_false, touch] at hc ⊢
    omega

theorem within_step_iff {a : Action} (hheld : SlotsHeld s) (hwithin : Within maxThreads s)
    (h : (residency maxThreads).step s a = some s') :
    Within maxThreads s' ↔ KeepsRoom maxThreads s a := by
  obtain ⟨_, _, he, hc⟩ := effect_of_step h
  unfold SlotsHeld at hheld
  unfold Within taken at hwithin ⊢
  unfold KeepsRoom taken
  generalize putBack s a = back at he ⊢
  cases he with
  | keep =>
    simp only [mem_def, reduceCtorEq, false_imp_iff, implies_true, iff_true]
    omega
  | grant hresidents _ hroom =>
    simp only [mem_def, reduceCtorEq, false_imp_iff, implies_true, iff_true]
    rw [hresidents]
    unfold taken at hroom
    omega
  | settle =>
    simp only [mem_def, reduceCtorEq, false_imp_iff, implies_true, iff_true]
    -- the slot that is given back was a pending one
    simp only [Bool.toNat_false, Bool.toNat_true] at hc
    omega
  | putBack tid htouch =>
    simp only [mem_def, some.injEq, forall_eq', htouch, touch]
    by_cases hm : tid ∈ s.residency.residents
    · have hle := length_touchResident_le_of_mem hm
      simp only [hm, true_or, iff_true]
      omega
    · rw [length_touchResident_of_not_mem hm]
      simp only [hm, false_or]
      omega

/-- Where threads return to the residents only with room for them, the bound holds, and every other
step from such a state breaks it. -/
theorem guarded_residents_within_capacity
    (hs : (residency maxThreads).Guarded (KeepsRoom maxThreads) s) :
    Within maxThreads s ∧ ∀ a s', (residency maxThreads).step s a = some s' →
      (Within maxThreads s' ↔ KeepsRoom maxThreads s a) := by
  have hinv : SlotsHeld s ∧ Within maxThreads s := by
    apply hs.invariant fun s ↦ SlotsHeld s ∧ Within maxThreads s
    · exact ⟨rfl, Nat.zero_le _⟩
    · intro s a s' ⟨hheld, hwithin⟩ hroom hstep
      exact ⟨slotsHeld_step hheld hstep, (within_step_iff hheld hwithin hstep).mpr hroom⟩
  exact ⟨hinv.2, fun a s' hstep ↦ within_step_iff hinv.1 hinv.2 hstep⟩

end Runs

/-- A sub-agent in the middle of a turn. -/
def busyThread : CodexThread :=
  ⟨some .v2, .subAgent (.threadSpawn ⟨0⟩), .running, true, InputQueue.new⟩

def idleThread : CodexThread :=
  ⟨some .v2, .subAgent (.threadSpawn ⟨0⟩), .completed none, false, InputQueue.new⟩

/-- One place: the first thread is loaded, and a second reservation makes room by unloading it. -/
def evictedIdle : List Action :=
  [.request none, .advance 0 .tryReserve, .advance 0 (.commit ⟨1⟩),
    .request none, .advance 1 .tryReserve, .advance 1 .count, .advance 1 .pop,
    .advance 1 (.evict ⟨some idleThread, true⟩), .advance 1 .tryReserve]

theorem guarded_residents_within_capacity_evictedIdle :
    ∃ s, Within 2 s ∧ s.residency = ⟨[], 1⟩ := by
  obtain ⟨s, hs, hcheck⟩ := exists_guarded_of_runIf (residency 2) (KeepsRoom 2) evictedIdle
    (fun s ↦ decide (s.residency = ⟨[], 1⟩)) (by decide +kernel)
  exact ⟨s, (guarded_residents_within_capacity hs).1, of_decide_eq_true hcheck⟩

/-- One place: while the second reservation looks at its victim, a third one takes the free place,
and the victim turns out to be busy. -/
def keptBusy : List Action :=
  [.request none, .advance 0 .tryReserve, .advance 0 (.commit ⟨1⟩),
    .request none, .advance 1 .tryReserve, .advance 1 .count, .advance 1 .pop,
    .request none, .advance 2 .tryReserve, .advance 1 (.evict ⟨some busyThread, true⟩)]

theorem reachable_residents_over_capacity :
    ¬ ∀ (maxThreads : Fin (2 ^ 64)) (s : State), (residency maxThreads).Reachable s →
      Within maxThreads s := by
  intro hclaim
  obtain ⟨s, hs, hcheck⟩ := exists_reachable_of_run (residency 2) keptBusy
    (fun s ↦ decide (s.residency = ⟨[⟨1⟩], 1⟩)) (by decide +kernel)
  have hwithin := hclaim 2 s hs
  rw [Within, of_decide_eq_true hcheck] at hwithin
  exact absurd hwithin (by decide)

end Slopdex.Agent.Residency
