import Slopdex.Join.ChildSession

/-!
# What recordings leave behind

A turn ends once. Its terminal is on its way through one recording or has been broadcast, and the
table holds it from before the broadcast on. So a broadcast that an observer has not read is in its
backlog, one that it lost is in the table, and a lease that it follows does not change without an
announcement.
-/

namespace Slopdex.Join.Recordings

open Protocol Library.FirstMatch Join.Store Join.Evolution Join.ChildSession JoinObligationStore
open Nat
  JoinContinuationLease List Option

variable {action : ChildAction} {dead : List TurnStateRef} {op : StoreOp} {predecessor : TurnId}
  {r : Recording} {seen : ℕ} {stage : RecordStage} {terminal : ExactTerminal}
  {terminals : List ExactTerminal}

variable {child child' : Child} {threadId : ThreadId} {turnId : TurnId} {turnState : TurnStateRef}

def recorded (child : Child) (turnState : TurnStateRef) : ℕ :=
  child.recordings.countP (·.terminal.turnState == turnState) +
    child.sent.countP (·.turnState == turnState)

def Underway (child : Child) (terminal : ExactTerminal) : Prop :=
  ∃ recording ∈ child.recordings, recording.terminal = terminal

def Listed (terminals : List ExactTerminal) (turnId : TurnId) (turnState : TurnStateRef) : Prop :=
  ∃ entry ∈ terminals, entry.isFor turnId turnState = true

/-- Turn states are allocated below `bound`. -/
structure ChildInvariant (threadId : ThreadId) (bound : ℕ) (child : Child) : Prop where
  status_shutDown : child.status = .shutdown → child.shutDown = true
  apart : child.active.isSome = true → child.reserved = none
  active_fresh : ∀ turn ∈ child.active, turn.2 ∉ child.ended.map ExactTerminal.turnState
  reserved_fresh : ∀ state ∈ child.reserved, state ∉ child.ended.map ExactTerminal.turnState
  active_lt : ∀ turn ∈ child.active, turn.2.address < bound
  reserved_lt : ∀ state ∈ child.reserved, state.address < bound
  ended_lt : ∀ terminal ∈ child.ended, terminal.turnState.address < bound
  ended_nodup : (child.ended.map ExactTerminal.turnState).Nodup
  recorded_le : ∀ state, recorded child state ≤ 1
  recordings_ended : ∀ recording ∈ child.recordings, recording.terminal ∈ child.ended
  sent_ended : ∀ terminal ∈ child.sent, terminal ∈ child.ended
  ended_recorded : ∀ terminal ∈ child.ended, Underway child terminal ∨ terminal ∈ child.sent
  terminals_ended : ∀ terminal ∈ child.terminals, terminal ∈ child.ended
  tabled : ∀ recording ∈ child.recordings, recording.stage = .tabled →
    Listed child.terminals recording.terminal.turnId recording.terminal.turnState
  leases_ended : ∀ lease ∈ child.store.continuations, ∀ status ∈ lease.terminalStatus,
    ⟨lease.successorTurnId, lease.successorTurnState, status⟩ ∈ child.ended
  leases_open : ∀ lease ∈ child.store.continuations, lease.parentThreadId = threadId →
    lease.terminalStatus = none → ∀ terminal ∈ child.ended,
      terminal.isFor lease.successorTurnId lease.successorTurnState = true →
        ⟨terminal, .entered⟩ ∈ child.recordings

inductive LeaseChange (child : Child) (op : StoreOp) : Prop
  | same (h : (child.store.apply op).continuations = child.store.continuations)
  | add (successor : TurnId) (state : TurnStateRef)
      (hturn : child.active = some (successor, state) ∨ child.reserved = some state)
      (h : ∀ lease ∈ (child.store.apply op).continuations, lease ∈ child.store.continuations ∨
        lease.successorTurnState = state ∧ lease.terminalStatus = none)
      (hkept : child.store.continuations ⊆ (child.store.apply op).continuations)
  | remove (hsub : (child.store.apply op).continuations ⊆ child.store.continuations)
      (h : Child.announces child.store op = true)

theorem acknowledge_leases (store : JoinObligationStore) (predecessor : TurnId) (gen : ℕ)
    (succ : TurnId) (state : Option TurnStateRef) :
    (acknowledgeReadyJoinDelivery store predecessor gen succ state).1.continuations =
        store.continuations ∨
      ∃ o ∈ store.obligations, (acknowledgeReadyJoinDelivery store predecessor gen succ
          state).1.continuations =
        store.continuations ++ newLeases o gen predecessor succ state := by
  rcases acknowledgeReadyJoinDelivery_cases store predecessor gen succ state with
    hs | ⟨o, hh | hf⟩
  · exact .inl (by rw [hs])
  · exact .inr ⟨o, mem_of_find?_eq_some hh.found, by rw [hh.result]⟩
  · rcases hf.continuations with hs | ⟨-, ha⟩
    · exact .inl hs
    · exact .inr ⟨o, mem_of_find?_eq_some hf.found, ha⟩

theorem leaseChange_acknowledge {succ : TurnId} {gen : ℕ} {state : TurnStateRef}
    (hturn : child.active = some (succ, state) ∨ child.reserved = some state) :
    LeaseChange child (.acknowledge predecessor gen succ (some state)) := by
  rcases acknowledge_leases child.store predecessor gen succ (some state) with
    hs | ⟨o, -, ha⟩
  · exact .same hs
  · refine .add succ state hturn ?_ ?_
    · intro _ hl
      simp only [apply, ha, mem_append, newLeases] at hl
      rcases hl with hold | hn
      · exact .inl hold
      · split at hn
        · rw [mem_singleton.mp hn]
          exact .inr ⟨rfl, rfl⟩
        · exact absurd hn not_mem_nil
    · simp only [apply, ha]
      exact subset_append_left _ _

theorem leaseChange_filter {p : JoinContinuationLease → Bool}
    (hop : (child.store.apply op).continuations = child.store.continuations.filter p)
    (ha : Child.announces child.store op =
      ((child.store.continuations.filter p).length != child.store.continuations.length)) :
    LeaseChange child op := by
  by_cases hc : Child.announces child.store op = true
  · exact .remove (hop ▸ (filter_sublist).subset) hc
  · rw [ha, bne_iff_ne, ne_eq, not_not] at hc
    refine .same ?_
    rw [hop]
    exact (filter_sublist).eq_of_length hc

theorem leaseChange_of_permits (h : child.permits op = true) : LeaseChange child op := by
  cases op with
  | register thread turn targets triggerTurn =>
    refine .same ?_
    rcases registerObligation_cases child.store thread turn targets triggerTurn with
      hs | ⟨-, ha⟩
    · simp only [apply, hs]
    · simp only [apply, ha, add]
  | resolve => exact .same (resolveJoinTargetInner_updates _ _ _ _ _ _ _ _).continuations
  | finishDispatch => exact .same rfl
  | acknowledge predecessor gen succ state =>
    cases state with
    | none =>
      rcases acknowledge_leases child.store predecessor gen succ none with
        hs | ⟨o, -, ha⟩
      · exact .same hs
      · exact .same (ha.trans (append_nil _))
    | some =>
      simp only [Child.permits, Bool.or_eq_true, beq_iff_eq] at h
      exact leaseChange_acknowledge h
  | wait thread turn targetIds current =>
    refine .same ?_
    simp only [apply]
    rcases consumeReadyJoinObligationForTargets_cases child.store thread turn targetIds current with
      hs | ⟨o, -, hac⟩
    · rw [hs]
    · rw [hac]
      rcases acknowledge_leases child.store turn o.generation turn none with hs | ⟨_, -, ha⟩
      · exact hs
      · exact ha.trans (append_nil _)
  | rebind => exact .same (rebindJoinTargetToSuccessor_amends _ _ _ _ _ _ _).continuations
  | retire => exact .same (retireJoinTargetSuccessorRetention_amends _ _ _ _ _ _).continuations
  | finishContinuation | finishRootContinuations => exact leaseChange_filter rfl rfl
  | turnTerminal => cases h

theorem isFor_iff :
    terminal.isFor turnId turnState = true ↔
      terminal.turnId = turnId ∧ terminal.turnState = turnState := by
  simp [ExactTerminal.isFor]

theorem mem_insertTerminal {entry : ExactTerminal}
    (h : entry ∈ Child.insertTerminal terminals terminal dead) :
    entry ∈ terminals ∨ entry = terminal := by
  unfold Child.insertTerminal at h
  dsimp only at h
  split at h
  · rcases mem_updateFirst h with hold | ⟨_, -, rfl⟩
    · exact .inl (mem_filter.mp hold).1
    · exact .inr rfl
  · rcases mem_concat.mp h with hold | hn
    · exact .inl (mem_filter.mp hold).1
    · exact .inr hn

theorem Listed.prune (h : Listed terminals turnId turnState) (hh : turnState ∉ dead) :
    Listed (Child.pruneTerminals terminals dead) turnId turnState := by
  obtain ⟨entry, he, hf⟩ := h
  refine ⟨entry, mem_filter.mpr ⟨he, ?_⟩, hf⟩
  rw [(isFor_iff.mp hf).2]
  simpa using hh

theorem Listed.insertTerminal (h : Listed terminals turnId turnState) (terminal : ExactTerminal)
    (hh : turnState ∉ dead) :
    Listed (Child.insertTerminal terminals terminal dead) turnId turnState := by
  obtain ⟨entry, he, hf⟩ := h.prune hh
  unfold Child.insertTerminal
  dsimp only
  split
  · rcases mem_updateFirst_of_mem (p := (·.isFor terminal.turnId terminal.turnState))
      (f := fun _ ↦ terminal) he with hkept | ⟨hfn, hn⟩
    · exact ⟨entry, hkept, hf⟩
    · have hs := find?_some hfn
      rw [isFor_iff] at hs hf
      refine ⟨terminal, hn, isFor_iff.mpr ⟨?_, ?_⟩⟩
      · rw [← hs.1, hf.1]
      · rw [← hs.2, hf.2]
  · exact ⟨entry, mem_append_left _ he, hf⟩

theorem listed_insertTerminal (terminals : List ExactTerminal) (terminal : ExactTerminal)
    (dead : List TurnStateRef) :
    Listed (Child.insertTerminal terminals terminal dead) terminal.turnId terminal.turnState := by
  unfold Child.insertTerminal
  dsimp only
  split
  next ha =>
    obtain ⟨entry, he, hf⟩ := any_eq_true.mp ha
    obtain ⟨_, hfn⟩ := isSome_iff_exists.mp (find?_isSome
      (p := (·.isFor terminal.turnId terminal.turnState)).mpr ⟨entry, he, hf⟩)
    obtain ⟨_, _, -, -, hu, -⟩ := split_of_find? (f := fun _ ↦ terminal) hfn
    rw [hu]
    exact ⟨terminal, mem_append_right _ mem_cons_self, isFor_iff.mpr ⟨rfl, rfl⟩⟩
  next =>
    exact ⟨terminal, mem_concat_self, isFor_iff.mpr ⟨rfl, rfl⟩⟩

/-! ## Steps of the child -/

variable {bound bound' : ℕ} {index : ℕ} {recording : Recording} {dead : List TurnStateRef}

section

variable (h : ChildInvariant threadId bound child)
include h

theorem ChildInvariant.mono (hle : bound ≤ bound') :
    ChildInvariant threadId bound' child :=
  { h with
    active_lt := fun turn hturn ↦ (h.active_lt turn hturn).trans_le hle
    reserved_lt := fun state hs ↦ (h.reserved_lt state hs).trans_le hle
    ended_lt := fun terminal ht ↦ (h.ended_lt terminal ht).trans_le hle }

theorem ChildInvariant.recorded_eq_zero
    (hf : turnState ∉ child.ended.map ExactTerminal.turnState) :
    recorded child turnState = 0 := by
  unfold recorded
  rw [Nat.add_eq_zero_iff, countP_eq_zero, countP_eq_zero]
  constructor
  · intro recording hre heq
    apply hf
    rw [← beq_iff_eq.mp heq]
    exact mem_map_of_mem (h.recordings_ended recording hre)
  · intro terminal ht heq
    apply hf
    rw [← beq_iff_eq.mp heq]
    exact mem_map_of_mem (h.sent_ended terminal ht)

theorem ChildInvariant.finish {turn : TurnId × TurnStateRef}
    (ha : child.active = some turn) (turnId : TurnId) (status : AgentStatus) :
    ChildInvariant threadId bound (child.finish turn.2 turnId status) := by
  have hf := h.active_fresh turn ha
  have hrs := h.apart (by rw [ha]; rfl)
  unfold Child.finish
  split
  next =>
    refine
      { h with
        apart := nofun
        active_fresh := nofun
        active_lt := nofun
        reserved_fresh := by simp [hrs]
        ended_lt := ?_
        ended_nodup := ?_
        recorded_le := ?_
        recordings_ended := ?_
        sent_ended := fun terminal hm ↦ mem_append_left _ (h.sent_ended terminal hm)
        ended_recorded := ?_
        terminals_ended := fun terminal hm ↦
          mem_append_left _ (h.terminals_ended terminal hm)
        tabled := ?_
        leases_ended := fun lease hl state hs ↦
          mem_append_left _ (h.leases_ended lease hl state hs)
        leases_open := ?_ }
    · intro terminal ht
      rcases mem_concat.mp ht with hold | rfl
      · exact h.ended_lt terminal hold
      · exact h.active_lt turn ha
    · rw [map_append, map_singleton, nodup_append]
      refine ⟨h.ended_nodup, nodup_singleton _, ?_⟩
      intro _ hs _ ho heq
      rw [heq, mem_singleton.mp ho] at hs
      exact hf hs
    · intro state
      have hle := h.recorded_le state
      have hz := h.recorded_eq_zero hf
      simp only [recorded, countP_append, countP_singleton, beq_iff_eq] at hle hz ⊢
      split
      next heq =>
        subst heq
        omega
      next => omega
    · intro r hr
      rcases mem_concat.mp hr with hold | rfl
      · exact mem_append_left _ (h.recordings_ended r hold)
      · exact mem_concat_self
    · intro terminal ht
      rcases mem_concat.mp ht with hold | rfl
      · exact (h.ended_recorded terminal hold).imp_left fun ⟨recording, hm, heq⟩ ↦
          ⟨recording, mem_append_left _ hm, heq⟩
      · exact .inl ⟨_, mem_concat_self, rfl⟩
    · intro r hr hst
      rcases mem_concat.mp hr with hold | rfl
      · exact h.tabled r hold hst
      · cases hst
    · intro lease hl hth hop terminal ht hfo
      rcases mem_concat.mp ht with hold | rfl
      · exact mem_append_left _ (h.leases_open lease hl hth hop terminal hold hfo)
      · exact mem_concat_self
  next =>
    exact { h with apart := nofun, active_fresh := nofun, active_lt := nofun }

end

theorem recorded_setStage (hr : child.recordings[index]? = some recording) (stage : RecordStage)
    (state : TurnStateRef) : recorded (child.setStage index recording stage) state =
      recorded child state := by
  have hs := countP_set_of_getElem?
    (p := fun recording : Recording ↦ recording.terminal.turnState == state) hr
    { recording with stage }
  simp only [recorded, Child.setStage] at hs ⊢
  omega

theorem mem_setStage (h : r ∈ (child.setStage index recording stage).recordings) :
    r ∈ child.recordings ∨ r = { recording with stage } :=
  mem_or_eq_of_mem_set h

theorem ChildInvariant.recording_ended_of_setStage (h : ChildInvariant threadId bound child)
    (hr : child.recordings[index]? = some recording)
    (hm : r ∈ (child.setStage index recording stage).recordings) : r.terminal ∈ child.ended := by
  rcases mem_setStage hm with hold | rfl
  · exact h.recordings_ended r hold
  · exact h.recordings_ended recording (mem_of_getElem? hr)

theorem Underway.setStage (h : Underway child terminal)
    (hr : child.recordings[index]? = some recording) (stage : RecordStage) :
    Underway (child.setStage index recording stage) terminal := by
  obtain ⟨r, hm, heq⟩ := h
  by_cases hs : r = recording
  · refine ⟨{ recording with stage }, List.mem_set (List.getElem?_eq_some_iff.mp hr).1 _, ?_⟩
    rw [← heq, hs]
  · exact ⟨r, mem_set_of_ne hr hm hs _, heq⟩

section

variable (h : ChildInvariant threadId bound child) (hr : child.recordings[index]? = some recording)
include h hr

namespace ChildInvariant

theorem recorded_of_setStage (he : terminal ∈ child.ended) :
    Underway (child.setStage index recording stage) terminal ∨ terminal ∈ child.sent :=
  (h.ended_recorded terminal he).imp_left (·.setStage hr stage)

theorem lease (stage : RecordStage) (hstg : stage ≠ .tabled) :
    ChildInvariant threadId bound { child.setStage index recording stage with
      store := recordTurnTerminal child.store threadId recording.terminal.turnId
        recording.terminal.turnState recording.terminal.status } := by
  have he := h.recordings_ended recording (mem_of_getElem? hr)
  refine
    { h with
      recorded_le := fun state ↦ (recorded_setStage hr stage state).trans_le (h.recorded_le state)
      recordings_ended := fun r hm ↦ h.recording_ended_of_setStage hr hm
      ended_recorded := fun terminal he ↦ h.recorded_of_setStage hr he
      tabled := ?_
      leases_ended := ?_
      leases_open := ?_ }
  · intro r hm ht
    rcases mem_setStage hm with hold | rfl
    · exact h.tabled r hold ht
    · exact absurd ht hstg
  · intro _ hl' status hs
    obtain ⟨lease, hl, rfl⟩ := mem_map.mp hl'
    split at hs
    next hf =>
      rw [if_pos hf]
      simp only [isFor, Bool.and_eq_true, beq_iff_eq] at hf
      rw [mem_some_iff] at hs
      rw [hf.1.1.2, hf.1.2, ← hs]
      exact he
    next hf =>
      rw [if_neg hf]
      exact h.leases_ended lease hl status hs
  · intro _ hl' hth ho terminal hte hma
    obtain ⟨lease, hl, rfl⟩ := mem_map.mp hl'
    split at ho
    next => cases ho
    next hf =>
      rw [if_neg hf] at hth hma
      have hen := h.leases_open lease hl hth ho terminal hte hma
      refine mem_set_of_ne hr hen ?_ _
      -- A recording that reaches the leases leaves none of its own open.
      rintro rfl
      apply hf
      obtain ⟨hid, hst⟩ := isFor_iff.mp hma
      simp [isFor, hth, hid, hst, ho]

theorem setStage (stage : RecordStage)
    (he : recording.stage ≠ .entered) (hs : stage ≠ .tabled) (revision : ℕ) :
    ChildInvariant threadId bound { child.setStage index recording stage with
      revision := revision } := by
  refine
    { h with
      recorded_le := fun state ↦ (recorded_setStage hr stage state).trans_le (h.recorded_le state)
      recordings_ended := fun r hm ↦ h.recording_ended_of_setStage hr hm
      ended_recorded := fun terminal hen ↦ h.recorded_of_setStage hr hen
      tabled := ?_
      leases_open := ?_ }
  · intro r hm ht
    rcases mem_setStage hm with hold | rfl
    · exact h.tabled r hold ht
    · exact absurd ht hs
  · intro lease hl hth ho terminal hte hma
    refine mem_set_of_ne hr (h.leases_open lease hl hth ho terminal hte hma) ?_ _
    rintro rfl
    exact he rfl

theorem table (hs : recording.stage = .announced)
    (hd : ∀ r ∈ child.recordings, r.terminal.turnState ∉ dead) :
    ChildInvariant threadId bound { child.setStage index recording .tabled with
      terminals := Child.insertTerminal child.terminals recording.terminal dead } := by
  refine
    { h with
      recorded_le := fun state ↦ (recorded_setStage hr _ state).trans_le (h.recorded_le state)
      recordings_ended := fun r hm ↦ h.recording_ended_of_setStage hr hm
      ended_recorded := fun terminal he ↦ h.recorded_of_setStage hr he
      terminals_ended := ?_
      tabled := ?_
      leases_open := ?_ }
  · intro terminal ht
    rcases mem_insertTerminal ht with hold | rfl
    · exact h.terminals_ended terminal hold
    · exact h.recordings_ended recording (mem_of_getElem? hr)
  · intro r hm hta
    rcases mem_setStage hm with hold | rfl
    · exact (h.tabled r hold hta).insertTerminal _ (hd r hold)
    · exact listed_insertTerminal _ _ _
  · intro lease hl hth ho terminal ht hma
    refine mem_set_of_ne hr (h.leases_open lease hl hth ho terminal ht hma) ?_ _
    rintro rfl
    cases hs

theorem send (hst : recording.stage = .tabled) :
    ChildInvariant threadId bound { child with
      recordings := child.recordings.eraseIdx index
      sent := child.sent ++ [recording.terminal] } := by
  have hsub := (eraseIdx_sublist child.recordings index).subset
  refine
    { h with
      recorded_le := ?_
      recordings_ended := fun r hm ↦ h.recordings_ended r (hsub hm)
      sent_ended := ?_
      ended_recorded := ?_
      tabled := fun r hm ↦ h.tabled r (hsub hm)
      leases_open := ?_ }
  · intro state
    have hle := h.recorded_le state
    have her := countP_eraseIdx_of_getElem?
      (p := fun recording : Recording ↦ recording.terminal.turnState == state) hr
    simp only [recorded, countP_append, countP_singleton] at hle her ⊢
    omega
  · intro terminal ht
    rcases mem_concat.mp ht with hold | rfl
    · exact h.sent_ended terminal hold
    · exact h.recordings_ended recording (mem_of_getElem? hr)
  · intro terminal ht
    rcases h.ended_recorded terminal ht with ⟨r, hm, rfl⟩ | hse
    · obtain ⟨i, hi⟩ := mem_iff_getElem?.mp hm
      by_cases hs : i = index
      · rw [hs, hr, some.injEq] at hi
        exact .inr (mem_append_right _ (mem_singleton.mpr (hi ▸ rfl)))
      · exact .inl ⟨r, mem_eraseIdx_iff_getElem?.mpr ⟨i, hs, hi⟩, rfl⟩
    · exact .inr (mem_append_left _ hse)
  · intro lease hl hth ho terminal ht hma
    have he := h.leases_open lease hl hth ho terminal ht hma
    obtain ⟨i, hi⟩ := mem_iff_getElem?.mp he
    refine mem_eraseIdx_iff_getElem?.mpr ⟨i, ?_, hi⟩
    rintro rfl
    rw [hr, some.injEq] at hi
    rw [hi] at hst
    cases hst

theorem advance (hd : ∀ r ∈ child.recordings, r.terminal.turnState ∉ dead) :
    ChildInvariant threadId bound (child.advance threadId index recording dead) := by
  unfold Child.advance
  cases hs : recording.stage with
  | entered => exact h.lease hr _ nofun
  | leased => exact h.setStage hr .announced (by simp [hs]) nofun _
  | announced => exact h.table hr hs hd
  | tabled => exact h.send hr hs

end ChildInvariant

end

theorem ChildInvariant.perform (h : ChildInvariant threadId bound child)
    (hop : child.permits op = true) : ChildInvariant threadId bound (child.perform op) := by
  cases leaseChange_of_permits hop with
  | same hsa =>
    refine { h with leases_ended := ?_, leases_open := ?_ }
    · simpa only [Child.perform, hsa] using h.leases_ended
    · simpa only [Child.perform, hsa] using h.leases_open
  | add _ state hturn ha =>
    refine { h with leases_ended := ?_, leases_open := ?_ }
    · intro lease hl status hs
      rcases ha lease hl with hold | ⟨-, hn⟩
      · exact h.leases_ended lease hold status hs
      · rw [hn] at hs
        cases hs
    · intro lease hl hth ho terminal ht hm
      rcases ha lease hl with hold | ⟨hst, -⟩
      · exact h.leases_open lease hold hth ho terminal ht hm
      · -- The turn that takes the mail has not ended.
        have he : state ∈ child.ended.map ExactTerminal.turnState := by
          rw [← hst, ← (isFor_iff.mp hm).2]
          exact mem_map_of_mem ht
        rcases hturn with hac | hrs
        · exact absurd he (h.active_fresh _ hac)
        · exact absurd he (h.reserved_fresh _ hrs)
  | remove hsub =>
    refine { h with leases_ended := ?_, leases_open := ?_ } <;> intro lease hl
    · exact h.leases_ended lease (hsub hl)
    · exact h.leases_open lease (hsub hl)

def Spares : ChildAction → TurnStateRef → Prop
  | .record _ dead, state | .prune dead, state => state ∉ dead
  | _, _ => True

structure Admissible (child : Child) (bound bound' : ℕ) (action : ChildAction) : Prop where
  le : bound ≤ bound'
  fresh : ∀ state, action = .reserve state → bound ≤ state.address ∧ state.address < bound'
  held : ∀ recording ∈ child.recordings, Spares action recording.terminal.turnState

theorem ChildInvariant.step (h : ChildInvariant threadId bound child)
    (hok : Admissible child bound bound' action) (hs : child.step threadId action = some child') :
    ChildInvariant threadId bound' child' := by
  have hm := h.mono hok.le
  cases action with
  | reserve state =>
    obtain ⟨hf, rfl⟩ := ite_some_none_eq_some.mp hs
    obtain ⟨_, hlt⟩ := hok.fresh state rfl
    rw [Bool.and_eq_true, isNone_iff_eq_none] at hf
    refine { hm with apart := ?_, reserved_fresh := ?_, reserved_lt := ?_ }
    · intro ha
      rw [hf.1] at ha
      cases ha
    · intro _ hrs he
      rw [mem_some_iff] at hrs
      subst hrs
      obtain ⟨terminal, ht, heq⟩ := mem_map.mp he
      have hlt' := h.ended_lt terminal ht
      rw [heq] at hlt'
      omega
    · intro _ hrs
      rw [mem_some_iff] at hrs
      exact hrs ▸ hlt
  | release =>
    cases hs
    exact { hm with apart := fun _ ↦ rfl, reserved_fresh := nofun, reserved_lt := nofun }
  | start =>
    obtain ⟨state, hrs, rfl⟩ := map_eq_some_iff.mp hs
    refine
      { hm with
        apart := fun _ ↦ rfl
        reserved_fresh := nofun
        reserved_lt := nofun
        active_fresh := ?_
        active_lt := ?_ }
    · intro _ hturn
      rw [mem_some_iff] at hturn
      exact hturn ▸ h.reserved_fresh state hrs
    · intro _ hturn
      rw [mem_some_iff] at hturn
      exact hturn ▸ hm.reserved_lt state hrs
  | finish turnId status =>
    obtain ⟨_, ha, rfl⟩ := map_eq_some_iff.mp hs
    exact hm.finish ha turnId status
  | record =>
    obtain ⟨_, hr, rfl⟩ := map_eq_some_iff.mp hs
    exact hm.advance hr hok.held
  | prune =>
    cases hs
    refine { hm with terminals_ended := ?_, tabled := ?_ }
    · intro terminal ht
      exact h.terminals_ended terminal (mem_filter.mp ht).1
    · intro recording hme hstg
      exact (h.tabled recording hme hstg).prune (hok.held recording hme)
  | announce =>
    cases hs
    exact { hm with }
  | setStatus =>
    cases hs
    refine { hm with status_shutDown := ?_ }
    intro hst
    simp only [beq_iff_eq, Bool.or_eq_true]
    exact .inr hst
  | perform =>
    obtain ⟨hop, rfl⟩ := ite_some_none_eq_some.mp hs
    exact hm.perform hop

theorem childInvariant_initial (threadId : ThreadId) (bound : ℕ) :
    ChildInvariant threadId bound .initial := by
  constructor <;> simp [Child.initial, recorded, empty]

/-! ## What a waiting observer relies on -/

structure Backlog (child : Child) (turnId : TurnId) (turnState : TurnStateRef) (cursor : ℕ) :
    Prop where
  le_length : cursor ≤ child.sent.length
  ahead : ∀ (position : ℕ) (terminal : ExactTerminal), child.sent[position]? = some terminal →
    terminal.isFor turnId turnState = true → cursor ≤ position

def Tabled (child : Child) (turnId : TurnId) (turnState : TurnStateRef) : Prop :=
  ∀ terminal ∈ child.sent, terminal.isFor turnId turnState = true →
    Listed child.terminals turnId turnState

def OpenLease (child : Child) (threadId : ThreadId) (predecessor turnId : TurnId)
    (turnState : TurnStateRef) : Prop :=
  ∃ lease ∈ child.store.continuations, lease.follows threadId predecessor = true ∧
    lease.successorTurnId = turnId ∧ lease.successorTurnState = turnState ∧
      lease.terminalStatus = none

def Announcing (child : Child) (turnId : TurnId) (turnState : TurnStateRef) : Prop :=
  ∃ recording ∈ child.recordings, recording.terminal.isFor turnId turnState = true ∧
    recording.stage = .leased true

/-- The lease is open, or its end is or will be announced to a receiver that has seen `seen`. -/
structure Followed (child : Child) (threadId : ThreadId) (predecessor turnId : TurnId)
    (turnState : TurnStateRef) (seen : ℕ) : Prop where
  le_revision : seen ≤ child.revision
  pending : OpenLease child threadId predecessor turnId turnState ∨
    Announcing child turnId turnState ∨ seen < child.revision

theorem ChildInvariant.backlog_of_active (h : ChildInvariant threadId bound child)
    (ha : child.active = some (turnId, turnState)) {cursor : ℕ}
    (hc : cursor ≤ child.sent.length) : Backlog child turnId turnState cursor := by
  refine ⟨hc, ?_⟩
  intro _ terminal hs hf
  have he := h.sent_ended terminal (mem_of_getElem? hs)
  refine absurd ?_ (h.active_fresh _ ha)
  rw [← (isFor_iff.mp hf).2]
  exact mem_map_of_mem he

theorem ChildInvariant.tabled_of_active (h : ChildInvariant threadId bound child)
    (ha : child.active = some (turnId, turnState)) : Tabled child turnId turnState := by
  intro terminal hs hf
  refine absurd ?_ (h.active_fresh _ ha)
  rw [← (isFor_iff.mp hf).2]
  exact mem_map_of_mem (h.sent_ended terminal hs)

theorem Followed.lt_revision (hf : Followed child threadId predecessor turnId turnState seen)
    (h : ChildInvariant threadId bound child)
    (hse : terminal ∈ child.sent) (hfor : terminal.isFor turnId turnState = true) :
    seen < child.revision := by
  have hs := (isFor_iff.mp hfor).2
  have ho := h.recorded_le turnState
  have hp : 0 < child.sent.countP (·.turnState == turnState) :=
    countP_pos_iff.mpr ⟨terminal, hse, by simp [hs]⟩
  -- Nothing of the turn is still being recorded.
  have hn : ∀ recording ∈ child.recordings, recording.terminal.turnState ≠ turnState := by
    intro recording hm heq
    have hp' : 0 < child.recordings.countP (·.terminal.turnState == turnState) :=
      countP_pos_iff.mpr ⟨recording, hm, by simp [heq]⟩
    unfold recorded at ho
    omega
  rcases hf.pending with ⟨lease, hl, hfo, hid, hst, hop⟩ | ⟨r, hr, hrf, -⟩ | hlt
  · simp only [follows, Bool.and_eq_true, beq_iff_eq] at hfo
    have he := h.leases_open lease hl hfo.1 hop terminal (h.sent_ended _ hse)
      (by rw [hid, hst]; exact hfor)
    exact absurd hs (hn _ he)
  · exact absurd (isFor_iff.mp hrf).2 (hn r hr)
  · exact hlt

theorem step_sent (hs : child.step threadId action = some child') :
    child'.sent = child.sent ∨
      ∃ index dead recording, action = .record index dead ∧
        child.recordings[index]? = some recording ∧ recording.stage = .tabled ∧
        child'.sent = child.sent ++ [recording.terminal] ∧ child'.terminals = child.terminals := by
  cases action with
  | start =>
    obtain ⟨_, -, rfl⟩ := map_eq_some_iff.mp hs
    exact .inl rfl
  | finish =>
    obtain ⟨_, -, rfl⟩ := map_eq_some_iff.mp hs
    refine .inl ?_
    unfold Child.finish
    split <;> rfl
  | record index dead =>
    obtain ⟨recording, hr, rfl⟩ := map_eq_some_iff.mp hs
    unfold Child.advance
    cases hst : recording.stage with
    | entered | leased | announced => exact .inl rfl
    | tabled => exact .inr ⟨index, dead, recording, rfl, hr, hst, rfl, rfl⟩
  | reserve | perform =>
    obtain ⟨-, rfl⟩ := ite_some_none_eq_some.mp hs
    exact .inl rfl
  | release | prune | announce | setStatus =>
    cases hs
    exact .inl rfl

theorem Backlog.step {cursor : ℕ} (h : Backlog child turnId turnState cursor)
    (hst : child.step threadId action = some child') :
    Backlog child' turnId turnState cursor := by
  rcases step_sent hst with hs | ⟨_, _, _, -, -, -, hse, -⟩
  · exact ⟨hs ▸ h.le_length, hs ▸ h.ahead⟩
  · have hle := h.le_length
    refine ⟨by rw [hse, length_append]; omega, ?_⟩
    intro pos terminal hp hf
    rw [hse] at hp
    by_cases hlt : pos < child.sent.length
    · rw [List.getElem?_append_left hlt] at hp
      exact h.ahead pos terminal hp hf
    · omega

theorem listed_of_step (hs : child.step threadId action = some child')
    (hh : Spares action turnState)
    (h : Listed child.terminals turnId turnState) : Listed child'.terminals turnId turnState := by
  cases action with
  | start =>
    obtain ⟨_, -, rfl⟩ := map_eq_some_iff.mp hs
    exact h
  | finish =>
    obtain ⟨_, -, rfl⟩ := map_eq_some_iff.mp hs
    unfold Child.finish
    split <;> exact h
  | record =>
    obtain ⟨recording, _, rfl⟩ := map_eq_some_iff.mp hs
    unfold Child.advance
    cases recording.stage with
    | entered | leased | tabled => exact h
    | announced => exact h.insertTerminal _ hh
  | prune =>
    cases hs
    exact h.prune hh
  | reserve | perform =>
    obtain ⟨-, rfl⟩ := ite_some_none_eq_some.mp hs
    exact h
  | release | announce | setStatus =>
    cases hs
    exact h

theorem Tabled.step (hta : Tabled child turnId turnState)
    (h : ChildInvariant threadId bound child)
    (hs : child.step threadId action = some child')
    (hh : Spares action turnState) :
    Tabled child' turnId turnState := by
  intro terminal ht hf
  rcases step_sent hs with hsa | ⟨_, _, recording, -, hr, hstg, hse, hte⟩
  · rw [hsa] at ht
    exact listed_of_step hs hh (hta terminal ht hf)
  · rw [hte]
    rw [hse] at ht
    rcases mem_concat.mp ht with hold | rfl
    · exact hta terminal hold hf
    · have hl := h.tabled recording (mem_of_getElem? hr) hstg
      obtain ⟨hid, hst⟩ := isFor_iff.mp hf
      rw [hid, hst] at hl
      exact hl

/-- An announcement leaves nothing open. -/
theorem Followed.of_lt (h : seen < child.revision) :
    Followed child threadId predecessor turnId turnState seen :=
  ⟨h.le, .inr (.inr h)⟩

theorem Followed.of_same (h : Followed child threadId predecessor turnId turnState seen)
    (hl : child'.store.continuations = child.store.continuations)
    (hrec : ∀ recording ∈ child.recordings, recording.stage = .leased true →
      recording ∈ child'.recordings) (hre : child.revision ≤ child'.revision) :
    Followed child' threadId predecessor turnId turnState seen := by
  refine ⟨h.le_revision.trans hre, ?_⟩
  rcases h.pending with ho | ⟨r, hr, hf, hs⟩ | hlt
  · exact .inl (by rw [OpenLease, hl]; exact ho)
  · exact .inr (.inl ⟨r, hrec r hr hs, hf, hs⟩)
  · exact .inr (.inr (hlt.trans_le hre))

theorem mem_setStage_of_leased (hr : child.recordings[index]? = some recording)
    (hm : r ∈ child.recordings) (hl : r.stage = .leased true)
    (hs : recording.stage ≠ .leased true) (stage : RecordStage) :
    r ∈ (child.setStage index recording stage).recordings := by
  refine mem_set_of_ne hr hm ?_ _
  rintro rfl
  exact hs hl

section

variable (h : Followed child threadId predecessor turnId turnState seen)
include h

section

variable (hr : child.recordings[index]? = some recording)
include hr

theorem Followed.lease (hst : recording.stage = .entered) :
    Followed { child.setStage index recording (.leased (turnTerminalChanges child.store threadId
          recording.terminal.turnId recording.terminal.turnState recording.terminal.status)) with
        store := recordTurnTerminal child.store threadId recording.terminal.turnId
          recording.terminal.turnState recording.terminal.status }
      threadId predecessor turnId turnState seen := by
  refine ⟨h.le_revision, ?_⟩
  rcases h.pending with ⟨lease, hle, hf, hid, hs, ho⟩ | ⟨r, hm, hfo, hl⟩ | hlt
  · by_cases hfo : lease.isFor threadId recording.terminal.turnId
        recording.terminal.turnState = true
    · have hc : turnTerminalChanges child.store threadId recording.terminal.turnId
          recording.terminal.turnState recording.terminal.status = true := by
        unfold turnTerminalChanges
        rw [any_eq_true.mpr ⟨lease, hle, hfo⟩, Bool.true_or]
      rw [hc]
      simp only [isFor, Bool.and_eq_true, beq_iff_eq] at hfo
      obtain ⟨hlt, -⟩ := List.getElem?_eq_some_iff.mp hr
      refine .inr (.inl ⟨{ recording with stage := .leased true }, List.mem_set hlt _, ?_, rfl⟩)
      exact isFor_iff.mpr ⟨hfo.1.1.2.symm.trans hid, hfo.1.2.symm.trans hs⟩
    · refine .inl ⟨lease, ?_, hf, hid, hs, ho⟩
      refine mem_map.mpr ⟨lease, hle, ?_⟩
      rw [if_neg hfo]
  · refine .inr (.inl ⟨r, mem_setStage_of_leased hr hm hl ?_ _, hfo, hl⟩)
    rw [hst]
    exact nofun
  · exact .inr (.inr hlt)

theorem Followed.announce {changed : Bool} (hs : recording.stage = .leased changed) :
    Followed { child.setStage index recording .announced with
        revision := child.revision + changed.toNat } threadId predecessor turnId turnState seen := by
  have hle := h.le_revision
  cases changed with
  | true =>
    refine .of_lt ?_
    dsimp only [Bool.toNat_true]
    omega
  | false =>
    refine h.of_same rfl ?_ (le_add_right _ _)
    intro r hm hl
    refine mem_setStage_of_leased hr hm hl ?_ _
    rw [hs]
    exact nofun

theorem Followed.advance (dead : List TurnStateRef) :
    Followed (child.advance threadId index recording dead) threadId predecessor turnId turnState
      seen := by
  unfold Child.advance
  cases hs : recording.stage with
  | entered => exact h.lease hr hs
  | leased => exact h.announce hr hs
  | announced =>
    refine h.of_same rfl ?_ le_rfl
    intro r hm hl
    refine mem_setStage_of_leased hr hm hl ?_ _
    rw [hs]
    exact nofun
  | tabled =>
    refine h.of_same rfl ?_ le_rfl
    intro r hm hl
    obtain ⟨i, hi⟩ := mem_iff_getElem?.mp hm
    refine mem_eraseIdx_iff_getElem?.mpr ⟨i, ?_, hi⟩
    rintro rfl
    rw [hr, some.injEq] at hi
    rw [← hi, hs] at hl
    cases hl

end

theorem Followed.perform (hop : child.permits op = true) :
    Followed (child.perform op) threadId predecessor turnId turnState seen := by
  have hle := h.le_revision
  cases leaseChange_of_permits hop with
  | same hs => exact h.of_same hs (fun _ hm _ ↦ hm) (le_add_right _ _)
  | add _ _ _ _ hkept =>
    refine ⟨hle.trans (le_add_right _ _), ?_⟩
    rcases h.pending with ⟨lease, hl, ho⟩ | ha | hlt
    · exact .inl ⟨lease, hkept hl, ho⟩
    · exact .inr (.inl ha)
    · exact .inr (.inr (hlt.trans_le (le_add_right _ _)))
  | remove _ han =>
    refine .of_lt ?_
    simp only [Child.perform, han, Bool.toNat_true]
    omega

theorem Followed.step (hs : child.step threadId action = some child') :
    Followed child' threadId predecessor turnId turnState seen := by
  cases action with
  | reserve =>
    obtain ⟨-, rfl⟩ := ite_some_none_eq_some.mp hs
    exact h.of_same rfl (fun _ hm _ ↦ hm) le_rfl
  | start =>
    obtain ⟨_, -, rfl⟩ := map_eq_some_iff.mp hs
    exact h.of_same rfl (fun _ hm _ ↦ hm) le_rfl
  | finish =>
    obtain ⟨_, -, rfl⟩ := map_eq_some_iff.mp hs
    unfold Child.finish
    split
    · exact h.of_same rfl (fun _ hm _ ↦ mem_append_left _ hm) le_rfl
    · exact h.of_same rfl (fun _ hm _ ↦ hm) le_rfl
  | record _ dead =>
    obtain ⟨_, hr, rfl⟩ := map_eq_some_iff.mp hs
    exact h.advance hr dead
  | announce =>
    cases hs
    exact h.of_same rfl (fun _ hm _ ↦ hm) (le_add_right _ _)
  | perform =>
    obtain ⟨hop, rfl⟩ := ite_some_none_eq_some.mp hs
    exact h.perform hop
  | release | prune | setStatus =>
    cases hs
    exact h.of_same rfl (fun _ hm _ ↦ hm) le_rfl

end

/-- Turns that ended stay ended, a shut-down child stays shut down, and revisions grow. -/
structure Grows (child child' : Child) : Prop where
  ended : child.ended ⊆ child'.ended
  shutDown : child.shutDown = true → child'.shutDown = true
  revision : child.revision ≤ child'.revision

theorem grows_of_step (hs : child.step threadId action = some child') : Grows child child' := by
  cases action with
  | reserve =>
    obtain ⟨-, rfl⟩ := ite_some_none_eq_some.mp hs
    exact ⟨fun _ h ↦ h, id, le_rfl⟩
  | start =>
    obtain ⟨_, -, rfl⟩ := map_eq_some_iff.mp hs
    exact ⟨fun _ h ↦ h, id, le_rfl⟩
  | finish =>
    obtain ⟨_, -, rfl⟩ := map_eq_some_iff.mp hs
    unfold Child.finish
    split
    · exact ⟨subset_append_left _ _, id, le_rfl⟩
    · exact ⟨fun _ h ↦ h, id, le_rfl⟩
  | record =>
    obtain ⟨recording, _, rfl⟩ := map_eq_some_iff.mp hs
    unfold Child.advance
    cases recording.stage with
    | leased => exact ⟨fun _ h ↦ h, id, le_add_right _ _⟩
    | entered | announced | tabled => exact ⟨fun _ h ↦ h, id, le_rfl⟩
  | announce =>
    cases hs
    exact ⟨fun _ h ↦ h, id, le_add_right _ _⟩
  | setStatus =>
    cases hs
    exact ⟨fun _ h ↦ h, fun h ↦ by simp [h], le_rfl⟩
  | perform =>
    obtain ⟨_, rfl⟩ := ite_some_none_eq_some.mp hs
    exact ⟨fun _ h ↦ h, id, le_add_right _ _⟩
  | release | prune =>
    cases hs
    exact ⟨fun _ h ↦ h, id, le_rfl⟩

end Slopdex.Join.Recordings
