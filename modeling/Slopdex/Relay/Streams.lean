import Slopdex.Relay.Multiplexed

/-!
# Which streams become active

A handshake stays pending only while nothing but ignored frames arrives on its identifier, and the
number of its validation is never given again. So the validation that activates a stream is the one
of the handshake that is pending, and a notice of another instance finds a different number.
-/

namespace Slopdex.Relay

open Library.KeyedMap Library.Transition Library.Transition.System List Option AList Nat

variable {Key Handshake : Type} {noise : Noise Key Handshake} {s s' : State Key Handshake}
  {a : Action} {id : String} {n : ℕ} {payload : List UInt8} {frame : RelayMessageFrame}

/-- The handshake was read as the newest frame that concerns its stream. -/
def Undisturbed (received : List RelayMessageFrame) (id : String) (payload : List UInt8) : Prop :=
  ∃ before since, received = before ++ ⟨id, .handshake payload⟩ :: since ∧
    ∀ frame ∈ since, frame.streamId = id → frame.body = .other

theorem Undisturbed.concat {received : List RelayMessageFrame}
    (h : Undisturbed received id payload) (hq : frame.streamId = id → frame.body = .other) :
    Undisturbed (received ++ [frame]) id payload := by
  obtain ⟨before, since, rfl, hsi⟩ := h
  refine ⟨before, since ++ [frame], by simp, ?_⟩
  intro other hm
  rcases mem_append.mp hm with hold | hne
  · exact hsi other hold
  · rw [mem_singleton.mp hne]
    exact hq

/-- Nothing becomes active or pending, and what stays pending is not disturbed. -/
structure Shrinks (s s' : State Key Handshake) : Prop where
  streams : ∀ id n, s'.streams.lookup id = some n → s.streams.lookup id = some n
  size_le : size s'.streams ≤ size s.streams
  pending : ∀ id p, s'.pendingHandshakes.lookup id = some p → s.pendingHandshakes.lookup id = some p
  tasks : s'.validationTasks.Sublist s.validationTasks
  next : s'.nextValidationId = s.nextValidationId
  spawned : s'.spawned = s.spawned
  received : ∀ id, id ∈ s'.pendingHandshakes → ∀ payload, Undisturbed s.received id payload →
    Undisturbed s'.received id payload

namespace Shrinks

theorem refl (s : State Key Handshake) : Shrinks s s :=
  ⟨fun _ _ h ↦ h, le_rfl, fun _ _ h ↦ h, .refl _, rfl, rfl, fun _ _ _ h ↦ h⟩

theorem collect (s : State Key Handshake) (index : ℕ) : Shrinks s (s.collect index) :=
  ⟨fun _ _ h ↦ h, le_rfl, fun _ _ h ↦ h, eraseIdx_sublist .., rfl, rfl, fun _ _ _ h ↦ h⟩

variable (h : Shrinks s s')

include h

theorem chargeFailure : Shrinks s s'.chargeFailure :=
  ⟨h.streams, h.size_le, h.pending, h.tasks, h.next, h.spawned, h.received⟩

theorem dropPending (id : String) : Shrinks s (s'.dropPending id) :=
  ⟨h.streams, h.size_le, fun other p hp ↦ h.pending other p (lookup_of_lookup_erase hp), h.tasks,
    h.next, h.spawned, fun other hm ↦ h.received other (mem_erase.mp hm).2⟩

theorem dropStream (id : String) : Shrinks s (s'.dropStream id) :=
  ⟨fun other n hn ↦ h.streams other n (lookup_of_lookup_erase hn),
    (kerase_sublist id s'.streams.entries).length_le.trans h.size_le, h.pending, h.tasks,
    h.next, h.spawned, h.received⟩

theorem read (hq : frame.body ≠ .other → frame.streamId ∉ s'.pendingHandshakes) :
    Shrinks s (s'.read frame) := by
  refine ⟨h.streams, h.size_le, h.pending, h.tasks, h.next, h.spawned, ?_⟩
  intro id hid payload hu
  refine (h.received id hid payload hu).concat ?_
  rintro rfl
  by_contra ho
  exact hq ho hid

end Shrinks

/-- What one event can do. -/
inductive Moves (noise : Noise Key Handshake) (s : State Key Handshake) :
    Action → State Key Handshake → Prop
  | shrinks {a : Action} {s' : State Key Handshake} (hshrinks : Shrinks s s')
      (hclosed : ∀ index closed, a = .closedStream index → s.spawned[index]? = some closed →
        ∀ id n, s.streams.lookup id = some n → s'.streams.lookup id ≠ some n →
          closed = ⟨id, n⟩) : Moves noise s a s'
  | awaits {id : String} {payload : List UInt8} {delivered : Bool} {handshake : Handshake}
      {key : Key} {authorization : String} (hactive : id ∉ s.streams)
      (hroom : s.validationTasks.length < maxPendingHandshakeValidations)
      (hrequest : noise.request id payload = some (handshake, key, authorization)) :
      Moves noise s (.frame ⟨id, .handshake payload⟩ delivered)
        ((s.read ⟨id, .handshake payload⟩).await id handshake key authorization)
  | activates {index : ℕ} {result : Validation Key} {pending : PendingHandshake Handshake}
      (hresult : s.validationTasks[index]? = some result)
      (hpending : s.pendingHandshakes.lookup result.streamId = some pending)
      (hcurrent : pending.validationId = result.validationId)
      (hroom : size s.streams < maxActiveNoiseRelayStreams) :
      Moves noise s (.validated index true true)
        (((s.collect index).dropPending result.streamId).spawnNoiseVirtualStream result.streamId
          result.validationId)

theorem not_mem_dropPending (s : State Key Handshake) (id : String) :
    id ∉ (s.dropPending id).pendingHandshakes := by
  rw [State.dropPending, mem_erase]
  exact fun h ↦ h.1 rfl

theorem moves_of_handleFrame (he : ∀ id, id ∈ s.pendingHandshakes → id ∉ s.streams)
    (frame : RelayMessageFrame) (delivered : Bool) :
    Moves noise s (.frame frame delivered) (s.handleFrame noise frame delivered) := by
  obtain ⟨id, body⟩ := frame
  have hsa := Shrinks.refl s
  have hc : Moves noise s (.frame ⟨id, body⟩ delivered)
      ((s.read ⟨id, body⟩).dropPending id).chargeFailure :=
    .shrinks ((hsa.dropPending id).chargeFailure.read fun _ ↦ not_mem_dropPending s id) nofun
  have hi (hf : id ∉ s.pendingHandshakes) :
      Moves noise s (.frame ⟨id, body⟩ delivered) (s.read ⟨id, body⟩) :=
    .shrinks (hsa.read fun _ ↦ hf) nofun
  have hact (h : id ∈ s.streams) : id ∉ s.pendingHandshakes := fun hp ↦ he id hp h
  cases body with
  | handshake payload =>
    change Moves noise s _ ((s.read ⟨id, .handshake payload⟩).handleHandshake noise id payload)
    unfold State.handleHandshake
    split_ifs with hst hpend hfu hb
    · exact hi (hact hst)
    · exact hc
    · exact hi hpend
    · exact hi hpend
    · split
      next => exact .shrinks (hsa.chargeFailure.read fun _ ↦ hpend) nofun
      next hrequest => exact .awaits hst (Nat.lt_of_not_le hb) hrequest
  | data =>
    change Moves noise s _ ((s.read ⟨id, .data⟩).handleData id delivered)
    unfold State.handleData
    split_ifs with hst hd hpend
    · exact hi (hact hst)
    · exact .shrinks ((hsa.dropStream id).read fun _ ↦ hact hst) nofun
    · exact hc
    · exact hi hpend
  | reset =>
    exact .shrinks (((hsa.dropPending id).dropStream id).read fun _ ↦ not_mem_dropPending s id)
      nofun
  | other => exact .shrinks (hsa.read fun hne ↦ absurd rfl hne) nofun

theorem moves_of_handleValidation {index : ℕ} {res : Validation Key}
    (hres : s.validationTasks[index]? = some res) (authorized queued : Bool) :
    Moves noise s (.validated index authorized queued)
      ((s.collect index).handleValidation noise res authorized queued) := by
  have hc := Shrinks.collect s index
  have hd := hc.dropPending res.streamId
  unfold State.handleValidation
  split
  next => exact .shrinks hc nofun
  next hpend =>
    dsimp only
    split_ifs with hst hde hf hi hu
    · exact .shrinks hc nofun
    · exact .shrinks hd.chargeFailure nofun
    · exact .shrinks hd nofun
    · exact .shrinks hd.chargeFailure nofun
    · exact .shrinks ⟨hd.streams, hd.size_le, hd.pending, hd.tasks, hd.next,
        hd.spawned, hd.received⟩ nofun
    · rw [Bool.not_eq_false] at hde hu
      subst hde hu
      exact .activates hres hpend (not_not.mp hst) (Nat.lt_of_not_le hf)

theorem moves_of_step (he : ∀ id, id ∈ s.pendingHandshakes → id ∉ s.streams)
    (h : s.step noise a = some s') : Moves noise s a s' := by
  obtain ⟨-, h⟩ := ite_none_left_eq_some.mp h
  cases a with
  | frame frame delivered =>
    cases h
    exact moves_of_handleFrame he frame delivered
  | validated _ authorized queued =>
    obtain ⟨_, hres, rfl⟩ := map_eq_some_iff.mp h
    exact moves_of_handleValidation hres authorized queued
  | validationFailed index =>
    obtain ⟨_, -, rfl⟩ := map_eq_some_iff.mp h
    have hc := Shrinks.collect s index
    exact .shrinks ⟨hc.streams, hc.size_le, fun _ _ hp ↦ absurd hp.symm
      (some_ne_none _), hc.tasks, hc.next, hc.spawned,
      fun id hid ↦ absurd hid (notMem_empty id)⟩ nofun
  | closedStream =>
    obtain ⟨closed, hclosed, rfl⟩ := map_eq_some_iff.mp h
    unfold State.handleClosed
    split
    next hcur =>
      refine .shrinks ((Shrinks.refl s).dropStream _) ?_
      intro _ _ hi hc' id _ hn hg
      cases hi
      obtain rfl := mem_unique hclosed hc'
      by_cases hid : id = closed.streamId
      · subst hid
        obtain rfl := mem_unique hcur hn
        rfl
      · exact absurd ((lookup_erase_ne hid).trans hn) hg
    next => exact .shrinks (.refl s) fun _ _ _ _ _ _ hn hg ↦ absurd hn hg
  | disconnect =>
    cases h
    exact .shrinks ⟨fun _ _ h ↦ h, le_rfl, fun _ _ h ↦ h, .refl _, rfl, rfl, fun _ _ _ h ↦ h⟩ nofun

/-! ## The invariant -/

def State.numbers (s : State Key Handshake) : List ℕ :=
  s.validationTasks.map (·.validationId) ++ s.spawned.map (·.instanceId)

def Requested (noise : Noise Key Handshake) (s : State Key Handshake)
    (pending : PendingHandshake Handshake) (task : Validation Key) : Prop :=
  ∃ payload, Undisturbed s.received task.streamId payload ∧
    noise.request task.streamId payload =
      some (pending.handshake, task.harnessPublicKey, task.authorization)

structure RelayInvariant (noise : Noise Key Handshake) (s : State Key Handshake) : Prop where
  exclusive : ∀ id, id ∈ s.pendingHandshakes → id ∉ s.streams
  streams_le : size s.streams ≤ maxActiveNoiseRelayStreams
  validating_le : s.validationTasks.length ≤ maxPendingHandshakeValidations
  numbers_nodup : s.numbers.Nodup
  numbers_lt : ∀ n ∈ s.numbers, n < s.nextValidationId
  requested : ∀ task ∈ s.validationTasks, ∀ p,
    s.pendingHandshakes.lookup task.streamId = some p → p.validationId = task.validationId →
      Requested noise s p task

section

variable (h : RelayInvariant noise s)
include h

theorem RelayInvariant.shrinks (hstep : Shrinks s s') : RelayInvariant noise s' := by
  have hnu : s'.numbers.Sublist s.numbers := by
    rw [State.numbers, hstep.spawned]
    exact (hstep.tasks.map _).append (.refl _)
  refine ⟨?_, hstep.size_le.trans h.streams_le, hstep.tasks.length_le.trans h.validating_le,
    h.numbers_nodup.sublist hnu, ?_, ?_⟩
  · intro id hpend hact
    rw [← lookup_isSome, isSome_iff_exists] at hpend hact
    obtain ⟨p, hp⟩ := hpend
    obtain ⟨n, hn⟩ := hact
    exact h.exclusive id (lookup_isSome.mp (isSome_of_eq_some (hstep.pending id p hp)))
      (lookup_isSome.mp (isSome_of_eq_some (hstep.streams id n hn)))
  · intro n hn
    rw [hstep.next]
    exact h.numbers_lt n (hnu.subset hn)
  · intro task ht p hp hsa
    obtain ⟨payload, hu, hrequest⟩ :=
      h.requested task (hstep.tasks.subset ht) p (hstep.pending _ p hp) hsa
    have hpend := lookup_isSome.mp (isSome_of_eq_some hp)
    exact ⟨payload, hstep.received _ hpend payload hu, hrequest⟩

theorem RelayInvariant.awaits {handshake : Handshake} {key : Key}
    {authorization : String} (hact : id ∉ s.streams)
    (hroom : s.validationTasks.length < maxPendingHandshakeValidations)
    (hrequest : noise.request id payload = some (handshake, key, authorization)) :
    RelayInvariant noise
      ((s.read ⟨id, .handshake payload⟩).await id handshake key authorization) := by
  have hnu : (s.nextValidationId :: s.numbers).Perm
      ((s.read ⟨id, .handshake payload⟩).await id handshake key authorization).numbers := by
    simp only [State.numbers, State.await, State.read, map_append, map_singleton, append_assoc]
    exact perm_middle.symm
  refine ⟨?_, h.streams_le, ?_, ?_, ?_, ?_⟩
  · intro other hpend
    rcases (mem_insert _).mp hpend with rfl | hpend
    · exact hact
    · exact h.exclusive other hpend
  · exact (length_append ..).trans_le hroom
  · refine hnu.nodup_iff.mp (nodup_cons.mpr ⟨fun hm ↦ ?_, h.numbers_nodup⟩)
    exact lt_irrefl _ (h.numbers_lt _ hm)
  · intro n hn
    rcases mem_cons.mp (hnu.mem_iff.mpr hn) with rfl | hold
    · exact lt_succ_self _
    · exact lt_succ_of_lt (h.numbers_lt n hold)
  · intro task ht p hp hsa
    rcases mem_append.mp ht with hold | hnew
    · have hne : task.streamId ≠ id := by
        intro hid
        -- the new handshake has a new number
        rw [hid] at hp
        obtain rfl := some.inj ((lookup_insert ..).symm.trans hp)
        have hlt := h.numbers_lt task.validationId (mem_append_left _ (mem_map_of_mem hold))
        exact Nat.ne_of_lt hlt hsa.symm
      obtain ⟨earlier, hu, he⟩ :=
        h.requested task hold p ((lookup_insert_ne hne).symm.trans hp) hsa
      exact ⟨earlier, hu.concat fun hid ↦ absurd hid.symm hne, he⟩
    · obtain rfl := mem_singleton.mp hnew
      obtain rfl := some.inj ((lookup_insert ..).symm.trans hp)
      exact ⟨payload, ⟨s.received, [], rfl, nofun⟩, hrequest⟩

theorem RelayInvariant.activates {index : ℕ} {res : Validation Key}
    (hres : s.validationTasks[index]? = some res)
    (hroom : size s.streams < maxActiveNoiseRelayStreams) :
    RelayInvariant noise (((s.collect index).dropPending res.streamId).spawnNoiseVirtualStream
      res.streamId res.validationId) := by
  have hd := h.shrinks ((Shrinks.collect s index).dropPending res.streamId)
  obtain ⟨hi, hg⟩ := List.getElem?_eq_some_iff.mp hres
  have hnu : (((s.collect index).dropPending res.streamId).spawnNoiseVirtualStream
      res.streamId res.validationId).numbers.Perm s.numbers := by
    simp only [State.numbers, State.spawnNoiseVirtualStream, State.dropPending, State.collect,
      map_append, map_singleton, ← append_assoc]
    refine perm_append_comm.trans ?_
    have ht := (getElem_cons_eraseIdx_perm hi).map (·.validationId)
    rw [hg] at ht
    exact ht.append_right _
  refine ⟨?_, ?_, hd.validating_le, hnu.nodup_iff.mpr h.numbers_nodup, ?_, hd.requested⟩
  · intro other hpend hact
    rcases (mem_insert _).mp hact with rfl | hact
    · exact not_mem_dropPending _ _ hpend
    · exact hd.exclusive other hpend hact
  · have hl := (kerase_sublist res.streamId s.streams.entries).length_le
    exact (succ_le_succ hl).trans hroom
  · intro n hn
    exact h.numbers_lt n (hnu.mem_iff.mp hn)

theorem RelayInvariant.step (hstep : s.step noise a = some s') : RelayInvariant noise s' := by
  cases moves_of_step h.exclusive hstep with
  | shrinks hshrinks => exact h.shrinks hshrinks
  | awaits hact hroom hrequest => exact h.awaits hact hroom hrequest
  | activates hres _ _ hroom => exact h.activates hres hroom

end

theorem relayInvariant_initial : RelayInvariant noise {} where
  exclusive id hid := absurd hid (notMem_empty id)
  streams_le := zero_le _
  validating_le := zero_le _
  numbers_nodup := nodup_nil
  numbers_lt := nofun
  requested := nofun

/-- The registry has authorized the request of the handshake that is pending on the stream. -/
def ActivatedBy (noise : Noise Key Handshake) (s : State Key Handshake) (a : Action) (id : String)
    (n : ℕ) : Prop :=
  ∃ index task pending, a = .validated index true true ∧
    s.validationTasks[index]? = some task ∧ task.streamId = id ∧ task.validationId = n ∧
    s.pendingHandshakes.lookup id = some pending ∧ pending.validationId = n ∧
    Requested noise s pending task

/-- A stream becomes active only through the authorization of the handshake that is pending on it,
undisturbed since it was read; pending and active streams are apart and within their limits; and a
notice ends only the instance that sent it. -/
theorem streams_activated_by_pending_handshake (noise : Noise Key Handshake)
    (s : State Key Handshake) (hs : (multiplexedEnvironment noise).Reachable s) :
    (∀ id, id ∈ s.pendingHandshakes → id ∉ s.streams) ∧
    size s.streams ≤ maxActiveNoiseRelayStreams ∧
    s.validationTasks.length ≤ maxPendingHandshakeValidations ∧
    (s.spawned.map (·.instanceId)).Nodup ∧
    ∀ a s', s.step noise a = some s' →
      (∀ id n, s'.streams.lookup id = some n → s.streams.lookup id ≠ some n →
        ActivatedBy noise s a id n) ∧
      ∀ index closed, a = .closedStream index → s.spawned[index]? = some closed →
        ∀ id n, s.streams.lookup id = some n → s'.streams.lookup id ≠ some n →
          closed = ⟨id, n⟩ := by
  have hinv : RelayInvariant noise s := hs.invariant (RelayInvariant noise) relayInvariant_initial
    fun _ _ _ h hstep ↦ h.step hstep
  refine ⟨hinv.exclusive, hinv.streams_le, hinv.validating_le,
    (nodup_append.mp hinv.numbers_nodup).2.1, ?_⟩
  intro _ _ hstep
  cases moves_of_step hinv.exclusive hstep with
  | shrinks hshrinks hclosed =>
    exact ⟨fun id n hn hold ↦ absurd (hshrinks.streams id n hn) hold, hclosed⟩
  | awaits => exact ⟨fun id n hn hold ↦ absurd hn hold, nofun⟩
  | @activates index result pending hres hpend hcur _ =>
    refine ⟨?_, nofun⟩
    intro id n hn hold
    by_cases hid : id = result.streamId
    · subst hid
      obtain rfl := some.inj ((lookup_insert ..).symm.trans hn)
      exact ⟨index, result, pending, rfl, hres, rfl, rfl, hpend, hcur,
        hinv.requested result (mem_of_getElem? hres) pending hpend hcur⟩
    · exact absurd ((lookup_insert_ne hid).symm.trans hn) hold

def openNoise : Noise Unit Unit where
  readRequest _ payload := some ⟨(), (), payload⟩
  -- texts of ASCII characters
  fromUtf8 bytes :=
    if bytes.all (· < 128) then some (.ofList (bytes.map fun b ↦ .ofNat b.toNat)) else none
  complete _ := true

theorem streams_activated_by_pending_handshake_opened :
    ∃ s, (multiplexedEnvironment openNoise).Reachable s ∧
      s.pendingHandshakes.lookup "a" = some ⟨0, ()⟩ ∧
      ∃ s', s.step openNoise (.validated 0 true true) = some s' ∧ s'.streams.lookup "a" = some 0 ∧
        ActivatedBy openNoise s (.validated 0 true true) "a" 0 := by
  obtain ⟨s, hs, hcheck⟩ := exists_reachable_of_run (multiplexedEnvironment openNoise)
    [.frame ⟨"a", .handshake [1]⟩ true]
    (fun s ↦ (s.pendingHandshakes.lookup "a").any (·.validationId == 0) &&
      (s.streams.lookup "a").isNone && (s.step openNoise (.validated 0 true true)).any
        fun s' ↦ s'.streams.lookup "a" == some 0) (by decide +kernel)
  simp only [Bool.and_eq_true, Option.any_eq_true, Option.isNone_iff_eq_none, beq_iff_eq] at hcheck
  obtain ⟨⟨⟨_, hpend, hnumber⟩, hinactive⟩, s', hstep, hact⟩ := hcheck
  obtain ⟨-, -, -, -, hsteps⟩ := streams_activated_by_pending_handshake openNoise s hs
  refine ⟨s, hs, ?_, s', hstep, hact, (hsteps _ s' hstep).1 "a" 0 hact ?_⟩
  · rw [hpend, ← hnumber]
  · rw [hinactive]
    exact (some_ne_none 0).symm

end Slopdex.Relay
