import Slopdex.Turn.Moves

/-!
# Who has which claim on which turn

The bookkeeping that every move keeps. A claim has one owner and is undecided as long as the owner
has it; a contender that has put a turn into the slot finds its claim there exactly as long as it
finds its turn there; a turn that got a task has no claim, and never gets a second task.
-/

namespace Slopdex.Turn.Contention

open Protocol Library.FirstMatch Turn.Claims Turn.Starts Turn.Moves StartState Contender ActiveTurn
open Stage (holding inSlot detached)
open Option (bind_eq_some_iff mem_unique)
open List Nat Stage

variable {c : ClaimId} {r : AgentExecutionReservation}

structure ContenderInvariant (s : StartState) (x : Contender) : Prop where
  id_lt : x.id < s.nextContender
  claim_lt : ∀ c, x.claim = some c → c.index < s.nextClaim
  claim_starting : ∀ c, x.claim = some c → s.claims c = .starting
  state_lt : ∀ t, x.stage.turnState = some t → t.address < s.nextTurnState
  state_claim : ∀ t, x.stage.turnState = some t → ∃ c, x.claim = some c
  bound : ∀ c t turn, x.claim = some c → x.stage.turnState = some t → s.active = some turn →
    (turn.tasklessStartClaim = some c ↔ turn.turnState = t)
  detached : x.stage.detached = true → ¬ s.Owns x
  woken : ∀ c t turn, x.stage = .woken c t → s.active = some turn →
    turn.tasklessStartClaim = some c → ∃ r, turn.pendingWakeStart = some ⟨some r, false⟩
  committed : ∀ c turn, x.claim = some c → x.stage.isWoken = false → s.active = some turn →
    turn.tasklessStartClaim = some c → turn.pendingWakeStart.bind (·.reservation) = none
  silent : x.stage.silent = true → x.origin.reports = false
  reports_claim : x.origin.reports = true → x.stage.inSlot = true → ∃ c, x.claim = some c
  installed : ∀ install ∈ s.installs, install.contender = x.id → x.stage = .returning

structure ContendersInvariant (s : StartState) : Prop where
  ids : ∀ id, s.contenders.countP (·.id == id) ≤ 1
  claims : ∀ c, s.contenders.countP (·.claim == some c) ≤ 1
  each : ∀ x ∈ s.contenders, ContenderInvariant s x

structure SlotInvariant (s : StartState) (turn : ActiveTurn) : Prop where
  claim_lt : ∀ c, turn.tasklessStartClaim = some c → c.index < s.nextClaim
  claim_not_running : ∀ c, turn.tasklessStartClaim = some c → s.claims c ≠ .running
  state_lt : turn.turnState.address < s.nextTurnState
  task_claim : turn.task ≠ none → turn.tasklessStartClaim = none
  task_installed : turn.task ≠ none → turn.turnState ∈ s.installs.map (·.turnState)
  wake_claim : turn.pendingWakeStart ≠ none → turn.tasklessStartClaim ≠ none
  wake_reservation : ∀ pending, turn.pendingWakeStart = some pending →
    pending.committed = false → ∃ r, pending.reservation = some r
  wake_owner : ∀ pending r, turn.pendingWakeStart = some pending → pending.reservation = some r →
    r.tasklessClaimOwner = none
  installed_claim : turn.turnState ∈ s.installs.map (·.turnState) → turn.tasklessStartClaim = none

structure RecordInvariant (s : StartState) : Prop where
  slot : ∀ turn, s.active = some turn → SlotInvariant s turn
  installs_contender_lt : ∀ install ∈ s.installs, install.contender < s.nextContender
  installs_state_lt : ∀ install ∈ s.installs, install.turnState.address < s.nextTurnState
  installs_nodup : (s.installs.map (·.turnState)).Nodup
  aborting : ∀ aborted ∈ s.aborting, aborted.turnState ∈ s.installs.map (·.turnState)
  finishers : ∀ finisher ∈ s.finishers, finisher.turnState ∈ s.installs.map (·.turnState)
  fresh : ∀ c : ClaimId, s.nextClaim ≤ c.index → s.claims c = .starting

structure StartInvariant (s : StartState) : Prop extends ContendersInvariant s, RecordInvariant s

def Foreign (turn : ActiveTurn) (x : Contender) : Prop :=
  (∀ c, x.claim = some c → turn.tasklessStartClaim ≠ some c) ∧
    ∀ t, x.stage.turnState = some t → turn.turnState ≠ t

def Stayed (s : StartState) (turn : ActiveTurn) : Prop :=
  ∃ before, s.active = some before ∧ turn.tasklessStartClaim = before.tasklessStartClaim ∧
    turn.turnState = before.turnState ∧ turn.pendingWakeStart = before.pendingWakeStart

theorem stayed_of_active {s : StartState} {turn : ActiveTurn} (h : s.active = some turn) :
    Stayed s turn :=
  ⟨turn, h, rfl, rfl, rfl⟩

/-- The counters only go up, and no claim is decided before it is made. -/
structure Later (s s' : StartState) : Prop where
  contender : s.nextContender ≤ s'.nextContender
  claim : s.nextClaim ≤ s'.nextClaim
  state : s.nextTurnState ≤ s'.nextTurnState
  fresh : ∀ c : ClaimId, s.nextClaim ≤ c.index → s'.claims c = s.claims c

variable {s s' : StartState} {x y : Contender} {turn : ActiveTurn} {i j : ℕ} {stage : Stage}

theorem owns_iff (ht : s.active = some turn) :
    s.Owns x ↔ ∃ c, x.claim = some c ∧ turn.tasklessStartClaim = some c := by
  simp [StartState.Owns, slotClaim, ht]

theorem not_owns_of_empty (h : s.active = none) : ¬ s.Owns x := by
  simp [StartState.Owns, slotClaim, h]

theorem ContenderInvariant.frame (h : ContenderInvariant s x) (hl : Later s s')
    (hcl : ∀ c, x.claim = some c → s'.claims c = s.claims c)
    (hi : ∀ install ∈ s'.installs, install.contender = x.id → install ∈ s.installs)
    (hsl : ∀ turn, s'.active = some turn → Stayed s turn ∨ Foreign turn x) :
    ContenderInvariant s' x where
  id_lt := h.id_lt.trans_le hl.contender
  claim_lt c hc := (h.claim_lt c hc).trans_le hl.claim
  claim_starting c hc := (hcl c hc).trans (h.claim_starting c hc)
  state_lt t ht := (h.state_lt t ht).trans_le hl.state
  state_claim := h.state_claim
  bound c t turn hc ht htu := by
    obtain ⟨before, hb, hclaim, hst, -⟩ | ⟨hclaim, hst⟩ := hsl turn htu
    · rw [hclaim, hst]
      exact h.bound c t before hc ht hb
    · exact iff_of_false (hclaim c hc) (hst t ht)
  detached hd := by
    intro ⟨c, hc, hslo⟩
    obtain ⟨turn, htu, hclaim⟩ := bind_eq_some_iff.mp hslo
    obtain ⟨_, hb, hs, -⟩ | ⟨hf, -⟩ := hsl turn htu
    · exact h.detached hd ((owns_iff hb).mpr ⟨c, hc, hs ▸ hclaim⟩)
    · exact hf c hc hclaim
  woken c t turn hstg htu hclaim := by
    obtain ⟨before, hb, hs, -, hw⟩ | ⟨hf, -⟩ := hsl turn htu
    · rw [hw]
      exact h.woken c t before hstg hb (hs ▸ hclaim)
    · exact absurd hclaim (hf c (by rw [claim, hstg]; rfl))
  committed c turn hc hu htu hclaim := by
    obtain ⟨before, hb, hs, -, hw⟩ | ⟨hf, -⟩ := hsl turn htu
    · rw [hw]
      exact h.committed c before hc hu hb (hs ▸ hclaim)
    · exact absurd hclaim (hf c hc)
  silent := h.silent
  reports_claim := h.reports_claim
  installed install hin hid := h.installed install (hi install hin hid) hid

theorem SlotInvariant.frame (h : SlotInvariant s turn) (hl : Later s s')
    (hcl : ∀ c, s'.claims c = .running → s.claims c = .running)
    (hi : s'.installs = s.installs) : SlotInvariant s' turn where
  claim_lt c hc := (h.claim_lt c hc).trans_le hl.claim
  claim_not_running c hc hr := h.claim_not_running c hc (hcl c hr)
  state_lt := h.state_lt.trans_le hl.state
  task_claim := h.task_claim
  task_installed ht := hi ▸ h.task_installed ht
  wake_claim := h.wake_claim
  wake_reservation := h.wake_reservation
  wake_owner := h.wake_owner
  installed_claim hm := h.installed_claim (hi ▸ hm)

theorem RecordInvariant.frame (h : RecordInvariant s) (hl : Later s s')
    (hi : s'.installs = s.installs) (ha : s'.aborting = s.aborting)
    (hf : s'.finishers = s.finishers)
    (hs : ∀ turn, s'.active = some turn → SlotInvariant s' turn) : RecordInvariant s' where
  slot := hs
  installs_contender_lt := by
    rw [hi]
    exact fun install hm ↦ (h.installs_contender_lt install hm).trans_le hl.contender
  installs_state_lt := by
    rw [hi]
    exact fun install hm ↦ (h.installs_state_lt install hm).trans_le hl.state
  installs_nodup := hi ▸ h.installs_nodup
  aborting := by rw [ha, hi]; exact h.aborting
  finishers := by rw [hf, hi]; exact h.finishers
  fresh c hc := by
    have hle := hl.claim.trans hc
    exact (hl.fresh c hle).trans (h.fresh c hle)

section

variable (h : ContendersInvariant s)
include h

namespace ContendersInvariant

theorem claim_ne (hij : j ≠ i) (hx : s.contenders[i]? = some x) (hy : s.contenders[j]? = some y)
    (hc : x.claim = some c) : y.claim ≠ some c := by
  intro hyc
  apply hij
  exact index_eq_of_countP_le_one (h.claims c) hy (by simpa using hyc) hx (by simpa using hc)

theorem id_ne (hij : j ≠ i)
    (hx : s.contenders[i]? = some x) (hy : s.contenders[j]? = some y) : y.id ≠ x.id := by
  intro hid
  apply hij
  exact index_eq_of_countP_le_one (h.ids x.id) hy (by simpa using hid) hx (by simp)

theorem of_getElem? (hx : s.contenders[i]? = some x) : ContenderInvariant s x :=
  h.each x (mem_of_getElem? hx)

theorem countP_claim_fresh
    (hc : s.nextClaim ≤ c.index) : s.contenders.countP (·.claim == some c) = 0 := by
  apply countP_eq_zero.mpr
  intro y hy hcl
  have hlt := (h.each y hy).claim_lt c (by simpa using hcl)
  omega

theorem set (hx : s.contenders[i]? = some x)
    (hc : s'.contenders = s.contenders.set i { x with stage })
    (hcl : ∀ c, stage.holding.tasklessClaimOwner = some c → x.claim = some c ∨
      s.nextClaim ≤ c.index)
    (hs : ContenderInvariant s' { x with stage })
    (ho : ∀ j y, j ≠ i → s.contenders[j]? = some y → ContenderInvariant s' y) :
    ContendersInvariant s' where
  ids id := by
    have hcn := countP_set_of_getElem? (p := fun y ↦ y.id == id) hx { x with stage }
    have hle := h.ids id
    rw [hc]
    dsimp only at hcn
    omega
  claims c := by
    have hcn := countP_set_of_getElem? (p := fun y ↦ y.claim == some c) hx { x with stage }
    have hle := h.claims c
    rw [hc]
    change _ + (if (x.claim == some c) = true then 1 else 0) =
      _ + if (stage.holding.tasklessClaimOwner == some c) = true then 1 else 0 at hcn
    simp only [beq_iff_eq] at hcn
    by_cases hn : stage.holding.tasklessClaimOwner = some c
    · rw [if_pos hn] at hcn
      obtain hold | hf := hcl c hn
      · rw [if_pos hold] at hcn
        omega
      · have hz := h.countP_claim_fresh hf
        omega
    · rw [if_neg hn] at hcn
      omega
  each := by
    rw [hc]
    exact forall_mem_set ho hs

theorem erase (hx : s.contenders[i]? = some x) (hc : s'.contenders = s.contenders.eraseIdx i)
    (ho : ∀ j y, j ≠ i → s.contenders[j]? = some y → ContenderInvariant s' y) :
    ContendersInvariant s' where
  ids id := by
    have hcn := countP_eraseIdx_of_getElem? (p := fun y ↦ y.id == id) hx
    have hle := h.ids id
    rw [hc]
    omega
  claims c := by
    have hcn := countP_eraseIdx_of_getElem? (p := fun y ↦ y.claim == some c) hx
    have hle := h.claims c
    rw [hc]
    omega
  each := by
    rw [hc]
    exact forall_mem_eraseIdx ho

theorem same (hc : s'.contenders = s.contenders)
    (he : ∀ y ∈ s.contenders, ContenderInvariant s' y) : ContendersInvariant s' where
  ids := hc ▸ h.ids
  claims := hc ▸ h.claims
  each := hc ▸ he

theorem append (hc : s'.contenders = s.contenders ++ [x]) (hid : x.id = s.nextContender)
    (hcl : x.claim = none) (hs : ContenderInvariant s' x)
    (he : ∀ y ∈ s.contenders, ContenderInvariant s' y) : ContendersInvariant s' where
  ids id := by
    rw [hc, countP_append]
    by_cases hn : id = s.nextContender
    · have hz : s.contenders.countP (·.id == id) = 0 := by
        apply countP_eq_zero.mpr
        intro y hy hyi
        have hlt := (h.each y hy).id_lt
        rw [beq_iff_eq] at hyi
        omega
      have hle := countP_le_length (p := fun y : Contender ↦ y.id == id) (l := [x])
      rw [hz, zero_add]
      exact hle
    · simpa [hid, Ne.symm hn] using h.ids id
  claims c := by
    rw [hc]
    simpa [hcl] using h.claims c
  each := by
    intro y hy
    rw [hc] at hy
    obtain hy | rfl := mem_concat.mp hy
    · exact he y hy
    · exact hs

end ContendersInvariant

end

/-! ## Moves that put nothing into the slot -/

structure Keeps (s s' : StartState) : Prop extends Later s s' where
  installs : s'.installs = s.installs
  active : ∀ turn, s'.active = some turn → s.active = some turn

theorem ContenderInvariant.keep (h : ContenderInvariant s x) (hk : Keeps s s')
    (hc : ∀ c, x.claim = some c → s'.claims c = s.claims c) : ContenderInvariant s' x := by
  apply h.frame hk.toLater hc
  · intro _ hi _
    exact hk.installs ▸ hi
  · intro turn ht
    exact .inl (stayed_of_active (hk.active turn ht))

theorem RecordInvariant.keep (h : RecordInvariant s) (hk : Keeps s s')
    (ha : s'.aborting = s.aborting) (hf : s'.finishers = s.finishers)
    (hc : ∀ c, s'.claims c = .running → s.claims c = .running) : RecordInvariant s' := by
  apply h.frame hk.toLater hk.installs ha hf
  intro turn ht
  exact (h.slot turn (hk.active turn ht)).frame hk.toLater hc hk.installs

theorem ContenderInvariant.restage (h : ContenderInvariant s x) (hl : Later s s')
    (hi : s'.installs = s.installs)
    (hcl : ∀ c, stage.holding.tasklessClaimOwner = some c →
      c.index < s'.nextClaim ∧ s'.claims c = .starting)
    (hst : stage.turnState = none)
    (hd : stage.detached = true → ¬ s'.Owns { x with stage })
    (hco : s'.Owns { x with stage } → ∀ turn, s'.active = some turn →
      turn.pendingWakeStart.bind (·.reservation) = none)
    (hsi : stage.silent = false)
    (hr : x.origin.reports = true → stage.inSlot = true →
      ∃ c, stage.holding.tasklessClaimOwner = some c)
    (ha : x.stage = .returning → stage = .returning) :
    ContenderInvariant s' { x with stage } where
  id_lt := h.id_lt.trans_le hl.contender
  claim_lt c hc := (hcl c hc).1
  claim_starting c hc := (hcl c hc).2
  state_lt t ht := by simp [hst] at ht
  state_claim t ht := by simp [hst] at ht
  bound c t turn _ ht := by simp [hst] at ht
  detached := hd
  woken c t turn hstg := by
    subst hstg
    simp [Stage.silent] at hsi
  committed c turn hc _ htu hcl :=
    hco ((owns_iff htu).mpr ⟨c, hc, hcl⟩) turn htu
  silent hs := by simp [hsi] at hs
  reports_claim := hr
  installed install hin hid := ha (h.installed install (hi ▸ hin) hid)

theorem claims_setStatus_of_ne {c' : ClaimId} (status : TasklessTurnClaimStatus) (hne : c' ≠ c) :
    (s.setStatus c status).claims c' = s.claims c' := by
  by_cases hs : s.claims c = .starting
  · simp [setStatus, hs, hne]
  · simp [setStatus, hs]

theorem claims_dropReservation_of_ne
    (hne : r.tasklessClaimOwner ≠ some c) : (s.dropReservation r).claims c = s.claims c := by
  cases ho : r.tasklessClaimOwner with
  | none => simp [dropReservation, cancelOwner, ho, release]
  | some =>
    simp only [dropReservation, cancelOwner, ho]
    apply claims_setStatus_of_ne
    intro hc
    exact hne (by rw [ho, hc])

theorem running_of_dropReservation
    (h : (s.dropReservation r).claims c = .running) : s.claims c = .running := by
  by_cases ho : r.tasklessClaimOwner = some c
  · by_cases hs : s.claims c = .starting
    · simp [dropReservation, cancelOwner, ho, release, setStatus, hs] at h
    · simpa [dropReservation, cancelOwner, ho, release, setStatus, hs] using h
  · rwa [claims_dropReservation_of_ne ho] at h

theorem RecordInvariant.slotReservation_owner (h : RecordInvariant s) :
    s.slotReservation.tasklessClaimOwner = none := by
  unfold slotReservation
  cases hre : (s.active.bind (·.pendingWakeStart)).bind (·.reservation) with
  | none => rfl
  | some r =>
    obtain ⟨pending, hp, hr⟩ := bind_eq_some_iff.mp hre
    obtain ⟨turn, ht, hw⟩ := bind_eq_some_iff.mp hp
    exact (h.slot turn ht).wake_owner pending r hw hr

theorem RecordInvariant.claims_clearActive (h : RecordInvariant s) :
    s.clearActive.claims = s.claims := by
  simp [clearActive, dropReservation, cancelOwner, h.slotReservation_owner, release]

namespace StartInvariant

section

variable (h : StartInvariant s) (hx : s.contenders[i]? = some x)
include h hx

theorem follow (hf : Follows s x stage) : StartInvariant (s.setStage i x stage) := by
  have hs := h.of_getElem? hx
  have hcl : claim { x with stage } = x.claim :=
    congrArg AgentExecutionReservation.tasklessClaimOwner hf.holding
  have hk : Keeps s (s.setStage i x stage) :=
    ⟨⟨le_rfl, le_rfl, le_rfl, fun _ _ ↦ rfl⟩, rfl, fun _ ht ↦ ht⟩
  refine ⟨h.toContendersInvariant.set hx rfl (fun c hc ↦ .inl (hcl ▸ hc)) ?_ ?_,
    h.toRecordInvariant.keep hk rfl rfl fun _ hc ↦ hc⟩
  · exact {
      id_lt := hs.id_lt
      claim_lt := hcl ▸ hs.claim_lt
      claim_starting := hcl ▸ hs.claim_starting
      state_lt := by
        intro t ht
        obtain hold | ⟨turn, -, htu, -, -, rfl⟩ := hf.turnState t ht
        · exact hs.state_lt t hold
        · exact (h.slot turn htu).state_lt
      state_claim := by
        intro t ht
        rw [hcl]
        obtain hold | ⟨-, c, -, hc, -⟩ := hf.turnState t ht
        · exact hs.state_claim t hold
        · exact ⟨c, hc⟩
      bound := by
        intro c t turn hc ht htu
        rw [hcl] at hc
        obtain hold | ⟨_, _, ht', hc', hsl, hst⟩ := hf.turnState t ht
        · exact hs.bound c t turn hc hold htu
        · obtain rfl := mem_unique htu ht'
          obtain rfl := mem_unique hc hc'
          exact iff_of_true hsl hst
      detached := by
        intro hd ho
        apply hf.detached hd
        unfold StartState.Owns at ho
        rwa [hcl] at ho
      woken := by
        intro c t _ hstg
        have hsi := hf.silent
        rw [show stage = .woken c t from hstg] at hsi
        simp [silent] at hsi
      committed := by
        intro c turn hc _
        exact hs.committed c turn (hcl ▸ hc) hf.unwoken
      silent := by
        intro hsi
        simp [hf.silent] at hsi
      reports_claim := by
        intro hr hsl
        rw [hcl]
        obtain hsl | hsi := hf.inSlot hsl
        · exact hs.reports_claim hr hsl
        · simp [hs.silent hsi] at hr
      installed := by
        intro install hi hid
        exact absurd (hs.installed install hi hid) hf.active }
  · intro j y _ hy
    exact (h.of_getElem? hy).keep hk fun _ _ ↦ rfl

theorem takePermit {guard : Option PermitId} (hac : x.stage ≠ .returning) (hk : Keeps s s')
    (hco : s'.contenders = s.contenders.set i { x with stage := .reserved ⟨guard, none⟩ })
    (hcl : s'.claims = s.claims) (ha : s'.aborting = s.aborting)
    (hf : s'.finishers = s.finishers) : StartInvariant s' := by
  refine ⟨h.toContendersInvariant.set hx hco (by simp [holding]) ?_ ?_,
    h.toRecordInvariant.keep hk ha hf fun _ hc ↦ hcl ▸ hc⟩
  · apply (h.of_getElem? hx).restage hk.toLater hk.installs
    · simp [holding]
    · rfl
    · simp [StartState.Owns, claim, holding]
    · simp [StartState.Owns, claim, holding]
    · rfl
    · simp [inSlot]
    · exact fun hr ↦ absurd hr hac
  · intro j y _ hy
    exact (h.of_getElem? hy).keep hk fun _ _ ↦ by rw [hcl]

theorem newClaim (ha : x.stage ≠ .returning) :
    StartInvariant (s.newClaim.setStage i x (.reserved ⟨x.guard, some ⟨s.nextClaim⟩⟩)) := by
  have hk : Keeps s (s.newClaim.setStage i x (.reserved ⟨x.guard, some ⟨s.nextClaim⟩⟩)) :=
    ⟨⟨le_rfl, le_succ _, le_rfl, fun _ _ ↦ rfl⟩, rfl, fun _ ht ↦ ht⟩
  have hd : ¬ (s.newClaim.setStage i x (.reserved ⟨x.guard, some ⟨s.nextClaim⟩⟩)).Owns
      { x with stage := .reserved ⟨x.guard, some ⟨s.nextClaim⟩⟩ } := by
    intro ⟨c, hc, hs⟩
    obtain ⟨turn, htu, hcl⟩ := bind_eq_some_iff.mp hs
    cases hc
    have hlt := (h.slot turn htu).claim_lt _ hcl
    exact lt_irrefl _ hlt
  refine ⟨h.toContendersInvariant.set hx rfl ?_ ?_ ?_,
    h.toRecordInvariant.keep hk rfl rfl fun _ hc ↦ hc⟩
  · intro c hc
    cases hc
    exact .inr le_rfl
  · apply (h.of_getElem? hx).restage hk.toLater rfl
    · intro c hc
      cases hc
      exact ⟨lt_succ_self _, h.fresh _ le_rfl⟩
    · rfl
    · exact fun _ ↦ hd
    · exact fun ho ↦ absurd ho hd
    · rfl
    · simp [inSlot]
    · exact fun hr ↦ absurd hr ha
  · intro j y _ hy
    exact (h.of_getElem? hy).keep hk fun _ _ ↦ rfl

end

theorem keeps_dropReservation (hs : ContenderInvariant s x)
    (hco : s'.nextContender = s.nextContender ∧ s'.nextClaim = s.nextClaim ∧
      s'.nextTurnState = s.nextTurnState)
    (hcl : s'.claims = (s.dropReservation x.stage.holding).claims)
    (hi : s'.installs = s.installs) (ha : s'.active = s.active) : Keeps s s' where
  contender := hco.1.ge
  claim := hco.2.1.ge
  state := hco.2.2.ge
  fresh c hc := by
    rw [hcl]
    apply claims_dropReservation_of_ne
    intro ho
    have hlt := hs.claim_lt c ho
    omega
  installs := hi
  active turn ht := ha ▸ ht

section

variable (h : StartInvariant s)
include h

theorem keep_dropReservation (hx : s.contenders[i]? = some x)
    (hij : j ≠ i) (hy : s.contenders[j]? = some y) (hk : Keeps s s')
    (hcl : s'.claims = (s.dropReservation x.stage.holding).claims) :
    ContenderInvariant s' y := by
  apply (h.of_getElem? hy).keep hk
  intro c hc
  rw [hcl]
  apply claims_dropReservation_of_ne
  intro ho
  exact h.claim_ne hij hx hy ho hc

theorem giveUp (hx : s.contenders[i]? = some x) :
    StartInvariant ((s.dropReservation x.stage.holding).setStage i x .returning) := by
  have hs := h.of_getElem? hx
  have hk : Keeps s ((s.dropReservation x.stage.holding).setStage i x .returning) :=
    keeps_dropReservation hs ⟨rfl, rfl, rfl⟩ rfl rfl rfl
  refine ⟨h.toContendersInvariant.set hx rfl (by simp [holding]) ?_ ?_,
    h.toRecordInvariant.keep hk rfl rfl fun _ ↦ running_of_dropReservation⟩
  · apply hs.restage hk.toLater rfl
    · simp [holding]
    · rfl
    · simp [detached]
    · simp [StartState.Owns, claim, holding]
    · rfl
    · simp [inSlot]
    · exact fun _ ↦ rfl
  · intro j y hij hy
    exact h.keep_dropReservation hx hij hy hk rfl

theorem quit (hx : s.contenders[i]? = some x) :
    StartInvariant ((s.dropReservation x.stage.holding).leave i) := by
  have hk : Keeps s ((s.dropReservation x.stage.holding).leave i) :=
    keeps_dropReservation (h.of_getElem? hx) ⟨rfl, rfl, rfl⟩ rfl rfl rfl
  refine ⟨h.toContendersInvariant.erase hx rfl ?_,
    h.toRecordInvariant.keep hk rfl rfl fun _ ↦ running_of_dropReservation⟩
  intro j y hij hy
  exact h.keep_dropReservation hx hij hy hk rfl

theorem clear : StartInvariant s.clearActive := by
  have hcl := h.claims_clearActive
  have hk : Keeps s s.clearActive :=
    ⟨⟨le_rfl, le_rfl, le_rfl, fun _ _ ↦ by rw [hcl]⟩, rfl, fun _ ht ↦ by cases ht⟩
  refine ⟨h.toContendersInvariant.same rfl ?_,
    h.toRecordInvariant.keep hk rfl rfl fun _ hc ↦ hcl ▸ hc⟩
  intro y hy
  exact (h.each y hy).keep hk fun _ _ ↦ by rw [hcl]

theorem clearOwn (hx : s.contenders[i]? = some x)
    {outcome : Outcome} (hst : x.stage = .clearing r turn.turnState outcome) :
    StartInvariant (s.clearActive.setStage i x (.leaving r outcome)) := by
  have hcl := h.clear
  have hclaim : claim { x with stage := .leaving r outcome } = x.claim := by
    simp [claim, hst, holding]
  have hs := hcl.of_getElem? hx
  have hk : Keeps s.clearActive (s.clearActive.setStage i x (.leaving r outcome)) :=
    ⟨⟨le_rfl, le_rfl, le_rfl, fun _ _ ↦ rfl⟩, rfl, fun _ ht ↦ ht⟩
  refine ⟨hcl.toContendersInvariant.set hx rfl (fun c hc ↦ .inl (hclaim ▸ hc)) ?_ ?_,
    hcl.toRecordInvariant.keep hk rfl rfl fun _ hc ↦ hc⟩
  · apply hs.restage hk.toLater rfl
    · intro c hc
      exact ⟨hs.claim_lt c (hclaim ▸ hc), hs.claim_starting c (hclaim ▸ hc)⟩
    · rfl
    · exact fun _ ↦ not_owns_of_empty rfl
    · exact fun ho ↦ absurd ho (not_owns_of_empty rfl)
    · rfl
    · simp [inSlot]
    · simp [hst]
  · intro j y _ hy
    exact (hcl.of_getElem? hy).keep hk fun _ _ ↦ rfl

theorem sameContenders (hk : Keeps s s')
    (hco : s'.contenders = s.contenders) (hc : s'.claims = s.claims)
    (hr : RecordInvariant s') : StartInvariant s' := by
  refine ⟨h.toContendersInvariant.same hco ?_, hr⟩
  intro y hy
  exact (h.each y hy).keep hk fun _ _ ↦ by rw [hc]

theorem abortTask {task : RunningTask} (ht : s.active = some turn)
    (hta : turn.task = some task) :
    StartInvariant { s with
      active := none, aborting := s.aborting ++ [⟨task, turn.turnState⟩] } := by
  refine h.sameContenders ⟨⟨le_rfl, le_rfl, le_rfl, fun _ _ ↦ rfl⟩, rfl, by simp⟩ rfl rfl
    { h.toRecordInvariant with slot := by simp, aborting := ?_ }
  intro aborted ha
  obtain hold | rfl := mem_concat.mp ha
  · exact h.aborting aborted hold
  · exact (h.slot turn ht).task_installed (by simp [hta])

/-- Tasks that are done with are forgotten; what is left of the lists was in them. -/
theorem forget (hk : Keeps s s')
    (hco : s'.contenders = s.contenders) (hcl : s'.claims = s.claims)
    (ha : s'.aborting ⊆ s.aborting) (hfi : s'.finishers ⊆ s.finishers) :
    StartInvariant s' := by
  have hr : RecordInvariant { s with active := s'.active } :=
    h.toRecordInvariant.keep ⟨⟨le_rfl, le_rfl, le_rfl, fun _ _ ↦ rfl⟩, rfl, hk.active⟩ rfl rfl
      fun _ hc ↦ hc
  apply h.sameContenders hk hco hcl
  have hf : RecordInvariant { s with
      active := s'.active, aborting := s'.aborting, finishers := s'.finishers } :=
    { hr with
      slot := fun turn htu ↦ (hr.slot turn htu).frame
        ⟨le_rfl, le_rfl, le_rfl, fun _ _ ↦ rfl⟩ (fun _ hc ↦ hc) rfl
      aborting := fun aborted hm ↦ h.aborting aborted (ha hm)
      finishers := fun finisher hm ↦ h.finishers finisher (hfi hm) }
  exact hf.keep
    ⟨⟨hk.contender, hk.claim, hk.state, hk.fresh⟩, hk.installs, fun _ ht ↦ ht⟩
    rfl rfl fun _ hc ↦ hcl ▸ hc

theorem takeTask {task : RunningTask} (runner : ℕ)
    (ht : s.active = some turn) (hta : turn.task = some task) :
    StartInvariant (s.takeFinishedTask runner turn task) := by
  have hsl := h.slot turn ht
  have hi := hsl.task_installed (by simp [hta])
  have hl : Later s (s.takeFinishedTask runner turn task) :=
    ⟨le_rfl, le_rfl, le_rfl, fun _ _ ↦ rfl⟩
  refine ⟨h.toContendersInvariant.same rfl ?_, { h.toRecordInvariant with
    slot := ?_
    finishers := ?_ }⟩
  · intro y hy
    apply (h.each y hy).frame hl (fun _ _ ↦ rfl) (fun _ hin _ ↦ hin)
    intro _ ht'
    cases ht'
    exact .inl ⟨turn, ht, rfl, rfl, rfl⟩
  · intro _ ht'
    cases ht'
    exact { hsl with
      task_claim := fun hs ↦ absurd rfl hs
      task_installed := fun hs ↦ absurd rfl hs }
  · intro finisher hm
    obtain hold | rfl := mem_concat.mp hm
    · exact h.finishers finisher hold
    · exact hi

theorem enter {origin : Origin} {subId : TurnId} {kind : TaskKind}
    {resv : AgentExecutionReservation}
    (ho : resv.tasklessClaimOwner = none)
    (hs : s'.active = s.active ∧ s'.claims = s.claims ∧ s'.nextClaim = s.nextClaim ∧
      s'.nextTurnState = s.nextTurnState ∧ s'.nextContender = s.nextContender + 1 ∧
      s'.installs = s.installs ∧ s'.aborting = s.aborting ∧ s'.finishers = s.finishers)
    (hcon : s'.contenders = s.contenders ++
      [⟨s.nextContender, origin, subId, kind, firstStage resv origin⟩]) :
    StartInvariant s' := by
  obtain ⟨hac, hcl, hclaim, hst, hco, hi, ha, hfi⟩ := hs
  have hk : Keeps s s' :=
    ⟨⟨hco ▸ le_succ _, hclaim.ge, hst.ge, fun _ _ ↦ by rw [hcl]⟩, hi,
      fun _ ht ↦ hac ▸ ht⟩
  have hf : (firstStage resv origin).holding.tasklessClaimOwner = none := by
    cases origin <;> simp [firstStage, holding, ho]
  refine ⟨h.toContendersInvariant.append hcon rfl hf ?_ ?_,
    h.toRecordInvariant.keep hk ha hfi fun _ hc ↦ hcl ▸ hc⟩
  · exact {
      id_lt := hco ▸ lt_succ_self _
      claim_lt := fun c hc ↦ by simp [claim, hf] at hc
      claim_starting := fun c hc ↦ by simp [claim, hf] at hc
      state_lt := fun t ht ↦ by cases origin <;> simp [firstStage, Stage.turnState] at ht
      state_claim := fun t ht ↦ by
        cases origin <;> simp [firstStage, Stage.turnState] at ht
      bound := fun c t turn hc ↦ by simp [claim, hf] at hc
      detached := fun hd ↦ by
        cases origin <;> simp [firstStage, detached] at hd
      woken := fun c t turn hstg ↦ by cases origin <;> simp [firstStage] at hstg
      committed := fun c turn hc ↦ by simp [claim, hf] at hc
      silent := fun hsi ↦ by
        cases origin <;> simp_all [firstStage, silent, Origin.reports]
      reports_claim := fun _ hsl ↦ by
        cases origin <;> simp [firstStage, inSlot] at hsl
      installed := fun install hin hid ↦ by
        have hlt := h.installs_contender_lt install (hi ▸ hin)
        dsimp only at hid
        omega }
  · intro y hy
    exact (h.each y hy).keep hk fun _ _ ↦ by rw [hcl]

/-! ## Moves that change the turn in the slot -/

theorem foreign_of_owned (hx : s.contenders[i]? = some x) (hij : j ≠ i)
    (hy : s.contenders[j]? = some y) (htu : s.active = some turn)
    (hc : x.claim = some c) (hs : turn.tasklessStartClaim = some c) : Foreign turn y := by
  constructor
  · intro _ hc' hs'
    obtain rfl := mem_unique hs hs'
    exact h.claim_ne hij hx hy hc hc'
  · intro t ht hst
    obtain ⟨c', hc'⟩ := (h.of_getElem? hy).state_claim t ht
    have hs' := ((h.of_getElem? hy).bound c' t turn hc' ht htu).mpr hst
    obtain rfl := mem_unique hs hs'
    exact h.claim_ne hij hx hy hc hc'

theorem place (hx : s.contenders[i]? = some x) (hrs : x.stage = .reserved r)
    (ho : r.tasklessClaimOwner = some c) (hc : turn.tasklessStartClaim = some c)
    (hst : turn.turnState = ⟨s.nextTurnState⟩) (hta : turn.task = none)
    (hw : ∀ pending, turn.pendingWakeStart = some pending →
      ∃ r, pending.reservation = some r ∧ r.tasklessClaimOwner = none)
    (hh : stage.holding.tasklessClaimOwner = some c)
    (hstg : stage.turnState = some ⟨s.nextTurnState⟩) (hde : stage.detached = false)
    (hsi : stage.silent = true → x.origin.reports = false)
    (hwo : ∀ c t, stage = .woken c t → ∃ r, turn.pendingWakeStart = some ⟨some r, false⟩)
    (hu : stage.isWoken = false → turn.pendingWakeStart = none) :
    StartInvariant ((s.place turn).setStage i x stage) := by
  have hs := h.of_getElem? hx
  have hxc : x.claim = some c := by
    rw [claim, hrs]
    exact ho
  have hl : Later s ((s.place turn).setStage i x stage) :=
    ⟨le_rfl, le_rfl, le_succ _, fun _ _ ↦ rfl⟩
  have hf : turn.turnState ∉ s.installs.map (·.turnState) := by
    intro hm
    obtain ⟨install, hi, heq⟩ := mem_map.mp hm
    have hlt := h.installs_state_lt install hi
    rw [heq, hst] at hlt
    exact lt_irrefl _ hlt
  refine ⟨h.toContendersInvariant.set hx rfl ?_ ?_ ?_,
    h.toRecordInvariant.frame hl rfl rfl rfl ?_⟩
  · intro _ hc'
    exact .inl (hxc.trans (hh.symm.trans hc'))
  · exact {
      id_lt := hs.id_lt
      claim_lt := fun c' hc' ↦ hs.claim_lt c' (hxc.trans (hh.symm.trans hc'))
      claim_starting := fun c' hc' ↦
        hs.claim_starting c' (hxc.trans (hh.symm.trans hc'))
      state_lt := fun t ht ↦ by
        obtain rfl := mem_unique hstg ht
        exact lt_succ_self _
      state_claim := fun _ _ ↦ ⟨c, hh⟩
      bound := fun c' t turn' hc' ht ht' ↦ by
        cases ht'
        exact iff_of_true (hc.trans (hh.symm.trans hc'))
          (hst.trans (mem_unique hstg ht))
      detached := fun hd ↦ by simp [hde] at hd
      woken := fun c' t turn' hs' ht' _ ↦ by
        cases ht'
        exact hwo c' t hs'
      committed := fun c' turn' _ hno ht' _ ↦ by
        cases ht'
        simp [hu hno]
      silent := hsi
      reports_claim := fun _ _ ↦ ⟨c, hh⟩
      installed := fun install hi hid ↦ by
        have hre := hs.installed install hi hid
        simp [hrs] at hre }
  · intro j y hij hy
    apply (h.of_getElem? hy).frame hl (fun _ _ ↦ rfl) (fun _ hi _ ↦ hi)
    intro _ ht'
    cases ht'
    refine .inr ⟨fun c' hc' hsl ↦ ?_, fun t ht heq ↦ ?_⟩
    · obtain rfl := mem_unique hc hsl
      exact h.claim_ne hij hx hy hxc hc'
    · have hlt := (h.of_getElem? hy).state_lt t ht
      rw [← heq, hst] at hlt
      exact lt_irrefl _ hlt
  · intro _ ht'
    cases ht'
    exact {
      claim_lt := fun c' hc' ↦ hs.claim_lt c' (hxc.trans (hc.symm.trans hc'))
      claim_not_running := fun c' hc' hru ↦ by
        have hsta := hs.claim_starting c' (hxc.trans (hc.symm.trans hc'))
        rw [show s.claims c' = .running from hru] at hsta
        simp at hsta
      state_lt := hst ▸ lt_succ_self _
      task_claim := fun hso ↦ absurd hta hso
      task_installed := fun hso ↦ absurd hta hso
      wake_claim := fun _ ↦ by simp [hc]
      wake_reservation := fun pending hp _ ↦ by
        obtain ⟨r, hr, -⟩ := hw pending hp
        exact ⟨r, hr⟩
      wake_owner := fun pending r hp hr ↦ by
        obtain ⟨_, hr', hn⟩ := hw pending hp
        obtain rfl := mem_unique hr hr'
        exact hn
      installed_claim := fun hm ↦ absurd hm hf }

theorem commitWake (hx : s.contenders[i]? = some x) (hst : x.stage = .woken c turn.turnState)
    (ht : s.active = some turn) :
    StartInvariant ({ s with
      active := some { turn with pendingWakeStart := some ⟨none, true⟩ } }.setStage i x
        (.beginning { r with tasklessClaimOwner := some c })) := by
  have hs := h.of_getElem? hx
  have hxc : x.claim = some c := by
    rw [claim, hst]
    rfl
  have hsl : turn.tasklessStartClaim = some c :=
    (hs.bound c turn.turnState turn hxc (by rw [hst]; rfl) ht).mpr rfl
  have hl : Later s ({ s with
      active := some { turn with pendingWakeStart := some ⟨none, true⟩ } }.setStage i x
        (.beginning { r with tasklessClaimOwner := some c })) :=
    ⟨le_rfl, le_rfl, le_rfl, fun _ _ ↦ rfl⟩
  refine ⟨h.toContendersInvariant.set hx rfl (fun c' hc' ↦ .inl (hxc.trans hc')) ?_ ?_,
    h.toRecordInvariant.frame hl rfl rfl rfl ?_⟩
  · apply hs.restage hl rfl
    · intro c' hc'
      have hc := hxc.trans hc'
      exact ⟨hs.claim_lt c' hc, hs.claim_starting c' hc⟩
    · rfl
    · simp [detached]
    · intro _ _ ht'
      cases ht'
      rfl
    · rfl
    · exact fun _ _ ↦ ⟨c, rfl⟩
    · simp [hst]
  · intro j y hij hy
    apply (h.of_getElem? hy).frame hl (fun _ _ ↦ rfl) (fun _ hi _ ↦ hi)
    intro _ ht'
    cases ht'
    have hf := h.foreign_of_owned hx hij hy ht hxc hsl
    exact .inr ⟨hf.1, hf.2⟩
  · intro _ ht'
    cases ht'
    exact { (h.slot turn ht).frame hl (fun _ hc ↦ hc) rfl with
      wake_claim := fun _ ↦ by simp [hsl]
      wake_reservation := fun pending hp hco ↦ by
        cases hp
        simp at hco
      wake_owner := fun pending r' hp hr' ↦ by
        cases hp
        simp at hr' }

end

theorem contenders_installTask (s : StartState) (i : ℕ) (x : Contender) (guard : Option PermitId)
    (c : ClaimId) (turn : ActiveTurn) (runner : ℕ) (items : List Join.Mailbox.TurnInput) :
    (s.installTask i x guard c turn runner items).contenders =
      s.contenders.set i { x with stage := .returning } := rfl

theorem install {guard : Option PermitId} (h : StartInvariant s) (runner : ℕ)
    (items : List Join.Mailbox.TurnInput) (hx : s.contenders[i]? = some x)
    (hst : x.stage = .committing guard c turn.turnState) (htu : s.active = some turn)
    (hsl : turn.tasklessStartClaim = some c) :
    StartInvariant (s.installTask i x guard c turn runner items) := by
  have hs := h.of_getElem? hx
  have hxc : x.claim = some c := by
    rw [claim, hst]
    rfl
  have ho : ∀ c', c' ≠ c →
      (s.installTask i x guard c turn runner items).claims c' = s.claims c' :=
    fun c' hne ↦ claims_setStatus_of_ne .running hne
  have hl : Later s (s.installTask i x guard c turn runner items) := by
    refine ⟨le_rfl, le_rfl, le_rfl, fun c' hc' ↦ ho c' fun heq ↦ ?_⟩
    have hlt := hs.claim_lt c hxc
    rw [heq] at hc'
    omega
  have hnew : turn.turnState ∉ s.installs.map (·.turnState) := by
    intro hm
    have hn := (h.slot turn htu).installed_claim hm
    simp [hsl] at hn
  have hi : (s.installTask i x guard c turn runner items).installs.map (·.turnState) =
      s.installs.map (·.turnState) ++ [turn.turnState] := by
    simp [installTask, extendPendingInput]
  refine ⟨h.toContendersInvariant.set hx (contenders_installTask s i x guard c turn runner items)
    (by simp [holding]) ?_ ?_, ?_⟩
  · exact {
      id_lt := hs.id_lt
      claim_lt := by simp [claim, holding]
      claim_starting := by simp [claim, holding]
      state_lt := by simp [Stage.turnState]
      state_claim := by simp [Stage.turnState]
      bound := by simp [Stage.turnState]
      detached := by simp [detached]
      woken := by simp
      committed := by simp [claim, holding]
      silent := by simp [silent]
      reports_claim := by simp [inSlot]
      installed := fun _ _ _ ↦ rfl }
  · intro j y hij hy
    apply (h.of_getElem? hy).frame hl
    · intro _ hc'
      apply ho
      intro heq
      exact h.claim_ne hij hx hy hxc (heq ▸ hc')
    · intro _ hin hid
      obtain hold | rfl := mem_concat.mp hin
      · exact hold
      · exact absurd hid.symm (h.id_ne hij hx hy)
    · intro _ htu'
      cases htu'
      have hf := h.foreign_of_owned hx hij hy htu hxc hsl
      exact .inr ⟨fun _ _ ↦ by simp [finishTasklessStart], hf.2⟩
  · exact {
      slot := by
        intro _ htu'
        cases htu'
        exact {
          claim_lt := by simp [finishTasklessStart]
          claim_not_running := by simp [finishTasklessStart]
          state_lt := (h.slot turn htu).state_lt
          task_claim := fun _ ↦ rfl
          task_installed := fun _ ↦ by
            rw [hi]
            simp [finishTasklessStart]
          wake_claim := by simp [finishTasklessStart]
          wake_reservation := by simp [finishTasklessStart]
          wake_owner := by simp [finishTasklessStart]
          installed_claim := fun _ ↦ rfl }
      installs_contender_lt := by
        intro install hin
        obtain hold | rfl := mem_concat.mp hin
        · exact h.installs_contender_lt install hold
        · exact hs.id_lt
      installs_state_lt := by
        intro install hin
        obtain hold | rfl := mem_concat.mp hin
        · exact h.installs_state_lt install hold
        · exact (h.slot turn htu).state_lt
      installs_nodup := by
        rw [hi]
        exact nodup_append.mpr ⟨h.installs_nodup, nodup_singleton _,
          fun t ht t' ht' heq ↦ hnew (mem_singleton.mp ht' ▸ heq ▸ ht)⟩
      aborting := fun aborted hm ↦ hi ▸ mem_append_left _ (h.aborting aborted hm)
      finishers := fun finisher hm ↦
        hi ▸ mem_append_left _ (h.finishers finisher hm)
      fresh := fun c' hc' ↦ (hl.fresh c' hc').trans (h.fresh c' hc') }

theorem move {allowed : Disturbance → Prop} (h : StartInvariant s) (hm : Move allowed s s') :
    StartInvariant s' := by
  cases hm with
  | follow hx hf => exact h.follow hx hf
  | newPermit hx ha =>
    exact h.takePermit hx ha ⟨⟨le_rfl, le_rfl, le_rfl, fun _ _ ↦ rfl⟩, rfl, fun _ ht ↦ ht⟩
      rfl rfl rfl rfl
  | newClaim hx ha => exact h.newClaim hx ha
  | place hx hs ho _ he =>
    exact h.place hx hs ho rfl rfl rfl (by simp [withTasklessStartClaim])
      (by rw [he.holding, ho]) he.turnState he.detached
      (by simp [he.silent]) (fun c t hw ↦ by simpa [hw, silent] using he.silent)
      (fun _ ↦ rfl)
  | placeWake hx hs _ hr =>
    exact h.place hx hs rfl rfl rfl rfl (by simp [withPendingWakeReservation]) rfl rfl
      rfl (fun _ ↦ hr) (fun _ _ _ ↦ ⟨_, rfl⟩) (by simp [isWoken])
  | takeWake hx ha =>
    exact h.takePermit hx ha
      ⟨⟨le_rfl, le_rfl, le_rfl, fun _ _ ↦ rfl⟩, rfl, by simp [setStage]⟩ rfl rfl rfl rfl
  | commitWake hx hs htu => exact h.commitWake hx hs htu
  | giveUp hx => exact h.giveUp hx
  | quit hx => exact h.quit hx
  | clear => exact h.clear
  | clearOwn hx hs => exact h.clearOwn hx hs
  | abortTask htu hta => exact h.abortTask htu hta
  | finishAbort =>
    exact h.forget ⟨⟨le_rfl, le_rfl, le_rfl, fun _ _ ↦ rfl⟩, rfl, fun _ ht ↦ ht⟩ rfl rfl
      (eraseIdx_subset ..) (filter_subset_self _)
  | takeTask runner htu hta => exact h.takeTask runner htu hta
  | endFinisher =>
    exact h.forget ⟨⟨le_rfl, le_rfl, le_rfl, fun _ _ ↦ rfl⟩, rfl, fun _ ht ↦ ht⟩ rfl rfl
      (Subset.refl _) (eraseIdx_subset ..)
  | enter _ _ _ | enterWithPermit _ _ _ =>
    exact h.enter rfl ⟨rfl, rfl, rfl, rfl, rfl, rfl, rfl, rfl⟩ rfl
  | install runner items hx hs htu _ hc =>
    exact h.install runner items hx hs htu hc
  | extend _ _ | drain _ _ =>
    exact h.forget ⟨⟨le_rfl, le_rfl, le_rfl, fun _ _ ↦ rfl⟩, rfl, fun _ ht ↦ ht⟩ rfl rfl
      (Subset.refl _) (Subset.refl _)

theorem sequence {allowed : Disturbance → Prop} (h : StartInvariant s)
    (hm : Sequence allowed s s') : StartInvariant s' := by
  induction hm with
  | refl => exact h
  | tail _ hl ih => exact ih.move hl

end StartInvariant

theorem startInvariant_initial : StartInvariant .initial := by
  constructor
  all_goals constructor <;> simp [initial]

end Slopdex.Turn.Contention
