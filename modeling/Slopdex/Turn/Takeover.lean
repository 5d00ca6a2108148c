import Slopdex.Turn.Permits
import Slopdex.Turn.Steps

/-!
# Contenders that have lost their turn

A contender that has put its claim into the slot and no longer finds it there has lost: its turn was
taken over, dropped or cleared, and no later step lets it install its task. Together with the
bookkeeping this serialises the starts of a session.
-/

namespace Slopdex.Turn.Takeover

open Protocol Library.FirstMatch Library.Transition Library.Transition.System Turn.Claims List
open Option
  Turn.Starts Turn.Moves Turn.Contention Turn.Steps Turn.Permits StartState

variable {allowed : Disturbance → Prop} {index : ℕ}

/-! ## Losing -/

/-- The contender has returned, or its claim was in the slot and is not there any more. -/
def Beaten (s : StartState) (x : Contender) : Prop :=
  x.stage = .returning ∨ x.stage.isReserved = false ∧ ∃ c, x.claim = some c ∧ s.slotClaim ≠ some c

/-- No contender of this number can still install a task: it was cancelled, has returned or has lost
its turn. -/
def Lost (s : StartState) (id : ℕ) : Prop :=
  id < s.nextContender ∧ ∀ x ∈ s.contenders, x.id = id → Beaten s x

variable {s s' : StartState} {x : Contender} {i id : ℕ} {stage : Stage} {turn : ActiveTurn}

theorem Beaten.mono (h : Beaten s x)
    (hslot : ∀ c, x.claim = some c → s'.slotClaim = some c → s.slotClaim = some c) :
    Beaten s' x := by
  obtain hretn | ⟨hrsvd, c, hc, hne⟩ := h
  · exact .inl hretn
  · exact .inr ⟨hrsvd, c, hc, fun hn ↦ hne (hslot c hc hn)⟩

section

variable (h : Lost s id)
include h

theorem Lost.set (hx : s.contenders[i]? = some x)
    (hc : s'.contenders = s.contenders.set i { x with stage })
    (hn : s'.nextContender = s.nextContender)
    (hse : Beaten s x → Beaten s' { x with stage })
    (hslot : ∀ j y, j ≠ i → s.contenders[j]? = some y → ∀ c, y.claim = some c →
      s'.slotClaim = some c → s.slotClaim = some c) : Lost s' id := by
  refine ⟨hn ▸ h.1, ?_⟩
  rw [hc]
  apply forall_mem_set
  · intro j y hij hy hid
    exact (h.2 y (mem_of_getElem? hy) hid).mono (hslot j y hij hy)
  · intro hid
    exact hse (h.2 x (mem_of_getElem? hx) hid)

theorem Lost.keep (hc : s'.contenders ⊆ s.contenders) (hn : s'.nextContender = s.nextContender)
    (hslot : ∀ c, s'.slotClaim = some c → s.slotClaim = some c) : Lost s' id :=
  ⟨hn ▸ h.1, fun y hy hid ↦ (h.2 y (hc hy) hid).mono fun c _ ↦ hslot c⟩

theorem Lost.append {y : Contender} (hco : s'.contenders = s.contenders ++ [y])
    (hid : y.id = s.nextContender) (hn : s'.nextContender = s.nextContender + 1)
    (hslot : s'.slotClaim = s.slotClaim) : Lost s' id := by
  refine ⟨hn ▸ Nat.lt_succ_of_lt h.1, ?_⟩
  intro z hz hzi
  rw [hco] at hz
  obtain hz | rfl := mem_concat.mp hz
  · exact (h.2 z hz hzi).mono fun c _ hc ↦ hslot ▸ hc
  · rw [hid] at hzi
    exact absurd hzi h.1.ne'

omit h in
/-- A contender with nothing in the slot has not lost it. -/
theorem not_beaten_of_claim_none (hclaim : x.claim = none) (ha : x.stage ≠ .returning) :
    ¬ Beaten s x := by
  intro hb
  obtain hretn | ⟨-, c, hc, -⟩ := hb
  · exact ha hretn
  · simp [hclaim] at hc

omit h in
theorem not_beaten_of_owns (ho : s.Owns x) (ha : x.stage ≠ .returning) : ¬ Beaten s x := by
  intro hb
  obtain ⟨c, hc, hslot⟩ := ho
  obtain hretn | ⟨-, _, hc', hne⟩ := hb
  · exact ha hretn
  · exact hne (hslot.trans (hc.symm.trans hc'))

omit h in
theorem not_beaten_of_reserved {r : AgentExecutionReservation} (hstg : x.stage = .reserved r) :
    ¬ Beaten s x := by
  intro hb
  obtain hretn | ⟨hrsvd, -⟩ := hb
  · simp [hstg] at hretn
  · simp [hstg, Stage.isReserved] at hrsvd

theorem Lost.place {r : AgentExecutionReservation} {c : ClaimId}
    (hinv : StartInvariant s) (hx : s.contenders[i]? = some x) (hstg : x.stage = .reserved r)
    (ho : r.tasklessClaimOwner = some c) (hturn : turn.tasklessStartClaim = some c) :
    Lost ((s.place turn).setStage i x stage) id := by
  refine h.set hx (by rfl) (by rfl) ?_ ?_
  · exact fun hb ↦ absurd hb (not_beaten_of_reserved hstg)
  · intro j y hij hy c' hc' hslot
    have hxc : x.claim = some c := by rw [Contender.claim, hstg]; exact ho
    obtain rfl : c = c' := mem_unique hturn hslot
    exact absurd hc' (hinv.claim_ne hij hx hy hxc)

theorem Lost.move (hinv : StartInvariant s) (hm : Move allowed s s') : Lost s' id := by
  cases hm with
  | @follow _ _ _ hx hf =>
    refine h.set hx (by rfl) (by rfl) ?_ fun _ _ _ _ _ _ hslot ↦ hslot
    intro hb
    obtain hretn | ⟨-, c, hc, hne⟩ := hb
    · exact absurd hretn hf.active
    · refine .inr ⟨hf.unreserved, c, ?_, hne⟩
      rw [Contender.claim, hf.holding]
      exact hc
  | newPermit hx ha hh =>
    refine h.set hx (by rfl) (by rfl) ?_ fun _ _ _ _ _ _ hslot ↦ hslot
    have hclaim := congrArg AgentExecutionReservation.tasklessClaimOwner hh
    exact fun hb ↦ absurd hb (not_beaten_of_claim_none hclaim ha)
  | newClaim hx ha hclaim =>
    refine h.set hx (by rfl) (by rfl) ?_ fun _ _ _ _ _ _ hslot ↦ hslot
    exact fun hb ↦ absurd hb (not_beaten_of_claim_none hclaim ha)
  | place hx hstg how => exact h.place hinv hx hstg how rfl
  | placeWake hx hstg => exact h.place hinv hx hstg rfl rfl
  | takeWake hx ha hh =>
    refine h.set hx (by rfl) (by rfl) ?_ fun _ _ _ _ _ _ hslot ↦ by cases hslot
    have hclaim := congrArg AgentExecutionReservation.tasklessClaimOwner hh
    exact fun hb ↦ absurd hb (not_beaten_of_claim_none hclaim ha)
  | @commitWake _ x claim turn _ hx hstg hturn _ =>
    have hclaim : x.claim = some claim := by rw [Contender.claim, hstg]; rfl
    have hslot := ((hinv.of_getElem? hx).bound claim turn.turnState turn hclaim
      (by rw [hstg]; rfl) hturn).mpr rfl
    have ho : s.Owns x := (owns_iff hturn).mpr ⟨claim, hclaim, hslot⟩
    refine h.set hx (by rfl) (by rfl) ?_ fun _ _ _ _ c _ hc ↦ ?_
    · exact fun hb ↦ absurd hb (not_beaten_of_owns ho (by simp [hstg]))
    · rw [slotClaim, hturn]
      exact hc
  | giveUp hx hslot =>
    exact h.set hx (by rfl) (by rfl) (fun _ ↦ .inl rfl) fun _ _ _ _ _ _ hslot ↦ hslot
  | quit => exact h.keep (eraseIdx_subset ..) (by rfl) fun _ hslot ↦ hslot
  | clearOwn hx hstg =>
    refine h.set hx (by rfl) (by rfl) ?_ fun _ _ _ _ _ _ hslot ↦ by cases hslot
    intro hb
    obtain hretn | ⟨-, c, hc, -⟩ := hb
    · simp [hstg] at hretn
    · rw [Contender.claim, hstg] at hc
      exact .inr ⟨rfl, c, hc, by intro hslot; cases hslot⟩
  | abortTask _ _ | clear _ _ _ =>
    exact h.keep (Subset.refl _) (by rfl) fun _ hslot ↦ by cases hslot
  | takeTask _ hturn =>
    refine h.keep (Subset.refl _) (by rfl) fun _ hslot ↦ ?_
    rw [slotClaim, hturn]
    exact hslot
  | enter _ _ _ | enterWithPermit _ _ _ =>
    exact h.append (by rfl) (by rfl) (by rfl) (by rfl)
  | install runner items hx =>
    exact h.set hx (StartInvariant.contenders_installTask _ _ _ _ _ _ runner items) (by rfl)
      (fun _ ↦ .inl rfl) fun _ _ _ _ _ _ hslot ↦ by cases hslot
  | _ =>
    exact h.keep (Subset.refl _) (by rfl) fun _ hslot ↦ hslot

theorem Lost.installs_move
    (hm : Move allowed s s') {install : Install} (hinst : install ∈ s'.installs)
    (hid : install.contender = id) : install ∈ s.installs := by
  cases hm with
  | @install _ x _ claim _ _ _ hx hstg hturn _ hclaim =>
    obtain hold | rfl := mem_concat.mp hinst
    · exact hold
    · have ho : s.Owns x :=
        (owns_iff hturn).mpr ⟨claim, by rw [Contender.claim, hstg]; rfl, hclaim⟩
      exact absurd (h.2 x (mem_of_getElem? hx) hid) (not_beaten_of_owns ho (by simp [hstg]))
  | _ => exact hinst

theorem Lost.sequence (hinv : StartInvariant s) (hm : Sequence allowed s s') :
    Lost s' id ∧ ∀ install ∈ s'.installs, install.contender = id → install ∈ s.installs := by
  induction hm with
  | refl => exact ⟨h, fun _ hinst _ ↦ hinst⟩
  | tail hbef hl ih =>
    have hmi := hinv.sequence hbef
    refine ⟨ih.1.move hmi hl, fun install hinst hid ↦ ?_⟩
    exact ih.2 install (ih.1.installs_move hl hinst hid) hid

end

theorem sequence_of_step {s s' : Session} {a : Action} (hinv : StartInvariant s.toStartState)
    (hstep : s.step a = some s') : Sequence (fun _ ↦ True) s.toStartState s'.toStartState :=
  sequence_step hinv (fun _ _ ↦ trivial) hstep

theorem startInvariant_of_reachable {s : Session} (hs : sessionStarts.Reachable s) :
    StartInvariant s.toStartState := by
  apply hs.invariant fun s ↦ StartInvariant s.toStartState
  · exact startInvariant_initial
  · intro _ _ _ hinv hstep
    exact hinv.sequence (sequence_of_step hinv hstep)

theorem permitInvariant_of_reachable {s : Session} (hs : sessionStarts.Reachable s) :
    PermitInvariant s.toStartState := by
  have hb : StartInvariant s.toStartState ∧ PermitInvariant s.toStartState := by
    apply hs.invariant fun s ↦ StartInvariant s.toStartState ∧ PermitInvariant s.toStartState
    · exact ⟨startInvariant_initial, permitInvariant_initial⟩
    · intro _ _ _ hinv hstep
      have hm := sequence_of_step hinv.1 hstep
      exact ⟨hinv.1.sequence hm, hinv.2.sequence hinv.1 hm⟩
  exact hb.2

theorem installs_of_lost {s s' : Session} (hinv : StartInvariant s.toStartState)
    (hlost : Lost s.toStartState id) (hrun : sessionStarts.From s s') :
    ∀ install ∈ s'.installs, install.contender = id → install ∈ s.installs := by
  have hal : StartInvariant s'.toStartState ∧ Lost s'.toStartState id ∧
      ∀ install ∈ s'.installs, install.contender = id → install ∈ s.installs := by
    apply From.stable (P := fun t : Session ↦ StartInvariant t.toStartState ∧
      Lost t.toStartState id ∧ ∀ install ∈ t.installs, install.contender = id →
        install ∈ s.installs) _ hrun ⟨hinv, hlost, fun _ hinst _ ↦ hinst⟩
    intro t a t' ⟨hinv, hlost, hi⟩ hstep
    have hm := sequence_of_step hinv hstep
    have ha := hlost.sequence hinv hm
    exact ⟨hinv.sequence hm, ha.1, fun install hinst hid ↦
      hi install (ha.2 install hinst hid) hid⟩
  exact hal.2.2

/-- The turn is now the user's: a new turn under a new claim, which the user start has with the
permit. -/
structure TakesOver (s s' : Session) (index : ℕ) (x : Contender) (guard : Option PermitId) : Prop where
  active : s'.active = some (.withTasklessStartClaim ⟨s.nextTurnState⟩ ⟨s.nextClaim⟩)
  stage : s'.contenders[index]? =
    some { x with stage := .starting ⟨guard, some ⟨s.nextClaim⟩⟩ ⟨s.nextTurnState⟩ }
  others : ∀ y ∈ s'.contenders, y.id ≠ x.id → ¬ s'.Owns y

theorem takesOver_claimTurn {s : Session} {s₁ : StartState} {guard : Option PermitId}
    (hinv : StartInvariant s.toStartState) (hx : s.contenders[index]? = some x)
    (hco : s₁.contenders = s.contenders) (hclaim : s₁.nextClaim = s.nextClaim)
    (hst : s₁.nextTurnState = s.nextTurnState) :
    TakesOver s (s.answer x (s₁.claimTurn index x guard)) index x guard where
  active := by
    rw [← hclaim, ← hst]
    rfl
  stage := by
    rw [← hclaim, ← hst]
    exact getElem?_setStage (s := s₁.newClaim.place _) (hco ▸ hx) _
  others := by
    intro y hy hid ⟨c, hc, hslot⟩
    have hn : (⟨s₁.nextClaim⟩ : ClaimId) = c := some.inj hslot
    have hse : y ∈ s₁.contenders.set index
        { x with stage := .starting ⟨guard, some ⟨s₁.nextClaim⟩⟩ ⟨s₁.nextTurnState⟩ } := hy
    rw [hco] at hse
    obtain hold | rfl := mem_or_eq_of_mem_set hse
    · have hlt := (hinv.each y hold).claim_lt c hc
      rw [← hn, hclaim] at hlt
      exact Nat.lt_irrefl _ hlt
    · exact hid rfl

theorem takesOver_of_wake {s : Session} {pending : PendingWakeStart}
    (hinv : StartInvariant s.toStartState) (hx : s.contenders[index]? = some x)
    (hstg : x.stage = .claiming) (hturn : s.active = some turn)
    (hwake : turn.pendingWakeStart = some pending) (hcommit : pending.committed = false)
    (choice : Choice) (wakeSubId : TurnId)
    (hcap : (∃ c, turn.tasklessStartClaim = some c ∧ s.claims c = .starting) ∨
      choice.capacity ≠ .refused) :
    ∃ s' guard, s.step (.advance index choice wakeSubId) = some s' ∧ TakesOver s s' index x guard ∧
      ∀ c, turn.tasklessStartClaim = some c → s.claims c = .starting →
        ∃ resv, pending.reservation = some resv ∧ guard = resv.guard := by
  have hslot := hinv.slot turn hturn
  obtain ⟨c, hc⟩ := ne_none_iff_exists'.mp (hslot.wake_claim (by simp [hwake]))
  have ht : turn.task = none := by
    by_contra ht
    simp [hslot.task_claim ht] at hc
  obtain ⟨resv, hr⟩ := hslot.wake_reservation pending hwake hcommit
  have hstep : s.step (.advance index choice wakeSubId) =
      some (s.answer x (s.claimExecutionCapacityForUserTurnStart index x choice)) := by
    simp [Session.step, hx, Session.advance, hstg]
  rw [hstep]
  cases hst : s.claims c with
  | running => exact absurd hst (hslot.claim_not_running c hc)
  | starting =>
    have hcl : s.claimExecutionCapacityForUserTurnStart index x choice =
        { s.toStartState with active := none }.claimTurn index x resv.guard := by
      simp [claimExecutionCapacityForUserTurnStart, hturn, ht, hc, hst,
        ActiveTurn.takePendingWakeReservationForUser, hwake, hcommit, hr]
    rw [hcl]
    exact ⟨_, _, rfl, takesOver_claimTurn hinv hx rfl rfl rfl, fun _ _ _ ↦ ⟨resv, hr, rfl⟩⟩
  | cancelled =>
    -- The wake was cancelled and left its turn behind.
    have hcl : s.claimExecutionCapacityForUserTurnStart index x choice =
        s.clearActive.claimEmptySlot index x choice := by
      simp [claimExecutionCapacityForUserTurnStart, hturn, ht, hc, hst]
    have hn : ∀ c', turn.tasklessStartClaim = some c' → s.claims c' ≠ .starting := by
      intro _ hc'
      obtain rfl := mem_unique hc hc'
      simp [hst]
    have hnev : ∀ guard : Option PermitId, ∀ c', turn.tasklessStartClaim = some c' →
        s.claims c' = .starting → ∃ resv, pending.reservation = some resv ∧
          guard = resv.guard :=
      fun guard c' hc' hs ↦ absurd hs (hn c' hc')
    rw [hcl, claimEmptySlot]
    cases hch : choice.capacity with
    | refused =>
      obtain ⟨c', hc', hs⟩ | hne := hcap
      · exact absurd hs (hn c' hc')
      · exact absurd hch hne
    | unlimited | limited => exact ⟨_, _, rfl, takesOver_claimTurn hinv hx rfl rfl rfl, hnev _⟩

/-- What holds in a state of a session for all that happens from there. -/
structure Serialised (s : Session) : Prop where
  /-- No turn gets a second task. -/
  one_task : (s.installs.map (·.turnState)).Nodup
  /-- A contender whose claim was in the slot and is not there any more never installs its task. -/
  preempted : ∀ x ∈ s.contenders, ∀ claim, x.claim = some claim → x.stage.isReserved = false →
    s.slotClaim ≠ some claim → ∀ s', sessionStarts.From s s' →
      ∀ install ∈ s'.installs, install.contender ≠ x.id
  /-- A contender that is cancelled installs nothing from then on. -/
  cancelled : ∀ index x s', s.contenders[index]? = some x → s.step (.cancel index) = some s' →
    ∀ s'', sessionStarts.From s' s'' →
      ∀ install ∈ s''.installs, install.contender = x.id → install ∈ s.installs
  /-- A user start that meets a wake that is not committed gets the turn, and with it the permit of
  the wake if the wake still goes on. -/
  takeover : ∀ index x turn pending choice wakeSubId, s.contenders[index]? = some x →
    x.stage = .claiming → s.active = some turn → turn.pendingWakeStart = some pending →
    pending.committed = false →
    ((∃ c, turn.tasklessStartClaim = some c ∧ s.claims c = .starting) ∨
      choice.capacity ≠ .refused) →
    ∃ s' guard, s.step (.advance index choice wakeSubId) = some s' ∧ TakesOver s s' index x guard ∧
      ∀ c, turn.tasklessStartClaim = some c → s.claims c = .starting →
        ∃ reservation, pending.reservation = some reservation ∧ guard = reservation.guard
  /-- A permit that was given out has one owner, or was released once. -/
  permits : ∀ p, p.index < s.nextPermit → owners s.toStartState p + s.released.count p = 1

theorem lost_of_preempted {claim : ClaimId} (hinv : StartInvariant s) (hx : x ∈ s.contenders)
    (hclaim : x.claim = some claim) (hrsvd : x.stage.isReserved = false)
    (hslot : s.slotClaim ≠ some claim) : Lost s x.id := by
  refine ⟨(hinv.each x hx).id_lt, ?_⟩
  intro y hy hid
  obtain ⟨i, hi⟩ := mem_iff_getElem?.mp hx
  obtain ⟨j, hj⟩ := mem_iff_getElem?.mp hy
  by_cases hij : j = i
  · subst hij
    obtain rfl := mem_unique hi hj
    exact .inr ⟨hrsvd, claim, hclaim, hslot⟩
  · exact absurd hid (hinv.id_ne hij hi hj)

theorem lost_of_cancel {s s' : Session} (hinv : StartInvariant s.toStartState)
    (hx : s.contenders[index]? = some x) (hstep : s.step (.cancel index) = some s') :
    Lost s'.toStartState x.id ∧ s'.installs = s.installs := by
  obtain ⟨y, hy, rfl⟩ := map_eq_some_iff.mp hstep
  obtain rfl := mem_unique hx hy
  rw [dropStage_eq]
  refine ⟨⟨(hinv.of_getElem? hx).id_lt, ?_⟩, rfl⟩
  intro y hm hid
  have he : y ∈ s.contenders.eraseIdx index := hm
  obtain ⟨j, hij, hj⟩ := mem_eraseIdx_iff_getElem?.mp he
  exact absurd hid (hinv.id_ne hij hx hj)

theorem reachable_starts_serialised (s : Session) (hs : sessionStarts.Reachable s) :
    Serialised s := by
  have hinv := startInvariant_of_reachable hs
  exact {
    one_task := hinv.installs_nodup
    preempted := by
      intro x hx _ hclaim hrsvd hslot _ hrun install hinst hid
      have hlost := lost_of_preempted hinv hx hclaim hrsvd hslot
      have hbef := installs_of_lost hinv hlost hrun install hinst hid
      have hretn := (hinv.each x hx).installed install hbef hid
      rw [Contender.claim, hretn] at hclaim
      simp [Stage.holding] at hclaim
    cancelled := by
      intro _ _ _ hx hstep _ hrun install hinst hid
      have hinv' := hinv.sequence (sequence_of_step hinv hstep)
      have hlost := lost_of_cancel hinv hx hstep
      rw [← hlost.2]
      exact installs_of_lost hinv' hlost.1 hrun install hinst hid
    takeover := by
      intro _ _ _ _ choice wakeSubId hx hstg hturn hwake hcommit hcap
      exact takesOver_of_wake hinv hx hstg hturn hwake hcommit choice wakeSubId hcap
    permits := by
      intro p hp
      have hcnt := permitInvariant_of_reachable hs p
      rwa [if_pos hp] at hcnt }

def wakingMail : Join.Mailbox.Message := ⟨⟨"/root/child", "/root", .text "done", true⟩, {}, none⟩

def greeting : TurnInputRequest := ⟨[], .userInput ["hello"] none⟩

def userMeetsWake : List Action :=
  [.receive wakingMail, .submit .wake "W" .regular .limited, .advance 0 {} "",
    .submit (.startOrSteer greeting) "T" .regular .limited, .advance 1 {} ""]

theorem reachable_starts_serialised_userMeetsWake :
    ∃ s, sessionStarts.Reachable s ∧
      s.contenders.map (·.stage) = [.woken ⟨0⟩ ⟨0⟩, .claiming] ∧ Serialised s := by
  obtain ⟨s, hs, hcheck⟩ := exists_reachable_of_run sessionStarts userMeetsWake
    (fun s ↦ s.contenders.map (·.stage) == [.woken ⟨0⟩ ⟨0⟩, .claiming]) (by decide +kernel)
  exact ⟨s, hs, beq_iff_eq.mp hcheck, reachable_starts_serialised s hs⟩

end Slopdex.Turn.Takeover
