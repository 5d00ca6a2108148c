import Slopdex.Join.Observation
import Slopdex.Join.Recordings

/-!
# Observers miss no terminal and store no foreign one

An observer that waits for its turn has the broadcast of the turn's terminal ahead of it, and one
that waits for a successor has an announcement to see, as long as the recording is over. The status
an observer carries is one with which its own turn ended, or the shutdown of the child.
-/

namespace Slopdex.Join.Terminals

open Protocol Library.FirstMatch Library.Transition Library.Transition.System Join.Store Join.Evolution
open Function
  Join.ChildSession Join.Recordings Join.Observation Observer Option List

variable {dead : List TurnStateRef} {incarnation : Incarnation} {index : ℕ} {registrar reg : Registrar}
  {status : AgentStatus}

variable {setting : Setting} {s s' : State} {child child' : Child} {observer after : Observer}
  {tid : ThreadId} {bound : ℕ}

/-- The turn ended with the status, or the child was shut down. -/
def Exact (child : Child) (terminal : ExactTerminal) : Prop :=
  terminal ∈ child.ended ∨ terminal.status = .shutdown ∧ child.shutDown = true

theorem Exact.grows {terminal : ExactTerminal} (h : Exact child terminal)
    (hg : Grows child child') : Exact child' terminal := by
  rcases h with he | ⟨hs, hd⟩
  · exact .inl (hg.ended he)
  · exact .inr ⟨hs, hg.shutDown hd⟩

def SuccessorExact (child : Child) (successor : JoinSuccessor) : Prop :=
  ∀ status ∈ successor.terminalStatus, ⟨successor.turnId, successor.turnState, status⟩ ∈ child.ended

def PhaseOk (child : Child) (observer : Observer) : Prop :=
  match observer.phase with
  | .starting | .watching =>
    Backlog child observer.turnId observer.turnState observer.cursor ∧
      Tabled child observer.turnId observer.turnState
  | .lagged =>
    Tabled child observer.turnId observer.turnState ∧
      (Backlog child observer.turnId observer.turnState observer.cursor ∨
        Listed child.terminals observer.turnId observer.turnState)
  | .classify status | .resolving status | .finishing _ _ status =>
    Exact child (observer.terminal status)
  | .snapshot status search | .retaining status search | .awaiting status search _
  | .awaitingOwner status search _ | .awaitingContinuation status search =>
    Exact child (observer.terminal status) ∧ search.seen ≤ child.revision
  | .retiring _ => child.shutDown = true
  | .checking search _ successor | .rebinding search _ successor =>
    SuccessorExact child successor ∧ search.seen ≤ child.revision
  | .following seen _ _ => seen ≤ child.revision
  | .awaitingSuccessor seen _ predecessor =>
    Followed child observer.child predecessor observer.turnId observer.turnState seen
  | .done => True

theorem PhaseOk.childStep (h : PhaseOk child observer) (hchild : ChildInvariant tid bound child)
    (ht : tid = observer.child) {act : ChildAction}
    (hs : child.step tid act = some child')
    (hh : observer.phase ≠ .done → Spares act observer.turnState) : PhaseOk child' observer := by
  have hg := grows_of_step hs
  unfold PhaseOk at h ⊢
  cases hph : observer.phase with
  | starting | watching =>
    rw [hph] at h
    exact ⟨h.1.step hs, h.2.step hchild hs (hh (by simp [hph]))⟩
  | lagged =>
    rw [hph] at h
    have hsp := hh (by simp [hph])
    refine ⟨h.1.step hchild hs hsp, ?_⟩
    rcases h.2 with hb | hl
    · exact .inl (hb.step hs)
    · exact .inr (listed_of_step hs hsp hl)
  | classify | resolving | finishing =>
    rw [hph] at h
    exact Exact.grows h hg
  | retiring =>
    rw [hph] at h
    exact hg.shutDown h
  | checking | rebinding =>
    rw [hph] at h
    exact ⟨fun status hst ↦ hg.ended (h.1 status hst), h.2.trans hg.revision⟩
  | following =>
    rw [hph] at h
    exact le_trans h hg.revision
  | awaitingSuccessor =>
    rw [hph] at h
    subst ht
    exact Followed.step h hs
  | done => trivial
  | _ =>
    rw [hph] at h
    exact ⟨h.1.grows hg, h.2.trans hg.revision⟩

/-! ## The phases -/

theorem lease_of_snapshot {store : JoinObligationStore} {pred : TurnId} {gen : ℕ}
    {succ : JoinSuccessor}
    (h : joinContinuationForPredecessor store tid pred = some (some (gen, some succ))) :
    ∃ lease ∈ store.continuations, lease.follows tid pred = true ∧
      lease.successorTurnId = succ.turnId ∧ lease.successorTurnState = succ.turnState ∧
        lease.terminalStatus = succ.terminalStatus := by
  unfold joinContinuationForPredecessor at h
  split at h
  next => cases h
  next lease hl _ =>
    rw [some.injEq, some.injEq, Prod.mk.injEq, some.injEq] at h
    have hm : lease ∈ store.continuations.filter (·.follows tid pred) := by
      rw [hl]
      exact mem_singleton_self lease
    rw [← h.2]
    exact ⟨lease, (mem_filter.mp hm).1, (mem_filter.mp hm).2, rfl, rfl, rfl⟩
  next =>
    rw [some.injEq, some.injEq, Prod.mk.injEq] at h
    cases h.2
  next => cases h

theorem statusFor_eq_some {terminal : ExactTerminal} {turnId : TurnId} {turnState : TurnStateRef}
    (h : terminal.statusFor turnId turnState = some status) :
    terminal = ⟨turnId, turnState, status⟩ := by
  unfold ExactTerminal.statusFor at h
  obtain ⟨hf, hst⟩ := ite_none_right_eq_some.mp h
  obtain ⟨hid, hs⟩ := isFor_iff.mp hf
  rw [← hid, ← hs, ← some.inj hst]

section

variable (hchild : ChildInvariant tid bound child)
include hchild

theorem phaseOk_afterReceive
    (hb : Backlog child observer.turnId observer.turnState observer.cursor)
    (ht : Tabled child observer.turnId observer.turnState) {received : Received}
    (h : receive child.sent observer.cursor = some received) :
    PhaseOk child (observer.afterReceive received) := by
  unfold receive at h
  split at h
  next =>
    cases h
    refine ⟨ht, ?_⟩
    -- A broadcast that the receiver loses is in the table.
    by_cases hl : ∃ terminal ∈ child.sent,
        terminal.isFor observer.turnId observer.turnState = true
    · obtain ⟨terminal, hse, hf⟩ := hl
      exact .inr (ht terminal hse hf)
    · refine .inl ⟨Nat.sub_le _ _, ?_⟩
      intro _ terminal hp hf
      exact absurd ⟨terminal, mem_of_getElem? hp, hf⟩ hl
  next =>
    obtain ⟨terminal, hte, rfl⟩ := map_eq_some_iff.mp h
    obtain ⟨hlt, -⟩ := List.getElem?_eq_some_iff.mp hte
    cases hs : terminal.statusFor observer.turnId observer.turnState with
    | some =>
      simp only [afterReceive, hs]
      have hse := hchild.sent_ended terminal (mem_of_getElem? hte)
      rw [statusFor_eq_some hs] at hse
      exact .inl hse
    | none =>
      simp only [afterReceive, hs]
      refine ⟨⟨hlt, ?_⟩, ht⟩
      intro pos other hp hf
      have hle := hb.ahead pos other hp hf
      have hne : pos ≠ observer.cursor := by
        rintro rfl
        rw [hte, some.injEq] at hp
        rw [hp, ExactTerminal.statusFor, if_pos hf] at hs
        cases hs
      exact Nat.lt_of_le_of_ne hle hne.symm

theorem phaseOk_afterLookup (ht : Tabled child observer.turnId observer.turnState)
    (hc : Backlog child observer.turnId observer.turnState observer.cursor ∨
      Listed child.terminals observer.turnId observer.turnState)
    (hh : observer.turnState ∉ dead) :
    PhaseOk child (observer.afterLookup
      ({ child with terminals := Child.pruneTerminals child.terminals dead }.exactJoinTerminalStatus
        observer.turnId observer.turnState)) := by
  cases hf : { child with
      terminals := Child.pruneTerminals child.terminals dead }.exactJoinTerminalStatus
        observer.turnId observer.turnState with
  | some =>
    obtain ⟨terminal, hte, hs⟩ := exists_of_findSome?_eq_some hf
    have hm := (mem_filter.mp (mem_reverse.mp hte)).1
    have he := hchild.terminals_ended terminal hm
    rw [statusFor_eq_some hs] at he
    exact .inl he
  | none =>
    rcases hc with hb | hl
    · exact ⟨hb, ht⟩
    · obtain ⟨entry, hen, hfo⟩ := hl.prune hh
      have hn := findSome?_eq_none_iff.mp hf entry (mem_reverse.mpr hen)
      rw [ExactTerminal.statusFor, if_pos hfo] at hn
      cases hn

theorem phaseOk_afterSnapshot {search : Search} (he : Exact child (observer.terminal status))
    (hs : search.seen ≤ child.revision) :
    PhaseOk child (observer.afterSnapshot child status search) := by
  unfold afterSnapshot
  split
  next => trivial
  next =>
    split
    next => exact he
    next =>
      unfold seeStatus
      split
      next hd => exact hchild.status_shutDown hd
      next => trivial
  next successor hsn =>
    split
    next => trivial
    next =>
      split
      next => exact ⟨he, hs⟩
      next =>
        split
        next => exact ⟨he, hs⟩
        next successor =>
          have hsu : SuccessorExact child successor := by
            intro status hsta
            obtain ⟨lease, hl, -, hid, hst, ht⟩ := lease_of_snapshot hsn
            rw [← hid, ← hst]
            exact hchild.leases_ended lease hl status (ht ▸ hsta)
          split
          next => trivial
          next =>
            split
            all_goals exact ⟨hsu, hs⟩

theorem phaseOk_afterFollowing {seen inner : ℕ} {pred : TurnId} (hse : seen ≤ child.revision) :
    PhaseOk child (observer.afterFollowing child seen inner pred) := by
  unfold afterFollowing
  split
  next hsn =>
    split
    next hsa =>
      obtain ⟨lease, hl, hf, hid, hs, ht⟩ := lease_of_snapshot hsn
      rw [hsa.2.1] at hid
      rw [hsa.2.2] at hs
      split
      next status hst =>
        refine .inl ?_
        have he := hchild.leases_ended lease hl status (by rw [ht, hst]; rfl)
        rw [hid, hs] at he
        exact he
      next hn =>
        exact ⟨hse, .inl ⟨lease, hl, hf, hid, hs, ht.trans hn⟩⟩
    next => trivial
  next => trivial

end

theorem phaseOk_afterRebind {search : Search} {inner : ℕ} {succ : JoinSuccessor}
    (hs : SuccessorExact child succ) (hse : search.seen ≤ child.revision) :
    PhaseOk child (observer.afterRebind child search.seen inner succ) := by
  cases ht : succ.terminalStatus with
  | some status =>
    simp only [afterRebind, ht]
    exact .inl (hs status ht)
  | none =>
    simp only [afterRebind, ht]
    exact hse

structure StepOk (child : Child) (observer after : Observer) (dead : List TurnStateRef)
    (effect : Effect) : Prop where
  phase : PhaseOk child after
  child_eq : after.child = observer.child
  incarnation_eq : after.incarnation = observer.incarnation
  resolves : ∀ status retain, effect = .resolve status retain →
    Exact child (observer.terminal status)
  prunes : ∀ list, effect = .prune list → list = dead ∧ after.turnState = observer.turnState

theorem StepOk.keep (hph : PhaseOk child after) (hchild : after.child = observer.child)
    (hi : after.incarnation = observer.incarnation) :
    StepOk child observer after dead .keep :=
  ⟨hph, hchild, hi, nofun, nofun⟩

theorem afterSnapshot_frame (child : Child) (observer : Observer) (status : AgentStatus)
    (search : Search) :
    (observer.afterSnapshot child status search).child = observer.child ∧
      (observer.afterSnapshot child status search).incarnation = observer.incarnation := by
  unfold afterSnapshot
  split
  · exact ⟨rfl, rfl⟩
  · split <;> exact ⟨rfl, rfl⟩
  · split
    · exact ⟨rfl, rfl⟩
    · split
      · exact ⟨rfl, rfl⟩
      · split
        · exact ⟨rfl, rfl⟩
        · split
          · exact ⟨rfl, rfl⟩
          · split <;> exact ⟨rfl, rfl⟩

theorem afterFollowing_frame (child : Child) (observer : Observer) (seen inner : ℕ)
    (pred : TurnId) :
    (observer.afterFollowing child seen inner pred).child = observer.child ∧
      (observer.afterFollowing child seen inner pred).incarnation = observer.incarnation := by
  unfold afterFollowing
  split
  · split
    · split <;> exact ⟨rfl, rfl⟩
    · exact ⟨rfl, rfl⟩
  · exact ⟨rfl, rfl⟩

theorem PhaseOk.next (h : PhaseOk child observer) (hchild : ChildInvariant tid bound child)
    {parent : JoinObligationStore} {parentRevision : ℕ} {branch : Branch}
    (hh : observer.phase ≠ .done → observer.turnState ∉ dead)
    {effect : Effect}
    (hn : observer.next setting parent parentRevision child branch dead =
      some (effect, after)) : StepOk child observer after dead effect := by
  unfold Observer.next at hn
  unfold PhaseOk at h
  split at hn <;> try rw [‹observer.phase = _›] at h
  all_goals try first | cases hn | rw [ite_some_none_eq_some] at hn; obtain ⟨-, ⟨⟩⟩ := hn
  next =>
    refine .keep ?_ rfl rfl
    unfold seeStatus
    split
    next hd => exact .inr ⟨rfl, hchild.status_shutDown hd⟩
    next => exact h
  next =>
    exact .keep h rfl rfl
  next =>
    obtain ⟨received, hre, ha⟩ := map_eq_some_iff.mp hn
    cases ha
    refine .keep (phaseOk_afterReceive hchild h.1 h.2 hre) ?_ ?_
    all_goals cases received <;> rfl
  next hph =>
    refine ⟨phaseOk_afterLookup hchild h.1 h.2 (hh (by simp [hph])), ?_, ?_, nofun, ?_⟩
    · unfold afterLookup
      split <;> rfl
    · unfold afterLookup
      split <;> rfl
    · intro _ hl
      cases hl
      refine ⟨rfl, ?_⟩
      unfold afterLookup
      split <;> rfl
  next =>
    refine .keep ?_ rfl rfl
    split
    · exact ⟨h, le_rfl⟩
    · exact h
  next status search _ =>
    have hf := afterSnapshot_frame child observer status search
    exact .keep (phaseOk_afterSnapshot hchild h.1 h.2) hf.1 hf.2
  next status _ _ =>
    have hr : ∀ st retain, Effect.resolve status true = .resolve st retain →
        Exact child (observer.terminal st) := by
      intro _ _ heq
      cases heq
      exact h.1
    split at hn <;> cases hn
    · exact ⟨trivial, rfl, rfl, hr, nofun⟩
    · exact ⟨h, rfl, rfl, hr, nofun⟩
  next =>
    split at hn
    next =>
      split at hn <;> cases hn
      all_goals exact .keep h rfl rfl
    next =>
      cases hn
      exact .keep trivial rfl rfl
  next =>
    exact .keep h rfl rfl
  next =>
    exact .keep ⟨h.1, le_rfl⟩ rfl rfl
  next =>
    refine .keep ?_ rfl rfl
    unfold seeStatus
    split
    next hd => exact hchild.status_shutDown hd
    next => exact h
  next =>
    split at hn
    next =>
      cases hn
      exact .keep (.inr ⟨rfl, h⟩) rfl rfl
    next =>
      split at hn <;> cases hn
      · exact ⟨.inr ⟨rfl, h⟩, rfl, rfl, nofun, nofun⟩
      · exact ⟨trivial, rfl, rfl, nofun, nofun⟩
  next =>
    split at hn <;> cases hn
    · exact .keep h rfl rfl
    · exact .keep trivial rfl rfl
  next =>
    split at hn <;> cases hn
    · exact ⟨phaseOk_afterRebind h.1 h.2, rfl, rfl, nofun, nofun⟩
    · exact ⟨trivial, rfl, rfl, nofun, nofun⟩
  next seen inner pred _ =>
    have hf := afterFollowing_frame child observer seen inner pred
    exact .keep (phaseOk_afterFollowing hchild h) hf.1 hf.2
  next =>
    refine .keep ?_ rfl rfl
    exact le_refl child.revision
  next =>
    refine .keep ?_ rfl rfl
    unfold seeStatus
    split
    next hd => exact .inr ⟨rfl, hchild.status_shutDown hd⟩
    next => exact Followed.le_revision h
  next =>
    exact ⟨h, rfl, rfl, nofun, nofun⟩
  next =>
    refine ⟨trivial, rfl, rfl, ?_, nofun⟩
    intro _ _ heq
    cases heq
    exact h
  iterate 3
    exact .keep trivial rfl rfl

/-! ## The whole system -/

structure TargetOk (setting : Setting) (child : Child) (target : BoundTarget) : Prop where
  thread : setting.threadOf target.incarnation = target.child
  backlog : Backlog child target.turnId target.turnState target.cursor
  tabled : Tabled child target.turnId target.turnState

structure ObserverInvariant (setting : Setting) (s : State) : Prop where
  children : ∀ incarnation,
    ChildInvariant (setting.threadOf incarnation) s.nextTurnState (s.children incarnation)
  subscribed : ∀ registrar ∈ s.registrars, ∀ subscription ∈ registrar.subscribed,
    setting.threadOf subscription.2.1 = subscription.1 ∧
      subscription.2.2 ≤ (s.children subscription.2.1).sent.length
  bound : ∀ registrar ∈ s.registrars, ∀ target ∈ registrar.bound,
    TargetOk setting (s.children target.incarnation) target
  observers : ∀ observer ∈ s.observers, setting.threadOf observer.incarnation = observer.child ∧
    PhaseOk (s.children observer.incarnation) observer
  stored : ∀ generation child incarnation terminal,
    .stored generation child incarnation terminal ∈ s.events →
      Exact (s.children incarnation) terminal

structure SparesHolders (s : State) (incarnation : Incarnation) (action : ChildAction) : Prop where
  recordings : ∀ recording ∈ (s.children incarnation).recordings,
    Spares action recording.terminal.turnState
  bound : ∀ registrar ∈ s.registrars, ∀ target ∈ registrar.bound,
    target.incarnation = incarnation → Spares action target.turnState
  observers : ∀ observer ∈ s.observers, observer.incarnation = incarnation →
    observer.phase ≠ .done → Spares action observer.turnState

theorem step_sent_length_le {act : ChildAction}
    (hs : child.step tid act = some child') : child.sent.length ≤ child'.sent.length := by
  rcases step_sent hs with hsa | ⟨_, _, _, -, -, -, hse, -⟩
  · rw [hsa]
  · rw [hse, length_append]
    omega

theorem ObserverInvariant.setChild (h : ObserverInvariant setting s)
    (act : ChildAction) {nextTurnState : ℕ}
    (hok : Admissible (s.children incarnation) s.nextTurnState nextTurnState act)
    (hh : SparesHolders s incarnation act)
    (hs : (s.children incarnation).step (setting.threadOf incarnation) act = some child') :
    ObserverInvariant setting { s.setChild incarnation child' with
      nextTurnState := nextTurnState } := by
  have hi := h.children incarnation
  have hc (other : Incarnation) :
      other = incarnation ∧ update s.children incarnation child' other = child' ∨
        other ≠ incarnation ∧ update s.children incarnation child' other = s.children other := by
    by_cases heq : other = incarnation
    · subst heq
      exact .inl ⟨rfl, update_self _ _ _⟩
    · exact .inr ⟨heq, update_of_ne heq _ _⟩
  refine ⟨?_, ?_, ?_, ?_, ?_⟩
  · intro other
    simp only [State.setChild]
    rcases hc other with ⟨rfl, hn⟩ | ⟨-, hold⟩
    · rw [hn]
      exact hi.step hok hs
    · rw [hold]
      exact (h.children other).mono hok.le
  · intro reg hm subscription hsu
    obtain ⟨ht, hle⟩ := h.subscribed reg hm subscription hsu
    refine ⟨ht, ?_⟩
    simp only [State.setChild]
    rcases hc subscription.2.1 with ⟨heq, hn⟩ | ⟨-, hold⟩
    · rw [hn]
      rw [heq] at hle
      exact hle.trans (step_sent_length_le hs)
    · rw [hold]
      exact hle
  · intro reg hm target htg
    have hb := h.bound reg hm target htg
    simp only [State.setChild]
    rcases hc target.incarnation with ⟨heq, hn⟩ | ⟨-, hold⟩
    · rw [hn]
      have hsp := hh.bound reg hm target htg heq
      rw [heq] at hb
      exact ⟨hb.thread, hb.backlog.step hs, hb.tabled.step hi hs hsp⟩
    · rw [hold]
      exact hb
  · intro observer hm
    obtain ⟨ht, hph⟩ := h.observers observer hm
    refine ⟨ht, ?_⟩
    simp only [State.setChild]
    rcases hc observer.incarnation with ⟨heq, hn⟩ | ⟨-, hold⟩
    · rw [hn]
      rw [heq] at ht hph
      exact hph.childStep hi ht hs (hh.observers observer hm heq)
    · rw [hold]
      exact hph
  · intro gen child other terminal hev
    have he := h.stored gen child other terminal hev
    simp only [State.setChild]
    rcases hc other with ⟨rfl, hn⟩ | ⟨-, hold⟩
    · rw [hn]
      exact he.grows (grows_of_step hs)
    · rw [hold]
      exact he

theorem not_mem_of_dropped (h : s.dropped incarnation dead = true) {turnState : TurnStateRef}
    (hh : s.holds incarnation turnState = true) : turnState ∉ dead := by
  intro hm
  have hd := all_eq_true.mp h turnState hm
  rw [hh] at hd
  cases hd

theorem holds_recording {rcd : Recording}
    (h : rcd ∈ (s.children incarnation).recordings) :
    s.holds incarnation rcd.terminal.turnState = true := by
  simp only [State.holds, Bool.or_eq_true, List.any_eq_true]
  exact .inl (.inl (.inl (.inr ⟨rcd, h, beq_self_eq_true _⟩)))

theorem holds_bound (h : reg ∈ s.registrars) {target : BoundTarget}
    (ht : target ∈ reg.bound) : s.holds target.incarnation target.turnState = true := by
  simp only [State.holds, Bool.or_eq_true, List.any_eq_true]
  exact .inl (.inr ⟨reg, h, target, ht, by simp⟩)

theorem holds_observer (h : observer ∈ s.observers) (hph : observer.phase ≠ .done) :
    s.holds observer.incarnation observer.turnState = true := by
  simp only [State.holds, Bool.or_eq_true, List.any_eq_true]
  exact .inr ⟨observer, h, by simp [hph]⟩

theorem sparesHolders_of_admits (action : ChildAction)
    (h : s.admits incarnation action = true) : SparesHolders s incarnation action := by
  have hs {turnState : TurnStateRef} (hh : s.holds incarnation turnState = true) :
      Spares action turnState := by
    cases action with
    | record | prune => exact not_mem_of_dropped h hh
    | _ => trivial
  refine ⟨?_, ?_, ?_⟩
  · intro _ hm
    exact hs (holds_recording hm)
  · intro _ hm _ ht heq
    exact hs (heq ▸ holds_bound hm ht)
  · intro _ hm heq hph
    exact hs (heq ▸ holds_observer hm hph)

section

variable (h : ObserverInvariant setting s)
include h

theorem ObserverInvariant.childStep
    {action : ChildAction} (ha : s.admits incarnation action = true)
    (hs : (s.children incarnation).step (setting.threadOf incarnation) action = some child') :
    ObserverInvariant setting { s.setChild incarnation child' with
      nextTurnState := s.nextTurnState + (State.allocates action).toNat } := by
  have hh := sparesHolders_of_admits action ha
  refine h.setChild action ⟨Nat.le_add_right _ _, ?_, hh.recordings⟩ hh hs
  intro _ heq
  subst heq
  rw [beq_iff_eq.mp ha]
  exact ⟨le_rfl, Nat.lt_add_one _⟩

theorem ObserverInvariant.setObserver (ht : setting.threadOf after.incarnation = after.child)
    (hph : PhaseOk (s.children after.incarnation) after) :
    ObserverInvariant setting (s.setObserver index after) := by
  refine { h with observers := ?_ }
  intro observer hm
  rcases mem_or_eq_of_mem_set hm with hold | rfl
  · exact h.observers observer hold
  · exact ⟨ht, hph⟩

theorem ObserverInvariant.setParent (parent : JoinObligationStore) {events : List Event}
    (he : ∀ gen child incarnation terminal,
      .stored gen child incarnation terminal ∈ events → Exact (s.children incarnation) terminal) :
    ObserverInvariant setting { s with parent := parent, events := s.events ++ events } := by
  refine { h with stored := ?_ }
  intro gen child incarnation terminal hm
  rcases mem_append.mp hm with hold | hn
  · exact h.stored gen child incarnation terminal hold
  · exact he gen child incarnation terminal hn

end

theorem exact_of_mem_resolved {resolution : Option RetainedJoinResolution}
    (he : Exact (s.children observer.incarnation) (observer.terminal status))
    (gen : ℕ) (child : ThreadId) (incarnation : Incarnation) (terminal : ExactTerminal)
    (h : .stored gen child incarnation terminal ∈ State.resolved observer status resolution) :
    Exact (s.children incarnation) terminal := by
  unfold State.resolved at h
  split at h
  next => exact absurd h not_mem_nil
  next =>
    rcases mem_cons.mp h with heq | hr
    · cases heq
      exact he
    · split at hr
      · cases mem_singleton.mp hr
      · exact absurd hr not_mem_nil

theorem eq_of_mem_ite_singleton {condition : Bool} {event other : Event}
    (h : event ∈ if condition then [other] else []) : event = other := by
  split at h
  · exact mem_singleton.mp h
  · exact absurd h not_mem_nil

section

variable (h : ObserverInvariant setting s)
include h

namespace ObserverInvariant

theorem observe {branch : Branch} (hob : s.observers[index]? = some observer)
    (hd : s.dropped observer.incarnation dead = true)
    (hste : s.observe setting index observer branch dead = some s') :
    ObserverInvariant setting s' := by
  have hm := mem_of_getElem? hob
  obtain ⟨ht, hph⟩ := h.observers observer hm
  obtain ⟨⟨effect, after⟩, hne, rfl⟩ := map_eq_some_iff.mp hste
  have hh (hn : observer.phase ≠ .done) : observer.turnState ∉ dead :=
    not_mem_of_dropped hd (holds_observer hm hn)
  have hok := hph.next (h.children observer.incarnation) hh hne
  have ht' : setting.threadOf after.incarnation = after.child := by
    rw [hok.incarnation_eq, hok.child_eq, ht]
  have hph' : PhaseOk (s.children after.incarnation) after := by
    rw [hok.incarnation_eq]
    exact hok.phase
  have hse : ObserverInvariant setting (s.setObserver index after) :=
    h.setObserver ht' hph'
  cases effect with
  | keep => exact hse
  | prune list =>
    obtain ⟨rfl, hst⟩ := hok.prunes list rfl
    have hs := sparesHolders_of_admits (s := s) (.prune list) hd
    refine hse.setChild (.prune list) ⟨le_rfl, nofun, hs.recordings⟩
      ⟨hs.recordings, hs.bound, ?_⟩ rfl
    intro other ho heq hn
    rcases mem_or_eq_of_mem_set ho with hold | rfl
    · exact hs.observers other hold heq hn
    · rw [hst]
      refine hh ?_
      intro hdo
      simp [Observer.next, hdo] at hne
  | resolve status retain =>
    exact hse.setParent _ (exact_of_mem_resolved (hok.resolves status retain rfl))
  | retire | rebind =>
    refine hse.setParent _ ?_
    intro _ _ _ _ he
    cases eq_of_mem_ite_singleton he
  | finish inner pred =>
    exact hse.setChild (.perform (.finishContinuation observer.child inner pred
      observer.turnId observer.turnState)) ⟨le_rfl, nofun, fun _ _ ↦ trivial⟩
      ⟨fun _ _ ↦ trivial, fun _ _ _ _ _ ↦ trivial, fun _ _ _ _ ↦ trivial⟩ rfl

theorem setRegistrar (hs : ∀ subscription ∈ reg.subscribed,
      setting.threadOf subscription.2.1 = subscription.1 ∧
        subscription.2.2 ≤ (s.children subscription.2.1).sent.length)
    (hb : ∀ target ∈ reg.bound, TargetOk setting (s.children target.incarnation) target) :
    ObserverInvariant setting (s.setRegistrar index reg) := by
  refine { h with subscribed := ?_, bound := ?_ } <;> intro other hm
  · rcases mem_or_eq_of_mem_set hm with hold | rfl
    · exact h.subscribed other hold
    · exact hs
  · rcases mem_or_eq_of_mem_set hm with hold | rfl
    · exact h.bound other hold
    · exact hb

theorem dropRegistrar (index : ℕ) : ObserverInvariant setting (s.dropRegistrar index) := by
  have hs := (eraseIdx_sublist s.registrars index).subset
  exact { h with
    subscribed := fun reg hm ↦ h.subscribed reg (hs hm)
    bound := fun reg hm ↦ h.bound reg (hs hm) }

theorem bind (hr : s.registrars[index]? = some reg)
    (hs : s.bind index reg = some s') : ObserverInvariant setting s' := by
  have hm := mem_of_getElem? hr
  obtain ⟨⟨_, incarnation, _⟩, hsu, rfl⟩ := map_eq_some_iff.mp hs
  obtain ⟨ht, hc⟩ := h.subscribed reg hm _ hsu
  dsimp only
  split
  next => exact h.dropRegistrar index
  next ha =>
    refine h.setRegistrar nofun ?_
    intro target htg
    rcases mem_concat.mp htg with hold | rfl
    · exact h.bound reg hm target hold
    · exact ⟨ht, (h.children incarnation).backlog_of_active ha hc,
        (h.children incarnation).tabled_of_active ha⟩

theorem register (index : ℕ) (hr : s.registrars[index]? = some reg) :
    ObserverInvariant setting (State.register setting (s.dropRegistrar index) reg) := by
  have hd := h.dropRegistrar index
  unfold State.register
  dsimp only
  split
  next => exact { hd with }
  next =>
    refine { hd with observers := ?_ }
    intro observer hm
    rcases mem_append.mp hm with hold | hn
    · exact hd.observers observer hold
    · obtain ⟨target, ht, rfl⟩ := mem_map.mp hn
      have hok := h.bound reg (mem_of_getElem? hr) target ht
      exact ⟨hok.thread, hok.backlog, hok.tabled⟩

theorem step {act : Action}
    (hs : s.step setting act = some s') : ObserverInvariant setting s' := by
  cases act with
  | child =>
    obtain ⟨ha, hma⟩ := ite_none_right_eq_some.mp hs
    obtain ⟨_, hchild, rfl⟩ := map_eq_some_iff.mp hma
    exact h.childStep ha hchild
  | parent =>
    obtain ⟨-, ⟨⟩⟩ := ite_some_none_eq_some.mp hs
    exact { h with }
  | announceParent =>
    cases hs
    exact { h with }
  | begin =>
    cases hs
    refine { h with subscribed := ?_, bound := ?_ } <;> intro reg hm
    · rcases mem_concat.mp hm with hold | rfl
      · exact h.subscribed reg hold
      · exact nofun
    · rcases mem_concat.mp hm with hold | rfl
      · exact h.bound reg hold
      · exact nofun
  | subscribe =>
    obtain ⟨reg, hr, hsu⟩ := bind_eq_some_iff.mp hs
    have hb := h.bound reg (mem_of_getElem? hr)
    unfold State.subscribe at hsu
    split at hsu
    next =>
      obtain ⟨ht, ⟨⟩⟩ := ite_some_none_eq_some.mp hsu
      refine h.setRegistrar ?_ hb
      intro _ hm
      rw [mem_some_iff] at hm
      rw [← hm]
      exact ⟨ht, le_rfl⟩
    next => cases hsu
  | bind =>
    obtain ⟨_, hr, hbi⟩ := bind_eq_some_iff.mp hs
    exact h.bind hr hbi
  | register index =>
    obtain ⟨_, hr, hre⟩ := bind_eq_some_iff.mp hs
    obtain ⟨-, ⟨⟩⟩ := ite_some_none_eq_some.mp hre
    exact h.register index hr
  | giveUp index =>
    cases hs
    exact h.dropRegistrar index
  | observe =>
    obtain ⟨_, hob, ho⟩ := bind_eq_some_iff.mp hs
    obtain ⟨hd, haf⟩ := ite_none_right_eq_some.mp ho
    exact h.observe hob hd haf

end ObserverInvariant

end

theorem observerInvariant_initial (setting : Setting) :
    ObserverInvariant setting State.initial where
  children incarnation := childInvariant_initial (setting.threadOf incarnation) 0
  subscribed := forall_mem_nil _
  bound := forall_mem_nil _
  observers := forall_mem_nil _
  stored := nofun

end Slopdex.Join.Terminals
