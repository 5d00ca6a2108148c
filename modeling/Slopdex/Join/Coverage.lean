import Slopdex.Join.Watching

/-!
# Every open target of a join is watched

As long as no observer gives up on a turn that a join is bound to, every target of a join without a
lasting result has a live observer, and one whose result is retained has an observer that will
rebind or retire it. Once all observers are done, every join is therefore complete and ready.
-/

namespace Slopdex.Join.Coverage

open Protocol Library.FirstMatch Library.KeyedMap Library.Transition Library.Transition.System
open AList List
  Join.Store Join.Evolution Join.WellFormed Join.ChildSession Join.Recordings Join.Results
  Join.Observation Join.Terminals Join.StoredResults Join.Watching List Option

variable {index : ℕ} {registrar reg : Registrar} {status : AgentStatus}

variable {setting : Setting} {s s' : State} {observer after : Observer} {o o' : JoinObligation}
  {store store' : JoinObligationStore} {thread child : ThreadId}

/-! ## Targets under a move -/

theorem recordResult_triggerTurn (o : JoinObligation) (child : ThreadId) (status : AgentStatus)
    (retain : Bool) : (o.recordResult child status retain).1.triggerTurn = o.triggerTurn :=
  congrArg (·.2.2.2) (recordResult_records o child status retain).owner_eq

theorem mem_results_recordResult (o : JoinObligation) {retain : Bool}
    {target : ThreadId} (h : target = child ∨ target ∈ o.results) :
    target ∈ (o.recordResult child status retain).1.results := by
  rw [(recordResult_records ..).results]
  split
  next hs =>
    rcases h with rfl | hold
    · exact hs
    · exact hold
  next => exact (mem_insert _).mpr h

theorem agreesAt_recordResult (o : JoinObligation) {retain : Bool}
    {target : ThreadId} (h : retain = true → target ≠ child) :
    AgreesAt target o (o.recordResult child status retain).1 where
  generation_eq := recordResult_generation o child status retain
  lookup_eq := by rw [(recordResult_records ..).targets]
  settles hs := mem_results_recordResult o (.inr hs.1)
  retained hre := by
    rw [(recordResult_records ..).retainedTargets] at hre
    split at hre
    next hr => exact Finset.mem_of_mem_insert_of_ne hre (h hr)
    next => exact hre

theorem agreesAt_releaseTarget (o : JoinObligation) (child target : ThreadId) :
    AgreesAt target o (o.releaseTarget child) :=
  ⟨rfl, rfl, fun h ↦ h.1, fun h ↦ Finset.mem_of_mem_erase h⟩

theorem agreesAt_rebindTarget (o : JoinObligation) {target : ThreadId} (hne : target ≠ child)
    (inc : Incarnation) (succ : TurnId) :
    AgreesAt target o (o.rebindTarget child inc succ) :=
  ⟨rfl, lookup_replace_of_ne hne _, fun h ↦ h.1, fun h ↦ Finset.mem_of_mem_erase h⟩

def AllCovered (observers : List Observer) (store : JoinObligationStore) : Prop :=
  ∀ o ∈ store.obligations, o.triggerTurn = true → ∀ target, target ∈ o.targets →
    Covered observers o target

theorem AllCovered.split {observers : List Observer}
    (h : AllCovered observers store) (hindex : observers[index]? = some observer)
    (hd : Distinct store) {before rest : List JoinObligation}
    (hs : store.obligations = before ++ o :: rest)
    (hs' : store'.obligations = before ++ o' :: rest)
    (hg : o.generation = observer.generation)
    (how : o'.triggerTurn = true → ∀ target, target ∈ o'.targets →
      Covered (observers.set index after) o' target) :
    AllCovered (observers.set index after) store' := by
  unfold AllCovered
  rw [hs']
  refine forall_mem_split ?_ how
  intro other ho hj target ht
  have hm : other ∈ store.obligations := hs ▸ mem_of_mem_split ho
  apply (h other hm hj target ht).set hindex (.refl target other)
  intro hw
  have hne := hd.generation_ne_of_split hs ho
  exact absurd (hw.generation_eq.symm.trans hg.symm) hne

theorem AllCovered.same {observers : List Observer} (h : AllCovered observers store)
    (hindex : observers[index]? = some observer)
    (how : ∀ o ∈ store.obligations, o.triggerTurn = true → ∀ target,
      Watches observer o target → Watches after o target) :
    AllCovered (observers.set index after) store := by
  intro o ho hj target ht
  apply (h o ho hj target ht).set hindex (.refl target o)
  intro hw
  exact .inr (how o ho hj target hw)

section Moves

variable {index : ℕ}

section

variable (h : AllCovered s.observers s.parent) (hindex : s.observers[index]? = some observer)
include h hindex

theorem AllCovered.retain (hd : Distinct s.parent) {search : Search} {owner : TurnId}
    (hrs : (resolveJoinTargetInner s.parent setting.parentThreadId observer.generation
      observer.child observer.incarnation observer.turnId status true).2.isSome = true) :
    AllCovered (s.observers.set index (observer.enter (.awaiting status search owner)))
      (s.perform setting observer (.resolve status true)).parent := by
  rcases resolveJoinTargetInner_cases s.parent setting.parentThreadId observer.generation
      observer.child observer.incarnation observer.turnId status true with
    hre | ⟨resolution, o, -, hr⟩
  · rw [hre] at hrs
    cases hrs
  · obtain ⟨_, _, hs, hs'⟩ := hr.obligations
    apply h.split hindex hd hs hs' hr.generation_eq
    intro hj target ht
    by_cases ht' : target = observer.child
    · -- The observer itself now keeps the retained target.
      obtain ⟨hlt, -⟩ := List.getElem?_eq_some_iff.mp hindex
      refine .inr ⟨_, mem_set hlt _, ?_⟩
      exact
        { live := by simp [Observer.enter]
          generation_eq := hr.generation_eq.symm.trans
            (recordResult_generation o observer.child status true).symm
          child_eq := ht'.symm
          bound := by
            rw [(recordResult_records ..).targets, ht']
            exact hr.bound
          retained := fun _ ↦ rfl }
    · rw [recordResult_triggerTurn] at hj
      rw [(recordResult_records ..).targets] at ht
      apply (h o hr.mem hj target ht).set hindex (agreesAt_recordResult o fun _ ↦ ht')
      intro hw
      exact absurd hw.child_eq.symm ht'

theorem AllCovered.resolve (hs : StoreOk setting.parentThreadId s.parent)
    (hph : observer.phase = .resolving status) (hf : status.isFinal = true) :
    AllCovered (s.observers.set index (observer.enter .done))
      (s.perform setting observer (.resolve status false)).parent := by
  rcases resolveJoinTargetInner_cases s.parent setting.parentThreadId observer.generation
      observer.child observer.incarnation observer.turnId status false with
    hre | ⟨resolution, o, -, hr⟩
  · have hsa : (s.perform setting observer (.resolve status false)).parent = s.parent :=
      perform_resolve_parent (by rw [hre]) s rfl
    rw [hsa]
    apply h.same hindex
    intro _ ho hj _ hw
    have hso := hs.resolves ho (hw.binds hj) (resolvable_of_isFinal hf)
    rw [hre] at hso
    cases hso
  · obtain ⟨_, _, hsp, hs'⟩ := hr.obligations
    apply h.split hindex hs.distinct hsp hs' hr.generation_eq
    intro hj target ht
    rw [recordResult_triggerTurn] at hj
    rw [(recordResult_records ..).targets] at ht
    have ha : AgreesAt target o (o.recordResult observer.child status false).1 :=
      agreesAt_recordResult o nofun
    apply (h o hr.mem hj target ht).set hindex ha
    intro hw
    refine .inl ⟨mem_results_recordResult o (.inl hw.child_eq.symm), ?_⟩
    rw [(recordResult_records ..).retainedTargets]
    intro hret
    have hreg := hw.retained hret
    rw [hph] at hreg
    cases hreg

theorem AllCovered.retire (hd : Distinct s.parent)
    (hrt : (retireJoinTargetSuccessorRetention s.parent setting.parentThreadId
      observer.generation observer.child observer.incarnation observer.turnId).2 = true) :
    AllCovered (s.observers.set index (observer.enter (.resolving .shutdown)))
      (s.perform setting observer .retire).parent := by
  unfold retireJoinTargetSuccessorRetention at hrt
  rcases endRetention_cases s.parent setting.parentThreadId observer.generation observer.child
      observer.incarnation observer.turnId (·.releaseTarget observer.child) with
    hr | ⟨o, -, he⟩
  · rw [hr] at hrt
    cases hrt
  · obtain ⟨_, _, hs, hs'⟩ := he.obligations
    apply h.split hindex hd hs hs' he.generation_eq
    intro hj target ht
    apply (h o he.mem hj target ht).set hindex (agreesAt_releaseTarget o _ target)
    intro hw
    right
    have ha := hw.agrees (agreesAt_releaseTarget o observer.child target)
    refine { ha with live := by simp [Observer.enter], retained := ?_ }
    intro hre
    exact absurd hw.child_eq.symm (Finset.ne_of_mem_erase hre)

theorem AllCovered.rebind (hd : Distinct s.parent)
    (childSession : Child) (search : Search) (inner : ℕ) {succ : JoinSuccessor}
    (hre : (rebindJoinTargetToSuccessor s.parent setting.parentThreadId observer.generation
      observer.child observer.incarnation observer.turnId succ.turnId).2 = true) :
    AllCovered (s.observers.set index (observer.afterRebind childSession search.seen inner succ))
      (s.perform setting observer (.rebind succ.turnId)).parent := by
  unfold State.perform
  dsimp only
  unfold rebindJoinTargetToSuccessor at hre ⊢
  split at hre
  next => cases hre
  next hn =>
    rw [if_neg hn]
    rcases endRetention_cases s.parent setting.parentThreadId observer.generation observer.child
        observer.incarnation observer.turnId
        (·.rebindTarget observer.child observer.incarnation succ.turnId) with
      hr | ⟨o, -, he⟩
    · rw [hr] at hre
      cases hre
    · obtain ⟨_, _, hsp, hs'⟩ := he.obligations
      apply h.split hindex hd hsp hs' he.generation_eq
      intro hj target ht
      have ht' : target ∈ o.targets := mem_replace.mp ht
      by_cases hs : target = observer.child
      · obtain ⟨hlt, -⟩ := List.getElem?_eq_some_iff.mp hindex
        refine .inr ⟨_, mem_set hlt _, ?_⟩
        exact
          { live := by
              simp only [Observer.afterRebind]
              split <;> simp
            generation_eq := he.generation_eq.symm
            child_eq := hs.symm
            bound := by
              rw [hs] at ht' ⊢
              exact lookup_replace_self ht' _
            retained := fun hret ↦ absurd hs (Finset.ne_of_mem_erase hret) }
      · apply (h o he.mem hj target ht').set hindex (agreesAt_rebindTarget o hs _ _)
        intro hw
        exact absurd hw.child_eq.symm hs

theorem AllCovered.move {eff : Effect} (hs : StoreOk setting.parentThreadId s.parent)
    (hf : ∀ status, observer.phase = .resolving status → status.isFinal = true)
    (hm : WatchMove setting s.parent observer eff after) :
    AllCovered (s.observers.set index after) (s.perform setting observer eff).parent := by
  cases hm with
  | go _ _ hp hg =>
    rw [hp s]
    exact h.same hindex fun _ _ _ _ hw ↦ hg.watches hw
  | retain _ _ _ _ hr => exact h.retain hindex hs.distinct hr
  | resolve status hph => exact h.resolve hindex hs hph (hf status hph)
  | retire hrt => exact h.retire hindex hs.distinct hrt
  | rebind childSession search inner _ hre =>
    exact h.rebind hindex hs.distinct childSession search inner hre
  | stop _ _ hp hfr =>
    rw [hp s rfl]
    apply h.same hindex
    intro o ho hj _ hw
    exact absurd (hw.binds hj) (hfr o ho)

end

end Moves

/-- A registration names at least one child. -/
def Begun (registrar : Registrar) : Prop :=
  registrar.remaining ≠ [] ∨ registrar.subscribed.isSome = true ∨ registrar.bound ≠ []

theorem targets_eq_insert (bound : List BoundTarget) (target : BoundTarget) (reg : Registrar) :
    { reg with bound := bound ++ [target] }.targets =
      { reg with bound := bound }.targets.insert target.child
        (target.incarnation, target.turnId) := by
  simp only [Registrar.targets, foldl_append, foldl_cons, foldl_nil]

theorem exists_bound_of_lookup {inc : Incarnation} {turn : TurnId}
    (h : reg.targets.lookup child = some (inc, turn)) :
    ∃ target ∈ reg.bound,
      target.child = child ∧ target.incarnation = inc ∧ target.turnId = turn := by
  obtain ⟨parentTurnId, triggerTurn, remaining, subscribed, bound⟩ := reg
  induction bound using reverseRecOn with
  | nil => cases h
  | append_singleton bound target ih =>
    rw [targets_eq_insert bound target ⟨parentTurnId, triggerTurn, remaining, subscribed, []⟩] at h
    rcases lookup_insert_cases h with ⟨rfl, hb⟩ | ⟨-, hold⟩
    · rw [Prod.mk.injEq] at hb
      exact ⟨target, mem_append_right _ mem_cons_self, rfl, hb.1.symm, hb.2.symm⟩
    · obtain ⟨other, ho, hb⟩ := ih hold
      exact ⟨other, mem_append_left _ ho, hb⟩

theorem mem_targets_of_bound {target : BoundTarget}
    (h : target ∈ reg.bound) : target.child ∈ reg.targets := by
  obtain ⟨parentTurnId, triggerTurn, remaining, subscribed, bound⟩ := reg
  induction bound using reverseRecOn with
  | nil => cases h
  | append_singleton bound last ih =>
    rw [targets_eq_insert bound last ⟨parentTurnId, triggerTurn, remaining, subscribed, []⟩,
      mem_insert]
    rcases mem_concat.mp h with hold | rfl
    · exact .inr (ih hold)
    · exact .inl rfl

theorem prompt_registered (hb : reg.bound ≠ []) (thread : ThreadId) (gen : ℕ) :
    Prompt thread (.registered thread reg.parentTurnId reg.targets reg.triggerTurn (.new gen)) where
  thread_eq := rfl
  ready_of_complete hc := by
    obtain ⟨target, ht⟩ := exists_mem_of_ne_nil _ hb
    exact absurd (hc target.child (mem_targets_of_bound ht)) (notMem_empty _)

theorem covered_registered (observers : List Observer) (thread : ThreadId)
    (gen : ℕ) {target : ThreadId} (htg : target ∈ reg.targets) :
    Covered (observers ++ reg.bound.map (.spawn gen))
      (.registered thread reg.parentTurnId reg.targets reg.triggerTurn (.new gen)) target := by
  obtain ⟨⟨_, _⟩, hl⟩ := isSome_iff_exists.mp (lookup_isSome.mpr htg)
  obtain ⟨bound, hm, hc, hi, ht⟩ := exists_bound_of_lookup hl
  refine .inr ⟨.spawn gen bound, mem_append_right _ (mem_map_of_mem hm), ?_⟩
  exact
    { live := by simp [Observer.spawn]
      generation_eq := rfl
      child_eq := hc
      bound := by
        rw [← hi, ← ht] at hl
        exact hl
      retained := fun h ↦ absurd h (Finset.notMem_empty _) }

/-! ## The invariant -/

def EndsFinal (child : Child) : Prop := ∀ terminal ∈ child.ended, terminal.status.isFinal = true

theorem EndsFinal.step {childSession child' : Child} {threadId : ThreadId} {act : ChildAction}
    (h : EndsFinal childSession) (hs : childSession.step threadId act = some child') :
    EndsFinal child' := by
  cases act with
  | start =>
    obtain ⟨-, -, rfl⟩ := map_eq_some_iff.mp hs
    exact h
  | finish =>
    obtain ⟨_, -, rfl⟩ := map_eq_some_iff.mp hs
    unfold Child.finish
    split
    next hf =>
      intro term ht
      rcases mem_concat.mp ht with hold | rfl
      · exact h term hold
      · exact hf
    next => exact h
  | record =>
    obtain ⟨recording, -, rfl⟩ := map_eq_some_iff.mp hs
    unfold Child.advance
    cases recording.stage <;> exact h
  | reserve | perform =>
    obtain ⟨-, rfl⟩ := ite_some_none_eq_some.mp hs
    exact h
  | release | prune | announce | setStatus =>
    cases hs
    exact h

structure CoverageInvariant (setting : Setting) (s : State) : Prop where
  observers : ObserverInvariant setting s
  store : StoreOk setting.parentThreadId s.parent
  final : ∀ incarnation, EndsFinal (s.children incarnation)
  begun : ∀ registrar ∈ s.registrars, Begun registrar
  searches : ∀ observer ∈ s.observers, SearchOk observer.phase
  covered : AllCovered s.observers s.parent

def KeepsWatch (setting : Setting) (s : State) : Action → Prop
  | .begin _ children _ => children ≠ []
  | .register _ => s.parent.nextGeneration < u64Max
  | .observe index branch _ => ∀ observer ∈ s.observers[index]?,
      Proceeds setting s.parent (s.children observer.incarnation) observer branch
  | _ => True

section

variable (h : CoverageInvariant setting s)
include h

theorem CoverageInvariant.operate {op : StoreOp} (hop : State.permits op = true) :
    CoverageInvariant setting { s with parent := s.parent.apply op } := by
  have hc : AllCovered s.observers (s.parent.apply op) := by
    apply forall_of_permits hop h.store.sound _ _ h.covered
    · intro o hc hj target ht
      apply (hc hj target ht).agrees _ (Subset.refl _)
      exact ⟨rfl, rfl, fun hs ↦ hs.1, id⟩
    · intro _ _ _ _ _ hc hj target ht
      apply (hc hj target ht).agrees _ (Subset.refl _)
      refine ⟨rfl, rfl, fun hs ↦ ?_, id⟩
      exact mem_retainKeys.mpr ⟨hs.1, decide_eq_true hs.2⟩
  exact ⟨{ h.observers with }, h.store.operate hop, h.final, h.begun, h.searches, hc⟩

theorem CoverageInvariant.operateAll {ops : List StoreOp}
    (ho : ∀ op ∈ ops, State.permits op = true) :
    CoverageInvariant setting { s with parent := applyAll s.parent ops } := by
  induction ops generalizing s with
  | nil => exact h
  | cons op _ ih =>
    exact ih (h.operate (ho op mem_cons_self)) fun op' hop' ↦
      ho op' (mem_cons_of_mem op hop')

theorem CoverageInvariant.register (hbo : reg.bound ≠ [])
    (hf : s.parent.nextGeneration < u64Max)
    (hob : ObserverInvariant setting (State.register setting (s.dropRegistrar index) reg)) :
    CoverageInvariant setting (State.register setting (s.dropRegistrar index) reg) := by
  have hb : ∀ other ∈ s.registrars.eraseIdx index, Begun other := fun other hot ↦
    h.begun other ((eraseIdx_sublist _ _).subset hot)
  have hs (gen : ℕ) : ∀ observer ∈ s.observers ++
      reg.bound.map (.spawn gen), SearchOk observer.phase := by
    intro observer hm
    rcases mem_append.mp hm with hold | hn
    · exact h.searches observer hold
    · obtain ⟨_, -, rfl⟩ := mem_map.mp hn
      trivial
  have hg (gen : ℕ) : AllCovered
      (s.observers ++ reg.bound.map (.spawn gen)) s.parent :=
    fun o ho hj target ht ↦ (h.covered o ho hj target ht).agrees
      (.refl target o) (subset_append_left _ _)
  unfold State.register State.dropRegistrar at hob ⊢
  dsimp only at hob ⊢
  rcases registerObligation_cases s.parent setting.parentThreadId reg.parentTurnId
      reg.targets reg.triggerTurn with hsa | ⟨-, had⟩
  · -- A refused registration spawns nothing, one that reattaches only more observers.
    rw [hsa] at hob ⊢
    cases ha : (registerObligation s.parent setting.parentThreadId reg.parentTurnId
        reg.targets reg.triggerTurn).2 with
    | none =>
      rw [ha] at hob
      exact ⟨hob, h.store, h.final, hb, h.searches, h.covered⟩
    | some token =>
      rw [ha] at hob
      exact ⟨hob, h.store, h.final, hb, hs token.generation, hg token.generation⟩
  · rw [had] at hob ⊢
    refine ⟨hob, ⟨?_, ?_, ?_⟩, h.final, hb, hs _, ?_⟩
    · exact h.store.sound.add _ _ _ _
    · exact h.store.distinct.add hf _ _ _ _
    · intro o ho
      rcases mem_concat.mp ho with hold | rfl
      · exact h.store.prompt o hold
      · exact prompt_registered hbo _ _
    · intro o ho hj target ht
      rcases mem_concat.mp ho with hold | rfl
      · exact hg _ o hold hj target ht
      · exact covered_registered s.observers _ _ ht

omit h in
theorem perform_evolves (setting : Setting) (s : State) (observer : Observer) (eff : Effect) :
    Evolves s.parent (s.perform setting observer eff).parent := by
  cases eff with
  | keep | prune | finish => exact .of_sublist rfl (Sublist.refl _)
  | resolve => exact (resolveJoinTargetInner_updates _ _ _ _ _ _ _ _).evolves
  | retire => exact (retireJoinTargetSuccessorRetention_amends _ _ _ _ _ _).evolves
  | rebind => exact (rebindJoinTargetToSuccessor_amends _ _ _ _ _ _ _).evolves

omit h in
theorem endsFinal_perform (h : ∀ inc, EndsFinal (s.children inc))
    (setting : Setting) (observer : Observer) (eff : Effect) (inc : Incarnation) :
    EndsFinal ((s.perform setting observer eff).children inc) := by
  cases eff with
  | keep | resolve | retire | rebind => exact h inc
  | prune | finish =>
    simp only [State.perform, State.setChild, Function.update_apply]
    split
    · exact h observer.incarnation
    · exact h inc

theorem CoverageInvariant.observe {branch : Branch}
    {dead : List TurnStateRef} (hindex : s.observers[index]? = some observer)
    (hok : Proceeds setting s.parent (s.children observer.incarnation) observer branch)
    (hst : s.observe setting index observer branch dead = some s')
    (hob : ObserverInvariant setting s') : CoverageInvariant setting s' := by
  have hme := mem_of_getElem? hindex
  obtain ⟨⟨eff, after⟩, hn, rfl⟩ := map_eq_some_iff.mp hst
  have hf (status : AgentStatus) (hph : observer.phase = .resolving status) :
      status.isFinal = true := by
    have he := (h.observers.observers observer hme).2
    rw [PhaseOk, hph] at he
    rcases he with hen | ⟨hsh, -⟩
    · exact h.final observer.incarnation _ hen
    · rw [show status = .shutdown from hsh]
      rfl
  have hs := h.searches observer hme
  have hm := watchMove_of_next h.store hs hok hn
  refine ⟨hob, h.store.evolves (perform_evolves setting s observer eff),
    endsFinal_perform h.final setting observer eff, ?_, ?_, ?_⟩
  · cases eff <;> exact h.begun
  · have hse : ∀ other ∈ s.observers.set index after, SearchOk other.phase := by
      intro other ho
      rcases mem_or_eq_of_mem_set ho with hold | rfl
      · exact h.searches other hold
      · exact searchOk_of_next hs hn
    cases eff <;> exact hse
  · have hc := h.covered.move hindex h.store hf hm
    cases eff <;> exact hc

theorem CoverageInvariant.step {act : Action}
    (hok : KeepsWatch setting s act) (hs : s.step setting act = some s') :
    CoverageInvariant setting s' := by
  have hobs := h.observers.step hs
  cases act with
  | child inc =>
    obtain ⟨-, hm⟩ := ite_none_right_eq_some.mp hs
    obtain ⟨_, hc, rfl⟩ := map_eq_some_iff.mp hm
    refine ⟨hobs, h.store, ?_, h.begun, h.searches, h.covered⟩
    intro other
    simp only [State.setChild, Function.update_apply]
    split
    · exact (h.final inc).step hc
    · exact h.final other
  | parent =>
    obtain ⟨hop, rfl⟩ := ite_some_none_eq_some.mp hs
    exact h.operate hop
  | announceParent =>
    cases hs
    exact ⟨hobs, h.store, h.final, h.begun, h.searches, h.covered⟩
  | begin =>
    cases hs
    refine ⟨hobs, h.store, h.final, ?_, h.searches, h.covered⟩
    intro reg hme
    rcases mem_concat.mp hme with hold | rfl
    · exact h.begun reg hold
    · exact .inl hok
  | subscribe =>
    obtain ⟨_, -, hsub⟩ := bind_eq_some_iff.mp hs
    unfold State.subscribe at hsub
    split at hsub
    next =>
      obtain ⟨-, rfl⟩ := ite_some_none_eq_some.mp hsub
      refine ⟨hobs, h.store, h.final, ?_, h.searches, h.covered⟩
      intro other ho
      rcases mem_or_eq_of_mem_set ho with hold | rfl
      · exact h.begun other hold
      · exact .inr (.inl rfl)
    next => cases hsub
  | bind =>
    obtain ⟨_, -, hbi⟩ := bind_eq_some_iff.mp hs
    obtain ⟨⟨_, _, _⟩, -, rfl⟩ := map_eq_some_iff.mp hbi
    dsimp only at hobs ⊢
    split at hobs
    next =>
      exact ⟨hobs, h.store, h.final, fun other ho ↦ h.begun other
        ((eraseIdx_sublist _ _).subset ho), h.searches, h.covered⟩
    next =>
      refine ⟨hobs, h.store, h.final, ?_, h.searches, h.covered⟩
      intro other ho
      rcases mem_or_eq_of_mem_set ho with hold | rfl
      · exact h.begun other hold
      · exact .inr (.inr (by simp))
  | register =>
    obtain ⟨reg, hre, hreg⟩ := bind_eq_some_iff.mp hs
    obtain ⟨⟨hr, hsu⟩, ha⟩ := ite_none_right_eq_some.mp hreg
    cases ha
    have hb := h.begun reg (mem_of_getElem? hre)
    rw [Begun, hr, hsu] at hb
    exact h.register (by simpa using hb) hok hobs
  | giveUp =>
    cases hs
    exact ⟨hobs, h.store, h.final, fun other ho ↦ h.begun other
      ((eraseIdx_sublist _ _).subset ho), h.searches, h.covered⟩
  | observe =>
    obtain ⟨observer, hobsr, hob⟩ := bind_eq_some_iff.mp hs
    obtain ⟨-, ha⟩ := ite_none_right_eq_some.mp hob
    exact h.observe hobsr (hok observer hobsr) ha hobs

omit h in
theorem coverageInvariant_initial (setting : Setting) :
    CoverageInvariant setting State.initial where
  observers := observerInvariant_initial setting
  store := ⟨forall_mem_nil _, ⟨nodup_nil, forall_mem_nil _⟩, forall_mem_nil _⟩
  final _ := nofun
  begun := forall_mem_nil _
  searches := forall_mem_nil _
  covered := forall_mem_nil _

theorem CoverageInvariant.ready_of_done
    (hd : ∀ observer ∈ s.observers, observer.phase = .done) (ho : o ∈ s.parent.obligations)
    (hj : o.triggerTurn = true) : o.ready = true := by
  apply (h.store.prompt o ho).ready_of_complete
  intro target ht
  rcases h.covered o ho hj target ht with hs | ⟨observer, hm, hw⟩
  · exact hs.1
  · exact absurd (hd observer hm) hw.live

end

end Slopdex.Join.Coverage
