import Slopdex.ExecPolicy.Manager

/-!
# Reloading the rules file gives the live policy back

After any run of retained updates the policy that the rules file reloads to decides every command as
the live one does. Not retained is an amendment that only the resolution of host executables allows,
a network rule whose line is in the file behind a contrary one, a host that is normalised further
when it is read back, or a network rule under requirements that have their own.
-/

namespace Slopdex.ExecPolicy

open Protocol (Text)
open Library Library.Transition NetworkRule List Except

variable {rule : NetworkRule} {rules : List NetworkRule} {Path : Type}

def NetworkRule.isDecisive (rule : NetworkRule) : Bool := rule.decision != .prompt

theorem applyNetworkRule_of_not_isDecisive (domains : List Text × List Text)
    (h : rule.isDecisive = false) : applyNetworkRule domains rule = domains := by
  unfold applyNetworkRule
  cases hd : rule.decision with
  | prompt => rfl
  | allow | forbidden => simp [isDecisive, hd] at h

theorem upsertDomain_idem (entries : List Text) (host : Text) :
    upsertDomain (upsertDomain entries host) host = upsertDomain entries host := by
  simp [upsertDomain]

theorem applyNetworkRule_idem (domains : List Text × List Text) {again : NetworkRule}
    (hh : again.host = rule.host) (hd : again.decision = rule.decision) :
    applyNetworkRule (applyNetworkRule domains rule) again = applyNetworkRule domains rule := by
  unfold applyNetworkRule
  rw [hd, hh]
  cases rule.decision with
  | prompt => rfl
  | allow | forbidden => simp [upsertDomain_idem]

theorem compileNetworkDomains_concat (rules : List NetworkRule) (rule : NetworkRule) :
    compileNetworkDomains (rules ++ [rule]) = applyNetworkRule (compileNetworkDomains rules) rule := by
  simp [compileNetworkDomains]

theorem foldl_applyNetworkRule_filter (rules : List NetworkRule) (domains : List Text × List Text) :
    (rules.filter (·.isDecisive)).foldl applyNetworkRule domains =
      rules.foldl applyNetworkRule domains := by
  induction rules generalizing domains with
  | nil => rfl
  | cons rule _ ih =>
    cases hd : rule.isDecisive with
    | true => rw [filter_cons_of_pos hd, foldl_cons, foldl_cons, ih]
    | false =>
      rw [filter_cons_of_neg (by simp [hd]), foldl_cons,
        applyNetworkRule_of_not_isDecisive domains hd, ih]

theorem compileNetworkDomains_eq_of_filter_eq {others : List NetworkRule}
    (h : rules.filter (·.isDecisive) = others.filter (·.isDecisive)) :
    compileNetworkDomains rules = compileNetworkDomains others := by
  unfold compileNetworkDomains
  rw [← foldl_applyNetworkRule_filter rules, h, foldl_applyNetworkRule_filter]

def isLastDecisive (rules : List NetworkRule) (host : Text) (decision : Decision) : Bool :=
  (rules.filter (·.isDecisive)).getLast?.any fun rule ↦
    rule.host == host && rule.decision == decision

theorem compileNetworkDomains_concat_of_isLastDecisive
    (h : isLastDecisive rules rule.host rule.decision = true) :
    compileNetworkDomains (rules ++ [rule]) = compileNetworkDomains rules := by
  have hf : compileNetworkDomains (rules.filter (·.isDecisive)) =
      compileNetworkDomains rules :=
    compileNetworkDomains_eq_of_filter_eq (by rw [filter_filter]; simp)
  obtain ⟨_, hl, hsa⟩ := (Option.any_eq_true _ _).mp h
  simp only [Bool.and_eq_true, beq_iff_eq] at hsa
  obtain ⟨_, hb⟩ := getLast?_eq_some_iff.mp hl
  rw [compileNetworkDomains_concat, ← hf, hb, compileNetworkDomains_concat]
  exact applyNetworkRule_idem _ hsa.1.symm hsa.2.symm

theorem compileNetworkDomains_concat_of_prompt (h : rule.decision = .prompt) :
    compileNetworkDomains (rules ++ [rule]) = compileNetworkDomains rules := by
  rw [compileNetworkDomains_concat, applyNetworkRule_of_not_isDecisive]
  simp [isDecisive, h]

theorem compileNetworkDomains_concat_before {live required : List NetworkRule} (rule : NetworkRule)
    (hsi : rule.decision = .prompt ∨ ∀ other ∈ required, other.decision = .prompt)
    (h : compileNetworkDomains live = compileNetworkDomains (rules ++ required)) :
    compileNetworkDomains (live ++ [rule]) = compileNetworkDomains ((rules ++ [rule]) ++ required) := by
  rcases hsi with hp | hsi
  · calc
      compileNetworkDomains (live ++ [rule]) = compileNetworkDomains live :=
        compileNetworkDomains_concat_of_prompt hp
      _ = compileNetworkDomains (rules ++ required) := h
      _ = compileNetworkDomains ((rules ++ [rule]) ++ required) := by
        apply compileNetworkDomains_eq_of_filter_eq
        simp [isDecisive, hp]
  · have hd : ∀ others : List NetworkRule,
        compileNetworkDomains (others ++ required) = compileNetworkDomains others := by
      intro _
      apply compileNetworkDomains_eq_of_filter_eq
      have hn : required.filter (·.isDecisive) = [] := by
        rw [filter_eq_nil_iff]
        intro other ho
        simp [isDecisive, hsi other ho]
      rw [filter_append, hn, append_nil]
    calc
      compileNetworkDomains (live ++ [rule]) =
          applyNetworkRule (compileNetworkDomains (rules ++ required)) rule := by
        rw [compileNetworkDomains_concat, h]
      _ = compileNetworkDomains (rules ++ [rule]) := by
        rw [hd, compileNetworkDomains_concat]
      _ = compileNetworkDomains ((rules ++ [rule]) ++ required) := (hd _).symm

/-! ## Reloaded policies -/

variable (requirements : Option (Policy Path))

/-- The rules of a file under the requirements. -/
def overlaid (policy : Policy Path) : Policy Path :=
  requirements.elim policy policy.mergeOverlay

def requiredNetworkRules : List NetworkRule :=
  requirements.elim [] (·.networkRules)

section Overlaid

variable (requirements : Option (Policy Path)) (policy : Policy Path)

theorem networkRules_overlaid : (overlaid requirements policy).networkRules =
    policy.networkRules ++ requiredNetworkRules requirements := by
  cases requirements with
  | none => exact (append_nil _).symm
  | some => rfl

theorem getVec_overlaid (program : Text) :
    (overlaid requirements policy).rulesByProgram.getVec program =
      policy.rulesByProgram.getVec program ++
        requirements.elim [] fun policy ↦ policy.rulesByProgram.getVec program := by
  cases requirements with
  | none => exact (append_nil _).symm
  | some requirements => exact policy.getVec_mergeOverlay requirements program

theorem rulesByProgram_overlaid {other : Policy Path}
    (h : other.rulesByProgram = policy.rulesByProgram) :
    (overlaid requirements other).rulesByProgram =
      (overlaid requirements policy).rulesByProgram := by
  cases requirements with
  | none => exact h
  | some =>
    unfold overlaid Policy.mergeOverlay
    dsimp only [Option.elim_some]
    rw [h]

theorem hostExecutables_overlaid {other : Policy Path}
    (h : other.hostExecutablesByName = policy.hostExecutablesByName) :
    (overlaid requirements other).hostExecutablesByName =
      (overlaid requirements policy).hostExecutablesByName := by
  cases requirements with
  | none => exact h
  | some =>
    unfold overlaid Policy.mergeOverlay
    dsimp only [Option.elim_some]
    rw [h]

end Overlaid

theorem gains_insert (policy : Policy Path) (first : Text) (rest : List Text) :
    Gains (allowRule first rest) policy { policy with
      rulesByProgram := policy.rulesByProgram.insert first (allowRule first rest) } := by
  apply Gains.of_insert
  · intro prog
    refine ⟨policy.rulesByProgram.getVec prog, [], (append_nil _).symm, ?_⟩
    have hp : (allowRule first rest).program = first := rfl
    rw [MultiMap.getVec_insert, hp]
    split <;> simp
  · rfl

theorem gains_overlaid (builder : PolicyBuilder Path) (first : Text) (rest : List Text) :
    Gains (allowRule first rest) (overlaid requirements builder.toPolicy)
      (overlaid requirements (builder.addRules [allowRule first rest]).toPolicy) := by
  apply Gains.of_insert
  · intro program
    have hp : (allowRule first rest).program = first := rfl
    have hg : (builder.addRules [allowRule first rest]).rulesByProgram.getVec program =
        builder.rulesByProgram.getVec program ++
          if program = first then [allowRule first rest] else [] := by
      change (builder.rulesByProgram.insert first (allowRule first rest)).getVec program = _
      rw [MultiMap.getVec_insert]
      split <;> simp
    refine ⟨_, _, getVec_overlaid requirements builder.toPolicy program, ?_⟩
    rw [getVec_overlaid, hg, hp]
  · exact hostExecutables_overlaid requirements builder.toPolicy rfl

section Runs

variable [DecidableEq Path] (host : HostPaths Path) (requirements : Option (Policy Path))

theorem loadExecPolicy_eq_ok_iff {file : RulesFile} {policy : Policy Path} :
    loadExecPolicy host requirements file = .ok policy ↔
      ∃ builder, parseRules host file = .ok builder ∧
        policy = overlaid requirements builder.toPolicy := by
  unfold loadExecPolicy
  cases parseRules host file with
  | error => simp [bind, Except.bind]
  | ok =>
    cases requirements with
    | none | some => simp [bind, Except.bind, pure, Except.pure, overlaid, eq_comm]

def Retained (s : ManagerState Path) : Update → Prop
  | .amendment command =>
    if hasLine s.file (allowPrefixLine command) then
      ∀ first ∈ command.head?, (parseRules host s.file).toOption.any (fun builder ↦
        decide (allowRule first command.tail ∈ builder.rulesByProgram.getVec first)) = true
    else
      (s.policy.matchExactRules command).getD [] ≠ [] ∨ alreadyAllowed host s.policy command = false
  | .networkRule hostName protocol decision justification =>
    (decision = .prompt ∨ ∀ rule ∈ requiredNetworkRules requirements, rule.decision = .prompt) ∧
      ∀ normalized ∈ (normalizeNetworkRuleHost hostName).toOption,
        if hasLine s.file (networkRuleLine normalized protocol decision justification) then
          decision = .prompt ∨ isLastDecisive s.policy.networkRules normalized decision = true
        else normalizeNetworkRuleHost normalized = .ok normalized

instance (s : ManagerState Path) (update : Update) :
    Decidable (Retained host requirements s update) := by
  cases update <;> unfold Retained <;> infer_instance

/-- The live policy and the one the file reloads to agree. -/
def InStep (s : ManagerState Path) : Prop :=
  ∃ builder, parseRules host s.file = .ok builder ∧
    DecidesAlike s.policy (overlaid requirements builder.toPolicy) ∧
    compileNetworkDomains s.policy.networkRules =
      compileNetworkDomains (builder.networkRules ++ requiredNetworkRules requirements)

variable {host requirements} {s t : ManagerState Path}

theorem amendment_cases {cmd : List Text} (h : appendAmendmentAndUpdate host s cmd = .ok t) :
    ∃ first rest, cmd = first :: rest ∧
      t.file = appendLockedLine s.file (allowPrefixLine cmd) ∧
      (alreadyAllowed host s.policy cmd = true ∧ t.policy = s.policy ∨
        alreadyAllowed host s.policy cmd = false ∧
          t.policy = { s.policy with
            rulesByProgram := s.policy.rulesByProgram.insert first (allowRule first rest) }) := by
  cases cmd with
  | nil => cases h
  | cons first rest =>
    refine ⟨first, rest, rfl, ?_⟩
    cases ha : alreadyAllowed host s.policy (first :: rest) with
    | true =>
      have ht : t = { s with file := appendLockedLine s.file (allowPrefixLine (first :: rest)) } := by
        simp only [appendAmendmentAndUpdate, ha] at h
        exact (ok.inj h).symm
      subst ht
      exact ⟨rfl, .inl ⟨rfl, rfl⟩⟩
    | false =>
      have ht : t = ⟨appendLockedLine s.file (allowPrefixLine (first :: rest)),
          { s.policy with
            rulesByProgram := s.policy.rulesByProgram.insert first (allowRule first rest) }⟩ := by
        simp only [appendAmendmentAndUpdate, ha] at h
        exact (ok.inj h).symm
      subst ht
      exact ⟨rfl, .inr ⟨rfl, rfl⟩⟩

theorem InStep.amendment (hs : InStep host requirements s) {cmd : List Text}
    (hret : Retained host requirements s (.amendment cmd))
    (hstep : appendAmendmentAndUpdate host s cmd = .ok t) : InStep host requirements t := by
  obtain ⟨builder, hparse, halike, hdoms⟩ := hs
  obtain ⟨first, rest, rfl, hf, hp⟩ := amendment_cases hstep
  have hn : t.policy.networkRules = s.policy.networkRules := by
    rcases hp with ⟨_, hp⟩ | ⟨_, hp⟩ <;> rw [hp]
  by_cases hl : hasLine s.file (allowPrefixLine (first :: rest)) = true
  · -- nothing is written, and the file has the rule
    have hf : t.file = s.file := by
      rw [hf, appendLockedLine_of_hasLine hl]
    simp only [Retained, if_pos hl, head?_cons, tail_cons, Option.mem_def,
      Option.some.injEq, forall_eq', hparse] at hret
    have hru : allowRule first rest ∈
        (overlaid requirements builder.toPolicy).rulesByProgram.getVec first := by
      rw [getVec_overlaid]
      exact mem_append_left _ (of_decide_eq_true hret)
    refine ⟨builder, hf ▸ hparse, ?_, hn ▸ hdoms⟩
    rcases hp with ⟨_, hp⟩ | ⟨_, hp⟩ <;> rw [hp]
    · exact halike
    · exact (gains_insert s.policy first rest).decidesAlike (Gains.of_mem hru) halike
  · have hf : t.file = s.file ++ [allowPrefixLine (first :: rest)] := by
      rw [hf, appendLockedLine_of_not_hasLine hl]
    simp only [Retained, if_neg hl] at hret
    have hp' := parseRules_append host (allowPrefixLine (first :: rest)) hparse rfl
      (evalCall_allowPrefix host builder first rest) rfl ⟨[allowRule first rest], rfl⟩
    refine ⟨_, hf ▸ hp', ?_, hn ▸ hdoms⟩
    have hr := gains_overlaid requirements builder first rest
    rcases hp with ⟨ha, hp⟩ | ⟨_, hp⟩
    · -- the command has a match of its own, so the live policy does not need the rule
      have he : s.policy.exactDecisions (first :: rest) ≠ [] := by
        intro hni
        rcases hret with hm | hre
        · exact hm ((s.policy.matchExactRules_eq_nil_iff _).mpr hni)
        · rw [hre] at ha
          cases ha
      rw [hp]
      exact (Gains.of_exactDecisions he).decidesAlike hr halike
    · rw [hp]
      exact (gains_insert s.policy first rest).decidesAlike hr halike

omit [DecidableEq Path] in
theorem networkRule_cases {hostName : Text} {proto : NetworkRuleProtocol} {dec : Decision}
    {justification : Option Text}
    (h : appendNetworkRuleAndUpdate s hostName proto dec justification = .ok t) :
    ∃ normalized, normalizeNetworkRuleHost hostName = .ok normalized ∧
      checkJustification justification = .ok justification ∧
      t = ⟨appendLockedLine s.file (networkRuleLine normalized proto dec justification),
        { s.policy with
          networkRules :=
            s.policy.networkRules ++ [⟨normalized, proto, dec, justification⟩] }⟩ := by
  cases hh : normalizeNetworkRuleHost hostName with
  | error =>
    simp only [appendNetworkRuleAndUpdate, blockingAppendNetworkRule, hh] at h
    cases h
  | ok normalized =>
    have hj : ∀ kept, checkJustification justification = .ok kept → kept = justification := by
      intro _ hk
      unfold checkJustification at hk
      split at hk
      next => cases hk
      next => exact (ok.inj hk).symm
    cases hcheck : checkJustification justification with
    | error =>
      simp only [appendNetworkRuleAndUpdate, blockingAppendNetworkRule, hh, hcheck] at h
      cases h
    | ok kept =>
      obtain rfl := hj kept hcheck
      refine ⟨normalized, rfl, rfl, ?_⟩
      simp only [appendNetworkRuleAndUpdate, blockingAppendNetworkRule, Policy.addNetworkRule,
        hh, hcheck] at h
      exact (ok.inj h).symm

theorem InStep.networkRule (hs : InStep host requirements s) {hostName : Text}
    {proto : NetworkRuleProtocol} {dec : Decision} {justification : Option Text}
    (hr : Retained host requirements s (.networkRule hostName proto dec justification))
    (hstep : appendNetworkRuleAndUpdate s hostName proto dec justification = .ok t) :
    InStep host requirements t := by
  obtain ⟨builder, hparse, halike, hdoms⟩ := hs
  obtain ⟨normalized, hh, hj, rfl⟩ := networkRule_cases hstep
  obtain ⟨hsi, hr⟩ := hr
  have hr := hr normalized (by rw [hh]; rfl)
  by_cases hl :
      hasLine s.file (networkRuleLine normalized proto dec justification) = true
  · -- nothing is written, and the rule changes nothing in the live policy
    rw [if_pos hl] at hr
    refine ⟨builder, ?_, halike.congr rfl rfl rfl rfl, ?_⟩
    · rw [appendLockedLine_of_hasLine hl]
      exact hparse
    · rw [← hdoms]
      rcases hr with hp | hla
      · exact compileNetworkDomains_concat_of_prompt hp
      · exact compileNetworkDomains_concat_of_isLastDecisive hla
  · rw [if_neg hl] at hr
    have hp' := parseRules_append host
      (networkRuleLine normalized proto dec justification) hparse rfl
      (evalCall_networkRule host builder hr proto dec hj) rfl
      ⟨[], (append_nil _).symm⟩
    let rule : NetworkRule := ⟨normalized, proto, dec, justification⟩
    refine ⟨{ builder with networkRules := builder.networkRules ++ [rule] }, ?_,
      halike.congr rfl rfl (rulesByProgram_overlaid requirements builder.toPolicy rfl)
        (hostExecutables_overlaid requirements builder.toPolicy rfl), ?_⟩
    · rw [appendLockedLine_of_not_hasLine hl]
      exact hp'
    · exact compileNetworkDomains_concat_before rule hsi hdoms

theorem eq_ok_of_toOption {ε α : Type} {result : Except ε α} {a : α}
    (h : result.toOption = some a) : result = .ok a := by
  cases result with
  | error => cases h
  | ok => rw [Option.some.inj h]

theorem InStep.step (hs : InStep host requirements s) {file : RulesFile} {policy : Policy Path}
    {update : Update} (hr : Retained host requirements s update)
    (hstep : (manager host file policy).step s update = some t) : InStep host requirements t := by
  cases update with
  | amendment => exact hs.amendment hr (eq_ok_of_toOption hstep)
  | networkRule =>
    exact hs.networkRule hr (eq_ok_of_toOption hstep)

/-- The file of a manager that was loaded from it and has only made retained updates reloads to a
policy that decides as the live one and compiles to the same domains. -/
theorem live_policy_agrees_with_reloaded {file : RulesFile} {policy : Policy Path}
    (hload : loadExecPolicy host requirements file = .ok policy)
    (hs : (manager host file policy).Guarded (Retained host requirements) s) :
    ∃ reloaded, loadExecPolicy host requirements s.file = .ok reloaded ∧
      (∀ cmd heuristics options,
        (s.policy.checkWithOptions host cmd heuristics options).map (·.decision) =
          (reloaded.checkWithOptions host cmd heuristics options).map (·.decision)) ∧
      s.policy.compiledNetworkDomains = reloaded.compiledNetworkDomains := by
  have hinit : InStep host requirements (manager host file policy).init := by
    obtain ⟨builder, hparse, rfl⟩ := (loadExecPolicy_eq_ok_iff host requirements).mp hload
    refine ⟨builder, hparse, DecidesAlike.refl _, ?_⟩
    exact congrArg compileNetworkDomains (networkRules_overlaid requirements builder.toPolicy)
  obtain ⟨builder, hparse, halike, hdoms⟩ :=
    hs.invariant (InStep host requirements) hinit fun _ _ _ hs hok hstep ↦ hs.step hok hstep
  refine ⟨overlaid requirements builder.toPolicy,
    (loadExecPolicy_eq_ok_iff host requirements).mpr ⟨builder, hparse, rfl⟩, ?_, ?_⟩
  · intro cmd heuristics options
    exact halike.decision_checkWithOptions host cmd heuristics options
  · rw [Policy.compiledNetworkDomains, Policy.compiledNetworkDomains, networkRules_overlaid]
    exact hdoms

end Runs

section ConcreteRuns

def webHost : Text := "example.com".toList

/-- One amendment of each kind, and a network rule that is written twice. -/
def retainedUpdates : List Update :=
  [.amendment ["git".toList, "status".toList], .amendment ["git".toList, "status".toList, "-s".toList],
    .amendment ["git".toList, "status".toList], .networkRule webHost .https .allow none,
    .networkRule webHost .https .allow none]

theorem live_policy_agrees_with_reloaded_retained :
    ∃ s : ManagerState (List Text),
      (manager (unixPaths none none) [] {}).Guarded (Retained (unixPaths none none) none) s ∧
      (s.file.length == 3 && s.policy.networkRules.length == 2) = true ∧
      ∃ reloaded, loadExecPolicy (unixPaths none none) none s.file = .ok reloaded ∧
        (∀ cmd heuristics options,
          (s.policy.checkWithOptions (unixPaths none none) cmd heuristics options).map (·.decision) =
            (reloaded.checkWithOptions (unixPaths none none) cmd heuristics options).map
              (·.decision)) ∧
        s.policy.compiledNetworkDomains = reloaded.compiledNetworkDomains := by
  obtain ⟨s, hs, hcheck⟩ := System.exists_guarded_of_runIf
    (manager (unixPaths none none) [] {}) (Retained (unixPaths none none) none) retainedUpdates
    (fun s ↦ s.file.length == 3 && s.policy.networkRules.length == 2) (by decide +kernel)
  have hload : loadExecPolicy (unixPaths none none) none [] = .ok ({} : Policy (List Text)) := rfl
  exact ⟨s, hs, hcheck, live_policy_agrees_with_reloaded hload hs⟩

/-- Allowing a host, denying it and allowing it again: the last line is in the file already, so that
the file ends with the denial while the live policy ends with the permission. -/
theorem live_policy_differs_from_reloaded :
    ∃ s : ManagerState (List Text), (manager (unixPaths none none) [] {}).Reachable s ∧
      (s.policy.compiledNetworkDomains == ([webHost], []) &&
        (loadExecPolicy (unixPaths none none) none s.file).toOption.any fun reloaded ↦
          reloaded.compiledNetworkDomains == ([], [webHost])) = true :=
  System.exists_reachable_of_run (manager (unixPaths none none) [] {})
    [.networkRule webHost .https .allow none, .networkRule webHost .https .forbidden none,
      .networkRule webHost .https .allow none] _ (by decide +kernel)

end ConcreteRuns

end Slopdex.ExecPolicy
