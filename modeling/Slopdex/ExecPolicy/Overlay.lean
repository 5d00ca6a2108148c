import Slopdex.ExecPolicy.Policy

/-!
# What a requirements policy demands of a command survives the merge

Requirements are laid over the rules of the user, and the stricter of the two is meant to win. But a
rule of the user for the program as written stops the lookup before the base name is tried, and a
list of host executables of the user can close the base name to the program. The demand holds where
neither happens, and otherwise only where what decides instead is as strict by itself.
-/

namespace Slopdex.ExecPolicy.Policy

open Protocol (Text)
open Library List

variable {Path : Type} [DecidableEq Path] (policy requirements : Policy Path)
  (host : HostPaths Path) (cmd : List Text) (heuristics : List Text → Decision)

/-- The base name of the program is open to its path in the merged policy if it is in the
requirements. -/
def LeavesOpen : Prop :=
  ∀ resolved ∈ resolveProgram host cmd, resolved.2 ∈ requirements.hostExecutablesByName ∨
    policy.permitsHostExecutable resolved.2 resolved.1 = true

instance : Decidable (LeavesOpen policy requirements host cmd) :=
  inferInstanceAs (Decidable (∀ resolved ∈ _, _))

/-- The requirements match the program as it was written. Or the policy does, as strictly as they
match its base name. Or else the base name stays open, unless the heuristics are as strict. -/
def Undisturbed : Prop :=
  (requirements.matchExactRules cmd).getD [] ≠ [] ∨
    if (policy.matchExactRules cmd).getD [] ≠ [] then
      ∀ demand ∈ requirements.matchHostExecutableRules host cmd,
        ∃ ruleMatch ∈ (policy.matchExactRules cmd).getD [], demand.decision ≤ ruleMatch.decision
    else LeavesOpen policy requirements host cmd ∨
      ∀ demand ∈ requirements.matchHostExecutableRules host cmd, demand.decision ≤ heuristics cmd

omit [DecidableEq Path] in
theorem exactDecisions_mergeOverlay :
    (policy.mergeOverlay requirements).exactDecisions cmd =
      policy.exactDecisions cmd ++ requirements.exactDecisions cmd := by
  unfold exactDecisions
  cases cmd.head? with
  | none => rfl
  | some =>
    dsimp only
    rw [getVec_mergeOverlay, ruleDecisions_append]

theorem permitsHostExecutable_mergeOverlay (basename : Text) (program : Path) :
    (policy.mergeOverlay requirements).permitsHostExecutable basename program =
      if basename ∈ requirements.hostExecutablesByName then
        requirements.permitsHostExecutable basename program
      else policy.permitsHostExecutable basename program := by
  unfold permitsHostExecutable
  rw [lookup_mergeOverlay]
  split_ifs with hmem
  · rw [Option.or_of_isSome (AList.lookup_isSome.mpr hmem)]
  · rw [AList.lookup_eq_none.mpr hmem, Option.none_or]

theorem covers_hostDecisions_mergeOverlay (hopen : LeavesOpen policy requirements host cmd) :
    Covers ((policy.mergeOverlay requirements).hostDecisions host cmd)
      (requirements.hostDecisions host cmd) := by
  unfold hostDecisions
  cases hresolved : resolveProgram host cmd with
  | none => exact Covers.refl []
  | some resolved =>
    dsimp only
    by_cases hpermits : requirements.permitsHostExecutable resolved.2 resolved.1 = true
    · have hmerged : (policy.mergeOverlay requirements).permitsHostExecutable resolved.2
          resolved.1 = true := by
        rw [permitsHostExecutable_mergeOverlay]
        split_ifs with hmem
        · exact hpermits
        · exact (hopen resolved hresolved).resolve_left hmem
      rw [if_pos hpermits, if_pos hmerged, getVec_mergeOverlay, ruleDecisions_append]
      exact Covers.of_subset (subset_append_right _ _)
    · rw [if_neg hpermits]
      exact Covers.of_subset (nil_subset _)

theorem hostDecisions_mergeOverlay_of_closed (hclosed : ¬LeavesOpen policy requirements host cmd) :
    (policy.mergeOverlay requirements).hostDecisions host cmd = [] := by
  simp only [LeavesOpen, not_forall, not_or] at hclosed
  obtain ⟨resolved, hresolved, hmem, hpolicy⟩ := hclosed
  unfold hostDecisions
  rw [Option.mem_def.mp hresolved]
  dsimp only
  rw [permitsHostExecutable_mergeOverlay, if_neg hmem, if_neg hpolicy]

/-- The merged policy covers the demands exactly if nothing disturbs them. -/
theorem covers_mergeOverlay_iff {options : MatchOptions}
    (hmatched : requirements.matchDecisions host cmd options ≠ []) :
    Covers (if (policy.mergeOverlay requirements).matchDecisions host cmd options = [] then
        [heuristics cmd]
      else (policy.mergeOverlay requirements).matchDecisions host cmd options)
        (requirements.matchDecisions host cmd options) ↔
      (options.resolveHostExecutables = true →
        Undisturbed policy requirements host cmd heuristics) := by
  unfold Undisturbed
  simp only [ne_eq, matchExactRules_eq_nil_iff]
  unfold matchDecisions at hmatched ⊢
  rw [exactDecisions_mergeOverlay]
  by_cases hexact : requirements.exactDecisions cmd = []
  swap
  · -- the demands for the program as written are among the merged ones
    refine iff_of_true ?_ fun _ ↦ .inl hexact
    rw [if_pos hexact, if_pos (mt append_eq_nil_iff.mp (mt And.right hexact)),
      if_neg (mt append_eq_nil_iff.mp (mt And.right hexact))]
    exact Covers.of_subset (subset_append_right _ _)
  · rw [if_neg (not_not_intro hexact)] at hmatched
    have hresolve : options.resolveHostExecutables = true := by
      by_contra hoff
      exact hmatched (if_neg hoff)
    rw [if_pos hresolve] at hmatched
    simp only [hexact, hresolve, append_nil, ne_eq, not_true_eq_false, if_false, if_true, false_or,
      forall_const]
    by_cases hpolicy : policy.exactDecisions cmd = []
    · simp only [hpolicy, not_true_eq_false, if_false]
      by_cases hopen : LeavesOpen policy requirements host cmd
      · have hcovers := covers_hostDecisions_mergeOverlay policy requirements host cmd hopen
        refine iff_of_true ?_ (.inl hopen)
        rw [if_neg fun hnil ↦ hmatched (hnil ▸ hcovers).eq_nil]
        exact hcovers
      · rw [hostDecisions_mergeOverlay_of_closed policy requirements host cmd hopen, if_pos rfl,
          ← map_decision_matchHostExecutableRules]
        simp [Covers, hopen]
    · simp only [hpolicy, not_false_eq_true, if_true, if_false]
      rw [← map_decision_matchHostExecutableRules, ← map_decision_matchExactRules]
      simp [Covers]

/-- A command that the requirements match is decided at least as strictly once the requirements are
laid over the policy, if and only if the policy leaves them undisturbed; without the resolution of
host executables every policy does. -/
theorem overlay_at_least_as_strict (options : MatchOptions) {required : Evaluation Path}
    (hrequired : requirements.checkWithOptions host cmd heuristics options = some required)
    (hmatch : required.isMatch = true) :
    (∃ merged, (policy.mergeOverlay requirements).checkWithOptions host cmd heuristics options =
        some merged ∧ required.decision ≤ merged.decision) ↔
      (options.resolveHostExecutables = true →
        Undisturbed policy requirements host cmd heuristics) := by
  have hmatched := requirements.matchDecisions_ne_nil_of_isMatch host cmd hrequired hmatch
  have hdecision := requirements.decision_checkWithOptions host cmd heuristics options
  rw [hrequired, if_neg hmatched] at hdecision
  have hmerged :=
    (policy.mergeOverlay requirements).decision_checkWithOptions host cmd heuristics options
  rw [← covers_mergeOverlay_iff policy requirements host cmd heuristics hmatched,
    covers_iff_max_le hdecision.symm, ← hmerged]
  simp

section Runs

def gitPushForbidden : Policy (List Text) where
  rulesByProgram := MultiMap.insert ∅ "git".toList
    ⟨⟨"git".toList, [.single "push".toList]⟩, .forbidden, none⟩

def gitPathAllowed : Policy (List Text) where
  rulesByProgram := MultiMap.insert ∅ "/usr/bin/git".toList
    ⟨⟨"/usr/bin/git".toList, []⟩, .allow, none⟩

def gitElsewhere : Policy (List Text) where
  hostExecutablesByName := AList.insert "git".toList
    [["opt".toList, "git".toList, "bin".toList, "git".toList]] ∅

def gitPush : List Text := ["/usr/bin/git".toList, "push".toList]

def gitStatusAllowed : Policy (List Text) where
  rulesByProgram := MultiMap.insert ∅ "/usr/bin/git".toList
    ⟨⟨"/usr/bin/git".toList, [.single "status".toList]⟩, .allow, none⟩

/-- The demand for `git push`, as it applies to the path of the program. -/
def gitPushMatch : RuleMatch (List Text) :=
  .prefixRuleMatch ["git".toList, "push".toList] .forbidden
    (some ["usr".toList, "bin".toList, "git".toList]) none

/-- A rule for the path that does not match the command leaves the requirements in force. -/
theorem overlay_at_least_as_strict_git_push :
    ∃ merged, (gitStatusAllowed.mergeOverlay gitPushForbidden).checkWithOptions
      (unixPaths none none) gitPush (fun _ ↦ .allow) ⟨true⟩ = some merged ∧
      Decision.forbidden ≤ merged.decision := by
  have hrequired : gitPushForbidden.checkWithOptions (unixPaths none none) gitPush
      (fun _ ↦ .allow) ⟨true⟩ = some ⟨.forbidden, [gitPushMatch]⟩ := by decide +kernel
  refine (overlay_at_least_as_strict gitStatusAllowed gitPushForbidden (unixPaths none none) gitPush
    (fun _ ↦ .allow) ⟨true⟩ hrequired rfl).mpr fun _ ↦ .inr ?_
  rw [if_neg (by decide +kernel)]
  exact .inl (by decide +kernel)

/-- A rule of the user for the path stands in front of the demand for the base name, and so does a
list of host executables that leaves the path out. -/
theorem overlay_weakened :
    ((gitPushForbidden.checkWithOptions (unixPaths none none) gitPush (fun _ ↦ .allow) ⟨true⟩).map
      fun required ↦ (required.isMatch, required.decision)) = some (true, .forbidden) ∧
    (((gitPathAllowed.mergeOverlay gitPushForbidden).checkWithOptions (unixPaths none none) gitPush
      (fun _ ↦ .allow) ⟨true⟩).map (·.decision)) = some .allow ∧
    (((gitElsewhere.mergeOverlay gitPushForbidden).checkWithOptions (unixPaths none none) gitPush
      (fun _ ↦ .allow) ⟨true⟩).map (·.decision)) = some .allow := by
  decide +kernel

end Runs

end Slopdex.ExecPolicy.Policy
