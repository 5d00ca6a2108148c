import Slopdex.ExecPolicy.RulesFile
import Slopdex.Library.Transition

/-!
# The policy manager keeps its rules in memory and in a file

An amendment, or a network rule, is appended to the rules file and then added to the live policy.
The file drops a line it already has, the live policy an amendment that it allows already, and a
live network rule ends up behind the requirements. `Retained` is the condition on an update under
which both sides decide the same afterwards.
-/

namespace Slopdex.ExecPolicy

open Protocol (Text)
open Library Library.Transition List Covers

variable {Path : Type}

namespace Policy

def addPrefixRule (policy : Policy Path) (command : List Text) (decision : Decision) :
    Except Error (Policy Path) :=
  match command with
  | [] => .error (.invalidPattern "prefix cannot be empty".toList)
  | first :: rest =>
    .ok { policy with
      rulesByProgram :=
        policy.rulesByProgram.insert first ⟨⟨first, rest.map .single⟩, decision, none⟩ }

def addNetworkRule (policy : Policy Path) (hostName : Text) (protocol : NetworkRuleProtocol)
    (decision : Decision) (justification : Option Text) : Except Error (Policy Path) := do
  let hostName ← normalizeNetworkRuleHost hostName
  let justification ← checkJustification justification
  let rule : NetworkRule := ⟨hostName, protocol, decision, justification⟩
  return { policy with networkRules := policy.networkRules ++ [rule] }

end Policy

structure ManagerState (Path : Type) where
  file : RulesFile
  policy : Policy Path

inductive Update
  | amendment (command : List Text)
  | networkRule (hostName : Text) (protocol : NetworkRuleProtocol) (decision : Decision)
      (justification : Option Text)

inductive ExecPolicyUpdateError
  | appendRule (source : AmendError)
  | addRule (source : Error)

section Updates

variable [DecidableEq Path] (host : HostPaths Path)

def alreadyAllowed (policy : Policy Path) (command : List Text) : Bool :=
  (policy.checkMultipleWithOptions host [command] (fun _ ↦ .forbidden) ⟨true⟩).any fun existing ↦
    existing.decision == .allow &&
      existing.matchedRules.any fun ruleMatch ↦
        ruleMatch.isPolicyMatch && ruleMatch.decision == .allow

def appendAmendmentAndUpdate (s : ManagerState Path) (command : List Text) :
    Except ExecPolicyUpdateError (ManagerState Path) := do
  let file ← (blockingAppendAllowPrefixRule s.file command).mapError .appendRule
  if alreadyAllowed host s.policy command then return { s with file }
  let policy ← (s.policy.addPrefixRule command .allow).mapError .addRule
  return ⟨file, policy⟩

omit [DecidableEq Path] in
def appendNetworkRuleAndUpdate (s : ManagerState Path) (hostName : Text)
    (protocol : NetworkRuleProtocol) (decision : Decision) (justification : Option Text) :
    Except ExecPolicyUpdateError (ManagerState Path) := do
  let file ← (blockingAppendNetworkRule s.file hostName protocol decision
    justification).mapError .appendRule
  let policy ← (s.policy.addNetworkRule hostName protocol decision justification).mapError .addRule
  return ⟨file, policy⟩

def manager (file : RulesFile) (policy : Policy Path) : System (ManagerState Path) Update where
  init := ⟨file, policy⟩
  step s
    | .amendment command => (appendAmendmentAndUpdate host s command).toOption
    | .networkRule hostName protocol decision justification =>
      (appendNetworkRuleAndUpdate s hostName protocol decision justification).toOption

end Updates

/-- The rules of one policy bound those of the other, program by program and command by command. -/
structure DecidesAlike (policy other : Policy Path) : Prop where
  covers : ∀ program cmd, Covers (ruleDecisions (policy.rulesByProgram.getVec program) cmd)
    (ruleDecisions (other.rulesByProgram.getVec program) cmd)
  covered : ∀ program cmd, Covers (ruleDecisions (other.rulesByProgram.getVec program) cmd)
    (ruleDecisions (policy.rulesByProgram.getVec program) cmd)
  hostExecutables : policy.hostExecutablesByName = other.hostExecutablesByName

namespace DecidesAlike

variable {policy other : Policy Path}

theorem refl (policy : Policy Path) : DecidesAlike policy policy where
  covers _ _ := Covers.refl _
  covered _ _ := Covers.refl _
  hostExecutables := rfl

section

variable (h : DecidesAlike policy other)
include h

theorem symm : DecidesAlike other policy where
  covers := h.covered
  covered := h.covers
  hostExecutables := h.hostExecutables.symm

theorem congr {policy' other' : Policy Path} (hr : policy'.rulesByProgram = policy.rulesByProgram)
    (hh : policy'.hostExecutablesByName = policy.hostExecutablesByName)
    (hr' : other'.rulesByProgram = other.rulesByProgram)
    (hh' : other'.hostExecutablesByName = other.hostExecutablesByName) :
    DecidesAlike policy' other' where
  covers := hr ▸ hr' ▸ h.covers
  covered := hr ▸ hr' ▸ h.covered
  hostExecutables := by rw [hh, hh', h.hostExecutables]

theorem covers_exactDecisions (cmd : List Text) :
    Covers (policy.exactDecisions cmd) (other.exactDecisions cmd) := by
  unfold Policy.exactDecisions
  cases cmd.head? with
  | none => exact Covers.refl []
  | some first => exact h.covers first cmd

/-- The lookup stops at the same stage in both policies. -/
theorem exactDecisions_eq_nil_iff (cmd : List Text) :
    policy.exactDecisions cmd = [] ↔ other.exactDecisions cmd = [] := by
  constructor
  · intro hn
    have hc := h.covers_exactDecisions cmd
    rw [hn] at hc
    exact hc.eq_nil
  · intro hn
    have hc := h.symm.covers_exactDecisions cmd
    rw [hn] at hc
    exact hc.eq_nil

end

variable [DecidableEq Path] (host : HostPaths Path)

section

variable (h : DecidesAlike policy other)
include h

theorem covers_hostDecisions (cmd : List Text) :
    Covers (policy.hostDecisions host cmd) (other.hostDecisions host cmd) := by
  unfold Policy.hostDecisions Policy.permitsHostExecutable
  rw [h.hostExecutables]
  cases Policy.resolveProgram host cmd with
  | none => exact Covers.refl []
  | some =>
    dsimp only
    split
    next => exact h.covers _ _
    next => exact Covers.refl []

theorem covers_matchDecisions (cmd : List Text) (opts : MatchOptions) :
    Covers (policy.matchDecisions host cmd opts) (other.matchDecisions host cmd opts) := by
  unfold Policy.matchDecisions
  simp only [ne_eq, h.exactDecisions_eq_nil_iff cmd]
  split_ifs
  · exact h.covers_hostDecisions host cmd
  · exact Covers.refl []
  · exact h.covers_exactDecisions cmd

theorem decision_checkWithOptions (cmd : List Text)
    (he : List Text → Decision) (opts : MatchOptions) :
    (policy.checkWithOptions host cmd he opts).map (·.decision) =
      (other.checkWithOptions host cmd he opts).map (·.decision) := by
  have hco := h.covers_matchDecisions host cmd opts
  have hc := h.symm.covers_matchDecisions host cmd opts
  rw [Policy.decision_checkWithOptions, Policy.decision_checkWithOptions]
  by_cases hn : other.matchDecisions host cmd opts = []
  · rw [hn] at hc
    rw [hc.eq_nil, hn]
  · have hp : policy.matchDecisions host cmd opts ≠ [] := by
      intro hem
      rw [hem] at hco
      exact hn hco.eq_nil
    rw [if_neg hp, if_neg hn]
    exact hco.max_eq hc

end

end DecidesAlike

theorem mem_ruleDecisions {rules : List PrefixRule} {cmd : List Text} {decision : Decision} :
    decision ∈ ruleDecisions rules cmd ↔
      ∃ rule ∈ rules, (rule.pattern.matchesPrefix cmd).isSome = true ∧ rule.decision = decision := by
  simp [ruleDecisions, and_assoc]

theorem isSome_matchesPrefix_iff (pat : PrefixPattern) (cmd : List Text) :
    (pat.matchesPrefix cmd).isSome = true ↔
      ∃ args, cmd = pat.first :: args ∧ pat.rest.length ≤ args.length ∧
        (pat.rest.zip (args.take pat.rest.length)).all fun pair ↦ pair.1.matches pair.2 := by
  have hso : (pat.matchesPrefix cmd).isSome = true ↔
      ¬(cmd.length < pat.rest.length + 1 ∨ cmd.head? ≠ some pat.first) ∧
        (pat.rest.zip (cmd.tail.take pat.rest.length)).all
          (fun pair ↦ pair.1.matches pair.2) = true := by
    unfold PrefixPattern.matchesPrefix
    dsimp only
    split_ifs with hs ha
    · exact ⟨nofun, fun h ↦ absurd hs h.1⟩
    · exact ⟨fun _ ↦ ⟨hs, ha⟩, fun _ ↦ rfl⟩
    · exact ⟨nofun, fun h ↦ absurd h.2 ha⟩
  rw [hso, not_or, not_lt, not_not]
  constructor
  · rintro ⟨⟨hl, hh⟩, ha⟩
    obtain ⟨args, rfl⟩ := head?_eq_some_iff.mp hh
    exact ⟨args, rfl, Nat.le_of_succ_le_succ hl, ha⟩
  · rintro ⟨_, rfl, hl, ha⟩
    exact ⟨⟨Nat.succ_le_succ hl, rfl⟩, ha⟩

theorem isSome_matchesPrefix_of_prefix {pat : PrefixPattern} {cmd longer : List Text}
    (hm : (pat.matchesPrefix cmd).isSome = true) (hp : cmd <+: longer) :
    (pat.matchesPrefix longer).isSome = true := by
  rw [isSome_matchesPrefix_iff] at hm ⊢
  obtain ⟨args, rfl, hl, ha⟩ := hm
  obtain ⟨more, rfl⟩ := hp
  refine ⟨args ++ more, rfl, ?_, ?_⟩
  · rw [length_append]
    omega
  · rw [take_append_of_le_length hl]
    exact ha

theorem take_eq_of_all_single {rest args : List Text} (hl : rest.length ≤ args.length)
    (ha : ((rest.map PatternToken.single).zip (args.take rest.length)).all
      (fun pair ↦ pair.1.matches pair.2) = true) : args.take rest.length = rest := by
  induction rest generalizing args with
  | nil => rfl
  | cons _ _ ih =>
    cases args with
    | nil => simp at hl
    | cons =>
      simp only [length_cons, take_succ_cons, map_cons, zip_cons_cons,
        all_cons, Bool.and_eq_true, PatternToken.matches, beq_iff_eq] at hl ha ⊢
      rw [ih (by omega) ha.2, ha.1]

theorem prefix_of_allowRule_matches {first : Text} {rest cmd : List Text}
    (hm : ((allowRule first rest).pattern.matchesPrefix cmd).isSome = true) :
    first :: rest <+: cmd := by
  rw [isSome_matchesPrefix_iff] at hm
  obtain ⟨_, rfl, hl, ha⟩ := hm
  simp only [allowRule, length_map] at hl ha
  have ht := take_eq_of_all_single hl ha
  refine cons_prefix_cons.mpr ⟨rfl, ?_⟩
  rw [← ht]
  exact take_prefix _ _

structure Gains (rule : PrefixRule) (policy extended : Policy Path) : Prop where
  keeps : ∀ program, policy.rulesByProgram.getVec program ⊆ extended.rulesByProgram.getVec program
  only : ∀ program, ∀ other ∈ extended.rulesByProgram.getVec program,
    other ∈ policy.rulesByProgram.getVec program ∨ program = rule.program ∧ other = rule
  bounds : ∀ cmd, Covers (ruleDecisions (extended.rulesByProgram.getVec rule.program) cmd)
    (ruleDecisions [rule] cmd)
  hostExecutables : extended.hostExecutablesByName = policy.hostExecutablesByName

namespace Gains

variable {rule : PrefixRule} {policy extended other otherExtended : Policy Path}

theorem covers_ruleDecisions (h : Gains rule policy extended)
    (h' : Gains rule other otherExtended) (hc : ∀ prog cmd,
      Covers (ruleDecisions (policy.rulesByProgram.getVec prog) cmd)
        (ruleDecisions (other.rulesByProgram.getVec prog) cmd)) (prog : Text)
    (cmd : List Text) :
    Covers (ruleDecisions (extended.rulesByProgram.getVec prog) cmd)
      (ruleDecisions (otherExtended.rulesByProgram.getVec prog) cmd) := by
  intro decision hd
  obtain ⟨found, hf, hm, hde⟩ := mem_ruleDecisions.mp hd
  rcases h'.only prog found hf with hold | ⟨rfl, rfl⟩
  · obtain ⟨bound, hb, hle⟩ :=
      hc prog cmd decision (mem_ruleDecisions.mpr ⟨found, hold, hm, hde⟩)
    obtain ⟨kept, hkep, hk, hke⟩ := mem_ruleDecisions.mp hb
    exact ⟨bound, mem_ruleDecisions.mpr ⟨kept, h.keeps prog hkep, hk, hke⟩, hle⟩
  · exact h.bounds cmd decision
      (mem_ruleDecisions.mpr ⟨found, mem_singleton_self found, hm, hde⟩)

theorem decidesAlike (h : Gains rule policy extended) (h' : Gains rule other otherExtended)
    (ha : DecidesAlike policy other) : DecidesAlike extended otherExtended where
  covers := h.covers_ruleDecisions h' ha.covers
  covered := h'.covers_ruleDecisions h ha.covered
  hostExecutables := by
    rw [h.hostExecutables, h'.hostExecutables, ha.hostExecutables]

theorem of_mem (hr : rule ∈ policy.rulesByProgram.getVec rule.program) :
    Gains rule policy policy where
  keeps _ := Subset.refl _
  only _ _ ho := .inl ho
  bounds cmd := by
    apply of_subset
    intro _ hd
    obtain ⟨found, hf, hm⟩ := mem_ruleDecisions.mp hd
    rw [mem_singleton] at hf
    subst hf
    exact mem_ruleDecisions.mpr ⟨found, hr, hm⟩
  hostExecutables := rfl

theorem of_exactDecisions {first : Text} {rest : List Text}
    (he : policy.exactDecisions (first :: rest) ≠ []) :
    Gains (allowRule first rest) policy policy where
  keeps _ := Subset.refl _
  only _ _ ho := .inl ho
  bounds cmd := by
    intro _ hd
    obtain ⟨_, hf, hm, hde⟩ := mem_ruleDecisions.mp hd
    rw [mem_singleton] at hf
    subst hf
    obtain ⟨bound, hb⟩ := exists_mem_of_ne_nil _ he
    obtain ⟨kept, hkep, hk, hke⟩ := mem_ruleDecisions.mp hb
    have hl := isSome_matchesPrefix_of_prefix hk (prefix_of_allowRule_matches hm)
    refine ⟨bound, mem_ruleDecisions.mpr ⟨kept, hkep, hl, hke⟩, ?_⟩
    rw [← hde]
    exact Decision.allow_le bound
  hostExecutables := rfl

theorem of_insert (hg : ∀ program, ∃ before after,
      policy.rulesByProgram.getVec program = before ++ after ∧
        extended.rulesByProgram.getVec program =
          before ++ (if program = rule.program then [rule] else []) ++ after)
    (hh : extended.hostExecutablesByName = policy.hostExecutablesByName) :
    Gains rule policy extended where
  keeps program := by
    obtain ⟨_, _, hb, ha⟩ := hg program
    rw [hb, ha]
    apply append_subset.mpr
    constructor
    · exact fun _ hm ↦ mem_append_left _ (mem_append_left _ hm)
    · exact subset_append_right _ _
  only program other ho := by
    obtain ⟨_, _, hb, ha⟩ := hg program
    rw [ha, mem_append, mem_append] at ho
    rw [hb, mem_append]
    rcases ho with (ho | ho) | ho
    · exact .inl (.inl ho)
    · split at ho
      next hp => exact .inr ⟨hp, mem_singleton.mp ho⟩
      next => cases ho
    · exact .inl (.inr ho)
  bounds cmd := by
    obtain ⟨_, _, _, ha⟩ := hg rule.program
    rw [ha, if_pos rfl, ruleDecisions_append, ruleDecisions_append]
    exact of_subset fun _ hd ↦
      mem_append_left _ (mem_append_right _ hd)
  hostExecutables := hh

end Gains

end Slopdex.ExecPolicy
