import Slopdex.Library.Covers
import Slopdex.Library.MultiMap
import Slopdex.Protocol.Types

/-!
# Rules that decide which commands may run

A policy decides a command by the strictest of the prefix rules that match. The rules of the program
as it was written come first; only if none matches, and if the caller asks for it, the program is
resolved to a path and the rules of its base name are tried. What the machine does to a path is the
parameter `HostPaths`.
-/

namespace Slopdex.ExecPolicy

open Protocol (Text)
open Library Library.KeyedMap List

/-- The decisions, from the most permissive to the strictest. -/
inductive Decision
  | allow
  | prompt
  | forbidden
  deriving DecidableEq

namespace Decision

def rank : Decision → ℕ
  | allow => 0
  | prompt => 1
  | forbidden => 2

theorem rank_injective : Function.Injective rank := by
  intro a b h
  cases a <;> cases b <;> first | rfl | cases h

instance : LinearOrder Decision := LinearOrder.lift' rank rank_injective

theorem allow_le (decision : Decision) : allow ≤ decision := Nat.zero_le _

end Decision

structure HostPaths (Path : Type) where
  /-- `AbsolutePathBuf::try_from` -/
  tryFrom : Text → Option Path
  /-- `Path::is_absolute` -/
  isAbsolute : Text → Bool
  executableLookupKey : Text → Text
  executablePathLookupKey : Path → Option Text
  /-- The name has one component, and that component is its file name. -/
  isBareName : Text → Bool

def normalizePath (components : List Text) : List Text :=
  components.foldl (fun normalized component ↦
    if component = [] ∨ component = ".".toList then normalized
    else if component = "..".toList then normalized.dropLast
    else normalized ++ [component]) []

def pathComponents (raw : Text) : List Text := raw.splitOn '/'

def unixPaths (home currentDir : Option (List Text)) : HostPaths (List Text) where
  tryFrom raw :=
    -- `maybe_expand_home_directory`
    match raw, home with
    | ['~'], some home => some (normalizePath home)
    | '~' :: '/' :: rest, some home => some (normalizePath (home ++ pathComponents rest))
    | '/' :: rest, _ => some (normalizePath (pathComponents rest))
    | _, _ => currentDir.map fun dir ↦ normalizePath (dir ++ pathComponents raw)
  isAbsolute raw := raw.head? == some '/'
  executableLookupKey raw := raw
  executablePathLookupKey path := path.getLast?
  isBareName name := !name.contains '/' && name != [] && name != ".".toList && name != "..".toList

inductive PatternToken
  | single (value : Text)
  | alts (alternatives : List Text)
  deriving DecidableEq

namespace PatternToken

def «matches» : PatternToken → Text → Bool
  | single expected, token => expected == token
  | alts alternatives, token => alternatives.any (· == token)

def alternatives : PatternToken → List Text
  | single expected => [expected]
  | alts alternatives => alternatives

end PatternToken

structure PrefixPattern where
  first : Text
  rest : List PatternToken
  deriving DecidableEq

def PrefixPattern.matchesPrefix (pattern : PrefixPattern) (cmd : List Text) : Option (List Text) :=
  let patternLength := pattern.rest.length + 1
  if cmd.length < patternLength ∨ cmd.head? ≠ some pattern.first then none
  else if (pattern.rest.zip (cmd.tail.take pattern.rest.length)).all
      fun pair ↦ pair.1.matches pair.2 then
    some (cmd.take patternLength)
  else none

inductive RuleMatch (Path : Type)
  | prefixRuleMatch (matchedPrefix : List Text) (decision : Decision)
      (resolvedProgram : Option Path) (justification : Option Text)
  | heuristicsRuleMatch (command : List Text) (decision : Decision)
  deriving DecidableEq

namespace RuleMatch

variable {Path : Type}

def decision : RuleMatch Path → Decision
  | prefixRuleMatch _ decision _ _ => decision
  | heuristicsRuleMatch _ decision => decision

def withResolvedProgram : RuleMatch Path → Path → RuleMatch Path
  | prefixRuleMatch matched decision _ justification, program =>
    prefixRuleMatch matched decision (some program) justification
  | heuristicsRuleMatch command decision, _ => heuristicsRuleMatch command decision

@[simp] theorem decision_withResolvedProgram (ruleMatch : RuleMatch Path) (prog : Path) :
    (ruleMatch.withResolvedProgram prog).decision = ruleMatch.decision := by
  cases ruleMatch <;> rfl

def isPolicyMatch : RuleMatch Path → Bool
  | prefixRuleMatch .. => true
  | heuristicsRuleMatch .. => false

end RuleMatch

structure PrefixRule where
  pattern : PrefixPattern
  decision : Decision
  justification : Option Text
  deriving DecidableEq

namespace PrefixRule

variable {Path : Type}

def program (rule : PrefixRule) : Text := rule.pattern.first

def «matches» (rule : PrefixRule) (cmd : List Text) : Option (RuleMatch Path) :=
  (rule.pattern.matchesPrefix cmd).map fun matched ↦
    .prefixRuleMatch matched rule.decision none rule.justification

end PrefixRule

inductive NetworkRuleProtocol
  | http
  | https
  | socks5Tcp
  | socks5Udp
  deriving DecidableEq

structure NetworkRule where
  host : Text
  protocol : NetworkRuleProtocol
  decision : Decision
  justification : Option Text

structure MatchOptions where
  resolveHostExecutables : Bool := false

@[ext]
structure Policy (Path : Type) where
  rulesByProgram : MultiMap Text PrefixRule := ∅
  networkRules : List NetworkRule := []
  hostExecutablesByName : Map Text (List Path) := ∅

structure Evaluation (Path : Type) where
  decision : Decision
  matchedRules : List (RuleMatch Path)
  deriving DecidableEq

namespace Evaluation

variable {Path : Type}

def isMatch (evaluation : Evaluation Path) : Bool :=
  evaluation.matchedRules.any (·.isPolicyMatch)

/-- `none` is the panic on an empty list of matches. -/
def fromMatches (matchedRules : List (RuleMatch Path)) : Option (Evaluation Path) :=
  (matchedRules.map (·.decision)).max?.map fun decision ↦ ⟨decision, matchedRules⟩

end Evaluation

open Evaluation

namespace Policy

variable {Path : Type} [DecidableEq Path] (policy : Policy Path)

def matchExactRules (cmd : List Text) : Option (List (RuleMatch Path)) :=
  cmd.head?.map fun first ↦ (policy.rulesByProgram.getVec first).filterMap (·.matches cmd)

def permitsHostExecutable (basename : Text) (program : Path) : Bool :=
  (policy.hostExecutablesByName.lookup basename).all fun paths ↦ paths.any (· == program)

variable (host : HostPaths Path)

/-- The path the first token resolves to, with the base name its rules are looked up under. -/
def resolveProgram (cmd : List Text) : Option (Path × Text) := do
  let first ← cmd.head?
  let program ← host.tryFrom first
  let basename ← host.executablePathLookupKey program
  return (program, basename)

def matchHostExecutableRules (cmd : List Text) : List (RuleMatch Path) :=
  match resolveProgram host cmd with
  | none => []
  | some (program, basename) =>
    if policy.permitsHostExecutable basename program then
      ((policy.rulesByProgram.getVec basename).filterMap (·.matches (basename :: cmd.tail))).map
        (·.withResolvedProgram program)
    else []

def matchesForCommandWithOptions (cmd : List Text)
    (heuristicsFallback : Option (List Text → Decision)) (options : MatchOptions) :
    List (RuleMatch Path) :=
  let exact := (policy.matchExactRules cmd).getD []
  let matchedRules :=
    if exact ≠ [] then exact
    else if options.resolveHostExecutables then policy.matchHostExecutableRules host cmd
    else []
  match heuristicsFallback with
  | some heuristics =>
    if matchedRules = [] then [.heuristicsRuleMatch cmd (heuristics cmd)] else matchedRules
  | none => matchedRules

def checkWithOptions (cmd : List Text)
    (heuristicsFallback : List Text → Decision) (options : MatchOptions) :
    Option (Evaluation Path) :=
  fromMatches (policy.matchesForCommandWithOptions host cmd (some heuristicsFallback) options)

def checkMultipleWithOptions
    (commands : List (List Text)) (heuristicsFallback : List Text → Decision)
    (options : MatchOptions) : Option (Evaluation Path) :=
  fromMatches (commands.flatMap fun cmd ↦
    policy.matchesForCommandWithOptions host cmd (some heuristicsFallback) options)

/-- Rules and network rules of the overlay follow those of the policy; host executables of the
overlay replace those of the same name. -/
def mergeOverlay (overlay : Policy Path) : Policy Path where
  rulesByProgram := policy.rulesByProgram.extend overlay.rulesByProgram
  networkRules := policy.networkRules ++ overlay.networkRules
  hostExecutablesByName := overlay.hostExecutablesByName ∪ policy.hostExecutablesByName

end Policy

def upsertDomain (entries : List Text) (host : Text) : List Text :=
  entries.filter (· != host) ++ [host]

def applyNetworkRule (domains : List Text × List Text) (rule : NetworkRule) :
    List Text × List Text :=
  match rule.decision with
  | .allow => (upsertDomain domains.1 rule.host, domains.2.filter (· != rule.host))
  | .forbidden => (domains.1.filter (· != rule.host), upsertDomain domains.2 rule.host)
  | .prompt => domains

def compileNetworkDomains (rules : List NetworkRule) : List Text × List Text :=
  rules.foldl applyNetworkRule ([], [])

def Policy.compiledNetworkDomains {Path : Type} (policy : Policy Path) : List Text × List Text :=
  compileNetworkDomains policy.networkRules

def ruleDecisions (rules : List PrefixRule) (cmd : List Text) : List Decision :=
  (rules.filter fun rule ↦ (rule.pattern.matchesPrefix cmd).isSome).map (·.decision)

theorem map_decision_filterMap_matches {Path : Type} (rules : List PrefixRule) (cmd : List Text) :
    (rules.filterMap fun rule ↦ (rule.matches cmd : Option (RuleMatch Path))).map (·.decision) =
      ruleDecisions rules cmd := by
  induction rules with
  | nil => rfl
  | cons rule _ ih =>
    unfold ruleDecisions at ih ⊢
    rw [filterMap_cons, filter_cons]
    cases hm : rule.pattern.matchesPrefix cmd with
    | none =>
      simp only [PrefixRule.matches, hm] at ih ⊢
      exact ih
    | some =>
      simp only [PrefixRule.matches, hm, Option.map_some, Option.isSome_some, if_true,
        map_cons] at ih ⊢
      rw [ih]
      rfl

theorem ruleDecisions_append (rules others : List PrefixRule) (cmd : List Text) :
    ruleDecisions (rules ++ others) cmd = ruleDecisions rules cmd ++ ruleDecisions others cmd := by
  simp [ruleDecisions]

namespace Policy

variable {Path : Type} [DecidableEq Path] (policy overlay : Policy Path) (host : HostPaths Path)
  (cmd : List Text)

def exactDecisions : List Decision :=
  match cmd.head? with
  | none => []
  | some first => ruleDecisions (policy.rulesByProgram.getVec first) cmd

def hostDecisions : List Decision :=
  match resolveProgram host cmd with
  | none => []
  | some (program, basename) =>
    if policy.permitsHostExecutable basename program then
      ruleDecisions (policy.rulesByProgram.getVec basename) (basename :: cmd.tail)
    else []

def matchDecisions (options : MatchOptions) : List Decision :=
  if policy.exactDecisions cmd ≠ [] then policy.exactDecisions cmd
  else if options.resolveHostExecutables then policy.hostDecisions host cmd
  else []

omit [DecidableEq Path] in
theorem map_decision_matchExactRules :
    ((policy.matchExactRules cmd).getD []).map (·.decision) = policy.exactDecisions cmd := by
  unfold matchExactRules exactDecisions
  cases cmd.head? with
  | none => rfl
  | some => exact map_decision_filterMap_matches _ cmd

theorem map_decision_matchHostExecutableRules :
    (policy.matchHostExecutableRules host cmd).map (·.decision) =
      policy.hostDecisions host cmd := by
  unfold matchHostExecutableRules hostDecisions
  cases resolveProgram host cmd with
  | none => rfl
  | some =>
    dsimp only
    split
    next =>
      rw [map_map, ← @map_decision_filterMap_matches Path]
      apply map_congr_left
      intro ruleMatch _
      exact ruleMatch.decision_withResolvedProgram _
    next => rfl

omit [DecidableEq Path] in
theorem matchExactRules_eq_nil_iff :
    (policy.matchExactRules cmd).getD [] = [] ↔ policy.exactDecisions cmd = [] := by
  rw [← map_decision_matchExactRules, map_eq_nil_iff]

theorem map_decision_matchesForCommand_none (options : MatchOptions) :
    (policy.matchesForCommandWithOptions host cmd none options).map (·.decision) =
      policy.matchDecisions host cmd options := by
  unfold matchesForCommandWithOptions matchDecisions
  simp only [ne_eq, matchExactRules_eq_nil_iff]
  split_ifs
  · exact policy.map_decision_matchHostExecutableRules host cmd
  · rfl
  · exact policy.map_decision_matchExactRules cmd

theorem map_decision_matchesForCommand (heuristics : List Text → Decision)
    (options : MatchOptions) :
    (policy.matchesForCommandWithOptions host cmd (some heuristics) options).map (·.decision) =
      if policy.matchDecisions host cmd options = [] then [heuristics cmd]
      else policy.matchDecisions host cmd options := by
  have hr := policy.map_decision_matchesForCommand_none host cmd options
  have hs : policy.matchesForCommandWithOptions host cmd (some heuristics) options =
      if policy.matchesForCommandWithOptions host cmd none options = [] then
        [.heuristicsRuleMatch cmd (heuristics cmd)]
      else policy.matchesForCommandWithOptions host cmd none options := rfl
  rw [hs]
  have hn : policy.matchesForCommandWithOptions host cmd none options = [] ↔
      policy.matchDecisions host cmd options = [] := by
    rw [← hr, map_eq_nil_iff]
  by_cases he : policy.matchDecisions host cmd options = []
  · rw [if_pos (hn.mpr he), if_pos he]
    rfl
  · rw [if_neg (mt hn.mp he), if_neg he]
    exact hr

theorem decision_checkWithOptions (heuristics : List Text → Decision) (opts : MatchOptions) :
    (policy.checkWithOptions host cmd heuristics opts).map (·.decision) =
      (if policy.matchDecisions host cmd opts = [] then [heuristics cmd]
        else policy.matchDecisions host cmd opts).max? := by
  rw [checkWithOptions, fromMatches, map_decision_matchesForCommand, Option.map_map]
  exact Option.map_id'

theorem matchDecisions_ne_nil_of_isMatch {heuristics : List Text → Decision}
    {options : MatchOptions} {evaluation : Evaluation Path}
    (hc : policy.checkWithOptions host cmd heuristics options = some evaluation)
    (hm : evaluation.isMatch = true) : policy.matchDecisions host cmd options ≠ [] := by
  intro he
  have hr := policy.map_decision_matchesForCommand_none host cmd options
  rw [he, map_eq_nil_iff] at hr
  have hs : policy.matchesForCommandWithOptions host cmd (some heuristics) options =
      if policy.matchesForCommandWithOptions host cmd none options = [] then
        [.heuristicsRuleMatch cmd (heuristics cmd)]
      else policy.matchesForCommandWithOptions host cmd none options := rfl
  rw [checkWithOptions, hs, if_pos hr] at hc
  obtain ⟨_, _, rfl⟩ := hc
  simp [isMatch, RuleMatch.isPolicyMatch] at hm

omit [DecidableEq Path] in
@[simp] theorem getVec_mergeOverlay (program : Text) :
    (policy.mergeOverlay overlay).rulesByProgram.getVec program =
      policy.rulesByProgram.getVec program ++ overlay.rulesByProgram.getVec program :=
  MultiMap.getVec_extend _ _ _

omit [DecidableEq Path] in
theorem lookup_mergeOverlay (name : Text) :
    (policy.mergeOverlay overlay).hostExecutablesByName.lookup name =
      (overlay.hostExecutablesByName.lookup name).or
        (policy.hostExecutablesByName.lookup name) := by
  unfold mergeOverlay
  by_cases hn : name ∈ overlay.hostExecutablesByName
  · rw [AList.lookup_union_left hn]
    obtain ⟨_, hp⟩ := Option.isSome_iff_exists.mp (AList.lookup_isSome.mpr hn)
    rw [hp, Option.some_or]
  · rw [AList.lookup_union_right hn, AList.lookup_eq_none.mpr hn, Option.none_or]

end Policy

end Slopdex.ExecPolicy
