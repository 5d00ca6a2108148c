import Slopdex.ExecPolicy.Policy
import Slopdex.Library.Lines

/-!
# Rules files

A rules file is a script whose built-in functions add rules to a policy. A line is kept with its
text, which decides whether a line is appended again, and with the calls that evaluating the script
makes by the end of that line. The lines that the program appends make exactly one call.
-/

namespace Slopdex.ExecPolicy

open Protocol (Text isWhitespace trim)
open Library Library.KeyedMap List NetworkRuleProtocol

inductive Error
  | invalidDecision (raw : Text)
  | invalidPattern (reason : Text)
  | invalidExample (reason : Text)
  | invalidRule (reason : Text)
  | exampleDidNotMatch (rules : List PrefixRule) (examples : List (List Text))
  | exampleDidMatch (rule : Decision) (command : List Text)
  deriving DecidableEq

variable {Path : Type}

def Decision.parse (raw : Text) : Except Error Decision :=
  if raw = "allow".toList then .ok .allow
  else if raw = "prompt".toList then .ok .prompt
  else if raw = "forbidden".toList then .ok .forbidden
  else .error (.invalidDecision raw)

def parseNetworkRuleDecision (raw : Text) : Except Error Decision :=
  if raw = "deny".toList then .ok .forbidden else Decision.parse raw

def NetworkRuleProtocol.parse (raw : Text) : Except Error NetworkRuleProtocol :=
  if raw = "http".toList then .ok .http
  else if raw ∈ ["https".toList, "https_connect".toList, "http-connect".toList] then .ok .https
  else if raw = "socks5_tcp".toList then .ok .socks5Tcp
  else if raw = "socks5_udp".toList then .ok .socks5Udp
  else .error (.invalidRule
    ("network_rule protocol must be one of http, https, socks5_tcp, socks5_udp (got ".toList ++
      raw ++ ")".toList))

def NetworkRuleProtocol.asPolicyString : NetworkRuleProtocol → Text
  | http => "http".toList
  | https => "https".toList
  | socks5Tcp => "socks5_tcp".toList
  | socks5Udp => "socks5_udp".toList

/-- `str::split_once` -/
def splitOnce (separator : Char) (text : Text) : Option (Text × Text) :=
  if text.contains separator then
    some (text.takeWhile (· != separator), (text.dropWhile (· != separator)).tail)
  else none

/-- `str::rsplit_once` -/
def rsplitOnce (separator : Char) (text : Text) : Option (Text × Text) :=
  (splitOnce separator text.reverse).map fun parts ↦ (parts.2.reverse, parts.1.reverse)

def isPort (text : Text) : Bool := text != [] && text.all Char.isDigit

def stripPort (raw host : Text) : Except Error Text :=
  match host with
  | '[' :: stripped =>
    match splitOnce ']' stripped with
    | none => .error (.invalidRule
        "network_rule host has an invalid bracketed IPv6 literal".toList)
    | some (inside, []) => .ok inside
    | some (inside, ':' :: port) =>
      if isPort port then .ok inside
      else .error (.invalidRule
        ("network_rule host contains an unsupported suffix: ".toList ++ raw))
    | some (_, _) => .error (.invalidRule
        ("network_rule host contains an unsupported suffix: ".toList ++ raw))
  | _ =>
    if host.count ':' = 1 then
      match rsplitOnce ':' host with
      | some (candidate, port) =>
        if candidate ≠ [] ∧ isPort port then .ok candidate else .ok host
      | none => .ok host
    else .ok host

def normalizeNetworkRuleHost (raw : Text) : Except Error Text := do
  let host := trim raw
  if host = [] then throw (.invalidRule "network_rule host cannot be empty".toList)
  if host.any fun c ↦ c == '/' || c == '?' || c == '#' then
    throw (.invalidRule
      "network_rule host must be a hostname or IP literal (without scheme or path)".toList)
  let host ← stripPort raw host
  let normalized := (trim (host.rdropWhile (· == '.'))).map Char.toLower
  if normalized = [] then throw (.invalidRule "network_rule host cannot be empty".toList)
  if normalized.contains '*' then
    throw (.invalidRule
      "network_rule host must be a specific host; wildcards are not allowed".toList)
  if normalized.any isWhitespace then
    throw (.invalidRule "network_rule host cannot contain whitespace".toList)
  return normalized

def checkJustification (justification : Option Text) : Except Error (Option Text) :=
  if justification.any fun raw ↦ trim raw == [] then
    .error (.invalidRule "justification cannot be empty".toList)
  else .ok justification

/-! ## The built-in functions -/

inductive PatternValue
  | text (value : Text)
  | list (values : List Text)

inductive Call
  | prefixRule (pattern : List PatternValue) (decision : Option Text)
      (matched notMatched : List (List Text)) (justification : Option Text)
  | networkRule (host protocol decision : Text) (justification : Option Text)
  | hostExecutable (name : Text) (paths : List Text)

def parsePatternToken : PatternValue → Except Error PatternToken
  | .text value => .ok (.single value)
  | .list [] => .error (.invalidPattern "pattern alternatives cannot be empty".toList)
  | .list [single] => .ok (.single single)
  | .list tokens => .ok (.alts tokens)

def parsePattern (pattern : List PatternValue) :
    Except Error (PatternToken × List PatternToken) := do
  match ← pattern.mapM parsePatternToken with
  | [] => throw (.invalidPattern "pattern cannot be empty".toList)
  | first :: rest => return (first, rest)

def parseListExample (tokens : List Text) : Except Error (List Text) :=
  if tokens = [] then .error (.invalidExample "example cannot be an empty list".toList)
  else .ok tokens

structure PendingExampleValidation where
  rules : List PrefixRule
  matched : List (List Text) := []
  notMatched : List (List Text) := []

/-- The policy under construction, with the examples that are checked at the end of the file. -/
@[ext]
structure PolicyBuilder (Path : Type) extends Policy Path where
  pendingExampleValidations : List PendingExampleValidation := []

namespace PolicyBuilder

def addRules (builder : PolicyBuilder Path) (rules : List PrefixRule) : PolicyBuilder Path :=
  { builder with
    rulesByProgram := rules.foldl (fun acc rule ↦ acc.insert rule.program rule)
      builder.rulesByProgram }

variable [DecidableEq Path] (host : HostPaths Path) (builder : PolicyBuilder Path)

def prefixRule (pattern : List PatternValue) (decision : Option Text)
    (matched notMatched : List (List Text)) (justification : Option Text) :
    Except Error (PolicyBuilder Path) := do
  let decision ← match decision with
    | some raw => Decision.parse raw
    | none => pure .allow
  let justification ← checkJustification justification
  let (first, rest) ← parsePattern pattern
  let matched ← matched.mapM parseListExample
  let notMatched ← notMatched.mapM parseListExample
  let rules := first.alternatives.map fun head ↦ ⟨⟨head, rest⟩, decision, justification⟩
  let pending := builder.pendingExampleValidations ++ [⟨rules, matched, notMatched⟩]
  return { builder.addRules rules with pendingExampleValidations := pending }

def networkRule (hostName protocol decision : Text) (justification : Option Text) :
    Except Error (PolicyBuilder Path) := do
  let protocol ← parse protocol
  let decision ← parseNetworkRuleDecision decision
  let justification ← checkJustification justification
  let hostName ← normalizeNetworkRuleHost hostName
  let rule : NetworkRule := ⟨hostName, protocol, decision, justification⟩
  return { builder with networkRules := builder.networkRules ++ [rule] }

def parseHostExecutablePath (name raw : Text) : Except Error Path := do
  if !host.isAbsolute raw then
    throw (.invalidRule ("host_executable paths must be absolute (got ".toList ++ raw ++ ")".toList))
  let wrongName : Error := .invalidRule
    ("host_executable path `".toList ++ raw ++ "` must have basename `".toList ++ name ++ "`".toList)
  match host.tryFrom raw with
  | none => throw (.invalidRule ("invalid absolute path `".toList ++ raw ++ "`".toList))
  | some path =>
    if host.executablePathLookupKey path = some (host.executableLookupKey name) then return path
    else throw wrongName

def hostExecutable (name : Text) (paths : List Text) : Except Error (PolicyBuilder Path) := do
  if name = [] then throw (.invalidRule "host_executable name cannot be empty".toList)
  if !host.isBareName name then
    throw (.invalidRule
      ("host_executable name must be a bare executable name (got ".toList ++ name ++ ")".toList))
  let parsed ← paths.mapM (parseHostExecutablePath host name)
  -- the first of several equal paths stays where it is
  let distinct := parsed.foldl (fun acc path ↦ if path ∈ acc then acc else acc ++ [path]) []
  return { builder with
    hostExecutablesByName :=
      builder.hostExecutablesByName.insert (host.executableLookupKey name) distinct }

def evalCall : Call → Except Error (PolicyBuilder Path)
  | .prefixRule pattern decision matched notMatched justification =>
    builder.prefixRule pattern decision matched notMatched justification
  | .networkRule hostName protocol decision justification =>
    builder.networkRule hostName protocol decision justification
  | .hostExecutable name paths => builder.hostExecutable host name paths

def validateExamples (hostExecutables : Map Text (List Path))
    (validation : PendingExampleValidation) : Except Error Unit := do
  let policy : Policy Path :=
    { rulesByProgram := validation.rules.foldl (fun acc rule ↦ acc.insert rule.program rule) ∅
      hostExecutablesByName := hostExecutables }
  let matchesOf := fun command ↦ policy.matchesForCommandWithOptions host command none ⟨true⟩
  for command in validation.notMatched do
    match matchesOf command with
    | rule :: _ => throw (.exampleDidMatch rule.decision command)
    | [] => pure ()
  let unmatched := validation.matched.filter fun command ↦ (matchesOf command).isEmpty
  if unmatched ≠ [] then throw (.exampleDidNotMatch validation.rules unmatched)

end PolicyBuilder

open PolicyBuilder

structure SourceLine where
  text : Text
  calls : List Call

abbrev RulesFile := List SourceLine

section Parse

variable [DecidableEq Path] (host : HostPaths Path)

def evalCalls (builder : PolicyBuilder Path) (calls : List Call) :
    Except Error (PolicyBuilder Path) :=
  calls.foldlM (fun builder call ↦ builder.evalCall host call) builder

def validatePendingExamples (builder : PolicyBuilder Path) : Except Error Unit :=
  forM builder.pendingExampleValidations (validateExamples host builder.hostExecutablesByName)

def parseRules (file : RulesFile) : Except Error (PolicyBuilder Path) := do
  let builder ← evalCalls host {} (file.flatMap (·.calls))
  validatePendingExamples host builder
  return builder

/-- `load_exec_policy` for one rules file -/
def loadExecPolicy (requirements : Option (Policy Path)) (file : RulesFile) :
    Except Error (Policy Path) := do
  let builder ← parseRules host file
  match requirements with
  | none => return builder.toPolicy
  | some requirements => return builder.toPolicy.mergeOverlay requirements

end Parse

/-- `serde_json::to_string` of a string -/
def jsonString (text : Text) : Text :=
  let hexDigit (n : ℕ) : Char := if n < 10 then Char.ofNat (48 + n) else Char.ofNat (87 + n)
  let escape (c : Char) : Text :=
    if c = '"' then ['\\', '"']
    else if c = '\\' then ['\\', '\\']
    else if c.toNat = 8 then ['\\', 'b']
    else if c.toNat = 9 then ['\\', 't']
    else if c.toNat = 10 then ['\\', 'n']
    else if c.toNat = 12 then ['\\', 'f']
    else if c.toNat = 13 then ['\\', 'r']
    else if c.toNat < 32 then
      "\\u00".toList ++ [hexDigit (c.toNat / 16), hexDigit (c.toNat % 16)]
    else [c]
  ['"'] ++ text.flatMap escape ++ ['"']

def allowPrefixLine (command : List Text) : SourceLine where
  text := "prefix_rule(pattern=[".toList ++ ", ".toList.intercalate (command.map jsonString) ++
    "], decision=\"allow\")".toList
  calls := [.prefixRule (command.map .text) (some "allow".toList) [] [] none]

def networkDecisionString : Decision → Text
  | .allow => "allow".toList
  | .prompt => "prompt".toList
  | .forbidden => "deny".toList

def networkRuleLine (hostName : Text) (protocol : NetworkRuleProtocol) (decision : Decision)
    (justification : Option Text) : SourceLine where
  text :=
    let args := ["host=".toList ++ jsonString hostName,
      "protocol=".toList ++ jsonString protocol.asPolicyString,
      "decision=".toList ++ jsonString (networkDecisionString decision)] ++
      (justification.map fun raw ↦ "justification=".toList ++ jsonString raw).toList
    "network_rule(".toList ++ ", ".toList.intercalate args ++ ")".toList
  calls := [.networkRule hostName protocol.asPolicyString (networkDecisionString decision)
    justification]

variable (file : RulesFile)

def hasLine (line : SourceLine) : Bool :=
  file.any fun existing ↦ existing.text == line.text

/-- `append_locked_line`: a line that is there already is not written again. -/
def appendLockedLine (line : SourceLine) : RulesFile :=
  if hasLine file line then file else file ++ [line]

theorem appendLockedLine_of_hasLine {file : RulesFile} {line : SourceLine}
    (h : hasLine file line = true) : appendLockedLine file line = file := if_pos h

theorem appendLockedLine_of_not_hasLine {file : RulesFile} {line : SourceLine}
    (h : ¬hasLine file line = true) : appendLockedLine file line = file ++ [line] := if_neg h

inductive AmendError
  | emptyPrefix
  | invalidNetworkRule (cause : Error)

def blockingAppendAllowPrefixRule (command : List Text) :
    Except AmendError RulesFile :=
  if command = [] then .error .emptyPrefix
  else .ok (appendLockedLine file (allowPrefixLine command))

def blockingAppendNetworkRule (hostName : Text)
    (protocol : NetworkRuleProtocol) (decision : Decision) (justification : Option Text) :
    Except AmendError RulesFile :=
  match normalizeNetworkRuleHost hostName with
  | .error cause => .error (.invalidNetworkRule cause)
  | .ok normalized =>
    match checkJustification justification with
    | .error cause => .error (.invalidNetworkRule cause)
    | .ok justification =>
      .ok (appendLockedLine file (networkRuleLine normalized protocol decision justification))

def allowRule (first : Text) (rest : List Text) : PrefixRule :=
  ⟨⟨first, rest.map .single⟩, .allow, none⟩

theorem mapM_parsePatternToken_text (cmd : List Text) :
    (cmd.map PatternValue.text).mapM parsePatternToken = .ok (cmd.map .single) := by
  induction cmd with
  | nil => rfl
  | cons _ _ ih =>
    rw [map_cons, mapM_cons, ih]
    rfl

section Append

variable [DecidableEq Path] (host : HostPaths Path) {builder extended : PolicyBuilder Path}

theorem evalCall_allowPrefix (builder : PolicyBuilder Path) (first : Text) (rest : List Text) :
    builder.evalCall host
        (.prefixRule ((first :: rest).map .text) (some "allow".toList) [] [] none) =
      .ok { builder.addRules [allowRule first rest] with
        pendingExampleValidations :=
          builder.pendingExampleValidations ++ [⟨[allowRule first rest], [], []⟩] } := by
  have hpat : parsePattern ((first :: rest).map .text) = .ok (.single first, rest.map .single) := by
    rw [parsePattern, mapM_parsePatternToken_text]
    rfl
  rw [evalCall, prefixRule, hpat]
  rfl

theorem parse_asPolicyString (protocol : NetworkRuleProtocol) :
    parse protocol.asPolicyString = .ok protocol := by
  cases protocol <;> decide

theorem parseNetworkRuleDecision_networkDecisionString (decision : Decision) :
    parseNetworkRuleDecision (networkDecisionString decision) = .ok decision := by
  cases decision <;> decide

theorem evalCall_networkRule (builder : PolicyBuilder Path) {hostName : Text}
    (hh : normalizeNetworkRuleHost hostName = .ok hostName) (proto : NetworkRuleProtocol)
    (dec : Decision) {justification : Option Text}
    (hj : checkJustification justification = .ok justification) :
    builder.evalCall host (.networkRule hostName proto.asPolicyString
        (networkDecisionString dec) justification) =
      .ok { builder with
        networkRules := builder.networkRules ++ [⟨hostName, proto, dec, justification⟩] } := by
  rw [evalCall, networkRule, parse_asPolicyString,
    parseNetworkRuleDecision_networkDecisionString, hj, hh]
  rfl

theorem validateExamples_of_no_examples (hostExecutables : Map Text (List Path))
    (rules : List PrefixRule) :
    forM (rules.map fun rule ↦ (⟨[rule], [], []⟩ : PendingExampleValidation))
      (validateExamples host hostExecutables) = .ok () := by
  induction rules with
  | nil => rfl
  | cons _ _ ih =>
    rw [map_cons]
    exact ih

theorem parseRules_eq_ok_iff {file : RulesFile} :
    parseRules host file = .ok builder ↔
      evalCalls host {} (file.flatMap (·.calls)) = .ok builder ∧
        validatePendingExamples host builder = .ok () := by
  unfold parseRules
  cases he : evalCalls host {} (file.flatMap (·.calls)) with
  | error => simp [bind, Except.bind]
  | ok evaluated =>
    cases hv : validatePendingExamples host evaluated with
    | error =>
      simp only [bind, Except.bind, hv, reduceCtorEq, Except.ok.injEq, false_iff, not_and]
      rintro rfl
      rw [hv]
      exact nofun
    | ok =>
      simp only [bind, Except.bind, hv, pure, Except.pure, Except.ok.injEq, iff_self_and]
      rintro rfl
      exact hv

theorem parseRules_append {file : RulesFile} (line : SourceLine) {call : Call}
    (hp : parseRules host file = .ok builder) (hc : line.calls = [call])
    (hca : builder.evalCall host call = .ok extended)
    (hh : extended.hostExecutablesByName = builder.hostExecutablesByName)
    (hpe : ∃ rules : List PrefixRule, extended.pendingExampleValidations =
      builder.pendingExampleValidations ++ rules.map fun rule ↦ ⟨[rule], [], []⟩) :
    parseRules host (file ++ [line]) = .ok extended := by
  rw [parseRules_eq_ok_iff] at hp ⊢
  constructor
  · rw [flatMap_append, evalCalls, foldlM_append]
    change (evalCalls host {} (file.flatMap (·.calls)) >>= _) = _
    rw [hp.1]
    simp only [flatMap_cons, flatMap_nil, append_nil, hc]
    change (builder.evalCall host call >>= _) = _
    rw [hca]
    rfl
  · obtain ⟨rules, hr⟩ := hpe
    have hold := hp.2
    unfold validatePendingExamples at hold ⊢
    rw [hh, hr, forM_append, hold]
    exact validateExamples_of_no_examples host _ rules

end Append

end Slopdex.ExecPolicy
