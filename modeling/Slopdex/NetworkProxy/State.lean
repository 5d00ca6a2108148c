import Mathlib.Data.Finset.SDiff
import Slopdex.Library.Effects
import Slopdex.NetworkProxy.Config

/-!
# Managed constraints and the state of the proxy

A configuration is checked against the managed constraints, field by field, and compiled to the
state the proxy works with. Every refusal names the field, the value found there and what would be
allowed. Hooks on intercepted requests, paths of sockets and Rust's quoting of a text in an error
are parameters.
-/

namespace Slopdex.NetworkProxy

open Protocol (Text trim)
open Library

variable {Hook Glob : Type}

structure Libraries (Hook Glob : Type) where
  globs : GlobLibrary Glob
  hosts : HostLibrary
  /-- The text as `format!("{:?}")` writes it -/
  quote : Text → Text
  /-- What `validate_mitm_hook_config` finds wrong with the hook at a position. -/
  hookError : ℕ → Hook → Option Text
  /-- What `compile_mitm_hooks` reports, which also reads secrets. -/
  compileHooksError : List Hook → Option Text
  /-- What `ValidatedUnixSocketPath::parse` finds wrong with the entry at a position. -/
  socketError : ℕ → Text → Option Text
  /-- What `MitmState::new` reports for a value of `allow_upstream_proxy`. -/
  mitmStateError : Bool → Option Text

structure NetworkProxyConstraints where
  enabled : Option Bool := none
  mode : Option NetworkMode := none
  allowUpstreamProxy : Option Bool := none
  dangerouslyAllowNonLoopbackProxy : Option Bool := none
  dangerouslyAllowAllUnixSockets : Option Bool := none
  allowedDomains : Option (List Text) := none
  allowlistExpansionEnabled : Option Bool := none
  deniedDomains : Option (List Text) := none
  denylistExpansionEnabled : Option Bool := none
  allowUnixSockets : Option (List Text) := none
  allowLocalBinding : Option Bool := none
  deriving DecidableEq

/-- `NetworkProxyConstraintError::InvalidValue` -/
structure NetworkProxyConstraintError where
  (fieldName candidate allowed : Text)
  deriving DecidableEq

def NetworkProxyConstraintError.text (error : NetworkProxyConstraintError) : Text :=
  "invalid value for ".toList ++ error.fieldName ++ ": ".toList ++ error.candidate ++
    " (allowed ".toList ++ error.allowed ++ ")".toList

variable (libs : Libraries Hook Glob) (config : NetworkProxyConfig Hook)
  (constraints : NetworkProxyConstraints)

/-! ## The checks of a configuration -/

/-- A list of texts as `format!("{:?}")` writes it. -/
def quoteList (texts : List Text) : Text :=
  "[".toList ++ ", ".toList.intercalate (texts.map libs.quote) ++ "]".toList

/-- The elements of a `HashSet` with the lowercase spellings of the entries. -/
def lowercaseSet (entries : List Text) : Finset Text := (entries.map toAsciiLowercase).toFinset

def firstError {α : Type} (error : ℕ → α → Option Text) (entries : List α) : Option Text :=
  entries.zipIdx.findSome? fun entry ↦ error entry.2 entry.1

def validateMitmHookConfig : Except Text Unit :=
  if config.mitmHooks = [] then .ok ()
  else if !config.mitm then .error "network.mitm_hooks requires network.mitm = true".toList
  else match firstError libs.hookError config.mitmHooks with
    | some error => .error error
    | none => .ok ()

def validateNonGlobalWildcardDomainPatterns (fieldName : Text) (patterns : List Text) :
    Except NetworkProxyConstraintError Unit :=
  match patterns.find? (isGlobalWildcardDomainPattern libs.hosts) with
  | some pattern => .error ⟨fieldName, trim pattern,
      "exact hosts or scoped wildcards like *.example.com or **.example.com".toList⟩
  | none => .ok ()

/-- The check of a setting that the managed configuration may have switched off. -/
def validateSwitch (fieldName : String) (candidate permitted : Bool) :
    Except NetworkProxyConstraintError Unit :=
  if candidate && !permitted then
    .error ⟨fieldName.toList, "true".toList, "false (disabled by managed config)".toList⟩
  else .ok ()

namespace NetworkMode

def rank : NetworkMode → ℕ
  | limited => 0
  | full => 1

def debug : NetworkMode → Text
  | limited => "Limited".toList
  | full => "Full".toList

end NetworkMode

def validateMode : Except NetworkProxyConstraintError Unit :=
  match constraints.mode with
  | none => .ok ()
  | some maxMode =>
    if maxMode.rank < config.mode.rank then
      .error ⟨"network.mode".toList, config.mode.debug,
        maxMode.debug ++ " or more restrictive".toList⟩
    else .ok ()

def validateExpandedAllowlist (managed allowed denied : List Text) :
    Except NetworkProxyConstraintError Unit :=
  -- A hash set lists the missing entries in an order of its own.
  let missing := (managed.map toAsciiLowercase).eraseDups.filter fun entry ↦
    entry ∉ lowercaseSet allowed ∧ entry ∉ lowercaseSet denied
  if missing = [] then .ok ()
  else .error ⟨"network.allowed_domains".toList,
    "missing managed allowed_domains entries".toList, quoteList libs missing⟩

def validateFixedAllowlist (managed allowed denied : List Text) :
    Except NetworkProxyConstraintError Unit :=
  if lowercaseSet allowed = lowercaseSet managed \ lowercaseSet denied then .ok ()
  else .error ⟨"network.allowed_domains".toList, quoteList libs allowed,
    "must match managed allowed_domains".toList⟩

/-- Where nothing is said about expansion, each entry has to be within a managed one. -/
def validateAllowlistSubset (managed allowed : List Text) :
    Except NetworkProxyConstraintError Unit :=
  let managedPatterns := managed.map (DomainPattern.parseForConstraints libs.hosts)
  let invalid := allowed.filter fun entry ↦
    !managedPatterns.any (·.allows (DomainPattern.parseForConstraints libs.hosts entry))
  if invalid = [] then .ok ()
  else .error ⟨"network.allowed_domains".toList, quoteList libs invalid,
    "subset of managed allowed_domains".toList⟩

def validateAllowedDomains : Except NetworkProxyConstraintError Unit :=
  match constraints.allowedDomains with
  | none => .ok ()
  | some managed => do
    let allowed := config.allowedDomains.getD []
    let denied := config.deniedDomains.getD []
    validateNonGlobalWildcardDomainPatterns libs "network.allowed_domains".toList managed
    match constraints.allowlistExpansionEnabled with
    | some true => validateExpandedAllowlist libs managed allowed denied
    | some false => validateFixedAllowlist libs managed allowed denied
    | none => validateAllowlistSubset libs managed allowed

def validateDeniedDomains : Except NetworkProxyConstraintError Unit :=
  match constraints.deniedDomains with
  | none => .ok ()
  | some managed => do
    let denied := config.deniedDomains.getD []
    validateNonGlobalWildcardDomainPatterns libs "network.denied_domains".toList managed
    if constraints.denylistExpansionEnabled = some false then
      if lowercaseSet denied = lowercaseSet managed then .ok ()
      else .error ⟨"network.denied_domains".toList, quoteList libs denied,
        "must match managed denied_domains".toList⟩
    else
      let missing := (managed.map toAsciiLowercase).eraseDups.filter (· ∉ lowercaseSet denied)
      if missing = [] then .ok ()
      else .error ⟨"network.denied_domains".toList,
        "missing managed denied_domains entries".toList, quoteList libs missing⟩

def validateUnixSockets : Except NetworkProxyConstraintError Unit :=
  match constraints.allowUnixSockets with
  | none => .ok ()
  | some managed =>
    let invalid := config.allowUnixSockets.filter (toAsciiLowercase · ∉ lowercaseSet managed)
    if invalid = [] then .ok ()
    else .error ⟨"network.allow_unix_sockets".toList, quoteList libs invalid,
      "subset of managed allow_unix_sockets".toList⟩

def validatePolicyAgainstConstraints : Except NetworkProxyConstraintError Unit := do
  (validateMitmHookConfig libs config).mapError fun error ↦
    ⟨"network.mitm_hooks".toList, error, "valid MITM hook configuration".toList⟩
  validateNonGlobalWildcardDomainPatterns libs "network.denied_domains".toList
    (config.deniedDomains.getD [])
  validateSwitch "network.enabled" config.enabled (constraints.enabled.getD true)
  validateMode config constraints
  validateSwitch "network.allow_upstream_proxy" config.allowUpstreamProxy
    (constraints.allowUpstreamProxy.getD true)
  validateSwitch "network.dangerously_allow_non_loopback_proxy"
    config.dangerouslyAllowNonLoopbackProxy
    (constraints.dangerouslyAllowNonLoopbackProxy.getD true)
  -- A managed list of sockets switches the setting off that allows all of them.
  validateSwitch "network.dangerously_allow_all_unix_sockets" config.dangerouslyAllowAllUnixSockets
    (constraints.dangerouslyAllowAllUnixSockets.getD constraints.allowUnixSockets.isNone)
  validateSwitch "network.allow_local_binding" config.allowLocalBinding
    (constraints.allowLocalBinding.getD true)
  validateAllowedDomains libs config constraints
  validateDeniedDomains libs config constraints
  validateUnixSockets libs config constraints

structure BlockedRequest where
  (host reason : Text)
  (client method : Option Text)
  mode : Option NetworkMode
  protocol : Text
  (executionId decision source : Option Text)
  port : Option ℕ
  timestamp : ℤ
  deriving DecidableEq

structure ConfigState (Hook Glob : Type) where
  config : NetworkProxyConfig Hook
  brokerageCreatedDefaultAllowlist : Bool
  (allowSet denySet : List Glob)
  constraints : NetworkProxyConstraints
  blocked : List BlockedRequest
  blockedTotal : ℕ
  deriving DecidableEq

/-- A broker for credentials starts the proxy by itself, and then with every host allowed unless
the configuration or the constraints say which are. -/
def settleBroker : NetworkProxyConfig Hook × Bool :=
  let config := if constraints.enabled = some false then { config with credentialBroker := false }
    else config
  let brokerageCreatedProxy := config.credentialBroker && !config.enabled
  let brokerageCreatedDefaultAllowlist := brokerageCreatedProxy &&
    config.allowedDomains.isNone && constraints.allowedDomains.isNone
  let config := if brokerageCreatedProxy then { config with enabled := true } else config
  let config := if brokerageCreatedDefaultAllowlist then config.setAllowedDomains ["*".toList]
    else config
  (config, brokerageCreatedDefaultAllowlist)

/-- The outcome of a step that reports an error or succeeds without a value. -/
def failWith (error : Option Text) : Except Text Unit :=
  match error with
  | some error => .error error
  | none => .ok ()

def buildConfigState : Except Text (ConfigState Hook Glob) := do
  let (config, brokerageCreatedDefaultAllowlist) := settleBroker config constraints
  failWith (firstError libs.socketError config.allowUnixSockets)
  failWith (if config.credentialBroker && !config.mitm then
    some "network.credential_broker requires network.mitm = true".toList else none)
  let denied := config.deniedDomains.getD []
  (validateNonGlobalWildcardDomainPatterns libs "network.denied_domains".toList denied).mapError
    NetworkProxyConstraintError.text
  let denySet ← compileDenylistGlobset libs.globs libs.hosts denied
  let allowSet ← compileAllowlistGlobset libs.globs libs.hosts (config.allowedDomains.getD [])
  validateMitmHookConfig libs config
  failWith (libs.compileHooksError config.mitmHooks)
  failWith (if config.mitm then libs.mitmStateError config.allowUpstreamProxy else none)
  return { config, brokerageCreatedDefaultAllowlist, allowSet, denySet, constraints,
           blocked := [], blockedTotal := 0 }

structure InForce (libs : Libraries Hook Glob) (state : ConfigState Hook Glob) : Prop where
  allow : compileAllowlistGlobset libs.globs libs.hosts (state.config.allowedDomains.getD []) =
    .ok state.allowSet
  deny : compileDenylistGlobset libs.globs libs.hosts (state.config.deniedDomains.getD []) =
    .ok state.denySet

variable {libs config constraints} {state : ConfigState Hook Glob}

theorem build_spec (h : buildConfigState libs config constraints = .ok state) :
    InForce libs state ∧ state.blocked = [] ∧ state.blockedTotal = 0 := by
  unfold buildConfigState at h
  simp only [Effects.bind_eq_ok_iff] at h
  obtain ⟨-, -, -, -, -, -, _, hd, _, ha, -, -, -, -, -, -, hs⟩ := h
  cases hs
  exact ⟨⟨ha, hd⟩, rfl, rfl⟩

end Slopdex.NetworkProxy
