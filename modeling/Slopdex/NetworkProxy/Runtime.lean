import Slopdex.Library.KeyedMap
import Slopdex.Library.Transition
import Slopdex.NetworkProxy.State

/-!
# The running proxy

The state of the proxy stands behind a lock. Every lock is released before the next one is taken, so
operations interleave there: a task is an operation between two locks, together with what it has
read. The requests that were ever recorded, and how many had been recorded at the last drain, are
kept beside the state of the program.
-/

namespace Slopdex.NetworkProxy

open Protocol (Text)
open Library Library.KeyedMap Library.Transition

def maxBlockedEvents : ℕ := 200

/-- The largest value of the counter, at which it stays. -/
def maxBlockedTotal : ℕ := 2 ^ 64 - 1

/-- `while len > MAX_BLOCKED_EVENTS { pop_front }` -/
def popFront : List BlockedRequest → List BlockedRequest
  | [] => []
  | entry :: rest =>
    if maxBlockedEvents < (entry :: rest).length then popFront rest else entry :: rest

inductive DomainListKind
  | allow
  | deny

namespace DomainListKind

variable {Hook : Type}

def permission : DomainListKind → NetworkDomainPermission
  | allow => .allow
  | deny => .deny

def entries (kind : DomainListKind) (config : NetworkProxyConfig Hook) : List Text :=
  match kind with
  | allow => config.allowedDomains.getD []
  | deny => config.deniedDomains.getD []

def oppositeEntries (kind : DomainListKind) (config : NetworkProxyConfig Hook) : List Text :=
  match kind with
  | allow => config.deniedDomains.getD []
  | deny => config.allowedDomains.getD []

end DomainListKind

/-- The operations that start with an on-demand reload. `query` is any that only reads afterwards. -/
inductive Request (Hook : Type)
  | query
  | recordBlocked (entry : BlockedRequest) (executionId : Option Text)
  | drainBlocked
  | updateDomainList (kind : DomainListKind) (host : Text)
  | setNetworkMode (mode : NetworkMode)
  | replaceConfigState (config : NetworkProxyConfig Hook) (constraints : NetworkProxyConstraints)

/-- Where a task stands: the next thing it does is what the constructor names. -/
inductive Phase (Hook Glob : Type)
  | maybeReload (request : Request Hook)
  | writeReloaded (request : Request Hook) (newState : ConfigState Hook Glob)
  | handle (request : Request Hook)
  | writeUpdated (kind : DomainListKind) (normalizedHost : Text)
      (previousCfg : NetworkProxyConfig Hook) (constraints : NetworkProxyConstraints)
      (newState : ConfigState Hook Glob)
  | writeMode (mode : NetworkMode) (constraints : NetworkProxyConstraints)
  | writeForced (newState : ConfigState Hook Glob)

structure World (Hook Glob : Type) where
  shared : ConfigState Hook Glob
  tasks : Map ℕ (Phase Hook Glob)
  recorded : List BlockedRequest
  drained : ℕ

inductive Action (Hook : Type)
  | call (task : ℕ) (request : Request Hook)
  /-- `force_reload`, up to the state that `reload_now` returns -/
  | forceReload (task : ℕ) (config : NetworkProxyConfig Hook) (constraints : NetworkProxyConstraints)
  /-- `maybe_reload` finds nothing new. -/
  | notChanged (task : ℕ)
  /-- `maybe_reload` returns a state, and the log is read into it. -/
  | reloaded (task : ℕ) (config : NetworkProxyConfig Hook) (constraints : NetworkProxyConstraints)
  /-- The task takes its next lock. -/
  | proceed (task : ℕ)
  /-- The reloader fails, or the caller gives the operation up. -/
  | abandon (task : ℕ)

variable {Hook Glob : Type} (libs : Libraries Hook Glob)

/-- `update_domain_list` refuses a host of which nothing is left before it does anything else. -/
def Request.normalized : Request Hook → Option (Request Hook)
  | .updateDomainList kind host =>
    let normalizedHost := normalizeHost libs.hosts host
    if normalizedHost = [] then none else some (.updateDomainList kind normalizedHost)
  | request => some request

namespace World

variable (w : World Hook Glob) (task : ℕ)

def toPhase (phase : Phase Hook Glob) : World Hook Glob :=
  { w with tasks := w.tasks.insert task phase }

def finish : World Hook Glob := { w with tasks := w.tasks.erase task }

def withShared (state : ConfigState Hook Glob) : World Hook Glob := { w with shared := state }

/-- The write section of `record_blocked`. -/
def recordBlocked (entry : BlockedRequest) : World Hook Glob :=
  { w with
    shared := { w.shared with
      blocked := popFront (w.shared.blocked ++ [entry])
      blockedTotal := min (w.shared.blockedTotal + 1) maxBlockedTotal }
    recorded := w.recorded ++ [entry] }

/-- The write section of `drain_blocked`. -/
def drainBlocked : World Hook Glob :=
  { w with shared := { w.shared with blocked := [] }, drained := w.recorded.length }

/-- The read section of `update_domain_list`: the candidate is validated and compiled from a copy of
the state, with the log as it is now. -/
def prepareUpdate (kind : DomainListKind) (host : Text) : World Hook Glob :=
  let normalize := normalizeHost libs.hosts
  let contained (entries : List Text) : Bool := entries.any fun entry ↦ normalize entry == host
  if contained (kind.entries w.shared.config) ∧ ¬ contained (kind.oppositeEntries w.shared.config)
  then w.finish task
  else
    let candidate := w.shared.config.upsertDomainPermission host kind.permission normalize
    match validatePolicyAgainstConstraints libs candidate w.shared.constraints with
    | .error _ => w.finish task
    | .ok () =>
      match buildConfigState libs candidate w.shared.constraints with
      | .error _ => w.finish task
      | .ok newState => w.toPhase task (.writeUpdated kind host w.shared.config w.shared.constraints
          { newState with blocked := w.shared.blocked, blockedTotal := w.shared.blockedTotal })

/-- The read section of `set_network_mode`. -/
def prepareMode (mode : NetworkMode) : World Hook Glob :=
  match validatePolicyAgainstConstraints libs { w.shared.config with mode } w.shared.constraints with
  | .error _ => w.finish task
  | .ok () => w.toPhase task (.writeMode mode w.shared.constraints)

/-- The write section of `replace_config_state`, for a state that was built before the call. -/
def replaceConfigState (config : NetworkProxyConfig Hook) (constraints : NetworkProxyConstraints) :
    Option (World Hook Glob) :=
  match buildConfigState libs config constraints with
  | .error _ => none
  | .ok newState => some ((w.withShared { newState with
      blocked := w.shared.blocked, blockedTotal := w.shared.blockedTotal }).finish task)

def handle : Request Hook → Option (World Hook Glob)
  | .query => some (w.finish task)
  | .recordBlocked entry executionId =>
    some ((w.recordBlocked { entry with executionId }).finish task)
  | .drainBlocked => some (w.drainBlocked.finish task)
  | .updateDomainList kind host => some (w.prepareUpdate libs task kind host)
  | .setNetworkMode mode => some (w.prepareMode libs task mode)
  | .replaceConfigState config constraints => w.replaceConfigState libs task config constraints

def start (phase : Phase Hook Glob) : Option (World Hook Glob) :=
  if task ∈ w.tasks then none else some (w.toPhase task phase)

variable [DecidableEq Hook]

def proceed : Phase Hook Glob → Option (World Hook Glob)
  | .maybeReload _ => none
  | .writeReloaded request newState => some ((w.withShared newState).toPhase task (.handle request))
  | .handle request => w.handle libs task request
  | .writeUpdated kind host previousCfg constraints newState =>
    if w.shared.constraints ≠ constraints ∨ w.shared.config ≠ previousCfg then
      some (w.toPhase task (.maybeReload (.updateDomainList kind host)))
    else some ((w.withShared newState).finish task)
  | .writeMode mode constraints =>
    if w.shared.constraints ≠ constraints then
      some (w.toPhase task (.maybeReload (.setNetworkMode mode)))
    else some ((w.withShared { w.shared with
      config := { w.shared.config with mode } }).finish task)
  -- The buffer is carried over, the total is not.
  | .writeForced newState =>
    some ((w.withShared { newState with blocked := w.shared.blocked }).finish task)

def step (w : World Hook Glob) : Action Hook → Option (World Hook Glob)
  | .call task request => (request.normalized libs).bind fun admitted ↦
      w.start task (.maybeReload admitted)
  | .forceReload task config constraints =>
    match buildConfigState libs config constraints with
    | .error _ => none
    | .ok newState => w.start task (.writeForced newState)
  | .notChanged task =>
    match w.tasks.lookup task with
    | some (.maybeReload request) => some (w.toPhase task (.handle request))
    | _ => none
  | .reloaded task config constraints =>
    match w.tasks.lookup task, buildConfigState libs config constraints with
    | some (.maybeReload request), .ok newState =>
      some (w.toPhase task (.writeReloaded request { newState with
        blocked := w.shared.blocked, blockedTotal := w.shared.blockedTotal }))
    | _, _ => none
  | .proceed task => (w.tasks.lookup task).bind fun phase ↦ w.proceed libs task phase
  | .abandon task => if task ∈ w.tasks then some (w.finish task) else none

end World

def runtime [DecidableEq Hook] (initial : ConfigState Hook Glob) :
    System (World Hook Glob) (Action Hook) where
  init := { shared := initial, tasks := ∅, recorded := [], drained := 0 }
  step := World.step libs

end Slopdex.NetworkProxy
