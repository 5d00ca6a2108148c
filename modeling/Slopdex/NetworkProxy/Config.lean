import Slopdex.NetworkProxy.Policy

/-!
# Configuration of the network proxy

The domains of a configuration are entries with a permission, in the order in which they were
written. A pattern may occur more than once, and then its strictest permission counts. Reading the
allowed or the denied patterns goes through these effective entries.
-/

namespace Slopdex.NetworkProxy

open Protocol (Text)

/-- The order of the constructors is the precedence among entries with one pattern. -/
inductive NetworkDomainPermission
  | none
  | allow
  | deny
  deriving DecidableEq

def NetworkDomainPermission.rank : NetworkDomainPermission → ℕ
  | none => 0
  | allow => 1
  | deny => 2

structure NetworkDomainPermissionEntry where
  pattern : Text
  permission : NetworkDomainPermission
  deriving DecidableEq

/-- The strictest permission of a pattern stands where the pattern was first written. -/
def addEffective (effective : List NetworkDomainPermissionEntry)
    (entry : NetworkDomainPermissionEntry) : List NetworkDomainPermissionEntry :=
  if effective.any (·.pattern == entry.pattern) then
    effective.map fun existing ↦
      if existing.pattern = entry.pattern ∧ existing.permission.rank < entry.permission.rank then
        entry
      else existing
  else effective ++ [entry]

def effectiveEntries (entries : List NetworkDomainPermissionEntry) :
    List NetworkDomainPermissionEntry :=
  entries.foldl addEffective []

inductive NetworkUnixSocketPermission
  | allow
  | deny
  deriving DecidableEq

inductive NetworkMode
  | limited
  | full
  deriving DecidableEq

structure NetworkProxyConfig (Hook : Type) where
  enabled : Bool := false
  proxyUrl : Text := "http://127.0.0.1:3128".toList
  enableSocks5 : Bool := true
  socksUrl : Text := "http://127.0.0.1:8081".toList
  enableSocks5Udp : Bool := true
  allowUpstreamProxy : Bool := true
  dangerouslyAllowNonLoopbackProxy : Bool := false
  dangerouslyAllowAllUnixSockets : Bool := false
  mode : NetworkMode := .full
  domains : Option (List NetworkDomainPermissionEntry) := none
  unixSockets : Option (List (Text × NetworkUnixSocketPermission)) := none
  allowLocalBinding : Bool := false
  mitm : Bool := false
  credentialBroker : Bool := false
  credentialBrokerOpenaiHost : Option Text := none
  dangerouslyAllowPlaintextCredentialInjection : Bool := false
  mitmHooks : List Hook := []
  deriving DecidableEq

namespace NetworkProxyConfig

variable {Hook : Type} (config : NetworkProxyConfig Hook)

def domainEntries (permission : NetworkDomainPermission) : Option (List Text) :=
  (config.domains.map fun domains ↦
    ((effectiveEntries domains).filter (·.permission = permission)).map (·.pattern)).filter
      (· != [])

def allowedDomains : Option (List Text) := config.domainEntries .allow

def deniedDomains : Option (List Text) := config.domainEntries .deny

def allowUnixSockets : List Text :=
  (config.unixSockets.map fun sockets ↦
    (sockets.filter (·.2 = .allow)).map Prod.fst).getD []

def withDomains (entries : List NetworkDomainPermissionEntry) : NetworkProxyConfig Hook :=
  { config with domains := if entries = [] then none else some entries }

def setDomainEntries (entries : List Text) (permission : NetworkDomainPermission) :
    NetworkProxyConfig Hook :=
  config.withDomains (entries.foldl (fun kept entry ↦
      if kept.any fun existing ↦ existing.pattern == entry && existing.permission == permission then
        kept
      else kept ++ [⟨entry, permission⟩])
    ((config.domains.getD []).filter (·.permission ≠ permission)))

def setAllowedDomains (allowed : List Text) : NetworkProxyConfig Hook :=
  config.setDomainEntries allowed .allow

def upsertDomainPermission (host : Text) (permission : NetworkDomainPermission)
    (normalize : Text → Text) : NetworkProxyConfig Hook :=
  config.withDomains (((config.domains.getD []).filter fun entry ↦
    normalize entry.pattern ≠ normalize host) ++ [⟨host, permission⟩])

end NetworkProxyConfig

end Slopdex.NetworkProxy
