import Slopdex.Protocol.Types

/-!
# Where a session comes from

A session is opened by a client, by the program itself or on behalf of another thread. Only a thread
that was spawned by another one has a parent.
-/

namespace Slopdex.Protocol

inductive MultiAgentVersion
  | disabled
  | v1
  | v2
  deriving DecidableEq

inductive InternalSessionSource
  | memoryConsolidation
  | guardian

inductive SubAgentSource
  | review
  | compact
  | threadSpawn (parentThreadId : ThreadId)
  | memoryConsolidation
  | other (label : String)

inductive SessionSource
  | cli
  | vsCode
  | exec
  | mcp
  | custom (source : String)
  | internal (source : InternalSessionSource)
  | subAgent (source : SubAgentSource)
  | unknown

namespace SessionSource

def isInternal : SessionSource → Bool
  | internal _ => true
  | _ => false

def isSubAgent : SessionSource → Bool
  | subAgent _ => true
  | _ => false

/-- The thread that spawned the thread of the session. -/
def parentThreadId : SessionSource → Option ThreadId
  | subAgent (.threadSpawn parent) => some parent
  | _ => none

end SessionSource

end Slopdex.Protocol
