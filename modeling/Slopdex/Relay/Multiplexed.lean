import Slopdex.Library.KeyedMap
import Slopdex.Library.Transition

/-!
# The virtual streams of a relay

A handshake waits until the registry has authorized its key, and meanwhile the peer may reset the
stream, send data on it or begin anew with the same identifier. The loop handles one event at a
time: a frame, the end of a validation, or the notice of a stream whose tasks have ended.
-/

namespace Slopdex.Relay

open Library.KeyedMap Library.Transition

def maxActiveNoiseRelayStreams : ℕ := 128

def maxFailedNoiseHandshakes : ℕ := 8

def maxHarnessKeyAuthorizationBytes : ℕ := 4096

def maxPendingHandshakeValidations : ℕ := 32

/-- The body of a frame that passes `validate`; acknowledgements, resumptions and heartbeats are
ignored, and what a record holds is the business of its stream. -/
inductive Body
  | handshake (payload : List UInt8)
  | data
  | reset
  | other
  deriving DecidableEq

structure RelayMessageFrame where
  streamId : String
  body : Body

structure PendingResponderHandshake (Key Handshake : Type) where
  handshake : Handshake
  initiatorPublicKey : Key
  payload : List UInt8

structure Noise (Key Handshake : Type) where
  readRequest : String → List UInt8 → Option (PendingResponderHandshake Key Handshake)
  fromUtf8 : List UInt8 → Option String
  /-- Whether the handshake completes. -/
  complete : Handshake → Bool

structure PendingHandshake (Handshake : Type) where
  validationId : ℕ
  handshake : Handshake

structure Validation (Key : Type) where
  streamId : String
  validationId : ℕ
  harnessPublicKey : Key
  authorization : String

structure ClosedNoiseVirtualStream where
  streamId : String
  instanceId : ℕ

inductive Action
  /-- A frame arrives; `delivered` tells whether its stream can process the record. -/
  | frame (frame : RelayMessageFrame) (delivered : Bool)
  /-- The registry answers; `queued` tells whether there is room for the reply of the handshake. -/
  | validated (index : ℕ) (authorized queued : Bool)
  | validationFailed (index : ℕ)
  /-- The writer or the owner of a stream has ended. -/
  | closedStream (index : ℕ)
  | disconnect

variable {Key Handshake : Type}

/-- What the registry is asked to authorize: the authenticated key with the text that came with it. -/
def Noise.request (noise : Noise Key Handshake) (streamId : String) (payload : List UInt8) :
    Option (Handshake × Key × String) :=
  (noise.readRequest streamId payload).bind fun pending ↦
    if pending.payload.length ≤ maxHarnessKeyAuthorizationBytes then
      (noise.fromUtf8 pending.payload).map (pending.handshake, pending.initiatorPublicKey, ·)
    else none

/-- The loop's state. An active stream is known by its instance; `spawned` are the streams that may
send a notice, and `received` is the history of the frames. -/
structure State (Key Handshake : Type) where
  streams : Map String ℕ := ∅
  pendingHandshakes : Map String (PendingHandshake Handshake) := ∅
  validationTasks : List (Validation Key) := []
  failedHandshakes : ℕ := 0
  nextValidationId : ℕ := 0
  spawned : List ClosedNoiseVirtualStream := []
  running : Bool := true
  received : List RelayMessageFrame := []

namespace State

variable (noise : Noise Key Handshake) (s : State Key Handshake) (streamId : String)

/-- `failed_handshake_budget_exhausted`, with the end of the loop that follows -/
def chargeFailure : State Key Handshake :=
  { s with
    failedHandshakes := s.failedHandshakes + 1
    running := decide (s.failedHandshakes + 1 < maxFailedNoiseHandshakes) }

def dropPending : State Key Handshake :=
  { s with pendingHandshakes := s.pendingHandshakes.erase streamId }

def dropStream : State Key Handshake := { s with streams := s.streams.erase streamId }

def await (handshake : Handshake) (key : Key) (authorization : String) : State Key Handshake :=
  { s with
    nextValidationId := s.nextValidationId + 1
    pendingHandshakes := s.pendingHandshakes.insert streamId ⟨s.nextValidationId, handshake⟩
    validationTasks := s.validationTasks ++ [⟨streamId, s.nextValidationId, key, authorization⟩] }

def handleHandshake (payload : List UInt8) : State Key Handshake :=
  if streamId ∈ s.streams then s
  else if streamId ∈ s.pendingHandshakes then (s.dropPending streamId).chargeFailure
  else if maxActiveNoiseRelayStreams ≤ size s.streams then s
  else if maxPendingHandshakeValidations ≤ s.validationTasks.length then s
  else match noise.request streamId payload with
    | none => s.chargeFailure
    | some (handshake, key, authorization) => s.await streamId handshake key authorization

def handleData (delivered : Bool) : State Key Handshake :=
  if streamId ∈ s.streams then if delivered = true then s else s.dropStream streamId
  else if streamId ∈ s.pendingHandshakes then (s.dropPending streamId).chargeFailure
  else s

def read (frame : RelayMessageFrame) : State Key Handshake :=
  { s with received := s.received ++ [frame] }

def handleFrame (frame : RelayMessageFrame) (delivered : Bool) : State Key Handshake :=
  let s := s.read frame
  match frame.body with
  | .handshake payload => s.handleHandshake noise frame.streamId payload
  | .data => s.handleData frame.streamId delivered
  | .reset => (s.dropPending frame.streamId).dropStream frame.streamId
  | .other => s

def collect (index : ℕ) : State Key Handshake :=
  { s with validationTasks := s.validationTasks.eraseIdx index }

def spawnNoiseVirtualStream (instanceId : ℕ) : State Key Handshake :=
  { s with
    streams := s.streams.insert streamId instanceId
    spawned := s.spawned ++ [⟨streamId, instanceId⟩] }

def handleValidation (result : Validation Key) (authorized queued : Bool) : State Key Handshake :=
  match s.pendingHandshakes.lookup result.streamId with
  | none => s
  | some pending =>
    if pending.validationId ≠ result.validationId then s
    else
      let s := s.dropPending result.streamId
      if authorized = false then s.chargeFailure
      else if maxActiveNoiseRelayStreams ≤ size s.streams then s
      else if noise.complete pending.handshake = false then s.chargeFailure
      -- a stream whose reply cannot be queued is not left half-open
      else if queued = false then { s with running := false }
      else s.spawnNoiseVirtualStream result.streamId result.validationId

/-- The identifier may have been reused before the notice arrives. -/
def handleClosed (closed : ClosedNoiseVirtualStream) : State Key Handshake :=
  if s.streams.lookup closed.streamId = some closed.instanceId then s.dropStream closed.streamId
  else s

def step (s : State Key Handshake) (action : Action) : Option (State Key Handshake) :=
  if s.running = false then none
  else match action with
    | .frame frame delivered => some (s.handleFrame noise frame delivered)
    | .validated index authorized queued => (s.validationTasks[index]?).map fun result ↦
      (s.collect index).handleValidation noise result authorized queued
    -- a failed task does not tell its stream, so all pending handshakes are given up
    | .validationFailed index => (s.validationTasks[index]?).map fun _ ↦
      { s.collect index with pendingHandshakes := ∅ }
    | .closedStream index => (s.spawned[index]?).map s.handleClosed
    | .disconnect => some { s with running := false }

end State

/-- The loop over one physical relay, with the tasks it has started. -/
def multiplexedEnvironment (noise : Noise Key Handshake) : System (State Key Handshake) Action :=
  ⟨{}, State.step noise⟩

end Slopdex.Relay
