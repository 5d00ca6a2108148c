import Slopdex.Library.Transition
import Mathlib.Data.List.Nodup
import Mathlib.Data.List.Perm.Basic

/-!
# The queue of user messages

Messages wait in a stored queue until the thread is idle. A call that edits the queue or starts a
message holds the dispatch guard of the thread, so one call is served at a time. A message is
submitted to the session loop, which starts its turn, and deleted afterwards. A storage call may
fail, and a caller may drop its call at any point; a turn that is submitted already stays submitted.
-/

namespace Slopdex.Queue

open Library.Transition

/-- The storage gives every message a new UUID; here they are numbered. -/
abbrev RecordId := ℕ

inductive TurnInput
  | userInput (content : String)
  | other

structure Record where
  id : RecordId
  payload : String

/-- `serde_json::from_str` on a stored payload. -/
abbrev Decoder := String → Option TurnInput

def Record.isUserMessage (decode : Decoder) (record : Record) : Bool :=
  match decode record.payload with
  | some (.userInput _) => true
  | _ => false

def maxQueueItems : ℕ := 100

/-- The payload of an edit is the one that the service has prepared from the input. -/
inductive Request
  | enqueue (payload : String)
  | update (id : RecordId) (payload : String)
  | delete (id : RecordId)
  | reorder (ids : List RecordId)
  | start (id : Option RecordId)
  /-- `dispatch_if_idle`, called when the thread has become idle. -/
  | dispatch
  deriving DecidableEq

/-- A turn input in the channel of the session loop. -/
structure Submission where
  automatic : Bool
  record : Record

inductive Stage
  | serving (request : Request)
  | updating (id : RecordId) (payload : String)
  | starting (submission : Submission)
  /-- The holder has submitted its turn and waits for the reply. -/
  | submitted
  | consuming (id : RecordId)
  | discarding (id : RecordId)

/-- `started` lists the messages that have started a turn. The last of the submissions is the one
of the holder, if it waits for a reply. -/
structure State where
  queue : List Record
  waiting : List Request
  holder : Option Stage
  nextId : RecordId
  submissions : List Submission
  started : List RecordId

inductive CoreAnswer
  | started
  | notSubmitted
  | failed
  deriving DecidableEq

inductive Action
  | call (request : Request)
  | acquire (index : ℕ)
  /-- The storage call of the holder returns. -/
  | storage (succeeds : Bool)
  /-- `submit_with_id` returns. -/
  | submit
  /-- The session loop takes the oldest submission and replies, or it has exited. -/
  | core (answer : CoreAnswer)
  /-- The holder returns early or is dropped. -/
  | drop
  | dropWaiting (index : ℕ)
  deriving DecidableEq

namespace State

variable (decode : Decoder) (s : State)

def release : State := { s with holder := none }

def hold (stage : Stage) : State := { s with holder := some stage }

def erase (id : RecordId) : State := { s with queue := s.queue.filter (·.id != id) }

/-- `list` fails as a whole if a payload cannot be decoded. -/
def isListable : Bool := s.queue.all fun record ↦ (decode record.payload).isSome

def reordered (ids : List RecordId) : List Record :=
  ids.filterMap fun id ↦ s.queue.find? (·.id == id)

def serve : Request → State
  | .enqueue payload =>
    if s.queue.length < maxQueueItems then
      { s with
        queue := s.queue ++ [⟨s.nextId, payload⟩]
        nextId := s.nextId + 1
        holder := none }
    else s.release
  | .update id payload => if s.isListable decode then s.hold (.updating id payload) else s.release
  | .delete id => (s.erase id).release
  | .reorder ids =>
    if ids.Perm (s.queue.map (·.id)) then { s with queue := s.reordered ids, holder := none }
    else s.release
  | .start id =>
    if s.isListable decode then
      match s.queue.find? fun record ↦ id.all (record.id == ·) with
      | none => s.release
      | some record =>
        if record.isUserMessage decode then s.hold (.starting ⟨false, record⟩) else s.release
    else s.release
  | .dispatch =>
    match s.queue with
    | [] => s.release
    | record :: _ =>
      if record.isUserMessage decode then s.hold (.starting ⟨true, record⟩)
      else s.hold (.discarding record.id)

/-- A storage call of the holder has succeeded. -/
def store : Stage → Option State
  | .serving request => some (s.serve decode request)
  | .updating id payload =>
    some { s with
      queue := s.queue.map fun record ↦ if record.id = id then { record with payload } else record
      holder := none }
  | .starting _ | .submitted => none
  | .consuming id => some (s.erase id).release
  | .discarding id => some ((s.erase id).hold (.serving .dispatch))

/-- The reply to a submission reaches the holder if it is the holder's own, which is the last. -/
def reply (submission : Submission) (answer : CoreAnswer) : State :=
  match s.holder, s.submissions with
  | some .submitted, [] =>
    if answer = .started then s.hold (.consuming submission.record.id) else s.release
  | _, _ => s

def handle (submission : Submission) (rest : List Submission) (answer : CoreAnswer) : State :=
  let started := if answer = .started then s.started ++ [submission.record.id] else s.started
  { s with submissions := rest, started }.reply submission answer

def step : Action → Option State
  | .call request => some { s with waiting := s.waiting ++ [request] }
  | .acquire index =>
    match s.holder, s.waiting[index]? with
    | none, some request =>
      some { s with waiting := s.waiting.eraseIdx index, holder := some (.serving request) }
    | _, _ => none
  | .storage succeeds =>
    match s.holder with
    | none => none
    | some stage => (s.store decode stage).map fun s' ↦ if succeeds then s' else s.release
  | .submit =>
    match s.holder with
    | some (.starting submission) =>
      some { s with submissions := s.submissions ++ [submission], holder := some .submitted }
    | _ => none
  | .core answer =>
    match s.submissions with
    | submission :: rest => some (s.handle submission rest answer)
    | [] => none
  | .drop => if s.holder.isSome then some s.release else none
  | .dropWaiting index => some { s with waiting := s.waiting.eraseIdx index }

end State

def service (decode : Decoder) : System State Action :=
  ⟨⟨[], [], none, 0, [], []⟩, State.step decode⟩

end Slopdex.Queue
