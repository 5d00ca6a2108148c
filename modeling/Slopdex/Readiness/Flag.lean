import Slopdex.Library.KeyedMap
import Slopdex.Library.Transition

/-!
# The readiness flag

A flag becomes ready once, through a holder of one of its tokens or through a query that finds that
there is none. Waiters are told through a watch channel; sending without a receiver fails and leaves
the value. The flag and the channel are updated one after the other, so calls interleave there, and
between any two steps of a waiter.
-/

namespace Slopdex.Readiness

open Library.KeyedMap Library.Transition

/-- An `i32`; zero is reserved. -/
abbrev Token := BitVec 32

/-- The next step of `is_ready`. -/
inductive Check
  | load
  | tryLock
  | reload
  | send
  deriving DecidableEq

/-- The next step of `wait_ready`; a receiver knows the last change it has seen. -/
inductive Wait
  | isReady (next : Check)
  | subscribe
  | borrow (seen : ℕ)
  | changed (seen : ℕ)
  deriving DecidableEq

inductive Outcome
  | isReady (answer : Bool)
  | subscribed (token : Token)
  | flagAlreadyReady
  | tokenLockFailed
  | marked (answer : Bool)
  | waited
  | dropped
  deriving DecidableEq

inductive Call
  | isReady (next : Check)
  | subscribeLoad
  | subscribeLock
  | markLoad (token : Token)
  | markLock (token : Token)
  | markSend
  | waitReady (next : Wait)
  | returned (outcome : Outcome)
  deriving DecidableEq

inductive Request
  | isReady
  | subscribe
  | markReady (token : Token)
  | waitReady

inductive Action
  | call (id : ℕ) (request : Request)
  | proceed (id : ℕ)
  /-- The lock is held by another call: `try_lock` fails at once, `lock` after a second. -/
  | contended (id : ℕ)
  /-- The caller gives up a call that waits for the lock or for a change. -/
  | drop (id : ℕ)

def Action.target : Action → ℕ
  | call id _ => id
  | proceed id => id
  | contended id => id
  | drop id => id

/-- The flag with its channel, and the calls on it. -/
structure World where
  ready : Bool := false
  nextId : Token := 1
  tokens : List Token := []
  value : Bool := false
  version : ℕ := 0
  calls : Map ℕ Call := ∅

namespace Call

def receiver : Call → Option ℕ
  | waitReady (.borrow seen) => some seen
  | waitReady (.changed seen) => some seen
  | _ => none

def announces : Call → Bool
  | isReady .send => true
  | markSend => true
  | waitReady (.isReady .send) => true
  | _ => false

def awaits : Call → Bool
  | waitReady .subscribe => true
  | waitReady (.borrow _) => true
  | waitReady (.changed _) => true
  | _ => false

def marks : Call → Bool
  | markSend => true
  | returned (.marked true) => true
  | _ => false

end Call

/-- The loop of `subscribe`: take numbers until one is neither zero nor taken. With all of them taken
it does not end. -/
def freshToken (tokens : List Token) : ℕ → Token → Option (Token × Token)
  | 0, _ => none
  | fuel + 1, nextId =>
    if nextId ≠ 0 ∧ nextId ∉ tokens then some (nextId, nextId + 1)
    else freshToken tokens fuel (nextId + 1)

namespace World

variable (w : World) (id : ℕ)

def setCall (call : Call) : World := { w with calls := w.calls.insert id call }

def hasReceiver : Bool := w.calls.entries.any fun entry ↦ entry.2.receiver.isSome

/-- `tx.send(true)` -/
def send : World :=
  if w.hasReceiver then { w with value := true, version := w.version + 1 } else w

/-- One step of `is_ready`: the flag afterwards, and the next step or the answer. -/
def check : Check → World × (Check ⊕ Bool)
  | .load => (w, if w.ready then .inr true else .inl .tryLock)
  | .tryLock =>
    if w.tokens = [] then ({ w with ready := true }, if w.ready then .inr true else .inl .send)
    else (w, .inl .reload)
  | .reload => (w, .inr w.ready)
  | .send => (w.send, .inr true)

/-- `is_ready` on its own -/
def continueIsReady : World × (Check ⊕ Bool) → World
  | (w, .inl next) => w.setCall id (.isReady next)
  | (w, .inr answer) => w.setCall id (.returned (.isReady answer))

/-- `is_ready` at the beginning of `wait_ready` -/
def continueWaitReady : World × (Check ⊕ Bool) → World
  | (w, .inl next) => w.setCall id (.waitReady (.isReady next))
  | (w, .inr true) => w.setCall id (.returned .waited)
  | (w, .inr false) => w.setCall id (.waitReady .subscribe)

def proceed : Call → Option World
  | .isReady next => some (continueIsReady id (w.check next))
  | .subscribeLoad =>
    some (w.setCall id (if w.ready then .returned .flagAlreadyReady else .subscribeLock))
  | .subscribeLock =>
    if w.ready then some (w.setCall id (.returned .flagAlreadyReady))
    else (freshToken w.tokens (w.tokens.length + 2) w.nextId).map fun (token, nextId) ↦
      { w with tokens := token :: w.tokens, nextId }.setCall id (.returned (.subscribed token))
  | .markLoad token =>
    some (w.setCall id (if w.ready ∨ token = 0 then .returned (.marked false) else .markLock token))
  | .markLock token =>
    if token ∈ w.tokens then some ({ w with ready := true, tokens := [] }.setCall id .markSend)
    else some (w.setCall id (.returned (.marked false)))
  | .markSend => some (w.send.setCall id (.returned (.marked true)))
  | .waitReady (.isReady next) => some (continueWaitReady id (w.check next))
  | .waitReady .subscribe => some (w.setCall id (.waitReady (.borrow w.version)))
  | .waitReady (.borrow seen) =>
    some (w.setCall id (if w.value then .returned .waited else .waitReady (.changed seen)))
  | .waitReady (.changed seen) =>
    if seen ≠ w.version then some (w.setCall id (.waitReady (.borrow w.version))) else none
  | .returned _ => none

def contended : Call → Option World
  | .isReady .tryLock => some (w.setCall id (.isReady .reload))
  | .waitReady (.isReady .tryLock) => some (w.setCall id (.waitReady (.isReady .reload)))
  | .subscribeLock => some (w.setCall id (.returned .tokenLockFailed))
  | .markLock _ => some (w.setCall id (.returned .tokenLockFailed))
  | _ => none

def drop : Call → Option World
  | .subscribeLock => some (w.setCall id (.returned .dropped))
  | .markLock _ => some (w.setCall id (.returned .dropped))
  | .waitReady (.changed _) => some (w.setCall id (.returned .dropped))
  | _ => none

def begin : Request → Call
  | .isReady => .isReady .load
  | .subscribe => .subscribeLoad
  | .markReady token => .markLoad token
  | .waitReady => .waitReady (.isReady .load)

def step (w : World) : Action → Option World
  | .call id request =>
    if (w.calls.lookup id).isSome then none else some (w.setCall id (begin request))
  | .proceed id => (w.calls.lookup id).bind (w.proceed id)
  | .contended id => (w.calls.lookup id).bind (w.contended id)
  | .drop id => (w.calls.lookup id).bind (w.drop id)

end World

def flag : System World Action where
  init := {}
  step := World.step

end Slopdex.Readiness
