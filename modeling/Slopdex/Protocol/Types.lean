import Mathlib.Data.BitVec
import Slopdex.Library.Lines

/-!
# Identifiers and messages shared by the session subsystems

Shared ownership in the source is compared by address (`Arc::ptr_eq`), so a shared object is modelled
by the address that identifies it. Turn identifiers are texts, and the code does inspect them: an
empty or blank identifier is refused in several places.
-/

namespace Slopdex.Protocol

structure ThreadId where
  uuid : BitVec 128
  deriving DecidableEq

abbrev TurnId := String

/-- Texts the code takes apart, as the list of their characters. -/
abbrev Text := List Char

/-- A property of all characters of a text is decided along the text, not over all characters. -/
instance (priority := high) decidableForallMem (p : Char → Prop) [DecidablePred p] (text : Text) :
    Decidable (∀ c ∈ text, p c) := List.decidableBAll p text

/-- `u64::MAX` -/
def u64Max : ℕ := 2 ^ 64 - 1

structure Incarnation where
  address : ℕ
  deriving DecidableEq

structure TurnStateRef where
  address : ℕ
  deriving DecidableEq

inductive AgentStatus
  | pendingInit
  | running
  | interrupted
  | completed (lastAgentMessage : Option String)
  | errored (message : String)
  | shutdown
  | notFound
  deriving DecidableEq

namespace AgentStatus

def isFinal : AgentStatus → Bool
  | pendingInit | running | interrupted => false
  | completed _ | errored _ | shutdown | notFound => true

def isCompleted : AgentStatus → Bool
  | completed _ => true
  | _ => false

theorem isFinal_of_isCompleted {status : AgentStatus} (h : status.isCompleted = true) :
    status.isFinal = true := by
  cases status <;> simp_all [isCompleted, isFinal]

end AgentStatus

/-- The characters with the Unicode property `White_Space`, which `str::trim` removes. -/
def isWhitespace (c : Char) : Bool :=
  let n := c.toNat
  (0x9 ≤ n && n ≤ 0xD) || n == 0x20 || n == 0x85 || n == 0xA0 || n == 0x1680 ||
    (0x2000 ≤ n && n ≤ 0x200A) || n == 0x2028 || n == 0x2029 || n == 0x202F || n == 0x205F ||
    n == 0x3000

/-- `str::trim` -/
def trim (text : Text) : Text := Library.Lines.trim isWhitespace text

/-- `str::trim_start` -/
def trimStart (text : Text) : Text := text.dropWhile isWhitespace

/-- `str::trim_end` -/
def trimEnd (text : Text) : Text := text.rdropWhile isWhitespace

/-- `text.trim().is_empty()` -/
def isBlank (text : String) : Bool := text.toList.all isWhitespace

/-- Message text, kept as the data it is formatted from where the session formats it itself. -/
inductive Content
  | text (content : String)
  | joinCompletion (parentTurnId : TurnId) (outcomes : List (ThreadId × AgentStatus))
  deriving DecidableEq

structure InterAgentCommunication where
  (author recipient : String)
  content : Content
  triggerTurn : Bool
  deriving DecidableEq

inductive CyberAccessProgram
  | standard
  | daybreakBlue
  | daybreakRed
  deriving DecidableEq

structure TurnStartOptions where
  turnTrigger : Option String := none
  serviceTier : Option String := none
  parentTurnId : Option TurnId := none
  rootTurnId : Option TurnId := none
  cyberAccessProgram : Option CyberAccessProgram := none
  deriving DecidableEq

end Slopdex.Protocol
