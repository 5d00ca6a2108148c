import Slopdex.Protocol.Types
import Slopdex.Library.Transition
import Slopdex.Library.FirstMatch
import Slopdex.Library.KeyedMap
import Slopdex.Library.Correspondence

/-!
# The registry of agents

A session keeps its agents in two maps behind one lock, from paths to metadata and from threads to
paths, and next to them an atomic counter. A spawn counts itself before there is an agent, then
commits or gives the count back when its reservation is dropped. Commits and root registrations
overwrite what they find.
-/

namespace Slopdex.Agent.Registry

open Protocol Library.Transition Library.Transition.System
open Library.FirstMatch Library.KeyedMap Library.Correspondence Function Option BitVec

structure AgentPath where
  text : String
  deriving DecidableEq

namespace AgentPath

def root : AgentPath := ⟨"/root"⟩

def isRoot (agentPath : AgentPath) : Bool := agentPath == root

end AgentPath

/-- The key of an agent in the tree: its path, or `thread:` and its id if it has none. Paths start
with a slash, so the two never meet. -/
inductive AgentKey
  | path (agentPath : AgentPath)
  | thread (threadId : ThreadId)
  deriving DecidableEq

namespace AgentKey

def root : AgentKey := .path .root

def agentPath : AgentKey → Option AgentPath
  | path agentPath => some agentPath
  | thread _ => none

end AgentKey

structure AgentMetadata where
  agentId : Option ThreadId
  agentPath : Option AgentPath
  (agentNickname agentRole : Option String)
  deriving DecidableEq

namespace AgentMetadata

def placeholder (agentPath : AgentPath) : AgentMetadata := ⟨none, some agentPath, none, none⟩

def ofRoot (threadId : ThreadId) : AgentMetadata := ⟨some threadId, some .root, none, none⟩

def isRoot (metadata : AgentMetadata) : Bool := metadata.agentPath.any (·.isRoot)

def key (metadata : AgentMetadata) (threadId : ThreadId) : AgentKey :=
  metadata.agentPath.elim (.thread threadId) .path

end AgentMetadata

open AgentMetadata

inductive CodexErr
  | agentLimitReached (maxThreads : ℕ)
  | unsupportedOperation (message : String)

/-! ## The maps behind the lock -/

structure ActiveAgents where
  agentTree : Map AgentKey AgentMetadata
  threadPaths : Map ThreadId AgentKey
  usedAgentNicknames : Finset String
  nicknameResetCount : ℕ

def ordinalSuffix (value : ℕ) : String :=
  if 11 ≤ value % 100 ∧ value % 100 ≤ 13 then "th"
  else match value % 10 with
    | 1 => "st"
    | 2 => "nd"
    | 3 => "rd"
    | _ => "th"

def formatAgentNickname (name : String) : ℕ → String
  | 0 => name
  | resetCount + 1 =>
    let value := resetCount + 2
    name ++ " the " ++ toString value ++ ordinalSuffix value

/-- `choose` of a slice, with the random number that it draws. -/
def choose (names : List String) (pick : ℕ) : Option String := names[pick % names.length]?

namespace ActiveAgents

def empty : ActiveAgents := ⟨∅, ∅, ∅, 0⟩

variable (agents : ActiveAgents)

def registerRootThread (threadId : ThreadId) : ActiveAgents :=
  match agents.agentTree.lookup .root with
  | some metadata =>
    match metadata.agentId with
    | some rootThreadId =>
      { agents with threadPaths := agents.threadPaths.insert rootThreadId .root }
    | none => agents
  | none =>
    { agents with
      agentTree := agents.agentTree.insert .root (.ofRoot threadId)
      threadPaths := agents.threadPaths.insert threadId .root }

/-- The registry without the thread, and whether an agent was removed that had been counted. -/
def releaseSpawnedThread (threadId : ThreadId) : ActiveAgents × Bool :=
  match agents.threadPaths.lookup threadId with
  | none => (agents, false)
  | some path =>
    ({ agents with
        agentTree := agents.agentTree.erase path
        threadPaths := agents.threadPaths.erase threadId },
      (agents.agentTree.lookup path).any (!·.isRoot))

def liveAgents : List AgentMetadata :=
  (agents.agentTree.entries.map (·.2)).filter fun metadata ↦
    metadata.agentId.isSome && !metadata.isRoot

def withoutPrevious (threadId : ThreadId) (key : AgentKey) : Map AgentKey AgentMetadata :=
  match agents.threadPaths.lookup threadId with
  | some previous => if previous = key then agents.agentTree else agents.agentTree.erase previous
  | none => agents.agentTree

def registerSpawnedThread (metadata : AgentMetadata) : ActiveAgents :=
  match metadata.agentId with
  | none => agents
  | some threadId =>
    let key := metadata.key threadId
    let agentTree := agents.withoutPrevious threadId key
    let threadPaths := agents.threadPaths.insert threadId key
    { agents with
      usedAgentNicknames := metadata.agentNickname.elim agents.usedAgentNicknames
        fun nickname ↦ insert nickname agents.usedAgentNicknames
      agentTree := agentTree.insert key metadata
      -- an agent that is displaced from the key loses its path
      threadPaths := match (agentTree.lookup key).bind (·.agentId) with
        | some previous => if previous = threadId then threadPaths else threadPaths.erase previous
        | none => threadPaths }

def reserveAgentNickname (names : List String) (preferred : Option String)
    (pick : ℕ) : ActiveAgents × Option String :=
  let use (agents : ActiveAgents) (nickname : String) : ActiveAgents × Option String :=
    ({ agents with usedAgentNicknames := insert nickname agents.usedAgentNicknames }, some nickname)
  match preferred with
  | some nickname => use agents nickname
  | none =>
    if names.isEmpty then (agents, none)
    else
      let available := (names.map (formatAgentNickname · agents.nicknameResetCount)).filter
        (· ∉ agents.usedAgentNicknames)
      match choose available pick with
      | some nickname => use agents nickname
      | none =>
        let agents := { agents with
          usedAgentNicknames := ∅
          nicknameResetCount := agents.nicknameResetCount + 1 }
        match choose names pick with
        | some name => use agents (formatAgentNickname name agents.nicknameResetCount)
        | none => (agents, none)

def reserveAgentPath (agentPath : AgentPath) : Except CodexErr ActiveAgents :=
  match agents.agentTree.lookup (.path agentPath) with
  | some _ =>
    .error (.unsupportedOperation ("agent path `" ++ agentPath.text ++ "` already exists"))
  | none =>
    .ok { agents with
      agentTree := agents.agentTree.insert (.path agentPath) (.placeholder agentPath) }

def releaseReservedAgentPath (agentPath : AgentPath) : ActiveAgents :=
  if (agents.agentTree.lookup (.path agentPath)).any (·.agentId.isNone) then
    { agents with agentTree := agents.agentTree.erase (.path agentPath) }
  else agents

end ActiveAgents

open ActiveAgents

/-- `total_count`, which wraps around as an atomic does. -/
abbrev Counter := BitVec 64

def tryIncrementSpawned (count : Counter) (maxThreads : Counter) : Option Counter :=
  if maxThreads ≤ count then none else some (count + 1)

def reserveSpawnSlot (count : Counter) : Option Counter → Except CodexErr Counter
  | some maxThreads =>
    match tryIncrementSpawned count maxThreads with
    | none => .error (.agentLimitReached maxThreads.toNat)
    | some count => .ok count
  | none => .ok (count + 1)

/-- A reservation that is dropped gives back its path first and its count after that. -/
inductive Stage
  | active
  | dropping
  | ended
  deriving DecidableEq

structure SpawnReservation where
  stage : Stage
  reservedAgentNickname : Option String
  reservedAgentPath : Option AgentPath

/-- `releasing` counts the releases that have left the maps and not yet decremented the counter. -/
structure State where
  activeAgents : ActiveAgents
  totalCount : Counter
  reservations : List SpawnReservation
  releasing : ℕ

inductive Action
  | registerRoot (threadId : ThreadId)
  | reserve (maxThreads : Option Counter)
  | reserveNickname (i : ℕ) (names : List String) (preferred : Option String) (pick : ℕ)
  | reservePath (i : ℕ) (agentPath : AgentPath)
  | commit (i : ℕ) (metadata : AgentMetadata)
  | drop (i : ℕ)
  | finishDrop (i : ℕ)
  | release (threadId : ThreadId)
  | finishRelease

namespace State

def put (s : State) (i : ℕ) (reservation : SpawnReservation) (activeAgents : ActiveAgents) :
    State :=
  { s with activeAgents, reservations := s.reservations.set i reservation }

def active (s : State) (i : ℕ) : Option SpawnReservation :=
  (s.reservations[i]?).filter (·.stage = .active)

def step (s : State) : Action → Option State
  | .registerRoot threadId =>
    some { s with activeAgents := s.activeAgents.registerRootThread threadId }
  | .reserve maxThreads =>
    match reserveSpawnSlot s.totalCount maxThreads with
    | .error _ => some s
    | .ok totalCount =>
      some { s with totalCount, reservations := s.reservations ++ [⟨.active, none, none⟩] }
  | .reserveNickname i names preferred pick =>
    (s.active i).map fun reservation ↦
      match s.activeAgents.reserveAgentNickname names preferred pick with
      | (activeAgents, some nickname) =>
        s.put i { reservation with reservedAgentNickname := some nickname } activeAgents
      | (activeAgents, none) => { s with activeAgents }
  | .reservePath i agentPath =>
    (s.active i).map fun reservation ↦
      match s.activeAgents.reserveAgentPath agentPath with
      | .ok activeAgents =>
        s.put i { reservation with reservedAgentPath := some agentPath } activeAgents
      | .error _ => s
  | .commit i metadata =>
    (s.active i).map fun _ ↦
      s.put i ⟨.ended, none, none⟩ (s.activeAgents.registerSpawnedThread metadata)
  | .drop i =>
    (s.active i).map fun reservation ↦
      s.put i { reservation with stage := .dropping, reservedAgentPath := none }
        (reservation.reservedAgentPath.elim s.activeAgents s.activeAgents.releaseReservedAgentPath)
  | .finishDrop i =>
    ((s.reservations[i]?).filter (·.stage = .dropping)).map fun reservation ↦
      { s.put i { reservation with stage := .ended } s.activeAgents with
        totalCount := s.totalCount - 1 }
  | .release threadId =>
    let (activeAgents, counted) := s.activeAgents.releaseSpawnedThread threadId
    some { s with activeAgents, releasing := s.releasing + counted.toNat }
  | .finishRelease =>
    if s.releasing = 0 then none
    else some { s with totalCount := s.totalCount - 1, releasing := s.releasing - 1 }

end State

def agentRegistry : System State Action := ⟨⟨.empty, 0, [], 0⟩, State.step⟩

def owner (tree : Map AgentKey AgentMetadata) (key : AgentKey) : Option ThreadId :=
  (tree.lookup key).bind (·.agentId)

/-- The reservations that have counted one and neither committed nor given it back. -/
def State.uncommitted (s : State) : ℕ := s.reservations.countP (·.stage != .ended)

/-- The counter has one for each registered agent other than the root, each uncommitted reservation
and each release that is under way; the paths of threads are the inverse of the tree. -/
structure Consistent (s : State) : Prop where
  counted : s.totalCount.toNat = s.activeAgents.liveAgents.length + s.uncommitted + s.releasing
  inverse : MutuallyInverse s.activeAgents.threadPaths.lookup (owner s.activeAgents.agentTree)

def CanTake (agents : ActiveAgents) (threadId : ThreadId) (key : AgentKey) : Prop :=
  (∀ previous ∈ agents.threadPaths.lookup threadId, previous = .root) ∧
    owner agents.agentTree key = none

instance (agents : ActiveAgents) (threadId : ThreadId) (key : AgentKey) :
    Decidable (CanTake agents threadId key) :=
  inferInstanceAs (Decidable (_ ∧ _))

def KeepsIdentities (s : State) : Action → Prop
  | .registerRoot threadId =>
    s.activeAgents.agentTree.lookup .root = none → s.activeAgents.threadPaths.lookup threadId = none
  | .reserve none => s.totalCount ≠ allOnes 64
  | .commit _ metadata => metadata.isRoot = false ∧
    ∃ threadId ∈ metadata.agentId, CanTake s.activeAgents threadId (metadata.key threadId)
  | _ => True

instance (s : State) : (a : Action) → Decidable (KeepsIdentities s a)
  | .registerRoot _ => inferInstanceAs (Decidable (_ → _))
  | .reserve none => inferInstanceAs (Decidable (_ ≠ _))
  | .commit _ metadata => inferInstanceAs (Decidable (_ ∧ ∃ _ ∈ metadata.agentId, _))
  | .reserve (some _) | .reserveNickname .. | .reservePath .. | .drop _ | .finishDrop _
  | .release _ | .finishRelease => inferInstanceAs (Decidable True)

section Tree

variable {tree : Map AgentKey AgentMetadata} {key : AgentKey} {metadata : AgentMetadata}

def isLive (metadata : AgentMetadata) : Bool := metadata.agentId.isSome && !metadata.isRoot

/-- Every entry stands under its own path. -/
def Keyed (tree : Map AgentKey AgentMetadata) : Prop :=
  ∀ key metadata, tree.lookup key = some metadata → metadata.agentPath = key.agentPath

theorem agentPath_key (metadata : AgentMetadata) (threadId : ThreadId) :
    (metadata.key threadId).agentPath = metadata.agentPath := by
  unfold key
  cases metadata.agentPath <;> rfl

theorem isRoot_eq (h : metadata.agentPath = key.agentPath) :
    metadata.isRoot = decide (key = .root) := by
  unfold isRoot
  rw [h]
  cases key <;> simp [AgentKey.agentPath, AgentKey.root, AgentPath.isRoot, Bool.beq_eq_decide_eq]

theorem owner_insert (tree : Map AgentKey AgentMetadata) (key : AgentKey)
    (metadata : AgentMetadata) :
    owner (tree.insert key metadata) = update (owner tree) key metadata.agentId := by
  funext other
  unfold owner
  rw [lookup_insert_eq_update]
  by_cases ho : other = key
  all_goals simp [ho]

theorem owner_erase (tree : Map AgentKey AgentMetadata) (key : AgentKey) :
    owner (tree.erase key) = update (owner tree) key none := by
  funext other
  unfold owner
  rw [lookup_erase_eq_update]
  by_cases ho : other = key
  · simp [ho]
  · simp [ho]

theorem Keyed.insert (h : Keyed tree) (hp : metadata.agentPath = key.agentPath) :
    Keyed (tree.insert key metadata) := by
  intro other entry he
  rw [lookup_insert_eq_update] at he
  by_cases ho : other = key
  · subst ho
    rw [update_self, some.injEq] at he
    exact he ▸ hp
  · rw [update_of_ne ho] at he
    exact h other entry he

theorem Keyed.erase (h : Keyed tree) (key : AgentKey) : Keyed (tree.erase key) := by
  intro other entry he
  rw [lookup_erase_eq_update] at he
  by_cases ho : other = key
  · simp [ho] at he
  · rw [update_of_ne ho] at he
    exact h other entry he

theorem length_liveAgents (agents : ActiveAgents) :
    agents.liveAgents.length = countEntries (fun _ ↦ isLive) agents.agentTree := by
  unfold liveAgents countEntries
  rw [← List.countP_eq_length_filter, List.countP_map]
  rfl

theorem share_isLive (h : Keyed tree) (key : AgentKey) :
    share (fun _ ↦ isLive) tree key =
      if (owner tree key).isSome = true ∧ key ≠ .root then 1 else 0 := by
  unfold share owner
  cases hlook : tree.lookup key with
  | none => simp
  | some metadata => simp [isLive, isRoot_eq (h key metadata hlook)]

end Tree

/-! ## What the operations do to the two maps -/

section Operations

variable {agents agents' : ActiveAgents} {threadId : ThreadId} {metadata : AgentMetadata}

def live (agents : ActiveAgents) : ℕ := countEntries (fun _ ↦ isLive) agents.agentTree

def Linked (agents : ActiveAgents) : Prop :=
  MutuallyInverse agents.threadPaths.lookup (owner agents.agentTree)

/-- An operation that neither adds nor removes an agent. -/
structure KeepsAgents (agents agents' : ActiveAgents) : Prop where
  live : live agents' = live agents
  owner : owner agents'.agentTree = owner agents.agentTree
  paths : agents'.threadPaths = agents.threadPaths
  keyed : Keyed agents.agentTree → Keyed agents'.agentTree

theorem KeepsAgents.refl (agents : ActiveAgents) : KeepsAgents agents agents :=
  ⟨rfl, rfl, rfl, id⟩

theorem KeepsAgents.linked (h : KeepsAgents agents agents') (hl : Linked agents) :
    Linked agents' := by
  unfold Linked
  rw [h.owner, h.paths]
  exact hl

theorem keepsAgents_reserveAgentPath {agentPath : AgentPath}
    (h : agents.reserveAgentPath agentPath = .ok agents') : KeepsAgents agents agents' := by
  unfold reserveAgentPath at h
  split at h
  next => cases h
  next hv =>
    obtain rfl := Except.ok.inj h
    refine ⟨?_, ?_, rfl, fun hkeyed ↦ hkeyed.insert rfl⟩
    · unfold live
      have hc := countEntries_insert (fun _ ↦ isLive) agents.agentTree (.path agentPath)
        (.placeholder agentPath)
      simpa [share, hv, isLive, placeholder] using hc
    · rw [owner_insert]
      apply update_eq_self_iff.mpr
      simp [owner, hv, placeholder]

theorem keepsAgents_releaseReservedAgentPath (agents : ActiveAgents) (agentPath : AgentPath) :
    KeepsAgents agents (agents.releaseReservedAgentPath agentPath) := by
  unfold releaseReservedAgentPath
  split
  next hr =>
    obtain ⟨_, hm, hid⟩ := (any_eq_true _ _).mp hr
    rw [isNone_iff_eq_none] at hid
    refine ⟨?_, ?_, rfl, fun hkeyed ↦ hkeyed.erase _⟩
    · unfold live
      have hc := countEntries_erase (fun _ ↦ isLive) agents.agentTree (.path agentPath)
      simpa [share, hm, isLive, hid] using hc
    · rw [owner_erase]
      apply update_eq_self_iff.mpr
      simp [owner, hm, hid]
  next => exact .refl agents

theorem keepsAgents_reserveAgentNickname (agents : ActiveAgents) (names : List String)
    (preferred : Option String) (pick : ℕ) :
    KeepsAgents agents (agents.reserveAgentNickname names preferred pick).1 := by
  unfold reserveAgentNickname
  cases preferred with
  | some => exact ⟨rfl, rfl, rfl, id⟩
  | none =>
    dsimp only
    split_ifs
    · exact .refl agents
    · split
      · exact ⟨rfl, rfl, rfl, id⟩
      · split <;> exact ⟨rfl, rfl, rfl, id⟩

theorem linked_registerRootThread_iff (hl : Linked agents) :
    Linked (agents.registerRootThread threadId) ↔
      (agents.agentTree.lookup .root = none → agents.threadPaths.lookup threadId = none) := by
  unfold registerRootThread
  split
  next hr =>
    simp only [hr, reduceCtorEq, false_imp_iff, iff_true]
    split
    next rootThreadId hid =>
      -- the path that is written is the one that the root has already
      have hp : agents.threadPaths.lookup rootThreadId = some .root := by
        apply (hl rootThreadId .root).mpr
        simp [owner, hr, hid]
      unfold Linked
      rw [funext (lookup_insert_eq_update _ _ _), ← hp, update_eq_self]
      exact hl
    next => exact hl
  next hv =>
    have hu : owner agents.agentTree .root = none := by simp [owner, hv]
    unfold Linked
    rw [funext (lookup_insert_eq_update _ _ _), owner_insert]
    constructor
    · intro hn _
      by_contra hk
      obtain ⟨key, hke⟩ := ne_none_iff_exists'.mp hk
      have ho : owner agents.agentTree key = some threadId := (hl threadId key).mp hke
      have hne : key ≠ .root := by
        rintro rfl
        simp [hu] at ho
      have hb := (hn threadId key).mpr (by rw [update_of_ne hne, ho])
      rw [update_self, some.injEq] at hb
      exact hne hb.symm
    · intro hf
      exact hl.link (hf hv) hu

theorem live_registerRootThread (agents : ActiveAgents) (threadId : ThreadId) :
    live (agents.registerRootThread threadId) = live agents := by
  unfold registerRootThread
  split
  next => split <;> rfl
  next hv =>
    unfold live
    have hc := countEntries_insert (fun _ ↦ isLive) agents.agentTree .root (.ofRoot threadId)
    simpa [share, hv, isLive, ofRoot, isRoot, AgentPath.isRoot] using hc

section

variable (hkeyed : Keyed agents.agentTree)
include hkeyed

theorem keyed_registerRootThread : Keyed (agents.registerRootThread threadId).agentTree := by
  unfold registerRootThread
  split
  next => split <;> exact hkeyed
  next => exact hkeyed.insert rfl

omit hkeyed in
theorem live_releaseSpawnedThread (hl : Linked agents) (hkeyed : Keyed agents.agentTree)
    (threadId : ThreadId) :
    live (agents.releaseSpawnedThread threadId).1 +
      (agents.releaseSpawnedThread threadId).2.toNat = live agents := by
  unfold releaseSpawnedThread
  split
  next => simp
  next path hp =>
    have ho := (hl threadId path).mp hp
    obtain ⟨metadata, hm, _⟩ := bind_eq_some_iff.mp ho
    have hc := countEntries_erase (fun _ ↦ isLive) agents.agentTree path
    rw [share_isLive hkeyed, ho] at hc
    unfold live
    simp only [hm, any_some, isRoot_eq (hkeyed path metadata hm)]
    by_cases hr : path = .root <;> simpa [hr] using hc

omit hkeyed in
theorem linked_releaseSpawnedThread (hl : Linked agents) (threadId : ThreadId) :
    Linked (agents.releaseSpawnedThread threadId).1 := by
  unfold releaseSpawnedThread
  split
  next => exact hl
  next hp =>
    unfold Linked
    rw [funext (lookup_erase_eq_update _ _), owner_erase]
    exact hl.unlink hp

theorem keyed_releaseSpawnedThread (threadId : ThreadId) :
    Keyed (agents.releaseSpawnedThread threadId).1.agentTree := by
  unfold releaseSpawnedThread
  split
  · exact hkeyed
  · exact hkeyed.erase _

theorem keyed_withoutPrevious (threadId : ThreadId)
    (key : AgentKey) : Keyed (agents.withoutPrevious threadId key) := by
  unfold withoutPrevious
  split
  · split
    · exact hkeyed
    · exact hkeyed.erase _
  · exact hkeyed

theorem keyed_registerSpawnedThread (metadata : AgentMetadata) :
    Keyed (agents.registerSpawnedThread metadata).agentTree := by
  unfold registerSpawnedThread
  split
  · exact hkeyed
  · exact (keyed_withoutPrevious hkeyed _ _).insert (agentPath_key metadata _).symm

end

theorem owner_withoutPrevious (agents : ActiveAgents) (threadId : ThreadId) (key : AgentKey) :
    owner (agents.withoutPrevious threadId key) key = owner agents.agentTree key := by
  unfold withoutPrevious
  split
  next =>
    split
    next => rfl
    next hne => rw [owner_erase, update_of_ne (Ne.symm hne)]
  next => rfl

theorem countEntries_withoutPrevious (hl : Linked agents) (hkeyed : Keyed agents.agentTree)
    (threadId : ThreadId) (key : AgentKey) :
    countEntries (fun _ ↦ isLive) (agents.withoutPrevious threadId key) +
      (if ∃ prev ∈ agents.threadPaths.lookup threadId, prev ≠ key ∧ prev ≠ .root
        then 1 else 0) = live agents := by
  unfold withoutPrevious
  split
  next prev hp =>
    have ho := (hl threadId prev).mp hp
    split
    next hsa => simp [hp, hsa, live]
    next hne =>
      have hc := countEntries_erase (fun _ ↦ isLive) agents.agentTree prev
      rw [share_isLive hkeyed, ho] at hc
      simpa [hp, hne, live] using hc
  next hn => simp [hn, live]

theorem live_registerSpawnedThread_iff (hl : Linked agents) (hkeyed : Keyed agents.agentTree)
    (hid : metadata.agentId = some threadId) :
    live (agents.registerSpawnedThread metadata) = live agents + 1 ↔
      metadata.isRoot = false ∧ CanTake agents threadId (metadata.key threadId) := by
  have hi := countEntries_insert (fun _ ↦ isLive)
    (agents.withoutPrevious threadId (metadata.key threadId)) (metadata.key threadId) metadata
  have hp := countEntries_withoutPrevious hl hkeyed threadId (metadata.key threadId)
  have hlive : live (agents.registerSpawnedThread metadata) = countEntries (fun _ ↦ isLive)
      ((agents.withoutPrevious threadId (metadata.key threadId)).insert (metadata.key threadId)
        metadata) := by
    simp [live, registerSpawnedThread, hid]
  rw [share_isLive (keyed_withoutPrevious hkeyed _ _), owner_withoutPrevious] at hi
  rw [hlive]
  have hr := isRoot_eq (agentPath_key metadata threadId).symm
  cases hm : metadata.isRoot with
  | true =>
    simp only [isLive, hm, Bool.not_true, Bool.and_false, Bool.false_eq_true, if_false] at hi
    simp only [Bool.true_eq_false, false_and, iff_false]
    omega
  | false =>
    rw [hm, eq_comm, decide_eq_false_iff_not] at hr
    simp only [isLive, hm, hid, isSome_some, Bool.not_false, Bool.and_true, if_true,
      ne_eq, hr, not_false_eq_true, and_true] at hi
    simp only [true_and]
    constructor
    · intro _
      have hu : ¬ (owner agents.agentTree (metadata.key threadId)).isSome = true := by
        intro ho
        rw [if_pos ho] at hi
        omega
      have hk : ¬ ∃ prev ∈ agents.threadPaths.lookup threadId,
          prev ≠ metadata.key threadId ∧ prev ≠ .root := by
        intro hmo
        rw [if_pos hmo] at hp
        omega
      refine ⟨fun prev hme ↦ ?_, by simpa using hu⟩
      by_contra hne
      refine hk ⟨prev, hme, ?_, hne⟩
      rintro rfl
      exact hu (by rw [(hl threadId _).mp hme, isSome_some])
    · intro hf
      have hk : ¬ ∃ prev ∈ agents.threadPaths.lookup threadId,
          prev ≠ metadata.key threadId ∧ prev ≠ .root := by
        rintro ⟨prev, hme, -, hne⟩
        exact hne (hf.1 prev hme)
      rw [if_neg hk] at hp
      rw [hf.2, isSome_none, if_neg (by simp)] at hi
      omega

theorem linked_registerSpawnedThread (hl : Linked agents)
    (hid : metadata.agentId = some threadId) (hm : metadata.isRoot = false)
    (hf : CanTake agents threadId (metadata.key threadId)) :
    Linked (agents.registerSpawnedThread metadata) := by
  have hr := isRoot_eq (agentPath_key metadata threadId).symm
  rw [hm, eq_comm, decide_eq_false_iff_not] at hr
  have hu := owner_withoutPrevious agents threadId (metadata.key threadId)
  rw [hf.2] at hu
  have hpa : (agents.registerSpawnedThread metadata).threadPaths =
      agents.threadPaths.insert threadId (metadata.key threadId) := by
    unfold owner at hu
    simp [registerSpawnedThread, hid, hu]
  have htr : (agents.registerSpawnedThread metadata).agentTree =
      (agents.withoutPrevious threadId (metadata.key threadId)).insert (metadata.key threadId)
        metadata := by
    simp [registerSpawnedThread, hid]
  unfold Linked
  rw [hpa, htr, funext (lookup_insert_eq_update _ _ _), owner_insert, hid]
  unfold withoutPrevious
  split
  next prev hp =>
    -- only the root can move to another key
    obtain rfl := hf.1 prev hp
    have ht : update agents.threadPaths.lookup threadId
        (some (metadata.key threadId)) = update (update agents.threadPaths.lookup
          threadId none) threadId (some (metadata.key threadId)) :=
      (update_idem _ _ _).symm
    rw [if_neg (Ne.symm hr), owner_erase, ht]
    apply (hl.unlink hp).link
    · rw [update_self]
    · rw [update_of_ne hr, hf.2]
  next hn => exact hl.link hn hf.2

end Operations

/-! ## Every run -/

section Runs

variable {s s' : State} {i : ℕ} {resv : SpawnReservation}

theorem active_eq_some (h : s.active i = some resv) :
    s.reservations[i]? = some resv ∧ resv.stage = .active := by
  obtain ⟨hr, hst⟩ := filter_eq_some_iff.mp h
  exact ⟨hr, of_decide_eq_true hst⟩

theorem uncommitted_set (h : s.reservations[i]? = some resv) (next : SpawnReservation) :
    (s.reservations.set i next).countP (·.stage != .ended) +
      (if resv.stage ≠ .ended then 1 else 0) =
        s.uncommitted + if next.stage ≠ .ended then 1 else 0 := by
  have hc := countP_set_of_getElem? (p := (·.stage != .ended)) h next
  simpa only [State.uncommitted, bne_iff_ne] using hc

theorem consistent_iff : Consistent s ↔
    s.totalCount.toNat = live s.activeAgents + s.uncommitted + s.releasing ∧
      Linked s.activeAgents := by
  constructor
  · intro h
    exact ⟨h.counted.trans (by rw [length_liveAgents, live]), h.inverse⟩
  · rintro ⟨hcntd, hl⟩
    exact ⟨hcntd.trans (by rw [length_liveAgents, live]), hl⟩

theorem consistent_of_keepsAgents (h : KeepsAgents s.activeAgents s'.activeAgents)
    (hc : s'.totalCount = s.totalCount) (huncom : s'.uncommitted = s.uncommitted)
    (hreleasing : s'.releasing = s.releasing) (hs : Consistent s) : Consistent s' := by
  rw [consistent_iff] at hs ⊢
  rw [hc, huncom, hreleasing, h.live]
  exact ⟨hs.1, h.linked hs.2⟩

theorem uncommitted_put (h : s.reservations[i]? = some resv) {next : SpawnReservation}
    (hst : resv.stage ≠ .ended ↔ next.stage ≠ .ended) (activeAgents : ActiveAgents) :
    (s.put i next activeAgents).uncommitted = s.uncommitted := by
  have hc := uncommitted_set h next
  simp only [hst] at hc
  exact Nat.add_right_cancel hc

theorem toNat_add_one {count : Counter} :
    (count + 1).toNat = if count = allOnes 64 then 0 else count.toNat + 1 := by
  split
  next hm => rw [hm]; rfl
  next hr =>
    have hlt := count.isLt
    have hne : count.toNat ≠ 2 ^ 64 - 1 := fun heq ↦ hr (eq_of_toNat_eq heq)
    rw [toNat_add]
    simp
    omega

theorem toNat_sub_one {count : Counter} (h : 0 < count.toNat) :
    (count - 1).toNat = count.toNat - 1 := by
  have hlt := count.isLt
  rw [toNat_sub]
  simp
  omega

theorem consistent_reserve_iff (hs : Consistent s) {maxThreads : Option Counter}
    (h : agentRegistry.step s (.reserve maxThreads) = some s') :
    Consistent s' ↔ KeepsIdentities s (.reserve maxThreads) := by
  have ha (totalCount : Counter) : State.uncommitted { s with
      totalCount, reservations := s.reservations ++ [⟨.active, none, none⟩] } =
        s.uncommitted + 1 := by
    simp [State.uncommitted, List.countP_append]
  have hsp := consistent_iff.mp hs
  cases maxThreads with
  | none =>
    cases h
    rw [consistent_iff, ha, toNat_add_one]
    unfold KeepsIdentities
    split
    next hm =>
      refine iff_of_false (fun hconsistent ↦ ?_) fun hr ↦ hr hm
      have hcntd := hconsistent.1
      simp only at hcntd
      omega
    next hr =>
      refine iff_of_true ⟨?_, hsp.2⟩ hr
      simp only
      omega
  | some maxThreads =>
    refine iff_of_true ?_ trivial
    simp only [agentRegistry, State.step, reserveSpawnSlot, tryIncrementSpawned] at h
    by_cases hl : maxThreads ≤ s.totalCount
    · rw [if_pos hl] at h
      exact some.inj h ▸ hs
    · rw [if_neg hl] at h
      cases h
      -- below a limit the counter is not at its end
      have hr : s.totalCount ≠ allOnes 64 := by
        intro hm
        apply hl
        have hlt := maxThreads.isLt
        rw [hm, le_def, toNat_allOnes]
        omega
      rw [consistent_iff, ha, toNat_add_one, if_neg hr]
      refine ⟨?_, hsp.2⟩
      simp only
      omega

theorem consistent_commit_iff (hs : Consistent s) (hkeyed : Keyed s.activeAgents.agentTree)
    (h : s.reservations[i]? = some resv) (hst : resv.stage = .active)
    (metadata : AgentMetadata) :
    Consistent (s.put i ⟨.ended, none, none⟩ (s.activeAgents.registerSpawnedThread metadata)) ↔
      KeepsIdentities s (.commit i metadata) := by
  have hsp := consistent_iff.mp hs
  have hc := uncommitted_set h ⟨.ended, none, none⟩
  rw [if_pos (by simp [hst])] at hc
  have he : (s.put i ⟨.ended, none, none⟩
      (s.activeAgents.registerSpawnedThread metadata)).uncommitted + 1 = s.uncommitted := hc
  rw [consistent_iff]
  unfold KeepsIdentities
  cases hid : metadata.agentId with
  | none =>
    -- without a thread nothing is registered, and the count of the reservation is lost
    have hsa : s.activeAgents.registerSpawnedThread metadata = s.activeAgents := by
      simp [registerSpawnedThread, hid]
    rw [hsa] at he ⊢
    simp only [hid, mem_def, reduceCtorEq, false_and, exists_false, and_false, iff_false]
    intro hcntd
    simp only [State.put] at hcntd he
    omega
  | some =>
    have hlive := live_registerSpawnedThread_iff hsp.2 hkeyed hid
    simp only [hid, mem_def, some.injEq, exists_eq_left']
    constructor
    · rintro ⟨hcntd, -⟩
      apply hlive.mp
      simp only [State.put] at hcntd he
      omega
    · intro hkeeps
      have ha := hlive.mpr hkeeps
      refine ⟨?_, linked_registerSpawnedThread hsp.2 hid hkeeps.1 hkeeps.2⟩
      simp only [State.put] at he ⊢
      omega

theorem consistent_step_iff {a : Action} (hs : Consistent s)
    (hkeyed : Keyed s.activeAgents.agentTree)
    (h : agentRegistry.step s a = some s') : Consistent s' ↔ KeepsIdentities s a := by
  have hsp := consistent_iff.mp hs
  cases a with
  | registerRoot =>
    cases h
    rw [consistent_iff]
    simp only [live_registerRootThread, linked_registerRootThread_iff hsp.2]
    exact and_iff_right hsp.1
  | reserve => exact consistent_reserve_iff hs h
  | reserveNickname i names preferred pick =>
    obtain ⟨_, ha, rfl⟩ := map_eq_some_iff.mp h
    obtain ⟨hr, _⟩ := active_eq_some ha
    have hkeeps := keepsAgents_reserveAgentNickname s.activeAgents names preferred pick
    refine iff_of_true ?_ trivial
    split
    next hn =>
      rw [hn] at hkeeps
      exact consistent_of_keepsAgents hkeeps rfl (uncommitted_put hr (by simp) _) rfl hs
    next hn =>
      rw [hn] at hkeeps
      exact consistent_of_keepsAgents hkeeps rfl rfl rfl hs
  | reservePath =>
    obtain ⟨_, ha, rfl⟩ := map_eq_some_iff.mp h
    obtain ⟨hr, _⟩ := active_eq_some ha
    refine iff_of_true ?_ trivial
    split
    next hp =>
      exact consistent_of_keepsAgents (keepsAgents_reserveAgentPath hp) rfl
        (uncommitted_put hr (by simp) _) rfl hs
    next => exact hs
  | commit i metadata =>
    obtain ⟨_, ha, rfl⟩ := map_eq_some_iff.mp h
    obtain ⟨hr, hst⟩ := active_eq_some ha
    exact consistent_commit_iff hs hkeyed hr hst metadata
  | drop =>
    obtain ⟨resv, ha, rfl⟩ := map_eq_some_iff.mp h
    obtain ⟨hr, hst⟩ := active_eq_some ha
    have hkeeps : KeepsAgents s.activeAgents (resv.reservedAgentPath.elim s.activeAgents
        s.activeAgents.releaseReservedAgentPath) := by
      cases resv.reservedAgentPath with
      | none => exact .refl _
      | some agentPath => exact keepsAgents_releaseReservedAgentPath _ agentPath
    have hc := uncommitted_set hr { resv with stage := .dropping, reservedAgentPath := none }
    rw [if_pos (by simp [hst])] at hc
    refine iff_of_true ?_ trivial
    exact consistent_of_keepsAgents hkeeps rfl (Nat.add_right_cancel hc) rfl hs
  | finishDrop =>
    obtain ⟨resv, hd, rfl⟩ := map_eq_some_iff.mp h
    obtain ⟨hr, hst⟩ := filter_eq_some_iff.mp hd
    have hc := uncommitted_set hr { resv with stage := .ended }
    rw [if_pos (by simp [of_decide_eq_true hst]), if_neg (by simp)] at hc
    refine iff_of_true ?_ trivial
    rw [consistent_iff]
    refine ⟨?_, hsp.2⟩
    rw [toNat_sub_one (by omega)]
    simp only [State.put, State.uncommitted] at hc hsp ⊢
    omega
  | release threadId =>
    have hne : s' = { s with
        activeAgents := (s.activeAgents.releaseSpawnedThread threadId).1
        releasing := s.releasing + (s.activeAgents.releaseSpawnedThread threadId).2.toNat } :=
      (some.inj h).symm
    subst hne
    have hlive := live_releaseSpawnedThread hsp.2 hkeyed threadId
    refine iff_of_true ?_ trivial
    rw [consistent_iff]
    refine ⟨?_, linked_releaseSpawnedThread hsp.2 threadId⟩
    simp only [State.uncommitted] at hsp ⊢
    omega
  | finishRelease =>
    simp only [agentRegistry, State.step] at h
    split at h
    next => cases h
    next =>
      cases h
      refine iff_of_true ?_ trivial
      rw [consistent_iff]
      refine ⟨?_, hsp.2⟩
      rw [toNat_sub_one (by omega)]
      simp only [State.uncommitted] at hsp ⊢
      omega

theorem keyed_step {a : Action} (hkeyed : Keyed s.activeAgents.agentTree)
    (h : agentRegistry.step s a = some s') : Keyed s'.activeAgents.agentTree := by
  cases a with
  | registerRoot =>
    cases h
    exact keyed_registerRootThread hkeyed
  | reserve =>
    simp only [agentRegistry, State.step] at h
    split at h <;> obtain rfl := some.inj h <;> exact hkeyed
  | reserveNickname i names preferred pick =>
    obtain ⟨_, -, rfl⟩ := map_eq_some_iff.mp h
    have hkeeps := keepsAgents_reserveAgentNickname s.activeAgents names preferred pick
    split
    next hn =>
      rw [hn] at hkeeps
      exact hkeeps.keyed hkeyed
    next hn =>
      rw [hn] at hkeeps
      exact hkeeps.keyed hkeyed
  | reservePath =>
    obtain ⟨_, -, rfl⟩ := map_eq_some_iff.mp h
    split
    next hp => exact (keepsAgents_reserveAgentPath hp).keyed hkeyed
    next => exact hkeyed
  | commit i metadata =>
    obtain ⟨_, -, rfl⟩ := map_eq_some_iff.mp h
    exact keyed_registerSpawnedThread hkeyed metadata
  | drop =>
    obtain ⟨resv, -, rfl⟩ := map_eq_some_iff.mp h
    cases hp : resv.reservedAgentPath with
    | none => simpa [State.put, hp] using hkeyed
    | some agentPath =>
      simpa [State.put, hp] using
        (keepsAgents_releaseReservedAgentPath s.activeAgents agentPath).keyed hkeyed
  | finishDrop =>
    obtain ⟨_, -, rfl⟩ := map_eq_some_iff.mp h
    exact hkeyed
  | release threadId =>
    cases h
    exact keyed_releaseSpawnedThread hkeyed threadId
  | finishRelease =>
    simp only [agentRegistry, State.step] at h
    split at h
    · cases h
    · cases h
      exact hkeyed

/-- Where every commit and every root registration names identities that are free, the counter and
the two maps agree, and any other commit, registration or overflow from such a state breaks it. -/
theorem guarded_registry_consistent (hs : agentRegistry.Guarded KeepsIdentities s) :
    Consistent s ∧ ∀ a s', agentRegistry.step s a = some s' →
      (Consistent s' ↔ KeepsIdentities s a) := by
  have hinv : Consistent s ∧ Keyed s.activeAgents.agentTree := by
    apply hs.invariant fun s ↦ Consistent s ∧ Keyed s.activeAgents.agentTree
    · refine ⟨⟨rfl, ?_⟩, ?_⟩
      · exact mutuallyInverse_none
      · intro _ _ hlook
        cases hlook
    · intro s a s' ⟨hconsistent, hkeyed⟩ hkeeps hstep
      exact ⟨(consistent_step_iff hconsistent hkeyed hstep).mpr hkeeps, keyed_step hkeyed hstep⟩
  exact ⟨hinv.1, fun a s' hstep ↦ consistent_step_iff hinv.1 hinv.2 hstep⟩

end Runs

def pathless (threadId : ThreadId) : AgentMetadata := ⟨some threadId, none, none, none⟩

/-- The root spawns one child on a path and fails to spawn another; the first child ends. -/
def spawnedAndReleased : List Action :=
  [.registerRoot ⟨0⟩, .reserve (some 2), .reservePath 0 ⟨"/root/one"⟩,
    .commit 0 ⟨some ⟨1⟩, some ⟨"/root/one"⟩, none, none⟩, .reserve none,
    .reservePath 1 ⟨"/root/two"⟩, .drop 1, .finishDrop 1, .reserve none, .commit 2 (pathless ⟨2⟩),
    .release ⟨1⟩, .finishRelease]

theorem guarded_registry_consistent_spawnedAndReleased :
    ∃ s, Consistent s ∧ s.totalCount = 1 ∧ s.activeAgents.liveAgents = [pathless ⟨2⟩] := by
  obtain ⟨s, hs, hcheck⟩ := exists_guarded_of_runIf agentRegistry KeepsIdentities spawnedAndReleased
    (fun s ↦ decide (s.totalCount = 1 ∧ s.activeAgents.liveAgents = [pathless ⟨2⟩]))
    (by decide +kernel)
  exact ⟨s, (guarded_registry_consistent hs).1, of_decide_eq_true hcheck⟩

/-- A thread without a path is unloaded but stays registered, and is resumed: it commits again. -/
def resumedTwice : List Action :=
  [.reserve none, .commit 0 (pathless ⟨1⟩), .reserve none, .commit 1 (pathless ⟨1⟩)]

theorem reachable_registry_inconsistent : ¬ ∀ s, agentRegistry.Reachable s → Consistent s := by
  intro hclaim
  obtain ⟨s, hs, hcheck⟩ := exists_reachable_of_run agentRegistry resumedTwice
    (fun s ↦ decide (s.totalCount = 2 ∧ s.activeAgents.liveAgents = [pathless ⟨1⟩] ∧
      s.uncommitted = 0 ∧ s.releasing = 0)) (by decide +kernel)
  obtain ⟨htotal, hlive, huncom, hreleasing⟩ := of_decide_eq_true hcheck
  have hcntd := (hclaim s hs).counted
  rw [htotal, hlive, huncom, hreleasing] at hcntd
  exact absurd hcntd (by decide)

end Slopdex.Agent.Registry
