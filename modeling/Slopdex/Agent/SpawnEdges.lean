import Slopdex.Protocol.Session
import Slopdex.Library.Transition
import Slopdex.Library.FirstMatch
import Slopdex.Library.KeyedMap

/-!
# Spawned threads and their durable edges

A spawned thread is known as a loaded runtime, with a new incarnation number at each registration,
and as an edge from its parent in the database. Registrations, the persisting of edges, closes and
removals exclude each other by the registration fence; resuming a thread and reconciling edges do
not take it. The database update of a close runs as a task of its own: a close that is dropped
meanwhile gives up the fence, and the update may come when the thread has a later incarnation.
-/

namespace Slopdex.Agent.SpawnEdges

open Protocol Library.Transition Library.Transition.System
open Library.FirstMatch Library.KeyedMap Option List AList

inductive EdgeStatus
  | opened
  | closed
  deriving DecidableEq

/-- The incoming edge of a thread. The program does not store `openedBy`: it is the incarnation for
which the edge was persisted last. -/
structure SpawnEdge where
  parentThreadId : ThreadId
  status : EdgeStatus
  openedBy : Option ℕ
  deriving DecidableEq

abbrev EdgeTable := Map ThreadId SpawnEdge

inductive CloseOutcome
  | newlyClosed
  | alreadyExactClosed
  | mismatchOrMissing

def closeOpenThreadSpawnEdge (edges : EdgeTable) (parentThreadId childThreadId : ThreadId) :
    EdgeTable × CloseOutcome :=
  match edges.lookup childThreadId with
  | none => (edges, .mismatchOrMissing)
  | some edge =>
    if edge.parentThreadId = parentThreadId then
      match edge.status with
      | .opened => (edges.insert childThreadId { edge with status := .closed }, .newlyClosed)
      | .closed => (edges, .alreadyExactClosed)
    else (edges, .mismatchOrMissing)

def upsertThreadSpawnEdge (edges : EdgeTable) (childThreadId : ThreadId) (edge : SpawnEdge) :
    EdgeTable :=
  edges.insert childThreadId edge

def insertThreadSpawnEdgeIfAbsent (edges : EdgeTable) (parentThreadId childThreadId : ThreadId) :
    EdgeTable :=
  match edges.lookup childThreadId with
  | some _ => edges
  | none => edges.insert childThreadId ⟨parentThreadId, .opened, none⟩

structure ThreadRef where
  address : ℕ
  deriving DecidableEq

structure Runtime where
  threadId : ThreadId
  ephemeral : Bool
  sessionSource : SessionSource
  incarnation : ℕ

/-- The thread manager and the database. Addresses are positions in `runtimes`. -/
structure Manager where
  threads : Map ThreadId ThreadRef
  next : ℕ
  latest : Map ThreadId (ℕ × ThreadRef)
  runtimes : List Runtime
  edges : EdgeTable

namespace Manager

def empty : Manager := ⟨∅, 0, ∅, [], ∅⟩

variable (manager : Manager)

def runtime (thread : ThreadRef) : Option Runtime :=
  manager.runtimes[thread.address]?

variable (threadId : ThreadId)

def getThread : Option ThreadRef :=
  (manager.threads.lookup threadId).filter fun thread ↦
    (manager.runtime thread).any (!·.sessionSource.isInternal)

def threadIncarnation : Option ℕ :=
  (manager.latest.lookup threadId).map (·.1)

def threadIncarnationFor (expected : ThreadRef) : Option ℕ :=
  ((manager.latest.lookup threadId).filter fun entry ↦ entry.2 = expected).map (·.1)

def durableParent (thread : ThreadRef) : Option ThreadId :=
  (manager.runtime thread).bind fun runtime ↦
    if runtime.ephemeral then none else runtime.sessionSource.parentThreadId

/-- The last part of `finalize_thread_spawn`. A thread id that is loaded is refused, and the
exhausted counter ends the program. -/
def register (ephemeral : Bool)
    (sessionSource : SessionSource) : Option Manager :=
  match manager.threads.lookup threadId with
  | some _ => some manager
  | none =>
    if manager.next = u64Max then none
    else
      let incarnation := manager.next + 1
      let thread : ThreadRef := ⟨manager.runtimes.length⟩
      some { manager with
        next := incarnation
        latest := manager.latest.insert threadId (incarnation, thread)
        threads := manager.threads.insert threadId thread
        runtimes := manager.runtimes ++ [⟨threadId, ephemeral, sessionSource, incarnation⟩] }

def removeIfMatches (expected : ThreadRef) : Manager :=
  if manager.threads.lookup threadId = some expected then
    { manager with threads := manager.threads.erase threadId }
  else manager

end Manager

/-! ## Closing and persisting -/

/-- The errors carry what their texts are formatted from. -/
inductive CodexErr
  | threadNotFound (threadId : ThreadId)
  | changedIncarnation (childThreadId : ThreadId)
  | graphStoreUnavailable (parentThreadId childThreadId : ThreadId)
  | graphStoreFailed (parentThreadId childThreadId : ThreadId)
  | missingOrMismatched (parentThreadId childThreadId : ThreadId)
  deriving DecidableEq

/-- What a call reports: `Err`, `Ok(None)` and `Ok(Some(_))` of a close, `Ok(())` of a persist. -/
inductive Outcome
  | failed (err : CodexErr)
  | mismatch
  | closed
  | persisted
  deriving DecidableEq

inductive Kind
  | close (expectedIncarnation : Option ℕ)
  | persist (parentThreadId : ThreadId)
  deriving DecidableEq

inductive Stage
  | waiting
  | checking
  | writing (parentThreadId : ThreadId)
  | removing
  | abandoned
  /-- The close was dropped, and the task of its update goes on. -/
  | detached (parentThreadId : ThreadId)
  | reported (outcome : Outcome)
  deriving DecidableEq

def Stage.fenced : Stage → Bool
  | checking | writing _ | removing => true
  | waiting | abandoned | detached _ | reported _ => false

variable {parent : ThreadId} {stage : Stage}

/-- A call of `close_spawn_edge_and_remove_if_matches` or `persist_open_spawn_edge_if_matches`. -/
structure Task where
  kind : Kind
  childThreadId : ThreadId
  expected : ThreadRef
  stage : Stage
  deriving DecidableEq

/-- The parts of a call between which it waits. A write can fail before or after it took effect. -/
inductive Part
  | check (graphStore : Bool)
  | write (failure : Option Bool)
  | remove

namespace Task

def checkClose (task : Task) (manager : Manager) (expectedIncarnation : Option ℕ)
    (graphStore : Bool) : Stage :=
  if expectedIncarnation = none ∨
      manager.threadIncarnationFor task.childThreadId task.expected ≠ expectedIncarnation then
    .reported .mismatch
  else match manager.durableParent task.expected with
    | none => .removing
    | some parent =>
      if graphStore then .writing parent
      else .reported (.failed (.graphStoreUnavailable parent task.childThreadId))

def checkPersist (task : Task) (manager : Manager) (parent : ThreadId) (graphStore : Bool) : Stage :=
  match manager.getThread task.childThreadId with
  | none => .reported (.failed (.threadNotFound task.childThreadId))
  | some registered =>
    if registered ≠ task.expected ∨
        manager.threadIncarnationFor task.childThreadId task.expected = none then
      .reported (.failed (.changedIncarnation task.childThreadId))
    else if graphStore then .writing parent
    else .reported (.failed (.graphStoreUnavailable parent task.childThreadId))

def writeClose (task : Task) (manager : Manager) (parent : ThreadId) (failure : Option Bool) :
    Manager × Stage :=
  let (edges, outcome) := closeOpenThreadSpawnEdge manager.edges parent task.childThreadId
  match failure, outcome with
  | some false, _ => (manager, .reported (.failed (.graphStoreFailed parent task.childThreadId)))
  | some true, _ =>
    ({ manager with edges }, .reported (.failed (.graphStoreFailed parent task.childThreadId)))
  | none, .mismatchOrMissing =>
    ({ manager with edges }, .reported (.failed (.missingOrMismatched parent task.childThreadId)))
  | none, .newlyClosed | none, .alreadyExactClosed => ({ manager with edges }, .removing)

def writePersist (task : Task) (manager : Manager) (parent : ThreadId) (failure : Option Bool) :
    Manager × Stage :=
  let edges := upsertThreadSpawnEdge manager.edges task.childThreadId
    ⟨parent, .opened, (manager.runtime task.expected).map (·.incarnation)⟩
  match failure with
  | some false => (manager, .reported (.failed (.graphStoreFailed parent task.childThreadId)))
  | some true =>
    ({ manager with edges }, .reported (.failed (.graphStoreFailed parent task.childThreadId)))
  | none => ({ manager with edges }, .reported .persisted)

/-- One part of a call that holds the fence, or the update of a close that was dropped. A close that
finds its runtime gone still succeeds. -/
def advance (task : Task) (manager : Manager) (part : Part) : Option (Manager × Stage) :=
  match part, task.stage, task.kind with
  | .check graphStore, .checking, .close expectedIncarnation =>
    some (manager, task.checkClose manager expectedIncarnation graphStore)
  | .check graphStore, .checking, .persist parent =>
    some (manager, task.checkPersist manager parent graphStore)
  | .write failure, .writing parent, .close _ => some (task.writeClose manager parent failure)
  | .write failure, .writing parent, .persist _ => some (task.writePersist manager parent failure)
  | .write failure, .detached parent, .close _ =>
    some ((task.writeClose manager parent failure).1, .abandoned)
  | .remove, .removing, _ =>
    some (manager.removeIfMatches task.childThreadId task.expected, .reported .closed)
  | _, _, _ => none

end Task

structure State where
  manager : Manager
  tasks : List Task
  fence : Option ℕ

inductive Action
  | register (threadId : ThreadId) (ephemeral : Bool) (sessionSource : SessionSource)
  | removeRuntime (threadId : ThreadId) (expected : ThreadRef)
  | start (kind : Kind) (childThreadId : ThreadId) (expected : ThreadRef)
  | acquire (i : ℕ)
  | advance (i : ℕ) (part : Part)
  | abandon (i : ℕ)
  /-- The resumption of a thread takes out a runtime that has stopped. -/
  | dropStopped (threadId : ThreadId)
  | reconcileEdge (parentThreadId childThreadId : ThreadId)

namespace State

def put (s : State) (i : ℕ) (task : Task) (manager : Manager) (stage : Stage) : State where
  manager := manager
  tasks := s.tasks.set i { task with stage }
  fence := if stage.fenced then some i else if task.stage.fenced then none else s.fence

def step (s : State) : Action → Option State
  | .register threadId ephemeral sessionSource =>
    if s.fence = none then
      (s.manager.register threadId ephemeral sessionSource).map fun manager ↦ { s with manager }
    else none
  | .removeRuntime threadId expected =>
    if s.fence = none then
      some { s with manager := s.manager.removeIfMatches threadId expected }
    else none
  | .start kind childThreadId expected =>
    (s.manager.runtime expected).map fun _ ↦
      { s with tasks := s.tasks ++ [⟨kind, childThreadId, expected, .waiting⟩] }
  | .acquire i =>
    (s.tasks[i]?).bind fun task ↦
      if task.stage = .waiting ∧ s.fence = none then some (s.put i task s.manager .checking)
      else none
  | .advance i part =>
    (s.tasks[i]?).bind fun task ↦
      (task.advance s.manager part).map fun (manager, stage) ↦ s.put i task manager stage
  | .abandon i =>
    (s.tasks[i]?).bind fun task ↦
      match task.stage, task.kind with
      | .waiting, _ | .checking, _ | .removing, _ | .writing _, .persist _ =>
        some (s.put i task s.manager .abandoned)
      | .writing parent, .close _ => some (s.put i task s.manager (.detached parent))
      | .abandoned, _ | .detached _, _ | .reported _, _ => none
  | .dropStopped threadId =>
    some { s with
      manager := { s.manager with threads := s.manager.threads.erase threadId } }
  | .reconcileEdge parent child =>
    some { s with
      manager := { s.manager with
        edges := insertThreadSpawnEdgeIfAbsent s.manager.edges parent child } }

/-- What a call has reported. -/
def outcome (s : State) (i : ℕ) : Option Outcome :=
  (s.tasks[i]?).bind fun task ↦
    match task.stage with
    | .reported outcome => some outcome
    | _ => none

end State

def spawnEdges : System State Action := ⟨⟨.empty, [], none⟩, State.step⟩

/-- What a step of a close changes belongs to no later incarnation than the one it carries; a
success leaves no runtime, and the edge of a spawned thread that is not ephemeral is closed. -/
structure RespectsIncarnations (s s' : State) (i : ℕ) (task : Task)
    (expectedIncarnation : Option ℕ) : Prop where
  edge : ∀ child edge, s.manager.edges.lookup child = some edge →
    s'.manager.edges.lookup child ≠ some edge → child = task.childThreadId ∧
      ∃ k ∈ expectedIncarnation, s.manager.threadIncarnation child = some k ∧
        ∀ m ∈ edge.openedBy, m ≤ k
  runtime : ∀ child thread, s.manager.threads.lookup child = some thread →
    s'.manager.threads.lookup child ≠ some thread → child = task.childThreadId ∧
      ∃ k ∈ expectedIncarnation, (s.manager.runtime thread).map (·.incarnation) = some k
  closed : s'.outcome i = some .closed →
    s'.manager.threads.lookup task.childThreadId = none ∧
      ∀ parent ∈ s.manager.durableParent task.expected, ∃ openedBy,
        s'.manager.edges.lookup task.childThreadId = some ⟨parent, .closed, openedBy⟩
  unchanged : s'.outcome i ≠ some .closed → s'.manager.threads = s.manager.threads

section Tables

variable {edges : EdgeTable} {parent child : ThreadId}

theorem lookup_closeOpen_of_ne {other : ThreadId} (h : other ≠ child) :
    (closeOpenThreadSpawnEdge edges parent child).1.lookup other = edges.lookup other := by
  unfold closeOpenThreadSpawnEdge
  split
  next => rfl
  next edge _ =>
    split
    next =>
      cases edge.status with
      | opened => exact lookup_insert_ne h
      | closed => rfl
    next => rfl

theorem openedBy_of_closeOpen {edge : SpawnEdge}
    (h : (closeOpenThreadSpawnEdge edges parent child).1.lookup child = some edge) :
    ∃ before, edges.lookup child = some before ∧ edge.openedBy = before.openedBy := by
  unfold closeOpenThreadSpawnEdge at h
  split at h
  next hn => simp [hn] at h
  next before hb =>
    refine ⟨before, hb, ?_⟩
    split at h
    next =>
      cases hst : before.status with
      | opened =>
        simp only [hst, lookup_insert, some.injEq] at h
        exact h ▸ rfl
      | closed =>
        simp only [hst, hb, some.injEq] at h
        exact h ▸ rfl
    next =>
      rw [hb, some.injEq] at h
      exact h ▸ rfl

theorem closed_of_closeOpen
    (h : (closeOpenThreadSpawnEdge edges parent child).2 ≠ .mismatchOrMissing) :
    ∃ openedBy, (closeOpenThreadSpawnEdge edges parent child).1.lookup child =
      some ⟨parent, .closed, openedBy⟩ := by
  unfold closeOpenThreadSpawnEdge at h ⊢
  split at h
  next => exact absurd rfl h
  next edge hedge =>
    obtain ⟨edgeParent, status, openedBy⟩ := edge
    split at h
    next hp =>
      obtain rfl : edgeParent = parent := hp
      cases status with
      | opened => exact ⟨openedBy, by simp⟩
      | closed => exact ⟨openedBy, by simp [hedge]⟩
    next => exact absurd rfl h

end Tables

/-- A loaded thread is the latest incarnation of its id, and no edge was persisted for a later one.
-/
structure Manager.Sound (manager : Manager) : Prop where
  registered : ∀ threadId thread, manager.threads.lookup threadId = some thread →
    ∃ k, manager.latest.lookup threadId = some (k, thread)
  recorded : ∀ threadId k thread, manager.latest.lookup threadId = some (k, thread) →
    k ≤ manager.next ∧ (manager.runtime thread).map (·.incarnation) = some k
  opened : ∀ threadId edge, manager.edges.lookup threadId = some edge → ∀ m ∈ edge.openedBy,
    ∃ k ∈ manager.threadIncarnation threadId, m ≤ k

/-- What cannot change while a call holds the fence, unless the call changes it: the incarnations, and
the edges that exist. -/
structure Manager.Keeps (manager manager' : Manager) : Prop where
  latest : manager'.latest = manager.latest
  runtimes : manager'.runtimes = manager.runtimes
  edges : ∀ child edge, manager.edges.lookup child = some edge →
    manager'.edges.lookup child = some edge

section Managers

variable {manager manager' : Manager}

theorem Manager.Keeps.refl (manager : Manager) : manager.Keeps manager :=
  ⟨rfl, rfl, fun _ _ h ↦ h⟩

theorem keeps_removeIfMatches (manager : Manager) (threadId : ThreadId) (expected : ThreadRef) :
    manager.Keeps (manager.removeIfMatches threadId expected) := by
  unfold Manager.removeIfMatches
  split
  · exact ⟨rfl, rfl, fun _ _ h ↦ h⟩
  · exact .refl manager

theorem lookup_removeIfMatches_of_ne {threadId other : ThreadId} (expected : ThreadRef)
    (h : other ≠ threadId) :
    (manager.removeIfMatches threadId expected).threads.lookup other =
      manager.threads.lookup other := by
  unfold Manager.removeIfMatches
  split
  · exact lookup_erase_ne h
  · rfl

section

variable (h : manager.Sound)
include h

theorem sound_eraseThread (threadId : ThreadId) :
    Manager.Sound { manager with threads := manager.threads.erase threadId } := by
  refine ⟨fun other thread ho ↦ ?_, h.recorded, h.opened⟩
  exact h.registered other thread (lookup_of_lookup_erase ho)

theorem sound_removeIfMatches (threadId : ThreadId) (expected : ThreadRef) :
    (manager.removeIfMatches threadId expected).Sound := by
  unfold Manager.removeIfMatches
  split
  · exact sound_eraseThread h threadId
  · exact h

theorem sound_register {threadId : ThreadId} {ephemeral : Bool} {sessionSource : SessionSource}
    (hre : manager.register threadId ephemeral sessionSource = some manager') :
    manager'.Sound := by
  unfold Manager.register at hre
  split at hre
  next =>
    cases hre
    exact h
  next =>
    split at hre
    next => cases hre
    next =>
      cases hre
      constructor
      · intro other thread ho
        rcases lookup_insert_cases ho with ⟨rfl, rfl⟩ | ⟨hne, hold⟩
        · exact ⟨manager.next + 1, lookup_insert _⟩
        · rw [lookup_insert_ne hne]
          exact h.registered other thread hold
      · intro other k thread ho
        rcases lookup_insert_cases ho with ⟨-, ⟨⟩⟩ | ⟨-, hold⟩
        · simp [Manager.runtime]
        · obtain ⟨hle, hr⟩ := h.recorded other k thread hold
          refine ⟨Nat.le_succ_of_le hle, ?_⟩
          obtain ⟨_, hg, -⟩ := map_eq_some_iff.mp hr
          have hlt := (List.getElem?_eq_some_iff.mp hg).1
          simpa only [Manager.runtime, List.getElem?_append_left hlt] using hr
      · intro other edge hedge m hm
        obtain ⟨k, hk, hle⟩ := h.opened other edge hedge m hm
        by_cases hne : other = threadId
        · subst hne
          obtain ⟨⟨k', thread⟩, hl, rfl⟩ := map_eq_some_iff.mp hk
          have hb := (h.recorded other k' thread hl).1
          exact ⟨manager.next + 1, by simp [Manager.threadIncarnation], by simp only at hle; omega⟩
        · refine ⟨k, ?_, hle⟩
          simpa [Manager.threadIncarnation, lookup_insert_ne hne] using hk

theorem sound_edges (edges : EdgeTable)
    (he : ∀ threadId edge, edges.lookup threadId = some edge → ∀ m ∈ edge.openedBy,
      (∃ before, manager.edges.lookup threadId = some before ∧ m ∈ before.openedBy) ∨
        manager.threadIncarnation threadId = some m) :
    Manager.Sound { manager with edges } := by
  refine ⟨h.registered, h.recorded, fun threadId edge hedge m hm ↦ ?_⟩
  rcases he threadId edge hedge m hm with ⟨before, hb, ho⟩ | hl
  · exact h.opened threadId before hb m ho
  · exact ⟨m, hl, le_rfl⟩

theorem sound_closeOpen (parent child : ThreadId) : Manager.Sound
      { manager with edges := (closeOpenThreadSpawnEdge manager.edges parent child).1 } := by
  apply sound_edges h
  intro threadId edge hedge m hm
  by_cases hne : threadId = child
  · subst hne
    obtain ⟨before, hb, ho⟩ := openedBy_of_closeOpen hedge
    exact .inl ⟨before, hb, ho ▸ hm⟩
  · rw [lookup_closeOpen_of_ne hne] at hedge
    exact .inl ⟨edge, hedge, hm⟩

theorem sound_reconcile (parent child : ThreadId) : Manager.Sound
      { manager with edges := insertThreadSpawnEdgeIfAbsent manager.edges parent child } := by
  apply sound_edges h
  intro _ edge hedge _ hm
  unfold insertThreadSpawnEdgeIfAbsent at hedge
  split at hedge
  next => exact .inl ⟨edge, hedge, hm⟩
  next =>
    rcases lookup_insert_cases hedge with ⟨-, rfl⟩ | ⟨-, hold⟩
    · cases hm
    · exact .inl ⟨edge, hold, hm⟩

end

theorem keeps_reconcile (manager : Manager) (parent child : ThreadId) :
    manager.Keeps
      { manager with edges := insertThreadSpawnEdgeIfAbsent manager.edges parent child } := by
  refine ⟨rfl, rfl, fun other edge hedge ↦ ?_⟩
  unfold insertThreadSpawnEdgeIfAbsent
  split
  next => exact hedge
  next hv =>
    have hne : other ≠ child := by
      rintro rfl
      simp [hv] at hedge
    rw [lookup_insert_ne hne]
    exact hedge

end Managers

/-! ## The fence -/

/-- What a call knows of the tables while it holds the fence. -/
def Task.Ready (manager : Manager) (task : Task) : Prop :=
  match task.kind, task.stage with
  | .close expectedIncarnation, .writing parent =>
    (∃ k ∈ expectedIncarnation,
      manager.latest.lookup task.childThreadId = some (k, task.expected)) ∧
      manager.durableParent task.expected = some parent
  | .close expectedIncarnation, .removing =>
    (∃ k ∈ expectedIncarnation,
      manager.latest.lookup task.childThreadId = some (k, task.expected)) ∧
      ∀ parent ∈ manager.durableParent task.expected, ∃ openedBy,
        manager.edges.lookup task.childThreadId = some ⟨parent, .closed, openedBy⟩
  | .persist _, .writing _ =>
    ∃ k, manager.latest.lookup task.childThreadId = some (k, task.expected)
  | .persist _, .removing => False
  | _, _ => True

structure FenceInvariant (s : State) : Prop where
  sound : s.manager.Sound
  holder : ∀ (i : ℕ) (task : Task), s.tasks[i]? = some task → task.stage.fenced = true →
    s.fence = some i
  ready : ∀ (i : ℕ) (task : Task), s.tasks[i]? = some task → task.Ready s.manager
  attached : ∀ (i : ℕ) (task : Task), s.tasks[i]? = some task →
    ∀ parent, task.stage ≠ .detached parent

def Task.isUpdating (task : Task) : Bool :=
  match task.kind, task.stage with
  | .close _, .writing _ => true
  | _, _ => false

/-- No close is dropped during its database update. -/
def AwaitsUpdate (s : State) : Action → Prop
  | .abandon i => ∀ task ∈ s.tasks[i]?, task.isUpdating = false
  | _ => True

instance (s : State) : ∀ a, Decidable (AwaitsUpdate s a)
  | .abandon _ => inferInstanceAs (Decidable (∀ task ∈ _, _))
  | .register .. | .removeRuntime .. | .start .. | .acquire _ | .advance .. | .dropStopped _
  | .reconcileEdge .. => .isTrue trivial

section Fence

variable {s s' : State} {i : ℕ} {task : Task} {manager manager' : Manager}

theorem ready_of_not_fenced (h : task.stage.fenced = false) (manager : Manager) :
    task.Ready manager := by
  obtain ⟨kind, _, _, stage⟩ := task
  cases stage <;> cases kind <;> trivial

theorem durableParent_of_runtimes_eq (h : manager'.runtimes = manager.runtimes)
    (thread : ThreadRef) : manager'.durableParent thread = manager.durableParent thread := by
  simp only [Manager.durableParent, Manager.runtime, h]

theorem Task.Ready.keeps (h : task.Ready manager) (hk : manager.Keeps manager') :
    task.Ready manager' := by
  obtain ⟨kind, _, _, stage⟩ := task
  cases kind with
  | close =>
    cases stage with
    | writing =>
      simp only [Task.Ready, hk.latest, durableParent_of_runtimes_eq hk.runtimes]
      exact h
    | removing =>
      simp only [Task.Ready, hk.latest, durableParent_of_runtimes_eq hk.runtimes]
      refine ⟨h.1, fun parent hp ↦ ?_⟩
      obtain ⟨openedBy, hedge⟩ := h.2 parent hp
      exact ⟨openedBy, hk.edges _ _ hedge⟩
    | _ => trivial
  | persist parent =>
    cases stage with
    | writing =>
      simp only [Task.Ready, hk.latest]
      exact h
    | removing => exact h
    | _ => trivial

section

variable (h : FenceInvariant s)
include h

namespace FenceInvariant

theorem not_fenced (hfe : s.fence = none)
    (htask : s.tasks[i]? = some task) : task.stage.fenced = false := by
  by_contra hf
  have hh := h.holder i task htask (by simpa using hf)
  rw [hfe] at hh
  cases hh

theorem of_fence_free (hf : s.fence = none)
    (hso : manager'.Sound) : FenceInvariant { s with manager := manager' } where
  sound := hso
  holder := h.holder
  ready _ _ htask := ready_of_not_fenced (h.not_fenced hf htask) manager'
  attached := h.attached

theorem of_keeps (hso : manager'.Sound)
    (hk : s.manager.Keeps manager') : FenceInvariant { s with manager := manager' } where
  sound := hso
  holder := h.holder
  ready i task htask := (h.ready i task htask).keeps hk
  attached := h.attached

theorem of_tasks {tasks : List Task}
    (hold : ∀ (j : ℕ) (task : Task), tasks[j]? = some task → s.tasks[j]? = some task ∨
      task.stage.fenced = false ∧ ∀ parent, task.stage ≠ .detached parent) :
    FenceInvariant { s with tasks } := by
  refine ⟨h.sound, fun j task htask hf ↦ ?_, fun j task htask ↦ ?_, fun j task htask ↦ ?_⟩
  all_goals rcases hold j task htask with hb | hi
  · exact h.holder j task hb hf
  · rw [hi.1] at hf
    cases hf
  · exact h.ready j task hb
  · exact ready_of_not_fenced hi.1 _
  · exact h.attached j task hb
  · exact hi.2

theorem put (htask : s.tasks[i]? = some task)
    (hfe : task.stage.fenced = true ∨ s.fence = none) (hso : manager'.Sound)
    (hr : Task.Ready manager' { task with stage }) (hat : ∀ parent, stage ≠ .detached parent) :
    FenceInvariant (s.put i task manager' stage) := by
  have hlt := (List.getElem?_eq_some_iff.mp htask).1
  have hot : ∀ j other, s.tasks[j]? = some other → j ≠ i → other.stage.fenced = false := by
    intro j other ho hne
    rcases hfe with hf | hfr
    · by_contra hb
      have hj := h.holder j other ho (by simpa using hb)
      rw [h.holder i task htask hf, some.injEq] at hj
      exact hne hj.symm
    · exact h.not_fenced hfr ho
  refine ⟨hso, fun j other ho hf ↦ ?_, fun j other ho ↦ ?_, fun j other ho ↦ ?_⟩
  · by_cases hij : i = j
    · subst hij
      simp only [State.put, getElem?_set_self hlt, some.injEq] at ho
      subst ho
      simp only [State.put, hf, if_true]
    · simp only [State.put, getElem?_set_ne hij] at ho
      rw [hot j other ho (Ne.symm hij)] at hf
      cases hf
  · by_cases hij : i = j
    · subst hij
      simp only [State.put, getElem?_set_self hlt, some.injEq] at ho
      exact ho ▸ hr
    · simp only [State.put, getElem?_set_ne hij] at ho
      exact ready_of_not_fenced (hot j other ho (Ne.symm hij)) manager'
  · by_cases hij : i = j
    · subst hij
      simp only [State.put, getElem?_set_self hlt, some.injEq] at ho
      exact ho ▸ hat
    · simp only [State.put, getElem?_set_ne hij] at ho
      exact h.attached j other ho

end FenceInvariant

end

theorem threadIncarnationFor_eq_some {child : ThreadId} {expected : ThreadRef} {k : ℕ}
    (h : manager.threadIncarnationFor child expected = some k) :
    manager.latest.lookup child = some (k, expected) := by
  obtain ⟨⟨_, _⟩, he, rfl⟩ := map_eq_some_iff.mp h
  obtain ⟨hl, ht⟩ := filter_eq_some_iff.mp he
  rw [hl]
  simpa using ht

theorem ready_checkClose (task : Task) (manager : Manager) {expectedIncarnation : Option ℕ}
    (hkind : task.kind = .close expectedIncarnation) (graphStore : Bool) :
    Task.Ready manager
      { task with stage := task.checkClose manager expectedIncarnation graphStore } := by
  unfold Task.checkClose
  split
  next => exact ready_of_not_fenced rfl manager
  next hc =>
    push Not at hc
    obtain ⟨k, rfl⟩ := ne_none_iff_exists'.mp hc.1
    have hl := threadIncarnationFor_eq_some hc.2
    split
    next hp =>
      simp only [Task.Ready, hkind]
      exact ⟨⟨k, rfl, hl⟩, by simp [hp]⟩
    next hp =>
      cases graphStore with
      | true =>
        simp only [Task.Ready, hkind]
        exact ⟨⟨k, rfl, hl⟩, hp⟩
      | false => exact ready_of_not_fenced rfl manager

theorem ready_checkPersist (task : Task) (manager : Manager)
    (hkind : task.kind = .persist parent) (graphStore : Bool) :
    Task.Ready manager { task with stage := task.checkPersist manager parent graphStore } := by
  unfold Task.checkPersist
  split
  next => exact ready_of_not_fenced rfl manager
  next =>
    split
    next => exact ready_of_not_fenced rfl manager
    next hc =>
      push Not at hc
      obtain ⟨k, hk⟩ := ne_none_iff_exists'.mp hc.2
      cases graphStore with
      | true =>
        simp only [Task.Ready, hkind]
        exact ⟨k, threadIncarnationFor_eq_some hk⟩
      | false => exact ready_of_not_fenced rfl manager

theorem ready_writeClose (hso : manager.Sound) {expectedIncarnation : Option ℕ}
    (hkind : task.kind = .close expectedIncarnation)
    (hstg : task.stage = .writing parent) (hrd : task.Ready manager) (failure : Option Bool) :
    (task.writeClose manager parent failure).1.Sound ∧
      Task.Ready (task.writeClose manager parent failure).1
        { task with stage := (task.writeClose manager parent failure).2 } := by
  have hc := sound_closeOpen hso parent task.childThreadId
  have hsu : (closeOpenThreadSpawnEdge manager.edges parent task.childThreadId).2 ≠
      .mismatchOrMissing → _ := closed_of_closeOpen
  simp only [Task.Ready, hkind, hstg] at hrd
  unfold Task.writeClose
  cases hcl : closeOpenThreadSpawnEdge manager.edges parent task.childThreadId with
  | mk edges outcome =>
    rw [hcl] at hc hsu
    cases failure with
    | some applied =>
      cases applied
      · exact ⟨hso, ready_of_not_fenced rfl _⟩
      · exact ⟨hc, ready_of_not_fenced rfl _⟩
    | none =>
      have hr (hou : outcome ≠ .mismatchOrMissing) :
          Task.Ready { manager with edges } { task with stage := .removing } := by
        simp only [Task.Ready, hkind]
        refine ⟨hrd.1, fun other ho ↦ ?_⟩
        obtain rfl := mem_unique hrd.2 ho
        exact hsu hou
      cases outcome with
      | mismatchOrMissing => exact ⟨hc, ready_of_not_fenced rfl _⟩
      | newlyClosed | alreadyExactClosed => exact ⟨hc, hr (by simp)⟩

theorem sound_writePersist (hso : manager.Sound) {stored : ThreadId}
    (hkind : task.kind = .persist parent) (hstg : task.stage = .writing stored)
    (hrd : task.Ready manager) (failure : Option Bool) :
    (task.writePersist manager stored failure).1.Sound := by
  simp only [Task.Ready, hkind, hstg] at hrd
  obtain ⟨k, hl⟩ := hrd
  have hr := (hso.recorded _ _ _ hl).2
  have hp : Manager.Sound { manager with
      edges := upsertThreadSpawnEdge manager.edges task.childThreadId
        ⟨stored, .opened, (manager.runtime task.expected).map (·.incarnation)⟩ } := by
    apply sound_edges hso
    intro _ edge hedge _ hm
    rcases lookup_insert_cases hedge with ⟨rfl, rfl⟩ | ⟨-, hold⟩
    · -- the edge is opened for the incarnation that the call has just checked
      obtain rfl := mem_unique hr hm
      exact .inr (by simp [Manager.threadIncarnation, hl])
    · exact .inl ⟨edge, hold, hm⟩
  cases failure with
  | none => exact hp
  | some applied =>
    cases applied
    · exact hso
    · exact hp

theorem fenced_writePersist (task : Task) (manager : Manager) (parent : ThreadId)
    (failure : Option Bool) : (task.writePersist manager parent failure).2.fenced = false := by
  cases failure with
  | none => rfl
  | some applied => cases applied <;> rfl

theorem attached_of_advance {part : Part} (h : task.advance manager part = some (manager', stage))
    (parent : ThreadId) : stage ≠ .detached parent := by
  have hclose (expectedIncarnation : Option ℕ) (graphStore : Bool) :
      task.checkClose manager expectedIncarnation graphStore ≠ .detached parent := by
    unfold Task.checkClose
    split
    · exact nofun
    · split
      · exact nofun
      · split <;> exact nofun
  have hpersist (other : ThreadId) (graphStore : Bool) :
      task.checkPersist manager other graphStore ≠ .detached parent := by
    unfold Task.checkPersist
    split
    · exact nofun
    · split_ifs <;> exact nofun
  have hwrite (other : ThreadId) (failure : Option Bool) :
      (task.writeClose manager other failure).2 ≠ .detached parent := by
    unfold Task.writeClose
    dsimp only
    split <;> exact nofun
  have hwrite' (other : ThreadId) (failure : Option Bool) :
      (task.writePersist manager other failure).2 ≠ .detached parent := by
    unfold Task.writePersist
    dsimp only
    split <;> exact nofun
  unfold Task.advance at h
  split at h
  all_goals
    try
      have hstg : _ = stage := congrArg Prod.snd (some.inj h)
      rw [← hstg]
  · exact hclose _ _
  · exact hpersist _ _
  · exact hwrite _ _
  · exact hwrite' _ _
  · exact nofun
  · exact nofun
  · cases h

theorem ready_of_advance (hso : manager.Sound) (hr : task.Ready manager)
    (hat : ∀ parent, task.stage ≠ .detached parent) {part : Part}
    (h : task.advance manager part = some (manager', stage)) :
    task.stage.fenced = true ∧ manager'.Sound ∧ Task.Ready manager' { task with stage } := by
  unfold Task.advance at h
  split at h
  next graphStore _ hstg hkind =>
    cases h
    exact ⟨by rw [hstg]; rfl, hso, ready_checkClose task manager hkind graphStore⟩
  next graphStore _ hstg hkind =>
    cases h
    exact ⟨by rw [hstg]; rfl, hso, ready_checkPersist task manager hkind graphStore⟩
  next failure _ _ hstg hkind =>
    obtain ⟨hn, hne⟩ := ready_writeClose hso hkind hstg hr failure
    rw [some.inj h] at hn hne
    exact ⟨by rw [hstg]; rfl, hn, hne⟩
  next failure parent _ hstg hkind =>
    have hn := sound_writePersist hso hkind hstg hr failure
    have hd := fenced_writePersist task manager parent failure
    rw [some.inj h] at hn hd
    exact ⟨by rw [hstg]; rfl, hn, ready_of_not_fenced hd _⟩
  next hstg _ => exact absurd hstg (hat _)
  next hstg =>
    cases h
    exact ⟨by rw [hstg]; rfl, sound_removeIfMatches hso _ _, ready_of_not_fenced rfl _⟩
  next => cases h

theorem FenceInvariant.step {a : Action} (h : FenceInvariant s) (hawaits : AwaitsUpdate s a)
    (hstep : spawnEdges.step s a = some s') : FenceInvariant s' := by
  cases a with
  | register =>
    obtain ⟨hf, hstep⟩ := ite_none_right_eq_some.mp hstep
    obtain ⟨_, hr, rfl⟩ := map_eq_some_iff.mp hstep
    exact h.of_fence_free hf (sound_register h.sound hr)
  | removeRuntime threadId expected =>
    obtain ⟨hf, ⟨⟩⟩ := ite_some_none_eq_some.mp hstep
    exact h.of_fence_free hf (sound_removeIfMatches h.sound threadId expected)
  | start =>
    obtain ⟨-, -, rfl⟩ := map_eq_some_iff.mp hstep
    apply h.of_tasks
    intro _ _ htask
    rw [getElem?_append] at htask
    split at htask
    next => exact .inl htask
    next =>
      right
      obtain rfl := mem_singleton.mp (mem_of_getElem? htask)
      exact ⟨rfl, fun _ ↦ nofun⟩
  | acquire =>
    obtain ⟨task, htask, hstep⟩ := bind_eq_some_iff.mp hstep
    obtain ⟨hw, ⟨⟩⟩ := ite_some_none_eq_some.mp hstep
    refine h.put htask (.inr hw.2) h.sound ?_ fun _ ↦ nofun
    cases task.kind <;> simp [Task.Ready]
  | advance i =>
    obtain ⟨task, htask, hstep⟩ := bind_eq_some_iff.mp hstep
    obtain ⟨⟨_, _⟩, hadv, rfl⟩ := map_eq_some_iff.mp hstep
    obtain ⟨hfe, hso, hrd⟩ :=
      ready_of_advance h.sound (h.ready i task htask) (h.attached i task htask) hadv
    exact h.put htask (.inl hfe) hso hrd (attached_of_advance hadv)
  | abandon i =>
    obtain ⟨task, htask, hstep⟩ := bind_eq_some_iff.mp hstep
    have hgone (hfe : task.stage.fenced = true) : FenceInvariant (s.put i task s.manager .abandoned) :=
      h.put htask (.inl hfe) h.sound (ready_of_not_fenced rfl _) fun _ ↦ nofun
    split at hstep
    next hstg =>
      cases hstep
      have hsame : s.put i task s.manager .abandoned =
          { s with tasks := s.tasks.set i { task with stage := .abandoned } } := by
        simp [State.put, hstg, Stage.fenced]
      rw [hsame]
      apply h.of_tasks
      intro j _ ho
      by_cases hij : i = j
      · subst hij
        rw [getElem?_set_self'] at ho
        obtain ⟨-, -, rfl⟩ := map_eq_some_iff.mp ho
        exact .inr ⟨rfl, fun _ ↦ nofun⟩
      · rw [getElem?_set_ne hij] at ho
        exact .inl ho
    next hstg =>
      cases hstep
      exact hgone (by rw [hstg]; rfl)
    next hstg =>
      cases hstep
      exact hgone (by rw [hstg]; rfl)
    next hstg _ =>
      cases hstep
      exact hgone (by rw [hstg]; rfl)
    next hstg hkind =>
      have hupdating := hawaits task htask
      simp [Task.isUpdating, hstg, hkind] at hupdating
    all_goals cases hstep
  | dropStopped threadId =>
    cases hstep
    exact h.of_keeps (sound_eraseThread h.sound threadId) ⟨rfl, rfl, fun _ _ hedge ↦ hedge⟩
  | reconcileEdge parent child =>
    cases hstep
    exact h.of_keeps (sound_reconcile h.sound parent child) (keeps_reconcile _ parent child)

theorem fenceInvariant_initial : FenceInvariant spawnEdges.init := by
  refine ⟨⟨?_, ?_, ?_⟩, ?_, ?_, ?_⟩
  · intro _ _ ht
    cases ht
  · intro _ _ _ hl
    cases hl
  · intro _ _ hedge
    cases hedge
  all_goals
    intro _ _ htask
    cases htask

end Fence

section Closes

variable {s s' : State} {i : ℕ} {task : Task} {manager : Manager} {expectedIncarnation : Option ℕ}

theorem outcome_put (htask : s.tasks[i]? = some task) (manager : Manager) (stage : Stage) :
    (s.put i task manager stage).outcome i = match stage with
      | .reported outcome => some outcome
      | _ => none := by
  have hlt := (List.getElem?_eq_some_iff.mp htask).1
  simp only [State.outcome, State.put, List.getElem?_set_self hlt, bind_some]

theorem RespectsIncarnations.of_edges (htask : s.tasks[i]? = some task) {edges : EdgeTable}
    (hstg : stage ≠ .reported .closed)
    (he : ∀ child edge, s.manager.edges.lookup child = some edge →
      edges.lookup child ≠ some edge → child = task.childThreadId ∧
        ∃ k ∈ expectedIncarnation, s.manager.threadIncarnation child = some k ∧
          ∀ m ∈ edge.openedBy, m ≤ k) :
    RespectsIncarnations s (s.put i task { s.manager with edges } stage) i task
      expectedIncarnation where
  edge := he
  runtime child thread ht hchgd := absurd ht hchgd
  closed ho := by
    rw [outcome_put htask] at ho
    split at ho
    next => exact absurd (congrArg Stage.reported (some.inj ho)) hstg
    next => cases ho
  unchanged _ := rfl

theorem writeClose_eq (task : Task) (manager : Manager) (parent : ThreadId)
    (failure : Option Bool) : ∃ edges stage,
      task.writeClose manager parent failure = ({ manager with edges }, stage) ∧
        stage ≠ .reported .closed ∧ (edges = manager.edges ∨
          edges = (closeOpenThreadSpawnEdge manager.edges parent task.childThreadId).1) := by
  unfold Task.writeClose
  cases closeOpenThreadSpawnEdge manager.edges parent task.childThreadId with
  | mk edges outcome =>
    cases failure with
    | some applied =>
      cases applied
      · exact ⟨manager.edges, _, rfl, by simp, .inl rfl⟩
      · exact ⟨edges, _, rfl, by simp, .inr rfl⟩
    | none =>
      cases outcome <;> exact ⟨edges, _, rfl, by simp, .inr rfl⟩

section

variable (h : FenceInvariant s) (htask : s.tasks[i]? = some task)
  (hkind : task.kind = .close expectedIncarnation)
include h htask hkind

theorem respects_writeClose (hstg : task.stage = .writing parent) (failure : Option Bool) :
    RespectsIncarnations s (s.put i task (task.writeClose s.manager parent failure).1
      (task.writeClose s.manager parent failure).2) i task expectedIncarnation := by
  have hr := h.ready i task htask
  simp only [Task.Ready, hkind, hstg] at hr
  obtain ⟨k, hk, hl⟩ := hr.1
  have hi : s.manager.threadIncarnation task.childThreadId = some k := by
    simp [Manager.threadIncarnation, hl]
  obtain ⟨edges, stage, hwrite, hn, he⟩ :=
    writeClose_eq task s.manager parent failure
  rw [hwrite]
  apply RespectsIncarnations.of_edges htask hn
  intro child edge hedge hchgd
  rcases he with rfl | rfl
  · exact absurd hedge hchgd
  · have hc : child = task.childThreadId := by
      by_contra hne
      rw [lookup_closeOpen_of_ne hne] at hchgd
      exact hchgd hedge
    subst hc
    refine ⟨rfl, k, hk, hi, fun m hm ↦ ?_⟩
    obtain ⟨_, hl, hle⟩ := h.sound.opened _ edge hedge m hm
    exact mem_unique hl hi ▸ hle

theorem respects_remove (hstg : task.stage = .removing) :
    RespectsIncarnations s (s.put i task (s.manager.removeIfMatches task.childThreadId
      task.expected) (.reported .closed)) i task expectedIncarnation := by
  have hrd := h.ready i task htask
  simp only [Task.Ready, hkind, hstg] at hrd
  obtain ⟨⟨k, hk, hl⟩, hedge⟩ := hrd
  have hke := keeps_removeIfMatches s.manager task.childThreadId task.expected
  constructor
  · intro child edge hb hchgd
    exact absurd (hke.edges child edge hb) hchgd
  · intro child thread ht hchgd
    have hc : child = task.childThreadId := by
      by_contra hne
      exact hchgd ((lookup_removeIfMatches_of_ne task.expected hne).trans ht)
    subst hc
    obtain ⟨_, hr⟩ := h.sound.registered _ thread ht
    rw [hl, some.injEq, Prod.mk.injEq] at hr
    refine ⟨rfl, k, hk, ?_⟩
    rw [← hr.2]
    exact (h.sound.recorded _ k task.expected hl).2
  · intro _
    refine ⟨?_, fun parent hp ↦ ?_⟩
    · -- a runtime under the id would be the latest incarnation, which is the expected one
      simp only [State.put, Manager.removeIfMatches]
      split
      next => rw [lookup_erase]
      next ho =>
        by_contra hloaded
        obtain ⟨thread, ht⟩ := ne_none_iff_exists'.mp hloaded
        obtain ⟨_, hr⟩ := h.sound.registered _ thread ht
        rw [hl, some.injEq, Prod.mk.injEq] at hr
        exact ho (hr.2 ▸ ht)
    · obtain ⟨openedBy, hcl⟩ := hedge parent hp
      exact ⟨openedBy, hke.edges _ _ hcl⟩
  · intro hou
    exact absurd (outcome_put htask _ _) hou

end

/-- In every run in which no close is dropped during its database update, a close of one incarnation
leaves every later one alone and reports what it did. -/
theorem reachable_close_respects_incarnations (hs : spawnEdges.Guarded AwaitsUpdate s)
    (htask : s.tasks[i]? = some task) (hkind : task.kind = .close expectedIncarnation)
    {part : Part} (hstep : spawnEdges.step s (.advance i part) = some s') :
    RespectsIncarnations s s' i task expectedIncarnation := by
  have hinv : FenceInvariant s := by
    apply hs.invariant FenceInvariant fenceInvariant_initial
    intro _ _ _ h hawaits hstep
    exact h.step hawaits hstep
  simp only [spawnEdges, State.step, htask] at hstep
  obtain ⟨⟨_, _⟩, hadv, rfl⟩ := map_eq_some_iff.mp hstep
  unfold Task.advance at hadv
  split at hadv
  next =>
    cases hadv
    apply RespectsIncarnations.of_edges htask
    · unfold Task.checkClose
      split
      · simp
      · split
        · simp
        · split <;> simp
    · intro _ _ hedge hchgd
      exact absurd hedge hchgd
  next hpers =>
    rw [hkind] at hpers
    cases hpers
  next failure _ _ hstg _ =>
    have hwrite := respects_writeClose hinv htask hkind hstg failure
    rw [some.inj hadv] at hwrite
    exact hwrite
  next hpers =>
    rw [hkind] at hpers
    cases hpers
  next hstg _ => exact absurd hstg (hinv.attached i task htask _)
  next hstg =>
    cases hadv
    exact respects_remove hinv htask hkind hstg
  next => cases hadv

end Closes

/-- Thread 1 spawns thread 2, the runtime of thread 2 is unloaded and loaded again, and a close of the
second incarnation is about to remove the runtime. -/
def closingReloaded : List Action :=
  [.register ⟨1⟩ false .cli, .register ⟨2⟩ false (.subAgent (.threadSpawn ⟨1⟩)),
    .start (.persist ⟨1⟩) ⟨2⟩ ⟨1⟩, .acquire 0, .advance 0 (.check true), .advance 0 (.write none),
    .removeRuntime ⟨2⟩ ⟨1⟩, .register ⟨2⟩ false (.subAgent (.threadSpawn ⟨1⟩)),
    .start (.close (some 3)) ⟨2⟩ ⟨2⟩, .acquire 1, .advance 1 (.check true), .advance 1 (.write none)]

def closeOfReloaded : Task := ⟨.close (some 3), ⟨2⟩, ⟨2⟩, .removing⟩

theorem reachable_close_respects_incarnations_closingReloaded :
    ∃ s s', RespectsIncarnations s s' 1 closeOfReloaded (some 3) ∧ s'.outcome 1 = some .closed ∧
      s.manager.threads.lookup ⟨2⟩ = some ⟨2⟩ := by
  obtain ⟨s, hs, hcheck⟩ := exists_guarded_of_runIf spawnEdges AwaitsUpdate closingReloaded
    (fun s ↦ decide (s.tasks[1]? = some closeOfReloaded ∧
      s.manager.threads.lookup ⟨2⟩ = some ⟨2⟩)) (by decide +kernel)
  obtain ⟨htask, hloaded⟩ := of_decide_eq_true hcheck
  have hstep : spawnEdges.step s (.advance 1 .remove) = some (s.put 1 closeOfReloaded
      (s.manager.removeIfMatches ⟨2⟩ ⟨2⟩) (.reported .closed)) := by
    simp only [spawnEdges, State.step, htask]
    rfl
  exact ⟨s, _, reachable_close_respects_incarnations hs htask rfl hstep, outcome_put htask _ _,
    hloaded⟩

/-- A close of the first incarnation of thread 2 is dropped during its update. The thread is unloaded and
loaded again, its edge is persisted for the second incarnation, and then the update comes. -/
def updatingLate : List Action :=
  [.register ⟨1⟩ false .cli, .register ⟨2⟩ false (.subAgent (.threadSpawn ⟨1⟩)),
    .start (.persist ⟨1⟩) ⟨2⟩ ⟨1⟩, .acquire 0, .advance 0 (.check true), .advance 0 (.write none),
    .start (.close (some 2)) ⟨2⟩ ⟨1⟩, .acquire 1, .advance 1 (.check true), .abandon 1,
    .removeRuntime ⟨2⟩ ⟨1⟩, .register ⟨2⟩ false (.subAgent (.threadSpawn ⟨1⟩)),
    .start (.persist ⟨1⟩) ⟨2⟩ ⟨2⟩, .acquire 2, .advance 2 (.check true), .advance 2 (.write none)]

def lateUpdate : Task := ⟨.close (some 2), ⟨2⟩, ⟨1⟩, .detached ⟨1⟩⟩

theorem dropped_close_closes_later_incarnation :
    ∃ s s', spawnEdges.Reachable s ∧ s.tasks[1]? = some lateUpdate ∧
      s.manager.edges.lookup ⟨2⟩ = some ⟨⟨1⟩, .opened, some 3⟩ ∧
      spawnEdges.step s (.advance 1 (.write none)) = some s' ∧
      s'.manager.edges.lookup ⟨2⟩ = some ⟨⟨1⟩, .closed, some 3⟩ := by
  obtain ⟨s, hs, hcheck⟩ := exists_reachable_of_run spawnEdges updatingLate
    (fun s ↦ decide (s.tasks[1]? = some lateUpdate ∧
      s.manager.edges.lookup ⟨2⟩ = some ⟨⟨1⟩, .opened, some 3⟩)) (by decide +kernel)
  obtain ⟨htask, hedge⟩ := of_decide_eq_true hcheck
  have hclosed : closeOpenThreadSpawnEdge s.manager.edges ⟨1⟩ ⟨2⟩ =
      (s.manager.edges.insert ⟨2⟩ ⟨⟨1⟩, .closed, some 3⟩, .newlyClosed) := by
    rw [closeOpenThreadSpawnEdge, hedge]
    rfl
  refine ⟨s, s.put 1 lateUpdate (lateUpdate.writeClose s.manager ⟨1⟩ none).1 .abandoned, hs, htask,
    hedge, ?_, ?_⟩
  · simp only [spawnEdges, State.step, htask]
    rfl
  · simp only [State.put, Task.writeClose, lateUpdate, hclosed, lookup_insert]

end Slopdex.Agent.SpawnEdges
