import Slopdex.Agent.SpawnEdges

/-!
# Closing the edge of a thread that is not loaded

The parent of such a thread is looked for among the persisted edges below the root of the session. The
edges need not form a tree: the search keeps the threads that it has listed the children of.
-/

namespace Slopdex.Agent.StaleEdges

open Protocol Agent.SpawnEdges Relation Library.KeyedMap List

/-- The errors carry what their texts are formatted from. -/
inductive StaleCloseErr
  | changedIncarnation (childThreadId : ThreadId)
  | graphStoreUnavailable (childThreadId : ThreadId)
  | resolveFailed (childThreadId : ThreadId)
  | closeFailed (parentThreadId childThreadId : ThreadId)
  | missingOrReplaced (parentThreadId childThreadId : ThreadId)

section Search

variable (edges : EdgeTable) (parent : ThreadId) (visited : List ThreadId)

/-- The edges of any status; an identifier is ordered by its text as by its number. -/
def listThreadSpawnChildren : List ThreadId :=
  ((edges.entries.filter fun entry ↦ entry.2.parentThreadId = parent).map (·.1)).mergeSort
    fun left right ↦ left.uuid ≤ right.uuid

/-- The edges that the search has not listed. -/
def unlisted : ℕ := edges.entries.countP fun entry ↦ entry.2.parentThreadId ∉ visited

variable {edges parent visited}

theorem unlisted_cons (h : parent ∉ visited) :
    (listThreadSpawnChildren edges parent).length + unlisted edges (parent :: visited) =
      unlisted edges visited := by
  rw [listThreadSpawnChildren, length_mergeSort]
  unfold unlisted
  induction edges.entries with
  | nil => rfl
  | cons entry _ ih =>
    simp only [countP_cons, ← ih]
    by_cases hpar : entry.2.parentThreadId = parent
    · simp [hpar, h]
      omega
    · simp [hpar]
      omega

def findParent (edges : EdgeTable) (listFails : ThreadId → Bool) (child : ThreadId)
    (pending visited : List ThreadId) : Except StaleCloseErr (Option ThreadId) :=
  match pending with
  | [] => .ok none
  | parent :: pending =>
    if parent ∈ visited then findParent edges listFails child pending visited
    else if listFails parent then .error (.resolveFailed child)
    else
      let children := listThreadSpawnChildren edges parent
      if child ∈ children then .ok (some parent)
      else findParent edges listFails child (children.reverse ++ pending) (parent :: visited)
termination_by pending.length + unlisted edges visited
decreasing_by
  · simp
  · have hcount := @unlisted_cons edges parent visited ‹_›
    simp only [length_append, length_reverse, length_cons]
    omega

def Spawned (edges : EdgeTable) (parent child : ThreadId) : Prop :=
  ∃ edge, edges.lookup child = some edge ∧ edge.parentThreadId = parent

theorem mem_listThreadSpawnChildren {child : ThreadId} :
    child ∈ listThreadSpawnChildren edges parent ↔ Spawned edges parent child := by
  rw [listThreadSpawnChildren, mem_mergeSort, mem_map]
  constructor
  · rintro ⟨⟨_, edge⟩, hm, rfl⟩
    obtain ⟨he, hpar⟩ := mem_filter.mp hm
    exact ⟨edge, AList.mem_lookup_iff.mpr he, of_decide_eq_true hpar⟩
  · rintro ⟨edge, hl, hpar⟩
    exact ⟨⟨child, edge⟩, mem_filter.mpr ⟨AList.mem_lookup_iff.mp hl, decide_eq_true hpar⟩, rfl⟩

def Answers (edges : EdgeTable) (listFails : ThreadId → Bool) (root child : ThreadId) :
    Except StaleCloseErr (Option ThreadId) → Prop
  | .ok (some parent) => ReflTransGen (Spawned edges) root parent ∧ Spawned edges parent child
  | .ok none => ¬ TransGen (Spawned edges) root child
  | .error _ => ∃ parent, listFails parent = true

structure Searching (edges : EdgeTable) (root child : ThreadId) (pending visited : List ThreadId) :
    Prop where
  start : root ∈ pending ∨ root ∈ visited
  below : ∀ thread ∈ pending, ReflTransGen (Spawned edges) root thread
  listed : ∀ parent ∈ visited, ∀ thread, Spawned edges parent thread →
    thread ≠ child ∧ (thread ∈ pending ∨ thread ∈ visited)

variable {root child : ThreadId} {pending : List ThreadId} {listFails : ThreadId → Bool}

theorem Searching.skip (h : Searching edges root child (parent :: pending) visited)
    (hm : parent ∈ visited) : Searching edges root child pending visited := by
  have hc : ∀ thread, thread ∈ parent :: pending ∨ thread ∈ visited →
      thread ∈ pending ∨ thread ∈ visited := by grind
  exact ⟨hc root h.start, fun thread ht ↦ h.below thread (.tail _ ht),
    fun other ho thread hs ↦
      (h.listed other ho thread hs).imp_right (hc thread)⟩

theorem Searching.list (h : Searching edges root child (parent :: pending) visited)
    (ho : child ∉ listThreadSpawnChildren edges parent) :
    Searching edges root child ((listThreadSpawnChildren edges parent).reverse ++ pending)
      (parent :: visited) := by
  have hc : ∀ thread, thread ∈ parent :: pending ∨ thread ∈ visited →
      thread ∈ (listThreadSpawnChildren edges parent).reverse ++ pending ∨
        thread ∈ parent :: visited := by grind
  refine ⟨hc root h.start, fun thread ht ↦ ?_, fun other hm thread hs ↦ ?_⟩
  · rcases mem_append.mp ht with hch | hp
    · exact (h.below parent mem_cons_self).tail
        (mem_listThreadSpawnChildren.mp (mem_reverse.mp hch))
    · exact h.below thread (.tail _ hp)
  · rcases mem_cons.mp hm with rfl | hm
    · have ht := mem_listThreadSpawnChildren.mpr hs
      exact ⟨fun heq ↦ ho (heq ▸ ht), .inl (by simp [ht])⟩
    · exact (h.listed other hm thread hs).imp_right (hc thread)

theorem Searching.not_below (h : Searching edges root child [] visited) :
    ¬ TransGen (Spawned edges) root child := by
  have ha : ∀ thread, ReflTransGen (Spawned edges) root thread → thread ∈ visited := by
    intro _ hr
    induction hr with
    | refl => simpa using h.start
    | tail _ hs ih => simpa using (h.listed _ ih _ hs).2
  intro hr
  obtain ⟨parent, hpar, hs⟩ := TransGen.tail'_iff.mp hr
  exact (h.listed parent (ha parent hpar) child hs).1 rfl

theorem findParent_answers (h : Searching edges root child pending visited) :
    Answers edges listFails root child (findParent edges listFails child pending visited) := by
  fun_induction findParent edges listFails child pending visited with
  | case1 => exact h.not_below
  | case2 _ _ _ hm ih => exact ih (h.skip hm)
  | case3 _ parent _ _ hfails => exact ⟨parent, hfails⟩
  | case4 _ parent _ _ _ _ hfnd =>
    exact ⟨h.below parent mem_cons_self, mem_listThreadSpawnChildren.mp hfnd⟩
  | case5 _ _ _ _ _ _ ho ih => exact ih (h.list ho)

end Search

/-- The edges afterwards and the answer, for a caller that holds the registration fence. The listing
of the children of a thread can fail, and so can the update, before or after it took effect. -/
def closeStaleSpawnEdge (manager : Manager) (graphStore : Bool) (listFails : ThreadId → Bool)
    (failure : Option Bool) (rootThreadId childThreadId : ThreadId)
    (expectedIncarnation : Option ℕ) : EdgeTable × Except StaleCloseErr Bool :=
  if manager.threadIncarnation childThreadId ≠ expectedIncarnation then
    (manager.edges, .error (.changedIncarnation childThreadId))
  else if !graphStore then (manager.edges, .error (.graphStoreUnavailable childThreadId))
  else match findParent manager.edges listFails childThreadId [rootThreadId] [] with
    | .error err => (manager.edges, .error err)
    | .ok none => (manager.edges, .ok false)
    | .ok (some parent) =>
      let (edges, outcome) := closeOpenThreadSpawnEdge manager.edges parent childThreadId
      match failure, outcome with
      | some false, _ => (manager.edges, .error (.closeFailed parent childThreadId))
      | some true, _ => (edges, .error (.closeFailed parent childThreadId))
      | none, .mismatchOrMissing => (edges, .error (.missingOrReplaced parent childThreadId))
      | none, .newlyClosed | none, .alreadyExactClosed => (edges, .ok true)

def ClosesAtMost (edges edges' : EdgeTable) (root child : ThreadId) : Prop :=
  (∀ other, other ≠ child → edges'.lookup other = edges.lookup other) ∧
    (edges'.lookup child = edges.lookup child ∨
      ∃ edge, edges.lookup child = some edge ∧ edge.status = .opened ∧
        ReflTransGen (Spawned edges) root edge.parentThreadId ∧
        edges'.lookup child = some { edge with status := .closed })

section Close

variable {edges : EdgeTable} {root parent child : ThreadId}

theorem closesAtMost_refl : ClosesAtMost edges edges root child := ⟨fun _ _ ↦ rfl, .inl rfl⟩

theorem closeOpen_of_spawned (hsp : Spawned edges parent child)
    (hr : ReflTransGen (Spawned edges) root parent) :
    (closeOpenThreadSpawnEdge edges parent child).2 ≠ .mismatchOrMissing ∧
      ClosesAtMost edges (closeOpenThreadSpawnEdge edges parent child).1 root child := by
  refine (and_congr_right fun _ ↦ and_iff_right fun other hne ↦ lookup_closeOpen_of_ne hne).mpr ?_
  obtain ⟨edge, hl, rfl⟩ := hsp
  cases hs : edge.status with
  | opened =>
    simp [closeOpenThreadSpawnEdge, hl, hs, hr]
  | closed => simp [closeOpenThreadSpawnEdge, hl, hs]

/-- Whatever the edges are, the call ends. It answers that the child was found if the child is below
the root and only then, and it answers unless something fails. -/
theorem closeStaleSpawnEdge_exact (manager : Manager) (graphStore : Bool)
    (listFails : ThreadId → Bool) (failure : Option Bool) (root child : ThreadId)
    (expectedIncarnation : Option ℕ) :
    let result := closeStaleSpawnEdge manager graphStore listFails failure root child
      expectedIncarnation
    (∀ found, result.2 = .ok found → (found = true ↔ TransGen (Spawned manager.edges) root child)) ∧
      (manager.threadIncarnation child = expectedIncarnation → graphStore = true →
        (∀ parent, listFails parent = false) → failure = none → ∃ found, result.2 = .ok found) ∧
      ClosesAtMost manager.edges result.1 root child := by
  have hans := @findParent_answers manager.edges [] root child [root] listFails
    ⟨.inl mem_cons_self, by simp [ReflTransGen.refl], nofun⟩
  have hfnd : ∀ {parent edges outcome},
      findParent manager.edges listFails child [root] [] = .ok (some parent) →
      closeOpenThreadSpawnEdge manager.edges parent child = (edges, outcome) →
      outcome ≠ .mismatchOrMissing ∧ ClosesAtMost manager.edges edges root child ∧
        ∀ found, .ok true = (.ok found : Except StaleCloseErr Bool) →
          (found = true ↔ TransGen (Spawned manager.edges) root child) := by
    intro _ _ _ hpar hclose
    rw [hpar] at hans
    have hopen := closeOpen_of_spawned hans.2 hans.1
    rw [hclose] at hopen
    refine ⟨hopen.1, hopen.2, ?_⟩
    rintro _ ⟨⟩
    exact iff_of_true rfl (.tail' hans.1 hans.2)
  fun_cases closeStaleSpawnEdge manager graphStore listFails failure root child expectedIncarnation
  case case1 hne => exact ⟨nofun, fun heq ↦ absurd heq hne, closesAtMost_refl⟩
  case case2 hstore => exact ⟨nofun, fun _ heq ↦ by simp [heq] at hstore, closesAtMost_refl⟩
  case case3 herror =>
    rw [herror] at hans
    obtain ⟨parent, hfails⟩ := hans
    exact ⟨nofun, fun _ _ hlists ↦ by simp [hlists parent] at hfails, closesAtMost_refl⟩
  case case4 hnone =>
    rw [hnone] at hans
    refine ⟨?_, fun _ _ _ _ ↦ ⟨false, rfl⟩, closesAtMost_refl⟩
    rintro _ ⟨⟩
    exact iff_of_false nofun hans
  case case5 => exact ⟨nofun, nofun, closesAtMost_refl⟩
  case case6 hpar _ _ hclose => exact ⟨nofun, nofun, (hfnd hpar hclose).2.1⟩
  case case7 hpar _ hclose => exact absurd rfl (hfnd hpar hclose).1
  all_goals
    rename_i hpar _ hclose
    obtain ⟨-, hcloses, hbelow⟩ := hfnd hpar hclose
    exact ⟨hbelow, fun _ _ _ _ ↦ ⟨true, rfl⟩, hcloses⟩

end Close

end Slopdex.Agent.StaleEdges
