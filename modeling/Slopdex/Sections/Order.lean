import Mathlib

/-!
# The order of the threads in a section

A thread is moved by giving it a position between its new neighbours. Where there is none, the other
threads of the section are numbered anew, in their order. A transaction that fails is rolled back.
-/

namespace Slopdex.Sections

/-- The rows of the threads; `⊥` is the position `NULL`. -/
structure Threads (τ σ : Type) where
  ids : Finset τ
  sections : Finset σ
  sectionOf : τ → Option σ
  position : τ → WithBot ℤ

structure Move (τ σ : Type) where
  thread : τ
  target : Option σ
  before : Option τ

inductive MoveError (τ σ : Type)
  | beforeWithoutSection
  | missingSection (target : σ)
  | beforeItself (thread : τ)
  | beforeNotInSection (before : τ) (target : σ)
  | noRemainingPositions (target : σ)

def sectionPositionGap : ℤ := 1000000

namespace Threads

variable {τ σ : Type} {s : Threads τ σ} {threads : Finset τ} {order front back : List τ}

/-- The list has the threads by increasing positions, which are distinct then. -/
structure Lists (s : Threads τ σ) (threads : Finset τ) (order : List τ) : Prop where
  increasing : order.Pairwise (s.position · < s.position ·)
  mem_iff : ∀ id, id ∈ order ↔ id ∈ threads

theorem Lists.congr {other : Threads τ σ} (h : s.Lists threads order)
    (heq : ∀ id ∈ threads, other.position id = s.position id) : other.Lists threads order where
  increasing := h.increasing.imp_of_mem fun hid hid' hlt ↦ by
    rwa [heq _ ((h.mem_iff _).mp hid), heq _ ((h.mem_iff _).mp hid')]
  mem_iff := h.mem_iff

theorem lt_coe_of_le_sup {free : ℤ} {id : τ} (hid : id ∈ threads)
    (hf : ∀ lower : ℤ, threads.sup s.position = lower → lower < free) : s.position id < free := by
  have hle : s.position id ≤ threads.sup s.position := Finset.le_sup hid
  cases hs : threads.sup s.position with
  | bot => exact le_bot_iff.mp (hle.trans_eq hs) ▸ WithBot.bot_lt_coe free
  | coe lower => exact (hle.trans_eq hs).trans_lt (WithBot.coe_lt_coe.mpr (hf lower hs))

variable [LinearOrder τ] {thread : τ}

def place (s : Threads τ σ) (thread : τ) (target : Option σ) (position : WithBot ℤ) :
    Threads τ σ :=
  { s with
    sectionOf := Function.update s.sectionOf thread target
    position := Function.update s.position thread position }

namespace Lists

theorem erase (h : s.Lists threads order) (thread : τ) :
    s.Lists (threads.erase thread) (order.erase thread) where
  increasing := h.increasing.sublist List.erase_sublist
  mem_iff id := by
    have hn : order.Nodup := h.increasing.imp fun hlt heq ↦ hlt.ne (congrArg _ heq)
    rw [hn.mem_erase_iff, Finset.mem_erase, h.mem_iff]

theorem place (h : s.Lists threads order) (ht : thread ∉ threads) (target : Option σ)
    (pos : WithBot ℤ) : (s.place thread target pos).Lists threads order :=
  h.congr fun _ hid ↦ Function.update_of_ne (ne_of_mem_of_not_mem hid ht) ..

theorem insert {position : WithBot ℤ} (h : s.Lists threads (front ++ back))
    (ht : thread ∉ threads) (hf : ∀ id ∈ front, s.position id < position)
    (hb : ∀ id ∈ back, position < s.position id) (target : Option σ) :
    (s.place thread target position).Lists (insert thread threads) (front ++ thread :: back) := by
  have hold (id) (hid : id ∈ front ++ back) :
      (s.place thread target position).position id = s.position id :=
    Function.update_of_ne (ne_of_mem_of_not_mem ((h.mem_iff id).mp hid) ht) ..
  have hn : (s.place thread target position).position thread = position :=
    Function.update_self ..
  obtain ⟨hi, hm⟩ := h.place ht target position
  refine ⟨?_, fun id ↦ by rw [List.perm_middle.mem_iff, List.mem_cons, Finset.mem_insert, hm]⟩
  simp only [List.pairwise_append, List.pairwise_cons, List.forall_mem_cons] at hi ⊢
  grind

end Lists

/-! ## Moves -/

variable [DecidableEq σ]

section

variable (s : Threads τ σ) (target : σ) (thread : τ)

def members : Finset τ := s.ids.filter (s.sectionOf · = some target)

/-- The threads of the section apart from the one that is moved -/
def others : Finset τ := (s.members target).erase thread

/-- One round of the loop of `section_move_position`; `none` if there is no room -/
def freePosition : Option τ → Except (MoveError τ σ) (Option ℤ)
  | some before =>
    match s.position before with
    | none => .error (.beforeNotInSection before target)
    | some upper =>
      match ((s.others target thread).filter (s.position · < upper)).sup s.position with
      | some lower => .ok (if 1 < upper - lower then some (lower + (upper - lower) / 2) else none)
      | none => .ok (if 1 < upper then some (upper / 2) else none)
  | none =>
    let position := ((s.others target thread).sup s.position).unbotD 0 + sectionPositionGap
    .ok (if position < 2 ^ 63 then some position else none)

def renumberSectionPositions : Threads τ σ :=
  { s with
    position := fun id ↦
      if id ∈ s.others target thread then
        (((s.others target thread).filter fun other ↦
          toLex (s.position other, other) ≤ toLex (s.position id, id)).card * sectionPositionGap : ℤ)
      else s.position id }

def sectionMovePosition (before : Option τ) : Except (MoveError τ σ) (Threads τ σ × ℤ) := do
  match ← s.freePosition target thread before with
  | some position => return (s, position)
  | none =>
    let s := s.renumberSectionPositions target thread
    match ← s.freePosition target thread before with
    | some position => return (s, position)
    | none => .error (.noRemainingPositions target)

/-- `Ok(false)` is `none`: there is no such thread. -/
def moveThreadToSection (move : Move τ σ) : Except (MoveError τ σ) (Option (Threads τ σ)) :=
  match move.target with
  | none =>
    if move.before.isSome then .error .beforeWithoutSection
    else if move.thread ∉ s.ids then .ok none
    else .ok (s.place move.thread none ⊥)
  | some target =>
    if move.thread ∉ s.ids then .ok none
    else if target ∉ s.sections then .error (.missingSection target)
    else if move.before = some move.thread then .error (.beforeItself move.thread)
    else match move.before.filter (· ∉ s.members target) with
      | some before => .error (.beforeNotInSection before target)
      | none => do
        let (s, position) ← s.sectionMovePosition target move.thread move.before
        return s.place move.thread (some target) position

def apply (move : Move τ σ) : Threads τ σ :=
  match s.moveThreadToSection move with
  | .ok (some next) => next
  | _ => s

/-- The thread leaves the order; in its new section it stands before the named thread or at the end. -/
def Reorders (move : Move τ σ) (order next : List τ) : Prop :=
  if move.target = some target then ∃ front back, order.erase move.thread = front ++ back ∧
    back.head? = move.before ∧ next = front ++ move.thread :: back
  else next = order.erase move.thread

end

variable {target : σ}

theorem Lists.renumber {chosen : σ} (h : s.Lists (s.others target thread) order) :
    (s.renumberSectionPositions chosen thread).Lists (s.others target thread) order := by
  by_cases heq : chosen = target
  · subst heq
    refine ⟨h.increasing.imp_of_mem fun {id other} hid ho hlt ↦ ?_, h.mem_iff⟩
    rw [h.mem_iff] at hid ho
    have hr : toLex (s.position id, id) < toLex (s.position other, other) :=
      Prod.Lex.toLex_lt_toLex.mpr (.inl hlt)
    unfold renumberSectionPositions
    dsimp only
    rw [if_pos hid, if_pos ho, WithBot.coe_lt_coe]
    refine Int.mul_lt_mul_of_pos_right (Int.ofNat_lt.mpr (Finset.card_lt_card ?_)) (by decide)
    rw [Finset.ssubset_iff_of_subset
      (Finset.monotone_filter_right _ fun _ _ hle ↦ hle.trans hr.le)]
    exact ⟨other, by simp [ho], by simp [hr]⟩
  · refine h.congr fun id hid ↦ if_neg fun hc ↦ heq ?_
    simp only [others, members, Finset.mem_erase, Finset.mem_filter] at hid hc
    exact Option.some_inj.mp (hc.2.2.symm.trans hid.2.2)

theorem members_place (ht : thread ∈ s.ids) (chosen : Option σ) (pos : WithBot ℤ) :
    (s.place thread chosen pos).members target =
      if chosen = some target then insert thread (s.others target thread)
      else s.others target thread := by
  ext id
  rw [members, Finset.mem_filter]
  by_cases hid : id = thread
  · split_ifs with h <;> simp [place, others, hid, ht, h]
  · split_ifs <;> simp [members, place, others, hid]

/-- A free position stands between what comes before the thread and what comes behind it. -/
theorem Lists.between {before : Option τ} {free : ℤ}
    (h : s.Lists (s.others target thread) (front ++ back)) (hbe : back.head? = before)
    (hf : s.freePosition target thread before = .ok (some free)) :
    (∀ id ∈ front, s.position id < free) ∧ ∀ id ∈ back, free < s.position id := by
  have hfr (id) (hid : id ∈ front) : id ∈ s.others target thread :=
    (h.mem_iff id).mp (List.mem_append_left _ hid)
  obtain ⟨-, hba, hlt⟩ := List.pairwise_append.mp h.increasing
  cases back with
  | nil =>
    subst hbe
    refine ⟨fun id hid ↦ lt_coe_of_le_sup (hfr id hid) fun lower hl ↦ ?_, nofun⟩
    rw [List.head?_nil, freePosition, hl] at hf
    split_ifs at hf <;> cases hf
    exact Int.lt_add_of_pos_right _ (by decide)
  | cons before back =>
    subst hbe
    rw [List.head?_cons, freePosition] at hf
    split at hf
    next => cases hf
    next upper hu =>
      have hr : free < upper ∧ ∀ lower : ℤ, ((s.others target thread).filter
          (s.position · < upper)).sup s.position = lower → lower < free := by
        split at hf <;> split_ifs at hf <;> cases hf
        next hl _ =>
          refine ⟨by omega, fun lower' hl' ↦ ?_⟩
          cases hl.symm.trans hl'
          omega
        next hl _ => exact ⟨by omega, fun _ h ↦ nomatch hl.symm.trans h⟩
      refine ⟨fun id hid ↦ lt_coe_of_le_sup (Finset.mem_filter.mpr ⟨hfr id hid, ?_⟩) hr.2, ?_⟩
      · exact (hlt id hid before (.head _)).trans_eq hu
      · have hb : (free : WithBot ℤ) < s.position before :=
          (WithBot.coe_lt_coe.mpr hr.1).trans_eq hu.symm
        exact List.forall_mem_cons.mpr
          ⟨hb, fun id hid ↦ hb.trans ((List.pairwise_cons.mp hba).1 id hid)⟩

theorem sectionMovePosition_eq_ok {before : Option τ} {next : Threads τ σ} {free : ℤ}
    (h : s.sectionMovePosition target thread before = .ok (next, free)) :
    (next = s ∨ next = s.renumberSectionPositions target thread) ∧
      next.freePosition target thread before = .ok (some free) := by
  unfold sectionMovePosition at h
  dsimp only [bind, Except.bind, pure, Except.pure] at h
  split at h
  next => cases h
  next hf =>
    split at h
    · cases h
      exact ⟨.inl rfl, hf⟩
    · split at h
      next => cases h
      next hs =>
        split at h <;> cases h
        exact ⟨.inr rfl, hs⟩

theorem exists_reorders {move : Move τ σ} {next : Threads τ σ}
    (h : s.Lists (s.members target) order)
    (hmove : s.moveThreadToSection move = .ok (some next)) :
    ∃ order', Reorders target move order order' ∧ next.Lists (next.members target) order' := by
  unfold moveThreadToSection at hmove
  unfold Reorders
  have he := h.erase move.thread
  split at hmove
  next ht =>
    split_ifs at hmove with hbe hth <;> cases hmove
    rw [members_place hth, if_neg nofun]
    refine ⟨_, ?_, he.place (Finset.notMem_erase _ _) ..⟩
    rw [ht, if_neg nofun]
  next chosen ht =>
    split_ifs at hmove with hth hse hi
    · split at hmove
      next => cases hmove
      next hf =>
        dsimp only [bind, Except.bind] at hmove
        split at hmove <;> cases hmove
        next result hp =>
          obtain ⟨hn, hfre⟩ := sectionMovePosition_eq_ok hp
          have hl : result.1.ids = s.ids ∧
              result.1.others target move.thread = s.others target move.thread ∧
              result.1.Lists (s.others target move.thread) (order.erase move.thread) := by
            rcases hn with heq | heq <;> rw [heq]
            · exact ⟨rfl, rfl, he⟩
            · exact ⟨rfl, rfl, Lists.renumber he⟩
          obtain ⟨hid, ho, horder⟩ := hl
          rw [← ho] at horder
          rw [members_place (hid ▸ hth), ht]
          split_ifs with heq
          · cases heq
            obtain ⟨front, back, hs, hh⟩ : ∃ front back,
                order.erase move.thread = front ++ back ∧ back.head? = move.before := by
              cases hbe : move.before with
              | none => exact ⟨_, [], (List.append_nil _).symm, rfl⟩
              | some before =>
                have hm : before ∈ s.members target := by simpa [hbe] using hf
                have hme : before ∈ order.erase move.thread := (he.mem_iff before).mpr
                  (Finset.mem_erase.mpr ⟨fun heq ↦ hi (heq ▸ hbe), hm⟩)
                obtain ⟨front, back, hs⟩ := List.append_of_mem hme
                exact ⟨front, before :: back, hs, rfl⟩
            rw [hs] at horder
            obtain ⟨hfr, hb⟩ := horder.between hh hfre
            exact ⟨_, ⟨front, back, hs, hh, rfl⟩,
              horder.insert (Finset.notMem_erase _ _) hfr hb _⟩
          · exact ⟨_, rfl, horder.place (Finset.notMem_erase _ _) ..⟩
    · cases hmove

/-- The positions in a section stay distinct, and a move takes the thread out of its section and puts
it before the named thread or at the end. -/
theorem moves_keep_order (start : Threads τ σ)
    (hstart : ∀ target, ∃ order, start.Lists (start.members target) order)
    (moves : List (Move τ σ)) (move : Move τ σ) (target : σ) :
    let s := moves.foldl apply start
    (∃ order, s.Lists (s.members target) order) ∧ match s.moveThreadToSection move with
      | .ok (some next) => ∀ order, s.Lists (s.members target) order → ∃ order',
          Reorders target move order order' ∧ next.Lists (next.members target) order'
      | _ => s.apply move = s := by
  have hdist : ∀ target, ∃ order, (moves.foldl apply start).Lists
      ((moves.foldl apply start).members target) order := by
    induction moves using List.reverseRecOn with
    | nil => exact hstart
    | append_singleton moves move ih =>
      intro target
      rw [List.foldl_append, List.foldl_cons, List.foldl_nil, apply]
      obtain ⟨order, horder⟩ := ih target
      split
      next hmove => exact (exists_reorders horder hmove).imp fun _ ↦ And.right
      next => exact ⟨order, horder⟩
  generalize moves.foldl apply start = s at hdist ⊢
  refine ⟨hdist target, ?_⟩
  unfold apply
  match hmove : s.moveThreadToSection move with
  | .ok (some next) => exact fun order horder ↦ exists_reorders horder hmove
  | .ok none | .error _ => rfl

/-- There is no position between the first two threads. -/
def crowded : Threads ℕ Unit :=
  ⟨{1, 2, 3}, {()}, fun id ↦ if id = 3 then none else some (), fun id ↦ (id : ℤ)⟩

theorem moves_keep_order_crowded :
    (crowded.apply ⟨3, some (), some 2⟩).position 3 = (1500000 : ℤ) ∧
      ∃ order, crowded.Lists (crowded.members ()) order :=
  ⟨by decide, (moves_keep_order crowded (fun _ ↦ ⟨[1, 2], by decide, fun id ↦ by
    simp [members, crowded]; omega⟩) [] ⟨3, some (), some 2⟩ ()).1⟩

end Threads

end Slopdex.Sections
