import Mathlib.Logic.Relation

/-!
# Labelled transition functions and runs under a side condition

A system is a partial transition function: an action is disabled where the function answers `none`.
`Guarded ok` collects the states of the runs in which every step satisfies `ok` in the state it
leaves, so a property under a condition on the steps is an invariant of `Guarded`. Runs given as
lists of actions are executable.
-/

namespace Slopdex.Library.Transition

open Option

universe u v

structure System (σ : Type u) (α : Type v) where
  init : σ
  step : σ → α → Option σ

namespace System

variable {σ : Type u} {α : Type v} (M : System σ α)

/-- The states reached by the runs whose every step satisfies `ok`. -/
inductive Guarded (ok : σ → α → Prop) : σ → Prop
  | init : Guarded ok M.init
  | step {s s' : σ} {a : α} : Guarded ok s → ok s a → M.step s a = some s' → Guarded ok s'

/-- The states of all runs. -/
def Reachable : σ → Prop := M.Guarded fun _ _ ↦ True

/-- The states of the runs that start in `s`. -/
def From : σ → σ → Prop := Relation.ReflTransGen fun s s' ↦ ∃ a, M.step s a = some s'

variable {M} {ok ok' : σ → α → Prop}

theorem Guarded.invariant {s : σ} (hs : M.Guarded ok s) (Inv : σ → Prop) (hi : Inv M.init)
    (hst : ∀ s a s', Inv s → ok s a → M.step s a = some s' → Inv s') : Inv s := by
  induction hs with
  | init => exact hi
  | step _ hok hs' ih => exact hst _ _ _ ih hok hs'

theorem Guarded.mono (h : ∀ s a, ok s a → ok' s a) {s : σ} (hs : M.Guarded ok s) :
    M.Guarded ok' s := by
  induction hs with
  | init => exact .init
  | step _ hok hs' ih => exact .step ih (h _ _ hok) hs'

theorem Guarded.reachable {s : σ} (hs : M.Guarded ok s) : M.Reachable s :=
  hs.mono fun _ _ _ ↦ trivial

theorem Reachable.invariant {s : σ} (hs : M.Reachable s) (Inv : σ → Prop) (hin : Inv M.init)
    (hst : ∀ s a s', Inv s → M.step s a = some s' → Inv s') : Inv s :=
  Guarded.invariant hs Inv hin fun s a s' hi _ h ↦ hst s a s' hi h

theorem From.stable {P : σ → Prop} (hst : ∀ s a s', P s → M.step s a = some s' → P s')
    {s s' : σ} (h : M.From s s') (hs : P s) : P s' := by
  induction h with
  | refl => exact hs
  | tail _ hl ih =>
    obtain ⟨a, ha⟩ := hl
    exact hst _ a _ ih ha

variable (M)

/-- Execute a list of actions; a disabled action ends the run with `none`. -/
def run : σ → List α → Option σ
  | s, [] => some s
  | s, a :: rest => (M.step s a).bind fun s' ↦ run s' rest

def runIf (ok : σ → α → Prop) [∀ s a, Decidable (ok s a)] : σ → List α → Option σ
  | s, [] => some s
  | s, a :: rest => if ok s a then (M.step s a).bind fun s' ↦ runIf ok s' rest else none

variable {M}

theorem guarded_of_runIf [∀ s a, Decidable (ok s a)] {s s' : σ} {actions : List α}
    (hs : M.Guarded ok s) (h : M.runIf ok s actions = some s') : M.Guarded ok s' := by
  induction actions generalizing s with
  | nil =>
    rw [runIf, some.injEq] at h
    exact h ▸ hs
  | cons _ _ ih =>
    rw [runIf] at h
    split at h
    next hok =>
      obtain ⟨t, ht, hr⟩ := bind_eq_some_iff.mp h
      exact ih (.step hs hok ht) hr
    next => cases h

theorem reachable_of_run {s s' : σ} {actions : List α} (hs : M.Reachable s)
    (h : M.run s actions = some s') : M.Reachable s' := by
  induction actions generalizing s with
  | nil =>
    rw [run, some.injEq] at h
    exact h ▸ hs
  | cons _ _ ih =>
    rw [run] at h
    obtain ⟨t, ht, hr⟩ := bind_eq_some_iff.mp h
    exact ih (.step hs trivial ht) hr

theorem exists_reachable_of_run (M : System σ α) (actions : List α) (check : σ → Bool)
    (h : (M.run M.init actions).any check = true) : ∃ s, M.Reachable s ∧ check s = true := by
  cases hrun : M.run M.init actions with
  | none => simp [hrun] at h
  | some s =>
    rw [hrun] at h
    exact ⟨s, reachable_of_run .init hrun, h⟩

theorem exists_guarded_of_runIf (M : System σ α) (ok : σ → α → Prop) [∀ s a, Decidable (ok s a)]
    (actions : List α) (check : σ → Bool)
    (h : (M.runIf ok M.init actions).any check = true) :
    ∃ s, M.Guarded ok s ∧ check s = true := by
  cases hrun : M.runIf ok M.init actions with
  | none => simp [hrun] at h
  | some s =>
    rw [hrun] at h
    exact ⟨s, guarded_of_runIf .init hrun, h⟩

end System

end Slopdex.Library.Transition
