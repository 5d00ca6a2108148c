import Mathlib.Logic.Basic

/-!
# Outcomes of computations that fail with a state

A computation of the monad `EStateM` ends with a value or with an error, and with a state in both
cases. `Outcome m s ok error` is the weakest precondition of the two postconditions. A loop over a
list keeps an invariant that depends on the elements which have been visited.
-/

namespace Slopdex.Library.Effects

universe u

variable {ε σ α β : Type u} {m : EStateM ε σ α} {s : σ} {ok ok' : α → σ → Prop}
  {error error' : ε → σ → Prop}

/-- `ok` holds behind the computation if it returns, and `error` if it fails. -/
def Outcome (m : EStateM ε σ α) (s : σ) (ok : α → σ → Prop) (error : ε → σ → Prop) : Prop :=
  match m s with
  | .ok a s' => ok a s'
  | .error e s' => error e s'

@[simp] theorem outcome_pure (a : α) : Outcome (pure a) s ok error ↔ ok a s := Iff.rfl

@[simp] theorem outcome_modify {f : σ → σ} {ok : PUnit → σ → Prop} :
    Outcome (modify f : EStateM ε σ PUnit) s ok error ↔ ok ⟨⟩ (f s) := Iff.rfl

@[simp] theorem outcome_bind {f : α → EStateM ε σ β} {ok : β → σ → Prop} :
    Outcome (m >>= f) s ok error ↔ Outcome m s (fun a s' => Outcome (f a) s' ok error) error := by
  change (match EStateM.bind m f s with | .ok a s' => ok a s' | .error e s' => error e s') ↔ _
  unfold Outcome EStateM.bind
  cases m s <;> exact Iff.rfl

theorem Outcome.mono (h : Outcome m s ok error) (hok : ∀ a s', ok a s' → ok' a s')
    (he : ∀ e s', error e s' → error' e s') : Outcome m s ok' error' := by
  unfold Outcome at h ⊢
  cases hm : m s with
  | ok a s' =>
    rw [hm] at h
    exact hok a s' h
  | error e s' =>
    rw [hm] at h
    exact he e s' h

theorem outcome_result :
    Outcome m s (fun a s' => m s = .ok a s') (fun e s' => m s = .error e s') := by
  unfold Outcome
  split <;> assumption

theorem Outcome.and_result (h : Outcome m s ok error) :
    Outcome m s (fun a s' => m s = .ok a s' ∧ ok a s') (fun e s' => m s = .error e s' ∧ error e s') := by
  unfold Outcome at h ⊢
  cases hm : m s with
  | ok =>
    rw [hm] at h
    exact ⟨rfl, h⟩
  | error =>
    rw [hm] at h
    exact ⟨rfl, h⟩

/-- The computation returns. -/
def Succeeds (m : EStateM ε σ α) (s : σ) : Prop := Outcome m s (fun _ _ => True) fun _ _ => False

theorem succeeds_bind_of_ok {f : α → EStateM ε σ β} {a : α} {s' : σ} (h : m s = .ok a s') :
    Succeeds (m >>= f) s ↔ Succeeds (f a) s' := by
  rw [Succeeds, outcome_bind, Outcome, h]
  rfl

theorem not_succeeds_bind_of_error {f : α → EStateM ε σ β} {e : ε} {s' : σ}
    (h : m s = .error e s') :
    ¬ Succeeds (m >>= f) s := by
  rw [Succeeds, outcome_bind, Outcome, h]
  exact id

theorem Outcome.of_ok {a : α} {s' : σ} (h : Outcome m s ok error) (hm : m s = .ok a s') :
    ok a s' := by
  unfold Outcome at h
  rwa [hm] at h

theorem Outcome.exists_ok (h : Outcome m s ok fun _ _ => False) :
    ∃ a s', m s = .ok a s' ∧ ok a s' := by
  cases hm : m s with
  | ok a s' => exact ⟨a, s', rfl, h.of_ok hm⟩
  | error => simp [Outcome, hm] at h

instance [∀ a s', Decidable (ok a s')] [∀ e s', Decidable (error e s')] :
    Decidable (Outcome m s ok error) :=
  match h : m s with
  | .ok a s' => decidable_of_iff (ok a s') (by rw [Outcome, h])
  | .error e s' => decidable_of_iff (error e s') (by rw [Outcome, h])

theorem outcome_foldlM {γ : Type u} {l : List γ} {f : β → γ → EStateM ε σ β} {b : β}
    {invariant : List γ → β → σ → Prop} {error : ε → σ → Prop}
    (hb : ∀ done x rest, l = done ++ x :: rest → ∀ b s, invariant done b s →
      Outcome (f b x) s (fun b' s' => invariant (done ++ [x]) b' s') error)
    (hi : invariant [] b s) :
    Outcome (l.foldlM f b) s (fun b' s' => invariant l b' s') error := by
  have key (rest : List γ) : ∀ done b s, l = done ++ rest → invariant done b s →
      Outcome (rest.foldlM f b) s (fun b' s' => invariant l b' s') error := by
    induction rest with
    | nil =>
      intro _ _ _ hl hd
      rw [List.append_nil] at hl
      subst hl
      exact hd
    | cons x rest ih =>
      intro done b s hl hd
      rw [List.foldlM_cons, outcome_bind]
      apply (hb done x rest hl b s hd).mono
      · intro b' s' hs'
        exact ih (done ++ [x]) b' s' (by simpa using hl) hs'
      · intro _ _ he
        exact he
  exact key l [] b s rfl hi

theorem forM_eq_foldlM {γ : Type u} (l : List γ) (f : γ → EStateM ε σ PUnit) :
    l.forM f = l.foldlM (fun _ x => f x) ⟨⟩ := by
  induction l with
  | nil => rfl
  | cons x rest ih =>
    change (f x >>= fun _ => rest.forM f) = _
    rw [List.foldlM_cons, ih]

theorem outcome_forM {γ : Type u} {l : List γ} {f : γ → EStateM ε σ PUnit}
    {invariant : List γ → σ → Prop} {error : ε → σ → Prop}
    (hb : ∀ done x rest, l = done ++ x :: rest → ∀ s, invariant done s →
      Outcome (f x) s (fun _ s' => invariant (done ++ [x]) s') error) (hi : invariant [] s) :
    Outcome (l.forM f) s (fun _ s' => invariant l s') error := by
  rw [forM_eq_foldlM]
  apply outcome_foldlM
  · intro done x rest hl _ s hs
    exact hb done x rest hl s hs
  · exact hi

/-- The loop with the run so far at hand. -/
theorem outcome_forM_of_run {γ : Type u} {l : List γ} {f : γ → EStateM ε σ PUnit}
    {invariant : List γ → σ → Prop} {error : ε → σ → Prop}
    (hb : ∀ done x rest, l = done ++ x :: rest → ∀ s', done.forM f s = .ok ⟨⟩ s' → invariant done s' →
      Outcome (f x) s' (fun _ s'' => invariant (done ++ [x]) s'') error) (hi : invariant [] s) :
    Outcome (l.forM f) s (fun _ s' => invariant l s') error := by
  have hrun : Outcome (l.forM f) s (fun _ s' => l.forM f s = .ok ⟨⟩ s' ∧ invariant l s') error := by
    refine @outcome_forM _ _ _ _ _ _ (fun done s' => done.forM f s = .ok ⟨⟩ s' ∧ invariant done s')
      _ ?_ ⟨rfl, hi⟩
    rintro done x rest hl s' ⟨hdone, hinv⟩
    apply (hb done x rest hl s' hdone hinv).and_result.mono
    · rintro ⟨⟩ s'' ⟨hx, hinv'⟩
      refine ⟨?_, hinv'⟩
      rw [List.forM_eq_forM, List.forM_append]
      change EStateM.bind _ _ s = _
      rw [EStateM.bind, ← List.forM_eq_forM, hdone]
      change EStateM.bind _ _ s' = _
      rw [EStateM.bind, hx]
      rfl
    · exact fun _ _ h => h.2
  exact hrun.mono (fun _ _ h => h.2) fun _ _ h => h

theorem bind_eq_ok_iff {x : Except ε α} {f : α → Except ε β} {b : β} :
    x >>= f = .ok b ↔ ∃ a, x = .ok a ∧ f a = .ok b := by
  cases x with
  | error =>
    constructor
    · intro h
      cases h
    · rintro ⟨a, ha, -⟩
      cases ha
  | ok a =>
    constructor
    · intro h
      exact ⟨a, rfl, h⟩
    · rintro ⟨_, ha, hf⟩
      cases ha
      exact hf

end Slopdex.Library.Effects
