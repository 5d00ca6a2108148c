import Mathlib.Algebra.Group.Hom.Defs

/-!
# Transducers that take their input in pieces

A transducer reads a list and answers with an output, whose pieces are multiplied in their order. It
is additive, seen through a homomorphism, if reading two pieces one after the other is reading their
concatenation: the same state is left and the product of the outputs looks the same.
-/

namespace Slopdex.Library.Streaming

universe u

variable {σ α ω ω' : Type u}

structure Transducer (σ α ω : Type u) where
  push : σ → List α → σ × ω

namespace Transducer

variable [Monoid ω] [Monoid ω']

def pushAll (M : Transducer σ α ω) (s : σ) : List (List α) → σ × ω
  | [] => (s, 1)
  | piece :: rest =>
    let (s', out) := M.push s piece
    let (s'', out') := M.pushAll s' rest
    (s'', out * out')

/-- Reading two pieces is reading their concatenation, as far as `view` shows. -/
structure Additive (M : Transducer σ α ω) (view : ω →* ω') : Prop where
  state : ∀ s a b, (M.push s (a ++ b)).1 = (M.push (M.push s a).1 b).1
  output : ∀ s a b, view (M.push s (a ++ b)).2 =
    view (M.push s a).2 * view (M.push (M.push s a).1 b).2

variable {M : Transducer σ α ω} {view : ω →* ω'}

theorem Additive.pushAll_cons (h : M.Additive view) (s : σ) (piece : List α)
    (rest : List (List α)) :
    (M.pushAll s (piece :: rest)).1 = (M.push s (piece ++ rest.flatten)).1 ∧
      view (M.pushAll s (piece :: rest)).2 = view (M.push s (piece ++ rest.flatten)).2 := by
  induction rest generalizing s piece with
  | nil => simp [pushAll]
  | cons next rest ih =>
    obtain ⟨hstate, hout⟩ := ih (M.push s piece).1 next
    rw [List.flatten_cons]
    constructor
    · rw [h.state]
      exact hstate
    · calc view (M.pushAll s (piece :: next :: rest)).2
          = view (M.push s piece).2 * view (M.pushAll (M.push s piece).1 (next :: rest)).2 :=
            map_mul view _ _
        _ = view (M.push s piece).2 *
            view (M.push (M.push s piece).1 (next ++ rest.flatten)).2 := by rw [hout]
        _ = view (M.push s (piece ++ (next ++ rest.flatten))).2 := (h.output _ _ _).symm

/-- The way the input is cut does not matter to a transducer that has nothing to say at first. -/
theorem Additive.pushAll_eq_push (h : M.Additive view) {s : σ} (hs : M.push s [] = (s, 1))
    (pieces : List (List α)) :
    (M.pushAll s pieces).1 = (M.push s pieces.flatten).1 ∧
      view (M.pushAll s pieces).2 = view (M.push s pieces.flatten).2 := by
  cases pieces with
  | nil => simp [pushAll, hs]
  | cons piece rest => exact h.pushAll_cons s piece rest

end Transducer

end Slopdex.Library.Streaming
