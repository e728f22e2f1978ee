import Mathlib.Tactic.TypeStar

/-!
# Lockstep — two computations side by side

Of two computations that may have no result, either neither has one, or both
have, and the results are related. This is kept when both go on from there in
the same way.
-/

namespace Option.Rel

variable {α β γ δ : Type} {R R' : α → β → Prop} {S : γ → δ → Prop} {x : Option α} {y : Option β}
  {k : α → Option γ} {l : β → Option δ}

/-- Two computations stay related when they go on from related results in the same
way. -/
theorem bind (h : Option.Rel R x y)
    (hgo : ∀ a b, x = .some a → R a b → Option.Rel S (k a) (l b)) :
    Option.Rel S (x.bind k) (y.bind l) := by
  cases h with
  | none => exact .none
  | some hab => exact hgo _ _ rfl hab

/-- The relation may be weakened, as far as the results there are allow it. -/
theorem mono (h : Option.Rel R x y) (himp : ∀ a b, x = .some a → R a b → R' a b) :
    Option.Rel R' x y := by
  cases h with
  | none => exact .none
  | some hab => exact .some (himp _ _ rfl hab)

/-- A result of the first computation has a related result of the second. -/
theorem eq_some {a : α} (h : Option.Rel R x y) (hx : x = .some a) : ∃ b, y = .some b ∧ R a b := by
  subst hx
  cases h with
  | some hab => exact ⟨_, rfl, hab⟩

/-- A result of the second computation has a related result of the first. -/
theorem eq_some' {b : β} (h : Option.Rel R x y) (hy : y = .some b) : ∃ a, x = .some a ∧ R a b := by
  subst hy
  cases h with
  | some hab => exact ⟨_, rfl, hab⟩

end Option.Rel
