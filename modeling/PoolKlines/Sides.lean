/-!
# The two sides of a pool

* `Sides α` is a value for token A and one for token B;
* `Sides.map`, `Sides.map₂` and `Sides.swap`.
-/

namespace PoolKlines

/-- A value for token A and a value for token B. -/
@[ext]
structure Sides (α : Type) where
  a : α
  b : α
  deriving DecidableEq

namespace Sides

variable {α β γ : Type}

/-- The same value on both sides. -/
def both (x : α) : Sides α := ⟨x, x⟩

/-- Apply a function on each side. -/
def map (f : α → β) (s : Sides α) : Sides β := ⟨f s.a, f s.b⟩

/-- Combine two pairs of sides, side by side. -/
def map₂ (f : α → β → γ) (s : Sides α) (t : Sides β) : Sides γ := ⟨f s.a t.a, f s.b t.b⟩

/-- Exchange the sides. -/
def swap (s : Sides α) : Sides α := ⟨s.b, s.a⟩

@[simp] theorem map_a (f : α → β) (s : Sides α) : (s.map f).a = f s.a := rfl

@[simp] theorem map_b (f : α → β) (s : Sides α) : (s.map f).b = f s.b := rfl

@[simp] theorem map₂_a (f : α → β → γ) (s : Sides α) (t : Sides β) :
    (s.map₂ f t).a = f s.a t.a := rfl

@[simp] theorem map₂_b (f : α → β → γ) (s : Sides α) (t : Sides β) :
    (s.map₂ f t).b = f s.b t.b := rfl

@[simp] theorem swap_a (s : Sides α) : s.swap.a = s.b := rfl

@[simp] theorem swap_b (s : Sides α) : s.swap.b = s.a := rfl

@[simp] theorem swap_swap (s : Sides α) : s.swap.swap = s := rfl

@[simp] theorem both_a (x : α) : (both x).a = x := rfl

@[simp] theorem both_b (x : α) : (both x).b = x := rfl

end Sides

end PoolKlines
