import Mathlib

/-!
# Lists related position by position

An element on one side of `List.Forall₂` has a partner on the other.
-/

namespace Pointwise

variable {α β : Type*} {R : α → β → Prop} {xs : List α} {ys : List β}

theorem exists_right (h : List.Forall₂ R xs ys) {x : α} (hx : x ∈ xs) : ∃ y ∈ ys, R x y := by
  induction h with
  | nil => exact absurd hx List.not_mem_nil
  | cons hxy _ ih =>
    rcases List.mem_cons.1 hx with rfl | hx
    · exact ⟨_, List.mem_cons_self, hxy⟩
    · obtain ⟨y, hy, hr⟩ := ih hx
      exact ⟨y, List.mem_cons_of_mem _ hy, hr⟩

theorem exists_left (h : List.Forall₂ R xs ys) {y : β} (hy : y ∈ ys) : ∃ x ∈ xs, R x y :=
  exists_right h.flip hy

/-- What the relation keeps, the lists keep in order. -/
theorem map_eq {γ : Type*} {f : α → γ} {g : β → γ} (h : List.Forall₂ R xs ys)
    (hfg : ∀ x y, R x y → g y = f x) : ys.map g = xs.map f := by
  induction h with
  | nil => rfl
  | cons hxy _ ih => rw [List.map_cons, List.map_cons, hfg _ _ hxy, ih]

end Pointwise
