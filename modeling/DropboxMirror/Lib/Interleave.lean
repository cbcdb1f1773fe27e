import Mathlib

/-!
# Interleavings

Processes share a state and take atomic steps, one process at a time and in any order. A
configuration is the list of the processes, each under its name, and the shared state.

* `interference_free`: what each process keeps under its own steps and under the steps of
  the others holds along every interleaving.
* `shared`: what every step keeps of the shared state holds along every interleaving.
* `accounted`: along every interleaving each thing that is present belongs to a process.
* `run_process`: one process runs by itself.
-/

namespace Interleave

variable {ι π σ : Type*} {R : ι → π → σ → π → σ → Prop} {c c' : List (ι × π) × σ}

/-- One process of the list takes a step. -/
inductive Step (R : ι → π → σ → π → σ → Prop) : List (ι × π) × σ → List (ι × π) × σ → Prop
  | move (before after : List (ι × π)) {i : ι} {p p' : π} {s s' : σ} (h : R i p s p' s') :
      Step R (before ++ (i, p) :: after, s) (before ++ (i, p') :: after, s')

/-- Names stay. -/
theorem Step.names (h : Step R c c') : c'.1.map Prod.fst = c.1.map Prod.fst := by
  cases h with
  | move before after h => simp

/-- **Interference freedom.** `I i p s` is what the process `i` relies on. -/
theorem interference_free {I : ι → π → σ → Prop}
    (hown : ∀ i p s p' s', R i p s p' s' → I i p s → I i p' s')
    (hother : ∀ i ∈ c.1.map Prod.fst, ∀ j ∈ c.1.map Prod.fst, i ≠ j →
      ∀ p s p' s' q, R i p s p' s' → I j q s → I j q s')
    (hnd : (c.1.map Prod.fst).Nodup) (h : Relation.ReflTransGen (Step R) c c')
    (hstart : ∀ x ∈ c.1, I x.1 x.2 c.2) : ∀ x ∈ c'.1, I x.1 x.2 c'.2 := by
  have key : c'.1.map Prod.fst = c.1.map Prod.fst ∧ ∀ x ∈ c'.1, I x.1 x.2 c'.2 := by
    induction h with
    | refl => exact ⟨rfl, hstart⟩
    | @tail d d' _ hstep ih =>
      obtain ⟨hnames, hI⟩ := ih
      refine ⟨hstep.names.trans hnames, ?_⟩
      cases hstep with
      | @move before after i p p' s s' hR =>
        have hmem : ∀ x ∈ before ++ (i, p) :: after, x.1 ∈ c.1.map Prod.fst := fun x hx => by
          rw [← hnames]
          exact List.mem_map_of_mem hx
        rw [← hnames, List.map_append, List.map_cons, List.nodup_middle, List.nodup_cons,
          List.mem_append, not_or] at hnd
        -- the others keep theirs, because their names differ from the mover's
        have hrest : ∀ x ∈ before ++ after, I x.1 x.2 s' := by
          intro x hx
          have hx' : x ∈ before ++ (i, p) :: after := by
            rcases List.mem_append.1 hx with hx | hx
            · exact List.mem_append_left _ hx
            · exact List.mem_append_right _ (List.mem_cons_of_mem _ hx)
          have hne : i ≠ x.1 := by
            intro heq
            rcases List.mem_append.1 hx with hx | hx
            · exact hnd.1.1 (List.mem_map.2 ⟨x, hx, heq.symm⟩)
            · exact hnd.1.2 (List.mem_map.2 ⟨x, hx, heq.symm⟩)
          exact hother i (hmem (i, p) (by simp)) x.1 (hmem x hx') hne _ _ _ _ _ hR (hI x hx')
        intro x hx
        rcases List.mem_append.1 hx with hx | hx
        · exact hrest x (List.mem_append_left _ hx)
        rcases List.mem_cons.1 hx with rfl | hx
        · exact hown _ _ _ _ _ hR (hI (i, p) (by simp))
        · exact hrest x (List.mem_append_right _ hx)
  exact key.2

/-- An invariant of the shared state. -/
theorem shared {J : σ → Prop} (hstep : ∀ i p s p' s', R i p s p' s' → J s → J s')
    (h : Relation.ReflTransGen (Step R) c c') (hstart : J c.2) : J c'.2 := by
  induction h with
  | refl => exact hstart
  | tail _ hmove ih =>
    cases hmove with
    | move before after h => exact hstep _ _ _ _ _ h ih

/-- **Nothing is left over.** What is present after a step is its process's own, or was
present before it and another's. -/
theorem accounted {κ : Type*} {present : σ → κ → Prop} {owns : ι → π → κ → Prop}
    (hstep : ∀ i p s p' s', R i p s p' s' → ∀ k, present s' k →
      owns i p' k ∨ present s k ∧ ¬ owns i p k)
    (h : Relation.ReflTransGen (Step R) c c')
    (hstart : ∀ k, present c.2 k → ∃ x ∈ c.1, owns x.1 x.2 k) :
    ∀ k, present c'.2 k → ∃ x ∈ c'.1, owns x.1 x.2 k := by
  induction h with
  | refl => exact hstart
  | @tail d d' _ hmove ih =>
    cases hmove with
    | @move before after i p p' s s' hR =>
      intro k hk
      rcases hstep _ _ _ _ _ hR k hk with hown | ⟨hold, hnot⟩
      · exact ⟨(i, p'), by simp, hown⟩
      · obtain ⟨x, hx, hown⟩ := ih k hold
        refine ⟨x, ?_, hown⟩
        rcases List.mem_append.1 hx with hx | hx
        · exact List.mem_append_left _ hx
        rcases List.mem_cons.1 hx with rfl | hx
        · exact absurd hown hnot
        · exact List.mem_append_right _ (List.mem_cons_of_mem _ hx)

/-- A configuration in which the name decides the process. -/
def named (ids : List ι) (f : ι → π) : List (ι × π) := ids.map fun i => (i, f i)

theorem named_split [DecidableEq ι] {before after : List ι} {i : ι} (hb : i ∉ before) (ha : i ∉ after)
    (f : ι → π) (p : π) : named (before ++ i :: after) (Function.update f i p) =
      named before f ++ (i, p) :: named after f := by
  have hkeep : ∀ l : List ι, i ∉ l → named l (Function.update f i p) = named l f := by
    intro l hl
    refine List.map_congr_left fun j hj => ?_
    rw [Function.update_of_ne fun hji => hl (by rw [← hji]; exact hj)]
  rw [named, List.map_append, List.map_cons, Function.update_self]
  exact congrArg₂ (fun a b => a ++ (i, p) :: b) (hkeep before hb) (hkeep after ha)

/-- **One process runs by itself**, where its steps may be taken with the others at rest. -/
theorem run_process [DecidableEq ι] {S : List (ι × π) × σ → List (ι × π) × σ → Prop} {i : ι}
    {ids : List ι} (hnd : ids.Nodup) (hi : i ∈ ids) {L : π × σ → π × σ → Prop}
    (hS : ∀ before after p s p' s', L (p, s) (p', s') →
      S (before ++ (i, p) :: after, s) (before ++ (i, p') :: after, s'))
    {f : ι → π} {s : σ} {x : π × σ} (h : Relation.ReflTransGen L (f i, s) x) :
    Relation.ReflTransGen S (named ids f, s) (named ids (Function.update f i x.1), x.2) := by
  obtain ⟨before, after, rfl⟩ := List.append_of_mem hi
  have hb : i ∉ before ∧ i ∉ after := by
    rw [List.nodup_middle, List.nodup_cons, List.mem_append, not_or] at hnd
    exact hnd.1
  induction h with
  | refl => rw [Function.update_eq_self]
  | @tail y z _ hL ih =>
    refine ih.tail ?_
    rw [named_split hb.1 hb.2, named_split hb.1 hb.2]
    exact hS _ _ _ _ _ _ hL

end Interleave
