import DropboxMirror.Lib.Crash

/-!
# Programs that clean up

`try: p finally: q` over durable states: `q` runs however `p` ends, and an error of `q`
takes the place of what `p` ended with.

* `Triple.tryFinally`, `Frame.tryFinally`, `RefinesAt.tryFinally`: the rules.
-/

namespace Crash

variable {σ ε α β : Type}

/-- `try: p finally: q`. -/
def Prog.tryFinally (p : Prog σ ε α) (q : Prog σ ε Unit) : Prog σ ε α := fun s =>
  ⟨(p s).states ++ (q (p.final s)).states,
    match (q (p.final s)).result with
    | .ok () => (p s).result
    | .error e => .error e⟩

theorem Prog.final_tryFinally (p : Prog σ ε α) (q : Prog σ ε Unit) (s : σ) :
    (p.tryFinally q).final s = q.final (p.final s) := by
  rw [Prog.final, Prog.tryFinally, getLastD_append, Prog.final, Prog.final]

theorem Prog.result_tryFinally_ok {p : Prog σ ε α} {q : Prog σ ε Unit} {s : σ}
    (h : (q (p.final s)).result = .ok ()) : (p.tryFinally q s).result = (p s).result := by
  rw [Prog.tryFinally, h]

theorem Prog.result_tryFinally_error {p : Prog σ ε α} {q : Prog σ ε Unit} {s : σ} {e : ε}
    (h : (q (p.final s)).result = .error e) : (p.tryFinally q s).result = .error e := by
  rw [Prog.tryFinally, h]

/-- One commit in a part of the state. -/
theorem Prog.zoom_write {τ δ : Type} {part : τ → σ} {put : σ → τ → τ} {err : ε → δ} (f : σ → σ) :
    (Prog.write f : Prog σ ε Unit).zoom part put err = Prog.write fun t => put (f (part t)) t := rfl

namespace Triple

variable {R : σ → σ → Prop} {P : σ → Prop} {p : Prog σ ε α} {q : Prog σ ε Unit}
  {M Q : α → σ → Prop} {N E : ε → σ → Prop}

/-- The clean-up runs from either end. -/
theorem tryFinally (hp : Triple R P p M N)
    (hok : ∀ a, Triple R (M a) q (fun _ => Q a) E)
    (herr : ∀ e, Triple R (N e) q (fun _ => E e) E) : Triple R P (p.tryFinally q) Q E := by
  intro s hs
  obtain ⟨h1, h2, h3⟩ := hp s hs
  rw [Prog.final_tryFinally]
  -- what the clean-up does from where the program ended
  have hq : List.IsChain R (p.final s :: (q (p.final s)).states) ∧
      ((q (p.final s)).result = .ok () → ∀ a, (p s).result = .ok a → Q a (q.final (p.final s))) ∧
      ((q (p.final s)).result = .ok () → ∀ e, (p s).result = .error e → E e (q.final (p.final s))) ∧
      (∀ e, (q (p.final s)).result = .error e → E e (q.final (p.final s))) := by
    cases hr : (p s).result with
    | ok a =>
      obtain ⟨g1, g2, g3⟩ := hok a _ (h2 a hr)
      refine ⟨g1, fun h b hb => ?_, fun _ e he => (by cases he), g3⟩
      cases hb
      exact g2 () h
    | error e =>
      obtain ⟨g1, g2, g3⟩ := herr e _ (h3 e hr)
      refine ⟨g1, fun _ b hb => (by cases hb), fun h e' he => ?_, g3⟩
      cases he
      exact g2 () h
  obtain ⟨g1, g2, g3, g4⟩ := hq
  refine ⟨isChain_append h1 g1, fun a ha => ?_, fun e he => ?_⟩
  · cases hr : (q (p.final s)).result with
    | ok u => exact g2 hr a (by rwa [Prog.result_tryFinally_ok hr] at ha)
    | error e =>
      rw [Prog.result_tryFinally_error hr] at ha
      cases ha
  · cases hr : (q (p.final s)).result with
    | ok u => exact g3 hr e (by rwa [Prog.result_tryFinally_ok hr] at he)
    | error e' =>
      rw [Prog.result_tryFinally_error hr] at he
      cases he
      exact g4 e hr

end Triple

/-- A clean-up keeps the frame. -/
theorem Frame.tryFinally {τ : Type} {f : σ → τ} {p : Prog σ ε α} {q : Prog σ ε Unit}
    (hp : Frame f p) (hq : Frame f q) : Frame f (p.tryFinally q) := by
  intro s t ht
  rcases List.mem_append.1 ht with ht | ht
  · exact hp s t ht
  · rw [hq _ t ht, hp.final]

/-- A part of the state that a program over another part does not reach. -/
theorem Frame.zoom {τ ρ δ : Type} {part : τ → σ} {put : σ → τ → τ} {err : ε → δ} {f : τ → ρ}
    {p : Prog σ ε α} (h : ∀ s t, f (put s t) = f t) : Frame f (p.zoom part put err) := by
  intro s t ht
  obtain ⟨u, -, rfl⟩ := List.mem_map.1 ht
  exact h u s

/-- A clean-up outside the part, which does not fail. -/
theorem RefinesAt.tryFinally {τ : Type} {part : τ → σ} {q : Prog τ ε α} {p : Prog σ ε α}
    {r : Prog τ ε Unit}
    {t : τ} (h : RefinesAt part q p t) (hr : Refines part r (Pure.pure ())) :
    RefinesAt part (q.tryFinally r) p t := by
  have hok : ∀ t, (r t).result = .ok () := fun t => hr.result t
  refine ⟨?_, ?_, fun t' ht => ?_⟩
  · rw [Prog.result, Prog.result_tryFinally_ok (hok _)]
    exact h.result
  · rw [Prog.final_tryFinally, hr.final]
    exact h.final
  · rcases List.mem_append.1 ht with ht | ht
    · exact h.states t' ht
    · rcases hr.states _ t' ht with heq | hm
      · -- the clean-up shows what the program ended with
        rw [heq, h.final]
        exact p.final_eq_or_mem (part t)
      · cases hm

theorem Refines.tryFinally {τ : Type} {part : τ → σ} {q : Prog τ ε α} {p : Prog σ ε α} {r : Prog τ ε Unit}
    (h : Refines part q p) (hr : Refines part r (Pure.pure ())) : Refines part (q.tryFinally r) p := by
  have hall : ∀ t, RefinesAt part (q.tryFinally r) p t := fun t => (h.from_state t).tryFinally hr
  exact ⟨fun t => (hall t).result, fun t => (hall t).final, fun t => (hall t).states⟩

end Crash
