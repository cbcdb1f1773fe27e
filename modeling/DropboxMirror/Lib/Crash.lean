import Mathlib

/-!
# Programs that leave a trail of durable states

A `Prog σ ε α` runs from a state of `σ`, and its execution is the list of the
states it commits, in order, and the value or the error it ends with. A process
killed at any point leaves one of the committed states behind.

`Triple R P p Q E` is the judgement: from a state with `P`, each committed state
follows the one before it by `R`; a normal end has `Q`, an error `E`. Loops go
through `Triple.foldlM`, whose invariant speaks of the elements done so far.

* `Triple.bind`, `Triple.get_bind`, `Triple.write`, `Triple.foldlM`: the rules.
* `Triple.zoom`: the rule of a program over a part of the state.
* `Triple.killed`: a killed program leaves a state reached by steps of `R`.
* `Frame`: a part of the state a program leaves alone, with the same rules.
* `Refines`: a program that is another one on a part of the state; `RefinesAt`: from one state.
-/

namespace Crash

variable {σ ε α β : Type}

/-- The states a run commits and how it ends. -/
structure Exec (σ ε α : Type) where
  states : List σ
  result : Except ε α

/-- A program over durable states. -/
def Prog (σ ε α : Type) : Type := σ → Exec σ ε α

namespace Prog

/-- The state a run leaves: the last one it commits. -/
def final (p : Prog σ ε α) (s : σ) : σ := (p s).states.getLastD s

theorem final_eq_or_mem (p : Prog σ ε α) (s : σ) : p.final s = s ∨ p.final s ∈ (p s).states := by
  rcases List.eq_nil_or_concat (p s).states with h | ⟨l, t, h⟩
  · left
    rw [final, h]
    rfl
  · right
    rw [final, h]
    simp

theorem final_mem {p : Prog σ ε α} {s : σ} (h : 0 < (p s).states.length) :
    p.final s ∈ (p s).states := by
  rw [final, List.getLastD_eq_getLast?, List.getLast?_eq_some_getLast (List.length_pos_iff.1 h)]
  exact List.getLast_mem _

/-- The value or the error of a run. -/
def result (p : Prog σ ε α) (s : σ) : Except ε α := (p s).result

instance : Monad (Prog σ ε) where
  pure a := fun _ => ⟨[], .ok a⟩
  bind p f := fun s =>
    match (p s).result with
    | .ok a => ⟨(p s).states ++ (f a (p.final s)).states, (f a (p.final s)).result⟩
    | .error e => ⟨(p s).states, .error e⟩

/-- Reads the state. -/
def get : Prog σ ε σ := fun s => ⟨[], .ok s⟩

/-- Commits one change. -/
def write (f : σ → σ) : Prog σ ε Unit := fun s => ⟨[f s], .ok ()⟩

/-- Raises. -/
def fail (e : ε) : Prog σ ε α := fun _ => ⟨[], .error e⟩

/-- `try: p except e: handler e`. -/
def catchError (p : Prog σ ε α) (handler : ε → Prog σ ε α) : Prog σ ε α := fun s =>
  match (p s).result with
  | .ok _ => p s
  | .error e => ⟨(p s).states ++ (handler e (p.final s)).states, (handler e (p.final s)).result⟩

/-- A program over a part of the state. -/
def zoom {τ δ : Type} (part : τ → σ) (put : σ → τ → τ) (err : ε → δ) (p : Prog σ ε α) : Prog τ δ α :=
  fun t => ⟨(p (part t)).states.map (put · t), (p (part t)).result.mapError err⟩

theorem pure_run (a : α) (s : σ) : (pure a : Prog σ ε α) s = ⟨[], .ok a⟩ := rfl

theorem get_bind (f : σ → Prog σ ε α) (s : σ) : (get >>= f) s = f s s := rfl

theorem bind_ok {p : Prog σ ε α} {f : α → Prog σ ε β} {s : σ} {a : α} (h : (p s).result = .ok a) :
    (p >>= f) s =
      ⟨(p s).states ++ (f a (p.final s)).states, (f a (p.final s)).result⟩ := by
  change (match (p s).result with
    | .ok a => _
    | .error e => _) = _
  rw [h]

theorem bind_error {p : Prog σ ε α} {f : α → Prog σ ε β} {s : σ} {e : ε}
    (h : (p s).result = .error e) : (p >>= f) s = ⟨(p s).states, .error e⟩ := by
  change (match (p s).result with
    | .ok a => _
    | .error e => _) = _
  rw [h]

/-- After a program that commits nothing. -/
theorem bind_pure_run {p : Prog σ ε α} {f : α → Prog σ ε β} {s : σ} {a : α} (h : p s = ⟨[], .ok a⟩) :
    (p >>= f) s = f a s := by
  have hfin : p.final s = s := by rw [final, h]; rfl
  rw [bind_ok (a := a) (by rw [h]), hfin, h]
  rfl

theorem mem_states_bind {p : Prog σ ε α} {f : α → Prog σ ε β} {s t : σ} (h : t ∈ (p s).states) :
    t ∈ ((p >>= f) s).states := by
  cases hp : (p s).result with
  | ok a =>
    rw [bind_ok hp]
    exact List.mem_append_left _ h
  | error e =>
    rw [bind_error hp]
    exact h

theorem catchError_ok {p : Prog σ ε α} {f : ε → Prog σ ε α} {s : σ} {a : α}
    (h : (p s).result = .ok a) : catchError p f s = p s := by rw [catchError, h]

theorem catchError_error {p : Prog σ ε α} {f : ε → Prog σ ε α} {s : σ} {e : ε}
    (h : (p s).result = .error e) : catchError p f s =
      ⟨(p s).states ++ (f e (p.final s)).states, (f e (p.final s)).result⟩ := by rw [catchError, h]

end Prog

open Prog

theorem getLastD_append (l m : List σ) (s : σ) :
    (l ++ m).getLastD s = m.getLastD (l.getLastD s) := by
  induction l generalizing s with
  | nil => rfl
  | cons x l ih => rw [List.cons_append, List.getLastD_cons, ih, List.getLastD_cons]

/-- What follows a program runs from where it ended. -/
theorem Prog.bind_from {p : Prog σ ε α} {f : α → Prog σ ε β} {s : σ} {a : α} (h : p.result s = .ok a) :
    (p >>= f).result s = (f a).result (p.final s) ∧ (p >>= f).final s = (f a).final (p.final s) := by
  have hrun := bind_ok (f := f) h
  refine ⟨by rw [result, hrun, result], ?_⟩
  rw [final, hrun, getLastD_append]
  rfl

variable {R : σ → σ → Prop}

theorem isChain_append {l m : List σ} {s : σ} (hl : List.IsChain R (s :: l))
    (hm : List.IsChain R (l.getLastD s :: m)) : List.IsChain R (s :: (l ++ m)) := by
  induction l generalizing s with
  | nil => exact hm
  | cons x l ih =>
    rw [List.isChain_cons_cons] at hl
    rw [List.cons_append, List.isChain_cons_cons]
    exact ⟨hl.1, ih hl.2 (by rwa [List.getLastD_cons] at hm)⟩

theorem Prog.bind_assoc {γ : Type} (p : Prog σ ε α) (f : α → Prog σ ε β) (g : β → Prog σ ε γ) :
    p >>= f >>= g = p >>= fun a => f a >>= g := by
  funext s
  cases hp : (p s).result with
  | error e =>
    have hpf : ((p >>= f) s).result = .error e := by rw [bind_error hp]
    rw [bind_error hpf, bind_error hp, bind_error hp]
  | ok a =>
    have hfin : (p >>= f).final s = (f a).final (p.final s) := by
      rw [final, bind_ok hp, getLastD_append, final, final]
    rw [bind_ok hp]
    cases hf : (f a (p.final s)).result with
    | error e =>
      rw [bind_error (by rw [bind_ok hp]; exact hf), bind_error hf, bind_ok hp]
    | ok b =>
      rw [bind_ok (by rw [bind_ok hp]; exact hf), bind_ok hf, bind_ok hp, hfin, List.append_assoc]

instance : LawfulMonad (Prog σ ε) := by
  refine LawfulMonad.mk' _ (fun p => ?_) (fun _ _ => rfl) Prog.bind_assoc
  funext s
  change (p >>= pure) s = p s
  cases hp : (p s).result with
  | error e => rw [bind_error hp, ← hp]
  | ok a =>
    rw [bind_ok hp, Prog.pure_run, List.append_nil, ← hp]

/-- A relation on the later state alone. -/
theorem isChain_of_forall {I : σ → Prop} {l : List σ} (h : ∀ t ∈ l, I t) (s : σ) :
    List.IsChain (fun _ t => I t) (s :: l) := by
  induction l generalizing s with
  | nil => exact List.isChain_singleton s
  | cons x l ih =>
    exact List.isChain_cons_cons.2
      ⟨h x List.mem_cons_self, ih (fun t ht => h t (List.mem_cons_of_mem _ ht)) x⟩

/-- Every state of a chain is reached from its start. -/
theorem reached_of_isChain {l : List σ} {s : σ} (h : List.IsChain R (s :: l)) :
    ∀ t ∈ l, Relation.ReflTransGen R s t := by
  induction l generalizing s with
  | nil => simp
  | cons x l ih =>
    rw [List.isChain_cons_cons] at h
    intro t ht
    rcases List.mem_cons.1 ht with rfl | ht
    · exact Relation.ReflTransGen.single h.1
    · exact Relation.ReflTransGen.head h.1 (ih h.2 t ht)

/-- **Crash triple.** From `P`, committed states follow each other by `R`; `Q` holds
of a returned value and the last state, `E` of a raised error and the last state. -/
def Triple (R : σ → σ → Prop) (P : σ → Prop) (p : Prog σ ε α) (Q : α → σ → Prop)
    (E : ε → σ → Prop) : Prop :=
  ∀ s, P s → List.IsChain R (s :: (p s).states) ∧
    (∀ a, (p s).result = .ok a → Q a (p.final s)) ∧
    (∀ e, (p s).result = .error e → E e (p.final s))

namespace Triple

variable {P P' : σ → Prop} {Q Q' : α → σ → Prop} {E E' : ε → σ → Prop} {p : Prog σ ε α}

theorem consequence (h : Triple R P p Q E) (hP : ∀ s, P' s → P s) (hQ : ∀ a s, Q a s → Q' a s)
    (hE : ∀ e s, E e s → E' e s) : Triple R P' p Q' E' := by
  intro s hs
  obtain ⟨h1, h2, h3⟩ := h s (hP s hs)
  exact ⟨h1, fun a ha => hQ _ _ (h2 a ha), fun e he => hE _ _ (h3 e he)⟩

/-- A wider relation between the commits. -/
theorem mono {R' : σ → σ → Prop} (h : Triple R P p Q E) (hR : ∀ s t, R s t → R' s t) :
    Triple R' P p Q E := fun s hs => ⟨(h s hs).1.imp hR, (h s hs).2⟩

/-- The post-conditions of a judgement may use its pre-condition's other parts. -/
theorem pre (h : ∀ s, P s → Triple R (fun t => t = s) p Q E) : Triple R P p Q E :=
  fun s hs => h s hs s rfl

theorem pure {a : α} (h : ∀ s, P s → Q a s) : Triple R P (Pure.pure a : Prog σ ε α) Q E := by
  intro s hs
  refine ⟨List.isChain_singleton _, ?_, ?_⟩
  · intro b hb
    cases hb
    exact h s hs
  · intro e he
    cases he

theorem fail {e : ε} (h : ∀ s, P s → E e s) : Triple R P (Prog.fail e : Prog σ ε α) Q E := by
  intro s hs
  refine ⟨List.isChain_singleton _, ?_, ?_⟩
  · intro b hb
    cases hb
  · intro e' he
    cases he
    exact h s hs

theorem write {f : σ → σ} {Q : Unit → σ → Prop} (h : ∀ s, P s → R s (f s) ∧ Q () (f s)) :
    Triple R P (Prog.write f : Prog σ ε Unit) Q E := by
  intro s hs
  refine ⟨List.isChain_pair.2 (h s hs).1, ?_, ?_⟩
  · intro b _
    exact (h s hs).2
  · intro e he
    cases he

/-- **Sequencing.** -/
theorem bind {f : α → Prog σ ε β} {M : α → σ → Prop} {Q : β → σ → Prop}
    (hp : Triple R P p M E) (hf : ∀ a, Triple R (M a) (f a) Q E) : Triple R P (p >>= f) Q E := by
  intro s hs
  obtain ⟨h1, h2, h3⟩ := hp s hs
  cases hr : (p s).result with
  | ok a =>
    obtain ⟨g1, g2, g3⟩ := hf a _ (h2 a hr)
    have hfin : (p >>= f).final s = (f a).final (p.final s) := by
      rw [final, bind_ok hr, final, final, getLastD_append]
    rw [bind_ok hr]
    refine ⟨isChain_append h1 g1, ?_, ?_⟩
    · intro b hb
      rw [hfin]
      exact g2 b hb
    · intro e he
      rw [hfin]
      exact g3 e he
  | error e =>
    have hfin : (p >>= f).final s = p.final s := by rw [final, bind_error hr, final]
    rw [bind_error hr]
    refine ⟨h1, ?_, ?_⟩
    · intro b hb
      cases hb
    · intro e' he
      cases he
      rw [hfin]
      exact h3 e hr

theorem get_bind {f : σ → Prog σ ε α} (h : ∀ s, P s → Triple R (fun t => t = s) (f s) Q E) :
    Triple R P (Prog.get >>= f) Q E := fun s hs => h s hs s rfl

/-- A handler that starts from what an error leaves. -/
theorem catchError {handler : ε → Prog σ ε α} {M : ε → σ → Prop} (hp : Triple R P p Q M)
    (hh : ∀ e, Triple R (M e) (handler e) Q E) : Triple R P (Prog.catchError p handler) Q E := by
  intro s hs
  obtain ⟨h1, h2, h3⟩ := hp s hs
  cases hr : (p s).result with
  | ok a =>
    have hfin : (Prog.catchError p handler).final s = p.final s := by
      rw [final, catchError_ok hr, final]
    rw [catchError_ok hr, hfin]
    refine ⟨h1, h2, ?_⟩
    intro e he
    rw [hr] at he
    cases he
  | error e =>
    obtain ⟨g1, g2, g3⟩ := hh e _ (h3 e hr)
    have hfin : (Prog.catchError p handler).final s = (handler e).final (p.final s) := by
      rw [final, catchError_error hr, final, final, getLastD_append]
    rw [catchError_error hr, hfin]
    exact ⟨isChain_append h1 g1, g2, g3⟩

/-- **Loops.** The invariant speaks of the elements done, in order, and of the
accumulator. -/
theorem foldlM {f : β → α → Prog σ ε β} {E : ε → σ → Prop} (Inv : List α → β → σ → Prop)
    (xs : List α) (b : β)
    (step : ∀ done x todo, xs = done ++ x :: todo → ∀ b,
      Triple R (Inv done b) (f b x) (fun b' => Inv (done ++ [x]) b') E) :
    Triple R (Inv [] b) (xs.foldlM f b : Prog σ ε β) (fun b' => Inv xs b') E := by
  have key : ∀ todo done b, xs = done ++ todo →
      Triple R (Inv done b) (todo.foldlM f b : Prog σ ε β) (fun b' => Inv xs b') E := by
    intro todo
    induction todo with
    | nil =>
      intro done b hx
      rw [List.append_nil] at hx
      rw [List.foldlM_nil, hx]
      exact Triple.pure fun _ h => h
    | cons x todo ih =>
      intro done b hx
      rw [List.foldlM_cons]
      exact (step done x todo hx b).bind fun b' => ih (done ++ [x]) b' (by simp [hx])
  exact key xs [] b rfl

/-- Nothing is asked. -/
theorem any : Triple (fun _ _ => True) P p (fun _ _ => True) (fun _ _ => True) := fun s _ =>
  ⟨isChain_of_forall (fun _ _ => trivial) s, fun _ _ => trivial, fun _ _ => trivial⟩

theorem conj {R' : σ → σ → Prop} {Q' : α → σ → Prop} {E' : ε → σ → Prop} (h : Triple R P p Q E)
    (h' : Triple R' P p Q' E') :
    Triple R P p (fun a s => Q a s ∧ Q' a s) (fun e s => E e s ∧ E' e s) := by
  intro s hs
  obtain ⟨h1, h2, h3⟩ := h s hs
  obtain ⟨-, h5, h6⟩ := h' s hs
  exact ⟨h1, fun a ha => ⟨h2 a ha, h5 a ha⟩, fun e he => ⟨h3 e he, h6 e he⟩⟩

/-- **A killed program leaves a state reached by committed steps.** -/
theorem killed (h : Triple R P p Q E) {s t : σ} (hs : P s) (ht : t ∈ (p s).states) :
    Relation.ReflTransGen R s t := reached_of_isChain (h s hs).1 t ht

theorem final_reached (h : Triple R P p Q E) {s : σ} (hs : P s) :
    Relation.ReflTransGen R s (p.final s) := by
  rcases p.final_eq_or_mem s with h0 | h0
  · rw [h0]
  · exact h.killed hs h0

/-- A program that began in `s` ends in a state reached from it. -/
theorem reaching {s : σ} (h : Triple R (fun t => t = s) p Q E) :
    Triple (fun _ _ => True) (fun t => t = s) p
      (fun a t => Q a t ∧ Relation.ReflTransGen R s t)
      (fun e t => E e t ∧ Relation.ReflTransGen R s t) := by
  rintro t rfl
  obtain ⟨-, hok, herr⟩ := h t rfl
  have hreach := h.final_reached rfl
  exact ⟨isChain_of_forall (fun _ _ => trivial) t, fun a ha => ⟨hok a ha, hreach⟩,
    fun e he => ⟨herr e he, hreach⟩⟩

/-- What a program that began in `s` does is what it does. -/
theorem exact (p : Prog σ ε α) (s : σ) :
    Triple (fun _ t => t ∈ (p s).states) (fun t => t = s) p
      (fun a t => p.result s = .ok a ∧ t = p.final s)
      (fun e t => p.result s = .error e ∧ t = p.final s) := by
  rintro t rfl
  exact ⟨isChain_of_forall (fun _ h => h) t, fun a ha => ⟨ha, rfl⟩, fun e he => ⟨he, rfl⟩⟩

/-- Where every commit ends with `I`, a killed program leaves `I`. -/
theorem states {I : σ → Prop} (h : Triple (fun _ t => I t) P p Q E) {s : σ} (hs : P s) :
    ∀ t ∈ (p s).states, I t := by
  have key : ∀ (l : List σ) (s : σ), List.IsChain (fun _ t => I t) (s :: l) → ∀ t ∈ l, I t := by
    intro l
    induction l with
    | nil => simp
    | cons x l ih =>
      intro s hl t ht
      rw [List.isChain_cons_cons] at hl
      rcases List.mem_cons.1 ht with rfl | ht
      · exact hl.1
      · exact ih x hl.2 t ht
  exact key _ _ (h s hs).1

/-- **A program over a part of the state**: what its commits and its ends are, put back. -/
theorem zoom {τ δ : Type} {part : τ → σ} {put : σ → τ → τ} {err : ε → δ} {P I : τ → Prop}
    {Q : α → τ → Prop} {E : δ → τ → Prop} {p : Prog σ ε α} (hput : ∀ t, put (part t) t = t)
    (hI : ∀ t, P t → ∀ s ∈ (p (part t)).states, I (put s t))
    (hQ : ∀ t, P t → ∀ a, p.result (part t) = .ok a → Q a (put (p.final (part t)) t))
    (hE : ∀ t, P t → ∀ e, p.result (part t) = .error e → E (err e) (put (p.final (part t)) t)) :
    Triple (fun _ t => I t) P (p.zoom part put err) Q E := by
  intro t ht
  -- the whole ends with the part where the part ends
  have hfin : (p.zoom part put err).final t = put (p.final (part t)) t := by
    rw [final, final]
    change ((p (part t)).states.map (put · t)).getLastD t = _
    rcases List.eq_nil_or_concat (p (part t)).states with h | ⟨l, s, h⟩
    · rw [h]
      exact (hput t).symm
    · rw [h]
      simp
  refine ⟨isChain_of_forall (fun s hs => ?_) t, fun a ha => ?_, fun e he => ?_⟩
  · obtain ⟨s₀, hs₀, rfl⟩ := List.mem_map.1 hs
    exact hI t ht s₀ hs₀
  · rw [hfin]
    refine hQ t ht a ?_
    change ((p (part t)).result.mapError err) = .ok a at ha
    cases hr : (p (part t)).result with
    | ok b =>
      rw [hr] at ha
      cases ha
      exact hr
    | error e =>
      rw [hr] at ha
      cases ha
  · rw [hfin]
    change ((p (part t)).result.mapError err) = .error e at he
    cases hr : (p (part t)).result with
    | ok b =>
      rw [hr] at he
      cases he
    | error e' =>
      rw [hr] at he
      cases he
      exact hE t ht e' hr

end Triple

/-- **A program leaves a part of the state alone.** -/
def Frame {τ : Type} (f : σ → τ) (p : Prog σ ε α) : Prop := ∀ s, ∀ t ∈ (p s).states, f t = f s

namespace Frame

variable {τ : Type} {f : σ → τ} {p : Prog σ ε α}

theorem final (h : Frame f p) (s : σ) : f (p.final s) = f s := by
  rcases p.final_eq_or_mem s with h0 | h0
  · rw [h0]
  · exact h s _ h0

theorem pure (a : α) : Frame f (Pure.pure a : Prog σ ε α) := by
  intro s t ht
  cases ht

theorem fail (e : ε) : Frame f (Prog.fail e : Prog σ ε α) := by
  intro s t ht
  cases ht

theorem get : Frame f (Prog.get : Prog σ ε σ) := by
  intro s t ht
  cases ht

theorem write {g : σ → σ} (h : ∀ s, f (g s) = f s) : Frame f (Prog.write g : Prog σ ε Unit) := by
  intro s t ht
  rw [List.mem_singleton.1 ht]
  exact h s

/-- Sequencing keeps the frame. -/
theorem bind {q : α → Prog σ ε β} (hp : Frame f p) (hq : ∀ a, Frame f (q a)) :
    Frame f (p >>= q) := by
  intro s t ht
  cases hr : (p s).result with
  | ok a =>
    rw [bind_ok hr] at ht
    rcases List.mem_append.1 ht with ht | ht
    · exact hp s t ht
    · rw [hq a _ t ht, hp.final]
  | error e =>
    rw [bind_error hr] at ht
    exact hp s t ht

/-- A loop keeps the frame its body keeps. -/
theorem foldlM {q : β → α → Prog σ ε β} (hq : ∀ b a, Frame f (q b a)) (xs : List α) (b : β) :
    Frame f (xs.foldlM q b : Prog σ ε β) := by
  induction xs generalizing b with
  | nil => exact Frame.pure b
  | cons x xs ih =>
    rw [List.foldlM_cons]
    exact (hq b x).bind ih

/-- What a frame says as a triple. -/
theorem triple (h : Frame f p) (c : τ) : Triple (fun _ t => f t = c) (fun s => f s = c) p
    (fun _ t => f t = c) (fun _ t => f t = c) := by
  intro s hs
  refine ⟨?_, fun _ _ => (h.final s).trans hs, fun _ _ => (h.final s).trans hs⟩
  exact isChain_of_forall (fun t ht => (h s t ht).trans hs) s

end Frame

/-- From one state, a program is another one on a part of the state: it ends the same, and
each of its commits shows a commit of the other, or its start. -/
structure RefinesAt {τ : Type} (part : τ → σ) (q : Prog τ ε α) (p : Prog σ ε α) (t : τ) : Prop where
  result : q.result t = p.result (part t)
  final : part (q.final t) = p.final (part t)
  states : ∀ t' ∈ (q t).states, part t' = part t ∨ part t' ∈ (p (part t)).states

namespace RefinesAt

variable {τ γ : Type} {part : τ → σ} {q : Prog τ ε α} {p : Prog σ ε α} {t : τ}

/-- What comes after: the ends and the commits of two parts, one after the other. -/
theorem append {f : Prog τ ε γ} {g : Prog σ ε γ} (h : RefinesAt part q p t)
    (hf : RefinesAt part f g (q.final t)) :
    (f (q.final t)).result = (g (p.final (part t))).result ∧
      part (((q t).states ++ (f (q.final t)).states).getLastD t) =
        ((p (part t)).states ++ (g (p.final (part t))).states).getLastD (part t) ∧
      ∀ t' ∈ (q t).states ++ (f (q.final t)).states,
        part t' = part t ∨ part t' ∈ (p (part t)).states ++ (g (p.final (part t))).states := by
  have hfin := h.final
  refine ⟨?_, ?_, fun t' ht => ?_⟩
  · rw [← hfin]
    exact hf.result
  · rw [getLastD_append, getLastD_append]
    exact hf.final.trans (by rw [hfin]; rfl)
  · rcases List.mem_append.1 ht with ht | ht
    · exact (h.states t' ht).imp_right fun hm => List.mem_append_left _ hm
    rcases hf.states t' ht with heq | hm
    · -- the second part has not committed yet: what shows is the end of the first
      rw [heq, hfin]
      exact (p.final_eq_or_mem (part t)).imp_right fun hm => List.mem_append_left _ hm
    · rw [hfin] at hm
      exact Or.inr (List.mem_append_right _ hm)

/-- Sequencing. -/
theorem bind {f : α → Prog τ ε γ} {g : α → Prog σ ε γ} (h : RefinesAt part q p t)
    (hf : ∀ a, q.result t = .ok a → RefinesAt part (f a) (g a) (q.final t)) :
    RefinesAt part (q >>= f) (p >>= g) t := by
  have hres := h.result
  rw [Prog.result, Prog.result] at hres
  cases hr : (p (part t)).result with
  | ok a =>
    rw [hr] at hres
    obtain ⟨h1, h2, h3⟩ := h.append (hf a hres)
    have hq : (q >>= f) t = ⟨_, _⟩ := bind_ok hres
    have hp : (p >>= g) (part t) = ⟨_, _⟩ := bind_ok hr
    refine ⟨?_, ?_, ?_⟩
    · rw [Prog.result, Prog.result, hq, hp]
      exact h1
    · rw [Prog.final, Prog.final, hq, hp]
      exact h2
    · rw [hq, hp]
      exact h3
  | error e =>
    rw [hr] at hres
    have hq : (q >>= f) t = ⟨_, _⟩ := bind_error hres
    have hp : (p >>= g) (part t) = ⟨_, _⟩ := bind_error hr
    refine ⟨?_, ?_, ?_⟩
    · rw [Prog.result, Prog.result, hq, hp]
    · rw [Prog.final, Prog.final, hq, hp]
      exact h.final
    · rw [hq, hp]
      exact h.states

theorem get_bind {f : τ → Prog τ ε α} {g : σ → Prog σ ε α} (h : RefinesAt part (f t) (g (part t)) t) :
    RefinesAt part (Prog.get >>= f) (Prog.get >>= g) t := ⟨h.result, h.final, h.states⟩

end RefinesAt

/-- **One program is another on a part of the state**: it ends the same, and each of its
commits shows a commit of the other, or its start. -/
structure Refines {τ : Type} (part : τ → σ) (q : Prog τ ε α) (p : Prog σ ε α) : Prop where
  result : ∀ t, q.result t = p.result (part t)
  final : ∀ t, part (q.final t) = p.final (part t)
  states : ∀ t, ∀ t' ∈ (q t).states, part t' = part t ∨ part t' ∈ (p (part t)).states

namespace Refines

variable {τ : Type} {part : τ → σ} {q : Prog τ ε α} {p : Prog σ ε α}

theorem pure (a : α) : Refines part (Pure.pure a : Prog τ ε α) (Pure.pure a) :=
  ⟨fun _ => rfl, fun _ => rfl, fun _ _ ht => nomatch ht⟩

theorem fail (e : ε) : Refines part (Prog.fail e : Prog τ ε α) (Prog.fail e) :=
  ⟨fun _ => rfl, fun _ => rfl, fun _ _ ht => nomatch ht⟩

/-- A commit outside the part. -/
theorem silent {f : τ → τ} (hf : ∀ t, part (f t) = part t) :
    Refines part (Prog.write f : Prog τ ε Unit) (Pure.pure ()) :=
  ⟨fun _ => rfl, hf, fun t t' ht => Or.inl (by rw [List.mem_singleton.1 ht, hf])⟩

theorem zoom {put : σ → τ → τ} (hput : ∀ s t, part (put s t) = s) :
    Refines part (p.zoom part put id) p := by
  refine ⟨fun t => ?_, fun t => ?_, fun t t' ht => ?_⟩
  · change (p (part t)).result.mapError id = (p (part t)).result
    cases (p (part t)).result <;> rfl
  · rw [Prog.final, Prog.final]
    change part (((p (part t)).states.map (put · t)).getLastD t) = _
    rcases List.eq_nil_or_concat (p (part t)).states with h | ⟨l, s, h⟩
    · rw [h]
      rfl
    · rw [h]
      simp [hput]
  · obtain ⟨s, hs, rfl⟩ := List.mem_map.1 ht
    exact Or.inr (by rwa [hput])

/-- From one state. -/
theorem from_state (h : Refines part q p) (t : τ) : RefinesAt part q p t :=
  ⟨h.result t, h.final t, h.states t⟩

theorem of_forall (h : ∀ t, q.result t = p.result (part t) ∧ part (q.final t) = p.final (part t) ∧
    ∀ t' ∈ (q t).states, part t' = part t ∨ part t' ∈ (p (part t)).states) : Refines part q p :=
  ⟨fun t => (h t).1, fun t => (h t).2.1, fun t => (h t).2.2⟩

/-- Sequencing. -/
theorem bind {f : α → Prog τ ε β} {g : α → Prog σ ε β} (h : Refines part q p)
    (hf : ∀ a, Refines part (f a) (g a)) : Refines part (q >>= f) (p >>= g) := by
  have hall : ∀ t, RefinesAt part (q >>= f) (p >>= g) t := fun t =>
    (h.from_state t).bind fun a _ => (hf a).from_state _
  exact ⟨fun t => (hall t).result, fun t => (hall t).final, fun t => (hall t).states⟩

/-- A program that begins outside the part. -/
theorem silent_bind {r : Prog τ ε Unit} {f : Unit → Prog τ ε α} (h : Refines part r (Pure.pure ()))
    (hf : Refines part (f ()) p) : Refines part (r >>= f) p := h.bind (g := fun _ => p) fun _ => hf

/-- Both read the state. -/
theorem get_bind {f : τ → Prog τ ε α} {g : σ → Prog σ ε α}
    (h : ∀ t, Refines part (f t) (g (part t))) :
    Refines part (Prog.get >>= f) (Prog.get >>= g) :=
  ⟨fun t => (h t).result t, fun t => (h t).final t, fun t => (h t).states t⟩

theorem catchError {handler : ε → Prog τ ε α} {handler' : ε → Prog σ ε α} (h : Refines part q p)
    (hh : ∀ e, Refines part (handler e) (handler' e)) :
    Refines part (Prog.catchError q handler) (Prog.catchError p handler') := by
  refine of_forall fun t => ?_
  have hres := h.result t
  rw [Prog.result, Prog.result] at hres
  cases hr : (p (part t)).result with
  | ok a =>
    rw [hr] at hres
    rw [Prog.result, Prog.result, Prog.final, Prog.final, catchError_ok hres, catchError_ok hr]
    exact ⟨hres.trans hr.symm, h.final t, h.states t⟩
  | error e =>
    rw [hr] at hres
    rw [Prog.result, Prog.result, Prog.final, Prog.final, catchError_error hres, catchError_error hr]
    exact (h.from_state t).append ((hh e).from_state _)

end Refines

end Crash
