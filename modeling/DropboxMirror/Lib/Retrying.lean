import DropboxMirror.Lib.Crash

/-!
# Bounded retries

A loop that makes at most so many attempts: an attempt ends the loop with a value, raises, or
asks for another one, with what the loop carries from one to the next.

* `Triple.retry`: the rule. Its invariant speaks of the number of the next attempt.
* `backoff`: the waits of a loop that doubles them up to a bound.
-/

namespace Crash

variable {σ ε α δ : Type}

/-- The attempts that are left, from the one numbered `n` on; none where no attempt ends the
loop. -/
def Prog.retry (attempt : ℕ → δ → Prog σ ε (α ⊕ δ)) : ℕ → ℕ → δ → Prog σ ε (Option α)
  | 0, _, _ => return none
  | left + 1, n, d => do
    match ← attempt n d with
    | .inl a => return some a
    | .inr d => Prog.retry attempt left (n + 1) d

/-- **The rule of a bounded retry.** -/
theorem Triple.retry {R : σ → σ → Prop} {attempt : ℕ → δ → Prog σ ε (α ⊕ δ)}
    {Q : Option α → σ → Prop} {E : ε → σ → Prop} (Inv : ℕ → δ → σ → Prop) (left first : ℕ) (d : δ)
    (hstep : ∀ n d, first ≤ n → n < first + left → Triple R (Inv n d) (attempt n d)
      (fun r s => (∀ a, r = .inl a → Q (some a) s) ∧ ∀ d', r = .inr d' → Inv (n + 1) d' s) E)
    (hlast : ∀ d s, Inv (first + left) d s → Q none s) :
    Triple R (Inv first d) (Prog.retry attempt left first d) Q E := by
  induction left generalizing first d with
  | zero => exact Triple.pure fun s hs => hlast d s hs
  | succ left ih =>
    unfold Prog.retry
    refine (hstep first d le_rfl (by omega)).bind fun r => ?_
    cases r with
    | inl a => exact Triple.pure fun s hs => hs.1 a rfl
    | inr d' =>
      refine (ih (first + 1) d' (fun n d h1 h2 => hstep n d (by omega) (by omega))
        fun d s hs => hlast d s ?_).consequence (fun s hs => hs.2 d' rfl) (fun _ _ h => h) fun _ _ h => h
      rwa [Nat.add_right_comm, Nat.add_assoc] at hs

/-- The waits of a loop: each is twice the one before it, and no more than `most`. -/
def backoff (initial most : ℚ) : ℕ → ℚ
  | 0 => initial
  | k + 1 => min (backoff initial most k * 2) most

/-- No wait but the first is longer than the bound. -/
theorem backoff_le (initial most : ℚ) (k : ℕ) : backoff initial most (k + 1) ≤ most := by
  rw [backoff]
  exact min_le_right _ _

/-- The time a loop waits in all. -/
theorem sum_backoff_le {initial most : ℚ} (k : ℕ) :
    ((List.range (k + 1)).map (backoff initial most)).sum ≤ initial + k * most := by
  induction k with
  | zero => simp [backoff]
  | succ k ih =>
    rw [List.range_succ, List.map_append, List.sum_append]
    have hlast := backoff_le initial most k
    push_cast
    simp only [List.map_cons, List.map_nil, List.sum_cons, List.sum_nil, add_zero]
    linarith

end Crash
