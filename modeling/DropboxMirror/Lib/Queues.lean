import Mathlib

/-!
# Queues of work

Work is spread over a list of queues, and what matters is which items they hold
together, in any order: the permutation class of `flatten`.

* `flatten_modify_perm`, `foldl_push`: items put on the queues.
* `flatten_pop_perm`: the item taken from the front of one.
* `flatten_eq_nil_of_longest`: the queues are empty where the longest is.
-/

namespace Queues

variable {α : Type*} {qs : List (List α)} {i : ℕ}

/-- The first of the longest queues. -/
def longest (qs : List (List α)) : ℕ :=
  qs.findIdx fun q => decide (q.length = (qs.map List.length).foldr max 0)

/-- Items put on one of the queues, on either end. -/
theorem flatten_modify_perm {f : List α → List α} {xs : List α} (hf : ∀ q, (f q).Perm (q ++ xs))
    (h : i < qs.length) : (qs.modify i f).flatten.Perm (qs.flatten ++ xs) := by
  induction qs generalizing i with
  | nil => exact absurd h (Nat.not_lt_zero _)
  | cons q qs ih =>
    cases i with
    | zero =>
      rw [List.modify_zero_cons, List.flatten_cons, List.flatten_cons, List.append_assoc]
      refine ((hf q).append_right _).trans ?_
      rw [List.append_assoc]
      exact List.perm_append_comm.append_left q
    | succ i =>
      rw [List.modify_succ_cons, List.flatten_cons, List.flatten_cons, List.append_assoc]
      exact (ih (Nat.lt_of_succ_lt_succ h)).append_left q

/-- The front of a queue is taken. -/
theorem flatten_pop_perm {x : α} {q : List α} (h : qs.getD i [] = x :: q) :
    qs.flatten.Perm (x :: (qs.modify i List.tail).flatten) := by
  induction qs generalizing i with
  | nil => exact absurd h (List.cons_ne_nil _ _).symm
  | cons r qs ih =>
    cases i with
    | zero =>
      rw [List.getD_cons_zero] at h
      rw [h, List.modify_zero_cons]
      exact List.Perm.refl _
    | succ i =>
      rw [List.getD_cons_succ] at h
      rw [List.modify_succ_cons, List.flatten_cons, List.flatten_cons]
      exact ((ih h).append_left r).trans List.perm_middle

/-- Items put on queues one by one. -/
theorem foldl_push {β : Type*} {g : β → ℕ} {f : β → α} {xs : List β}
    (hg : ∀ x ∈ xs, g x < qs.length) :
    (xs.foldl (fun qs x => qs.modify (g x) (· ++ [f x])) qs).length = qs.length ∧
      (xs.foldl (fun qs x => qs.modify (g x) (· ++ [f x])) qs).flatten.Perm
        (qs.flatten ++ xs.map f) := by
  induction xs generalizing qs with
  | nil => simp
  | cons x xs ih =>
    have hlen : (qs.modify (g x) (· ++ [f x])).length = qs.length := List.length_modify ..
    have hg' : ∀ y ∈ xs, g y < (qs.modify (g x) (· ++ [f x])).length := fun y hy => by
      rw [hlen]
      exact hg y (List.mem_cons_of_mem _ hy)
    obtain ⟨h1, h2⟩ := ih hg'
    rw [List.foldl_cons, h1, hlen]
    refine ⟨rfl, h2.trans ?_⟩
    have hx := flatten_modify_perm (fun q => List.Perm.refl (q ++ [f x])) (hg x List.mem_cons_self)
    refine (hx.append_right _).trans (List.Perm.of_eq ?_)
    rw [List.append_assoc, List.map_cons, List.singleton_append]

theorem length_le_foldr_max {q : List α} (h : q ∈ qs) :
    q.length ≤ (qs.map List.length).foldr max 0 :=
  List.le_max_of_le (List.mem_map_of_mem h) le_rfl

theorem exists_longest (hqs : qs ≠ []) :
    ∃ q ∈ qs, q.length = (qs.map List.length).foldr max 0 := by
  induction qs with
  | nil => exact absurd rfl hqs
  | cons r qs ih =>
    rw [List.map_cons, List.foldr_cons]
    rcases eq_or_ne qs [] with rfl | hne
    · exact ⟨r, List.mem_cons_self, (Nat.max_zero _).symm⟩
    · obtain ⟨q, hq, hlen⟩ := ih hne
      rcases le_total r.length ((qs.map List.length).foldr max 0) with h | h
      · exact ⟨q, List.mem_cons_of_mem _ hq, by rw [hlen, max_eq_right h]⟩
      · exact ⟨r, List.mem_cons_self, (max_eq_left h).symm⟩

/-- **The queues are empty where the longest is.** -/
theorem flatten_eq_nil_of_longest (h : qs.getD (longest qs) [] = []) : qs.flatten = [] := by
  rcases eq_or_ne qs [] with rfl | hne
  · rfl
  obtain ⟨q, hq, hlen⟩ := exists_longest hne
  have hlt : longest qs < qs.length :=
    List.findIdx_lt_length_of_exists ⟨q, hq, decide_eq_true hlen⟩
  have hmax := of_decide_eq_true (List.findIdx_getElem (w := hlt))
  rw [List.getD_eq_getElem _ _ hlt] at h
  refine List.flatten_eq_nil_iff.2 fun r hr => List.eq_nil_of_length_eq_zero ?_
  have hr := length_le_foldr_max hr
  rw [← hmax] at hr
  exact Nat.le_zero.1 (hr.trans_eq (by rw [List.length_eq_zero_iff]; exact h))

end Queues
