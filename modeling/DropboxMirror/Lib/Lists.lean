import Mathlib

/-!
# Lists cut and grouped

Two cuts of one list compare like their lengths, grouping a list by a key loses and
repeats nothing, and a fold that keeps the last hit finds it.
-/

namespace Lists

variable {α κ : Type*}

/-- Two cuts of one list, the first at an element. -/
theorem cut_cases {a c d e : List α} {x : α} (h : a ++ x :: c = d ++ e) :
    (∃ mid, d = a ++ x :: mid) ∨ (d = a ∧ e = x :: c) ∨
      ∃ y mid, a = d ++ y :: mid ∧ e = y :: (mid ++ x :: c) := by
  rcases List.append_eq_append_iff.1 h with ⟨mid, hd, hmid⟩ | ⟨mid, ha, hmid⟩
  · cases mid with
    | nil => exact Or.inr (Or.inl ⟨by rw [hd, List.append_nil], hmid.symm⟩)
    | cons y mid =>
      obtain ⟨rfl, -⟩ := List.cons.inj hmid
      exact Or.inl ⟨mid, hd⟩
  · cases mid with
    | nil => exact Or.inr (Or.inl ⟨by rw [ha, List.append_nil], hmid⟩)
    | cons y mid => exact Or.inr (Or.inr ⟨y, mid, ha, hmid⟩)

/-- **Grouping by a key** loses and repeats no row whose key is listed. -/
theorem perm_flatMap_filter [DecidableEq κ] {f : α → κ} {keys : List κ} (hnd : keys.Nodup)
    (rows : List α) :
    (keys.flatMap fun k => rows.filter fun r => decide (f r = k)).Perm
      (rows.filter fun r => decide (f r ∈ keys)) := by
  induction keys with
  | nil => simp
  | cons k keys ih =>
    obtain ⟨hk, hnd⟩ := List.nodup_cons.1 hnd
    set both := rows.filter fun r => decide (f r ∈ k :: keys)
    -- the rows of the first key, and those of the others
    have hfirst : both.filter (fun r => decide (f r = k)) = rows.filter fun r => decide (f r = k) := by
      rw [List.filter_filter]
      refine List.filter_congr fun r _ => ?_
      by_cases hr : f r = k <;> simp [hr]
    have hrest : both.filter (fun r => !decide (f r = k)) =
        rows.filter fun r => decide (f r ∈ keys) := by
      rw [List.filter_filter]
      refine List.filter_congr fun r _ => ?_
      by_cases hr : f r = k
      · simp [hr, hk]
      · simp [hr]
    rw [List.flatMap_cons, ← hfirst]
    exact (((ih hnd).trans (List.Perm.of_eq hrest.symm)).append_left _).trans
      (List.filter_append_perm _ both)

/-- Grouping by a key that every row has. -/
theorem perm_groups [DecidableEq κ] {f : α → κ} {keys : List κ} {rows : List α}
    (hnd : keys.Nodup) (hall : ∀ r ∈ rows, f r ∈ keys) :
    (keys.flatMap fun k => rows.filter fun r => decide (f r = k)).Perm rows := by
  have hperm := perm_flatMap_filter (f := f) hnd rows
  rwa [List.filter_eq_self.2 fun r hr => decide_eq_true (hall r hr)] at hperm

/-- The beginnings of a list are distinct. -/
theorem nodup_inits (l : List α) : l.inits.Nodup := by
  induction l with
  | nil => simp
  | cons a l ih =>
    rw [List.inits_cons, List.nodup_cons]
    refine ⟨fun h => ?_, ih.map fun x y h => (List.cons.inj h).2⟩
    obtain ⟨x, -, hx⟩ := List.mem_map.1 h
    cases hx

section Last

variable {β : Type*} {f g : α → Option β} {l : List α} {v : β}

/-- A fold that keeps the last hit. -/
theorem foldl_or (f : α → Option β) (l : List α) (b : Option β) :
    l.foldl (fun b x => (f x).or b) b = (l.filterMap f).getLast?.or b := by
  induction l generalizing b with
  | nil => rfl
  | cons x l ih =>
    rw [List.foldl_cons, ih]
    cases hx : f x with
    | none => rw [List.filterMap_cons_none hx, Option.none_or]
    | some y =>
      rw [List.filterMap_cons_some hx, List.getLast?_cons]
      cases (List.filterMap f l).getLast? <;> rfl

/-- **The last hit**, and where it is. -/
theorem getLast?_filterMap : (l.filterMap f).getLast? = some v ↔
    ∃ before x after, l = before ++ x :: after ∧ f x = some v ∧ ∀ y ∈ after, f y = none := by
  induction l using List.reverseRecOn with
  | nil => simp
  | append_singleton l x ih =>
    rw [List.filterMap_append, List.filterMap_cons, List.filterMap_nil]
    cases hx : f x with
    | none =>
      rw [List.append_nil, ih]
      constructor
      · rintro ⟨before, y, after, rfl, hy, hafter⟩
        refine ⟨before, y, after ++ [x], by simp, hy, fun z hz => ?_⟩
        rcases List.mem_append.1 hz with hz | hz
        · exact hafter z hz
        · rw [List.mem_singleton.1 hz, hx]
      · rintro ⟨before, y, after, hsplit, hy, hafter⟩
        rcases List.eq_nil_or_concat after with rfl | ⟨after, z, rfl⟩
        · obtain ⟨-, hxy⟩ := List.append_inj' hsplit rfl
          rw [← List.singleton_inj.1 hxy, hx] at hy
          cases hy
        · rw [List.concat_eq_append, ← List.cons_append, ← List.append_assoc] at hsplit
          obtain ⟨rfl, -⟩ := List.append_inj' hsplit rfl
          exact ⟨before, y, after, rfl, hy, fun w hw => hafter w (by simp [hw])⟩
    | some y =>
      rw [List.getLast?_append, List.getLast?_singleton, Option.some_or]
      constructor
      · intro h
        exact ⟨l, x, [], rfl, by rw [hx]; exact h, fun z hz => absurd hz List.not_mem_nil⟩
      · rintro ⟨before, z, after, hsplit, hz, hafter⟩
        rcases List.eq_nil_or_concat after with rfl | ⟨after, w, rfl⟩
        · obtain ⟨-, hxz⟩ := List.append_inj' hsplit rfl
          rw [← hx, List.singleton_inj.1 hxz]
          exact hz
        · rw [List.concat_eq_append, ← List.cons_append, ← List.append_assoc] at hsplit
          obtain ⟨-, hxw⟩ := List.append_inj' hsplit rfl
          have := hafter w (by simp)
          rw [← List.singleton_inj.1 hxw, hx] at this
          cases this

end Last

end Lists
