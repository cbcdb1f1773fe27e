import Mathlib

/-!
# Blocks of a fixed size

`blocks n s` cuts a list into consecutive blocks of `n` elements, the last one
possibly shorter, and none where the list is empty.

* `flatten_blocks`, `mem_blocks`, `length_of_mem_dropLast`: what the blocks are.
* `blocks_append`: a prefix of whole blocks is cut on its own.
-/

namespace Blocks

variable {α : Type*} {n : ℕ} {s t : List α}

/-- The consecutive blocks of `n` elements. -/
def blocks (n : ℕ) (s : List α) : List (List α) :=
  if s = [] ∨ n = 0 then [] else s.take n :: blocks n (s.drop n)
termination_by s.length
decreasing_by
  rename_i h
  rw [not_or] at h
  have := List.length_pos_iff.2 h.1
  rw [List.length_drop]
  omega

@[simp] theorem blocks_nil : blocks n ([] : List α) = [] := by rw [blocks, if_pos (Or.inl rfl)]

theorem blocks_of_ne_nil (hn : 0 < n) (hs : s ≠ []) :
    blocks n s = s.take n :: blocks n (s.drop n) := by
  rw [blocks, if_neg (by rw [not_or]; exact ⟨hs, hn.ne'⟩)]

/-- A list of at most one block. -/
theorem blocks_of_length_le (hn : 0 < n) (hs : s ≠ []) (hle : s.length ≤ n) :
    blocks n s = [s] := by
  rw [blocks_of_ne_nil hn hs, List.take_of_length_le hle, List.drop_of_length_le hle, blocks_nil]

/-- **The blocks together are the list.** -/
theorem flatten_blocks (hn : 0 < n) (s : List α) : (blocks n s).flatten = s := by
  induction s using blocks.induct n with
  | case1 s h =>
    obtain rfl := h.resolve_right hn.ne'
    rw [blocks_nil, List.flatten_nil]
  | case2 s h ih =>
    rw [not_or] at h
    rw [blocks_of_ne_nil hn h.1, List.flatten_cons, ih, List.take_append_drop]

/-- Each block holds between one and `n` elements. -/
theorem mem_blocks (hn : 0 < n) {b : List α} (hb : b ∈ blocks n s) : b ≠ [] ∧ b.length ≤ n := by
  induction s using blocks.induct n with
  | case1 s h =>
    obtain rfl := h.resolve_right hn.ne'
    rw [blocks_nil] at hb
    exact absurd hb List.not_mem_nil
  | case2 s h ih =>
    rw [not_or] at h
    rw [blocks_of_ne_nil hn h.1] at hb
    rcases List.mem_cons.1 hb with rfl | hb
    · refine ⟨fun hnil => ?_, List.length_take_le n s⟩
      rcases List.take_eq_nil_iff.1 hnil with h0 | h0
      · exact hn.ne' h0
      · exact h.1 h0
    · exact ih hb

/-- Every block but the last is full. -/
theorem length_of_mem_dropLast (hn : 0 < n) {b : List α} (hb : b ∈ (blocks n s).dropLast) :
    b.length = n := by
  induction s using blocks.induct n with
  | case1 s h =>
    obtain rfl := h.resolve_right hn.ne'
    rw [blocks_nil] at hb
    exact absurd hb List.not_mem_nil
  | case2 s h ih =>
    rw [not_or] at h
    rw [blocks_of_ne_nil hn h.1] at hb
    rcases eq_or_ne (s.drop n) [] with hd | hd
    · rw [hd, blocks_nil, List.dropLast_singleton] at hb
      exact absurd hb List.not_mem_nil
    · rw [blocks_of_ne_nil hn hd, List.dropLast_cons_cons] at hb
      rw [blocks_of_ne_nil hn hd] at ih
      rcases List.mem_cons.1 hb with rfl | hb
      · have : n < s.length := by
          by_contra hle
          exact hd (List.drop_of_length_le (Nat.not_lt.1 hle))
        rw [List.length_take, min_eq_left this.le]
      · exact ih hb

/-- **A prefix of whole blocks is cut on its own.** -/
theorem blocks_append (hn : 0 < n) (hs : n ∣ s.length) (t : List α) :
    blocks n (s ++ t) = blocks n s ++ blocks n t := by
  induction s using blocks.induct n with
  | case1 s h =>
    obtain rfl := h.resolve_right hn.ne'
    rw [blocks_nil, List.nil_append, List.nil_append]
  | case2 s h ih =>
    rw [not_or] at h
    have hle : n ≤ s.length := Nat.le_of_dvd (List.length_pos_iff.2 h.1) hs
    have hdrop : n ∣ (s.drop n).length := by
      rw [List.length_drop]
      exact Nat.dvd_sub hs (Nat.dvd_refl n)
    rw [blocks_of_ne_nil hn h.1, blocks_of_ne_nil hn (List.append_ne_nil_of_left_ne_nil h.1 t),
      List.take_append_of_le_length hle, List.drop_append_of_le_length hle, ih hdrop,
      List.cons_append]

end Blocks
