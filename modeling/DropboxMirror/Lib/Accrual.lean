import Mathlib.Data.List.Forall2
import Mathlib.Data.List.Basic

/-!
# Tables that grow

Rows are appended, and a row that is there keeps its core; nothing of it changes once it has
ended.

* `Grew`: one table grew out of another, a preorder (`Grew.refl`, `Grew.trans`). What a program
  does to such a table is an `append` or a `map`.
* `LastOpen`: only the newest row is open.
-/

namespace Accrual

variable {ρ γ : Type*} {core : ρ → γ} {Ended : ρ → Prop} {a b c : List ρ}

/-- A row that became another one. -/
def Became (core : ρ → γ) (Ended : ρ → Prop) (r s : ρ) : Prop := core s = core r ∧ (Ended r → s = r)

theorem Became.refl (r : ρ) : Became core Ended r r := ⟨rfl, fun _ => rfl⟩

theorem Became.trans {r s t : ρ} (h : Became core Ended r s) (h' : Became core Ended s t) :
    Became core Ended r t := by
  refine ⟨h'.1.trans h.1, fun hr => ?_⟩
  have hs := h.2 hr
  rw [hs] at h'
  exact h'.2 hr

/-- `b` grew out of `a`. -/
def Grew (core : ρ → γ) (Ended : ρ → Prop) (a b : List ρ) : Prop :=
  ∃ old new, b = old ++ new ∧ List.Forall₂ (Became core Ended) a old

theorem forall₂_refl (a : List ρ) : List.Forall₂ (Became core Ended) a a :=
  List.forall₂_same.2 fun r _ => Became.refl r

namespace Grew

theorem refl (a : List ρ) : Grew core Ended a a := ⟨a, [], (List.append_nil a).symm, forall₂_refl a⟩

theorem nil (b : List ρ) : Grew core Ended [] b := ⟨[], b, rfl, List.Forall₂.nil⟩

/-- New rows. -/
theorem append (a new : List ρ) : Grew core Ended a (a ++ new) := ⟨a, new, rfl, forall₂_refl a⟩

/-- Rows that go on. -/
theorem map {f : ρ → ρ} (h : ∀ r ∈ a, Became core Ended r (f r)) : Grew core Ended a (a.map f) := by
  refine ⟨a.map f, [], (List.append_nil _).symm, ?_⟩
  rw [List.forall₂_map_right_iff]
  exact List.forall₂_same.2 h

theorem trans (h : Grew core Ended a b) (h' : Grew core Ended b c) : Grew core Ended a c := by
  obtain ⟨old, new, rfl, hold⟩ := h
  obtain ⟨later, newer, rfl, hlater⟩ := h'
  -- what the rows of the first table became in the third
  obtain ⟨first, rest, rfl, hfirst⟩ : ∃ first rest, later = first ++ rest ∧
      List.Forall₂ (Became core Ended) a first := by
    clear newer
    induction hold generalizing later with
    | nil => exact ⟨[], later, rfl, List.Forall₂.nil⟩
    | cons hrow _ ih =>
      rw [List.cons_append, List.forall₂_cons_left_iff] at hlater
      obtain ⟨q, qs, hq, hqs, rfl⟩ := hlater
      obtain ⟨first, rest, rfl, hfirst⟩ := ih qs hqs
      exact ⟨q :: first, rest, rfl, hfirst.cons (hrow.trans hq)⟩
  exact ⟨first, rest ++ newer, List.append_assoc _ _ _, hfirst⟩

/-- **What has ended stays.** -/
theorem mem (h : Grew core Ended a b) {r : ρ} (hr : r ∈ a) (hended : Ended r) : r ∈ b := by
  obtain ⟨old, new, rfl, hold⟩ := h
  refine List.mem_append_left new ?_
  clear new
  induction hold with
  | nil => cases hr
  | cons hrow _ ih =>
    rcases List.mem_cons.1 hr with rfl | hr
    · rw [← hrow.2 hended]
      exact List.mem_cons_self
    · exact List.mem_cons_of_mem _ (ih hr)

/-- **No row is lost.** -/
theorem keeps_core (h : Grew core Ended a b) : a.map core <+: b.map core := by
  obtain ⟨old, new, rfl, hold⟩ := h
  have hsame : a.map core = old.map core := by
    induction hold with
    | nil => rfl
    | cons hrow _ ih => rw [List.map_cons, List.map_cons, hrow.1, ih]
  rw [hsame, List.map_append]
  exact List.prefix_append _ _

end Grew

/-- Only the newest row is open. -/
def LastOpen (Ended : ρ → Prop) (a : List ρ) : Prop := ∀ r ∈ a.dropLast, Ended r

namespace LastOpen

theorem nil : LastOpen Ended [] := fun r hr => by cases hr

theorem append (h : ∀ r ∈ a, Ended r) (r : ρ) : LastOpen Ended (a ++ [r]) := fun q hq =>
  h q (by rwa [List.dropLast_concat] at hq)

theorem map {f : ρ → ρ} (h : LastOpen Ended a) (hf : ∀ r, Ended r → Ended (f r)) :
    LastOpen Ended (a.map f) := by
  intro q hq
  rw [← List.map_dropLast] at hq
  obtain ⟨r, hr, rfl⟩ := List.mem_map.1 hq
  exact hf r (h r hr)

/-- **An open row is the newest one.** -/
theorem getLast?_of_open (h : LastOpen Ended a) {r : ρ} (hr : r ∈ a) (hopen : ¬Ended r) :
    a.getLast? = some r := by
  obtain ⟨q, hq⟩ := List.getLast?_isSome.2 (List.ne_nil_of_mem hr) |> Option.isSome_iff_exists.1
  rw [hq]
  have hsplit := List.dropLast_append_getLast? q hq
  rw [← hsplit] at hr
  rcases List.mem_append.1 hr with hr | hr
  · exact absurd (h r hr) hopen
  · rw [List.mem_singleton.1 hr]

end LastOpen

end Accrual
