import Mathlib

/-!
# Copies that are rewritten

A content is given to several holders, each of which may rewrite its copy or delete it, in
any order and at any time. Nothing is said about what they write, or why.

* `Adopts`: which content the copy written last has, in terms of what the holders did.
* `adopts_newest`: the copy with the newest time stamp is that one.
-/

namespace Copies

variable {κ : Type*} {n : ℕ}

/-- A copy of a content, and when it was written. -/
structure Copy (κ : Type*) where
  content : κ
  stamp : ℕ
  deriving DecidableEq, Repr

/-- A holder rewrites its copy some time after what was done before, or deletes it. -/
structure Touch (n : ℕ) (κ : Type*) where
  holder : Fin n
  content : Option κ
  delay : ℕ

/-- The copy written last, the first of several. -/
def newest (copies : List (Option (Copy κ))) : Option (Copy κ) :=
  copies.reduceOption.argmax Copy.stamp

/-- What a holder leaves. -/
def Touch.copy (u : Touch n κ) (now : ℕ) : Option (Copy κ) :=
  u.content.map fun c => ⟨c, now + u.delay⟩

/-- The copies after what the holders do from `now` on. -/
def touched : ℕ → List (Option (Copy κ)) → List (Touch n κ) → List (Option (Copy κ))
  | _, copies, [] => copies
  | now, copies, u :: us => touched (now + u.delay) (copies.set u.holder (u.copy now)) us

/-- How long it takes. -/
def elapsed (us : List (Touch n κ)) : ℕ := (us.map Touch.delay).sum

/-- A copy that is written and that its holder does not touch again. -/
def Touch.Lasts (u : Touch n κ) (later : List (Touch n κ)) : Prop :=
  u.content.isSome ∧ ∀ v ∈ later, v.holder ≠ u.holder

/-- The content to go on with: the one of the last copy that was written and lasts, or of one
written in the same instant, and the old one where there is none. -/
inductive Adopts (us : List (Touch n κ)) (c : κ) : κ → Prop
  | written {pre post : List (Touch n κ)} {u : Touch n κ} {c' : κ} (hus : us = pre ++ u :: post)
      (hc : u.content = some c') (hlast : u.Lasts post)
      (hnewest : ∀ mid v rest, post = mid ++ v :: rest → v.Lasts rest → elapsed (mid ++ [v]) = 0) :
      Adopts us c c'
  | kept (h : ∀ pre u post, us = pre ++ u :: post → ¬ u.Lasts post) : Adopts us c c

/-- Contents adopted one after the other: what the holders did before each, and the last. -/
inductive Adoptions : List (List (Touch n κ)) → κ → κ → Prop
  | start (c : κ) : Adoptions [] c c
  | adopt {rounds : List (List (Touch n κ))} {us : List (Touch n κ)} {c₀ c c' : κ}
      (h : Adoptions rounds c₀ c) (hadopt : Adopts us c c') : Adoptions (rounds ++ [us]) c₀ c'

variable {us : List (Touch n κ)} {copies : List (Option (Copy κ))} {now : ℕ}

@[simp] theorem elapsed_nil : elapsed ([] : List (Touch n κ)) = 0 := rfl

@[simp] theorem elapsed_cons (u : Touch n κ) (us : List (Touch n κ)) :
    elapsed (u :: us) = u.delay + elapsed us := rfl

@[simp] theorem elapsed_append (us vs : List (Touch n κ)) :
    elapsed (us ++ vs) = elapsed us + elapsed vs := by
  rw [elapsed, List.map_append, List.sum_append, elapsed, elapsed]

theorem length_touched : (touched now copies us).length = copies.length := by
  induction us generalizing now copies with
  | nil => rfl
  | cons u us ih => rw [touched, ih, List.length_set]

theorem touched_append (us vs : List (Touch n κ)) (now : ℕ) (copies : List (Option (Copy κ))) :
    touched now copies (us ++ vs) = touched (now + elapsed us) (touched now copies us) vs := by
  induction us generalizing now copies with
  | nil => rfl
  | cons u us ih => rw [List.cons_append, touched, ih, touched, elapsed_cons, Nat.add_assoc]

/-- A copy whose holder does nothing stays. -/
theorem getElem?_touched_of_ne {i : ℕ} (h : ∀ u ∈ us, (u.holder : ℕ) ≠ i) :
    (touched now copies us)[i]? = copies[i]? := by
  induction us generalizing now copies with
  | nil => rfl
  | cons u us ih =>
    rw [touched, ih fun v hv => h v (List.mem_cons_of_mem u hv)]
    exact List.getElem?_set_ne (h u List.mem_cons_self)

/-- A copy that lasts is there in the end. -/
theorem mem_touched_of_lasts (hlen : copies.length = n) {pre post : List (Touch n κ)} {u : Touch n κ}
    (hus : us = pre ++ u :: post) (h : u.Lasts post) (now : ℕ) :
    ∃ c, some ⟨c, now + elapsed (pre ++ [u])⟩ ∈ touched now copies us := by
  obtain ⟨c, hc⟩ := Option.isSome_iff_exists.1 h.1
  have hstamp : now + elapsed pre + u.delay = now + elapsed (pre ++ [u]) := by
    simp only [elapsed_append, elapsed_cons, elapsed_nil]
    omega
  refine ⟨c, List.mem_iff_getElem?.2 ⟨u.holder, ?_⟩⟩
  rw [hus, touched_append, touched, getElem?_touched_of_ne fun v hv heq => h.2 v hv (Fin.ext heq),
    List.getElem?_set_self]
  · rw [Touch.copy, hc, Option.map_some, hstamp]
  · rw [length_touched, hlen]
    exact u.holder.isLt

/-- **Where a copy comes from**: it was there before, or it was written and lasts. -/
theorem getElem?_touched_cases {i : ℕ} {x : Copy κ} (h : (touched now copies us)[i]? = some (some x)) :
    copies[i]? = some (some x) ∨
      ∃ pre u post, us = pre ++ u :: post ∧ (u.holder : ℕ) = i ∧ u.content = some x.content ∧
        u.Lasts post ∧ x.stamp = now + elapsed (pre ++ [u]) := by
  induction us using List.reverseRecOn with
  | nil => exact Or.inl h
  | append_singleton us u ih =>
    rw [touched_append, touched, touched] at h
    by_cases hi : (u.holder : ℕ) = i
    · right
      rw [hi, List.getElem?_set] at h
      simp only [if_true] at h
      split at h
      · obtain ⟨c, hc, rfl⟩ := Option.map_eq_some_iff.1 (Option.some.inj h)
        refine ⟨us, u, [], rfl, hi, hc, ⟨by rw [hc]; rfl, fun v hv => by cases hv⟩, ?_⟩
        simp only [elapsed_append, elapsed_cons, elapsed_nil]
        omega
      · cases h
    · rw [List.getElem?_set_ne hi] at h
      refine (ih h).imp_right ?_
      rintro ⟨pre, v, post, rfl, hv, hc, ⟨hsome, hlast⟩, hx⟩
      refine ⟨pre, v, post ++ [u], by simp, hv, hc, ⟨hsome, fun w hw => ?_⟩, hx⟩
      rcases List.mem_append.1 hw with hw | hw
      · exact hlast w hw
      · -- the last touch is another holder's
        rw [List.mem_singleton.1 hw]
        intro heq
        exact hi (by rw [heq, hv])

/-- **The newest copy is the one to go on with**, where all holders had `c` before. -/
theorem adopts_newest {c : κ} {stamp : ℕ} (hstamp : stamp < now) (us : List (Touch n κ)) :
    Adopts us c
      (((newest (touched now (List.replicate n (some ⟨c, stamp⟩)) us)).map Copy.content).getD c) := by
  set copies := touched now (List.replicate n (some ⟨c, stamp⟩)) us
  have hlen : (List.replicate n (some (⟨c, stamp⟩ : Copy κ))).length = n := List.length_replicate
  have hmem : ∀ {x : Copy κ}, some x ∈ copies → x ∈ copies.reduceOption := fun h =>
    List.reduceOption_mem_iff.2 h
  cases hnew : newest copies with
  | none =>
    refine Adopts.kept fun pre u post hus hlast => ?_
    obtain ⟨c', hin⟩ := mem_touched_of_lasts hlen hus hlast now
    rw [newest, List.argmax_eq_none] at hnew
    exact List.ne_nil_of_mem (hmem hin) hnew
  | some x =>
    rw [Option.map_some, Option.getD_some]
    have hx : some x ∈ copies := List.reduceOption_mem_iff.1 (List.argmax_mem hnew)
    have hmax : ∀ y, some y ∈ copies → y.stamp ≤ x.stamp := fun y hy =>
      List.le_of_mem_argmax (hmem hy) hnew
    obtain ⟨i, hi⟩ := List.mem_iff_getElem?.1 hx
    rcases getElem?_touched_cases hi with hseed | ⟨pre, u, post, hus, -, hc, hlast, htime⟩
    · -- a later copy would be newer
      have hseed := List.eq_of_mem_replicate (List.mem_of_getElem? hseed)
      obtain rfl : x = ⟨c, stamp⟩ := Option.some.inj hseed
      refine Adopts.kept fun pre u post hus hlast => ?_
      obtain ⟨c', hin⟩ := mem_touched_of_lasts hlen hus hlast now
      have hle := hmax _ hin
      dsimp only at hle
      omega
    · refine Adopts.written hus hc hlast fun mid v rest hpost hv => ?_
      have hall : us = (pre ++ u :: mid) ++ v :: rest := by simp [hus, hpost]
      obtain ⟨c', hin⟩ := mem_touched_of_lasts hlen hall hv now
      have hle := hmax _ hin
      rw [htime] at hle
      simp only [elapsed_append, elapsed_cons, elapsed_nil] at hle ⊢
      omega

end Copies
