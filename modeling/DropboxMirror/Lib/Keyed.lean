import Mathlib

/-!
# Tables with a primary key

A `Table key` is a list of rows whose keys are pairwise distinct, in insertion
order. The operations are the statements a relational store offers on it:
`upsert` (insert, or merge into the row with the same key), `filter` (delete the
other rows), `modify` (update rows and leave their keys).

* `mem_iff_find?`: a table is its lookup function.
* `find?_upsert`, `find?_filter`, `find?_modify`: each statement as an update of it.
* `rows_upsert_next`: an insert under the next id appends.
* `find?_ofRows`: a table filled from a list holds the last row of each key.
-/

/-- Rows with pairwise distinct keys. -/
structure Table {ρ κ : Type*} (key : ρ → κ) where
  rows : List ρ
  nodup : (rows.map key).Nodup

namespace Table

variable {ρ κ : Type*} {key : ρ → κ}

@[ext] theorem ext {t u : Table key} (h : t.rows = u.rows) : t = u := by
  cases t
  cases u
  simpa using h

instance : Membership ρ (Table key) := ⟨fun t r => r ∈ t.rows⟩

theorem mem_def {t : Table key} {r : ρ} : r ∈ t ↔ r ∈ t.rows := Iff.rfl

/-- The table without rows. -/
def empty : Table key := ⟨[], List.nodup_nil⟩

instance : Inhabited (Table key) := ⟨empty⟩

@[simp] theorem empty_rows : (empty : Table key).rows = [] := rfl

/-- The number of rows. -/
def size (t : Table key) : ℕ := t.rows.length

/-- `DELETE`: keeps the rows that satisfy `p`. -/
def filter (p : ρ → Bool) (t : Table key) : Table key :=
  ⟨t.rows.filter p, t.nodup.sublist (List.filter_sublist.map key)⟩

@[simp] theorem mem_filter {t : Table key} {p : ρ → Bool} {r : ρ} :
    r ∈ t.filter p ↔ r ∈ t ∧ p r = true := List.mem_filter

/-- Rows that agree on a part of their keys differ in the rest of it. -/
theorem nodup_filter_map {γ ι : Type*} {t : Table key} {p : ρ → Bool} {f : ρ → ι} (g : γ → ι → κ)
    (c : γ) (h : ∀ r ∈ t, p r = true → key r = g c (f r)) : ((t.rows.filter p).map f).Nodup := by
  refine List.Nodup.of_map (g c) ?_
  have hkeys : (t.rows.filter p).map (g c ∘ f) = (t.rows.filter p).map key :=
    List.map_congr_left fun r hr => (h r (List.mem_filter.1 hr).1 (List.mem_filter.1 hr).2).symm
  rw [List.map_map, hkeys]
  exact t.nodup.sublist (List.filter_sublist.map key)

/-- `UPDATE`: changes rows, never their keys. -/
def modify (f : ρ → ρ) (hf : ∀ r, key (f r) = key r) (t : Table key) : Table key :=
  ⟨t.rows.map f, by
    have : key ∘ f = key := funext hf
    rw [List.map_map, this]; exact t.nodup⟩

theorem mem_modify {t : Table key} {f : ρ → ρ} {hf : ∀ r, key (f r) = key r} {r : ρ} :
    r ∈ t.modify f hf ↔ ∃ r₀ ∈ t, f r₀ = r := List.mem_map

theorem eq_of_key_eq {t : Table key} {r s : ρ} (hr : r ∈ t) (hs : s ∈ t) (h : key r = key s) :
    r = s := List.inj_on_of_nodup_map t.nodup hr hs h

variable [DecidableEq κ]

/-- The row with key `k`. -/
def find? (t : Table key) (k : κ) : Option ρ := t.rows.find? (fun r => key r = k)

@[simp] theorem find?_empty (k : κ) : (empty : Table key).find? k = none := rfl

theorem find?_eq_some {t : Table key} {k : κ} {r : ρ} : t.find? k = some r ↔ r ∈ t ∧ key r = k := by
  constructor
  · intro h
    exact ⟨List.mem_of_find?_eq_some h, by simpa using List.find?_some h⟩
  · rintro ⟨hr, rfl⟩
    obtain ⟨s, hs⟩ : ∃ s, t.find? (key r) = some s :=
      Option.isSome_iff_exists.1 (List.find?_isSome.2 ⟨r, hr, by simp⟩)
    have hsk : key s = key r := by simpa using List.find?_some hs
    rw [hs, eq_of_key_eq (List.mem_of_find?_eq_some hs) hr hsk]

theorem find?_eq_none {t : Table key} {k : κ} : t.find? k = none ↔ ∀ r ∈ t, key r ≠ k := by
  simp [find?, mem_def]

/-- **A table is its lookup function.** -/
theorem mem_iff_find? {t : Table key} {r : ρ} : r ∈ t ↔ t.find? (key r) = some r := by
  rw [find?_eq_some]
  exact ⟨fun h => ⟨h, rfl⟩, fun h => h.1⟩

theorem isSome_find? {t : Table key} {k : κ} : (t.find? k).isSome ↔ ∃ r ∈ t, key r = k := by
  rw [Option.isSome_iff_exists]
  simp only [find?_eq_some]

theorem find?_filter (t : Table key) (p : ρ → Bool) (k : κ) :
    (t.filter p).find? k = (t.find? k).filter p := by
  apply Option.ext
  intro r
  rw [find?_eq_some, mem_filter, Option.filter_eq_some_iff, find?_eq_some]
  tauto

/-- A filter that goes by the key keeps the row of a key or drops it. -/
theorem find?_filter_of_key {t : Table key} {p : ρ → Bool} {k : κ} {c : Prop} [Decidable c]
    (h : ∀ r, key r = k → p r = decide c) :
    (t.filter p).find? k = if c then t.find? k else none := by
  rw [find?_filter]
  cases hr : t.find? k with
  | none => simp
  | some r =>
    rw [Option.filter_some, h r (find?_eq_some.1 hr).2]
    by_cases hc : c <;> simp [hc]

theorem find?_modify (t : Table key) (f : ρ → ρ) (hf : ∀ r, key (f r) = key r) (k : κ) :
    (t.modify f hf).find? k = (t.find? k).map f := by
  apply Option.ext
  intro r
  rw [find?_eq_some, mem_modify, Option.map_eq_some_iff]
  simp only [find?_eq_some]
  constructor
  · rintro ⟨⟨r₀, hr₀, rfl⟩, hk⟩
    exact ⟨r₀, ⟨hr₀, by rw [← hk, hf]⟩, rfl⟩
  · rintro ⟨r₀, ⟨hr₀, hk⟩, rfl⟩
    exact ⟨⟨r₀, hr₀, rfl⟩, by rw [hf, hk]⟩

/-- What an insert does to the row that already has its key. -/
structure Merge (key : ρ → κ) where
  run : ρ → ρ → ρ
  key_run : ∀ old new, key old = key new → key (run old new) = key new

/-- `INSERT OR REPLACE`: the new row takes the place of the old one. -/
def replace : Merge key := ⟨fun _ new => new, fun _ _ _ => rfl⟩

/-- `INSERT OR IGNORE`: the old row stays. -/
def ignore : Merge key := ⟨fun old _ => old, fun _ _ h => h⟩

/-- The rows after an insert of `r`. -/
def upsertRows (m : Merge key) (r : ρ) : List ρ → List ρ
  | [] => [r]
  | old :: rows => if key old = key r then m.run old r :: rows else old :: upsertRows m r rows

theorem upsertRows_upsertRows {a b : ρ} (h : key a = key b) (rows : List ρ) :
    upsertRows (replace : Merge key) b (upsertRows (replace : Merge key) a rows) =
      upsertRows (replace : Merge key) b rows := by
  induction rows with
  | nil => simp [upsertRows, replace, h]
  | cons old rows ih =>
    by_cases ho : key old = key a
    · simp [upsertRows, replace, ho, h]
    · simp [upsertRows, ho, h ▸ ho, ih]

theorem keys_upsertRows (m : Merge key) (r : ρ) (rows : List ρ) :
    (upsertRows m r rows).map key =
      if key r ∈ rows.map key then rows.map key else rows.map key ++ [key r] := by
  induction rows with
  | nil => simp [upsertRows]
  | cons old rows ih =>
    rw [upsertRows]
    split
    · rename_i h
      rw [List.map_cons, m.key_run old r h, List.map_cons, h, if_pos List.mem_cons_self]
    · rename_i h
      rw [List.map_cons, ih, List.map_cons]
      by_cases hm : key r ∈ rows.map key
      · rw [if_pos hm, if_pos (List.mem_cons_of_mem _ hm)]
      · rw [if_neg hm, if_neg (by simpa [Ne.symm h] using hm), List.cons_append]

/-- `INSERT ... ON CONFLICT DO UPDATE`. -/
def upsert (m : Merge key) (t : Table key) (r : ρ) : Table key :=
  ⟨upsertRows m r t.rows, by
    rw [keys_upsertRows]
    split
    · exact t.nodup
    · rename_i h
      exact List.nodup_append.2 ⟨t.nodup, List.nodup_singleton _, fun a ha b hb hab =>
        h (by rw [List.mem_singleton] at hb; rw [← hb, ← hab]; exact ha)⟩⟩

theorem find?_upsertRows (m : Merge key) (r : ρ) (k : κ) (rows : List ρ) :
    (upsertRows m r rows).find? (fun x => key x = k) =
      if key r = k then some (((rows.find? (fun x => key x = k)).map (m.run · r)).getD r)
      else rows.find? (fun x => key x = k) := by
  induction rows with
  | nil => by_cases h : key r = k <;> simp [upsertRows, h]
  | cons old rows ih =>
    rw [upsertRows]
    split
    · rename_i ho
      have hm := m.key_run old r ho
      by_cases hk : key r = k <;> simp [ho, hm, hk]
    · rename_i ho
      by_cases hok : key old = k
      · have hrk : key r ≠ k := fun h => ho (hok.trans h.symm)
        simp [hok, hrk]
      · simp [hok, ih]

/-- **An insert changes the row of one key.** -/
theorem find?_upsert (m : Merge key) (t : Table key) (r : ρ) (k : κ) :
    (t.upsert m r).find? k =
      if key r = k then some (((t.find? k).map (m.run · r)).getD r) else t.find? k :=
  find?_upsertRows m r k t.rows

theorem find?_upsert_of_ne {m : Merge key} {t : Table key} {r : ρ} {k : κ} (h : key r ≠ k) :
    (t.upsert m r).find? k = t.find? k := by rw [find?_upsert, if_neg h]

theorem size_upsert (m : Merge key) (t : Table key) (r : ρ) :
    (t.upsert m r).size = if (t.find? (key r)).isSome then t.size else t.size + 1 := by
  have hlen : (t.upsert m r).size = ((t.upsert m r).rows.map key).length := by simp [size]
  have hmem : (t.find? (key r)).isSome ↔ key r ∈ t.rows.map key := by
    rw [isSome_find?, List.mem_map]
    rfl
  rw [hlen, upsert, keys_upsertRows]
  by_cases h : key r ∈ t.rows.map key
  · rw [if_pos h, if_pos (hmem.2 h), List.length_map, size]
  · rw [if_neg h, if_neg (fun hs => h (hmem.1 hs)), List.length_append, List.length_map, size]
    rfl

theorem find?_foldl_upsert_of_ne {m : Merge key} {rows : List ρ} {t : Table key} {k : κ}
    (h : ∀ r ∈ rows, key r ≠ k) : (rows.foldl (upsert m) t).find? k = t.find? k := by
  induction rows generalizing t with
  | nil => rfl
  | cons r rows ih =>
    rw [List.foldl_cons, ih fun x hx => h x (List.mem_cons_of_mem _ hx),
      find?_upsert_of_ne (h r List.mem_cons_self)]

/-- Inserts of rows with pairwise distinct keys do not meet each other. -/
theorem find?_foldl_upsert {m : Merge key} {rows : List ρ} {t : Table key}
    (hnd : (rows.map key).Nodup) {r : ρ} (hr : r ∈ rows) :
    (rows.foldl (upsert m) t).find? (key r) =
      some (((t.find? (key r)).map (m.run · r)).getD r) := by
  induction rows generalizing t with
  | nil => exact absurd hr List.not_mem_nil
  | cons x rows ih =>
    rw [List.map_cons, List.nodup_cons] at hnd
    rw [List.foldl_cons]
    rcases List.mem_cons.1 hr with rfl | hr
    · rw [find?_foldl_upsert_of_ne, find?_upsert, if_pos rfl]
      intro y hy hk
      exact hnd.1 (hk ▸ List.mem_map_of_mem hy)
    · have hx : key x ≠ key r := fun hk => hnd.1 (hk ▸ List.mem_map_of_mem hr)
      rw [ih hnd.2 hr, find?_upsert_of_ne hx]

/-- Inserts of distinct keys grow the table by the new ones. -/
theorem size_foldl_upsert (m : Merge key) {rows : List ρ} {t : Table key}
    (hnd : (rows.map key).Nodup) : (rows.foldl (upsert m) t).size =
      t.size + rows.countP fun r => (t.find? (key r)).isNone := by
  induction rows generalizing t with
  | nil => rfl
  | cons r rows ih =>
    rw [List.map_cons, List.nodup_cons] at hnd
    rw [List.foldl_cons, ih hnd.2, size_upsert, List.countP_cons]
    have hrest : rows.countP (fun x => ((t.upsert m r).find? (key x)).isNone) =
        rows.countP fun x => (t.find? (key x)).isNone := by
      refine List.countP_congr fun x hx => ?_
      have hne : key r ≠ key x := fun hk => hnd.1 (hk ▸ List.mem_map_of_mem hx)
      rw [find?_upsert_of_ne hne]
    rw [hrest]
    cases t.find? (key r) with
    | none => simp; omega
    | some old => simp

theorem upsertRows_of_new {m : Merge key} {r : ρ} {rows : List ρ} (h : key r ∉ rows.map key) :
    upsertRows m r rows = rows ++ [r] := by
  induction rows with
  | nil => rfl
  | cons x rows ih =>
    rw [List.map_cons, List.mem_cons, not_or] at h
    rw [upsertRows, if_neg fun hk => h.1 hk.symm, ih h.2, List.cons_append]

/-- Inserts of new rows append. -/
theorem rows_foldl_upsert_of_new {m : Merge key} {rows : List ρ} {t : Table key}
    (hnd : (rows.map key).Nodup) (hnew : ∀ r ∈ rows, key r ∉ t.rows.map key) :
    (rows.foldl (upsert m) t).rows = t.rows ++ rows := by
  induction rows generalizing t with
  | nil => simp
  | cons r rows ih =>
    have hr : (t.upsert m r).rows = t.rows ++ [r] := upsertRows_of_new (hnew r List.mem_cons_self)
    rw [List.map_cons, List.nodup_cons] at hnd
    rw [List.foldl_cons, ih hnd.2, hr, List.append_assoc, List.singleton_append]
    intro x hx
    rw [hr, List.map_append, List.mem_append, not_or]
    refine ⟨hnew x (List.mem_cons_of_mem _ hx), ?_⟩
    rw [List.map_singleton, List.mem_singleton]
    intro hk
    exact hnd.1 (hk ▸ List.mem_map_of_mem hx)

/-- The id of the next row where ids are numbers: one past the largest. -/
def nextKey {ρ : Type*} {key : ρ → ℕ} (t : Table key) : ℕ := (t.rows.map key).foldr max 0 + 1

theorem lt_nextKey {ρ : Type*} {key : ρ → ℕ} {t : Table key} {r : ρ} (h : r ∈ t) :
    key r < t.nextKey := Nat.lt_succ_of_le (List.le_max_of_le (List.mem_map_of_mem h) le_rfl)

/-- An insert under the next id appends. -/
theorem rows_upsert_next {ρ : Type*} {key : ρ → ℕ} {m : Merge key} {t : Table key} {r : ρ}
    (h : key r = t.nextKey) : (t.upsert m r).rows = t.rows ++ [r] := by
  refine upsertRows_of_new fun hmem => ?_
  obtain ⟨s, hs, hsr⟩ := List.mem_map.1 hmem
  have hlt := lt_nextKey (t := t) hs
  omega

/-- The id after that. -/
theorem nextKey_upsert_next {ρ : Type*} {key : ρ → ℕ} {m : Merge key} {t : Table key} {r : ρ}
    (h : key r = t.nextKey) : (t.upsert m r).nextKey = t.nextKey + 1 := by
  have hmax : ∀ (l : List ℕ) (n : ℕ), l.foldr max n = max (l.foldr max 0) n := by
    intro l n
    induction l with
    | nil => simp
    | cons a l ih => rw [List.foldr_cons, List.foldr_cons, ih, max_assoc]
  rw [nextKey, rows_upsert_next h, List.map_append, List.map_singleton, List.foldr_append,
    List.foldr_cons, List.foldr_nil, hmax, h]
  unfold nextKey
  omega

/-- An update of the row that was inserted last. -/
theorem modify_upsert_next {ρ : Type*} {key : ρ → ℕ} {m : Merge key} {t : Table key} {r : ρ}
    (h : key r = t.nextKey) (g : ρ → ρ) (hg : key (g r) = key r)
    (hf : ∀ x, key (if key x = t.nextKey then g x else x) = key x) :
    (t.upsert m r).modify (fun x => if key x = t.nextKey then g x else x) hf = t.upsert m (g r) := by
  refine Table.ext ?_
  change (t.upsert m r).rows.map (fun x => if key x = t.nextKey then g x else x) = _
  rw [rows_upsert_next h, rows_upsert_next (hg.trans h), List.map_append, List.map_singleton, if_pos h]
  congr 1
  -- the rows that were there have smaller ids
  have hold : ∀ x ∈ t.rows, (if key x = t.nextKey then g x else x) = x := fun x hx =>
    if_neg (Nat.ne_of_lt (lt_nextKey hx))
  rw [List.map_congr_left hold, List.map_id']

/-- The table filled from a list, one insert a row. -/
def ofRows (rows : List ρ) : Table key := rows.foldl (upsert replace) empty

theorem find?_foldl_replace (rows : List ρ) (t : Table key) (k : κ) :
    (rows.foldl (upsert replace) t).find? k =
      (rows.reverse.find? (fun r => key r = k)).or (t.find? k) := by
  induction rows generalizing t with
  | nil => simp
  | cons r rows ih =>
    rw [List.foldl_cons, ih, List.reverse_cons, List.find?_append, Option.or_assoc]
    congr 1
    rw [find?_upsert]
    by_cases h : key r = k
    · cases hk : t.find? k <;> simp [h, replace]
    · simp [h]

/-- **A table filled from a list holds the last row of each key.** -/
theorem find?_ofRows (rows : List ρ) (k : κ) :
    (ofRows rows : Table key).find? k = rows.reverse.find? (fun r => key r = k) := by
  rw [ofRows, find?_foldl_replace]
  simp

theorem mem_ofRows {rows : List ρ} {r : ρ} (h : r ∈ (ofRows rows : Table key)) : r ∈ rows := by
  rw [mem_iff_find?, find?_ofRows] at h
  exact List.mem_reverse.1 (List.mem_of_find?_eq_some h)

end Table

/-- A dictionary: pairs with pairwise distinct keys. -/
abbrev Dict (κ ν : Type*) := Table (Prod.fst : κ × ν → κ)

namespace Dict

variable {κ ν : Type*} [DecidableEq κ]

/-- `d.get(k)`. -/
def get? (d : Dict κ ν) (k : κ) : Option ν := (d.find? k).map Prod.snd

/-- `d[k] = v`. -/
def set (d : Dict κ ν) (k : κ) (v : ν) : Dict κ ν := d.upsert Table.replace (k, v)

/-- `d.pop(k, None)`. -/
def erase (d : Dict κ ν) (k : κ) : Dict κ ν := d.filter fun p => decide (p.1 ≠ k)

/-- A dictionary comprehension: the last pair of a key wins. -/
def ofList (pairs : List (κ × ν)) : Dict κ ν := Table.ofRows pairs

/-- The second of two writes stands. -/
theorem set_set (d : Dict κ ν) (k : κ) (v v' : ν) : (d.set k v).set k v' = d.set k v' := by
  have hkey : (k, v).1 = (k, v').1 := rfl
  exact Table.ext (Table.upsertRows_upsertRows hkey d.rows)

theorem get?_set (d : Dict κ ν) (k k' : κ) (v : ν) :
    (d.set k v).get? k' = if k = k' then some v else d.get? k' := by
  rw [get?, set, Table.find?_upsert]
  by_cases h : k = k'
  · cases hk : d.find? k' <;> simp [h, Table.replace]
  · simp [h, get?]

theorem get?_erase (d : Dict κ ν) (k k' : κ) :
    (d.erase k).get? k' = if k = k' then none else d.get? k' := by
  rw [get?, erase, Table.find?_filter]
  cases hk : d.find? k' with
  | none => simp [get?, hk]
  | some p =>
    obtain ⟨-, hp⟩ := Table.find?_eq_some.1 hk
    rw [Option.filter_some, hp]
    by_cases h : k = k'
    · simp [h]
    · simp [h, Ne.symm h, get?, hk]

theorem get?_ofList (pairs : List (κ × ν)) (k : κ) :
    (ofList pairs).get? k = (pairs.reverse.find? (fun p => p.1 = k)).map Prod.snd := by
  rw [get?, ofList, Table.find?_ofRows]

/-- Where all pairs of a key carry one value, the dictionary holds it. -/
theorem get?_ofList_of_unique {pairs : List (κ × ν)} {k : κ} {v : ν} (h : (k, v) ∈ pairs)
    (hu : ∀ w, (k, w) ∈ pairs → w = v) : (ofList pairs).get? k = some v := by
  rw [get?_ofList]
  obtain ⟨p, hp⟩ : ∃ p, pairs.reverse.find? (fun p => p.1 = k) = some p :=
    Option.isSome_iff_exists.1 (List.find?_isSome.2 ⟨(k, v), by simpa using h, by simp⟩)
  have hk : p.1 = k := by simpa using List.find?_some hp
  have hm : (k, p.2) ∈ pairs := by
    rw [← hk]
    exact List.mem_reverse.1 (List.mem_of_find?_eq_some hp)
  rw [hp, Option.map_some, hu p.2 hm]

/-- **The last pair of a key wins.** -/
theorem get?_ofList_eq_some {pairs : List (κ × ν)} {k : κ} {v : ν} :
    (ofList pairs).get? k = some v ↔
      ∃ before after, pairs = before ++ (k, v) :: after ∧ ∀ p ∈ after, p.1 ≠ k := by
  rw [get?_ofList, Option.map_eq_some_iff]
  constructor
  · rintro ⟨⟨k', v'⟩, hp, rfl⟩
    obtain ⟨hk, as, bs, hsplit, has⟩ := List.find?_eq_some_iff_append.1 hp
    obtain rfl : k' = k := of_decide_eq_true hk
    refine ⟨bs.reverse, as.reverse, ?_, fun p hp => ?_⟩
    · have := congrArg List.reverse hsplit
      simpa using this
    · simpa using has p (List.mem_reverse.1 hp)
  · rintro ⟨before, after, rfl, hafter⟩
    refine ⟨(k, v), List.find?_eq_some_iff_append.2 ⟨decide_eq_true rfl, after.reverse,
      before.reverse, by simp, fun p hp => ?_⟩, rfl⟩
    simpa using hafter p (List.mem_reverse.1 hp)

theorem get?_ofList_eq_none {pairs : List (κ × ν)} {k : κ} :
    (ofList pairs).get? k = none ↔ ∀ v, (k, v) ∉ pairs := by
  rw [get?_ofList, Option.map_eq_none_iff, List.find?_eq_none]
  constructor
  · intro h v hv
    simpa using h (k, v) (List.mem_reverse.2 hv)
  · rintro h ⟨k', v⟩ hp
    simp only [decide_eq_true_eq]
    rintro rfl
    exact h v (List.mem_reverse.1 hp)

/-- A dictionary made of a function, at some keys. -/
theorem get?_ofList_filterMap (keys : List κ) (f : κ → Option ν) (k : κ) :
    (ofList (keys.filterMap fun k => (f k).map fun v => (k, v))).get? k = if k ∈ keys then f k else none := by
  have hmem : ∀ v, (k, v) ∈ keys.filterMap (fun k => (f k).map fun v => (k, v)) ↔
      k ∈ keys ∧ f k = some v := by
    intro v
    simp only [List.mem_filterMap, Option.map_eq_some_iff, Prod.mk.injEq]
    constructor
    · rintro ⟨a, ha, b, hb, rfl, rfl⟩
      exact ⟨ha, hb⟩
    · rintro ⟨hk, hv⟩
      exact ⟨k, hk, v, hv, rfl, rfl⟩
  by_cases hk : k ∈ keys
  · rw [if_pos hk]
    cases hv : f k with
    | none =>
      refine get?_ofList_eq_none.2 fun v hm => ?_
      rw [((hmem v).1 hm).2] at hv
      cases hv
    | some v =>
      refine get?_ofList_of_unique ((hmem v).2 ⟨hk, hv⟩) fun w hw => ?_
      exact Option.some.inj (((hmem w).1 hw).2.symm.trans hv)
  · rw [if_neg hk]
    exact get?_ofList_eq_none.2 fun v hm => hk ((hmem v).1 hm).1

end Dict
