import DropboxMirror.Lib.Lists
import DropboxMirror.Proof.Pool

/-!
# The directories of staging

Staging stays a tree (`Staging.Parented`) through every step of the pool and of `verify`.
In a tree the bottom-up pass of `_prune_empty_dirs` leaves the directories above a file and
no others (`mem_pruneEmptyDirs`), so what is left is read off the files (`dirs_pruned`).

No file outlives the download it belongs to: at every moment of the pool each file is the
target of a row that landed, or the part file of one that has not (`poolRun_accounted`).
-/

namespace DropboxMirror

open Text Crash

variable {s s' : Staging} {t p q d : List Str} {body : Bytes}

section Parented

/-- Every file and directory has its parents, and no path is both. -/
structure Staging.Parented (s : Staging) : Prop where
  nodup : s.dirs.Nodup
  apart : ∀ d ∈ s.dirs, d ≠ [] ∧ s.files.get? d = none
  parents : ∀ q, q ∈ s.dirs ∨ s.files.get? q ≠ none →
    ∀ p, p <+: q → p ≠ q → p ≠ [] → p ∈ s.dirs

theorem parented_cleared : Staging.cleared.Parented := by
  refine ⟨List.nodup_nil, fun d hd => absurd hd List.not_mem_nil, fun q hq => ?_⟩
  exact hq.elim (fun h => absurd h List.not_mem_nil) fun h => absurd rfl h

/-- What `mkdirs` adds. -/
theorem mem_dirs_mkdirs (h : s.mkdirs p = some s') :
    d ∈ s'.dirs ↔ d ∈ s.dirs ∨ d <+: p ∧ d ≠ [] := by
  unfold Staging.mkdirs at h
  dsimp only at h
  split at h
  · cases h
  obtain rfl := Option.some.inj h
  simp only [List.mem_append, List.mem_filter, List.mem_inits, decide_eq_true_eq]
  tauto

theorem Staging.Parented.mkdirs (hs : s.Parented) (h : s.mkdirs p = some s') : s'.Parented := by
  have hmem := fun d => mem_dirs_mkdirs (d := d) h
  have hfiles := Staging.mkdirs_files h
  refine ⟨?_, fun d hd => ?_, fun q hq r hr hne hnil => ?_⟩
  · unfold Staging.mkdirs at h
    dsimp only at h
    split at h
    · cases h
    obtain rfl := Option.some.inj h
    refine List.Nodup.append hs.nodup (((Lists.nodup_inits p).filter _).filter _) ?_
    intro x hx hx'
    exact of_decide_eq_true (List.mem_filter.1 hx').2 hx
  · rw [hfiles]
    rcases (hmem d).1 hd with hd | ⟨hd, hnil⟩
    · exact hs.apart d hd
    -- a file in the way would have stopped it
    · refine ⟨hnil, ?_⟩
      unfold Staging.mkdirs at h
      dsimp only at h
      split at h
      · cases h
      rename_i hway
      rw [List.any_eq_true, not_exists] at hway
      have := hway d
      simp only [List.mem_filter, List.mem_inits, decide_eq_true_eq, not_and] at this
      simpa using this ⟨hd, hnil⟩
  · rw [hfiles] at hq
    rw [hmem]
    rcases hq with hq | hq
    · rcases (hmem q).1 hq with hq | ⟨hq, -⟩
      · exact Or.inl (hs.parents q (Or.inl hq) r hr hne hnil)
      · exact Or.inr ⟨hr.trans hq, hnil⟩
    · exact Or.inl (hs.parents q (Or.inr hq) r hr hne hnil)

theorem Staging.Parented.put (hs : s.Parented) (h : s.put p body = some s')
    (hdirs : ∀ r, r <+: p → r ≠ p → r ≠ [] → r ∈ s.dirs) : s'.Parented := by
  have hget := Staging.get?_put h
  unfold Staging.put at h
  split at h
  · cases h
  rename_i hok
  obtain rfl := Option.some.inj h
  refine ⟨hs.nodup, fun d hd => ?_, fun q hq r hr hne hnil => ?_⟩
  · refine ⟨(hs.apart d hd).1, ?_⟩
    rw [hget, if_neg]
    · exact (hs.apart d hd).2
    · rintro rfl
      exact hok (Or.inr hd)
  · rw [hget] at hq
    by_cases hpq : p = q
    · exact hdirs r (hpq ▸ hr) (hpq ▸ hne) hnil
    · rw [if_neg hpq] at hq
      exact hs.parents q hq r hr hne hnil

theorem Staging.Parented.unlink (hs : s.Parented) (p : List Str) : (s.unlink p).Parented := by
  refine ⟨hs.nodup, fun d hd => ⟨(hs.apart d hd).1, ?_⟩, fun q hq r hr hne hnil => ?_⟩
  · rw [Staging.get?_unlink_eq, (hs.apart d hd).2, ite_self]
  · refine hs.parents q (hq.imp_right fun h hnone => h ?_) r hr hne hnil
    rw [Staging.get?_unlink_eq, hnone, ite_self]

/-- The parents of a part file are those of its target. -/
theorem prefix_dropLast_of_partFile (h : p <+: partFile t) (hne : p ≠ partFile t) :
    p <+: t.dropLast := by
  unfold partFile at h hne
  rcases List.prefix_concat_iff.1 h with h | h
  · exact absurd h hne
  · exact h

theorem prefix_partFile (h : p <+: t) (hne : p ≠ t) : p <+: partFile t ∧ p ≠ partFile t := by
  have hlen := h.length_le
  have hlt : p.length < t.length := lt_of_le_of_ne hlen fun heq => hne (h.eq_of_length heq)
  have hdrop : p <+: t.dropLast := by
    rw [List.dropLast_eq_take]
    exact List.prefix_take_iff.2 ⟨h, by omega⟩
  refine ⟨hdrop.trans (List.prefix_append _ _), fun heq => ?_⟩
  have := congrArg List.length heq
  unfold partFile at this
  rw [List.length_append, List.length_singleton, List.length_dropLast] at this
  omega

theorem Staging.Parented.writePart (hs : s.Parented) (h : s.writePart t body = some s') :
    s'.Parented := by
  obtain ⟨s₁, hs₁, hput⟩ := Option.bind_eq_some_iff.1 h
  refine (hs.mkdirs hs₁).put hput fun r hr hne hnil => ?_
  exact (mem_dirs_mkdirs hs₁).2 (Or.inr ⟨prefix_dropLast_of_partFile hr hne, hnil⟩)

theorem Staging.Parented.removePart (hs : s.Parented) (h : s.removePart t = some s') :
    s'.Parented := by
  unfold Staging.removePart Staging.unlinkMissingOk at h
  split at h
  · cases h
  · obtain rfl := Option.some.inj h
    exact hs.unlink _

theorem Staging.Parented.replacePart (hs : s.Parented) (h : s.replacePart t = some s') :
    s'.Parented := by
  obtain ⟨body, hbody, hput⟩ := Option.bind_eq_some_iff.1 h
  refine (hs.unlink _).put hput fun r hr hne hnil => ?_
  obtain ⟨hpart, hne'⟩ := prefix_partFile hr hne
  exact hs.parents (partFile t) (Or.inr (by rw [hbody]; simp)) r hpart hne' hnil

/-- **A worker's step keeps the tree.** -/
theorem workerStep_parented {x y : Worker} (h : workerStep t s x = some (y, s')) (hs : s.Parented) :
    s'.Parented := by
  have hfile : ∀ {next : Worker} {o : Option Staging}, afterFile s next o = (y, s') →
      (∀ s₁, o = some s₁ → s₁.Parented) → s'.Parented := by
    intro next o ho hall
    rcases afterFile_cases ho with ⟨-, rfl⟩ | ⟨-, h⟩
    · exact hs
    · exact hall _ h
  match x with
  | .queued | .finished _ => cases h
  | .started _ => exact hfile (Option.some.inj h) fun _ => hs.mkdirs
  | .attempting (.served _ :: _) | .attempting (.dropped (some _) :: _) =>
    exact hfile (Option.some.inj h) fun _ => hs.writePart
  | .attempting [] | .attempting (.dropped none :: _) | .attempting (.retried :: _)
  | .attempting (.notFound :: _) | .attempting (.refused _ :: _) =>
    cases h
    exact hs
  | .dropped _ => exact hfile (Option.some.inj h) fun _ => hs.removePart
  | .written => exact hfile (Option.some.inj h) fun _ => hs.replacePart

end Parented

section Prune

/-- There is a file below a directory. -/
def Staging.HasFile (s : Staging) (d : List Str) : Prop := ∃ q, s.files.get? q ≠ none ∧ d <+: q

theorem Staging.HasFile.above (h : s.HasFile d) (hp : p <+: d) : s.HasFile p := by
  obtain ⟨q, hq, hd⟩ := h
  exact ⟨q, hq, hp.trans hd⟩

theorem any_files_iff : (s.files.rows.any fun f => decide (d <+: f.1)) = true ↔ s.HasFile d := by
  rw [List.any_eq_true]
  constructor
  · rintro ⟨f, hf, hd⟩
    refine ⟨f.1, ?_, of_decide_eq_true hd⟩
    rw [Dict.get?, Table.mem_iff_find?.1 hf]
    simp
  · rintro ⟨q, hq, hd⟩
    obtain ⟨body, hbody⟩ := Option.ne_none_iff_exists'.1 hq
    obtain ⟨f, hf, -⟩ := Option.map_eq_some_iff.1 hbody
    obtain ⟨hmem, hkey⟩ := Table.find?_eq_some.1 hf
    exact ⟨f, hmem, decide_eq_true (hkey ▸ hd)⟩

/-- `os.rmdir` takes one directory, where nothing is below it. -/
theorem mem_dirs_rmdir : d ∈ (s.rmdir p).dirs ↔
    d ∈ s.dirs ∧ (d = p → s.HasFile p ∨ ∃ e ∈ s.dirs, p <+: e ∧ e ≠ p) := by
  have hdirs : (s.dirs.any fun d => decide (p <+: d ∧ d ≠ p)) = true ↔
      ∃ e ∈ s.dirs, p <+: e ∧ e ≠ p := by
    simp only [List.any_eq_true, decide_eq_true_eq]
  unfold Staging.rmdir
  split
  · rename_i h
    rw [Bool.or_eq_true, any_files_iff, hdirs] at h
    exact ⟨fun hd => ⟨hd, fun _ => h⟩, fun hd => hd.1⟩
  · rename_i h
    rw [Bool.or_eq_true, any_files_iff, hdirs] at h
    rw [List.mem_filter, decide_eq_true_eq]
    exact ⟨fun hd => ⟨hd.1, fun heq => absurd heq hd.2⟩, fun hd => ⟨hd.1, fun heq => h (hd.2 heq)⟩⟩

theorem rmdir_sublist : (s.rmdir p).dirs.Sublist s.dirs := by
  unfold Staging.rmdir
  split
  · exact List.Sublist.refl _
  · exact List.filter_sublist

theorem hasFile_congr (h : s'.files = s.files) : s'.HasFile d ↔ s.HasFile d := by
  unfold Staging.HasFile
  rw [h]

/-- **The bottom-up pass**: when a directory is tried, those below it that are left have a
file below them. -/
theorem mem_foldl_rmdir {todo : List (List Str)}
    (hsorted : todo.Pairwise fun a b => b.length ≤ a.length)
    (hs : ∀ e ∈ s.dirs, e ∈ todo ∨ s.HasFile e) :
    d ∈ (todo.foldl Staging.rmdir s).dirs ↔ d ∈ s.dirs ∧ s.HasFile d := by
  induction todo generalizing s with
  | nil =>
    have hall : ∀ e ∈ s.dirs, s.HasFile e := fun e he =>
      (hs e he).resolve_left List.not_mem_nil
    exact ⟨fun hd => ⟨hd, hall d hd⟩, fun hd => hd.1⟩
  | cons x todo ih =>
    obtain ⟨hlen, hsorted⟩ := List.pairwise_cons.1 hsorted
    have hkept : ∀ e, (s.rmdir x).HasFile e ↔ s.HasFile e := fun e =>
      hasFile_congr (s.rmdir_files x)
    rw [List.foldl_cons, ih hsorted, hkept, mem_dirs_rmdir]
    · exact ⟨fun h => ⟨h.1.1, h.2⟩, fun h => ⟨⟨h.1, fun heq => Or.inl (heq ▸ h.2)⟩, h.2⟩⟩
    · intro e he
      rw [hkept]
      obtain ⟨he, hx⟩ := mem_dirs_rmdir.1 he
      rcases hs e he with hmem | hfile
      · rcases List.mem_cons.1 hmem with rfl | hmem
        -- a directory below it is longer, so it is not to be tried any more
        · right
          rcases hx rfl with hfile | ⟨e', he', hpre, hne⟩
          · exact hfile
          have hlt : e.length < e'.length :=
            lt_of_le_of_ne hpre.length_le fun heq => hne (hpre.eq_of_length heq).symm
          have hdone : e' ∉ e :: todo := by
            intro hmem
            rcases List.mem_cons.1 hmem with heq | hmem
            · exact hne heq
            · have := hlen e' hmem
              omega
          exact ((hs e' he').resolve_left hdone).above hpre
        · exact Or.inl hmem
      · exact Or.inr hfile

/-- **`_prune_empty_dirs`** leaves the directories above a file. -/
theorem mem_pruneEmptyDirs : d ∈ s.pruneEmptyDirs.dirs ↔ d ∈ s.dirs ∧ s.HasFile d := by
  have : Std.Total fun a b : List Str => b.length ≤ a.length := ⟨fun a b => by omega⟩
  have : IsTrans (List Str) fun a b => b.length ≤ a.length := ⟨fun a b c => by omega⟩
  exact mem_foldl_rmdir (List.pairwise_insertionSort _ _) fun e he =>
    Or.inl ((List.mem_insertionSort _).2 he)

theorem pruneEmptyDirs_sublist (s : Staging) : s.pruneEmptyDirs.dirs.Sublist s.dirs := by
  have key : ∀ (l : List (List Str)) (s : Staging), (l.foldl Staging.rmdir s).dirs.Sublist s.dirs := by
    intro l
    induction l with
    | nil => exact fun s => List.Sublist.refl _
    | cons x l ih => exact fun s => (ih _).trans rmdir_sublist
  exact key _ s

theorem Staging.Parented.prune (hs : s.Parented) : s.pruneEmptyDirs.Parented := by
  refine ⟨hs.nodup.sublist (pruneEmptyDirs_sublist s), fun d hd => ?_, fun q hq r hr hne hnil => ?_⟩
  · rw [Staging.pruneEmptyDirs_files]
    exact hs.apart d (mem_pruneEmptyDirs.1 hd).1
  · rw [Staging.pruneEmptyDirs_files] at hq
    refine mem_pruneEmptyDirs.2 ⟨hs.parents q ?_ r hr hne hnil, ?_⟩
    · exact hq.imp_left fun hq => (mem_pruneEmptyDirs.1 hq).1
    · rcases hq with hq | hq
      · exact (mem_pruneEmptyDirs.1 hq).2.above hr
      · exact ⟨q, hq, hr⟩

/-- **What is left of a tree**: the directories above its files. -/
theorem dirs_pruned (hs : s.Parented) : d ∈ s.pruneEmptyDirs.dirs ↔
    d ≠ [] ∧ ∃ q, s.files.get? q ≠ none ∧ d <+: q ∧ d ≠ q := by
  rw [mem_pruneEmptyDirs]
  constructor
  · rintro ⟨hd, q, hq, hpre⟩
    obtain ⟨hnil, hfile⟩ := hs.apart d hd
    refine ⟨hnil, q, hq, hpre, ?_⟩
    rintro rfl
    exact hq hfile
  · rintro ⟨hnil, q, hq, hpre, hne⟩
    exact ⟨hs.parents q (Or.inr hq) d hpre hne hnil, q, hq, hpre⟩

end Prune

section Accounted

variable {workers : ℕ} {attempts : Str → List DownloadAttempt} {rows : List BatchItem}
  {done : List (BatchItem × Landed)} {row : BatchItem} {x y : Worker}

/-- The files that belong to a download. -/
def Owns (row : BatchItem) (x : Worker) (q : List Str) : Prop :=
  match x with
  | .dropped _ | .written | .finished (.failed _) => q = partFile (localPath row.pathDisplay)
  | .finished .file => q = localPath row.pathDisplay
  | _ => False

/-- **One step of a worker**: a file that is there after it is its own, or was there before
it and is not. -/
theorem workerStep_accounted (h : workerStep (localPath row.pathDisplay) s x = some (y, s'))
    (q : List Str) (hq : s'.files.get? q ≠ none) :
    Owns row y q ∨ s.files.get? q ≠ none ∧ ¬ Owns row x q := by
  set t := localPath row.pathDisplay with ht
  -- a write makes the part file, which the worker then owns
  have hwrite : ∀ (next : Worker) (body : Bytes), Owns row next (partFile t) →
      (∀ q, ¬ Owns row x q) → afterFile s next (s.writePart t body) = (y, s') →
      Owns row y q ∨ s.files.get? q ≠ none ∧ ¬ Owns row x q := by
    intro next body hnext hx hstep
    rcases afterFile_cases hstep with ⟨-, rfl⟩ | ⟨rfl, hput⟩
    · exact Or.inr ⟨hq, hx q⟩
    rw [writePart_get? hput] at hq
    by_cases hpart : partFile t = q
    · exact Or.inl (hpart ▸ hnext)
    · rw [if_neg hpart] at hq
      exact Or.inr ⟨hq, hx q⟩
  match x with
  | .queued | .finished _ => cases h
  | .started _ =>
    rcases afterFile_cases (Option.some.inj h) with ⟨-, rfl⟩ | ⟨-, h⟩
    · exact Or.inr ⟨hq, id⟩
    · rw [Staging.mkdirs_files h] at hq
      exact Or.inr ⟨hq, id⟩
  | .attempting (.served body :: _) =>
    exact hwrite .written body rfl (fun _ => id) (Option.some.inj h)
  | .attempting (.dropped (some body) :: rest) =>
    exact hwrite (.dropped rest) body rfl (fun _ => id) (Option.some.inj h)
  | .attempting [] | .attempting (.dropped none :: _) | .attempting (.retried :: _)
  | .attempting (.notFound :: _) | .attempting (.refused _ :: _) =>
    cases h
    exact Or.inr ⟨hq, id⟩
  | .dropped _ =>
    -- the removal may raise, and the worker still owns what it left
    by_cases hpart : q = partFile t
    · rcases afterFile_cases (Option.some.inj h) with ⟨rfl, -⟩ | ⟨-, hrem⟩
      · exact Or.inl hpart
      · rw [removePart_get? hrem, if_pos hpart.symm] at hq
        exact absurd rfl hq
    · refine Or.inr ⟨?_, hpart⟩
      rcases afterFile_cases (Option.some.inj h) with ⟨-, rfl⟩ | ⟨-, hrem⟩
      · exact hq
      · rwa [removePart_get? hrem, if_neg (Ne.symm hpart)] at hq
  | .written =>
    -- the rename takes the part file away and leaves the file
    rcases afterFile_cases (Option.some.inj h) with ⟨rfl, rfl⟩ | ⟨rfl, hmove⟩
    · by_cases hpart : q = partFile t
      · exact Or.inl hpart
      · exact Or.inr ⟨hq, hpart⟩
    · obtain ⟨body, -, hget⟩ := replacePart_get? hmove
      rw [hget] at hq
      by_cases htarget : t = q
      · exact Or.inl htarget.symm
      rw [if_neg htarget] at hq
      by_cases hpart : partFile t = q
      · rw [if_pos hpart] at hq
        exact absurd rfl hq
      · rw [if_neg hpart] at hq
        exact Or.inr ⟨hq, Ne.symm hpart⟩

/-- The pool leaves a tree. -/
theorem poolRun_parented (h : PoolRun workers attempts rows done s) : s.Parented := by
  refine Interleave.shared (J := Staging.Parented) (fun i p s p' s' hstep hs => ?_) h.interleave
    parented_cleared
  rcases hstep with ⟨-, -, rfl⟩ | hstep
  · exact hs
  · exact workerStep_parented hstep hs

/-- **No file is left over by the pool.** -/
theorem poolRun_accounted (h : PoolRun workers attempts rows done s) (hq : s.files.get? q ≠ none) :
    ∃ r ∈ done, Owns r.1 (.finished r.2) q := by
  have hstep : ∀ i p s p' s', RowStep attempts i p s p' s' → ∀ q, s'.files.get? q ≠ none →
      Owns i p' q ∨ s.files.get? q ≠ none ∧ ¬ Owns i p q := by
    intro i p s p' s' hstep q hq
    rcases hstep with ⟨rfl, rfl, rfl⟩ | hstep
    · exact Or.inr ⟨hq, id⟩
    · exact workerStep_accounted hstep q hq
  obtain ⟨x, hx, hown⟩ := Interleave.accounted hstep h.interleave (fun q hq => absurd rfl hq) q hq
  obtain ⟨r, hr, rfl⟩ := List.mem_map.1 hx
  exact ⟨r, hr, hown⟩

/-- Every row of the pool is done once. -/
theorem poolRun_names (h : PoolRun workers attempts rows done s) : done.map Prod.fst = rows := by
  have key : ∀ {c c' : List (BatchItem × Worker) × Staging},
      Relation.ReflTransGen (Interleave.Step (RowStep attempts)) c c' →
        c'.1.map Prod.fst = c.1.map Prod.fst := by
    intro c c' h
    induction h with
    | refl => rfl
    | tail _ hstep ih => exact hstep.names.trans ih
  have hnames := key h.interleave
  rw [List.map_map, List.map_map] at hnames
  rw [← List.map_id rows]
  exact hnames

end Accounted

end DropboxMirror
