import DropboxMirror.Proof.Gate

/-!
# What one batch gets done

A batch is idle where Dropbox has none of its files any more: its five steps return,
the batch row says `CHECKPOINTED`, and nothing is mirrored. A batch that is not idle
raises, fails, or mirrors an item.

* `fetch_answers`: `fetch` fetches nothing only where every file is gone.
* `batchSteps_idle`, `batchSteps_busy`: the two kinds of batches.
* `Mirrors`: an item was checkpointed since `w`; no later step undoes it.
-/

namespace DropboxMirror

open Text Crash

variable {D : Digests} {S : Set ℕ} {runId b : ℕ} {u v w : World} {env : BatchEnv} {p : Str}

/-- Dropbox has no file of the batch any more, and no item of it is past `fetch`. -/
def AllGone (download : BatchItem → Download) (b : ℕ) (w : World) : Prop :=
  ∀ i ∈ w.items, i.batchId = b →
    i.status = .vanished ∨ i.status = .planned ∧ download i = .notFound

/-- **An idle batch**: the token and the push go through, and every file is gone. -/
structure Idle (env : BatchEnv) (b : ℕ) (w : World) : Prop where
  token : env.token = .ok ()
  push : env.push = .ok ()
  gone : AllGone env.download b w

/-- Only the items of the batch decide whether it is idle. -/
theorem Idle.of_items (h : Idle env b w) (hitems : ∀ i, i.batchId = b → (i ∈ v.items → i ∈ w.items)) :
    Idle env b v :=
  ⟨h.token, h.push, fun i hi hb => h.gone i (hitems i hb hi) hb⟩

section Fetch

variable {download : BatchItem → Download} {rows : List BatchItem} {row : BatchItem}

/-- Where every file is gone, no worker meets a file in its way. -/
theorem runPool_gone {s : Staging} (hs : s.files = Table.empty)
    (h : ∀ i ∈ rows, download i = .notFound) :
    (runPool download rows s).1 = rows.map fun i => (i, .gone) := by
  induction rows generalizing s with
  | nil => rfl
  | cons row rows ih =>
    have hnone : ∀ path, s.files.get? path = none := by
      intro path
      rw [hs]
      rfl
    -- no file is staged, so the parents can be made
    have hstage : ∃ s', stageDownload s (localPath row.pathDisplay) (download row) = (.gone, s') ∧
        s'.files = Table.empty := by
      unfold stageDownload
      cases hm : s.mkdirs (localPath row.pathDisplay).dropLast with
      | none =>
        unfold Staging.mkdirs at hm
        dsimp only at hm
        split at hm
        · rename_i hany
          obtain ⟨path, -, hpath⟩ := List.any_eq_true.1 hany
          rw [hnone] at hpath
          cases hpath
        · cases hm
      | some s' =>
        dsimp only
        rw [h row List.mem_cons_self]
        exact ⟨s', rfl, (Staging.mkdirs_files hm).trans hs⟩
    obtain ⟨s', hstage, hs'⟩ := hstage
    have hrest := ih hs' fun i hi => h i (List.mem_cons_of_mem _ hi)
    rw [runPool, hstage]
    dsimp only
    rw [hrest, List.map_cons]

/-- Only the answer "not found" makes a worker end with "gone". -/
theorem notFound_of_runPool {s : Staging} (h : (row, Landed.gone) ∈ (runPool download rows s).1) :
    download row = .notFound := by
  induction rows generalizing s with
  | nil => cases h
  | cons r rows ih =>
    rw [runPool] at h
    dsimp only at h
    rcases List.mem_cons.1 h with heq | hmem
    · obtain ⟨rfl, hgone⟩ := Prod.mk.inj heq
      unfold stageDownload at hgone
      split at hgone
      · cases hgone
      · split at hgone
        · assumption
        · cases hgone
        · split at hgone <;> cases hgone
    · exact ih hmem

/-- The loop of `fetch` has counted no file and met no error while all rows are gone. -/
theorem fetchRow_answers {result : BatchItem → Landed} {done : List BatchItem}
    {acc : FetchCounts × Option Failure} {E : Failure → World → Prop} :
    Triple (fun _ _ => True)
      (fun _ => acc.1.fetched = 0 ∧ acc.2 = none ↔ ∀ i ∈ done, result i = .gone)
      (fetchRow b result acc row)
      (fun acc' _ => acc'.1.fetched = 0 ∧ acc'.2 = none ↔ ∀ i ∈ done ++ [row], result i = .gone) E := by
  have hsplit : (∀ i ∈ done ++ [row], result i = .gone) ↔
      (∀ i ∈ done, result i = .gone) ∧ result row = .gone := by
    rw [List.forall_mem_append, List.forall_mem_singleton]
  unfold fetchRow
  cases hr : result row with
  | gone =>
    refine Triple.bind (M := fun _ _ => acc.1.fetched = 0 ∧ acc.2 = none ↔
      ∀ i ∈ done, result i = .gone) (Triple.write fun _ h => ⟨trivial, h⟩) fun _ =>
        Triple.pure fun _ h => ?_
    rw [hsplit, ← h]
    simp [hr]
  | failed e =>
    refine Triple.pure fun _ _ => ?_
    rw [hsplit, hr]
    cases acc.2 <;> simp
  | file =>
    refine Triple.bind (M := fun _ _ => True) (Triple.write fun _ _ => ⟨trivial, trivial⟩)
      fun _ => Triple.pure fun _ _ => ?_
    rw [hsplit, hr]
    simp

/-- **`fetch` returns without a file exactly where every file is gone.** -/
theorem fetch_answers (pool : Pool) :
    Triple (fun _ _ => True) (fun v => v = w) (fetch b pool download)
      (fun f _ => f.fetched = 0 ↔ AllGone download b w) (fun _ _ => ¬ AllGone download b w) := by
  unfold fetch
  refine Triple.get_bind fun s hs => ?_
  rw [hs]
  dsimp only
  have hmem : ∀ i, i ∈ w.itemsOf b (fun s => decide (s ≠ .planned ∧ s ≠ .vanished)) ↔
      i ∈ w.items ∧ i.batchId = b ∧ i.status ≠ .planned ∧ i.status ≠ .vanished := by
    intro i
    rw [World.itemsOf, (List.perm_insertionSort _ _).mem_iff, List.mem_filter]
    simp [Table.mem_def]
  split
  · rename_i hne
    obtain ⟨i, hi⟩ := List.exists_mem_of_ne_nil _ hne
    obtain ⟨hi, hb, hp, hv⟩ := (hmem i).1 hi
    exact Triple.fail fun _ _ hgone =>
      (hgone i hi hb).elim (fun h => hv h) fun h => hp h.1
  rename_i hnil
  have hnil' := not_not.1 hnil
  have hfetch : ∀ i ∈ w.items, i.batchId = b → i.status = .vanished ∨ i.status = .planned := by
    intro i hi hb
    by_contra hno
    have hadv := (hmem i).2 ⟨hi, hb, fun h => hno (Or.inr h), fun h => hno (Or.inl h)⟩
    rw [hnil'] at hadv
    cases hadv
  set rows := w.itemsIn b .planned
  -- the futures all say "gone" exactly where the answers all say "not found"
  have hgone : (∀ i ∈ rows, futureResult (runPool download (pool.order rows) Staging.cleared).1 i =
      .gone) ↔ AllGone download b w := by
    constructor
    · intro h i hi hb
      refine (hfetch i hi hb).imp id fun hp => ⟨hp, ?_⟩
      exact notFound_of_runPool (mem_of_futureResult (by simp) (h i (mem_itemsIn.2 ⟨hi, hb, hp⟩)))
    · intro h i hi
      rw [runPool_gone rfl]
      · exact futureResult_map ((pool.perm rows).mem_iff.2 hi)
      · intro j hj
        obtain ⟨hj, hb, hp⟩ := mem_itemsIn.1 ((pool.perm rows).mem_iff.1 hj)
        rcases h j hj hb with hv | ⟨-, hn⟩
        · rw [hp] at hv
          cases hv
        · exact hn
  rcases hpool : runPool download (pool.order rows) Staging.cleared with ⟨done, staged⟩
  rw [hpool] at hgone
  dsimp only at hgone ⊢
  refine Triple.bind (M := fun _ _ => True) (Triple.write fun _ _ => ⟨trivial, trivial⟩) fun _ => ?_
  have loop := Triple.foldlM (R := fun _ _ => True) (f := fetchRow b (futureResult done))
    (E := fun _ _ => ¬ AllGone download b w)
    (fun ds acc _ => acc.1.fetched = 0 ∧ acc.2 = none ↔ ∀ i ∈ ds, futureResult done i = .gone)
    rows (⟨0, 0⟩, none) fun _ _ _ _ _ => fetchRow_answers
  refine (loop.consequence (fun _ _ => by simp) (fun _ _ h => h) (fun _ _ h => h)).bind
    fun ⟨counts, error⟩ => ?_
  cases error with
  | some e =>
    refine Triple.fail fun _ h hall => ?_
    cases (h.2 (hgone.2 hall)).2
  | none =>
    refine Triple.bind (M := fun _ _ => counts.fetched = 0 ↔ AllGone download b w)
      (Triple.write fun _ h => ⟨trivial, ?_⟩) fun _ => Triple.pure fun _ h => h
    rw [← hgone, ← h]
    simp

end Fetch

section Nothing

/-- `verify` of a batch without a fetched row. -/
theorem verify_nothing {readable : BatchItem → Bool} (h : w.itemsIn b .fetched = []) :
    Triple (fun _ _ => True) (fun v => v = w) (verify D b readable)
      (fun _ v => v.items = w.items ∧ v.mirror = w.mirror) (fun _ _ => False) := by
  unfold verify
  refine Triple.get_bind fun s hs => ?_
  rw [hs, h]
  dsimp only
  rw [List.foldlM_nil]
  refine Triple.bind (M := fun _ v => v = w) (Triple.pure fun _ h => h) fun _ =>
    Triple.bind (M := fun _ v => v.items = w.items ∧ v.mirror = w.mirror)
      (Triple.write ?_) fun _ => ?_
  · rintro _ rfl
    exact ⟨trivial, rfl, rfl⟩
  · rw [if_neg fun hne => hne.1 rfl]
    exact Triple.pure fun _ h => h

/-- `verify` raises where it takes every file out of staging. -/
theorem verify_something {readable : BatchItem → Bool} (h : w.itemsIn b .fetched ≠ []) :
    Triple (fun _ _ => True) (fun v => v = w) (verify D b readable)
      (fun c _ => c.hashMismatch ≠ (w.itemsIn b .fetched).length) (fun _ _ => True) := by
  unfold verify
  refine Triple.get_bind fun s hs => ?_
  rw [hs]
  refine Triple.bind Triple.any fun counts => Triple.bind Triple.any fun _ => ?_
  split
  · exact Triple.fail fun _ _ => trivial
  · rename_i hno
    exact Triple.pure fun _ _ heq => hno ⟨h, heq⟩

theorem upload_nothing {answer : Except Failure (Option Summary)} (h : w.itemsIn b .verified = []) :
    Triple (fun _ _ => True) (fun v => v = w) (upload b answer) (fun _ v => v = w)
      (fun _ _ => False) := by
  unfold upload
  refine Triple.get_bind fun s hs => ?_
  rw [hs, h]
  exact Triple.pure fun _ h => h

theorem confirm_nothing (h : w.itemsIn b .verified = []) :
    Triple (fun _ _ => True) (fun v => v = w) (confirm b) (fun _ v => v = w)
      (fun _ _ => False) := by
  unfold confirm
  refine Triple.get_bind fun s hs => ?_
  rw [hs, h]
  exact Triple.pure fun _ h => h

end Nothing

section Checkpoint

/-- The result `checkpoint` writes for a batch. -/
def resultOf (w : World) (b : ℕ) : BatchStatus :=
  if (w.itemsIn b .confirmFailed).length ≠ 0 ∧ w.itemsIn b .confirmed = [] then .failed
  else .checkpointed

theorem resultOf_ne_planned (w : World) (b : ℕ) : resultOf w b ≠ .planned := by
  unfold resultOf
  split <;> decide

/-- The merge checkpoints each confirmed item, with its mirror row. -/
theorem checkpoints_of_confirmed {rows : List MirrorObject} {status : BatchStatus} {i : BatchItem}
    (hrows : (w.itemsIn b .confirmed).mapM (mirrorRow runId) = .ok rows)
    (hi : i ∈ w.itemsIn b .confirmed) :
    ∃ j, Checkpoints D {b} w (w.checkpointed b rows status) i.pathLower j := by
  obtain ⟨hiw, hib, his⟩ := mem_itemsIn.1 hi
  rcases (checkpointed_link (D := D) hrows).mirror i.pathLower with hj | ⟨-, hold⟩
  · exact hj
  · -- the item is `CHECKPOINTED` now, and was not
    have hnew : i.setStatus .checkpointed {} ∈ (w.checkpointed b rows status).items :=
      mem_updateItems.2 ⟨i, hiw, if_pos ((isConfirmed_iff hiw).1 hi)⟩
    have heq := Table.eq_of_key_eq (hold _ hnew rfl rfl) hiw rfl
    have hs : (i.setStatus .checkpointed {}).status = i.status := congrArg BatchItem.status heq
    rw [his] at hs
    cases hs

/-- **`checkpoint`: the result of the batch, and what it mirrors.** -/
theorem checkpoint_outcome (push : Except Failure Unit) :
    Triple (fun _ _ => True) (fun v => v = w) (checkpoint runId b push)
      (fun _ u => push = .ok () ∧ u.run = w.run ∧ u.batches = setBatch b (resultOf w b) w.batches ∧
        ∀ i ∈ w.itemsIn b .confirmed, ∃ j, Checkpoints D {b} w u i.pathLower j)
      (fun _ _ => True) := by
  unfold checkpoint
  refine Triple.get_bind fun s hs => ?_
  rw [hs]
  dsimp only
  split
  · exact Triple.fail fun _ _ => trivial
  rename_i rows hrows
  refine Triple.bind (M := fun _ u => u.run = w.run ∧
    u.batches = setBatch b (resultOf w b) w.batches ∧
    ∀ i ∈ w.itemsIn b .confirmed, ∃ j, Checkpoints D {b} w u i.pathLower j)
    (Triple.write ?_) fun _ => ?_
  · rintro v rfl
    exact ⟨trivial, rfl, rfl, fun i hi => checkpoints_of_confirmed hrows hi⟩
  cases push with
  | error e => exact Triple.fail fun _ _ => trivial
  | ok _ =>
    refine Triple.bind (M := fun _ u => u.run = w.run ∧
      u.batches = setBatch b (resultOf w b) w.batches ∧
      ∀ i ∈ w.itemsIn b .confirmed, ∃ j, Checkpoints D {b} w u i.pathLower j)
      (Triple.write fun v hv => ⟨trivial, hv⟩) fun _ => Triple.pure fun v hv => ⟨rfl, hv⟩

/-- `checkpoint` of a batch without a row to record. -/
theorem checkpoint_nothing (h : w.itemsIn b .confirmed = []) (hf : w.itemsIn b .confirmFailed = []) :
    Triple (fun _ _ => True) (fun v => v = w) (checkpoint runId b (.ok ()))
      (fun _ u => u.run = w.run ∧ u.batches = setBatch b .checkpointed w.batches ∧
        u.items = w.items) (fun _ _ => False) := by
  have hitems : updateItems (isConfirmed b) .checkpointed {} w.items = w.items := by
    apply Table.ext
    refine (List.map_congr_left fun i hi => ?_).trans (List.map_id _)
    rw [if_neg]
    · rfl
    · intro hc
      have hmem := (isConfirmed_iff hi).2 hc
      rw [h] at hmem
      cases hmem
  unfold checkpoint
  refine Triple.get_bind fun s hs => ?_
  rw [hs, h, hf]
  refine Triple.bind (M := fun _ u => u.run = w.run ∧
    u.batches = setBatch b .checkpointed w.batches ∧ u.items = w.items) (Triple.write ?_) fun _ =>
      Triple.bind (M := fun _ u => u.run = w.run ∧
        u.batches = setBatch b .checkpointed w.batches ∧ u.items = w.items)
        (Triple.write fun v hv => ⟨trivial, hv⟩) fun _ => Triple.pure fun v hv => hv
  rintro v rfl
  exact ⟨trivial, rfl, rfl, hitems⟩

end Checkpoint

section Batch

/-- The steps before the merge checkpoint nothing. -/
theorem unlanded_of_reach (h : Relation.ReflTransGen (Quiet D S) v u) :
    ∀ i ∈ u.items, i.status = .checkpointed → i ∈ v.items := by
  induction h with
  | refl => exact fun _ hi _ => hi
  | tail _ hstep ih => exact fun i hi hs => ih i (hstep.uncheckpointed i hi hs) hs

theorem itemsIn_eq_nil {s : ItemStatus} (h : tally w.items b s = 0) : w.itemsIn b s = [] :=
  List.length_eq_zero_iff.1 ((length_itemsIn w b s).trans h)

theorem framed {α : Type} {p : Step α} (hp : Frame World.schedule p) :
    Triple (fun _ _ => True) (fun v => v = w) p (fun _ v => v.schedule = w.schedule)
      (fun _ v => v.schedule = w.schedule) :=
  ((hp.triple w.schedule).mono fun _ _ _ => trivial).consequence (fun v hv => by rw [hv])
    (fun _ _ h => h) fun _ _ h => h

/-- Where every file is gone, `fetch` leaves nothing but vanished items. -/
theorem fetch_gone (pool : Pool) {download : BatchItem → Download} (h : AllGone download b w) :
    Triple (fun _ _ => True) (fun v => v = w) (fetch b pool download)
      (fun _ v => v.schedule = w.schedule ∧ (∀ s, s ≠ .vanished → v.itemsIn b s = []) ∧
        ∀ i ∈ v.items, i.status = .checkpointed → i ∈ w.items) (fun _ _ => False) := by
  have hzero : ∀ s, s ≠ .planned → s ≠ .vanished → tally w.items b s = 0 := by
    intro s hp hv
    refine List.countP_eq_zero.2 fun i hi hin => ?_
    simp only [inStatus, Bool.and_eq_true, decide_eq_true_eq] at hin
    rcases h i hi hin.1 with hs | ⟨hs, -⟩
    · exact hv (hin.2 ▸ hs)
    · exact hp (hin.2 ▸ hs)
  refine (((fetch_triple (D := Digests.plain) pool download).reaching.conj
    (fetch_answers pool)).conj (framed (fetch_frame pool download))).consequence (fun _ h => h) ?_
      fun _ _ hE => hE.1.2 h
  rintro f v ⟨⟨⟨⟨-, hflow⟩, hreach⟩, hans⟩, hsched⟩
  refine ⟨hsched, fun s hs => itemsIn_eq_nil ?_, unlanded_of_reach hreach⟩
  have hnone := hans.2 h
  by_cases hp : s = .planned
  · rw [hp]
    exact hflow.source
  by_cases hf : s = .fetched
  · rw [hf, hflow.first, hnone, hzero _ (by decide) (by decide)]
  · rw [hflow.others s hp hf hs, hzero s hp hs]

/-- **An idle batch** goes through, and checkpoints nothing. -/
theorem batchSteps_idle (h : Idle env b w) :
    Triple (fun _ _ => True) (fun v => v = w) (batchSteps D runId b env)
      (fun _ u => u.run = w.run ∧ u.batches = setBatch b .checkpointed w.batches ∧
        ∀ i ∈ u.items, i.status = .checkpointed → i ∈ w.items) (fun _ _ => False) := by
  obtain ⟨htoken, hpush, hgone⟩ := h
  have hfetch : Triple (fun _ _ => True) (fun v => v = w) (fetchWithToken b env)
      (fun _ v => v.schedule = w.schedule ∧ (∀ s, s ≠ .vanished → v.itemsIn b s = []) ∧
        ∀ i ∈ v.items, i.status = .checkpointed → i ∈ w.items) (fun _ _ => False) := by
    unfold fetchWithToken
    rw [htoken]
    exact fetch_gone env.pool hgone
  unfold batchSteps
  rw [hpush]
  refine hfetch.bind fun f => Triple.pre ?_
  rintro v₁ ⟨hs₁, hnone₁, hold₁⟩
  -- nothing is left to verify, so nothing changes until the batch row is written
  refine Triple.bind (((verify_nothing (hnone₁ _ (by decide))).conj
    (framed (verify_frame env.readable))).consequence (fun _ h => h) (fun _ _ h => h)
      fun _ _ h => h.1) fun c => Triple.pre ?_
  rintro v₂ ⟨⟨hi₂, -⟩, hs₂⟩
  have hnone₂ : ∀ s, s ≠ .vanished → v₂.itemsIn b s = [] := by
    intro s hs
    rw [World.itemsIn, World.itemsOf, hi₂]
    exact hnone₁ s hs
  refine (upload_nothing (hnone₂ _ (by decide))).bind fun _ => Triple.pre ?_
  rintro v₃ rfl
  refine (confirm_nothing (hnone₂ _ (by decide))).bind fun _ => Triple.pre ?_
  rintro v₄ rfl
  refine (checkpoint_nothing (hnone₂ _ (by decide)) (hnone₂ _ (by decide))).bind fun _ =>
    Triple.pure ?_
  rintro v ⟨hrun, hbatches, hitems⟩
  obtain ⟨hrun₄, hbatches₄⟩ := schedule_eq (hs₂.trans hs₁)
  refine ⟨hrun.trans hrun₄, by rw [hbatches, hbatches₄], ?_⟩
  rw [hitems, hi₂]
  exact hold₁

/-- The merge of a batch with a verified row records one, or the batch fails. -/
theorem confirmed_ne_nil {n₁ n₂ : ℕ} {x : World}
    (hflow : Flow v.items x.items b .verified .confirmed .confirmFailed n₁ n₂)
    (hpos : tally v.items b .verified ≠ 0) (hres : resultOf x b ≠ .failed) :
    x.itemsIn b .confirmed ≠ [] := by
  intro hnil
  have hzero : tally x.items b .confirmed = 0 := by rw [← length_itemsIn, hnil, List.length_nil]
  have hfirst := hflow.first
  have hsecond := hflow.second
  have htotal := hflow.total
  have hfail : (x.itemsIn b .confirmFailed).length ≠ 0 := by
    rw [length_itemsIn]
    omega
  exact hres (if_pos ⟨hfail, hnil⟩)

/-- **A batch that is not idle** raises, fails, or checkpoints an item. -/
theorem batchSteps_busy (h : ¬ Idle env b w) :
    Triple (fun _ _ => True) (fun v => v = w) (batchSteps D runId b env)
      (fun _ u => u.run = w.run ∧ ∃ s, s ≠ .planned ∧ u.batches = setBatch b s w.batches ∧
        (s ≠ .failed → ∃ x, Relation.ReflTransGen (Link D {b}) w x ∧
          ∃ p j, Checkpoints D {b} x u p j)) (fun _ _ => True) := by
  have link : ∀ {x y : World}, Relation.ReflTransGen (Quiet D {b}) x y →
      Relation.ReflTransGen (Link D {b}) x y :=
    Relation.ReflTransGen.mono (fun _ _ hq => hq.toLink) _ _
  unfold batchSteps fetchWithToken
  cases htoken : env.token with
  | error e =>
    exact Triple.bind (M := fun _ _ => False) (Triple.fail fun _ _ => trivial) fun _ =>
      Triple.pre fun _ hno => hno.elim
  | ok _ =>
    by_cases hgone : AllGone env.download b w
    · -- only the push can be what is not idle
      refine Triple.bind Triple.any fun _ => Triple.bind Triple.any fun _ =>
        Triple.bind Triple.any fun _ => Triple.bind Triple.any fun _ => Triple.pre fun x _ => ?_
      refine (checkpoint_outcome (D := D) env.push).bind fun _ => Triple.pure fun _ hk => ?_
      exact absurd ⟨htoken, hk.1, hgone⟩ h
    -- some file is staged, and the counts carry it through to `confirm`
    · refine Triple.bind (((((fetch_triple (D := D) env.pool env.download).reaching.conj
        (fetch_answers env.pool)).conj (framed (fetch_frame env.pool env.download)))).consequence
        (fun _ h => h) (fun _ _ h => h) fun _ _ _ => trivial) fun f => Triple.pre ?_
      rintro v₁ ⟨⟨⟨⟨-, hflow₁⟩, hreach₁⟩, hans⟩, hs₁⟩
      have hfirst := hflow₁.first
      have hfetched : f.fetched ≠ 0 := fun hz => hgone (hans.1 hz)
      have hsome : v₁.itemsIn b .fetched ≠ [] := by
        rw [← List.length_pos_iff, length_itemsIn]
        omega
      refine Triple.bind (((((verify_triple (D := D) env.readable).reaching.conj
        (verify_something hsome)).conj (framed (verify_frame env.readable)))).consequence
        (fun _ h => h) (fun _ _ h => h) fun _ _ _ => trivial) fun c => Triple.pre ?_
      rintro v₂ ⟨⟨⟨⟨-, hflow₂⟩, hreach₂⟩, hkept⟩, hs₂⟩
      have htotal := hflow₂.total
      have hsecond := hflow₂.first
      rw [length_itemsIn] at hkept
      refine Triple.bind ((((upload_triple (D := D) env.upload).reaching.conj
        (framed (upload_frame env.upload)))).consequence (fun _ h => h) (fun _ _ h => h)
        fun _ _ _ => trivial) fun _ => Triple.pre ?_
      rintro v₃ ⟨⟨⟨-, hitems⟩, hreach₃⟩, hs₃⟩
      refine Triple.bind (((confirm_triple (D := D)).reaching.conj
        (framed confirm_frame)).consequence (fun _ h => h) (fun _ _ h => h)
        fun _ _ _ => trivial) fun k => Triple.pre ?_
      rintro v₄ ⟨⟨⟨-, hflow₄⟩, hreach₄⟩, hs₄⟩
      have hpos : tally v₃.items b .verified ≠ 0 := by
        rw [hitems]
        omega
      -- of the five steps only the checkpoint writes the batch row
      refine (checkpoint_outcome (D := D) env.push).bind fun _ => Triple.pure ?_
      rintro u ⟨-, hrun, hbatches, hland⟩
      obtain ⟨hrun₄, hbatches₄⟩ := schedule_eq (hs₄.trans (hs₃.trans (hs₂.trans hs₁)))
      refine ⟨hrun.trans hrun₄, _, resultOf_ne_planned v₄ b, by rw [hbatches, hbatches₄],
        fun hres => ?_⟩
      obtain ⟨i, hi⟩ := List.exists_mem_of_ne_nil _ (confirmed_ne_nil hflow₄ hpos hres)
      obtain ⟨j, hj⟩ := hland i hi
      exact ⟨v₄, link (((hreach₁.trans hreach₂).trans hreach₃).trans hreach₄), _, j, hj⟩

end Batch

end DropboxMirror
