import DropboxMirror.Lib.Pointwise
import DropboxMirror.Proof.Planned
import DropboxMirror.Proof.Steps

/-!
# Every item is accounted for

Over every history of plans and batch steps, killed or not: items move along `Move`
only, a mirror row changes only with the evidence `verify` found in the staged bytes,
and the counters of five steps that return balance.

* `Reachable`: the histories, newest world first.
* `reachable_ok`: the evidence of every item past `verify` is in the history.
* `batch_items_accounted`: the whole statement.
-/

namespace DropboxMirror

open Text Crash

variable {D : Digests} {S : Set ℕ} {v v' w : World} {past : List World}

/-- A call of one of the five steps. -/
inductive StepCall
  | fetch (b : ℕ) (pool : Pool) (download : BatchItem → Download)
  | verify (b : ℕ) (readable : BatchItem → Bool)
  | upload (b : ℕ) (answer : Except Failure (Option Summary))
  | confirm (b : ℕ)
  | checkpoint (runId b : ℕ) (push : Except Failure Unit)

/-- The worlds a call commits, in order. -/
def StepCall.commits (D : Digests) (w : World) : StepCall → List World
  | .fetch b pool download => (DropboxMirror.fetch b pool download w).states
  | .verify b readable => (DropboxMirror.verify D b readable w).states
  | .upload b answer => (DropboxMirror.upload b answer w).states
  | .confirm b => (DropboxMirror.confirm b w).states
  | .checkpoint runId b push => (DropboxMirror.checkpoint runId b push w).states

/-- **Histories, newest world first.** A plan or a step may be killed after any of its
commits; the other phases leave batches and items alone. -/
inductive Reachable (D : Digests) : List World → Prop
  | start {w : World} (hb : w.batches = Table.empty) (hi : w.items = Table.empty) : Reachable D [w]
  | plan {w : World} {past commits : List World} (h : Reachable D (w :: past)) (budget : Budget)
      (free runId : ℕ) (L : Listing) (Δ : Delta)
      (hpre : commits <+: (planRun budget free runId L Δ w).states) :
      Reachable D (commits.reverse ++ w :: past)
  | step {w : World} {past commits : List World} (h : Reachable D (w :: past)) (c : StepCall)
      (hpre : commits <+: c.commits D w) : Reachable D (commits.reverse ++ w :: past)
  | other {w w' : World} {past : List World} (h : Reachable D (w :: past)) (hb : SameBatches w w')
      (hi : w'.items = w.items) : Reachable D (w' :: w :: past)

/-- Whether an item has been through `verify` with success. -/
def ItemStatus.pastVerify : ItemStatus → Bool
  | .verified | .confirmFailed | .confirmed | .checkpointed => true
  | _ => false

/-- Some world of the history held the item as fetched, and its row matches the bytes
staged there. -/
def Evidenced (D : Digests) (history : List World) (i : BatchItem) : Prop :=
  ∃ u ∈ history, (∃ i₀ ∈ u.items, SameItem i₀ i ∧ i₀.status = .fetched) ∧ VerifiedIn D u i

/-- What holds of the newest world of a history. -/
structure HeadOk (D : Digests) (w : World) (past : List World) : Prop where
  tables : TablesOk w
  evidence : ∀ i ∈ w.items, i.status.pastVerify = true → Evidenced D (w :: past) i

/-- What holds of a history. -/
def HistoryOk (D : Digests) : List World → Prop
  | [] => True
  | w :: past => HeadOk D w past

theorem Evidenced.cons {history : List World} {i : BatchItem} (h : Evidenced D history i) :
    Evidenced D (w :: history) i := by
  obtain ⟨u, hu, hi⟩ := h
  exact ⟨u, List.mem_cons_of_mem _ hu, hi⟩

/-- A move carries the evidence on, or finds it. -/
theorem Evidenced.of_moved {history : List World} {i i' : BatchItem} (hm : Moved D v i i')
    (hi : i ∈ v.items) (hv : v ∈ history)
    (hev : i.status.pastVerify = true → Evidenced D history i)
    (hs : i'.status.pastVerify = true) : Evidenced D history i' := by
  by_cases hver : i'.status = .verified
  · have hmove := hm.move
    rw [hver] at hmove
    refine ⟨v, hv, ⟨i, hi, hm.toSameItem, ?_⟩, hm.evidence hver⟩
    cases hst : i.status <;> rw [hst] at hmove <;> first | rfl | cases hmove
  · have hpast : i.status.pastVerify = true := by
      have hmove := hm.move
      cases hst : i.status <;> cases hst' : i'.status <;> rw [hst, hst'] at hmove <;>
        first | rfl | cases hmove
      all_goals first | exact absurd hst' hver | (rw [hst'] at hs; cases hs)
    obtain ⟨u, hu, ⟨i₀, hi₀, hsame, hf⟩, body, h1, h2, h3, h4, h5⟩ := hev hpast
    obtain ⟨hsha1, hsha256⟩ := hm.digests hver
    refine ⟨u, hu, ⟨i₀, hi₀, ⟨hm.batchId.trans hsame.batchId, hm.pathLower.trans hsame.pathLower,
      hm.pathDisplay.trans hsame.pathDisplay, hm.size.trans hsame.size,
      hm.contentHash.trans hsame.contentHash⟩, hf⟩, body, ?_, ?_, ?_, ?_, ?_⟩
    · rw [hm.pathDisplay]
      exact h1
    · rw [hm.size]
      exact h2
    · rw [hm.contentHash]
      exact h3
    · rw [hsha1]
      exact h4
    · rw [hsha256]
      exact h5

theorem sameItem_of_link {i i' : BatchItem} (h : i' = i ∨ i.batchId ∈ S ∧ Moved D v i i') :
    SameItem i i' := by
  rcases h with rfl | h
  · exact ⟨rfl, rfl, rfl, rfl, rfl⟩
  · exact h.2.toSameItem

/-- Items and batches that keep their identity keep the tables consistent. -/
theorem TablesOk.of_same (hi : List.Forall₂ SameItem v.items.rows v'.items.rows)
    (hb : SameBatches v v') (h : TablesOk v) : TablesOk v' := by
  have hcount : ∀ id, v'.itemCount id = v.itemCount id := by
    intro id
    have hmap := Pointwise.map_eq (f := BatchItem.batchId) (g := BatchItem.batchId) hi
      fun i i' hii => hii.batchId
    have hc : ∀ u : World, u.itemCount id = (u.items.rows.map BatchItem.batchId).countP
        fun n => decide (n = id) := by
      intro u
      rw [List.countP_map]
      rfl
    rw [hc, hc, hmap]
  constructor
  · intro i' hi'
    obtain ⟨i, hmem, hii⟩ := Pointwise.exists_left hi hi'
    obtain ⟨r, hr, hri⟩ := h.ref i hmem
    obtain ⟨r', hr', hrr⟩ := Pointwise.exists_right hb hr
    exact ⟨r', hr', by rw [hrr, hii.batchId, hri]⟩
  · intro r' hr'
    obtain ⟨r, hr, hrr⟩ := Pointwise.exists_left hb hr'
    rw [hrr, hcount]
    exact h.count r hr

/-- Batch steps keep the tables consistent. -/
theorem TablesOk.of_link (hl : Link D S v v') (h : TablesOk v) : TablesOk v' :=
  h.of_same (hl.items.imp fun _ _ hii => sameItem_of_link hii) hl.batches

/-- **One commit of a step keeps the history's property.** -/
theorem HeadOk.of_link (hl : Link D S v v') (h : HeadOk D v past) : HeadOk D v' (v :: past) := by
  refine ⟨h.tables.of_link hl, fun i' hi' hs => ?_⟩
  obtain ⟨i, hi, hii⟩ := Pointwise.exists_left hl.items hi'
  rcases hii with rfl | ⟨-, hm⟩
  · exact (h.evidence i' hi hs).cons
  · exact (Evidenced.of_moved hm hi List.mem_cons_self (h.evidence i hi) hs).cons

/-- One commit of a plan keeps the history's property. -/
theorem HeadOk.of_replanned (hr : Replanned v v') (h : HeadOk D v past) :
    HeadOk D v' (v :: past) := by
  refine ⟨hr.tables h.tables, fun i hi hs => ?_⟩
  rcases hr.items i hi with hi | hp
  · exact (h.evidence i hi hs).cons
  · rw [hp] at hs
    cases hs

/-- What each commit keeps, a run of commits keeps. -/
theorem HistoryOk.of_isChain {R : World → World → Prop}
    (hR : ∀ v v' past, R v v' → HeadOk D v past → HeadOk D v' (v :: past)) {commits : List World}
    (hc : List.IsChain R (w :: commits)) (h : HeadOk D w past) :
    HistoryOk D (commits.reverse ++ w :: past) := by
  induction commits generalizing w past with
  | nil => exact h
  | cons x commits ih =>
    rw [List.isChain_cons_cons] at hc
    have := ih hc.2 (hR w x past hc.1 h)
    rwa [List.reverse_cons, List.append_assoc, List.singleton_append]

/-- The commits of a call are links, and only the first one may change the mirror. -/
theorem StepCall.isChain (c : StepCall) :
    ∃ S, List.IsChain (LinkFrom D S w) (w :: c.commits D w) := by
  cases c with
  | fetch b pool download =>
    exact ⟨_, (fetch_triple pool download w rfl).1.imp fun _ _ h => h.linkFrom⟩
  | verify b readable => exact ⟨_, (verify_triple readable w rfl).1.imp fun _ _ h => h.linkFrom⟩
  | upload b answer => exact ⟨_, (upload_triple answer w rfl).1.imp fun _ _ h => h.linkFrom⟩
  | confirm b => exact ⟨_, (confirm_triple w rfl).1.imp fun _ _ h => h.linkFrom⟩
  | checkpoint runId b push => exact ⟨_, (checkpoint_triple push w rfl).1⟩

theorem isChain_of_prefix {R : World → World → Prop} {commits states : List World}
    (h : List.IsChain R (w :: states)) (hpre : commits <+: states) :
    List.IsChain R (w :: commits) := h.prefix ((List.prefix_cons_inj w).2 hpre)

/-- **Every reachable history has the evidence of its items.** -/
theorem reachable_ok {history : List World} (h : Reachable D history) : HistoryOk D history := by
  induction h with
  | start hb hi =>
    refine ⟨⟨fun i hmem => ?_, fun r hr => ?_⟩, fun i hmem => ?_⟩
    · rw [hi] at hmem
      exact absurd hmem List.not_mem_nil
    · rw [hb] at hr
      exact absurd hr List.not_mem_nil
    · rw [hi] at hmem
      exact absurd hmem List.not_mem_nil
  | @plan w past commits h budget free runId L Δ hpre ih =>
    refine HistoryOk.of_isChain (R := Replanned) (fun v v' past hr hv => hv.of_replanned hr) ?_ ih
    exact isChain_of_prefix
      ((planRun_triple budget free runId L Δ ih.tables w rfl).1.imp fun _ _ h => h.1) hpre
  | @step w past commits h c hpre ih =>
    obtain ⟨S, hchain⟩ := c.isChain (D := D) (w := w)
    refine HistoryOk.of_isChain (R := LinkFrom D S w) (fun v v' past hl hv => hv.of_link hl.toLink) ?_ ih
    exact isChain_of_prefix hchain hpre
  | @other w w' past h hb hi ih =>
    refine ⟨ih.tables.of_same ?_ hb, fun i hmem hs => ?_⟩
    · rw [hi]
      exact List.forall₂_same.2 fun _ _ => ⟨rfl, rfl, rfl, rfl, rfl⟩
    · rw [hi] at hmem
      exact (ih.evidence i hmem hs).cons

/-- The counters of five steps that return. -/
structure Balanced (fileCount : ℕ) (c : BatchCounts) : Prop where
  fileCount : fileCount =
    c.fetch.vanished + c.verify.hashMismatch + c.checkpoint.checkpointed + c.checkpoint.failed
  fetched : c.fetch.fetched = c.verify.verified + c.verify.hashMismatch
  verified : c.verify.verified = c.confirm.confirmed + c.confirm.confirmFailed
  confirmed : c.confirm.confirmed = c.checkpoint.checkpointed
  confirmFailed : c.confirm.confirmFailed = c.checkpoint.failed

/-- **The five steps of a planned batch balance.** -/
theorem batchSteps_triple (runId b : ℕ) (env : BatchEnv) :
    Triple (Link D {b}) (fun v => v = w) (batchSteps D runId b env)
      (fun c _ => (∀ s, s ≠ .planned → tally w.items b s = 0) →
        Balanced (tally w.items b .planned) c) (fun _ _ => True) := by
  have quiet : ∀ u v, Quiet D {b} u v → Link D {b} u v := fun _ _ h => h.toLink
  unfold batchSteps
  refine Triple.bind (M := fun f v =>
    Flow w.items v.items b .planned .fetched .vanished f.fetched f.vanished) ?_ fun f => ?_
  · unfold fetchWithToken
    cases env.token with
    | error e => exact Triple.fail fun _ _ => trivial
    | ok _ =>
      exact ((fetch_triple env.pool env.download).mono quiet).consequence (fun _ h => h)
        (fun _ _ h => h.2) (fun _ _ h => h)
  refine Triple.pre fun v₁ h₁ => ?_
  refine Triple.bind (M := fun c v =>
    Flow v₁.items v.items b .fetched .verified .hashMismatch c.verified c.hashMismatch)
    (((verify_triple env.readable).mono quiet).consequence (fun _ h => h)
      (fun _ _ h => h.2) (fun _ _ h => h)) fun cv => ?_
  refine Triple.pre fun v₂ h₂ => ?_
  refine Triple.bind (M := fun _ v => v.items = v₂.items)
    (((upload_triple env.upload).mono quiet).consequence (fun _ h => h)
      (fun _ _ h => h.2) (fun _ _ h => h)) fun cu => ?_
  refine Triple.pre fun v₃ h₃ => ?_
  refine Triple.bind (M := fun c v =>
    Flow v₃.items v.items b .verified .confirmed .confirmFailed c.confirmed c.confirmFailed)
    ((confirm_triple.mono quiet).consequence (fun _ h => h)
      (fun _ _ h => h.2) (fun _ _ h => h)) fun cc => ?_
  refine Triple.pre fun v₄ h₄ => ?_
  refine Triple.bind (((checkpoint_triple env.push).mono fun _ _ h => h.toLink).consequence
    (fun _ h => h) (fun _ _ h => h) (fun _ _ h => h)) fun ck => Triple.pure ?_
  -- the counts of the five steps, and what was in each status before them
  rintro v ⟨hk₁, hk₂⟩ hplanned
  rw [h₃] at h₄
  have f₁ := h₁.first
  have f₂ := h₂.first
  have f₃ := h₄.first
  have g₃ := h₄.second
  have t₁ := h₁.total
  have t₂ := h₂.total
  have t₃ := h₄.total
  have o₁ := h₁.others
  have o₂ := h₂.others
  have zero := fun s hs => hplanned s hs
  have e₁ : tally w.items b .fetched = 0 := hplanned _ (by decide)
  have e₂ : tally v₁.items b .verified = 0 := by
    rw [o₁ _ (by decide) (by decide) (by decide), hplanned _ (by decide)]
  have e₃ : tally v₂.items b .confirmed = 0 := by
    rw [o₂ _ (by decide) (by decide) (by decide), o₁ _ (by decide) (by decide) (by decide),
      hplanned _ (by decide)]
  have e₄ : tally v₂.items b .confirmFailed = 0 := by
    rw [o₂ _ (by decide) (by decide) (by decide), o₁ _ (by decide) (by decide) (by decide),
      hplanned _ (by decide)]
  constructor <;> dsimp only <;> omega

/-- **One commit of a step, with the evidence in the history.** -/
structure Lawful (D : Digests) (history : List World) (v v' : World) : Prop where
  items : List.Forall₂ (fun i i' => i' = i ∨ Moved D v i i') v.items.rows v'.items.rows
  mirror : ∀ p, v'.mirror.find? p ≠ v.mirror.find? p → ∃ i ∈ v.items, i.pathLower = p ∧
    (∃ i' ∈ v'.items, Moved D v i i' ∧ i'.status = .checkpointed) ∧ Evidenced D history i ∧
    ∃ m, v'.mirror.find? p = some m ∧ MirrorsItem m i

theorem LinkFrom.lawful (hl : LinkFrom D S w v v') (h : HeadOk D w past) :
    Lawful D (w :: past) v v' := by
  refine ⟨hl.items.imp fun _ _ h => h.imp_right And.right, fun p hp => ?_⟩
  rcases hl.mirror p with ⟨i, hi, -, hpath, ⟨i', hi', hm, hs⟩, hrow⟩ | ⟨hsame, -⟩
  · rcases hl.first with heq | rfl
    · rw [heq] at hp
      exact absurd rfl hp
    · refine ⟨i, hi, hpath, ⟨i', hi', hm, hs⟩, h.evidence i hi ?_, hrow⟩
      have hmove := hm.move
      rw [hs] at hmove
      cases hst : i.status <;> rw [hst] at hmove <;> first | rfl | cases hmove
  · exact absurd hsame hp

/-- **Nothing is mirrored without its evidence, and every item is accounted for.** -/
theorem batch_items_accounted (h : Reachable D (w :: past)) :
    (∀ c : StepCall, List.IsChain (Lawful D (w :: past)) (w :: c.commits D w)) ∧
      ∀ r ∈ w.batches, (∀ i ∈ w.items, i.batchId = r.id → i.status = .planned) →
        ∀ runId env c, (batchSteps D runId r.id env).result w = .ok c → Balanced r.fileCount c := by
  have hok : HeadOk D w past := reachable_ok h
  refine ⟨fun c => ?_, ?_⟩
  · obtain ⟨S, hchain⟩ := c.isChain (D := D) (w := w)
    exact hchain.imp fun v v' hl => hl.lawful hok
  intro r hr hplanned runId env c hc
  have hzero : ∀ s, s ≠ .planned → tally w.items r.id s = 0 := by
    intro s hs
    refine List.countP_eq_zero.2 fun i hi hin => ?_
    simp only [inStatus, Bool.and_eq_true, decide_eq_true_eq] at hin
    exact hs (hin.2 ▸ hplanned i hi hin.1)
  have hcount : r.fileCount = tally w.items r.id .planned := by
    rw [hok.tables.count r hr]
    refine List.countP_congr fun i hi => ?_
    simp only [inStatus, Bool.and_eq_true, decide_eq_true_eq]
    exact ⟨fun hid => ⟨hid, hplanned i hi hid⟩, And.left⟩
  rw [hcount]
  exact (batchSteps_triple runId r.id env w rfl).2.1 c hc hzero

section OneFile

/-- A delta with one new file of two bytes. -/
def oneFileDelta : Delta where
  changed := ⟨[⟨1, "/a".toList, "/A".toList, 2, "hi".toList⟩], by decide⟩
  deleted := Table.empty
  listedFiles := 1
  mirroredFiles := 0

/-- Every call of the batch succeeds. -/
def smoothEnv : BatchEnv where
  elapsed := 0
  duration := 1
  token := .ok ()
  pool := ⟨id, fun _ => List.Perm.refl _⟩
  download _ := .served [104, 105]
  readable _ := true
  upload := .ok (some ⟨1, 0, 0, []⟩)
  push := .ok ()

/-- The world the plan of the file leaves. -/
def oneFileWorld : World := (planRun Budget.small 100 1 Table.empty oneFileDelta).final World.initial

/-- The counts of the batch of the file. -/
def oneFileCounts : BatchCounts := ⟨⟨1, 0⟩, ⟨1, 2, 0⟩, ⟨1, 2⟩, ⟨1, 0, 0⟩, ⟨1, 0⟩⟩

theorem reachable_oneFile : Reachable Digests.plain
    [oneFileWorld, insertBatches 1 1 [oneFileDelta.changed.rows] World.initial, World.initial] := by
  have hcommits : [insertBatches 1 1 [oneFileDelta.changed.rows] World.initial, oneFileWorld] <+:
      (planRun Budget.small 100 1 Table.empty oneFileDelta World.initial).states := List.prefix_refl _
  exact Reachable.plan (Reachable.start rfl rfl) Budget.small 100 1 Table.empty oneFileDelta hcommits

/-- A file that goes all the way: the counters balance, and the commits of `fetch` are
lawful. -/
theorem batch_items_accounted_oneFile : Balanced 1 oneFileCounts ∧
    List.IsChain (Lawful Digests.plain
      [oneFileWorld, insertBatches 1 1 [oneFileDelta.changed.rows] World.initial, World.initial])
      (oneFileWorld :: (StepCall.fetch 1 smoothEnv.pool smoothEnv.download).commits Digests.plain
        oneFileWorld) :=
  ⟨(batch_items_accounted reachable_oneFile).2 (batchRow 1 1 1 oneFileDelta.changed.rows)
      (List.mem_singleton.2 rfl) (by decide) 1 smoothEnv oneFileCounts rfl,
    (batch_items_accounted reachable_oneFile).1 _⟩

end OneFile

end DropboxMirror
