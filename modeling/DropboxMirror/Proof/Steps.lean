import DropboxMirror.Lib.Fallible
import DropboxMirror.Proof.Items

/-!
# The five steps, one judgement each

Every commit of `fetch`, `verify`, `upload` and `confirm` is `Quiet`, every commit of
`checkpoint` a `Link`, and a step that returns has moved its rows as its counters say
(`Flow`).

* `fetch_triple`, `verify_triple`, `upload_triple`, `confirm_triple`, `checkpoint_triple`.
-/

namespace DropboxMirror

open Text Crash

variable {D : Digests} {b : ℕ} {v w : World}

/-- The rows of status `s₀` are gone: `n₁` to status `s₁`, `n₂` to status `s₂`. -/
structure Flow (t t' : Table BatchItem.key) (b : ℕ) (s₀ s₁ s₂ : ItemStatus) (n₁ n₂ : ℕ) : Prop where
  source : tally t' b s₀ = 0
  first : tally t' b s₁ = tally t b s₁ + n₁
  second : tally t' b s₂ = tally t b s₂ + n₂
  total : n₁ + n₂ = tally t b s₀
  others : ∀ s, s ≠ s₀ → s ≠ s₁ → s ≠ s₂ → tally t' b s = tally t b s

/-- A step that decides every row of a status between two others. -/
theorem Flow.of_settle {u : BatchItem → Decision} {s₀ s₁ s₂ : ItemStatus} (h₁ : s₁ ≠ s₀)
    (h₂ : s₂ ≠ s₀) (h₁₂ : s₁ ≠ s₂)
    (hu : ∀ i ∈ w.itemsIn b s₀, (u i).status s₀ = s₁ ∨ (u i).status s₀ = s₂) :
    Flow w.items (settle u (w.itemsIn b s₀) w.items) b s₀ s₁ s₂
      ((w.itemsIn b s₀).countP fun i => decide ((u i).status s₀ = s₁))
      ((w.itemsIn b s₀).countP fun i => decide ((u i).status s₀ = s₂)) := by
  have zero : ∀ s, s ≠ s₁ → s ≠ s₂ →
      (w.itemsIn b s₀).countP (fun i => decide ((u i).status s₀ = s)) = 0 := by
    intro s hs₁ hs₂
    refine List.countP_eq_zero.2 fun i hi => ?_
    rcases hu i hi with h | h <;> simp [h, hs₁.symm, hs₂.symm]
  constructor
  · rw [tally_settle, if_pos rfl, zero s₀ h₁.symm h₂.symm]
  · rw [tally_settle, if_neg h₁, Nat.add_comm]
  · rw [tally_settle, if_neg h₂, Nat.add_comm]
  · rw [← length_itemsIn,
      List.length_eq_countP_add_countP (fun i => decide ((u i).status s₀ = s₁))]
    congr 1
    refine List.countP_congr fun i hi => ?_
    rcases hu i hi with h | h
    · simp [h, h₁₂]
    · simp [h, h₁₂.symm]
  · intro s hs₀ hs₁ hs₂
    rw [tally_settle, if_neg hs₀, zero s hs₁ hs₂, Nat.zero_add]

/-- A move that records nothing but a status and details. -/
theorem Moved.of_setStatus {i : BatchItem} {s : ItemStatus} {details : Option Details}
    (hmove : Move i.status s) (hs : s ≠ .verified) :
    Moved D v i (i.setStatus s { details }) where
  batchId := rfl
  pathLower := rfl
  pathDisplay := rfl
  size := rfl
  contentHash := rfl
  move := hmove
  digests _ := ⟨rfl, rfl⟩
  evidence h := absurd h hs

/-- `_set_item` in a loop over rows: the row settles, the commit is `Quiet`. -/
theorem setItem_triple {u : BatchItem → Decision} {done : List BatchItem} {row : BatchItem}
    {s : ItemStatus} {c : ItemColumns} {P : World → Prop} {E : Failure → World → Prop}
    (hrow : row ∈ w.items) (hb : row.batchId = b) (hnew : row ∉ done) (hu : u row = some (s, c))
    (hs : s ≠ .checkpointed) (hmove : ∀ v, P v → Moved D v row (row.setStatus s c))
    (hP : ∀ v t, P v → P { v with items := t }) :
    Triple (Quiet D {b}) (fun v => v.items = settle u done w.items ∧ P v)
      (setItem b row.pathLower s c)
      (fun _ v => v.items = settle u (done ++ [row]) w.items ∧ P v) E := by
  have hkey : (b, row.pathLower) = row.key := by rw [← hb]; rfl
  unfold setItem
  rw [hkey]
  refine Triple.write fun v hv => ⟨?_, ?_, hP _ _ hv.2⟩
  · refine Quiet.of_setItem ?_ hb (hmove v hv.2) hs
    rw [hv.1]
    exact mem_settle_of_not_mem hrow hnew
  · change updateItems _ s c v.items = _
    rw [hv.1]
    exact setItem_settle hrow hnew hu

section Fetch

/-- What `future.result()` is for a row of the pool. -/
theorem futureResult_map {rows : List BatchItem} {landed : BatchItem → Landed} {i : BatchItem}
    (hi : i ∈ rows) : futureResult (rows.map fun r => (r, landed r)) i = landed i := by
  unfold futureResult
  obtain ⟨r, hr⟩ : ∃ r, (rows.map fun r => (r, landed r)).find? (fun r => decide (r.1 = i)) = some r :=
    Option.isSome_iff_exists.1 (List.find?_isSome.2
      ⟨(i, landed i), List.mem_map.2 ⟨i, hi, rfl⟩, decide_eq_true rfl⟩)
  obtain ⟨k, -, rfl⟩ := List.mem_map.1 (List.mem_of_find?_eq_some hr)
  have hk := List.find?_some hr
  obtain rfl : k = i := of_decide_eq_true hk
  rw [hr]
  rfl

theorem mem_of_futureResult {done : List (BatchItem × Landed)} {i : BatchItem} {x : Landed}
    (hx : x ≠ .failed .os) (h : futureResult done i = x) : (i, x) ∈ done := by
  unfold futureResult at h
  cases hf : done.find? fun r => decide (r.1 = i) with
  | none =>
    rw [hf] at h
    exact absurd h.symm hx
  | some r =>
    rw [hf] at h
    have hname := List.find?_some hf
    have hr : r = (i, x) := Prod.ext (of_decide_eq_true hname) h
    rw [← hr]
    exact List.mem_of_find?_eq_some hf

theorem futureResult_of_mem {done : List (BatchItem × Landed)} {i : BatchItem} {x : Landed}
    (hnd : (done.map Prod.fst).Nodup) (h : (i, x) ∈ done) : futureResult done i = x := by
  unfold futureResult
  obtain ⟨r, hr⟩ : ∃ r, done.find? (fun r => decide (r.1 = i)) = some r :=
    Option.isSome_iff_exists.1 (List.find?_isSome.2 ⟨(i, x), h, decide_eq_true rfl⟩)
  have hname := List.find?_some hr
  have hkey : r.1 = i := of_decide_eq_true hname
  obtain rfl : r = (i, x) :=
    List.inj_on_of_nodup_map hnd (List.mem_of_find?_eq_some hr) h hkey
  rw [hr]
  rfl

/-- What `fetch` decides for a row. -/
def fetchDecision (result : BatchItem → Landed) (row : BatchItem) : Decision :=
  match result row with
  | .gone => some (.vanished, { details := some .vanished })
  | .failed _ => none
  | .file => some (.fetched, {})

/-- The loop of `fetch` so far. -/
structure FetchInv (w : World) (result : BatchItem → Landed) (done : List BatchItem)
    (acc : FetchCounts × Option Failure) (v : World) : Prop where
  items : v.items = settle (fetchDecision result) done w.items
  mirror : v.mirror = w.mirror
  fetched : acc.1.fetched =
    done.countP fun i => decide ((fetchDecision result i).status .planned = .fetched)
  vanished : acc.1.vanished =
    done.countP fun i => decide ((fetchDecision result i).status .planned = .vanished)
  error : acc.2 = none → ∀ i ∈ done, fetchDecision result i ≠ none

/-- One more row. -/
theorem FetchInv.snoc {result : BatchItem → Landed} {done : List BatchItem} {row : BatchItem}
    {acc acc' : FetchCounts × Option Failure} (h : FetchInv w result done acc v)
    (hitems : u.items = settle (fetchDecision result) (done ++ [row]) w.items)
    (hmirror : u.mirror = w.mirror)
    (hfetched : acc'.1.fetched =
      acc.1.fetched + if (fetchDecision result row).status .planned = .fetched then 1 else 0)
    (hvanished : acc'.1.vanished =
      acc.1.vanished + if (fetchDecision result row).status .planned = .vanished then 1 else 0)
    (herror : acc'.2 = none → acc.2 = none ∧ fetchDecision result row ≠ none) :
    FetchInv w result (done ++ [row]) acc' u := by
  refine ⟨hitems, hmirror, ?_, ?_, fun hnone i hi => ?_⟩
  · rw [List.countP_append, ← h.fetched, hfetched]
    simp [List.countP_singleton]
  · rw [List.countP_append, ← h.vanished, hvanished]
    simp [List.countP_singleton]
  · rcases List.mem_append.1 hi with hi | hi
    · exact h.error (herror hnone).1 i hi
    · rw [List.mem_singleton.1 hi]
      exact (herror hnone).2

theorem fetchRow_triple {result : BatchItem → Landed} {done : List BatchItem} {row : BatchItem}
    {acc : FetchCounts × Option Failure} {E : Failure → World → Prop}
    (hrow : row ∈ w.itemsIn b .planned) (hnew : row ∉ done) :
    Triple (Quiet D {b}) (FetchInv w result done acc) (fetchRow b result acc row)
      (FetchInv w result (done ++ [row])) E := by
  obtain ⟨hrow, hb, hst⟩ := mem_itemsIn.1 hrow
  refine Triple.pre fun v hv => ?_
  have set (s : ItemStatus) (c : ItemColumns) (hu : fetchDecision result row = some (s, c))
      (hs : s ≠ .checkpointed) (hm : ∀ v, Moved D v row (row.setStatus s c)) :
      Triple (Quiet D {b}) (fun v' => v' = v) (setItem b row.pathLower s c)
        (fun _ v' => v'.items = settle (fetchDecision result) (done ++ [row]) w.items ∧
          v'.mirror = w.mirror) E :=
    (setItem_triple (P := fun v => v.mirror = w.mirror) hrow hb hnew hu hs (fun v _ => hm v)
      (fun _ _ h => h)).consequence (fun v' h => h ▸ ⟨hv.items, hv.mirror⟩) (fun _ _ h => h)
      (fun _ _ h => h)
  unfold fetchRow
  cases hr : result row with
  | gone =>
    have hu : fetchDecision result row = some (.vanished, { details := some .vanished }) := by
      rw [fetchDecision, hr]
    refine (set _ _ hu (by decide)
      fun v => Moved.of_setStatus (hst ▸ Move.vanish) (by decide)).bind fun _ => Triple.pure ?_
    rintro v' ⟨hi, hm⟩
    exact hv.snoc hi hm (by simp [hu, Decision.status]) (by simp [hu, Decision.status])
      fun hn => ⟨hn, by simp [hu]⟩
  | failed e =>
    have hu : fetchDecision result row = none := by rw [fetchDecision, hr]
    refine Triple.pure ?_
    rintro v' rfl
    -- the row is left as it is, and the first error stays
    refine hv.snoc (by rw [settle_skip hu]; exact hv.items) hv.mirror
      (by simp [hu, Decision.status]) (by simp [hu, Decision.status]) fun hn => ?_
    simp only at hn
    cases hacc : acc.2 <;> rw [hacc] at hn <;> cases hn
  | file =>
    have hu : fetchDecision result row = some (.fetched, {}) := by rw [fetchDecision, hr]
    refine (set _ _ hu (by decide)
      fun v => Moved.of_setStatus (hst ▸ Move.fetch) (by decide)).bind fun _ => Triple.pure ?_
    rintro v' ⟨hi, hm⟩
    exact hv.snoc hi hm (by simp [hu, Decision.status]) (by simp [hu, Decision.status])
      fun hn => ⟨hn, by simp [hu]⟩

/-- **`fetch`: the planned rows become `FETCHED` or `VANISHED`.** -/
theorem fetch_triple (pool : Pool) (download : BatchItem → Download) :
    Triple (Quiet D {b}) (fun v => v = w) (fetch b pool download)
      (fun f v => v.mirror = w.mirror ∧
        Flow w.items v.items b .planned .fetched .vanished f.fetched f.vanished)
      (fun _ _ => True) := by
  unfold fetch
  refine Triple.get_bind fun s hs => ?_
  rw [hs]
  dsimp only
  split
  · exact Triple.fail fun _ _ => trivial
  rcases runPool download (pool.order (w.itemsIn b .planned)) Staging.cleared with ⟨done, staged⟩
  dsimp only
  refine Triple.bind (M := fun _ v => v.items = w.items ∧ v.mirror = w.mirror)
    (Triple.write ?_) fun _ => ?_
  · rintro v rfl
    exact ⟨Quiet.of_frame rfl rfl rfl rfl, rfl, rfl⟩
  have loop := Triple.foldlM (R := Quiet D {b}) (f := fetchRow b (futureResult done))
    (E := fun _ _ => True) (FetchInv w (futureResult done)) (w.itemsIn b .planned) (⟨0, 0⟩, none)
    fun before row after hsplit acc => by
      have hnd := nodup_itemsIn w b .planned
      rw [hsplit] at hnd
      refine fetchRow_triple (by rw [hsplit]; simp) fun hmem => ?_
      exact (List.nodup_append.1 hnd).2.2 row hmem row (by simp) rfl
  refine (loop.consequence ?_ (fun _ _ h => h) (fun _ _ h => h)).bind fun ⟨counts, error⟩ => ?_
  · rintro v ⟨hi, hm⟩
    exact ⟨by rw [settle_nil, hi], hm, rfl, rfl, by simp⟩
  dsimp only
  cases error with
  | some e => exact Triple.fail fun _ _ => trivial
  | none =>
    refine Triple.bind (M := fun _ => FetchInv w (futureResult done) (w.itemsIn b .planned)
      (counts, none)) (Triple.write ?_) fun _ => Triple.pure ?_
    · intro v hv
      exact ⟨Quiet.of_frame rfl rfl rfl rfl, hv.items, hv.mirror, hv.fetched, hv.vanished, hv.error⟩
    · intro v hv
      refine ⟨hv.mirror, ?_⟩
      rw [hv.items]
      have hf := hv.fetched
      have hg := hv.vanished
      dsimp only at hf hg
      rw [hf, hg]
      refine Flow.of_settle (by decide) (by decide) (by decide) fun i hi => ?_
      have hne := hv.error rfl i hi
      unfold fetchDecision at hne ⊢
      cases hr : futureResult done i <;> simp [hr, Decision.status] at hne ⊢

end Fetch

section Verify

/-- Whether the bytes are those of the row. -/
def hashesMatch (D : Digests) (body : Bytes) (row : BatchItem) : Prop :=
  (hashFile D body).size = row.size ∧ (hashFile D body).dropboxContentHash = row.contentHash

instance (body : Bytes) (row : BatchItem) : Decidable (hashesMatch D body row) :=
  inferInstanceAs (Decidable (_ ∧ _))

/-- What `verify` decides for a row, by the bytes staged before it. -/
def verifyDecision (D : Digests) (w : World) (row : BatchItem) : Decision :=
  match w.staging.files.get? (localPath row.pathDisplay) with
  | none => some (.hashMismatch, { details := some .contentHash })
  | some body =>
    if hashesMatch D body row then
      some (.verified,
        { sha1 := some (hashFile D body).sha1, sha256 := some (hashFile D body).sha256 })
    else some (.hashMismatch, { details := some .contentHash })

/-- The loop of `verify` so far: files only leave staging. -/
structure VerifyInv (D : Digests) (w : World) (done : List BatchItem) (acc : VerifyCounts)
    (v : World) : Prop where
  items : v.items = settle (verifyDecision D w) done w.items
  mirror : v.mirror = w.mirror
  staging : ∀ path body, v.staging.files.get? path = some body →
    w.staging.files.get? path = some body
  verified : acc.verified =
    done.countP fun i => decide ((verifyDecision D w i).status .fetched = .verified)
  hashMismatch : acc.hashMismatch =
    done.countP fun i => decide ((verifyDecision D w i).status .fetched = .hashMismatch)

theorem get?_unlink {s : Staging} {path p : List Str} {body : Bytes}
    (h : (s.unlink path).files.get? p = some body) : s.files.get? p = some body := by
  rw [Dict.get?, Staging.unlink, Table.find?_filter, Option.map_eq_some_iff] at h
  obtain ⟨e, he, rfl⟩ := h
  rw [Dict.get?, (Option.filter_eq_some_iff.1 he).1, Option.map_some]

/-- One more row. -/
theorem VerifyInv.snoc {done : List BatchItem} {row : BatchItem} {acc acc' : VerifyCounts}
    (h : VerifyInv D w done acc v)
    (hitems : u.items = settle (verifyDecision D w) (done ++ [row]) w.items)
    (hmirror : u.mirror = w.mirror)
    (hstaging : ∀ path body, u.staging.files.get? path = some body →
      w.staging.files.get? path = some body)
    (hverified : acc'.verified =
      acc.verified + if (verifyDecision D w row).status .fetched = .verified then 1 else 0)
    (hmismatch : acc'.hashMismatch =
      acc.hashMismatch + if (verifyDecision D w row).status .fetched = .hashMismatch then 1 else 0) :
    VerifyInv D w (done ++ [row]) acc' u := by
  refine ⟨hitems, hmirror, hstaging, ?_, ?_⟩
  · rw [List.countP_append, ← h.verified, hverified]
    simp [List.countP_singleton]
  · rw [List.countP_append, ← h.hashMismatch, hmismatch]
    simp [List.countP_singleton]

/-- The decision for a row whose staged bytes are its own. -/
theorem verifyDecision_match {body : Bytes} {row : BatchItem}
    (hstaged : w.staging.files.get? (localPath row.pathDisplay) = some body)
    (hmatch : hashesMatch D body row) : verifyDecision D w row = some (.verified,
      { sha1 := some (hashFile D body).sha1, sha256 := some (hashFile D body).sha256 }) := by
  unfold verifyDecision
  rw [hstaged]
  dsimp only
  rw [if_pos hmatch]

/-- The decision for a row whose staged bytes are others. -/
theorem verifyDecision_mismatch {body : Bytes} {row : BatchItem}
    (hstaged : w.staging.files.get? (localPath row.pathDisplay) = some body)
    (hbad : ¬ hashesMatch D body row) :
    verifyDecision D w row = some (.hashMismatch, { details := some .contentHash }) := by
  unfold verifyDecision
  rw [hstaged]
  dsimp only
  rw [if_neg hbad]

theorem verifyRow_triple {readable : BatchItem → Bool} {done : List BatchItem} {row : BatchItem}
    {acc : VerifyCounts} (hrow : row ∈ w.itemsIn b .fetched) (hnew : row ∉ done) :
    Triple (Quiet D {b}) (VerifyInv D w done acc) (verifyRow D b readable acc row)
      (VerifyInv D w (done ++ [row])) (fun _ _ => True) := by
  obtain ⟨hrow, hb, hst⟩ := mem_itemsIn.1 hrow
  unfold verifyRow
  refine Triple.get_bind fun v hv => ?_
  dsimp only
  split
  · rename_i body hbody _
    have hstaged := hv.staging _ _ hbody
    split
    · -- the file leaves staging first, then its row says why
      rename_i hbad
      have hu := verifyDecision_mismatch hstaged fun h : hashesMatch D body row =>
        hbad.elim (fun hsize => hsize h.1) fun hhash => hhash h.2
      refine Triple.bind (M := fun _ => VerifyInv D w done acc) (Triple.write ?_) fun _ => ?_
      · rintro v' rfl
        exact ⟨Quiet.of_frame rfl rfl rfl rfl, hv.items, hv.mirror,
          fun _ _ h => hv.staging _ _ (get?_unlink h), hv.verified, hv.hashMismatch⟩
      refine Triple.bind (M := fun _ v' => v'.items =
          settle (verifyDecision D w) (done ++ [row]) w.items ∧ v'.mirror = w.mirror ∧
          ∀ path body, v'.staging.files.get? path = some body →
            w.staging.files.get? path = some body) ?_ fun _ => Triple.pure ?_
      · exact (setItem_triple (P := fun v' => v'.mirror = w.mirror ∧
            ∀ path body, v'.staging.files.get? path = some body →
              w.staging.files.get? path = some body) hrow hb hnew hu (by decide)
          (fun v' _ => Moved.of_setStatus (hst ▸ Move.mismatch) (by decide))
          (fun _ _ h => h)).consequence (fun v' h => ⟨h.items, h.mirror, h.staging⟩)
          (fun _ _ h => h) (fun _ _ h => h)
      · rintro v' ⟨hi, hm, hs⟩
        exact hv.snoc hi hm hs (by simp [hu, Decision.status]) (by simp [hu, Decision.status])
    · rename_i hgood
      rw [not_or, not_not, not_not] at hgood
      have hmatch : hashesMatch D body row := hgood
      have hu := verifyDecision_match hstaged hmatch
      refine Triple.bind (M := fun _ v' => v'.items =
          settle (verifyDecision D w) (done ++ [row]) w.items ∧ v'.mirror = w.mirror ∧
          v'.staging = v.staging) ?_ fun _ => Triple.pure ?_
      · refine (setItem_triple (P := fun v' => v'.mirror = w.mirror ∧ v'.staging = v.staging) hrow hb
          hnew hu (by decide) (fun v' hv' => ?_) (fun _ _ h => h)).consequence
          (fun v' h => by rw [h]; exact ⟨hv.items, hv.mirror, rfl⟩) (fun _ _ h => h)
          (fun _ _ h => h)
        refine ⟨⟨rfl, rfl, rfl, rfl, rfl⟩, hst ▸ Move.verify, fun h => absurd rfl h, fun _ => ?_⟩
        exact ⟨body, by rw [hv'.2]; exact hbody, hmatch.1, hmatch.2, rfl, rfl⟩
      · rintro v' ⟨hi, hm, hs⟩
        have hstaging : ∀ path body, v'.staging.files.get? path = some body →
            w.staging.files.get? path = some body := by
          rw [hs]
          exact hv.staging
        exact hv.snoc hi hm hstaging (by simp [hu, Decision.status]) (by simp [hu, Decision.status])
  · exact Triple.fail fun _ _ => trivial

/-- **`verify`: the fetched rows become `VERIFIED` or `HASH_MISMATCH`.** -/
theorem verify_triple (readable : BatchItem → Bool) :
    Triple (Quiet D {b}) (fun v => v = w) (verify D b readable)
      (fun c v => v.mirror = w.mirror ∧
        Flow w.items v.items b .fetched .verified .hashMismatch c.verified c.hashMismatch)
      (fun _ _ => True) := by
  unfold verify
  refine Triple.get_bind fun s hs => ?_
  rw [hs]
  dsimp only
  have loop := Triple.foldlM (R := Quiet D {b}) (f := verifyRow D b readable)
    (E := fun _ _ => True) (VerifyInv D w) (w.itemsIn b .fetched) ⟨0, 0, 0⟩
    fun before row after hsplit acc => by
      have hnd := nodup_itemsIn w b .fetched
      rw [hsplit] at hnd
      refine verifyRow_triple (by rw [hsplit]; simp) fun hmem => ?_
      exact (List.nodup_append.1 hnd).2.2 row hmem row (by simp) rfl
  refine (loop.consequence ?_ (fun _ _ h => h) (fun _ _ h => h)).bind fun counts => ?_
  · rintro v rfl
    exact ⟨settle_nil.symm, rfl, fun _ _ h => h, rfl, rfl⟩
  refine Triple.bind (M := fun _ => VerifyInv D w (w.itemsIn b .fetched) counts)
    (Triple.write ?_) fun _ => ?_
  · intro v hv
    refine ⟨Quiet.of_frame rfl rfl rfl rfl, hv.items, hv.mirror, fun p c h => hv.staging p c ?_,
      hv.verified, hv.hashMismatch⟩
    rwa [Staging.pruneEmptyDirs_files] at h
  split
  · exact Triple.fail fun _ _ => trivial
  refine Triple.pure fun v hv => ⟨hv.mirror, ?_⟩
  rw [hv.items, hv.verified, hv.hashMismatch]
  refine Flow.of_settle (by decide) (by decide) (by decide) fun i _ => ?_
  unfold verifyDecision
  split
  · exact Or.inr rfl
  · split
    · exact Or.inl rfl
    · exact Or.inr rfl

end Verify

/-- `upload` touches no row. -/
theorem upload_triple (answer : Except Failure (Option Summary)) :
    Triple (Quiet D {b}) (fun v => v = w) (upload b answer)
      (fun _ v => v.mirror = w.mirror ∧ v.items = w.items) (fun _ _ => True) := by
  unfold upload
  refine Triple.get_bind fun s hs => ?_
  rw [hs]
  dsimp only
  split
  · refine Triple.pure ?_
    rintro v rfl
    exact ⟨rfl, rfl⟩
  · cases answer with
    | error e => exact Triple.fail fun _ _ => trivial
    | ok summary =>
      refine Triple.bind (M := fun _ v => v.mirror = w.mirror ∧ v.items = w.items)
        (Triple.write ?_) fun _ => Triple.pure fun _ h => h
      rintro v rfl
      exact ⟨Quiet.of_frame rfl rfl rfl rfl, rfl, rfl⟩

section Confirm

/-- What `confirm` decides for a verified row under a summary. -/
def confirmDecision (w : World) (b : ℕ) (summary : Summary) (row : BatchItem) : Decision :=
  let rows := w.itemsIn b .verified
  let v := verdict rows w.staging.folders summary
  if v.confirmed then
    match v.errors.get? (baseName row.pathDisplay) with
    | some error => some (.confirmFailed, { details := some (.uploadFailure error) })
    | none => some (.confirmed, {})
  else
    some (.confirmFailed, { details := some (.summaryMismatch rows.length w.staging.folders
      summary.transferredItems summary.skippedItems summary.failedItems) })

/-- What `confirm` leaves, with the report's summary at hand. -/
structure ConfirmPost (w : World) (b : ℕ) (summary : Summary) (c : ConfirmCounts) (v : World) :
    Prop where
  mirror : v.mirror = w.mirror
  items : v.items = settle (confirmDecision w b summary) (w.itemsIn b .verified) w.items
  confirmed : c.confirmed = (w.itemsIn b .verified).countP fun i =>
    decide ((confirmDecision w b summary i).status .verified = .confirmed)
  confirmFailed : c.confirmFailed = (w.itemsIn b .verified).countP fun i =>
    decide ((confirmDecision w b summary i).status .verified = .confirmFailed)

theorem isVerified_iff {i : BatchItem} (hi : i ∈ w.items) :
    i ∈ w.itemsIn b .verified ↔ isVerified b i = true := by
  rw [mem_itemsIn]
  simp [isVerified, hi]

theorem moved_of_isVerified {i : BatchItem} {s : ItemStatus} {details : Option Details}
    (hi : isVerified b i = true) (hmove : Move .verified s) (hs : s ≠ .verified) :
    i.batchId ∈ ({b} : Set ℕ) ∧ Moved D v i (i.setStatus s { details }) := by
  simp only [isVerified, Bool.and_eq_true, decide_eq_true_eq] at hi
  exact ⟨hi.1, Moved.of_setStatus (hi.2 ▸ hmove) hs⟩

theorem failedRows_eq (rows : List BatchItem) (folders : ℕ) (summary : Summary) :
    (verdict rows folders summary).failedRows = rows.filter fun i =>
      ((verdict rows folders summary).errors.get? (baseName i.pathDisplay)).isSome := rfl

theorem mem_failedRows {rows : List BatchItem} {folders : ℕ} {summary : Summary} {i : BatchItem} :
    i ∈ (verdict rows folders summary).failedRows ↔
      i ∈ rows ∧
        ((verdict rows folders summary).errors.get? (baseName i.pathDisplay)).isSome = true :=
  List.mem_filter

/-- A row the verdict names fails with the summary's error, the others are confirmed. -/
theorem confirmDecision_of_confirmed (summary : Summary) {i : BatchItem}
    (hi : i ∈ w.itemsIn b .verified)
    (hconf : (verdict (w.itemsIn b .verified) w.staging.folders summary).confirmed = true) :
    confirmDecision w b summary i =
      if i ∈ (verdict (w.itemsIn b .verified) w.staging.folders summary).failedRows then
        some (.confirmFailed, { details := some (.uploadFailure
          (((verdict (w.itemsIn b .verified) w.staging.folders summary).errors.get?
            (baseName i.pathDisplay)).getD [])) })
      else some (.confirmed, {}) := by
  unfold confirmDecision
  dsimp only
  rw [if_pos hconf]
  split
  · rename_i e he
    rw [if_pos (mem_failedRows.2 ⟨hi, by rw [he]; rfl⟩), he]
    rfl
  · rename_i he
    rw [if_neg]
    intro hm
    have := (mem_failedRows.1 hm).2
    rw [he] at this
    cases this

/-- Every row fails under a summary that does not confirm. -/
theorem confirmDecision_of_not_confirmed {summary : Summary}
    (hconf : ¬ (verdict (w.itemsIn b .verified) w.staging.folders summary).confirmed = true)
    (i : BatchItem) : confirmDecision w b summary i = some (.confirmFailed,
      { details := some (.summaryMismatch (w.itemsIn b .verified).length w.staging.folders
        summary.transferredItems summary.skippedItems summary.failedItems) }) := by
  unfold confirmDecision
  dsimp only
  rw [if_neg hconf]

/-- The bulk update that ends `confirm`. -/
theorem confirmRest_triple {u : BatchItem → Decision} (done : List BatchItem) {s : ItemStatus}
    {details : Option Details} {E : Failure → World → Prop} (hmove : Move .verified s)
    (hs : s ≠ .verified) (hs' : s ≠ .checkpointed) (hsub : ∀ i ∈ done, i ∈ w.itemsIn b .verified)
    (hdone : ∀ i ∈ done, (u i).status .verified ≠ .verified)
    (hrest : ∀ i ∈ w.itemsIn b .verified, i ∉ done → u i = some (s, { details })) :
    Triple (Quiet D {b}) (fun v => v.items = settle u done w.items ∧ v.mirror = w.mirror)
      (Prog.write fun v => v.updateItems (isVerified b) s { details })
      (fun _ v => v.items = settle u (w.itemsIn b .verified) w.items ∧ v.mirror = w.mirror) E := by
  refine Triple.write fun v hv => ⟨?_, ?_, hv.2⟩
  · exact Quiet.of_updateItems (fun i _ hi => moved_of_isVerified hi hmove hs) hs'
  · change updateItems _ s { details } v.items = _
    rw [hv.1]
    refine updateItems_settle (fun i hi => isVerified_iff hi) hsub (fun i hi => ?_) hrest
    have hst := (mem_itemsIn.1 (hsub i hi)).2.2
    have hne := hdone i hi
    rw [← hst] at hne
    rw [isVerified, BatchItem.status_decided, hst]
    simpa using fun _ => hst ▸ hne

theorem confirmDecision_status (summary : Summary) (i : BatchItem) :
    (confirmDecision w b summary i).status .verified = .confirmed ∨
      (confirmDecision w b summary i).status .verified = .confirmFailed := by
  unfold confirmDecision
  dsimp only
  split
  · split
    · exact Or.inr rfl
    · exact Or.inl rfl
  · exact Or.inr rfl

theorem countP_confirmDecision (w : World) (b : ℕ) (summary : Summary) :
    ((w.itemsIn b .verified).countP fun i =>
        decide ((confirmDecision w b summary i).status .verified = .confirmed)) +
      ((w.itemsIn b .verified).countP fun i =>
        decide ((confirmDecision w b summary i).status .verified = .confirmFailed)) =
      (w.itemsIn b .verified).length := by
  rw [length_itemsIn]
  exact (Flow.of_settle (by decide) (by decide) (by decide)
    fun i _ => confirmDecision_status summary i).total

theorem length_failedRows {summary : Summary}
    (hconf : (verdict (w.itemsIn b .verified) w.staging.folders summary).confirmed = true) :
    (verdict (w.itemsIn b .verified) w.staging.folders summary).failedRows.length =
      (w.itemsIn b .verified).countP fun i =>
        decide ((confirmDecision w b summary i).status .verified = .confirmFailed) := by
  rw [failedRows_eq, ← List.countP_eq_length_filter]
  refine List.countP_congr fun i hi => ?_
  rw [confirmDecision_of_confirmed summary hi hconf]
  by_cases hf : i ∈ (verdict (w.itemsIn b .verified) w.staging.folders summary).failedRows
  · have := (mem_failedRows.1 hf).2
    rw [if_pos hf]
    simpa [Decision.status] using this
  · have : ¬ ((verdict (w.itemsIn b .verified) w.staging.folders summary).errors.get?
        (baseName i.pathDisplay)).isSome = true := fun h => hf (mem_failedRows.2 ⟨hi, h⟩)
    rw [if_neg hf]
    simpa [Decision.status] using this

/-- **`confirm` with a summary: the verified rows become `CONFIRMED` or `CONFIRM_FAILED`.** -/
theorem confirm_triple_of_summary {summary : Summary}
    (hsum : w.reports.get? b = some (some summary)) :
    Triple (Quiet D {b}) (fun v => v = w) (confirm b) (ConfirmPost w b summary) (fun _ _ => False) := by
  unfold confirm
  refine Triple.get_bind fun s hs => ?_
  rw [hs, hsum]
  dsimp only
  split
  · rename_i hnil
    refine Triple.pure ?_
    rintro v rfl
    exact ⟨rfl, by rw [hnil, settle_nil], by rw [hnil]; rfl, by rw [hnil]; rfl⟩
  split
  · rename_i hconf
    have hdec : ∀ i ∈ w.itemsIn b .verified, _ := fun i hi =>
      confirmDecision_of_confirmed summary hi hconf
    have hsub : ∀ i ∈ (verdict (w.itemsIn b .verified) w.staging.folders summary).failedRows,
        i ∈ w.itemsIn b .verified := fun i hi => (mem_failedRows.1 hi).1
    -- the named rows first, one commit each
    refine Triple.bind (M := fun _ v => v.items = settle (confirmDecision w b summary)
        (verdict (w.itemsIn b .verified) w.staging.folders summary).failedRows w.items ∧
        v.mirror = w.mirror) ?_ fun _ => ?_
    · refine (Triple.foldlM (R := Quiet D {b}) (E := fun _ _ => False)
        (fun done _ v => v.items = settle (confirmDecision w b summary) done w.items ∧
          v.mirror = w.mirror) _ () fun before row after hsplit _ => ?_).consequence ?_
        (fun _ _ h => h) (fun _ _ h => h)
      · have hmem : row ∈ (verdict (w.itemsIn b .verified) w.staging.folders summary).failedRows := by
          rw [hsplit]; simp
        have hnd : (verdict (w.itemsIn b .verified) w.staging.folders summary).failedRows.Nodup :=
          (nodup_itemsIn w b .verified).filter _
        rw [hsplit] at hnd
        obtain ⟨hrow, hb, hst⟩ := mem_itemsIn.1 (hsub row hmem)
        refine setItem_triple (P := fun v => v.mirror = w.mirror) hrow hb
          (fun h => (List.nodup_append.1 hnd).2.2 row h row (by simp) rfl)
          (by rw [hdec row (hsub row hmem), if_pos hmem]) (by decide)
          (fun v _ => Moved.of_setStatus (hst ▸ Move.confirmFail) (by decide)) (fun _ _ h => h)
      · rintro v rfl
        exact ⟨settle_nil.symm, rfl⟩
    refine Triple.bind (confirmRest_triple _ Move.confirm (by decide) (by decide) hsub
      (fun i hi => ?_) fun i hi hn => ?_) fun _ => Triple.pure ?_
    · rw [hdec i (hsub i hi), if_pos hi]
      simp [Decision.status]
    · rw [hdec i hi, if_neg hn]
    · rintro v ⟨hi, hm⟩
      have hlen := length_failedRows hconf
      have hall := countP_confirmDecision w b summary
      exact ⟨hm, hi, by dsimp only; omega, by dsimp only; omega⟩
  · rename_i hconf
    have hdec : ∀ i, _ := confirmDecision_of_not_confirmed hconf
    refine Triple.bind ((confirmRest_triple (w := w) (u := confirmDecision w b summary) []
      Move.confirmFail (by decide) (by decide) (by simp) (by simp) fun i _ _ => hdec i).consequence
      ?_ (fun _ _ h => h) (fun _ _ h => h)) fun _ => Triple.pure ?_
    · rintro v rfl
      exact ⟨settle_nil.symm, rfl⟩
    · rintro v ⟨hi, hm⟩
      refine ⟨hm, hi, (List.countP_eq_zero.2 fun i _ => ?_).symm,
        (List.countP_eq_length.2 fun i _ => ?_).symm⟩
      · simp [hdec i, Decision.status]
      · simp [hdec i, Decision.status]

/-- **`confirm`: what a return says.** -/
theorem confirm_triple :
    Triple (Quiet D {b}) (fun v => v = w) (confirm b)
      (fun c v => v.mirror = w.mirror ∧
        Flow w.items v.items b .verified .confirmed .confirmFailed c.confirmed c.confirmFailed)
      (fun _ _ => True) := by
  rcases hsum : w.reports.get? b with _ | _ | summary
  case some.some =>
    refine (confirm_triple_of_summary hsum).consequence (fun _ h => h) (fun c v h => ⟨h.mirror, ?_⟩)
      (fun _ _ h => h.elim)
    rw [h.items, h.confirmed, h.confirmFailed]
    exact Flow.of_settle (by decide) (by decide) (by decide) fun i _ => confirmDecision_status _ _
  all_goals
    unfold confirm
    refine Triple.get_bind fun s hs => ?_
    rw [hs, hsum]
    dsimp only
    split
    · rename_i hnil
      refine Triple.pure ?_
      rintro v rfl
      refine ⟨rfl, ?_⟩
      have hflow : Flow v.items (settle _ (v.itemsIn b .verified) v.items) b .verified .confirmed
          .confirmFailed _ _ :=
        Flow.of_settle (u := fun _ => some (.confirmed, {})) (by decide) (by decide) (by decide)
          fun _ _ => Or.inl rfl
      rwa [hnil, settle_nil] at hflow
    · exact Triple.fail fun _ _ => trivial

end Confirm

section Checkpoint

variable {runId : ℕ}

theorem mirrorRow_ok {i : BatchItem} {m : MirrorObject} (h : mirrorRow runId i = .ok m) :
    MirrorsItem m i := by
  unfold mirrorRow at h
  split at h
  · rename_i h1 h2
    cases h
    exact ⟨rfl, rfl, rfl, rfl, h1.symm, h2.symm⟩
  · cases h

/-- The merged rows have the items' paths, which are distinct in one batch. -/
theorem nodup_mirrorRows {rows : List MirrorObject}
    (h : (w.itemsIn b .confirmed).mapM (mirrorRow runId) = .ok rows) :
    (rows.map MirrorObject.pathLower).Nodup := by
  have hpaths : rows.map MirrorObject.pathLower =
      (w.itemsIn b .confirmed).map BatchItem.pathLower :=
    Fallible.mapM_ok_map h fun _ _ hx => (mirrorRow_ok hx).pathLower
  rw [hpaths]
  refine List.Nodup.map_on (fun i hi j hj hij => ?_) (nodup_itemsIn w b .confirmed)
  obtain ⟨hi, hib, -⟩ := mem_itemsIn.1 hi
  obtain ⟨hj, hjb, -⟩ := mem_itemsIn.1 hj
  exact Table.eq_of_key_eq hi hj (by rw [BatchItem.key, BatchItem.key, hib, hjb, hij])

/-- The mirror row of a confirmed item, new or merged into the old one. -/
theorem find?_mergeConfirmed {rows : List MirrorObject} {i : BatchItem}
    (h : (w.itemsIn b .confirmed).mapM (mirrorRow runId) = .ok rows)
    (hi : i ∈ w.itemsIn b .confirmed) :
    ∃ m, (mergeConfirmed w.mirror rows).find? i.pathLower = some m ∧ MirrorsItem m i := by
  obtain ⟨m, hm, him⟩ := Fallible.ok_of_mem_mapM_ok h hi
  have hrow := mirrorRow_ok him
  have hfind := Table.find?_foldl_upsert (m := mergeMirror) (t := w.mirror) (nodup_mirrorRows h) hm
  rw [hrow.pathLower] at hfind
  refine ⟨_, hfind, ?_⟩
  cases w.mirror.find? i.pathLower with
  | none => exact hrow
  | some old =>
    -- the merge keeps the old UID only
    exact ⟨hrow.pathLower, hrow.pathDisplay, hrow.size, hrow.contentHash, hrow.sha1, hrow.sha256⟩

/-- The other rows of the mirror stay. -/
theorem find?_mergeConfirmed_of_ne {rows : List MirrorObject} {p : Str}
    (h : (w.itemsIn b .confirmed).mapM (mirrorRow runId) = .ok rows)
    (hp : ∀ i ∈ w.itemsIn b .confirmed, i.pathLower ≠ p) :
    (mergeConfirmed w.mirror rows).find? p = w.mirror.find? p := by
  refine Table.find?_foldl_upsert_of_ne fun m hm hk => ?_
  obtain ⟨i, hi, him⟩ := (Fallible.mem_of_mapM_ok h).1 hm
  exact hp i hi (by rw [← (mirrorRow_ok him).pathLower, hk])

theorem isConfirmed_iff {i : BatchItem} (hi : i ∈ w.items) :
    i ∈ w.itemsIn b .confirmed ↔ isConfirmed b i = true := by
  rw [mem_itemsIn]
  simp [isConfirmed, hi]

/-- **The transaction of `checkpoint` mirrors exactly the items it checkpoints.** -/
theorem checkpointed_link {rows : List MirrorObject} {status : BatchStatus}
    (h : (w.itemsIn b .confirmed).mapM (mirrorRow runId) = .ok rows) :
    Link D {b} w (w.checkpointed b rows status) := by
  have hmoved : ∀ i ∈ w.items, isConfirmed b i = true →
      i.batchId ∈ ({b} : Set ℕ) ∧ Moved D w i (i.setStatus .checkpointed {}) := by
    intro i _ hi
    simp only [isConfirmed, Bool.and_eq_true, decide_eq_true_eq] at hi
    exact ⟨hi.1, Moved.of_setStatus (hi.2 ▸ Move.checkpoint) (by decide)⟩
  refine ⟨?_, fun p => ?_, SameBatches.of_setBatch rfl, rfl⟩
  · refine List.forall₂_map_right_iff.2 (List.forall₂_same.2 fun i hi => ?_)
    split
    · rename_i hc
      exact Or.inr (hmoved i hi hc)
    · exact Or.inl rfl
  · by_cases hp : ∃ i ∈ w.itemsIn b .confirmed, i.pathLower = p
    · obtain ⟨i, hi, rfl⟩ := hp
      have hi' := (mem_itemsIn.1 hi).1
      have hc := (isConfirmed_iff hi').1 hi
      exact Or.inl ⟨i, hi', (hmoved i hi' hc).1, rfl,
        ⟨i.setStatus .checkpointed {}, mem_updateItems.2 ⟨i, hi', if_pos hc⟩, (hmoved i hi' hc).2, rfl⟩,
        find?_mergeConfirmed h hi⟩
    · -- no confirmed item has the path
      refine Or.inr ⟨find?_mergeConfirmed_of_ne h fun i hi hpath => hp ⟨i, hi, hpath⟩, ?_⟩
      intro i' hi' hpath hst
      obtain ⟨i, hi, rfl⟩ := mem_updateItems.1 hi'
      split at hpath
      · rename_i hc
        exact absurd ⟨i, (isConfirmed_iff hi).2 hc, hpath⟩ hp
      · rename_i hc
        rw [if_neg hc]
        exact hi

/-- A commit of a step that began in `w`: only its first one may change the mirror. -/
structure LinkFrom (D : Digests) (S : Set ℕ) (w v v' : World) : Prop extends Link D S v v' where
  first : v'.mirror = v.mirror ∨ v = w

theorem Quiet.linkFrom {v' : World} (h : Quiet D {b} v v') : LinkFrom D {b} w v v' :=
  ⟨h.toLink, Or.inl h.sameMirror⟩

/-- **`checkpoint`: what a return says.** -/
theorem checkpoint_triple (push : Except Failure Unit) :
    Triple (LinkFrom D {b} w) (fun v => v = w) (checkpoint runId b push)
      (fun c _ => c.checkpointed = tally w.items b .confirmed ∧
        c.failed = tally w.items b .confirmFailed) (fun _ _ => True) := by
  unfold checkpoint
  refine Triple.get_bind fun s hs => ?_
  rw [hs]
  dsimp only
  split
  · exact Triple.fail fun _ _ => trivial
  · rename_i rows hrows
    refine Triple.bind (M := fun _ _ => True) (Triple.write ?_) fun _ => ?_
    · rintro v rfl
      exact ⟨⟨checkpointed_link hrows, Or.inr rfl⟩, trivial⟩
    cases push with
    | error e => exact Triple.fail fun _ _ => trivial
    | ok _ =>
      refine Triple.bind (M := fun _ _ => True) (Triple.write fun v _ => ?_) fun _ =>
        Triple.pure fun v _ => ⟨length_itemsIn w b .confirmed, length_itemsIn w b .confirmFailed⟩
      have hclear : Quiet D {b} v { v with staging := Staging.cleared } := Quiet.of_frame rfl rfl rfl rfl
      exact ⟨hclear.linkFrom, trivial⟩

end Checkpoint

end DropboxMirror
