import DropboxMirror.Proof.Confirm

/-!
# When the verdict of `confirm` is written whole

`confirm` opens one transaction for its verdict, but `_set_item` opens its own in it and
commits the row it writes. So a run that has named rows to fail commits them one by one
before the update of the others (`confirm_settles`), and a run that ends in between
leaves a part of the verdict. That takes a summary that confirms, a failure that names a
row, and another verified row: exactly then a committed state is torn
(`confirm_whole_iff`).
-/

namespace DropboxMirror

open Text Crash

variable {b : ℕ} {w v : World} {summary : Summary} {r : BatchItem}

/-- The status a table has for a row. -/
def World.statusOf (v : World) (r : BatchItem) : Option ItemStatus :=
  (v.items.find? r.key).map BatchItem.status

/-- **The complete verdict** on the verified rows: the named ones failed and the others are
confirmed, or all failed. -/
def CompleteVerdict (w : World) (b : ℕ) (v : World) : Prop :=
  (∃ summary, w.reports.get? b = some (some summary) ∧ ∀ r ∈ w.itemsIn b .verified,
    (v.statusOf r = some .confirmFailed ∧ ∃ f ∈ summary.objects, f.names r) ∨
      v.statusOf r = some .confirmed ∧ ∀ f ∈ summary.objects, ¬ f.names r) ∨
  ∀ r ∈ w.itemsIn b .verified, v.statusOf r = some .confirmFailed

/-- The items are as they were, or carry the complete verdict; the items that are not
verified stay. -/
structure WrittenWhole (w : World) (b : ℕ) (v : World) : Prop where
  whole : (∀ r ∈ w.itemsIn b .verified, v.items.find? r.key = some r) ∨ CompleteVerdict w b v
  others : ∀ i ∈ w.items, i ∉ w.itemsIn b .verified → i ∈ v.items

/-- **The kind of input whose verdict is torn**: two verified rows or more, and a summary that
accounts for them, with as many failures as it counts, each of which names a verified row
if it has a name, and one of which does. -/
structure Tears (w : World) (b : ℕ) (summary : Summary) : Prop where
  several : 2 ≤ (w.itemsIn b .verified).length
  accounted : summary.transferredItems + summary.skippedItems + summary.failedItems =
    (w.itemsIn b .verified).length + w.staging.folders
  counted : summary.failedItems = summary.objects.length
  known : ∀ f ∈ summary.objects, ¬ f.nameless → ∃ r ∈ w.itemsIn b .verified, f.names r
  named : ∃ f ∈ summary.objects, ∃ r ∈ w.itemsIn b .verified, f.names r

section Settled

variable {u : BatchItem → Decision} {done : List BatchItem}

/-- What the table has for a row after some rows were decided. -/
theorem find?_settle (hr : r ∈ w.items) :
    (settle u done w.items).find? r.key = some (if r ∈ done then r.decided (u r) else r) := by
  refine Table.find?_eq_some.2 ⟨mem_settle.2 ⟨r, hr, rfl⟩, ?_⟩
  split <;> simp

theorem statusOf_settle (hv : v.items = settle u done w.items) (hr : r ∈ w.items) (hd : r ∈ done) :
    v.statusOf r = some ((u r).status r.status) := by
  unfold World.statusOf
  rw [hv, find?_settle hr, if_pos hd, Option.map_some, BatchItem.status_decided]

theorem settle_congr {t : Table BatchItem.key} {rows : List BatchItem}
    (h : ∀ i, i ∈ done ↔ i ∈ rows) : settle u done t = settle u rows t := by
  apply Table.ext
  refine List.map_congr_left fun i _ => ?_
  simp only [h i]

theorem others_settle (hv : v.items = settle u done w.items)
    (hdone : ∀ i ∈ done, i ∈ w.itemsIn b .verified) :
    ∀ i ∈ w.items, i ∉ w.itemsIn b .verified → i ∈ v.items := by
  intro i hi hn
  rw [hv]
  exact mem_settle_of_not_mem hi fun hd => hn (hdone i hd)

end Settled

section Commits

/-- The rows a failure names are those `confirm` fails. -/
theorem mem_failedRows_iff {rows : List BatchItem} {folders : ℕ} :
    r ∈ (verdict rows folders summary).failedRows ↔ r ∈ rows ∧ ∃ f ∈ summary.objects, f.names r :=
  mem_failedRows.trans (and_congr_right fun _ => isSome_summaryErrors_row)

/-- The rows settled at a commit of a run that confirms: some of the named ones, or all. -/
def Settling (w : World) (b : ℕ) (summary : Summary) (v : World) : Prop :=
  ∃ done, (done ≠ [] ∧ (∀ i ∈ done, i ∈ w.itemsIn b .verified ∧ ∃ f ∈ summary.objects, f.names i) ∨
    done = w.itemsIn b .verified) ∧ v.items = settle (confirmDecision w b summary) done w.items

/-- One named row, after others. -/
theorem setItem_settling {done : List BatchItem} {row : BatchItem}
    (hdone : ∀ i ∈ done, i ∈ w.itemsIn b .verified ∧ ∃ f ∈ summary.objects, f.names i)
    (hrow : row ∈ w.itemsIn b .verified ∧ ∃ f ∈ summary.objects, f.names row) (hnew : row ∉ done)
    {s : ItemStatus} {c : ItemColumns} (hu : confirmDecision w b summary row = some (s, c)) :
    Triple (fun _ v => Settling w b summary v)
      (fun v => v.items = settle (confirmDecision w b summary) done w.items)
      (setItem b row.pathLower s c)
      (fun _ v => v.items = settle (confirmDecision w b summary) (done ++ [row]) w.items)
      (fun _ _ => False) := by
  obtain ⟨hmem, hb, -⟩ := mem_itemsIn.1 hrow.1
  have hkey : (b, row.pathLower) = row.key := by rw [← hb]; rfl
  unfold setItem
  rw [hkey]
  refine Triple.write fun v hv => ?_
  have hitems : (v.updateItems (fun i => decide (i.key = row.key)) s c).items =
      settle (confirmDecision w b summary) (done ++ [row]) w.items := by
    change updateItems _ s c v.items = _
    rw [hv]
    exact setItem_settle hmem hnew hu
  refine ⟨⟨done ++ [row], Or.inl ⟨by simp, fun i hi => ?_⟩, hitems⟩, hitems⟩
  rcases List.mem_append.1 hi with hi | hi
  · exact hdone i hi
  · rw [List.mem_singleton.1 hi]
    exact hrow

/-- **The commits of a run that confirms**: named rows one by one, then all that are left. -/
theorem confirm_settling (hsum : w.reports.get? b = some (some summary))
    (hconf : (verdict (w.itemsIn b .verified) w.staging.folders summary).confirmed = true) :
    ∀ v ∈ (confirm b w).states, Settling w b summary v := by
  have triple : Triple (fun _ v => Settling w b summary v) (fun v => v = w) (confirm b)
      (fun _ _ => True) (fun _ _ => False) := by
    unfold confirm
    refine Triple.get_bind fun s hs => ?_
    rw [hs, hsum]
    dsimp only
    split
    · exact Triple.pure fun _ _ => trivial
    have hdec : ∀ i ∈ w.itemsIn b .verified, _ := fun i hi =>
      confirmDecision_of_confirmed summary hi hconf
    refine Triple.bind (M := fun _ v => v.items = settle (confirmDecision w b summary)
        (verdict (w.itemsIn b .verified) w.staging.folders summary).failedRows w.items) ?_ fun _ => ?_
    · refine (Triple.foldlM (fun done _ v =>
          v.items = settle (confirmDecision w b summary) done w.items) _ ()
        fun before row after hsplit _ => ?_).consequence ?_ (fun _ _ h => h) (fun _ _ h => h)
      · have hmem : ∀ i ∈ before ++ [row], i ∈ w.itemsIn b .verified ∧
            ∃ f ∈ summary.objects, f.names i := by
          intro i hi
          have h : i ∈ (verdict (w.itemsIn b .verified) w.staging.folders summary).failedRows := by
            rw [hsplit, ← List.singleton_append, ← List.append_assoc]
            exact List.mem_append_left _ hi
          exact mem_failedRows_iff.1 h
        have hrow := hmem row (by simp)
        have hnd : (verdict (w.itemsIn b .verified) w.staging.folders summary).failedRows.Nodup :=
          (nodup_itemsIn w b .verified).filter _
        rw [hsplit] at hnd
        refine setItem_settling (fun i hi => hmem i (List.mem_append_left _ hi)) hrow
          (fun h => (List.nodup_append.1 hnd).2.2 row h row (by simp) rfl) ?_
        rw [hdec row hrow.1, if_pos (mem_failedRows_iff.2 hrow)]
      · rintro v rfl
        exact settle_nil.symm
    -- the bulk update settles the rows that no failure names
    refine Triple.bind (M := fun _ _ => True) (Triple.write fun v hv => ⟨?_, trivial⟩)
      fun _ => Triple.pure fun _ _ => trivial
    refine ⟨_, Or.inr rfl, ?_⟩
    change updateItems _ .confirmed {} v.items = _
    rw [hv]
    refine updateItems_settle (fun i hi => isVerified_iff hi) (fun i hi => (mem_failedRows.1 hi).1)
      (fun i hi => ?_) fun i hi hn => ?_
    · have hrow := (mem_failedRows.1 hi).1
      rw [isVerified, BatchItem.status_decided, hdec i hrow, if_pos hi]
      simp [Decision.status]
    · rw [hdec i hi, if_neg hn]
  exact triple.states rfl

/-- A run that does not confirm commits once. -/
theorem confirm_once (hsum : w.reports.get? b = some (some summary))
    (hconf : ¬ (verdict (w.itemsIn b .verified) w.staging.folders summary).confirmed = true) :
    ∀ v ∈ (confirm b w).states,
      v.items = settle (confirmDecision w b summary) (w.itemsIn b .verified) w.items := by
  have triple : Triple (fun _ v => v.items =
      settle (confirmDecision w b summary) (w.itemsIn b .verified) w.items) (fun v => v = w) (confirm b)
      (fun _ _ => True) (fun _ _ => False) := by
    unfold confirm
    refine Triple.get_bind fun s hs => ?_
    rw [hs, hsum]
    dsimp only
    split
    · exact Triple.pure fun _ _ => trivial
    refine Triple.bind (M := fun _ _ => True) (Triple.write fun v hv => ⟨?_, trivial⟩)
      fun _ => Triple.pure fun _ _ => trivial
    subst hv
    change updateItems _ _ _ v.items = _
    have h : updateItems (isVerified b) _ _ (settle (confirmDecision v b summary) [] v.items) = _ :=
      updateItems_settle (fun i hi => isVerified_iff hi) (by simp) (by simp)
        fun i _ _ => confirmDecision_of_not_confirmed hconf i
    rwa [settle_nil] at h
  exact triple.states rfl

end Commits

section Whole

/-- Once every verified row is decided, the verdict is complete. -/
theorem whole_of_settled (hsum : w.reports.get? b = some (some summary))
    (hv : v.items = settle (confirmDecision w b summary) (w.itemsIn b .verified) w.items) :
    WrittenWhole w b v := by
  refine ⟨Or.inr ?_, others_settle hv fun _ hi => hi⟩
  have hst : ∀ r ∈ w.itemsIn b .verified,
      v.statusOf r = some ((confirmDecision w b summary r).status r.status) := fun r hr =>
    statusOf_settle hv (mem_itemsIn.1 hr).1 hr
  by_cases hconf : (verdict (w.itemsIn b .verified) w.staging.folders summary).confirmed = true
  · refine Or.inl ⟨summary, hsum, fun r hr => ?_⟩
    rw [hst r hr, confirmDecision_of_confirmed summary hr hconf]
    by_cases hf : r ∈ (verdict (w.itemsIn b .verified) w.staging.folders summary).failedRows
    · rw [if_pos hf]
      exact Or.inl ⟨rfl, (mem_failedRows_iff.1 hf).2⟩
    · rw [if_neg hf]
      exact Or.inr ⟨rfl, fun f hobj hn => hf (mem_failedRows_iff.2 ⟨hr, f, hobj, hn⟩)⟩
  · refine Or.inr fun r hr => ?_
    rw [hst r hr, confirmDecision_of_not_confirmed hconf]
    rfl

/-- A commit that settles one of several rows is torn. -/
theorem not_whole_of_settled {row other : BatchItem}
    (hv : v.items = settle (confirmDecision w b summary) [row] w.items)
    (hrow : row ∈ w.itemsIn b .verified) (hother : other ∈ w.itemsIn b .verified)
    (hne : other ≠ row) : ¬ WrittenWhole w b v := by
  rintro ⟨hbefore | hcomplete, -⟩
  · -- the row is not as it was
    have h := hbefore row hrow
    obtain ⟨hmem, -, hst⟩ := mem_itemsIn.1 hrow
    rw [hv, find?_settle hmem, if_pos (List.mem_singleton.2 rfl)] at h
    have hstatus := congrArg BatchItem.status (Option.some.inj h)
    rw [BatchItem.status_decided, hst] at hstatus
    rcases confirmDecision_status (w := w) (b := b) summary row with h | h <;>
      rw [h] at hstatus <;> cases hstatus
  · -- the other one has no verdict
    obtain ⟨hmem, -, hst⟩ := mem_itemsIn.1 hother
    have hfind : v.statusOf other = some .verified := by
      unfold World.statusOf
      rw [hv, find?_settle hmem, if_neg (by simpa using hne), Option.map_some, hst]
    rcases hcomplete with ⟨_, -, hall⟩ | hall
    · rcases hall other hother with ⟨h, -⟩ | ⟨h, -⟩ <;> rw [hfind] at h <;> cases h
    · have h := hall other hother
      rw [hfind] at h
      cases h

/-- The first commit of a run that confirms and has a named row. -/
theorem exists_first_commit (hsum : w.reports.get? b = some (some summary))
    (hconf : (verdict (w.itemsIn b .verified) w.staging.folders summary).confirmed = true)
    (hnamed : ∃ f ∈ summary.objects, ∃ r ∈ w.itemsIn b .verified, f.names r) :
    ∃ v ∈ (confirm b w).states, ∃ row ∈ w.itemsIn b .verified,
      v.items = settle (confirmDecision w b summary) [row] w.items := by
  obtain ⟨f, hf, r, hr, hfr⟩ := hnamed
  have hne : (verdict (w.itemsIn b .verified) w.staging.folders summary).failedRows ≠ [] :=
    List.ne_nil_of_mem (mem_failedRows_iff.2 ⟨hr, f, hf, hfr⟩)
  obtain ⟨row, rest, hrows⟩ := List.exists_cons_of_ne_nil hne
  have hrow : row ∈ (verdict (w.itemsIn b .verified) w.staging.folders summary).failedRows := by
    rw [hrows]
    exact List.mem_cons_self
  have hmem := (mem_failedRows.1 hrow).1
  have hnil : w.itemsIn b .verified ≠ [] := List.ne_nil_of_mem hmem
  obtain ⟨hitem, hb, -⟩ := mem_itemsIn.1 hmem
  -- the first commit is the update of the first failed row
  refine ⟨w.updateItems (fun i => decide (i.key = (b, row.pathLower))) .confirmFailed
    { details := some (.uploadFailure (((verdict (w.itemsIn b .verified) w.staging.folders
      summary).errors.get? (baseName row.pathDisplay)).getD [])) }, ?_, row, hmem, ?_⟩
  · unfold confirm
    rw [Prog.get_bind]
    dsimp only
    rw [if_neg hnil, hsum]
    dsimp only
    rw [if_pos hconf, hrows, List.foldlM_cons]
    exact Prog.mem_states_bind (Prog.mem_states_bind List.mem_cons_self)
  · have hkey : (b, row.pathLower) = row.key := by rw [← hb]; rfl
    have hdec := confirmDecision_of_confirmed summary hmem hconf
    rw [if_pos hrow] at hdec
    have h : updateItems _ _ _ (settle (confirmDecision w b summary) [] w.items) = _ :=
      setItem_settle hitem List.not_mem_nil hdec
    rw [settle_nil, List.nil_append] at h
    rw [hkey]
    exact h

/-- A run that commits has a summary. -/
theorem summary_of_commit (hv : v ∈ (confirm b w).states) :
    ∃ summary, w.reports.get? b = some (some summary) := by
  unfold confirm at hv
  rw [Prog.get_bind] at hv
  dsimp only at hv
  split at hv
  · cases hv
  · cases hsum : w.reports.get? b with
    | none =>
      rw [hsum] at hv
      cases hv
    | some report =>
      cases report with
      | none =>
        rw [hsum] at hv
        cases hv
      | some summary => exact ⟨summary, rfl⟩

/-- **The verdict is written whole except on the inputs that tear it.** -/
theorem confirm_whole_iff (w : World) (b : ℕ) :
    (∀ v ∈ (confirm b w).states, WrittenWhole w b v) ↔
      ¬ ∃ summary, w.reports.get? b = some (some summary) ∧ Tears w b summary := by
  constructor
  · rintro hwhole ⟨summary, hsum, htears⟩
    have hconf := verdict_confirmed.2 ⟨⟨htears.accounted, htears.counted⟩, htears.known⟩
    obtain ⟨v, hv, row, hrow, hitems⟩ := exists_first_commit hsum hconf htears.named
    -- there are two rows or more, and the first commit writes one of them
    obtain ⟨other, hother, hne⟩ : ∃ other ∈ w.itemsIn b .verified, other ≠ row := by
      by_contra hall
      push Not at hall
      have hrep := List.eq_replicate_of_mem hall
      have hnd := nodup_itemsIn w b .verified
      rw [hrep, List.nodup_replicate] at hnd
      have := htears.several
      omega
    exact not_whole_of_settled hitems hrow hother hne (hwhole v hv)
  · intro hno v hv
    obtain ⟨summary, hsum⟩ := summary_of_commit hv
    by_cases hconf : (verdict (w.itemsIn b .verified) w.staging.folders summary).confirmed = true
    · obtain ⟨done, hdone, hitems⟩ := confirm_settling hsum hconf v hv
      rcases hdone with ⟨hne, hdone⟩ | rfl
      · -- the row settled is the only one
        obtain ⟨x, hx⟩ := List.exists_mem_of_ne_nil _ hne
        obtain ⟨hxr, f, hf, hfx⟩ := hdone x hx
        obtain ⟨⟨hacc, hcount⟩, hknown⟩ := verdict_confirmed.1 hconf
        have hone : ¬ 2 ≤ (w.itemsIn b .verified).length := fun hlen =>
          hno ⟨summary, hsum, hlen, hacc, hcount, hknown, f, hf, x, hxr, hfx⟩
        have hlen : (w.itemsIn b .verified).length = 1 := by
          have := List.length_pos_of_mem hxr
          omega
        obtain ⟨y, hy⟩ := List.length_eq_one_iff.1 hlen
        refine whole_of_settled hsum (hitems.trans (settle_congr fun i => ?_))
        refine ⟨fun hi => (hdone i hi).1, fun hi => ?_⟩
        rw [hy, List.mem_singleton] at hi hxr
        rwa [hi, ← hxr]
      · exact whole_of_settled hsum hitems
    · exact whole_of_settled hsum (confirm_once hsum hconf v hv)

/-- Another verified file of that batch. -/
def secondFile : BatchItem := { loneFile with pathLower := "/b".toList, pathDisplay := "/B".toList }

/-- Two verified files, of which the upload refused one. -/
def halfRefused : World :=
  { World.initial with
    items := ⟨[loneFile, secondFile], by decide⟩
    reports := Dict.ofList [(1, some ⟨1, 0, 1, [some ⟨some "A".toList, some "quota".toList⟩]⟩)] }

/-- A run killed after the first commit leaves one file failed and the other undecided. -/
theorem confirm_tears_verdict :
    ¬ ∀ v ∈ (confirm 1 halfRefused).states, WrittenWhole halfRefused 1 v := by
  intro h
  have hv := h (halfRefused.updateItems (fun i => decide (i.key = (1, "/a".toList))) .confirmFailed
    { details := some (.uploadFailure "quota".toList) }) List.mem_cons_self
  rcases hv.whole with hbefore | ⟨_, -, hall⟩ | hall
  · have := hbefore loneFile (by decide)
    exact absurd this (by decide)
  · rcases hall secondFile (by decide) with ⟨h, -⟩ | ⟨h, -⟩ <;> exact absurd h (by decide)
  · exact absurd (hall secondFile (by decide)) (by decide)

end Whole

end DropboxMirror
