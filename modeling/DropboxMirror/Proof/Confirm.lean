import DropboxMirror.Proof.Steps

/-!
# When `confirm` is sound

An upload gives each verified file and each staged folder an outcome, and an honest
summary of it counts the outcomes and has one object per failed item. `confirm` reads
failures by name, so a failure without a name escapes it.

* `confirmed_iff`: which rows `confirm` confirms.
* `verdict_confirmed_iff`: under an honest summary it confirms when every item was
  attempted and every named failure names a verified row.
* `confirm_sound_iff`: the exact condition under which no refused file is confirmed.
-/

namespace DropboxMirror

open Text Crash

variable {b : ℕ} {w : World}

/-- What became of one item of an upload. -/
inductive ItemOutcome
  | transferred
  | skipped
  | failed
  | unattempted
  deriving DecidableEq, Repr

/-- The items of an upload, files before folders, each with its basename. -/
def uploadItems (rows : List BatchItem) (file : BatchItem → ItemOutcome)
    (folders : List (Str × ItemOutcome)) : List (Str × ItemOutcome) :=
  rows.map (fun r => (baseName r.pathDisplay, file r)) ++ folders

/-- How many items had an outcome. -/
def outcomes (items : List (Str × ItemOutcome)) (o : ItemOutcome) : ℕ :=
  items.countP fun i => decide (i.2 = o)

/-- The failures of a summary that are JSON objects. -/
def Summary.objects (s : Summary) : List SummaryFailure := s.failures.filterMap id

/-- A failure without a name, or with an empty one. -/
def SummaryFailure.nameless (f : SummaryFailure) : Prop := f.name.getD [] = []

instance (f : SummaryFailure) : Decidable f.nameless := inferInstanceAs (Decidable (_ = _))

/-- A failure that carries the basename of a row. -/
def SummaryFailure.names (f : SummaryFailure) (r : BatchItem) : Prop :=
  baseName r.pathDisplay ≠ [] ∧ f.name = some (baseName r.pathDisplay)

/-- **An honest summary**: true counts, and one object per failed item, with its
basename or without a name. -/
structure HonestSummary (items : List (Str × ItemOutcome)) (s : Summary) : Prop where
  transferred : s.transferredItems = outcomes items .transferred
  skipped : s.skippedItems = outcomes items .skipped
  failed : s.failedItems = outcomes items .failed
  failures : ∃ fs, s.objects.Perm fs ∧
    List.Forall₂ (fun (i : Str × ItemOutcome) f => f.name = some i.1 ∨ f.nameless)
      (items.filter fun i => decide (i.2 = .failed)) fs

/-- **What `confirm` owes**: a refused file is neither confirmed nor mirrored, and where
anything is confirmed every failure names a verified row. -/
structure ConfirmSound (w : World) (b : ℕ) (summary : Summary) (file : BatchItem → ItemOutcome) :
    Prop where
  refused : ∀ r ∈ w.itemsIn b .verified, file r = .failed ∨ file r = .unattempted →
    ∀ i ∈ ((confirm b).final w).items, i.key = r.key → i.status ≠ .confirmed
  unmirrored : ∀ r ∈ w.itemsIn b .verified, file r = .failed ∨ file r = .unattempted →
    ∀ runId push, ((checkpoint runId b push).final ((confirm b).final w)).mirror.find? r.pathLower =
      w.mirror.find? r.pathLower
  named : (∃ r ∈ w.itemsIn b .verified, ∃ i ∈ ((confirm b).final w).items,
      i.key = r.key ∧ i.status = .confirmed) →
    ∀ f ∈ summary.objects, ∃ r ∈ w.itemsIn b .verified, f.names r

/-- The uploads `confirm` misjudges: all items attempted, every named failure names a
verified row, and beside a failure without a name some row is named by none. -/
structure Misjudged (rows : List BatchItem) (file : BatchItem → ItemOutcome)
    (folders : List (Str × ItemOutcome)) (failures : List SummaryFailure) : Prop where
  attempted : ∀ i ∈ uploadItems rows file folders, i.2 ≠ .unattempted
  known : ∀ f ∈ failures, ¬ f.nameless → ∃ r ∈ rows, f.names r
  nameless : ∃ f ∈ failures, f.nameless
  spared : ∃ r ∈ rows, ∀ f ∈ failures, ¬ f.names r

section Errors

variable {failures : List SummaryFailure} {n : Str}

/-- The names `confirm` knows: those of the failures, but not the empty one. -/
theorem isSome_summaryErrors :
    ((summaryErrors failures).get? n).isSome ↔ n ≠ [] ∧ ∃ f ∈ failures, f.name.getD [] = n := by
  rw [Dict.get?, Option.isSome_map, summaryErrors, Table.find?_filter, Option.isSome_iff_exists]
  simp only [Option.filter_eq_some_iff, Table.find?_eq_some, decide_eq_true_eq]
  constructor
  · rintro ⟨e, ⟨he, rfl⟩, hne⟩
    obtain ⟨f, hf, rfl⟩ := List.mem_map.1 (Table.mem_ofRows he)
    exact ⟨hne, f, hf, rfl⟩
  · rintro ⟨hne, f, hf, rfl⟩
    have hsome : (Dict.ofList (failures.map fun f =>
        (f.name.getD [], f.error.getD []))).find? (f.name.getD []) ≠ none := by
      rw [Dict.ofList, Table.find?_ofRows, Ne, List.find?_eq_none]
      intro h
      exact h _ (List.mem_reverse.2 (List.mem_map_of_mem hf)) (by simp)
    obtain ⟨e, he⟩ := Option.ne_none_iff_exists'.1 hsome
    obtain ⟨he, hk⟩ := Table.find?_eq_some.1 he
    exact ⟨e, ⟨he, hk⟩, hk ▸ hne⟩

theorem isSome_summaryErrors_row {r : BatchItem} :
    ((summaryErrors failures).get? (baseName r.pathDisplay)).isSome ↔ ∃ f ∈ failures, f.names r := by
  rw [isSome_summaryErrors]
  constructor
  · rintro ⟨hne, f, hf, hn⟩
    refine ⟨f, hf, hne, ?_⟩
    cases hname : f.name with
    | none =>
      rw [hname] at hn
      exact absurd hn.symm hne
    | some n => rw [hname] at hn; exact congrArg some hn
  · rintro ⟨f, hf, hne, hn⟩
    exact ⟨hne, f, hf, by rw [hn]; rfl⟩

end Errors

section Verdict

variable {rows : List BatchItem} {file : BatchItem → ItemOutcome} {folders : List (Str × ItemOutcome)}
  {summary : Summary}

theorem outcomes_total (items : List (Str × ItemOutcome)) :
    outcomes items .transferred + outcomes items .skipped + outcomes items .failed +
      outcomes items .unattempted = items.length := by
  induction items with
  | nil => rfl
  | cons i items ih =>
    simp only [outcomes, List.countP_cons, List.length_cons] at ih ⊢
    cases i.2 <;> simp <;> omega

theorem length_uploadItems : (uploadItems rows file folders).length = rows.length + folders.length := by
  simp [uploadItems]

/-- The names of the errors are those of matched rows exactly when every named failure
names a row. -/
theorem names_matched_iff {n : ℕ} :
    ((∀ m ∈ (verdict rows n summary).failedRows.map fun r => baseName r.pathDisplay,
        m ∈ (verdict rows n summary).errors.rows.map Prod.fst) ∧
      ∀ m ∈ (verdict rows n summary).errors.rows.map Prod.fst,
        m ∈ (verdict rows n summary).failedRows.map fun r => baseName r.pathDisplay) ↔
      ∀ f ∈ summary.objects, ¬ f.nameless → ∃ r ∈ rows, f.names r := by
  have hmem : ∀ m, m ∈ (verdict rows n summary).errors.rows.map Prod.fst ↔
      ((summaryErrors summary.objects).get? m).isSome := by
    intro m
    rw [Dict.get?, Option.isSome_map, Table.isSome_find?, List.mem_map]
    rfl
  constructor
  · rintro ⟨-, h⟩ f hf hn
    have hm := h (f.name.getD []) ((hmem _).2 (isSome_summaryErrors.2 ⟨hn, f, hf, rfl⟩))
    obtain ⟨r, hr, hbase⟩ := List.mem_map.1 hm
    refine ⟨r, (mem_failedRows.1 hr).1, by rw [hbase]; exact hn, ?_⟩
    rw [hbase]
    cases hname : f.name with
    | none => exact absurd (by rw [SummaryFailure.nameless, hname]; rfl) hn
    | some m => rfl
  · intro h
    refine ⟨fun m hm => ?_, fun m hm => ?_⟩
    · obtain ⟨r, hr, rfl⟩ := List.mem_map.1 hm
      exact (hmem _).2 (mem_failedRows.1 hr).2
    · obtain ⟨hne, f, hf, rfl⟩ := isSome_summaryErrors.1 ((hmem m).1 hm)
      obtain ⟨r, hr, hrn⟩ := h f hf hne
      refine List.mem_map.2 ⟨r, mem_failedRows.2 ⟨hr, ?_⟩, by rw [hrn.2]; rfl⟩
      exact isSome_summaryErrors_row.2 ⟨f, hf, hrn⟩

/-- When `confirm` confirms: the counts add up, and every named failure names a verified row. -/
theorem verdict_confirmed {n : ℕ} :
    (verdict rows n summary).confirmed = true ↔
      (summary.transferredItems + summary.skippedItems + summary.failedItems = rows.length + n ∧
        summary.failedItems = summary.objects.length) ∧
      ∀ f ∈ summary.objects, ¬ f.nameless → ∃ r ∈ rows, f.names r := by
  rw [← names_matched_iff (n := n)]
  exact decide_eq_true_iff.trans and_assoc.symm

/-- **Under an honest summary** `confirm` confirms when every item was attempted and every
named failure names a verified row. -/
theorem verdict_confirmed_iff (honest : HonestSummary (uploadItems rows file folders) summary) :
    (verdict rows folders.length summary).confirmed = true ↔
      (∀ i ∈ uploadItems rows file folders, i.2 ≠ .unattempted) ∧
        ∀ f ∈ summary.objects, ¬ f.nameless → ∃ r ∈ rows, f.names r := by
  rw [verdict_confirmed]
  refine and_congr_left fun _ => ?_
  obtain ⟨fs, hperm, hfs⟩ := honest.failures
  have hfailed : summary.failedItems = summary.objects.length := by
    rw [honest.failed, hperm.length_eq, ← hfs.length_eq, outcomes, List.countP_eq_length_filter]
  have htotal := outcomes_total (uploadItems rows file folders)
  rw [length_uploadItems] at htotal
  have hnone : outcomes (uploadItems rows file folders) .unattempted = 0 ↔
      ∀ i ∈ uploadItems rows file folders, i.2 ≠ .unattempted := by
    rw [outcomes, List.countP_eq_zero]
    simp
  rw [← hnone, honest.transferred, honest.skipped]
  have hf := honest.failed
  constructor
  · rintro ⟨h, -⟩
    omega
  · intro h
    exact ⟨by omega, hfailed⟩

end Verdict

theorem confirm_final {summary : Summary} (hsum : w.reports.get? b = some (some summary)) :
    ∃ c, ConfirmPost w b summary c ((confirm b).final w) := by
  obtain ⟨-, hok, herr⟩ := confirm_triple_of_summary (D := Digests.plain) hsum w rfl
  cases hr : (confirm b).result w with
  | ok c => exact ⟨c, hok c hr⟩
  | error e => exact (herr e hr).elim

/-- **Which rows `confirm` confirms.** -/
theorem confirmed_iff {summary : Summary} (hsum : w.reports.get? b = some (some summary))
    {r : BatchItem} (hr : r ∈ w.itemsIn b .verified) :
    (∃ i ∈ ((confirm b).final w).items, i.key = r.key ∧ i.status = .confirmed) ↔
      (verdict (w.itemsIn b .verified) w.staging.folders summary).confirmed = true ∧
        ∀ f ∈ summary.objects, ¬ f.names r := by
  obtain ⟨c, hpost⟩ := confirm_final hsum
  have hrow := mem_itemsIn.1 hr
  -- the decision of the row is the status its key ends with
  have hstatus : (∃ i ∈ ((confirm b).final w).items, i.key = r.key ∧ i.status = .confirmed) ↔
      (confirmDecision w b summary r).status .verified = .confirmed := by
    rw [hpost.items]
    constructor
    · rintro ⟨i, hi, hk, hs⟩
      obtain ⟨i₀, hi₀, rfl⟩ := mem_settle.1 hi
      have hi₀k : i₀.key = r.key := by
        split at hk
        · rwa [BatchItem.key_decided] at hk
        · exact hk
      rw [Table.eq_of_key_eq hi₀ hrow.1 hi₀k, if_pos hr, BatchItem.status_decided, hrow.2.2] at hs
      exact hs
    · intro h
      refine ⟨r.decided (confirmDecision w b summary r), mem_settle.2 ⟨r, hrow.1, if_pos hr⟩,
        BatchItem.key_decided _ _, ?_⟩
      rw [BatchItem.status_decided, hrow.2.2]
      exact h
  -- the code looks the row up by its basename
  have hnone : (∀ f ∈ summary.objects, ¬ f.names r) ↔
      ¬ ((summaryErrors summary.objects).get? (baseName r.pathDisplay)).isSome = true := by
    rw [isSome_summaryErrors_row]
    simp only [not_exists, not_and]
  rw [hstatus, hnone]
  by_cases hconf : (verdict (w.itemsIn b .verified) w.staging.folders summary).confirmed = true
  · rw [confirmDecision_of_confirmed _ hr hconf]
    have hf : r ∈ (verdict (w.itemsIn b .verified) w.staging.folders summary).failedRows ↔
        ((summaryErrors summary.objects).get? (baseName r.pathDisplay)).isSome = true :=
      mem_failedRows.trans (and_iff_right hr)
    by_cases hm : r ∈ (verdict (w.itemsIn b .verified) w.staging.folders summary).failedRows
    · rw [if_pos hm]
      simp [Decision.status, hf.1 hm]
    · rw [if_neg hm]
      simpa [Decision.status, hconf] using fun h => hm (hf.2 h)
  · unfold confirmDecision
    dsimp only
    rw [if_neg hconf]
    simp [Decision.status, hconf]

/-- `checkpoint` changes the mirror at the confirmed paths of its batch alone. -/
theorem checkpoint_mirror_of_ne {runId : ℕ} {push : Except Failure Unit} {p : Str}
    (h : ∀ i ∈ w.itemsIn b .confirmed, i.pathLower ≠ p) :
    ((checkpoint runId b push).final w).mirror.find? p = w.mirror.find? p := by
  have triple : Triple (fun _ _ => True) (fun v => v = w) (checkpoint runId b push)
      (fun _ v => v.mirror.find? p = w.mirror.find? p)
      (fun _ v => v.mirror.find? p = w.mirror.find? p) := by
    unfold checkpoint
    refine Triple.get_bind fun s hs => ?_
    rw [hs]
    dsimp only
    split
    · exact Triple.fail fun v hv => by rw [hv]
    · rename_i rows hrows
      refine Triple.bind (M := fun _ v => v.mirror.find? p = w.mirror.find? p)
        (Triple.write fun v hv => ⟨trivial, ?_⟩) fun _ => ?_
      · rw [hv]
        exact find?_mergeConfirmed_of_ne hrows h
      cases push with
      | error e => exact Triple.fail fun _ hv => hv
      | ok _ =>
        exact Triple.bind (M := fun _ v => v.mirror.find? p = w.mirror.find? p)
          (Triple.write fun _ hv => ⟨trivial, hv⟩) fun _ => Triple.pure fun _ hv => hv
  obtain ⟨-, hok, herr⟩ := triple w rfl
  cases hr : (checkpoint runId b push).result w with
  | ok c => exact hok c hr
  | error e => exact herr e hr

/-- **`confirm` is sound exactly on the uploads it does not misjudge.** -/
theorem confirm_sound_iff {summary : Summary} {file : BatchItem → ItemOutcome}
    {folders : List (Str × ItemOutcome)} (hsum : w.reports.get? b = some (some summary))
    (hfolders : folders.length = w.staging.folders)
    (honest : HonestSummary (uploadItems (w.itemsIn b .verified) file folders) summary) :
    ConfirmSound w b summary file ↔
      ¬ Misjudged (w.itemsIn b .verified) file folders summary.objects := by
  have hverdict := verdict_confirmed_iff honest
  rw [hfolders] at hverdict
  constructor
  · rintro hsound ⟨hatt, hknown, ⟨f, hf, hless⟩, r, hr, hspared⟩
    have hconf := (confirmed_iff hsum hr).2 ⟨hverdict.2 ⟨hatt, hknown⟩, hspared⟩
    obtain ⟨r', -, hne, hname⟩ := hsound.named ⟨r, hr, hconf⟩ f hf
    exact hne (by rw [SummaryFailure.nameless, hname] at hless; exact hless)
  · intro hmis
    -- a confirmed row means a judged upload, in which every failure has a name
    have named : ∀ r ∈ w.itemsIn b .verified,
        (∃ i ∈ ((confirm b).final w).items, i.key = r.key ∧ i.status = .confirmed) →
        ((∀ i ∈ uploadItems (w.itemsIn b .verified) file folders, i.2 ≠ .unattempted) ∧
          ∀ f ∈ summary.objects, ¬ f.names r) ∧
        ∀ f ∈ summary.objects, ∃ r ∈ w.itemsIn b .verified, f.names r := by
      intro r hr hi
      obtain ⟨hv, hspared⟩ := (confirmed_iff hsum hr).1 hi
      obtain ⟨hatt, hknown⟩ := hverdict.1 hv
      refine ⟨⟨hatt, hspared⟩, fun f hf => hknown f hf fun hless => ?_⟩
      exact hmis ⟨hatt, hknown, ⟨f, hf, hless⟩, r, hr, hspared⟩
    have refused : ∀ r ∈ w.itemsIn b .verified, file r = .failed ∨ file r = .unattempted →
        ∀ i ∈ ((confirm b).final w).items, i.key = r.key → i.status ≠ .confirmed := by
      intro r hr hout i hi hk hs
      obtain ⟨⟨hatt, hspared⟩, hall⟩ := named r hr ⟨i, hi, hk, hs⟩
      have hmem : (baseName r.pathDisplay, file r) ∈
          uploadItems (w.itemsIn b .verified) file folders :=
        List.mem_append_left _ (List.mem_map_of_mem hr)
      rcases hout with hout | hout
      · obtain ⟨fs, hperm, hfs⟩ := honest.failures
        obtain ⟨f, hf, hname⟩ := Pointwise.exists_right hfs
          (List.mem_filter.2 ⟨hmem, decide_eq_true hout⟩)
        have hobj := hperm.mem_iff.2 hf
        obtain ⟨r', -, hne, hr'⟩ := hall f hobj
        rcases hname with hname | hless
        · have hbase : baseName r'.pathDisplay = baseName r.pathDisplay :=
            Option.some.inj (hr'.symm.trans hname)
          exact hspared f hobj ⟨hbase ▸ hne, hname⟩
        · rw [SummaryFailure.nameless, hr'] at hless
          exact hne hless
      · exact hatt _ hmem hout
    refine ⟨refused, fun r hr hout runId push => ?_, fun ⟨r, hr, hi⟩ => (named r hr hi).2⟩
    obtain ⟨c, hpost⟩ := confirm_final hsum
    rw [checkpoint_mirror_of_ne, hpost.mirror]
    intro i hi hp
    obtain ⟨hi, hb, hs⟩ := mem_itemsIn.1 hi
    refine refused r hr hout i hi ?_ hs
    rw [BatchItem.key, BatchItem.key, hb, hp, (mem_itemsIn.1 hr).2.1]

section Refused

/-- A verified file, alone in its batch. -/
def loneFile : BatchItem where
  batchId := 1
  pathLower := "/a".toList
  pathDisplay := "/A".toList
  size := 2
  contentHash := "hi".toList
  status := .verified
  sha1 := some "hi".toList
  sha256 := some "hi".toList
  details := .empty

/-- The CLI's summary where it refuses the file, with a failure of the given name. -/
def refusedSummary (name : Option Str) : Summary :=
  ⟨0, 0, 1, [some ⟨name, some "quota".toList⟩]⟩

/-- The world after that upload. -/
def refusedWorld (name : Option Str) : World :=
  { World.initial with
    items := ⟨[loneFile], List.nodup_singleton _⟩
    reports := Dict.ofList [(1, some (refusedSummary name))] }

theorem honest_refusedSummary (name : Option Str) (h : name = some "A".toList ∨ name.getD [] = []) :
    HonestSummary (uploadItems ((refusedWorld name).itemsIn 1 .verified) (fun _ => .failed) [])
      (refusedSummary name) :=
  ⟨rfl, rfl, rfl, _, List.Perm.refl _, List.Forall₂.cons h List.Forall₂.nil⟩

/-- A refused file whose failure carries its name is left for the next run. -/
theorem confirm_sound_named_failure :
    ConfirmSound (refusedWorld (some "A".toList)) 1 (refusedSummary (some "A".toList))
      fun _ => .failed := by
  refine (confirm_sound_iff rfl rfl (honest_refusedSummary _ (Or.inl rfl))).2 ?_
  rintro ⟨-, -, ⟨f, hf, hless⟩, -⟩
  rw [List.mem_singleton.1 hf] at hless
  exact absurd hless (by decide)

/-- **A refused file whose failure has no name is confirmed and mirrored.** -/
theorem confirm_records_nameless_failure :
    (refusedWorld none).reports.get? 1 = some (some (refusedSummary none)) ∧
      HonestSummary (uploadItems ((refusedWorld none).itemsIn 1 .verified) (fun _ => .failed) [])
        (refusedSummary none) ∧
      ¬ ConfirmSound (refusedWorld none) 1 (refusedSummary none) (fun _ => .failed) ∧
      (((checkpoint 1 1 (.ok ())).final ((confirm 1).final (refusedWorld none))).mirror.find?
        "/a".toList).isSome := by
  refine ⟨rfl, honest_refusedSummary none (Or.inr rfl), fun h => ?_, rfl⟩
  exact h.refused loneFile (List.mem_singleton.2 rfl) (Or.inl rfl)
    { loneFile with status := .confirmed } (List.mem_singleton.2 rfl) rfl rfl

end Refused

end DropboxMirror
