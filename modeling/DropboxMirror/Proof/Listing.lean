import DropboxMirror.Lib.Fallible
import DropboxMirror.Model.Listing

/-!
# A listing that is resumed

Between two requests of an inventory the tables hold the pages committed so far and
nothing else (`PagesReached`), so that an attempt goes on where any earlier one stopped.

* `foldPages`: what the pages say, left to right.
* `find?_foldPages`: the last entry of a key wins, however the entries are paged.
* `inventoryLoop_triple`, `inventory_triple`: one attempt.
* `inventory_resumes`: any number of attempts.
-/

namespace DropboxMirror

open Crash

variable {U : Unicode} {root : Scope} {purpose : Str} {identity : DropboxIdentity} {id : ℕ}
  {db db₀ : InventoryDb}

/-- A page as the API serves it; a cursor is never empty. -/
structure ListPage where
  entries : List ApiEntry
  cursor : Str
  cursor_ne : cursor ≠ []

section Fold

/-- The pages from number `page` on, entry by entry. -/
def foldPages (U : Unicode) (scope : Str) : ℕ → List ListPage → Listing → Except ApiError Listing
  | _, [], L => .ok L
  | page, p :: rest, L => do
    let L ← p.entries.foldlM (upsertEntry U scope page) L
    foldPages U scope (page + 1) rest L

theorem foldPages_append (scope : Str) (page : ℕ) (done rest : List ListPage) (L : Listing) :
    foldPages U scope page (done ++ rest) L =
      foldPages U scope page done L >>= foldPages U scope (page + done.length) rest := by
  induction done generalizing page L with
  | nil => rfl
  | cons p done ih =>
    rw [List.cons_append, foldPages, foldPages, List.length_cons]
    cases p.entries.foldlM (upsertEntry U scope page) L with
    | error e => rfl
    | ok L' =>
      change foldPages U scope (page + 1) (done ++ rest) L' = _
      rw [ih, Nat.add_assoc, Nat.add_comm 1]
      rfl

/-- A row without the numbers of the pages it was on. -/
def DropboxObject.content (d : DropboxObject) : DropboxObject := { d with firstPage := 0, lastPage := 0 }

/-- The row of the last entry with a key. -/
def lastEntry (U : Unicode) (scope : Str) (entries : List ApiEntry) (k : Str) : Option DropboxObject :=
  entries.reverse.findSome? fun e =>
    (entryObject U scope 0 e).toOption.filter fun d => decide (d.objectKey = k)

theorem lastEntry_append (scope : Str) (entries rest : List ApiEntry) (k : Str) :
    lastEntry U scope (entries ++ rest) k =
      (lastEntry U scope rest k).or (lastEntry U scope entries k) := by
  rw [lastEntry, List.reverse_append, List.findSome?_append]
  rfl

/-- The page an entry is on shows in the page columns only. -/
theorem entryObject_content {scope : Str} {page : ℕ} {e : ApiEntry} {d : DropboxObject}
    (h : entryObject U scope page e = .ok d) : entryObject U scope 0 e = .ok d.content := by
  unfold entryObject at h ⊢
  cases hd : scopeRelative U scope e.pathDisplay with
  | error _ =>
    rw [hd] at h
    cases h
  | ok pathDisplay =>
    rw [hd] at h
    cases hl : scopeRelative U scope e.pathLower with
    | error _ =>
      rw [hl] at h
      cases h
    | ok pathLower =>
      rw [hl] at h
      cases h
      rfl

theorem find?_upsertEntry {scope : Str} {page : ℕ} {L L' : Listing} {e : ApiEntry}
    (h : upsertEntry U scope page L e = .ok L') (k : Str) :
    (L'.find? k).map DropboxObject.content =
      (lastEntry U scope [e] k).or ((L.find? k).map DropboxObject.content) := by
  unfold upsertEntry at h
  cases hd : entryObject U scope page e with
  | error _ =>
    rw [hd] at h
    cases h
  | ok d =>
    rw [hd] at h
    obtain rfl : L.upsert mergeObject d = L' := Except.ok.inj h
    have hlast : lastEntry U scope [e] k = if d.objectKey = k then some d.content else none := by
      rw [lastEntry, List.reverse_singleton, List.findSome?_singleton, entryObject_content hd]
      change Option.filter _ (some d.content) = _
      rw [Option.filter_some]
      exact if_congr decide_eq_true_iff rfl rfl
    rw [hlast, Table.find?_upsert]
    by_cases hk : d.objectKey = k
    · rw [if_pos hk, if_pos hk]
      cases L.find? k <;> rfl
    · rw [if_neg hk, if_neg hk]
      rfl

/-- **The last entry of a key wins**, however the entries are paged. -/
theorem find?_foldPages {scope : Str} {page : ℕ} {pages : List ListPage} {L L' : Listing}
    (h : foldPages U scope page pages L = .ok L') (k : Str) :
    (L'.find? k).map DropboxObject.content =
      (lastEntry U scope (pages.flatMap ListPage.entries) k).or
        ((L.find? k).map DropboxObject.content) := by
  have hpage : ∀ (entries : List ApiEntry) (page : ℕ) (L L' : Listing),
      entries.foldlM (upsertEntry U scope page) L = .ok L' →
        (L'.find? k).map DropboxObject.content =
          (lastEntry U scope entries k).or ((L.find? k).map DropboxObject.content) := by
    intro entries page
    induction entries with
    | nil =>
      intro L L' h
      obtain rfl : L = L' := Except.ok.inj h
      rfl
    | cons e entries ih =>
      intro L L' h
      rw [List.foldlM_cons] at h
      obtain ⟨M, hM, h⟩ := Fallible.bind_ok h
      rw [ih M L' h, find?_upsertEntry hM, show e :: entries = [e] ++ entries from rfl,
        lastEntry_append, Option.or_assoc]
  induction pages generalizing page L with
  | nil =>
    obtain rfl : L = L' := Except.ok.inj h
    rfl
  | cons p pages ih =>
    rw [foldPages] at h
    obtain ⟨M, hM, h⟩ := Fallible.bind_ok h
    rw [ih h, hpage _ _ _ _ hM, List.flatMap_cons, lastEntry_append, Option.or_assoc]

end Fold

/-- The API as it would answer if no request failed. -/
structure Server where
  identity : DropboxIdentity
  call : ListRequest → ListResult

/-- A call may fail, and is answered by the server where it does not. -/
structure ListingEnv.Honest (env : ListingEnv) (server : Server) : Prop where
  identity : ∀ i, env.identity = .ok i → i = server.identity
  call : ∀ r a, env.call r = .ok a → a = server.call r

/-- No request of the call fails. -/
structure ListingEnv.Answered (env : ListingEnv) : Prop where
  identity : ∃ i, env.identity = .ok i
  call : ∀ r, ∃ a, env.call r = .ok a

/-- The cursor after some pages. -/
def cursorAfter (done : List ListPage) : Option Str := done.getLast?.map ListPage.cursor

/-- **The server serves the pages**, each to the cursor of the page before it, and says
of the last one alone that there is no more. -/
structure Serves (root : Scope) (server : Server) (pages : List ListPage) : Prop where
  pages_ne : pages ≠ []
  answer : ∀ done p todo, pages = done ++ p :: todo → ∀ r,
    nextRequest root server.identity.rootNamespaceId (cursorAfter done) = .ok r →
      server.call r = ⟨some p.entries, some p.cursor, decide (todo ≠ [])⟩

/-- The row of the inventory with some pages done and some to do. -/
def inventoryRow (id : ℕ) (identity : DropboxIdentity) (purpose : Str) (done todo : List ListPage)
    (status : InventoryStatus) : InventoryRun where
  id := id
  status := status
  accountId := identity.accountId
  rootNamespaceId := identity.rootNamespaceId
  purpose := purpose
  cursor := cursorAfter done
  hasMore := if done = [] then none else some (decide (todo ≠ []))
  pageCount := done.length

/-- The rows of the pages from number `page` on. -/
def pageRows (id : ℕ) : ℕ → List ListPage → List PageRow
  | _, [] => []
  | page, p :: rest => ⟨id, page, p.cursor, p.entries.length⟩ :: pageRows id (page + 1) rest

theorem pageRows_append (id page : ℕ) (done rest : List ListPage) :
    pageRows id page (done ++ rest) = pageRows id page done ++ pageRows id (page + done.length) rest := by
  induction done generalizing page with
  | nil => rfl
  | cons p done ih =>
    rw [List.cons_append, pageRows, pageRows, ih, List.length_cons, Nat.add_assoc, Nat.add_comm 1,
      List.cons_append]

theorem mem_pageRows {id page : ℕ} {pages : List ListPage} {r : PageRow}
    (h : r ∈ pageRows id page pages) :
    r.inventoryId = id ∧ page ≤ r.pageNumber ∧ r.pageNumber < page + pages.length := by
  induction pages generalizing page with
  | nil => cases h
  | cons p pages ih =>
    rw [pageRows, List.mem_cons] at h
    rw [List.length_cons]
    rcases h with rfl | h
    · exact ⟨rfl, le_rfl, Nat.lt_add_of_pos_right (Nat.succ_pos _)⟩
    · obtain ⟨h1, h2, h3⟩ := ih h
      exact ⟨h1, by omega, by omega⟩

/-- Every page and every object belongs to an inventory of the table, as the schema's
`REFERENCES` says. -/
structure InventoryDb.Linked (db : InventoryDb) : Prop where
  pages : ∀ p ∈ db.pages, ∃ r ∈ db.runs, r.id = p.inventoryId
  objects : ∀ id, (∀ r ∈ db.runs, r.id ≠ id) → db.objects id = Table.empty

/-- **The tables between two requests**: those before the inventory, and the pages done. -/
structure PagesReached (U : Unicode) (root : Scope) (purpose : Str) (identity : DropboxIdentity)
    (db₀ : InventoryDb) (done todo : List ListPage) (status : InventoryStatus) (db : InventoryDb) :
    Prop where
  runs : db.runs.rows = db₀.runs.rows ++
    [inventoryRow db₀.runs.nextKey identity purpose done todo status]
  pages : db.pages.rows = db₀.pages.rows ++ pageRows db₀.runs.nextKey 1 done
  objects : foldPages U root.root 1 done Table.empty = .ok (db.objects db₀.runs.nextKey)

variable {done todo : List ListPage} {status : InventoryStatus} {server : Server}
  {pages : List ListPage} {env : ListingEnv}

/-- An update of the row of the inventory leaves the rows before it. -/
theorem PagesReached.modify_rows (h : PagesReached U root purpose identity db₀ done todo status db)
    (g : InventoryRun → InventoryRun)
    (hg : ∀ r, (if r.id = db₀.runs.nextKey then g r else r).id = r.id) :
    (db.runs.modify (fun r => if r.id = db₀.runs.nextKey then g r else r) hg).rows =
      db₀.runs.rows ++ [g (inventoryRow db₀.runs.nextKey identity purpose done todo status)] := by
  change db.runs.rows.map _ = _
  have hrow : (inventoryRow db₀.runs.nextKey identity purpose done todo status).id =
      db₀.runs.nextKey := rfl
  rw [h.runs, List.map_append, List.map_singleton, if_pos hrow]
  congr 1
  refine (List.map_congr_left fun r hr => ?_).trans (List.map_id _)
  exact if_neg (Table.lt_nextKey hr).ne

theorem PagesReached.find (h : PagesReached U root purpose identity db₀ done todo status db) :
    db.runs.find? db₀.runs.nextKey =
      some (inventoryRow db₀.runs.nextKey identity purpose done todo status) := by
  refine Table.find?_eq_some.2 ⟨?_, rfl⟩
  rw [Table.mem_def, h.runs]
  exact List.mem_append_right _ (List.mem_singleton.2 rfl)

/-- The inventory is opened. -/
theorem openInventory_reached (hlink : db₀.Linked) (pages : List ListPage) :
    PagesReached U root purpose identity db₀ [] pages .running { db₀ with
      runs := db₀.runs.upsert Table.ignore (startedInventory db₀.runs.nextKey identity purpose) } := by
  refine ⟨Table.rows_upsert_next rfl, (List.append_nil _).symm, ?_⟩
  have hobjects : db₀.objects db₀.runs.nextKey = Table.empty :=
    hlink.objects _ fun r hr => (Table.lt_nextKey hr).ne
  rw [foldPages]
  exact congrArg Except.ok hobjects.symm

/-- The last turn. -/
theorem PagesReached.complete (h : PagesReached U root purpose identity db₀ done todo .running db) :
    PagesReached U root purpose identity db₀ done todo .complete (completeInventory db₀.runs.nextKey db) :=
  ⟨h.modify_rows (fun r => { r with status := .complete }) fun r => by split <;> rfl, h.pages,
    h.objects⟩

/-- A page is new, and its commit does the page. -/
theorem PagesReached.page_new (hlink : db₀.Linked)
    (h : PagesReached U root purpose identity db₀ done todo status db) :
    ∀ r ∈ db.pages.rows, r.key ≠ (db₀.runs.nextKey, done.length + 1) := by
  intro r hr hkey
  rw [h.pages, List.mem_append] at hr
  rcases hr with hr | hr
  · obtain ⟨run, hrun, hid⟩ := hlink.pages r hr
    have hlt := Table.lt_nextKey hrun
    have hsame : r.inventoryId = db₀.runs.nextKey := (Prod.ext_iff.1 hkey).1
    omega
  · have hlt := (mem_pageRows hr).2.2
    have hsame : r.pageNumber = done.length + 1 := (Prod.ext_iff.1 hkey).2
    omega

theorem PagesReached.commit (hlink : db₀.Linked) {p : ListPage} {rest : List ListPage}
    (h : PagesReached U root purpose identity db₀ done (p :: rest) .running db) {L : Listing}
    (hL : p.entries.foldlM (upsertEntry U root.root (done.length + 1))
      (db.objects db₀.runs.nextKey) = .ok L) :
    PagesReached U root purpose identity db₀ (done ++ [p]) rest .running
      (commitPage db₀.runs.nextKey (done.length + 1) p.entries.length p.cursor (decide (rest ≠ [])) L
        db) := by
  constructor
  · refine (h.modify_rows (fun r => { r with
      cursor := some p.cursor, hasMore := some (decide (rest ≠ [])), pageCount := done.length + 1 })
        fun r => by split <;> rfl).trans ?_
    simp [inventoryRow, cursorAfter]
  · change Table.upsertRows _ _ _ = _
    rw [Table.upsertRows_of_new, h.pages, pageRows_append, Nat.add_comm 1, List.append_assoc]
    · rfl
    · intro hmem
      obtain ⟨r, hr, hkey⟩ := List.mem_map.1 hmem
      exact h.page_new hlink r hr hkey
  · rw [foldPages_append, h.objects, Nat.add_comm 1]
    change foldPages U root.root (done.length + 1) [p] (db.objects db₀.runs.nextKey) = _
    rw [foldPages, hL]
    have hnew : (commitPage db₀.runs.nextKey (done.length + 1) p.entries.length p.cursor
        (decide (rest ≠ [])) L db).objects db₀.runs.nextKey = L := by
      simp only [commitPage, Function.update_self]
    rw [hnew]
    rfl

/-- What any attempt leaves: nothing, or the pages done so far. -/
def Resumable (U : Unicode) (root : Scope) (purpose : Str) (identity : DropboxIdentity)
    (db₀ : InventoryDb) (pages : List ListPage) (db : InventoryDb) : Prop :=
  db = db₀ ∨ ∃ done todo status, pages = done ++ todo ∧ (status = .complete → todo = []) ∧
    PagesReached U root purpose identity db₀ done todo status db

/-- The request of a turn can be made. -/
theorem exists_nextRequest (root : Scope) (rootNamespace : Str) (cursor : Option Str) :
    ∃ r, nextRequest root rootNamespace cursor = .ok r := by
  unfold nextRequest
  cases givenCursor cursor with
  | some c => exact ⟨_, rfl⟩
  | none =>
    unfold listFolderRequest dropboxApiScope
    rw [root.valid]
    exact ⟨_, rfl⟩

/-- Whether the listing is done is decided by its pages. -/
theorem isSome_cursorAfter (done : List ListPage) :
    (givenCursor (cursorAfter done)).isSome ↔ done ≠ [] := by
  unfold cursorAfter givenCursor
  cases hlast : done.getLast? with
  | none =>
    rw [List.getLast?_eq_none_iff.1 hlast]
    simp
  | some p =>
    have hne : done ≠ [] := fun h => by simp [h] at hlast
    simp [hne, p.cursor_ne, Option.filter]

/-- **The loop, from wherever an attempt stopped.** It ends in error only if a request or
an entry did, or if it was given too few turns. -/
theorem inventoryLoop_triple (hlink : db₀.Linked) (hserves : Serves root server pages)
    (henv : env.Honest server) {turns : ℕ} (hpages : pages = done ++ todo) :
    Triple (fun _ t => Resumable U root purpose server.identity db₀ pages t)
      (PagesReached U root purpose server.identity db₀ done todo .running)
      (inventoryLoop U root server.identity.rootNamespaceId db₀.runs.nextKey env turns)
      (fun _ t => PagesReached U root purpose server.identity db₀ pages [] .complete t)
      (fun _ _ => turns ≤ todo.length ∨ ¬ env.Answered ∨
        ∀ L, foldPages U root.root 1 pages Table.empty ≠ .ok L) := by
  induction turns generalizing done todo with
  | zero => exact Triple.fail fun _ _ => Or.inl (Nat.zero_le _)
  | succ turns ih =>
    unfold inventoryLoop
    refine Triple.get_bind fun db h => ?_
    rw [h.find]
    dsimp only
    have hcursor : (inventoryRow db₀.runs.nextKey server.identity purpose done todo .running).cursor =
        cursorAfter done := rfl
    have hcount : (inventoryRow db₀.runs.nextKey server.identity purpose done todo .running).pageCount =
        done.length := rfl
    have hmore : (inventoryRow db₀.runs.nextKey server.identity purpose done todo .running).hasMore =
        if done = [] then none else some (decide (todo ≠ [])) := rfl
    rw [hcursor, hcount, hmore]
    cases todo with
    | nil =>
      -- every page is done: this turn only says so
      rw [List.append_nil] at hpages
      have hne : done ≠ [] := hpages ▸ hserves.pages_ne
      rw [if_pos ⟨(isSome_cursorAfter done).2 hne, by rw [if_neg hne]; rfl⟩]
      refine Triple.write ?_
      rintro _ rfl
      have hc := h.complete
      rw [← hpages] at hc
      exact ⟨Or.inr ⟨pages, [], .complete, (List.append_nil _).symm, fun _ => rfl, hc⟩, hc⟩
    | cons p rest =>
      have hnot : ¬ ((givenCursor (cursorAfter done)).isSome ∧
          (if done = [] then none else some (decide (p :: rest ≠ []))) = some false) := by
        rintro ⟨hne, hfalse⟩
        rw [if_neg ((isSome_cursorAfter done).1 hne)] at hfalse
        simp at hfalse
      rw [if_neg hnot]
      obtain ⟨r, hr⟩ := exists_nextRequest root server.identity.rootNamespaceId (cursorAfter done)
      rw [hr]
      dsimp only
      cases hcall : env.call r with
      | error e =>
        refine Triple.fail fun _ _ => Or.inr (Or.inl fun hall => ?_)
        obtain ⟨a, ha⟩ := hall.call r
        rw [hcall] at ha
        cases ha
      | ok a =>
        rw [henv.call r a hcall, hserves.answer done p rest hpages r hr]
        dsimp only
        cases hL : p.entries.foldlM (upsertEntry U root.root (done.length + 1))
            (db.objects db₀.runs.nextKey) with
        | error e =>
          refine Triple.fail fun _ _ => Or.inr (Or.inr fun L hok => ?_)
          rw [hpages, foldPages_append, h.objects, Nat.add_comm 1] at hok
          change foldPages U root.root (done.length + 1) (p :: rest) (db.objects db₀.runs.nextKey) =
            _ at hok
          rw [foldPages, hL] at hok
          cases hok
        | ok L =>
          dsimp only
          have hnew : db.pages.find? (db₀.runs.nextKey, done.length + 1) = none :=
            Table.find?_eq_none.2 (h.page_new hlink)
          rw [hnew, if_neg (by decide)]
          have hsplit : pages = done ++ [p] ++ rest := by rw [hpages]; simp
          refine Triple.bind (Triple.write ?_) fun _ =>
            (ih hsplit).consequence (fun _ h => h) (fun _ _ h => h) fun _ _ h => ?_
          · rintro _ rfl
            have hc := h.commit hlink hL
            exact ⟨Or.inr ⟨done ++ [p], rest, .running, hsplit, (fun hs => by cases hs), hc⟩, hc⟩
          · refine h.imp_left fun hle => ?_
            rw [List.length_cons]
            omega

/-- Before the inventory no row has its account and purpose. -/
theorem filter_fresh (hfresh : ∀ r ∈ db₀.runs, r.purpose ≠ purpose) :
    db₀.runs.rows.filter (fun r => decide (r.accountId = identity.accountId ∧
      r.rootNamespaceId = identity.rootNamespaceId ∧ r.purpose = purpose)) = [] :=
  List.filter_eq_nil_iff.2 fun r hr h => hfresh r hr (of_decide_eq_true h).2.2

theorem latestRun_fresh (hfresh : ∀ r ∈ db₀.runs, r.purpose ≠ purpose) :
    db₀.latestRun identity purpose = none := by
  rw [InventoryDb.latestRun, filter_fresh hfresh]
  rfl

/-- An inventory under way, or complete, is found by its account and purpose. -/
theorem PagesReached.latestRun (hfresh : ∀ r ∈ db₀.runs, r.purpose ≠ purpose)
    (h : PagesReached U root purpose identity db₀ done todo status db) :
    db.latestRun identity purpose =
      some (inventoryRow db₀.runs.nextKey identity purpose done todo status) := by
  have hrow : decide ((inventoryRow db₀.runs.nextKey identity purpose done todo status).accountId =
      identity.accountId ∧ (inventoryRow db₀.runs.nextKey identity purpose done todo
        status).rootNamespaceId = identity.rootNamespaceId ∧
          (inventoryRow db₀.runs.nextKey identity purpose done todo status).purpose = purpose) =
            true := decide_eq_true ⟨rfl, rfl, rfl⟩
  rw [InventoryDb.latestRun, h.runs, List.filter_append, filter_fresh hfresh, List.filter_singleton,
    hrow]
  rfl

/-- **One attempt**, after any others. -/
theorem inventory_triple (hlink : db₀.Linked) (hfresh : ∀ r ∈ db₀.runs, r.purpose ≠ purpose)
    (hserves : Serves root server pages) (henv : env.Honest server) (turns : ℕ) :
    Triple (fun _ t => Resumable U root purpose server.identity db₀ pages t)
      (Resumable U root purpose server.identity db₀ pages)
      (inventory U root purpose true turns env)
      (fun id t => id = db₀.runs.nextKey ∧
        PagesReached U root purpose server.identity db₀ pages [] .complete t)
      (fun _ _ => turns ≤ pages.length ∨ ¬ env.Answered ∨
        ∀ L, foldPages U root.root 1 pages Table.empty ≠ .ok L) := by
  unfold inventory
  cases hident : env.identity with
  | error e =>
    refine Triple.fail fun _ _ => Or.inr (Or.inl fun hall => ?_)
    obtain ⟨i, hi⟩ := hall.identity
    rw [hident] at hi
    cases hi
  | ok i =>
    obtain rfl := henv.identity i hident
    refine Triple.get_bind fun db hdb => ?_
    -- the loop, once the inventory is known
    have hloop : ∀ {done todo : List ListPage}, pages = done ++ todo → Triple
        (fun _ t => Resumable U root purpose server.identity db₀ pages t)
        (PagesReached U root purpose server.identity db₀ done todo .running)
        (inventoryLoop U root server.identity.rootNamespaceId db₀.runs.nextKey env turns >>=
          fun _ => Pure.pure db₀.runs.nextKey)
        (fun id t => id = db₀.runs.nextKey ∧
          PagesReached U root purpose server.identity db₀ pages [] .complete t)
        (fun _ _ => turns ≤ pages.length ∨ ¬ env.Answered ∨
          ∀ L, foldPages U root.root 1 pages Table.empty ≠ .ok L) := by
      intro done todo hpages
      refine ((inventoryLoop_triple hlink hserves henv hpages).consequence (fun _ h => h)
        (fun _ _ h => h) fun _ _ h => h.imp_left fun hle => ?_).bind fun _ =>
          Triple.pure fun _ h => ⟨rfl, h⟩
      rw [hpages, List.length_append]
      omega
    rcases hdb with rfl | ⟨done, todo, status, hpages, hstatus, hreached⟩
    · rw [latestRun_fresh hfresh]
      refine Triple.bind (M := fun id t => id = db.runs.nextKey ∧
        PagesReached U root purpose server.identity db [] pages .running t) ?_ fun id => ?_
      · refine Triple.get_bind fun u hu => ?_
        subst hu
        refine Triple.bind (M := fun _ t =>
          PagesReached U root purpose server.identity u [] pages .running t) (Triple.write ?_) fun _ =>
            Triple.pure fun _ h => ⟨rfl, h⟩
        rintro t rfl
        have h : PagesReached U root purpose server.identity t [] pages .running _ :=
          openInventory_reached hlink pages
        exact ⟨Or.inr ⟨[], pages, .running, rfl, (fun hs => by cases hs), h⟩, h⟩
      · refine Triple.pre fun t ht => ?_
        rw [ht.1]
        exact (hloop rfl).consequence (fun _ h => h ▸ ht.2) (fun _ _ h => h) (fun _ _ h => h)
    · rw [hreached.latestRun hfresh]
      cases status with
      | running =>
        exact (hloop hpages).consequence (fun _ h => h ▸ hreached) (fun _ _ h => h) (fun _ _ h => h)
      | complete =>
        -- a complete inventory of the purpose is used again
        refine Triple.pure ?_
        rintro _ rfl
        obtain rfl := hstatus rfl
        rw [List.append_nil] at hpages
        exact ⟨rfl, hpages ▸ hreached⟩

/-- **The tables any attempts leave**, each of which may fail at a request or be killed after
any of its commits. -/
inductive Attempted (U : Unicode) (root : Scope) (purpose : Str) (server : Server)
    (db₀ : InventoryDb) : InventoryDb → Prop
  | start : Attempted U root purpose server db₀ db₀
  | attempt {db u : InventoryDb} (h : Attempted U root purpose server db₀ db) (env : ListingEnv)
      (henv : env.Honest server) (turns : ℕ)
      (hu : u ∈ (inventory U root purpose true turns env db).states) :
      Attempted U root purpose server db₀ u

theorem Attempted.resumable (hlink : db₀.Linked) (hfresh : ∀ r ∈ db₀.runs, r.purpose ≠ purpose)
    (hserves : Serves root server pages) (h : Attempted U root purpose server db₀ db) :
    Resumable U root purpose server.identity db₀ pages db := by
  induction h with
  | start => exact Or.inl rfl
  | attempt _ env henv turns hu ih =>
    exact (inventory_triple hlink hfresh hserves henv turns).states ih _ hu

/-- What a complete inventory leaves: its one row, the row of each page once and in order,
and the fold of the pages, in which the last entry of a key wins. -/
structure Inventoried (U : Unicode) (scope purpose : Str) (pages : List ListPage) (id : ℕ)
    (db : InventoryDb) : Prop where
  run : ∃ r, db.runs.rows.filter (fun r => decide (r.purpose = purpose)) = [r] ∧ r.id = id ∧
    r.status = .complete ∧ r.pageCount = pages.length
  pageTable : db.pages.rows.filter (fun p => decide (p.inventoryId = id)) = pageRows id 1 pages
  objects : foldPages U scope 1 pages Table.empty = .ok (db.objects id)
  last : ∀ k, ((db.objects id).find? k).map DropboxObject.content =
    lastEntry U scope (pages.flatMap ListPage.entries) k

theorem PagesReached.inventoried (hlink : db₀.Linked) (hfresh : ∀ r ∈ db₀.runs, r.purpose ≠ purpose)
    (h : PagesReached U root purpose identity db₀ pages [] .complete db) :
    Inventoried U root.root purpose pages db₀.runs.nextKey db := by
  refine ⟨⟨inventoryRow db₀.runs.nextKey identity purpose pages [] .complete, ?_, rfl, rfl, rfl⟩, ?_,
    h.objects, fun k => ?_⟩
  · have hold : db₀.runs.rows.filter (fun r => decide (r.purpose = purpose)) = [] :=
      List.filter_eq_nil_iff.2 fun r hr hp => hfresh r hr (of_decide_eq_true hp)
    have hone : decide ((inventoryRow db₀.runs.nextKey identity purpose pages [] .complete).purpose =
        purpose) = true := decide_eq_true rfl
    rw [h.runs, List.filter_append, hold, List.filter_singleton, hone]
    rfl
  · have hold : db₀.pages.rows.filter (fun p => decide (p.inventoryId = db₀.runs.nextKey)) = [] := by
      refine List.filter_eq_nil_iff.2 fun p hp hid => ?_
      obtain ⟨r, hr, hrid⟩ := hlink.pages p hp
      have hlt := Table.lt_nextKey hr
      rw [hrid, of_decide_eq_true hid] at hlt
      exact lt_irrefl _ hlt
    rw [h.pages, List.filter_append, hold, List.nil_append]
    exact List.filter_eq_self.2 fun p hp => decide_eq_true (mem_pageRows hp).1
  · rw [find?_foldPages h.objects k, Table.find?_empty]
    exact Option.or_none

/-- **A listing interrupted anywhere gives the same inventory**: after any attempts, one
that completes leaves the fold of the pages, and one whose requests are all answered
completes. -/
theorem inventory_resumes (hlink : db₀.Linked) (hfresh : ∀ r ∈ db₀.runs, r.purpose ≠ purpose)
    (hserves : Serves root server pages) (h : Attempted U root purpose server db₀ db)
    (henv : env.Honest server) (turns : ℕ) :
    (∀ id, (inventory U root purpose true turns env).result db = .ok id →
        Inventoried U root.root purpose pages id
          ((inventory U root purpose true turns env).final db)) ∧
      (env.Answered → (∃ L, foldPages U root.root 1 pages Table.empty = .ok L) →
        pages.length < turns → ∃ id, (inventory U root purpose true turns env).result db = .ok id) := by
  obtain ⟨-, hok, herror⟩ := inventory_triple hlink hfresh hserves henv turns db
    (h.resumable hlink hfresh hserves)
  constructor
  · intro id hid
    obtain ⟨rfl, hreached⟩ := hok id hid
    exact hreached.inventoried hlink hfresh
  · rintro hall ⟨L, hL⟩ hturns
    cases hres : (inventory U root purpose true turns env).result db with
    | ok id => exact ⟨id, rfl⟩
    | error e =>
      rcases herror e hres with hle | hnot | hscope
      · omega
      · exact absurd hall hnot
      · exact absurd hL (hscope L)

section Example

/-- A page with a file and a folder. -/
def firstPage : ListPage where
  entries :=
    [⟨.file, "a".toList, some "/a".toList, some "/a".toList, none, some 1, none, none⟩,
      ⟨.folder, "b".toList, some "/b".toList, some "/b".toList, none, none, none, none⟩]
  cursor := ['1']
  cursor_ne := by decide

/-- A page that lists the file's path again, as a folder. -/
def secondPage : ListPage where
  entries := [⟨.folder, "a".toList, some "/a".toList, some "/a".toList, none, none, none, none⟩]
  cursor := ['2']
  cursor_ne := by decide

/-- The answer of a listing request. -/
def twoPageCall : ListRequest → ListResult
  | .listFolder _ => ⟨some firstPage.entries, some firstPage.cursor, true⟩
  | .listContinue _ _ => ⟨some secondPage.entries, some secondPage.cursor, false⟩

/-- The server of the two pages. -/
def twoPageServer : Server := ⟨⟨['u'], []⟩, twoPageCall⟩

theorem serves_twoPages : Serves wholeScope twoPageServer [firstPage, secondPage] := by
  refine ⟨by decide, fun done p todo hsplit r hr => ?_⟩
  cases done with
  | nil =>
    obtain ⟨rfl, rfl⟩ := List.cons.inj hsplit
    obtain rfl := Except.ok.inj hr
    rfl
  | cons q done =>
    obtain ⟨rfl, hrest⟩ := List.cons.inj hsplit
    cases done with
    | nil =>
      obtain ⟨rfl, rfl⟩ := List.cons.inj hrest
      obtain rfl := Except.ok.inj hr
      rfl
    | cons q' done => simp at hrest

/-- Requests that are all answered. -/
def answeredEnv : ListingEnv := ⟨.ok ⟨['u'], []⟩, fun r => .ok (twoPageCall r)⟩

/-- Requests of which the second page's fails. -/
def cutEnv : ListingEnv where
  identity := .ok ⟨['u'], []⟩
  call
    | .listFolder r => .ok (twoPageCall (.listFolder r))
    | .listContinue _ _ => .error .call

/-- The tables a call leaves that fails at its second page. -/
def cutDb : InventoryDb :=
  (inventory Unicode.latin wholeScope ['r'] true 3 cutEnv).final
    ⟨Table.empty, Table.empty, fun _ => Table.empty⟩

/-- A call goes on where the one before it failed. -/
theorem inventory_resumes_twoPages : Inventoried Unicode.latin [] ['r'] [firstPage, secondPage] 1
    ((inventory Unicode.latin wholeScope ['r'] true 3 answeredEnv).final cutDb) := by
  have hcut : cutEnv.Honest twoPageServer := by
    refine ⟨fun i hi => (Except.ok.inj hi).symm, fun r a ha => ?_⟩
    cases r with
    | listFolder r => exact (Except.ok.inj ha).symm
    | listContinue c n => cases ha
  have hall : answeredEnv.Honest twoPageServer :=
    ⟨fun i hi => (Except.ok.inj hi).symm, fun r a ha => (Except.ok.inj ha).symm⟩
  exact (inventory_resumes ⟨fun _ h => absurd h List.not_mem_nil, fun _ _ => rfl⟩
    (fun _ h => absurd h List.not_mem_nil) serves_twoPages
    (Attempted.attempt .start cutEnv hcut 3 (Prog.final_mem (by decide))) hall 3).1 1 rfl

end Example

end DropboxMirror
