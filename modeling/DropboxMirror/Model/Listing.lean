import DropboxMirror.Lib.Crash
import DropboxMirror.Model.Inventory

/-!
# The pages of a listing

`DropboxAPIProvider.inventory`: the listing is asked for page by page, and each page is
committed with its cursor in one transaction over `dropbox_inventory_runs`,
`dropbox_pages` and `dropbox_objects`. A call that finds an inventory of its purpose
under way goes on from the cursor committed last.
-/

namespace DropboxMirror

open Crash

/-- `dropbox_inventory_runs.status`. -/
inductive InventoryStatus
  | running
  | complete
  deriving DecidableEq, Repr

/-- A row of `dropbox_inventory_runs`. -/
structure InventoryRun where
  id : ℕ
  status : InventoryStatus
  accountId : Str
  rootNamespaceId : Str
  purpose : Str
  cursor : Option Str
  hasMore : Option Bool
  pageCount : ℕ
  deriving DecidableEq, Repr

/-- A row of `dropbox_pages`. -/
structure PageRow where
  inventoryId : ℕ
  pageNumber : ℕ
  cursorOut : Str
  entryCount : ℕ
  deriving DecidableEq, Repr

/-- The primary key of `dropbox_pages`. -/
def PageRow.key (p : PageRow) : ℕ × ℕ := (p.inventoryId, p.pageNumber)

/-- The three tables; `objects id` is the part of `dropbox_objects` under one inventory. -/
structure InventoryDb where
  runs : Table InventoryRun.id
  pages : Table PageRow.key
  objects : ℕ → Listing

/-- The identity the API answers, as far as an inventory reads it. -/
structure DropboxIdentity where
  accountId : Str
  rootNamespaceId : Str
  deriving DecidableEq, Repr

/-- A listing request: `files/list_folder`, or `files/list_folder/continue`. -/
inductive ListRequest
  | listFolder (request : ApiRequest)
  | listContinue (cursor : Str) (pathRoot : Option Str)
  deriving DecidableEq, Repr

/-- The JSON of an answer; a field of another type than the code asks for is `none`. -/
structure ListResult where
  entries : Option (List ApiEntry)
  cursor : Option Str
  hasMore : Bool

/-- Why an inventory stops. -/
inductive ListingError
  | call
  | lacked
  | scope (error : ApiError)
  | guard (error : GuardError)
  | integrity
  | noRow
  | unfinished
  deriving DecidableEq, Repr

/-- The text of the listing's own errors. -/
def ListingError.message : ListingError → Option String
  | .lacked => some "Dropbox list response lacked entries or cursor"
  | .guard error => some error.message
  | _ => none

/-- What the API answers to one call of `inventory`; retries are inside `call`. -/
structure ListingEnv where
  identity : Except ListingError DropboxIdentity
  call : ListRequest → Except ListingError ListResult

/-- The newest row of the account and the purpose. -/
def InventoryDb.latestRun (db : InventoryDb) (identity : DropboxIdentity) (purpose : Str) :
    Option InventoryRun :=
  ((db.runs.rows.filter fun r => decide (r.accountId = identity.accountId ∧
    r.rootNamespaceId = identity.rootNamespaceId ∧ r.purpose = purpose)).insertionSort
      fun a b => b.id ≤ a.id).head?

/-- The row a new inventory starts with. -/
def startedInventory (id : ℕ) (identity : DropboxIdentity) (purpose : Str) : InventoryRun where
  id := id
  status := .running
  accountId := identity.accountId
  rootNamespaceId := identity.rootNamespaceId
  purpose := purpose
  cursor := none
  hasMore := none
  pageCount := 0

/-- The `INSERT` of `inventory`, and `cursor.lastrowid`. -/
def openInventory (identity : DropboxIdentity) (purpose : Str) : Prog InventoryDb ListingError ℕ := do
  let db ← Prog.get
  Prog.write fun db => { db with
    runs := db.runs.upsert Table.ignore (startedInventory db.runs.nextKey identity purpose) }
  return db.runs.nextKey

/-- A cursor that is true: there is one, and it is not empty. -/
def givenCursor (cursor : Option Str) : Option Str := cursor.filter fun c => decide (c ≠ [])

/-- The request of a turn of the loop. -/
def nextRequest (root : Scope) (rootNamespace : Str) (cursor : Option Str) :
    Except GuardError ListRequest :=
  match givenCursor cursor with
  | some c => .ok (.listContinue c (if rootNamespace = [] then none else some rootNamespace))
  | none => (listFolderRequest root rootNamespace).map .listFolder

/-- `UPDATE dropbox_inventory_runs SET status='COMPLETE'`. -/
def completeInventory (id : ℕ) (db : InventoryDb) : InventoryDb :=
  { db with
    runs := db.runs.modify (fun r => if r.id = id then { r with status := .complete } else r)
      (fun r => by split <;> rfl) }

/-- The transaction of a page: its objects, its row, and the cursor. -/
def commitPage (id page : ℕ) (entryCount : ℕ) (cursorOut : Str) (hasMore : Bool) (objects : Listing)
    (db : InventoryDb) : InventoryDb where
  runs := db.runs.modify
    (fun r => if r.id = id then
      { r with cursor := some cursorOut, hasMore := some hasMore, pageCount := page } else r)
    (fun r => by split <;> rfl)
  pages := db.pages.upsert Table.ignore ⟨id, page, cursorOut, entryCount⟩
  objects := Function.update db.objects id objects

/-- The `while` loop, for so many turns. -/
def inventoryLoop (U : Unicode) (root : Scope) (rootNamespace : Str) (inventoryId : ℕ)
    (env : ListingEnv) : ℕ → Prog InventoryDb ListingError Unit
  | 0 => Prog.fail .unfinished
  | turns + 1 => do
    let db ← Prog.get
    match db.runs.find? inventoryId with
    | none => Prog.fail .noRow
    | some run =>
      let pageNumber := run.pageCount + 1
      if (givenCursor run.cursor).isSome ∧ run.hasMore = some false then
        Prog.write (completeInventory inventoryId)
      else
        match nextRequest root rootNamespace run.cursor with
        | .error e => Prog.fail (.guard e)
        | .ok request =>
          match env.call request with
          | .error e => Prog.fail e
          | .ok result =>
            match result.entries, result.cursor with
            | some entries, some cursorOut =>
              -- one transaction: an entry out of scope or a page twice rolls it back
              match entries.foldlM (upsertEntry U root.root pageNumber) (db.objects inventoryId) with
              | .error e => Prog.fail (.scope e)
              | .ok objects =>
                if (db.pages.find? (inventoryId, pageNumber)).isSome then Prog.fail .integrity
                else do
                  Prog.write
                    (commitPage inventoryId pageNumber entries.length cursorOut result.hasMore objects)
                  inventoryLoop U root rootNamespace inventoryId env turns
            | _, _ => Prog.fail .lacked

/-- `inventory`: the id of the complete inventory. -/
def inventory (U : Unicode) (root : Scope) (purpose : Str) (reuseComplete : Bool) (turns : ℕ)
    (env : ListingEnv) : Prog InventoryDb ListingError ℕ :=
  match env.identity with
  | .error e => Prog.fail e
  | .ok identity => do
    let db ← Prog.get
    let row := db.latestRun identity purpose
    let complete := row.filter fun r => decide (r.status = .complete)
    match if reuseComplete then complete else none with
    | some r => return r.id
    | none => do
      let inventoryId ←
        match if complete.isSome then none else row with
        | some r => pure r.id
        | none => openInventory identity purpose
      inventoryLoop U root identity.rootNamespaceId inventoryId env turns
      return inventoryId

end DropboxMirror
