/-
  The control plane: the handlers of both surfaces (internal/server/handlers and
  internal/server/rpc) over the store (internal/store).

  A handler is a `Process`: each call of the store is a read, and a mutation is the one transaction
  at its end, `WithAudit` around one method of `Tx`.  REST writes a status and a body, Connect
  returns a message or a code.

  Reads can fail (`ReadFault`), but never with the errors that stand for a missing row or a
  violated constraint: a lookup that finds nothing is `ErrNotFound`, which the store makes itself.
  Documents come out of the database as `db` returns them (`flagFromRow`, …).  The segments that a
  publish looks up are read at one moment.

  * `execute` — a transaction, as it fares; **`withAudit_execute`** says that `WithAudit` with its
    retries is one of these;
  * `rest`, `connect` — the handlers of the two surfaces.
-/
import FalseFlag.Lib.Processes
import FalseFlag.Flags
import FalseFlag.Mutators
import FalseFlag.Trace
import FalseFlag.Operator.Reconcile

namespace FalseFlag.Server

open JsonTree Processes Versioned Retry Mutators

/-! ## The store -/

/-- The database of the server. -/
abbrev Db := Database Mutators.Store

abbrev emptyDb : Db := ⟨emptyStore, []⟩

/-- `IsConflict`. -/
def isConflict (e : DbError) : Bool :=
  match e.pgCode? with
  | some code => code = "23505" || code = "23503"
  | none =>
    match e.sqliteCode? with
    | some code => code = 2067 || code = 1555 || code = 787
    | none => false

/-- Why a `SELECT` fails, and the text of the error. -/
structure ReadFault where
  error : DbError
  text : String
  notFound : error.is .notFound = false
  conflict : isConflict error = false

/-- What `WithAudit` is called with. -/
structure Audited where
  event : AppendAuditParams
  mutation : Mutators.Mutation

/-- A handler that answers with an `α`. -/
abbrev Handler (α : Type) := Process Db ReadFault Audited (Except DbError Mutators.Row) α

/-- How a call of `WithAudit` fares: it gives up with an error, or an attempt is committed in which
    the statements draw what is given. -/
abbrev Fate := Except DbError Given

/-- A call of `WithAudit`: the database afterwards, and what the handler gets. -/
def execute (b : Backend) (db : Db) (t : Audited) : Fate → Db × Except DbError Mutators.Row
  | .error e => (db, .error e)
  | .ok g =>
    match t.mutation.tx b g db.tables with
    | .error e => (db, .error e)
    | .ok (s, row) => (⟨s, db.audit ++ [t.event]⟩, .ok row)

/-- **All a transaction can do**: append its event and do its mutation, or nothing. -/
theorem execute_cases (b : Backend) (db : Db) (t : Audited) (w : Fate) :
    (∃ g s row, w = .ok g ∧ t.mutation.tx b g db.tables = .ok (s, row) ∧
      execute b db t w = (⟨s, db.audit ++ [t.event]⟩, .ok row)) ∨
    ∃ e, execute b db t w = (db, .error e) := by
  rcases w with e | g
  · exact .inr ⟨e, rfl⟩
  · rw [execute]
    rcases h : t.mutation.tx b g db.tables with e | ⟨s, row⟩
    · exact .inr ⟨e, rfl⟩
    · exact .inl ⟨g, s, row, rfl, h, rfl⟩

/-- An attempt that is committed works on the database; one that is not may see anything. -/
def attemptOn (db : Db) (a : Attempt Mutators.Store Given) :
    Attempt Mutators.Store Given :=
  match a.commit with
  | none => { a with base := db }
  | some _ => a

/-- The call of `WithAudit`. -/
def Audited.withAudit (b : Backend) (db : Db) (t : Audited)
    (attempts : ℕ → Attempt Mutators.Store Given) :
    Call (Option Mutators.Row) DbError Db :=
  b.withAudit t.event (fun g s k => Mutators.returned k (t.mutation.tx b g s))
    (fun i => attemptOn db (attempts i)) none

/-- What the handler has after the call: the error, or the variable that the closure has set. -/
def callResult (call : Call (Option Mutators.Row) DbError Db) :
    Option (Except DbError Mutators.Row) :=
  match call.ended, call.captured with
  | some .ok, some row => some (.ok row)
  | some (.failed e), _ => some (.error e)
  | _, _ => none

/-- A closure that does a mutation does not panic. -/
theorem once_not_panicked (b : Backend) (t : Audited) (a : Attempt Mutators.Store Given)
    (k : Option Mutators.Row) :
    (b.once t.event (fun g s k => Mutators.returned k (t.mutation.tx b g s)) a k).ending ≠
      .panicked := by
  intro h
  rw [b.once_eq, runOnceTx, auditedTx] at h
  rcases hbegin : a.begin with _ | e
  · rw [hbegin] at h
    rcases htx : t.mutation.tx b a.statements a.base.tables with e | ⟨s, row⟩
    · simp only [htx, Mutators.returned] at h
      cases h
    · simp only [htx, Mutators.returned] at h
      rcases haudit : a.audit with _ | e
      · rcases hcommit : a.commit with _ | e
        · simp only [haudit, hcommit] at h
          cases h
        · simp only [haudit, hcommit] at h
          cases h
      · simp only [haudit] at h
        cases h
  · rw [hbegin] at h
    cases h

/-- An attempt that is committed is a transaction of the model. -/
theorem execute_of_committed {b : Backend} {db : Db} {t : Audited}
    {a : Attempt Mutators.Store Given} {k : Option Mutators.Row}
    (h : (b.once t.event (fun g s k => Mutators.returned k (t.mutation.tx b g s))
      (attemptOn db a) k).ending = .ok) {db' : Db} {k' : Option Mutators.Row}
    (hby : CommittedBy t.event (fun g s k => Mutators.returned k (t.mutation.tx b g s))
      (attemptOn db a) db' k') :
    ∃ row, k' = some row ∧ execute b db t (.ok a.statements) = (db', .ok row) := by
  have hcommit := commit_of_ok h
  have hon : attemptOn db a = { a with base := db } := by
    unfold attemptOn at hcommit ⊢
    rcases hc : a.commit with _ | e
    · rfl
    · rw [hc] at hcommit
      rw [hc] at hcommit
      cases hcommit
  obtain ⟨k0, s, hfn, rfl⟩ := hby
  rw [hon] at hfn ⊢
  rw [execute]
  change Mutators.returned k0 (t.mutation.tx b a.statements db.tables) = _ at hfn
  rcases htx : t.mutation.tx b a.statements db.tables with e | ⟨s', row⟩
  · rw [htx] at hfn
    cases hfn
  · rw [htx] at hfn
    cases hfn
    exact ⟨row, rfl, rfl⟩

/-- **`WithAudit` is a transaction of the model.**  However its attempts fare, retries included, the
    call ends, and there is a fate for which `execute` returns what the call returns and leaves the
    database that the call leaves. -/
theorem withAudit_execute (b : Backend) (db : Db) (t : Audited)
    (attempts : ℕ → Attempt Mutators.Store Given) :
    ∃ w, callResult (t.withAudit b db attempts) = some (execute b db t w).2 ∧
      (t.withAudit b db attempts).commits.getLast?.getD db = (execute b db t w).1 := by
  have hkept : Kept (fun db' k' => ∃ g row, k' = some row ∧ execute b db t (.ok g) = (db', .ok row))
      (t.withAudit b db attempts) :=
    run_kept (fun i k => by
      obtain ⟨hok, hno⟩ := b.atomic_once t.event
        (fun g s k => Mutators.returned k (t.mutation.tx b g s)) (attemptOn db (attempts i)) k
      refine ⟨fun h => ?_, hno⟩
      obtain ⟨db', hdb', hby⟩ := hok h
      obtain ⟨row, hrow, hexecute⟩ := execute_of_committed h hby
      exact ⟨db', hdb', _, row, hrow, hexecute⟩) none _
  have hpanic : (t.withAudit b db attempts).ended ≠ some .panicked :=
    run_not_panicked (fun i k => once_not_panicked b t _ k) none _
  obtain ⟨ending, hended⟩ : ∃ ending, (t.withAudit b db attempts).ended = some ending :=
    finished_of_steps _ _ none
  cases ending with
  | ok =>
    obtain ⟨db', hcommits, g, row, hrow, hexecute⟩ := hkept.1 hended
    refine ⟨.ok g, ?_, ?_⟩
    · rw [callResult, hended, hrow, hexecute]
    · rw [hcommits, hexecute]
      rfl
  | failed e =>
    have hcommits := hkept.2 (by rw [hended]; nofun)
    refine ⟨.error e, ?_, ?_⟩
    · rw [callResult, hended]
      rfl
    · rw [hcommits]
      rfl
  | panicked => exact absurd hended hpanic

/-! ### Reads -/

section Reads

variable (db : Medium)

/-- `flagFromRow`: the default comes back as the database returns it. -/
def flagFromRow (r : Mutators.Flag) : Mutators.Flag :=
  { r with defaultValue := db.pass r.defaultValue }

/-- `segmentFromRow`. -/
def segmentFromRow (r : Mutators.Segment) : Mutators.Segment :=
  { r with predicate := db.pass r.predicate }

/-- `flagVersionFromRow`. -/
def flagVersionFromRow (r : FlagVersionRow) : FlagVersionRow :=
  { r with params :=
      { r.params with source := db.pass r.params.source, compiled := db.pass r.params.compiled } }

/-- `snapshotFromRow`. -/
def snapshotFromRow (r : SnapshotRow) : SnapshotRow :=
  { r with params := { r.params with compiled := db.pass r.params.compiled } }

/-- A `SELECT … :one`: no row is `ErrNotFound`, any other error is wrapped. -/
def selectOne {β : Type} (text : String) (query : Mutators.Store → Option β) :
    Except ReadFault Db → Except DbError β
  | .error fault => .error (.wrap text fault.error)
  | .ok d =>
    match query d.tables with
    | none => .error .notFound
    | some row => .ok row

/-- A `SELECT … :many`. -/
def selectMany {β : Type} (text : String) (query : Mutators.Store → List β) :
    Except ReadFault Db → Except DbError (List β)
  | .error fault => .error (.wrap text fault.error)
  | .ok d => .ok (query d.tables)

def getProjectBySlug (slug : String) : Except ReadFault Db → Except DbError Project :=
  selectOne "store: get project" fun s => s.projects.find? (·.slug = slug)

def getEnvironmentBySlug (projectId : Nat) (slug : String) :
    Except ReadFault Db → Except DbError Environment :=
  selectOne "store: get environment" fun s =>
    s.environments.find? fun r => r.projectId = projectId ∧ r.slug = slug

def getFlagByKey (projectId : Nat) (key : String) :
    Except ReadFault Db → Except DbError Mutators.Flag :=
  selectOne "store: get flag" fun s =>
    (s.flags.find? fun r => r.projectId = projectId ∧ r.key = key).map (flagFromRow db)

def getSegmentByKey (projectId : Nat) (key : String) :
    Except ReadFault Db → Except DbError Mutators.Segment :=
  selectOne "store: get segment" fun s =>
    (s.segments.find? fun r => r.projectId = projectId ∧ r.key = key).map (segmentFromRow db)

def getLatestFlagVersion (flagId : Nat) : Except ReadFault Db → Except DbError FlagVersionRow :=
  selectOne "store: latest version" fun s =>
    (s.versions.flagVersions.latest flagId).map (flagVersionFromRow db)

/-- `ListFlagVersions`: the numbers grow, so newest first is the other way round. -/
def listFlagVersions (flagId : Nat) : Except ReadFault Db → Except DbError (List FlagVersionRow) :=
  selectMany "store: list versions" fun s =>
    ((s.versions.flagVersions.of flagId).map (flagVersionFromRow db)).reverse

def getLatestSnapshot (projectId : Nat) : Except ReadFault Db → Except DbError SnapshotRow :=
  selectOne "store: latest snapshot" fun s =>
    (s.versions.snapshots.latest projectId).map (snapshotFromRow db)

def getSnapshotByID (projectId id : Nat) : Except ReadFault Db → Except DbError SnapshotRow :=
  selectOne "store: get snapshot" fun s =>
    ((s.versions.snapshots.of projectId).find? (·.id = id)).map (snapshotFromRow db)

/-- `ListSnapshotsByProject`: Postgres refuses a negative `LIMIT`, for SQLite it is none. -/
def listSnapshotsByProject (b : Backend) (projectId : Nat) (limit : Int32)
    (r : Except ReadFault Db) : Except DbError (List SnapshotRow) :=
  let rows := selectMany "store: list snapshots" (fun s =>
    ((s.versions.snapshots.of projectId).map (snapshotFromRow db)).reverse) r
  if limit < 0 then
    match b with
    | .postgres => .error (.wrap "store: list snapshots" (.pg "2201W"))
    | .sqlite => rows
  else rows.map (List.take limit.toInt.toNat)

/-- `ORDER BY created_at ASC`; rows of one moment stay as they are. -/
def oldestFirst {β : Type} (createdAt : β → Nat) (rows : List β) : List β :=
  rows.mergeSort fun r r' => createdAt r ≤ createdAt r'

/-- `ORDER BY created_at DESC`. -/
def newestFirst {β : Type} (createdAt : β → Nat) (rows : List β) : List β :=
  rows.mergeSort fun r r' => createdAt r' ≤ createdAt r

def listProjects : Except ReadFault Db → Except DbError (List Project) :=
  selectMany "store: list projects" fun s => newestFirst (·.createdAt) s.projects

def listEnvironmentsByProject (projectId : Nat) :
    Except ReadFault Db → Except DbError (List Environment) :=
  selectMany "store: list environments" fun s =>
    oldestFirst (·.createdAt) (s.environments.filter (·.projectId = projectId))

def listFlagsByProject (projectId : Nat) :
    Except ReadFault Db → Except DbError (List Mutators.Flag) :=
  selectMany "store: list flags" fun s =>
    (newestFirst (·.createdAt) (s.flags.filter (·.projectId = projectId))).map (flagFromRow db)

def listSegmentsByProject (projectId : Nat) :
    Except ReadFault Db → Except DbError (List Mutators.Segment) :=
  selectMany "store: list segments" fun s =>
    (oldestFirst (·.createdAt) (s.segments.filter (·.projectId = projectId))).map
      (segmentFromRow db)

/-- `ListLatestFlagVersions`, with the keys of the flags. -/
def listLatestFlagVersions (projectId : Nat) :
    Except ReadFault Db → Except DbError (List (String × FlagVersionRow)) :=
  selectMany "store: list latest flag versions" fun s =>
    (s.flags.filter (·.projectId = projectId)).filterMap fun flag =>
      (s.versions.flagVersions.latest flag.id).map fun v => (flag.key, flagVersionFromRow db v)

end Reads

/-! ## What handlers share -/

/-- What an error body tells: an error of the store, or a text. -/
inductive Failure where
  | store (e : DbError)
  | text (s : String)

/-- The body of an answer. -/
inductive Reply where
  | project (r : Project)
  | projectList (rs : List Project)
  | environment (r : Environment)
  | environmentList (rs : List Environment)
  | flag (r : Mutators.Flag)
  | flagList (rs : List Mutators.Flag)
  | flagWithLatest (r : Mutators.Flag) (latest : Option FlagVersionRow)
  | flagVersion (r : FlagVersionRow)
  | flagVersionList (rs : List FlagVersionRow)
  | segment (r : Mutators.Segment)
  | segmentList (rs : List Mutators.Segment)
  | snapshot (r : SnapshotRow)
  | snapshotList (rs : List SnapshotRow)
  | decision (d : Decision)
  | evaluateTrace (d : Decision) (t : Trace)

/-- The variable that the closure has set. -/
def Reply.ofRow (db : Medium) : Mutators.Row → Reply
  | .project r => .project r
  | .environment r => .environment r
  | .flag r => .flag (flagFromRow db r)
  | .segment r => .segment (segmentFromRow db r)
  | .snapshot r => .snapshot (snapshotFromRow db r)
  | .flagVersion r => .flagVersion (flagVersionFromRow db r)

/-- The text of a source. -/
def sourceString (env : Env) : Source → String
  | .text s => s
  | .json d => env.docText d

/-- The text of the error of a read. -/
def faultText : Except ReadFault Db → String
  | .error fault => fault.text
  | .ok _ => ""

/-- `storeSegmentResolver.ResolveSegment`. -/
def resolveSegment (env : Env) (db : Medium) (projectId : Nat) (r : Except ReadFault Db) :
    SegmentResolver :=
  fun key =>
    match getSegmentByKey db projectId key r with
    | .error err =>
      if err.is .notFound then .error ("segment " ++ env.quote key ++ " does not exist")
      else .error ("looking up segment " ++ env.quote key ++ ": store: get segment: " ++ faultText r)
    | .ok seg =>
      match unmarshalPredicate seg.predicate with
      | .error _ => .error ("decoding segment " ++ env.quote key ++ " predicate: "
          ++ env.jsonErrorText (.json seg.predicate))
      | .ok pred => .ok (some pred)

/-- `compileBundle`: the flags of the bundle, by key. -/
def compileBundle (env : Env) (db : Medium) (projectId : Nat) (r : Except ReadFault Db) :
    Except Failure (List (String × RulesTree)) :=
  match listLatestFlagVersions db projectId r with
  | .error err => .error (.store (.wrap "listing latest versions" err))
  | .ok latest =>
    insertEach Prod.fst (fun lv => (decodeTree lv.2.params.compiled).mapError fun _ =>
      .text ("decoding compiled IR for " ++ lv.1 ++ ": "
        ++ env.jsonErrorText (.json lv.2.params.compiled))) [] latest

/-- `json.Marshal(bundle)`. -/
def encodeBundle (flags : List (String × RulesTree)) : Doc :=
  .obj [("flags", .obj (flags.map fun f => (f.1, encodeTree f.2)))]

/-! ### The audit events -/

def createProjectEvent (actor slug : String) : AppendAuditParams :=
  ⟨none, none, "create_project", actor, .obj [("slug", .str slug)]⟩

def createEnvironmentEvent (projectId : Nat) (actor slug : String) : AppendAuditParams :=
  ⟨some projectId, none, "create_environment", actor, .obj [("slug", .str slug)]⟩

def createFlagEvent (projectId : Nat) (actor key : String) : AppendAuditParams :=
  ⟨some projectId, none, "create_flag", actor, .obj [("key", .str key)]⟩

def createSegmentEvent (projectId : Nat) (actor key : String) : AppendAuditParams :=
  ⟨some projectId, none, "create_segment", actor, .obj [("key", .str key)]⟩

def updateSegmentEvent (projectId : Nat) (actor key : String) : AppendAuditParams :=
  ⟨some projectId, none, "update_segment", actor, .obj [("key", .str key)]⟩

/-- A Go map is marshalled with its keys in order. -/
def publishVersionEvent (projectId flagId : Nat) (actor strategy flagKey : String) :
    AppendAuditParams :=
  ⟨some projectId, some flagId, "publish_version", actor,
    .obj [("flag_key", .str flagKey), ("strategy", .str strategy)]⟩

def compileSnapshotEvent (projectId : Nat) (actor : String) (flagCount : Nat) : AppendAuditParams :=
  ⟨some projectId, none, "compile_snapshot", actor, .obj [("flag_count", .num (.int flagCount))]⟩

/-! ## REST -/

/-- What a REST handler writes; `crashed` if resolving the segments of a publish never ends. -/
inductive RestResponse where
  | json (status : Nat) (body : Reply)
  | error (status : Nat) (failure : Failure)
  | crashed

structure CreateProjectRequest where
  slug : String
  displayName : String
  configStrategy : String

structure CreateEnvironmentRequest where
  slug : String
  name : String

structure CreateFlagRequest where
  key : String
  name : String
  description : Option String
  valueType : String
  defaultValue : Value

structure PublishFlagVersionRequest where
  strategy : String
  source : Value
  sourceText : Option Source

structure CreateSegmentRequest where
  key : String
  name : String
  description : Option String
  predicate : Option Value

structure UpdateSegmentRequest where
  name : String
  description : Option String
  predicate : Option Value

/-- The body of a request: decoded, or the text of the error of `decodeJSON`. -/
abbrev Body (β : Type) := Except String β

namespace Rest

/-- `badRequest`. -/
def badRequest (text : String) : RestResponse := .error 400 (.text text)

/-- `notFoundOrError`. -/
def notFoundOrError (e : DbError) : RestResponse :=
  if e.is .notFound then .error 404 (.store e) else .error 500 (.store e)

/-- `writeStoreErr`. -/
def writeStoreErr (e : DbError) : RestResponse :=
  if e.is .notFound then .error 404 (.store e)
  else if isConflict e then .error 409 (.store e)
  else .error 500 (.store e)

section Handlers

variable (env : Env) (db : Medium) (b : Backend)

/-- The end of a mutation: `writeStoreErr`, or the row that the closure has set. -/
def written (status : Nat) : Except DbError Mutators.Row → RestResponse
  | .error err => writeStoreErr err
  | .ok row => .json status (Reply.ofRow db row)

/-- `row, err := a.Store.Get…; if err != nil { notFoundOrError(w, err); return }`. -/
def withRow {β : Type} (query : Except ReadFault Db → Except DbError β)
    (k : β → Handler RestResponse) : Handler RestResponse :=
  .read fun r =>
    match query r with
    | .error err => .answer (notFoundOrError err)
    | .ok row => k row

/-- `rows, err := a.Store.List…; if err != nil { writeError(w, 500, err); return }`. -/
def withRows {β : Type} (query : Except ReadFault Db → Except DbError (List β))
    (k : List β → Handler RestResponse) : Handler RestResponse :=
  .read fun r =>
    match query r with
    | .error err => .answer (.error 500 (.store err))
    | .ok rows => k rows

def withProject (slug : String) : (Project → Handler RestResponse) → Handler RestResponse :=
  withRow (getProjectBySlug slug)

def withFlag (projectId : Nat) (key : String) :
    (Mutators.Flag → Handler RestResponse) → Handler RestResponse :=
  withRow (getFlagByKey db projectId key)

/-- `if err := decodeJSON(r, &req); err != nil { badRequest(w, err); return }`. -/
def withBody {β : Type} (body : Body β) (k : β → Handler RestResponse) : Handler RestResponse :=
  match body with
  | .error text => .answer (badRequest text)
  | .ok req => k req

/-- A list of what a project has. -/
def listOf {β : Type} (query : Nat → Except ReadFault Db → Except DbError (List β))
    (reply : List β → Reply) (slug : String) : Handler RestResponse :=
  withProject slug fun proj => withRows (query proj.id) fun rows => .answer (.json 200 (reply rows))

def listProjects : Handler RestResponse :=
  withRows Server.listProjects fun rows => .answer (.json 200 (.projectList rows))

def getProject (slug : String) : Handler RestResponse :=
  withProject slug fun proj => .answer (.json 200 (.project proj))

def createProject (actor : String) (body : Body CreateProjectRequest) : Handler RestResponse :=
  withBody body fun req =>
    match Strategy.parse req.configStrategy with
    | none => .answer (badRequest ("invalid config_strategy " ++ env.quote req.configStrategy))
    | some _ =>
      .transact ⟨createProjectEvent actor req.slug,
          .createProject ⟨req.slug, req.displayName, req.configStrategy⟩⟩ (written db 201)

def listEnvironments : String → Handler RestResponse :=
  listOf listEnvironmentsByProject .environmentList

def getEnvironment (slug envSlug : String) : Handler RestResponse :=
  withProject slug fun proj => withRow (getEnvironmentBySlug proj.id envSlug) fun e =>
    .answer (.json 200 (.environment e))

def createEnvironment (slug actor : String) (body : Body CreateEnvironmentRequest) :
    Handler RestResponse :=
  withProject slug fun proj => withBody body fun req =>
    .transact ⟨createEnvironmentEvent proj.id actor req.slug,
        .createEnvironment ⟨proj.id, req.slug, req.name⟩⟩ (written db 201)

def listFlags : String → Handler RestResponse := listOf (listFlagsByProject db) .flagList

def getFlag (slug key : String) : Handler RestResponse :=
  withProject slug fun proj => withFlag db proj.id key fun flag => .read fun r =>
    match getLatestFlagVersion db flag.id r with
    | .ok latest => .answer (.json 200 (.flagWithLatest flag (some latest)))
    | .error err =>
      if err.is .notFound then .answer (.json 200 (.flagWithLatest flag none))
      else .answer (.error 500 (.store err))

def createFlag (slug actor : String) (body : Body CreateFlagRequest) : Handler RestResponse :=
  withProject slug fun proj => withBody body fun req =>
    .transact ⟨createFlagEvent proj.id actor req.key,
        .createFlag ⟨proj.id, req.key, req.name, req.description.getD "", req.valueType,
          marshalAny req.defaultValue⟩⟩ (written db 201)

/-- `PublishFlagVersion`. -/
def publishFlagVersion (fuel : Nat) (slug key actor : String)
    (body : Body PublishFlagVersionRequest) : Handler RestResponse :=
  withProject slug fun proj => withFlag db proj.id key fun flag => withBody body fun req =>
    match Strategy.parse req.strategy with
    | none => .answer (badRequest ("invalid strategy " ++ env.quote req.strategy))
    | some strategy =>
      let sourceRaw := marshalAny req.source
      let sourceText := req.sourceText.getD (.text "")
      let usesText := decide (strategy = .typescript) && !sourceText.isEmpty
      let compileInput := if usesText then sourceText else .json sourceRaw
      .read fun r =>
        match resolveSegmentRefs env (resolveSegment env db proj.id r) fuel compileInput with
        | none => .answer .crashed
        | some (.error err) => .answer (badRequest err.text)
        | some (.ok resolved) =>
          match compile env (.known strategy) resolved with
          | .error err =>
            if err.sentinel = .errUnknownStrategy then .answer (badRequest err.text)
            else .answer (.error 422 (.text err.text))
          | .ok compiled =>
            let compiledRaw := encodeTree compiled.ir
            let persistedSource := if usesText then compiledRaw else sourceRaw
            .transact ⟨publishVersionEvent proj.id flag.id actor strategy.name flag.key,
                .publishFlagVersion ⟨flag.id, strategy.name, persistedSource, compiledRaw,
                  sourceString env sourceText⟩⟩ (written db 200)

def listFlagVersions (slug key : String) : Handler RestResponse :=
  withProject slug fun proj => withFlag db proj.id key fun flag =>
    withRows (Server.listFlagVersions db flag.id) fun rows =>
      .answer (.json 200 (.flagVersionList rows))

def listSegments : String → Handler RestResponse := listOf (listSegmentsByProject db) .segmentList

def getSegment (slug segKey : String) : Handler RestResponse :=
  withProject slug fun proj => withRow (getSegmentByKey db proj.id segKey) fun seg =>
    .answer (.json 200 (.segment seg))

def createSegment (slug actor : String) (body : Body CreateSegmentRequest) :
    Handler RestResponse :=
  withProject slug fun proj => withBody body fun req =>
    match normalizePredicate env req.predicate with
    | .error text => .answer (badRequest text)
    | .ok predicate =>
      .transact ⟨createSegmentEvent proj.id actor req.key,
          .createSegment ⟨proj.id, req.key, req.name, req.description.getD "", predicate.doc⟩⟩
        (written db 201)

def updateSegment (slug segKey actor : String) (body : Body UpdateSegmentRequest) :
    Handler RestResponse :=
  withProject slug fun proj => withBody body fun req =>
    match normalizePredicate env req.predicate with
    | .error text => .answer (badRequest text)
    | .ok predicate =>
      .transact ⟨updateSegmentEvent proj.id actor segKey,
          .updateSegment ⟨proj.id, segKey, req.name, req.description.getD "", predicate.doc⟩⟩
        (written db 200)

def listSnapshots (slug : String) (limit : Option Int32) : Handler RestResponse :=
  listOf (fun projectId => listSnapshotsByProject db b projectId (limit.getD 50)) .snapshotList slug

def getLatestSnapshot (slug : String) : Handler RestResponse :=
  withProject slug fun proj => withRow (Server.getLatestSnapshot db proj.id) fun snap =>
    .answer (.json 200 (.snapshot snap))

def getSnapshot (slug : String) (id : Nat) : Handler RestResponse :=
  withProject slug fun proj => withRow (getSnapshotByID db proj.id id) fun snap =>
    .answer (.json 200 (.snapshot snap))

/-- The second half of `CompileSnapshot`. -/
def compileAndInsert (actor : String) (projectId : Nat) (envId : Option Nat) :
    Handler RestResponse :=
  .read fun r =>
    match compileBundle env db projectId r with
    | .error failure => .answer (.error 500 failure)
    | .ok flags =>
      .transact ⟨compileSnapshotEvent projectId actor flags.length,
          .compileSnapshot ⟨projectId, envId, encodeBundle flags⟩⟩ (written db 201)

/-- `CompileSnapshot`: the body is read only if there is one. -/
def compileSnapshot (slug actor : String) (body : Option (Body (Option String))) :
    Handler RestResponse :=
  withProject slug fun proj =>
    match body with
    | none => compileAndInsert env db actor proj.id none
    | some body => withBody body fun environmentSlug =>
      match environmentSlug with
      | none | some "" => compileAndInsert env db actor proj.id none
      | some envSlug => .read fun r =>
        match getEnvironmentBySlug proj.id envSlug r with
        | .error err =>
          if err.is .notFound then
            .answer (badRequest ("environment " ++ env.quote envSlug ++ " does not exist"))
          else .answer (.error 500 (.store err))
        | .ok e => compileAndInsert env db actor proj.id (some e.id)

/-- `loadEvaluation`. -/
def loadEvaluation (slug key : String) (body : Body Context)
    (k : Compiled → Nat → Context → RestResponse) : Handler RestResponse :=
  withProject slug fun proj => withFlag db proj.id key fun flag =>
    withRow (getLatestFlagVersion db flag.id) fun version => withBody body fun ctx =>
      match compile env (.ofString version.params.strategy) (.json version.params.compiled) with
      | .error err => .answer (.error 500 (.text ("rehydrating IR: " ++ err.text)))
      | .ok compiled => .answer (k compiled version.version ctx)

def evaluateFlag (slug key : String) (body : Body Context) : Handler RestResponse :=
  loadEvaluation env db slug key body fun compiled version ctx =>
    match evaluate env compiled ctx version with
    | .error err => .error 500 (.text err)
    | .ok d => .json 200 (.decision d)

def evaluateFlagWithTrace (slug key : String) (body : Body Context) : Handler RestResponse :=
  loadEvaluation env db slug key body fun compiled version ctx =>
    match evaluateWithTrace env compiled ctx version with
    | .error err => .error 500 (.text err)
    | .ok (d, t) => .json 200 (.evaluateTrace d t)

end Handlers

end Rest

/-- The requests of the REST surface. -/
inductive RestRequest where
  | listProjects
  | listEnvironments (slug : String)
  | listFlags (slug : String)
  | listSegments (slug : String)
  | getProject (slug : String)
  | createProject (actor : String) (body : Body CreateProjectRequest)
  | getEnvironment (slug envSlug : String)
  | createEnvironment (slug actor : String) (body : Body CreateEnvironmentRequest)
  | getFlag (slug key : String)
  | createFlag (slug actor : String) (body : Body CreateFlagRequest)
  | publishFlagVersion (fuel : Nat) (slug key actor : String) (body : Body PublishFlagVersionRequest)
  | listFlagVersions (slug key : String)
  | getSegment (slug segKey : String)
  | createSegment (slug actor : String) (body : Body CreateSegmentRequest)
  | updateSegment (slug segKey actor : String) (body : Body UpdateSegmentRequest)
  | listSnapshots (slug : String) (limit : Option Int32)
  | getLatestSnapshot (slug : String)
  | getSnapshot (slug : String) (id : Nat)
  | compileSnapshot (slug actor : String) (body : Option (Body (Option String)))
  | evaluateFlag (slug key : String) (body : Body Context)
  | evaluateFlagWithTrace (slug key : String) (body : Body Context)

/-- The handler of a request. -/
def rest (env : Env) (db : Medium) (b : Backend) : RestRequest → Handler RestResponse
  | .listProjects => Rest.listProjects
  | .listEnvironments slug => Rest.listEnvironments slug
  | .listFlags slug => Rest.listFlags db slug
  | .listSegments slug => Rest.listSegments db slug
  | .getProject slug => Rest.getProject slug
  | .createProject actor body => Rest.createProject env db actor body
  | .getEnvironment slug envSlug => Rest.getEnvironment slug envSlug
  | .createEnvironment slug actor body => Rest.createEnvironment db slug actor body
  | .getFlag slug key => Rest.getFlag db slug key
  | .createFlag slug actor body => Rest.createFlag db slug actor body
  | .publishFlagVersion fuel slug key actor body =>
    Rest.publishFlagVersion env db fuel slug key actor body
  | .listFlagVersions slug key => Rest.listFlagVersions db slug key
  | .getSegment slug segKey => Rest.getSegment db slug segKey
  | .createSegment slug actor body => Rest.createSegment env db slug actor body
  | .updateSegment slug segKey actor body => Rest.updateSegment env db slug segKey actor body
  | .listSnapshots slug limit => Rest.listSnapshots db b slug limit
  | .getLatestSnapshot slug => Rest.getLatestSnapshot db slug
  | .getSnapshot slug id => Rest.getSnapshot db slug id
  | .compileSnapshot slug actor body => Rest.compileSnapshot env db slug actor body
  | .evaluateFlag slug key body => Rest.evaluateFlag env db slug key body
  | .evaluateFlagWithTrace slug key body => Rest.evaluateFlagWithTrace env db slug key body

/-! ## Connect -/

/-- `pb.Strategy`, an open enumeration. -/
inductive ProtoStrategy where
  | unspecified | json | cel | typescript
  | unrecognized (n : Int)

/-- `strategyFromProto`. -/
def strategyFromProto : ProtoStrategy → String
  | .json => "json"
  | .cel => "cel"
  | .typescript => "typescript"
  | .unspecified | .unrecognized _ => ""

/-- `pb.Strategy.String`: the number, if it has no name. -/
def ProtoStrategy.text : ProtoStrategy → String
  | .unspecified => "STRATEGY_UNSPECIFIED"
  | .json => "STRATEGY_JSON"
  | .cel => "STRATEGY_CEL"
  | .typescript => "STRATEGY_TYPESCRIPT"
  | .unrecognized n => toString n

/-- `pb.ValueType`. -/
inductive ProtoValueType where
  | unspecified | boolean | string | number | object
  | unrecognized (n : Int)

/-- `valueTypeFromProto`. -/
def valueTypeFromProto : ProtoValueType → String
  | .boolean => "boolean"
  | .string => "string"
  | .number => "number"
  | .object => "object"
  | .unspecified | .unrecognized _ => ""

/-- What a Connect handler returns. -/
inductive ConnectResponse where
  | response (msg : Reply)
  | error (code : Operator.Code) (failure : Failure)
  | crashed

namespace Connect

/-- `connectError`. -/
def connectError (e : DbError) : ConnectResponse :=
  if e.is .notFound then .error .notFound (.store e)
  else if isConflict e then .error .alreadyExists (.store e)
  else .error .internal (.store e)

/-- `badRequest`. -/
def badRequest (text : String) : ConnectResponse := .error .invalidArgument (.text text)

section Handlers

variable (env : Env) (db : Medium) (b : Backend)

/-- The end of a mutation. -/
def returned : Except DbError Mutators.Row → ConnectResponse
  | .error err => connectError err
  | .ok row => .response (Reply.ofRow db row)

/-- `row, err := h.store.Get…; if err != nil { return nil, connectError(err) }`. -/
def withRow {β : Type} (query : Except ReadFault Db → Except DbError β)
    (k : β → Handler ConnectResponse) : Handler ConnectResponse :=
  .read fun r =>
    match query r with
    | .error err => .answer (connectError err)
    | .ok row => k row

def withProject (slug : String) :
    (Project → Handler ConnectResponse) → Handler ConnectResponse :=
  withRow (getProjectBySlug slug)

def withFlag (projectId : Nat) (key : String) :
    (Mutators.Flag → Handler ConnectResponse) → Handler ConnectResponse :=
  withRow (getFlagByKey db projectId key)

def listOf {β : Type} (query : Nat → Except ReadFault Db → Except DbError (List β))
    (reply : List β → Reply) (slug : String) : Handler ConnectResponse :=
  withProject slug fun proj => withRow (query proj.id) fun rows => .answer (.response (reply rows))

def listProjects : Handler ConnectResponse :=
  withRow Server.listProjects fun rows => .answer (.response (.projectList rows))

def getProject (slug : String) : Handler ConnectResponse :=
  withProject slug fun p => .answer (.response (.project p))

def createProject (actor slug displayName : String) (configStrategy : ProtoStrategy) :
    Handler ConnectResponse :=
  match Strategy.parse (strategyFromProto configStrategy) with
  | none => .answer (badRequest ("invalid config_strategy " ++ env.quote configStrategy.text))
  | some _ =>
    .transact ⟨createProjectEvent actor slug,
        .createProject ⟨slug, displayName, strategyFromProto configStrategy⟩⟩ (returned db)

def listEnvironments : String → Handler ConnectResponse :=
  listOf listEnvironmentsByProject .environmentList

def getEnvironment (slug envSlug : String) : Handler ConnectResponse :=
  withProject slug fun proj => withRow (getEnvironmentBySlug proj.id envSlug) fun e =>
    .answer (.response (.environment e))

def createEnvironment (slug actor envSlug name : String) : Handler ConnectResponse :=
  withProject slug fun proj =>
    .transact ⟨createEnvironmentEvent proj.id actor envSlug,
        .createEnvironment ⟨proj.id, envSlug, name⟩⟩ (returned db)

def listFlags : String → Handler ConnectResponse := listOf (listFlagsByProject db) .flagList

def getFlag (slug key : String) : Handler ConnectResponse :=
  withProject slug fun proj => withFlag db proj.id key fun flag => .read fun r =>
    match getLatestFlagVersion db flag.id r with
    | .ok v => .answer (.response (.flagWithLatest flag (some v)))
    | .error err =>
      if err.is .notFound then .answer (.response (.flagWithLatest flag none))
      else .answer (connectError err)

/-- `CreateFlag`; a missing default is nil. -/
def createFlag (slug actor key name description : String) (valueType : ProtoValueType)
    (defaultValue : Option Value) : Handler ConnectResponse :=
  withProject slug fun proj =>
    .transact ⟨createFlagEvent proj.id actor key,
        .createFlag ⟨proj.id, key, name, description, valueTypeFromProto valueType,
          marshalAny (defaultValue.getD .null)⟩⟩ (returned db)

/-- `structToJSONRaw`. -/
def structToJSONRaw : Option Context → Doc
  | none => .obj []
  | some fields => marshalAny (.obj fields)

/-- `PublishFlagVersion`. -/
def publishFlagVersion (fuel : Nat) (slug key actor : String) (strategy : ProtoStrategy)
    (source : Option Context) (sourceText : Source) : Handler ConnectResponse :=
  withProject slug fun proj => withFlag db proj.id key fun flag =>
    match Strategy.parse (strategyFromProto strategy) with
    | none => .answer (badRequest ("invalid strategy " ++ env.quote strategy.text))
    | some known =>
      let sourceRaw := structToJSONRaw source
      let usesText := decide (known = .typescript) && !sourceText.isEmpty
      let compileInput := if usesText then sourceText else .json sourceRaw
      .read fun r =>
        match resolveSegmentRefs env (resolveSegment env db proj.id r) fuel compileInput with
        | none => .answer .crashed
        | some (.error err) => .answer (badRequest err.text)
        | some (.ok resolved) =>
          match compile env (.known known) resolved with
          -- `isCompileError` or not, the code is the same
          | .error err => .answer (.error .invalidArgument (.text err.text))
          | .ok compiled =>
            let compiledRaw := encodeTree compiled.ir
            let persistedSource := if usesText then compiledRaw else sourceRaw
            .transact ⟨publishVersionEvent proj.id flag.id actor (strategyFromProto strategy)
                  flag.key,
                .publishFlagVersion ⟨flag.id, strategyFromProto strategy, persistedSource,
                  compiledRaw, sourceString env sourceText⟩⟩ (returned db)

def listFlagVersions (slug key : String) : Handler ConnectResponse :=
  withProject slug fun proj => withFlag db proj.id key fun flag =>
    withRow (Server.listFlagVersions db flag.id) fun rows =>
      .answer (.response (.flagVersionList rows))

def listSegments : String → Handler ConnectResponse := listOf (listSegmentsByProject db) .segmentList

def getSegment (slug segKey : String) : Handler ConnectResponse :=
  withProject slug fun proj => withRow (getSegmentByKey db proj.id segKey) fun seg =>
    .answer (.response (.segment seg))

def createSegment (slug actor key name description : String) (predicate : Option Context) :
    Handler ConnectResponse :=
  withProject slug fun proj =>
    match normalizePredicateBytes env predicate with
    | .error text => .answer (badRequest text)
    | .ok predicate =>
      .transact ⟨createSegmentEvent proj.id actor key,
          .createSegment ⟨proj.id, key, name, description, predicate.doc⟩⟩ (returned db)

def updateSegment (slug segKey actor name description : String) (predicate : Option Context) :
    Handler ConnectResponse :=
  withProject slug fun proj =>
    match normalizePredicateBytes env predicate with
    | .error text => .answer (badRequest text)
    | .ok predicate =>
      .transact ⟨updateSegmentEvent proj.id actor segKey,
          .updateSegment ⟨proj.id, segKey, name, description, predicate.doc⟩⟩ (returned db)

def listSnapshots (slug : String) (limit : Int32) : Handler ConnectResponse :=
  listOf (fun projectId => listSnapshotsByProject db b projectId (if limit ≤ 0 then 50 else limit))
    .snapshotList slug

def getLatestSnapshot (slug : String) : Handler ConnectResponse :=
  withProject slug fun proj => withRow (Server.getLatestSnapshot db proj.id) fun snap =>
    .answer (.response (.snapshot snap))

/-- `GetSnapshot`; `id` is what `uuid.Parse` makes of the text. -/
def getSnapshot (slug : String) (id : Except String Nat) : Handler ConnectResponse :=
  withProject slug fun proj =>
    match id with
    | .error text => .answer (badRequest ("invalid snapshot id: " ++ text))
    | .ok id => withRow (getSnapshotByID db proj.id id) fun snap =>
      .answer (.response (.snapshot snap))

/-- `connectError` of an error of `compileBundle`: one that is not the store's is internal. -/
def bundleError : Failure → ConnectResponse
  | .store e => connectError e
  | .text s => .error .internal (.text s)

def compileAndInsert (actor : String) (projectId : Nat) (envId : Option Nat) :
    Handler ConnectResponse :=
  .read fun r =>
    match compileBundle env db projectId r with
    | .error failure => .answer (bundleError failure)
    | .ok flags =>
      .transact ⟨compileSnapshotEvent projectId actor flags.length,
          .compileSnapshot ⟨projectId, envId, encodeBundle flags⟩⟩ (returned db)

def compileSnapshot (slug actor : String) (environmentSlug : Option String) :
    Handler ConnectResponse :=
  withProject slug fun proj =>
    match environmentSlug with
    | none | some "" => compileAndInsert env db actor proj.id none
    | some envSlug => .read fun r =>
      match getEnvironmentBySlug proj.id envSlug r with
      | .error err =>
        if err.is .notFound then
          .answer (badRequest ("environment " ++ env.quote envSlug ++ " does not exist"))
        else .answer (connectError err)
      | .ok e => compileAndInsert env db actor proj.id (some e.id)

/-- `loadEvaluation`; a missing context is nil. -/
def loadEvaluation (slug key : String) (ctx : Option Context)
    (k : Compiled → Nat → Context → ConnectResponse) : Handler ConnectResponse :=
  withProject slug fun proj => withFlag db proj.id key fun flag =>
    withRow (getLatestFlagVersion db flag.id) fun version =>
      match compile env (.ofString version.params.strategy) (.json version.params.compiled) with
      | .error err => .answer (.error .internal (.text ("rehydrating IR: " ++ err.text)))
      | .ok compiled => .answer (k compiled version.version (ctx.getD []))

/-- `Evaluate`. -/
def evaluate (slug key : String) (ctx : Option Context) : Handler ConnectResponse :=
  loadEvaluation env db slug key ctx fun compiled version ctx =>
    match FalseFlag.evaluate env compiled ctx version with
    | .error err => .error .internal (.text err)
    | .ok d => .response (.decision d)

/-- `EvaluateWithTrace`. -/
def evaluateWithTrace (slug key : String) (ctx : Option Context) : Handler ConnectResponse :=
  loadEvaluation env db slug key ctx fun compiled version ctx =>
    match FalseFlag.evaluateWithTrace env compiled ctx version with
    | .error err => .error .internal (.text err)
    | .ok (d, t) => .response (.evaluateTrace d t)

end Handlers

end Connect

/-- The requests of the Connect surface. -/
inductive ConnectRequest where
  | listProjects
  | listEnvironments (slug : String)
  | listFlags (slug : String)
  | listSegments (slug : String)
  | getProject (slug : String)
  | createProject (actor slug displayName : String) (configStrategy : ProtoStrategy)
  | getEnvironment (slug envSlug : String)
  | createEnvironment (slug actor envSlug name : String)
  | getFlag (slug key : String)
  | createFlag (slug actor key name description : String) (valueType : ProtoValueType)
      (defaultValue : Option Value)
  | publishFlagVersion (fuel : Nat) (slug key actor : String) (strategy : ProtoStrategy)
      (source : Option Context) (sourceText : Source)
  | listFlagVersions (slug key : String)
  | getSegment (slug segKey : String)
  | createSegment (slug actor key name description : String) (predicate : Option Context)
  | updateSegment (slug segKey actor name description : String) (predicate : Option Context)
  | listSnapshots (slug : String) (limit : Int32)
  | getLatestSnapshot (slug : String)
  | getSnapshot (slug : String) (id : Except String Nat)
  | compileSnapshot (slug actor : String) (environmentSlug : Option String)
  | evaluate (slug key : String) (ctx : Option Context)
  | evaluateWithTrace (slug key : String) (ctx : Option Context)

/-- The handler of a request. -/
def connect (env : Env) (db : Medium) (b : Backend) : ConnectRequest → Handler ConnectResponse
  | .listProjects => Connect.listProjects
  | .listEnvironments slug => Connect.listEnvironments slug
  | .listFlags slug => Connect.listFlags db slug
  | .listSegments slug => Connect.listSegments db slug
  | .getProject slug => Connect.getProject slug
  | .createProject actor slug displayName configStrategy =>
    Connect.createProject env db actor slug displayName configStrategy
  | .getEnvironment slug envSlug => Connect.getEnvironment slug envSlug
  | .createEnvironment slug actor envSlug name =>
    Connect.createEnvironment db slug actor envSlug name
  | .getFlag slug key => Connect.getFlag db slug key
  | .createFlag slug actor key name description valueType defaultValue =>
    Connect.createFlag db slug actor key name description valueType defaultValue
  | .publishFlagVersion fuel slug key actor strategy source sourceText =>
    Connect.publishFlagVersion env db fuel slug key actor strategy source sourceText
  | .listFlagVersions slug key => Connect.listFlagVersions db slug key
  | .getSegment slug segKey => Connect.getSegment db slug segKey
  | .createSegment slug actor key name description predicate =>
    Connect.createSegment env db slug actor key name description predicate
  | .updateSegment slug segKey actor name description predicate =>
    Connect.updateSegment env db slug segKey actor name description predicate
  | .listSnapshots slug limit => Connect.listSnapshots db b slug limit
  | .getLatestSnapshot slug => Connect.getLatestSnapshot db slug
  | .getSnapshot slug id => Connect.getSnapshot db slug id
  | .compileSnapshot slug actor environmentSlug =>
    Connect.compileSnapshot env db slug actor environmentSlug
  | .evaluate slug key ctx => Connect.evaluate env db slug key ctx
  | .evaluateWithTrace slug key ctx => Connect.evaluateWithTrace env db slug key ctx

end FalseFlag.Server
