/-
  The mutators of the store (internal/store/pg_tx.go, sqlite_tx.go against pg_projects.go,
  pg_flags.go, pg_environments.go, pg_segments.go, pg_snapshots.go and their SQLite copies).

  Seven mutations are written twice for each backend: as a method of `Tx`, which runs in `WithAudit`,
  and as a method of the store.  The handlers use the first, and choose the status of their answer
  by `errors.Is(err, store.ErrNotFound)`.

  Six of the pairs are the same text around the same statements.  `UpdateSegment` is not: the method
  of the store turns `ErrNoRows` into `ErrNotFound`, the one of `Tx` wraps it.
  **`mutators_agree_iff`**: the two agree on tables, rows and errors, except for an update of a
  segment that is not there.

  The tables and the clock are given, and no attempt is disturbed: the statements fail only for what
  they are asked to do.
-/
import FalseFlag.VersionNumbers

namespace FalseFlag.Mutators

open Retry

/-! ## The tables -/

structure Project where
  id : Nat
  slug : String
  displayName : String
  configStrategy : String
  createdAt : Nat
  updatedAt : Nat

structure Flag where
  id : Nat
  projectId : Nat
  key : String
  name : String
  description : String
  valueType : String
  defaultValue : Doc
  createdAt : Nat
  updatedAt : Nat

structure Environment where
  id : Nat
  projectId : Nat
  slug : String
  name : String
  createdAt : Nat

structure Segment where
  id : Nat
  projectId : Nat
  key : String
  name : String
  description : String
  predicate : Doc
  createdAt : Nat
  updatedAt : Nat

/-- All tables that are mutated; `flag_versions` and `snapshots` are in `versions`. -/
structure Store where
  projects : List Project
  flags : List Flag
  environments : List Environment
  segments : List Segment
  versions : FalseFlag.Tables

/-! ## The parameters -/

structure CreateProjectParams where
  slug : String
  displayName : String
  strategy : String

structure CreateFlagParams where
  projectId : Nat
  key : String
  name : String
  description : String
  valueType : String
  defaultValue : Doc

structure CreateEnvironmentParams where
  projectId : Nat
  slug : String
  name : String

structure CreateSegmentParams where
  projectId : Nat
  key : String
  name : String
  description : String
  predicate : Doc

structure UpdateSegmentParams where
  projectId : Nat
  key : String
  name : String
  description : String
  predicate : Doc

inductive Mutation where
  | createProject (p : CreateProjectParams)
  | createFlag (p : CreateFlagParams)
  | createEnvironment (p : CreateEnvironmentParams)
  | createSegment (p : CreateSegmentParams)
  | updateSegment (p : UpdateSegmentParams)
  | compileSnapshot (p : CompileSnapshotParams)
  | publishFlagVersion (p : PublishFlagVersionParams)

inductive Row where
  | project (r : Project)
  | flag (r : Flag)
  | environment (r : Environment)
  | segment (r : Segment)
  | snapshot (r : SnapshotRow)
  | flagVersion (r : FlagVersionRow)

/-! ## The statements -/

/-- Why the database refuses values. -/
inductive Violation where
  | primaryKey | unique | foreignKey | check | notNull | invalid
  deriving DecidableEq

/-- Why a statement returns no row. -/
inductive Refused where
  | violation (v : Violation)
  | noRows

/-- The error of the driver: an SQLSTATE, or an extended result code. -/
def violation : Backend → Violation → DbError
  | .postgres, .primaryKey | .postgres, .unique => .pg "23505"
  | .postgres, .foreignKey => .pg "23503"
  | .postgres, .check => .pg "23514"
  | .postgres, .notNull => .pg "23502"
  | .postgres, .invalid => .pg "22P02"
  | .sqlite, .primaryKey => .sqlite 1555
  | .sqlite, .unique => .sqlite 2067
  | .sqlite, .foreignKey => .sqlite 787
  | .sqlite, .check => .sqlite 275
  | .sqlite, .notNull => .sqlite 1299
  | .sqlite, .invalid => .sqlite 20

def driverError (b : Backend) : Refused → DbError
  | .violation v => violation b v
  | .noRows => .noRows

/-- The results of `uuid.New()` and of the clock, and what the types of the columns refuse (a
    missing or invalid document, text that cannot be stored). -/
structure Given where
  id : Nat
  now : Nat
  rejects : Mutation → Option Violation

def refuseIf (c : Prop) [Decidable c] (v : Violation) : Except Refused Unit :=
  if c then .error (.violation v) else .ok ()

section Statements

variable (g : Given) (s : Store)

/-- The values of a mutation are taken. -/
def accept (m : Mutation) : Except Refused Unit :=
  match g.rejects m with
  | some v => .error (.violation v)
  | none => .ok ()

def insertProject (p : CreateProjectParams) : Except Refused (Store × Project) := do
  accept g (.createProject p)
  refuseIf (p.strategy ∉ ["json", "cel", "typescript"]) .check
  refuseIf (∃ r ∈ s.projects, r.id = g.id) .primaryKey
  refuseIf (∃ r ∈ s.projects, r.slug = p.slug) .unique
  let row : Project := ⟨g.id, p.slug, p.displayName, p.strategy, g.now, g.now⟩
  return ({ s with projects := s.projects ++ [row] }, row)

def insertFlag (p : CreateFlagParams) : Except Refused (Store × Flag) := do
  accept g (.createFlag p)
  refuseIf (p.valueType ∉ ["boolean", "string", "number", "object"]) .check
  refuseIf (∃ r ∈ s.flags, r.id = g.id) .primaryKey
  refuseIf (∃ r ∈ s.flags, r.projectId = p.projectId ∧ r.key = p.key) .unique
  refuseIf (∀ r ∈ s.projects, r.id ≠ p.projectId) .foreignKey
  let row : Flag :=
    ⟨g.id, p.projectId, p.key, p.name, p.description, p.valueType, p.defaultValue, g.now, g.now⟩
  return ({ s with flags := s.flags ++ [row] }, row)

def insertEnvironment (p : CreateEnvironmentParams) : Except Refused (Store × Environment) := do
  accept g (.createEnvironment p)
  refuseIf (∃ r ∈ s.environments, r.id = g.id) .primaryKey
  refuseIf (∃ r ∈ s.environments, r.projectId = p.projectId ∧ r.slug = p.slug) .unique
  refuseIf (∀ r ∈ s.projects, r.id ≠ p.projectId) .foreignKey
  let row : Environment := ⟨g.id, p.projectId, p.slug, p.name, g.now⟩
  return ({ s with environments := s.environments ++ [row] }, row)

def insertSegment (p : CreateSegmentParams) : Except Refused (Store × Segment) := do
  accept g (.createSegment p)
  refuseIf (∃ r ∈ s.segments, r.id = g.id) .primaryKey
  refuseIf (∃ r ∈ s.segments, r.projectId = p.projectId ∧ r.key = p.key) .unique
  refuseIf (∀ r ∈ s.projects, r.id ≠ p.projectId) .foreignKey
  let row : Segment :=
    ⟨g.id, p.projectId, p.key, p.name, p.description, p.predicate, g.now, g.now⟩
  return ({ s with segments := s.segments ++ [row] }, row)

/-- The segment an update is about. -/
def UpdateSegmentParams.selects (p : UpdateSegmentParams) (r : Segment) : Bool :=
  r.projectId = p.projectId && r.key = p.key

/-- The segment after the update. -/
def UpdateSegmentParams.apply (p : UpdateSegmentParams) (now : Nat) (r : Segment) : Segment :=
  { r with name := p.name, description := p.description, predicate := p.predicate, updatedAt := now }

/-- `UPDATE segments SET … WHERE project_id = $1 AND key = $2 RETURNING …`. -/
def updateSegmentRow (p : UpdateSegmentParams) : Except Refused (Store × Segment) := do
  accept g (.updateSegment p)
  match s.segments.find? p.selects with
  | none => .error .noRows
  | some r =>
    return ({ s with
      segments := s.segments.map fun r => if p.selects r then p.apply g.now r else r },
      p.apply g.now r)

/-- What `CreateSnapshot` fails for. -/
def snapshotRefused (p : CompileSnapshotParams) : Except Refused Unit := do
  accept g (.compileSnapshot p)
  refuseIf (∃ r ∈ s.versions.snapshots.rows, r.id = g.id) .primaryKey
  refuseIf (∀ r ∈ s.projects, r.id ≠ p.projectId) .foreignKey
  refuseIf (∃ e ∈ p.environmentId.toList, ∀ r ∈ s.environments, r.id ≠ e) .foreignKey

/-- What `CreateFlagVersion` fails for. -/
def flagVersionRefused (p : PublishFlagVersionParams) : Except Refused Unit := do
  accept g (.publishFlagVersion p)
  refuseIf (p.strategy ∉ ["json", "cel", "typescript"]) .check
  refuseIf (∃ r ∈ s.versions.flagVersions.rows, r.id = g.id) .primaryKey
  refuseIf (∀ r ∈ s.flags, r.id ≠ p.flagId) .foreignKey

end Statements

/-- How the two statements of a numbered row fare. -/
def statements (b : Backend) (g : Given) (refused : Except Refused Unit) : Statements where
  id := g.id
  next := none
  create := match refused with
    | .error r => some (driverError b r)
    | .ok () => none

/-- `if err != nil { return fmt.Errorf("text: %w", err) }`. -/
def wrapErr {α : Type} (text : String) (b : Backend) (x : Except Refused α) : Except DbError α :=
  x.mapError fun r => .wrap text (driverError b r)

/-! ## The methods of Tx -/

section Methods

variable (b : Backend) (g : Given) (s : Store)

def txCreateProject (p : CreateProjectParams) : Except DbError (Store × Project) :=
  wrapErr "store: create project" b (insertProject g s p)

def txCreateFlag (p : CreateFlagParams) : Except DbError (Store × Flag) :=
  wrapErr "store: create flag" b (insertFlag g s p)

def txCreateEnvironment (p : CreateEnvironmentParams) : Except DbError (Store × Environment) :=
  wrapErr "store: create environment" b (insertEnvironment g s p)

def txCreateSegment (p : CreateSegmentParams) : Except DbError (Store × Segment) :=
  wrapErr "store: create segment" b (insertSegment g s p)

def txUpdateSegment (p : UpdateSegmentParams) : Except DbError (Store × Segment) :=
  wrapErr "store: update segment" b (updateSegmentRow g s p)

def txCompileSnapshot (p : CompileSnapshotParams) : Except DbError (Store × SnapshotRow) :=
  (compileSnapshotTx (statements b g (snapshotRefused g s p)) s.versions p).map fun (versions, row) =>
    ({ s with versions }, row)

def txPublishFlagVersion (p : PublishFlagVersionParams) : Except DbError (Store × FlagVersionRow) :=
  (publishFlagVersionTx (statements b g (flagVersionRefused g s p)) s.versions p).map
    fun (versions, row) => ({ s with versions }, row)

/-- The method of `Tx`. -/
def Mutation.tx : Mutation → Except DbError (Store × Row)
  | .createProject p => (txCreateProject b g s p).map (Prod.map id .project)
  | .createFlag p => (txCreateFlag b g s p).map (Prod.map id .flag)
  | .createEnvironment p => (txCreateEnvironment b g s p).map (Prod.map id .environment)
  | .createSegment p => (txCreateSegment b g s p).map (Prod.map id .segment)
  | .updateSegment p => (txUpdateSegment b g s p).map (Prod.map id .segment)
  | .compileSnapshot p => (txCompileSnapshot b g s p).map (Prod.map id .snapshot)
  | .publishFlagVersion p => (txPublishFlagVersion b g s p).map (Prod.map id .flagVersion)

/-! ## The methods of the store -/

def storeCreateProject (p : CreateProjectParams) : Except DbError (Store × Project) :=
  wrapErr "store: create project" b (insertProject g s p)

def storeCreateFlag (p : CreateFlagParams) : Except DbError (Store × Flag) :=
  wrapErr "store: create flag" b (insertFlag g s p)

def storeCreateEnvironment (p : CreateEnvironmentParams) : Except DbError (Store × Environment) :=
  wrapErr "store: create environment" b (insertEnvironment g s p)

def storeCreateSegment (p : CreateSegmentParams) : Except DbError (Store × Segment) :=
  wrapErr "store: create segment" b (insertSegment g s p)

/-- `UpdateSegment` of the store: no row is `ErrNotFound`. -/
def storeUpdateSegment (p : UpdateSegmentParams) : Except DbError (Store × Segment) :=
  (updateSegmentRow g s p).mapError fun r =>
    if (driverError b r).is .noRows then .notFound else .wrap "store: update segment" (driverError b r)

end Methods

/-! ## Running them -/

/-- What a caller sees, and the tables afterwards. -/
structure Outcome where
  error : Option DbError
  row : Option Row
  store : Store

/-- A statement outside of a transaction. -/
def autocommit (s : Store) : Except DbError (Store × Row) → Outcome
  | .error e => ⟨some e, none, s⟩
  | .ok (s', row) => ⟨none, some row, s'⟩

/-- What a call of `WithAudit` or `withImmediateTx` comes to. -/
def Outcome.ofCall (s : Store) (call : Call (Option Row) DbError (Database Store)) : Outcome where
  error := match call.ended with
    | some (.failed e) => some e
    | _ => none
  row := match call.ended with
    | some .ok => call.captured
    | _ => none
  store := match call.commits with
    | [] => s
    | db :: _ => db.tables

/-- An attempt that nothing disturbs. -/
def undisturbed (db : Database Store) (g : Given) : Attempt Store Given where
  base := db
  begin := none
  statements := g
  audit := none
  commit := none
  cancelled := none

section Runs

variable (b : Backend)

/-- How a closure of a handler returns: the row goes to the variable of the caller. -/
def returned {σ : Type} (k : Option Row) : Except DbError (σ × Row) → Returned σ × Option Row
  | .error e => (.failed e, k)
  | .ok (s, row) => (.ok s, some row)

/-- The mutation in `WithAudit`. -/
def Mutation.inWithAudit (ev : AppendAuditParams) (g : Given) (db : Database Store) (m : Mutation) :
    Outcome :=
  .ofCall db.tables
    (b.withAudit ev (fun g s k => returned k (m.tx b g s)) (fun _ => undisturbed db g) none)

/-- How often a transaction of its own is tried again: by Postgres not at all, by SQLite as often as
    `withImmediateTx` does. -/
def ownRetries : Backend → Nat
  | .postgres => 0
  | .sqlite => Backend.sqlite.maxRetries

/-- A transaction of its own. -/
def ownTx (g : Given) (db : Database Store) (fn : Store → Except DbError (Store × Row)) : Outcome :=
  .ofCall db.tables (Call.run (ownRetries b) b.retryable (fun _ => none)
    (fun _ k => runOnceTx (fun a k => returned k
      ((fn a.base.tables).map fun (s, row) => (⟨s, a.base.audit⟩, row))) (undisturbed db g) k)
    { captured := none } (ownRetries b + 1))

/-- The method of the store. -/
def Mutation.standalone (g : Given) (db : Database Store) : Mutation → Outcome
  | .createProject p => autocommit db.tables
      ((storeCreateProject b g db.tables p).map (Prod.map id .project))
  | .createFlag p => autocommit db.tables
      ((storeCreateFlag b g db.tables p).map (Prod.map id .flag))
  | .createEnvironment p => autocommit db.tables
      ((storeCreateEnvironment b g db.tables p).map (Prod.map id .environment))
  | .createSegment p => autocommit db.tables
      ((storeCreateSegment b g db.tables p).map (Prod.map id .segment))
  | .updateSegment p => autocommit db.tables
      ((storeUpdateSegment b g db.tables p).map (Prod.map id .segment))
  -- `CompileSnapshot` and `PublishFlagVersionStandalone` repeat the statements of their `Tx` copies
  | .compileSnapshot p => ownTx b g db fun s =>
      (txCompileSnapshot b g s p).map (Prod.map id .snapshot)
  | .publishFlagVersion p => ownTx b g db fun s =>
      (txPublishFlagVersion b g s p).map (Prod.map id .flagVersion)

end Runs

/-- Both succeed with the same row, or both fail and agree on `ErrNotFound`; the tables are the
    same. -/
structure Outcome.Agree (o o' : Outcome) : Prop where
  store : o.store = o'.store
  row : o.row = o'.row
  failed : o.error.isSome = o'.error.isSome
  notFound : o.error.any (·.is .notFound) = o'.error.any (·.is .notFound)

theorem Outcome.Agree.refl (o : Outcome) : o.Agree o := ⟨rfl, rfl, rfl, rfl⟩

/-! ## The comparison -/

section Compare

variable {b : Backend} {g : Given} {db : Database Store}

/-- What a statement fails for does not pass. -/
theorem retryable_driverError (b : Backend) (text : String) (r : Refused) :
    b.retryable (.wrap text (driverError b r)) = false := by
  rcases r with v | _
  · cases b <;> cases v <;> rfl
  · cases b <;> rfl

/-- The error of a method is what its statement fails for, wrapped. -/
def Wrapped {α : Type} (b : Backend) (x : Except DbError α) : Prop :=
  ∀ e, x = .error e → ∃ text r, e = .wrap text (driverError b r)

theorem wrapped_wrapErr {α : Type} (text : String) (x : Except Refused α) :
    Wrapped b (wrapErr text b x) := by
  intro e h
  rcases x with r | a
  · injection h with h
    exact ⟨text, r, h.symm⟩
  · nomatch h

theorem Wrapped.map {α β : Type} {x : Except DbError α} (h : Wrapped b x) (f : α → β) :
    Wrapped b (x.map f) := by
  intro e hx
  rcases x with e' | a
  · injection hx with hx
    exact h e (by rw [hx])
  · nomatch hx

/-- A numbered row: its method fails for what the insert fails for. -/
theorem wrapped_of_refused {α : Type} {text : String} {refused : Except Refused Unit}
    {x : Except DbError α}
    (hfail : ∀ r, refused = .error r → x = .error (.wrap text (driverError b r)))
    (hok : refused = .ok () → ∃ a, x = .ok a) : Wrapped b x := by
  intro e h
  rcases refused with r | _
  · rw [hfail r rfl] at h
    injection h with h
    exact ⟨text, r, h.symm⟩
  · obtain ⟨a, ha⟩ := hok rfl
    rw [ha] at h
    nomatch h

theorem wrapped_txCompileSnapshot (s : Store) (p : CompileSnapshotParams) :
    Wrapped b (txCompileSnapshot b g s p) := by
  refine Wrapped.map (@wrapped_of_refused b _ "store: create snapshot" (snapshotRefused g s p) _ ?_ ?_) _
  · intro r hr
    rw [hr]
    rfl
  · intro hr
    rw [hr]
    exact ⟨_, rfl⟩

theorem wrapped_txPublishFlagVersion (s : Store) (p : PublishFlagVersionParams) :
    Wrapped b (txPublishFlagVersion b g s p) := by
  refine Wrapped.map (@wrapped_of_refused b _ "store: create version" (flagVersionRefused g s p) _ ?_ ?_) _
  · intro r hr
    rw [hr]
    rfl
  · intro hr
    rw [hr]
    exact ⟨_, rfl⟩

theorem wrapped_tx (s : Store) (m : Mutation) : Wrapped b (m.tx b g s) := by
  cases m with
  | createProject p => exact (wrapped_wrapErr _ _).map _
  | createFlag p => exact (wrapped_wrapErr _ _).map _
  | createEnvironment p => exact (wrapped_wrapErr _ _).map _
  | createSegment p => exact (wrapped_wrapErr _ _).map _
  | updateSegment p => exact (wrapped_wrapErr _ _).map _
  | compileSnapshot p => exact (wrapped_txCompileSnapshot s p).map _
  | publishFlagVersion p => exact (wrapped_txPublishFlagVersion s p).map _

/-- A transaction that nothing disturbs does what its function does. -/
theorem ofCall_run {x : Except DbError (Store × Row)} (hx : Wrapped b x)
    {fn : Attempt Store Given → Option Row → Returned (Database Store) × Option Row}
    {audit : List AppendAuditParams}
    (hfn : fn (undisturbed db g) none = returned none (x.map fun (s, row) => (⟨s, audit⟩, row)))
    (cancelled : ℕ → Option DbError) (maxRetries n : ℕ) :
    Outcome.ofCall db.tables (Call.run maxRetries b.retryable cancelled
      (fun _ k => runOnceTx fn (undisturbed db g) k) { captured := none } (n + 1)) =
      autocommit db.tables x := by
  rcases x with e | ⟨s, row⟩
  · have htry : runOnceTx fn (undisturbed db g) none = ⟨.failed e, none, none⟩ := by
      rw [runOnceTx]
      simp only [undisturbed] at hfn ⊢
      rw [hfn]
      rfl
    rw [run_of_final]
    · rw [htry]
      rfl
    · rw [htry]
      intro e' he'
      injection he' with he'
      obtain ⟨text, r, hr⟩ := hx e rfl
      rw [← he', hr]
      exact retryable_driverError b text r
  · have htry : runOnceTx fn (undisturbed db g) none = ⟨.ok, some row, some ⟨s, audit⟩⟩ := by
      rw [runOnceTx]
      simp only [undisturbed] at hfn ⊢
      rw [hfn]
      rfl
    rw [run_of_final]
    · rw [htry]
      rfl
    · rw [htry]
      intro e' he'
      cases he'

/-- `WithAudit` returns what the method of `Tx` does. -/
theorem inWithAudit_eq (ev : AppendAuditParams) (m : Mutation) :
    m.inWithAudit b ev g db = autocommit db.tables (m.tx b g db.tables) := by
  rw [Mutation.inWithAudit, Backend.withAudit, b.once_eq]
  refine @ofCall_run b g db _ (wrapped_tx db.tables m) _ (db.audit ++ [ev]) ?_ _ _ _
  rw [auditedTx]
  simp only [undisturbed]
  rcases m.tx b g db.tables with e | ⟨s, row⟩
  · rfl
  · rfl

theorem ownTx_eq (fn : Store → Except DbError (Store × Row)) (h : Wrapped b (fn db.tables)) :
    ownTx b g db fn = autocommit db.tables (fn db.tables) :=
  ofCall_run h rfl _ _ _

/-- Apart from an update, the method of the store does what the method of `Tx` does. -/
theorem standalone_eq {m : Mutation} (hm : ∀ p, m ≠ .updateSegment p) :
    m.standalone b g db = autocommit db.tables (m.tx b g db.tables) := by
  cases m with
  | createProject p => rfl
  | createFlag p => rfl
  | createEnvironment p => rfl
  | createSegment p => rfl
  | updateSegment p => exact absurd rfl (hm p)
  | compileSnapshot p => exact ownTx_eq (fun s => _) ((wrapped_txCompileSnapshot db.tables p).map _)
  | publishFlagVersion p => exact ownTx_eq (fun s => _) ((wrapped_txPublishFlagVersion db.tables p).map _)

/-- Statements are refused for another reason than a missing row. -/
theorem is_violation (b : Backend) (v : Violation) :
    (violation b v).is .noRows = false ∧ (violation b v).is .notFound = false := by
  cases b <;> cases v <;> exact ⟨rfl, rfl⟩

/-- An update finds no row iff its values are taken and no segment has its key. -/
theorem updateSegmentRow_noRows_iff (s : Store) (p : UpdateSegmentParams) :
    updateSegmentRow g s p = .error .noRows ↔
      g.rejects (.updateSegment p) = none ∧
        ¬ ∃ r ∈ s.segments, r.projectId = p.projectId ∧ r.key = p.key := by
  have hselects : ∀ r, p.selects r = true ↔ r.projectId = p.projectId ∧ r.key = p.key := by
    intro r
    rw [UpdateSegmentParams.selects, Bool.and_eq_true, decide_eq_true_iff, decide_eq_true_iff]
  simp only [← hselects, updateSegmentRow, accept]
  rcases g.rejects (.updateSegment p) with _ | v
  · show (match s.segments.find? p.selects with
      | none => Except.error Refused.noRows
      | some r => _) = _ ↔ _
    rcases hfind : s.segments.find? p.selects with _ | r
    · rw [List.find?_eq_none] at hfind
      exact ⟨fun _ => ⟨rfl, fun ⟨r, hr, hsel⟩ => hfind r hr hsel⟩, fun _ => rfl⟩
    · refine ⟨fun h => (nomatch h), fun h => absurd ⟨r, ?_, List.find?_some hfind⟩ h.2⟩
      exact List.mem_of_find?_eq_some hfind
  · exact ⟨fun h => (nomatch h), fun h => (nomatch h.1)⟩

/-- The two updates agree iff there is a row. -/
theorem update_agree_iff (s : Store) (p : UpdateSegmentParams) :
    (autocommit s ((txUpdateSegment b g s p).map (Prod.map id .segment))).Agree
      (autocommit s ((storeUpdateSegment b g s p).map (Prod.map id .segment))) ↔
      updateSegmentRow g s p ≠ .error .noRows := by
  rw [txUpdateSegment, storeUpdateSegment, wrapErr]
  rcases updateSegmentRow g s p with (v | _) | ⟨s', row⟩
  · -- the values are refused: both wrap the error of the driver
    refine ⟨fun _ h => (nomatch h), fun _ => ⟨rfl, rfl, rfl, ?_⟩⟩
    show (violation b v).is .notFound = DbError.is (if (violation b v).is .noRows then _ else _) _
    rw [(is_violation b v).1, if_neg Bool.false_ne_true]
    rfl
  · -- one wraps `ErrNoRows`, the other returns `ErrNotFound`
    exact ⟨fun h => absurd h.notFound Bool.false_ne_true, fun h => absurd rfl h⟩
  · exact ⟨fun _ h => (nomatch h), fun _ => Outcome.Agree.refl _⟩

end Compare

/-- **The methods of `Tx` and of the store agree, except for an update of what is not there.**  In
    both backends and in every state, a mutation in `WithAudit` leaves the same tables as the method
    of the store, returns the same row, fails if it fails and with `ErrNotFound` if it does; unless
    it updates a segment that does not exist, with values that the columns take. -/
theorem mutators_agree_iff (b : Backend) (g : Given) (ev : AppendAuditParams)
    (db : Database Store) (m : Mutation) :
    (m.inWithAudit b ev g db).Agree (m.standalone b g db) ↔
      ∀ p, m = .updateSegment p → g.rejects m = none →
        ∃ r ∈ db.tables.segments, r.projectId = p.projectId ∧ r.key = p.key := by
  rw [inWithAudit_eq]
  by_cases hm : ∃ p, m = .updateSegment p
  · obtain ⟨p, rfl⟩ := hm
    rw [Mutation.standalone, Mutation.tx, update_agree_iff, Ne, updateSegmentRow_noRows_iff]
    constructor
    · intro h p' hp' hnone
      injection hp' with hp'
      subst hp'
      by_contra hno
      exact h ⟨hnone, hno⟩
    · rintro h ⟨hnone, hno⟩
      exact hno (h p rfl hnone)
  · rw [standalone_eq fun p hp => hm ⟨p, hp⟩]
    exact ⟨fun _ p hp => absurd ⟨p, hp⟩ hm, fun _ => Outcome.Agree.refl _⟩

/-- A store without rows. -/
def emptyStore : Store := ⟨[], [], [], [], ⟨.empty, .empty⟩⟩

/-- The update of a segment that does not exist: in `WithAudit` the error is not `ErrNotFound`. -/
theorem missing_segment_disagrees :
    ∃ (g : Given) (ev : AppendAuditParams) (p : UpdateSegmentParams), ∀ b : Backend,
      ¬ ((Mutation.updateSegment p).inWithAudit b ev g ⟨emptyStore, []⟩).Agree
          ((Mutation.updateSegment p).standalone b g ⟨emptyStore, []⟩) ∧
        ((Mutation.updateSegment p).standalone b g ⟨emptyStore, []⟩).error = some .notFound ∧
        ((Mutation.updateSegment p).inWithAudit b ev g ⟨emptyStore, []⟩).error =
          some (.wrap "store: update segment" .noRows) := by
  refine ⟨⟨1, 0, fun _ => none⟩, ⟨some 1, none, "update_segment", "admin", .null⟩,
    ⟨1, "beta", "Beta", "", .null⟩, fun b => ⟨fun h => ?_, rfl, ?_⟩⟩
  · rw [inWithAudit_eq] at h
    exact absurd h.notFound Bool.false_ne_true
  · rw [inWithAudit_eq]
    rfl

end FalseFlag.Mutators
