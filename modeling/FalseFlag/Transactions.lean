/-
  Transactions with an audit row (internal/store/pg_audit.go, sqlite_audit.go).

  `WithAudit` runs a closure in a transaction, appends an audit row to it and commits; on the errors
  that pass (a serialization failure, a busy database) it does the whole again, up to eight times.
  The closure writes its result to a variable of the caller, in EVERY execution.

  What the database does is given: how each attempt fares, and the store it works on.  A transaction
  that is rolled back leaves nothing, and neither does one whose commit fails.
  * **`withAudit_exactly_once`** — a call commits the closure's work and one audit row, or nothing,
    and the variable is that of the execution that was committed.
-/
import FalseFlag.GoRuntime
import FalseFlag.Lib.Retry

namespace FalseFlag

open Retry

/-! ## Errors -/

/-- The errors of the store: its sentinels, those of the drivers, and `fmt.Errorf("text: %w", err)`. -/
inductive DbError where
  | notFound
  | noRows
  | txDone
  | pg (code : String)
  | sqlite (code : Nat)
  | other (text : String)
  | wrap (text : String) (cause : DbError)
  deriving DecidableEq

namespace DbError

/-- `errors.Is`, for a target that wraps nothing. -/
def is : DbError → DbError → Bool
  | wrap _ cause, target => cause.is target
  | e, target => e = target

/-- `errors.As(err, &pgErr)`, and its code. -/
def pgCode? : DbError → Option String
  | pg code => some code
  | wrap _ cause => cause.pgCode?
  | _ => none

/-- `errors.As(err, &c)` for the errors with a `Code()`. -/
def sqliteCode? : DbError → Option Nat
  | sqlite code => some code
  | wrap _ cause => cause.sqliteCode?
  | _ => none

end DbError

/-- `isSerializationFailure`. -/
def isSerializationFailure (e : DbError) : Bool := e.pgCode? = some "40001"

/-- `isSQLiteRetry`. -/
def isSQLiteRetry (e : DbError) : Bool :=
  !e.is .txDone && (e.sqliteCode? = some 5 || e.sqliteCode? = some 517)

/-! ## One attempt -/

/-- `AppendAuditParams`. -/
structure AppendAuditParams where
  projectId : Option Nat
  flagId : Option Nat
  action : String
  actor : String
  payload : Doc

/-- The tables that are mutated, and the audit log. -/
structure Database (σ : Type) where
  tables : σ
  audit : List AppendAuditParams

/-- What a function in a transaction returns, with the transaction's store. -/
inductive Returned (σ : Type) where
  | ok (s : σ)
  | failed (e : DbError)
  | panicked

/-- A closure: what the database does to its statements, the store it sees, and the variable of the
    caller. -/
abbrev Closure (σ ω κ : Type) := ω → σ → κ → Returned σ × κ

/-- How an attempt fares: the store it begins on, which of `BeginTx`, the audit insert and `Commit`
    fail, what happens to the statements of the closure, and whether the context is done during the
    backoff that follows. -/
structure Attempt (σ ω : Type) where
  base : Database σ
  begin : Option DbError
  statements : ω
  audit : Option DbError
  commit : Option DbError
  cancelled : Option DbError

section Once

variable {σ ω κ : Type}

/-- `withAuditOnce`. -/
def withAuditOnce (ev : AppendAuditParams) (fn : Closure σ ω κ) (a : Attempt σ ω) (k : κ) :
    Tried κ DbError (Database σ) :=
  match a.begin with
  | some e => ⟨.failed (.wrap "store: begin tx" e), k, none⟩
  | none =>
    match fn a.statements a.base.tables k with
    | (.failed e, k) => ⟨.failed e, k, none⟩
    | (.panicked, k) => ⟨.panicked, k, none⟩
    | (.ok s, k) =>
      match a.audit with
      | some e => ⟨.failed (.wrap "store: audit append in tx" e), k, none⟩
      | none =>
        match a.commit with
        | some e => ⟨.failed (.wrap "store: commit" e), k, none⟩
        | none => ⟨.ok, k, some ⟨s, a.base.audit ++ [ev]⟩⟩

/-- `runOnceTx`: `fn` works on the whole database. -/
def runOnceTx (fn : Attempt σ ω → κ → Returned (Database σ) × κ) (a : Attempt σ ω) (k : κ) :
    Tried κ DbError (Database σ) :=
  match a.begin with
  | some e => ⟨.failed (.wrap "store: begin tx" e), k, none⟩
  | none =>
    match fn a k with
    | (.failed e, k) => ⟨.failed e, k, none⟩
    | (.panicked, k) => ⟨.panicked, k, none⟩
    | (.ok db, k) =>
      match a.commit with
      | some e => ⟨.failed (.wrap "store: commit" e), k, none⟩
      | none => ⟨.ok, k, some db⟩

/-- The function that `sqliteStore.WithAudit` passes to `withImmediateTx`. -/
def auditedTx (ev : AppendAuditParams) (fn : Closure σ ω κ) (a : Attempt σ ω) (k : κ) :
    Returned (Database σ) × κ :=
  match fn a.statements a.base.tables k with
  | (.failed e, k) => (.failed e, k)
  | (.panicked, k) => (.panicked, k)
  | (.ok s, k) =>
    match a.audit with
    | some e => (.failed (.wrap "store: audit append in tx" e), k)
    | none => (.ok ⟨s, a.base.audit ++ [ev]⟩, k)

/-- The two backends do the same. -/
theorem withAuditOnce_eq (ev : AppendAuditParams) (fn : Closure σ ω κ) :
    withAuditOnce ev fn = runOnceTx (auditedTx ev fn) := by
  funext a k
  rw [withAuditOnce, runOnceTx, auditedTx]
  rcases a.begin with _ | e
  · rcases fn a.statements a.base.tables k with ⟨s | e | _, k'⟩
    · rcases a.audit with _ | e
      · rfl
      · rfl
    · rfl
    · rfl
  · rfl

/-- What an attempt commits: the store of one execution of the closure, whose variable is the
    caller's, and one audit row. -/
def CommittedBy (ev : AppendAuditParams) (fn : Closure σ ω κ) (a : Attempt σ ω) (db : Database σ)
    (k : κ) : Prop :=
  ∃ k0 s, fn a.statements a.base.tables k0 = (.ok s, k) ∧ db = ⟨s, a.base.audit ++ [ev]⟩

/-- An attempt commits the work and one audit row, or nothing. -/
theorem atomic_runOnceTx (ev : AppendAuditParams) (fn : Closure σ ω κ) (a : Attempt σ ω) (k : κ) :
    Atomic (CommittedBy ev fn a) (runOnceTx (auditedTx ev fn) a k) := by
  rw [runOnceTx, auditedTx]
  rcases a.begin with _ | e
  · rcases hfn : fn a.statements a.base.tables k with ⟨s | e | _, k'⟩
    · rcases a.audit with _ | e
      · rcases a.commit with _ | e
        · exact ⟨fun _ => ⟨_, rfl, k, s, hfn, rfl⟩, fun h => absurd rfl h⟩
        · exact ⟨fun h => (nomatch h), fun _ => rfl⟩
      · exact ⟨fun h => (nomatch h), fun _ => rfl⟩
    · exact ⟨fun h => (nomatch h), fun _ => rfl⟩
    · exact ⟨fun h => (nomatch h), fun _ => rfl⟩
  · exact ⟨fun h => (nomatch h), fun _ => rfl⟩

end Once

/-! ## WithAudit -/

inductive Backend where
  | postgres | sqlite
  deriving DecidableEq

namespace Backend

/-- The errors that are tried again. -/
def retryable : Backend → DbError → Bool
  | postgres => isSerializationFailure
  | sqlite => isSQLiteRetry

/-- `withAuditMaxRetries`, and the `maxRetries` of `withImmediateTx`. -/
def maxRetries : Backend → Nat
  | postgres => 8
  | sqlite => 8

variable {σ ω κ : Type}

/-- The attempt of each backend. -/
def once (b : Backend) (ev : AppendAuditParams) (fn : Closure σ ω κ) :
    Attempt σ ω → κ → Tried κ DbError (Database σ) :=
  match b with
  | postgres => withAuditOnce ev fn
  | sqlite => runOnceTx (auditedTx ev fn)

/-- `WithAudit`: how the call ended, what it has committed, and the variable of the caller. -/
def withAudit (b : Backend) (ev : AppendAuditParams) (fn : Closure σ ω κ)
    (attempts : ℕ → Attempt σ ω) (k : κ) : Call κ DbError (Database σ) :=
  Call.run b.maxRetries b.retryable (fun i => (attempts i).cancelled)
    (fun i k => b.once ev fn (attempts i) k) { captured := k } (b.maxRetries + 1)

/-- The attempt is the same for both. -/
theorem once_eq (b : Backend) (ev : AppendAuditParams) (fn : Closure σ ω κ) :
    b.once ev fn = runOnceTx (auditedTx ev fn) := by
  cases b with
  | postgres => exact withAuditOnce_eq ev fn
  | sqlite => rfl

theorem atomic_once (b : Backend) (ev : AppendAuditParams) (fn : Closure σ ω κ) (a : Attempt σ ω)
    (k : κ) : Atomic (CommittedBy ev fn a) (b.once ev fn a k) := by
  rw [once_eq]
  exact atomic_runOnceTx ev fn a k

end Backend

/-- **Exactly once or not at all.**  However the attempts fare, the call ends.  If it returns nil,
    it has committed once: the store of one execution of the closure with one audit row, and the
    variable of the caller is what that execution left.  If it returns an error or panics, it has
    committed nothing. -/
theorem withAudit_exactly_once {σ ω κ : Type} (b : Backend) (ev : AppendAuditParams)
    (fn : Closure σ ω κ) (attempts : ℕ → Attempt σ ω) (k : κ) :
    (∃ ending, (b.withAudit ev fn attempts k).ended = some ending) ∧
    ((b.withAudit ev fn attempts k).ended = some .ok → ∃ i k0 s,
      fn (attempts i).statements (attempts i).base.tables k0 =
        (.ok s, (b.withAudit ev fn attempts k).captured) ∧
      (b.withAudit ev fn attempts k).commits = [⟨s, (attempts i).base.audit ++ [ev]⟩]) ∧
    ∀ ending, (b.withAudit ev fn attempts k).ended = some ending → ending ≠ .ok →
      (b.withAudit ev fn attempts k).commits = [] := by
  have hkept : Kept (fun db k => ∃ i, CommittedBy ev fn (attempts i) db k)
      (b.withAudit ev fn attempts k) :=
    run_kept (fun i k' => by
      obtain ⟨hok, hno⟩ := b.atomic_once ev fn (attempts i) k'
      refine ⟨fun h => ?_, hno⟩
      obtain ⟨db, hdb, hby⟩ := hok h
      exact ⟨db, hdb, i, hby⟩) k _
  refine ⟨finished_of_steps _ _ k, fun hok => ?_, fun ending hended hne => hkept.2 ?_⟩
  · obtain ⟨db, hcommits, i, k0, s, hfn, rfl⟩ := hkept.1 hok
    exact ⟨i, k0, s, hfn, hcommits⟩
  · rw [hended]
    exact fun h => hne (Option.some.inj h)

end FalseFlag
