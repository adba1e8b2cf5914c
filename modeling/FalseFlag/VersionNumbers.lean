/-
  Version numbers under concurrent requests (internal/store/pg_flags.go, pg_tx.go and their SQLite
  copies).

  Publishing a flag version and compiling a snapshot both read `MAX(version) + 1` and insert a row
  with it, in a transaction that `WithAudit` may run several times.  Here any number of such
  requests run at once, and their attempts interleave in any way.  Transactions are serializable:
  an attempt that commits has seen what was committed before it.  An attempt that fails may have
  seen anything, and may have left a row that never existed in the variable of its caller.

  The invariant names the callers in the order of their commits: the rows of the tables ARE what
  they were returned, one each (`Inv.flagRows`, `Inv.snapshotRows`).  `versions_exact` is what
  follows for the numbers.
-/
import FalseFlag.Lib.Runs
import FalseFlag.Lib.Versioned
import FalseFlag.Transactions
import Mathlib.Data.List.Nodup

namespace FalseFlag

open Function List Retry Runs Versioned

/-! ## The tables -/

structure PublishFlagVersionParams where
  flagId : Nat
  strategy : String
  source : Doc
  compiled : Doc
  sourceText : String

structure CompileSnapshotParams where
  projectId : Nat
  environmentId : Option Nat
  compiled : Doc

/-- A row of `flag_versions`. -/
structure FlagVersionRow where
  id : Nat
  params : PublishFlagVersionParams
  version : Nat

/-- A row of `snapshots`. -/
structure SnapshotRow where
  id : Nat
  params : CompileSnapshotParams
  version : Nat

def FlagVersionRow.flagId (r : FlagVersionRow) : Nat := r.params.flagId

def SnapshotRow.projectId (r : SnapshotRow) : Nat := r.params.projectId

structure Tables where
  flagVersions : Log FlagVersionRow.flagId FlagVersionRow.version
  snapshots : Log SnapshotRow.projectId SnapshotRow.version

/-- `GetLatestFlagVersion`. -/
def Tables.getLatestFlagVersion (t : Tables) (flagId : Nat) : Except DbError FlagVersionRow :=
  match t.flagVersions.latest flagId with
  | none => .error .notFound
  | some row => .ok row

/-- `GetLatestSnapshot`. -/
def Tables.getLatestSnapshot (t : Tables) (projectId : Nat) : Except DbError SnapshotRow :=
  match t.snapshots.latest projectId with
  | none => .error .notFound
  | some row => .ok row

/-! ## The two mutations -/

/-- What the database does to the statements of a mutation, and the result of `uuid.New()`. -/
structure Statements where
  id : Nat
  next : Option DbError
  create : Option DbError

/-- `publishFlagVersionTx`. -/
def publishFlagVersionTx (st : Statements) (t : Tables) (p : PublishFlagVersionParams) :
    Except DbError (Tables × FlagVersionRow) :=
  match st.next with
  | some e => .error (.wrap "store: next version" e)
  | none =>
    match st.create with
    | some e => .error (.wrap "store: create version" e)
    | none =>
      let row : FlagVersionRow := ⟨st.id, p, t.flagVersions.next p.flagId⟩
      .ok ({ t with flagVersions := t.flagVersions.append row rfl }, row)

/-- `Tx.CompileSnapshot`. -/
def compileSnapshotTx (st : Statements) (t : Tables) (p : CompileSnapshotParams) :
    Except DbError (Tables × SnapshotRow) :=
  match st.next with
  | some e => .error (.wrap "store: next snapshot version" e)
  | none =>
    match st.create with
    | some e => .error (.wrap "store: create snapshot" e)
    | none =>
      let row : SnapshotRow := ⟨st.id, p, t.snapshots.next p.projectId⟩
      .ok ({ t with snapshots := t.snapshots.append row rfl }, row)

/-- A request, with its audit event. -/
inductive Mutation where
  | publish (p : PublishFlagVersionParams)
  | compileSnapshot (p : CompileSnapshotParams)

/-- The variable of the caller: `published` or `snap`. -/
inductive Row where
  | flagVersion (r : FlagVersionRow)
  | snapshot (r : SnapshotRow)

def Row.flagVersion? : Row → Option FlagVersionRow
  | .flagVersion r => some r
  | .snapshot _ => none

def Row.snapshot? : Row → Option SnapshotRow
  | .flagVersion _ => none
  | .snapshot r => some r

/-- The closures of the two handlers: the variable is set if there was no error. -/
def Mutation.closure : Mutation → Closure Tables Statements (Option Row)
  | .publish p => fun st t k =>
    match publishFlagVersionTx st t p with
    | .error e => (.failed e, k)
    | .ok (t, v) => (.ok t, some (.flagVersion v))
  | .compileSnapshot p => fun st t k =>
    match compileSnapshotTx st t p with
    | .error e => (.failed e, k)
    | .ok (t, s) => (.ok t, some (.snapshot s))

/-- The row answers the request. -/
def Mutation.Answers : Mutation → Row → Prop
  | .publish p, .flagVersion r => r.params = p
  | .compileSnapshot p, .snapshot r => r.params = p
  | _, _ => False

/-- The tables have one more row, the answer to the request, and its number is the next one. -/
structure Mutation.Extends (m : Mutation) (t t' : Tables) (row : Row) : Prop where
  answers : m.Answers row
  flagRows : t'.flagVersions.rows = t.flagVersions.rows ++ row.flagVersion?.toList
  snapshotRows : t'.snapshots.rows = t.snapshots.rows ++ row.snapshot?.toList
  flagNumbers : t.flagVersions.Numbered → t'.flagVersions.Numbered
  snapshotNumbers : t.snapshots.Numbered → t'.snapshots.Numbered

/-- What a closure that returns nil has done. -/
theorem closure_ok {m : Mutation} {st : Statements} {t t' : Tables} {k k' : Option Row}
    (h : m.closure st t k = (.ok t', k')) : ∃ row, k' = some row ∧ m.Extends t t' row := by
  cases m with
  | publish p =>
    simp only [Mutation.closure, publishFlagVersionTx] at h
    rcases hnext : st.next with _ | e <;> rcases hcreate : st.create with _ | e <;>
      simp only [hnext, hcreate] at h
    · injection h with ht hk
      injection ht with ht
      subst ht hk
      exact ⟨_, rfl, rfl, rfl, (append_nil _).symm, fun h => h.append rfl, fun h => h⟩
    all_goals nomatch h
  | compileSnapshot p =>
    simp only [Mutation.closure, compileSnapshotTx] at h
    rcases hnext : st.next with _ | e <;> rcases hcreate : st.create with _ | e <;>
      simp only [hnext, hcreate] at h
    · injection h with ht hk
      injection ht with ht
      subst ht hk
      exact ⟨_, rfl, rfl, (append_nil _).symm, rfl, fun h => h, fun h => h.append rfl⟩
    all_goals nomatch h

/-! ## Requests that run at once -/

/-- An attempt of a request.  If it is `aborted`, it runs on any store (`attempt.base`) and its commit
    fails with the given error; otherwise it runs on what is committed. -/
structure TryEvent where
  request : Nat
  attempt : Attempt Tables Statements
  aborted : Option DbError

/-- The attempt, on the database. -/
def TryEvent.on (e : TryEvent) (db : Database Tables) : Attempt Tables Statements :=
  match e.aborted with
  | none => { e.attempt with base := db }
  | some err => { e.attempt with commit := some err }

/-- The database and the calls of `WithAudit`.  `order` are the callers in the order of their
    commits. -/
structure Requests where
  db : Database Tables
  calls : Nat → Call (Option Row) DbError (Database Tables)
  order : List Nat

def Requests.init : Requests where
  db := ⟨⟨.empty, .empty⟩, []⟩
  calls _ := { captured := none }
  order := []

section System

variable (b : Backend) (mutation : Nat → Mutation) (ev : Nat → AppendAuditParams)

/-- The attempt as it fares. -/
def Requests.tried (s : Requests) (e : TryEvent) :
    Tried (Option Row) DbError (Database Tables) :=
  b.once (ev e.request) (mutation e.request).closure (e.on s.db) (s.calls e.request).captured

/-- One attempt of one request; a request that has been answered makes no other. -/
def Requests.next (s : Requests) (e : TryEvent) : Requests :=
  match (s.calls e.request).ended with
  | some _ => s
  | none =>
    let t := s.tried b mutation ev e
    { db := t.committed.getD s.db
      calls := update s.calls e.request
        ((s.calls e.request).step b.maxRetries b.retryable e.attempt.cancelled t)
      order := if t.committed.isSome then s.order ++ [e.request] else s.order }

variable {b mutation ev}

/-- What a request was answered with, if it was successful. -/
def Requests.returned (s : Requests) (c : Nat) : Option Row :=
  if (s.calls c).ended = some .ok then (s.calls c).captured else none

/-- The invariant. -/
structure Requests.Inv (mutation : Nat → Mutation) (s : Requests) : Prop where
  flagNumbers : s.db.tables.flagVersions.Numbered
  snapshotNumbers : s.db.tables.snapshots.Numbered
  nodup : s.order.Nodup
  mem_order : ∀ c, c ∈ s.order ↔ (s.calls c).ended = some .ok
  answered : ∀ c ∈ s.order, ∃ row, s.returned c = some row ∧ (mutation c).Answers row
  flagRows : s.db.tables.flagVersions.rows =
    s.order.filterMap fun c => (s.returned c).bind Row.flagVersion?
  snapshotRows : s.db.tables.snapshots.rows =
    s.order.filterMap fun c => (s.returned c).bind Row.snapshot?

theorem Requests.inv_init : Requests.init.Inv mutation where
  flagNumbers := Log.numbered_empty
  snapshotNumbers := Log.numbered_empty
  nodup := nodup_nil
  mem_order _ := ⟨fun h => absurd h not_mem_nil, fun h => (nomatch h)⟩
  answered _ h := absurd h not_mem_nil
  flagRows := rfl
  snapshotRows := rfl

/-- Requests that made no attempt are as they were. -/
theorem returned_update_of_ne {s : Requests} {c c' : Nat} (h : c' ≠ c)
    (call : Call (Option Row) DbError (Database Tables)) (db : Database Tables) (order : List Nat) :
    Requests.returned ⟨db, update s.calls c call, order⟩ c' = s.returned c' := by
  simp only [Requests.returned, update_of_ne h]

theorem returned_update_self {s : Requests} (c : Nat)
    (call : Call (Option Row) DbError (Database Tables)) (db : Database Tables) (order : List Nat) :
    Requests.returned ⟨db, update s.calls c call, order⟩ c =
      if call.ended = some .ok then call.captured else none := by
  simp only [Requests.returned, update_self]

section Step

variable {s : Requests} {c : Nat} {call : Call (Option Row) DbError (Database Tables)}

/-- A call goes on or fails: nothing is returned, nothing was committed. -/
theorem Requests.Inv.failed (h : s.Inv mutation) (hc : c ∉ s.order) (hcall : call.ended ≠ some .ok) :
    Requests.Inv mutation { s with calls := update s.calls c call } := by
  have hnone : s.returned c = none := if_neg fun hok => hc ((h.mem_order c).mpr hok)
  have hreturned : ∀ c', Requests.returned { s with calls := update s.calls c call } c' =
      s.returned c' := by
    intro c'
    by_cases heq : c' = c
    · subst heq
      rw [returned_update_self, if_neg hcall, hnone]
    · exact returned_update_of_ne heq _ _ _
  exact {
    flagNumbers := h.flagNumbers
    snapshotNumbers := h.snapshotNumbers
    nodup := h.nodup
    mem_order := by
      intro c'
      by_cases heq : c' = c
      · subst heq
        simp only [update_self]
        exact ⟨fun hmem => absurd hmem hc, fun hok => absurd hok hcall⟩
      · simp only [update_of_ne heq]
        exact h.mem_order c'
    answered := by
      intro c' hc'
      rw [hreturned]
      exact h.answered c' hc'
    flagRows := by
      simp only [hreturned]
      exact h.flagRows
    snapshotRows := by
      simp only [hreturned]
      exact h.snapshotRows }

/-- A call ends well: its row is the last of its table, and is what the caller is returned. -/
theorem Requests.Inv.committed (h : s.Inv mutation) (hc : c ∉ s.order) {db : Database Tables}
    {row : Row} (hended : call.ended = some .ok) (hcaptured : call.captured = some row)
    (hrow : (mutation c).Extends s.db.tables db.tables row) :
    Requests.Inv mutation ⟨db, update s.calls c call, s.order ++ [c]⟩ := by
  have hself : Requests.returned ⟨db, update s.calls c call, s.order ++ [c]⟩ c = some row := by
    rw [returned_update_self, if_pos hended, hcaptured]
  have hother : ∀ c' ∈ s.order,
      Requests.returned ⟨db, update s.calls c call, s.order ++ [c]⟩ c' = s.returned c' :=
    fun c' hc' => returned_update_of_ne (ne_of_mem_of_not_mem hc' hc) _ _ _
  have hrows : ∀ {α : Type} (f : Row → Option α),
      (s.order ++ [c]).filterMap (fun c' => (Requests.returned
        ⟨db, update s.calls c call, s.order ++ [c]⟩ c').bind f) =
      s.order.filterMap (fun c' => (s.returned c').bind f) ++ (f row).toList := by
    intro α f
    rw [filterMap_append]
    congr 1
    · exact filterMap_congr fun c' hc' => by rw [hother c' hc']
    · rw [filterMap_cons, hself]
      rcases hf : f row with _ | x
      · simp [hf]
      · simp [hf]
  exact {
    flagNumbers := hrow.flagNumbers h.flagNumbers
    snapshotNumbers := hrow.snapshotNumbers h.snapshotNumbers
    nodup := by
      show (s.order ++ [c]).Nodup
      rw [nodup_append]
      refine ⟨h.nodup, nodup_singleton _, fun a ha b hb heq => hc ?_⟩
      rw [← mem_singleton.mp hb, ← heq]
      exact ha
    mem_order := by
      intro c'
      show c' ∈ s.order ++ [c] ↔ _
      by_cases heq : c' = c
      · subst heq
        simp only [update_self, hended, mem_append, mem_singleton, or_true]
      · simp only [update_of_ne heq, mem_append, mem_singleton, heq, or_false]
        exact h.mem_order c'
    answered := by
      intro c' hc'
      rcases mem_append.mp hc' with hc' | hc'
      · rw [hother c' hc']
        exact h.answered c' hc'
      · rw [mem_singleton.mp hc']
        exact ⟨row, hself, hrow.answers⟩
    flagRows := (hrow.flagRows.trans (by rw [h.flagRows])).trans (hrows Row.flagVersion?).symm
    snapshotRows := (hrow.snapshotRows.trans (by rw [h.snapshotRows])).trans (hrows Row.snapshot?).symm }

end Step

/-! ## Attempts -/

/-- A commit that fails is not the end of an attempt that ends well. -/
theorem commit_of_ok {σ ω κ : Type} {ev : AppendAuditParams} {fn : Closure σ ω κ} {a : Attempt σ ω}
    {k : κ} (h : (b.once ev fn a k).ending = .ok) : a.commit = none := by
  rw [b.once_eq, runOnceTx] at h
  rcases hbegin : a.begin with _ | e <;> simp only [hbegin] at h
  · split at h
    · cases h
    · cases h
    · rcases hcommit : a.commit with _ | e
      · rfl
      · rw [hcommit] at h
        cases h
  · cases h

/-- An attempt that commits has extended what was committed by the row it leaves its caller. -/
theorem tried_committed {s : Requests} {e : TryEvent} {db : Database Tables}
    (h : (s.tried b mutation ev e).committed = some db) :
    (s.tried b mutation ev e).ending = .ok ∧ ∃ row, (s.tried b mutation ev e).captured = some row ∧
      (mutation e.request).Extends s.db.tables db.tables row := by
  obtain ⟨hok, hno⟩ := b.atomic_once (ev e.request) (mutation e.request).closure (e.on s.db)
    (s.calls e.request).captured
  have hending : (s.tried b mutation ev e).ending = .ok := by
    by_contra hne
    rw [Requests.tried, hno hne] at h
    nomatch h
  obtain ⟨_, hdb, k0, t', hfn, rfl⟩ := hok hending
  rw [Requests.tried, hdb] at h
  injection h with h
  subst h
  -- the attempt was not aborted, so it ran on what is committed
  have hbase : (e.on s.db).base = s.db := by
    have hcommit := commit_of_ok hending
    rw [TryEvent.on] at hcommit ⊢
    rcases haborted : e.aborted with _ | err
    · rfl
    · rw [haborted] at hcommit
      nomatch hcommit
  rw [hbase] at hfn
  obtain ⟨row, hrow, hextends⟩ := closure_ok hfn
  exact ⟨hending, row, hrow, hextends⟩

/-- An attempt that commits nothing does not end well. -/
theorem tried_not_committed {s : Requests} {e : TryEvent}
    (h : (s.tried b mutation ev e).committed = none) : (s.tried b mutation ev e).ending ≠ .ok := by
  intro hending
  obtain ⟨db, hdb, -⟩ := (b.atomic_once (ev e.request) (mutation e.request).closure (e.on s.db)
    (s.calls e.request).captured).1 hending
  rw [Requests.tried, hdb] at h
  nomatch h

/-- **One attempt keeps the invariant.** -/
theorem Requests.inv_next {s : Requests} (h : s.Inv mutation) (e : TryEvent) :
    (s.next b mutation ev e).Inv mutation := by
  rw [Requests.next]
  rcases hended : (s.calls e.request).ended with _ | ending
  · have hnot : e.request ∉ s.order := by
      rw [h.mem_order, hended]
      nofun
    obtain ⟨ended, attempt, hstep, hcases⟩ := @step_cases _ _ _ b.maxRetries b.retryable _ hended
      e.attempt.cancelled (s.tried b mutation ev e)
    rcases hcommitted : (s.tried b mutation ev e).committed with _ | db
    · -- nothing was committed, and the call has not ended well
      simp only [hcommitted, hstep]
      refine h.failed hnot ?_
      rintro rfl
      rcases hcases with ⟨hok, -⟩ | ⟨_, _, -, hok, -⟩ | ⟨_, -, hok, -⟩
      · exact tried_not_committed hcommitted (Option.some.inj hok).symm
      · nomatch hok
      · nomatch hok
    · obtain ⟨hok, row, hcaptured, hrow⟩ := tried_committed hcommitted
      simp only [hcommitted, hstep]
      refine h.committed hnot ?_ hcaptured hrow
      rcases hcases with ⟨hok', -⟩ | ⟨_, _, hfailed, -⟩ | ⟨_, hfailed, -⟩
      · rw [hok', hok]
      · rw [hok] at hfailed
        nomatch hfailed
      · rw [hok] at hfailed
        nomatch hfailed
  · exact h

/-! ## The numbers -/

/-- What the version numbers promise.  `n` is the number of rows of a flag or a project. -/
structure Requests.Exact (mutation : Nat → Mutation) (s : Requests) : Prop where
  /-- The numbers of a flag are `1, …, n`. -/
  flagNumbers : ∀ f, (s.db.tables.flagVersions.of f).map FlagVersionRow.version =
    List.range' 1 (s.db.tables.flagVersions.of f).length
  /-- The numbers of a project's snapshots are `1, …, n`. -/
  snapshotNumbers : ∀ p, (s.db.tables.snapshots.of p).map SnapshotRow.version =
    List.range' 1 (s.db.tables.snapshots.of p).length
  /-- The rows are what the successful callers were returned, one each. -/
  ownRows : ∃ order : List Nat, order.Nodup ∧
    (∀ c, c ∈ order ↔ (s.calls c).ended = some .ok) ∧
    (∀ c ∈ order, ∃ row, s.returned c = some row ∧ (mutation c).Answers row) ∧
    s.db.tables.flagVersions.rows = order.filterMap (fun c => (s.returned c).bind Row.flagVersion?) ∧
    s.db.tables.snapshots.rows = order.filterMap fun c => (s.returned c).bind Row.snapshot?
  /-- Successful callers get different versions of a flag. -/
  flagDistinct : ∀ c c' r r', c ≠ c' → s.returned c = some (.flagVersion r) →
    s.returned c' = some (.flagVersion r') → r.flagId = r'.flagId → r.version ≠ r'.version
  /-- Successful callers get different snapshot versions of a project. -/
  snapshotDistinct : ∀ c c' r r', c ≠ c' → s.returned c = some (.snapshot r) →
    s.returned c' = some (.snapshot r') → r.projectId = r'.projectId → r.version ≠ r'.version
  /-- The latest version of a flag is number `n`. -/
  latestFlag : ∀ f r, s.db.tables.getLatestFlagVersion f = .ok r ↔
    r ∈ s.db.tables.flagVersions.of f ∧ r.version = (s.db.tables.flagVersions.of f).length
  /-- The latest snapshot of a project is number `n`. -/
  latestSnapshot : ∀ p r, s.db.tables.getLatestSnapshot p = .ok r ↔
    r ∈ s.db.tables.snapshots.of p ∧ r.version = (s.db.tables.snapshots.of p).length

/-- Different callers that were returned rows of one table and one owner got different numbers: one
    of the rows stands before the other. -/
theorem version_ne_of_returned {ρ : Type} {owner : ρ → Nat} {version : ρ → Nat}
    {l : Log owner version} {order : List Nat} {f : Nat → Option ρ}
    (hrows : l.rows = order.filterMap f) {c c' : Nat} {r r' : ρ} (hc : c ∈ order) (hc' : c' ∈ order)
    (hne : c ≠ c') (hr : f c = some r) (hr' : f c' = some r') (howner : owner r = owner r') :
    version r ≠ version r' := by
  let Differ (a a' : Nat) : Prop := ∀ b, f a = some b → ∀ b', f a' = some b' →
    owner b = owner b' → version b ≠ version b'
  have hpairs : order.Pairwise Differ := by
    have hgrowing := l.increasing
    rw [Growing, hrows, pairwise_filterMap] at hgrowing
    exact hgrowing.imp fun h b hb b' hb' hbb => Nat.ne_of_lt (h b hb b' hb' hbb)
  have hsymm : Std.Symm Differ := ⟨fun _ _ h b hb b' hb' hbb => (h b' hb' b hb hbb.symm).symm⟩
  exact hpairs.forall hc hc' hne r hr r' hr' howner

theorem mem_order_of_returned {s : Requests} (h : s.Inv mutation) {c : Nat} {row : Row}
    (hrow : s.returned c = some row) : c ∈ s.order := by
  rw [h.mem_order]
  by_contra hne
  rw [Requests.returned, if_neg hne] at hrow
  nomatch hrow

theorem Requests.Inv.exact {s : Requests} (h : s.Inv mutation) : s.Exact mutation where
  flagNumbers := h.flagNumbers
  snapshotNumbers := h.snapshotNumbers
  ownRows := ⟨s.order, h.nodup, h.mem_order, h.answered, h.flagRows, h.snapshotRows⟩
  flagDistinct := by
    intro c c' r r' hne hr hr' howner
    exact version_ne_of_returned h.flagRows (mem_order_of_returned h hr)
      (mem_order_of_returned h hr') hne (by rw [hr]; rfl) (by rw [hr']; rfl) howner
  snapshotDistinct := by
    intro c c' r r' hne hr hr' howner
    exact version_ne_of_returned h.snapshotRows (mem_order_of_returned h hr)
      (mem_order_of_returned h hr') hne (by rw [hr]; rfl) (by rw [hr']; rfl) howner
  latestFlag := by
    intro f r
    rw [← h.flagNumbers.latest_iff, Tables.getLatestFlagVersion]
    rcases s.db.tables.flagVersions.latest f with _ | r'
    · exact ⟨fun h => (nomatch h), fun h => (nomatch h)⟩
    · exact ⟨fun h => congrArg some (Except.ok.inj h), fun h => congrArg Except.ok (Option.some.inj h)⟩
  latestSnapshot := by
    intro p r
    rw [← h.snapshotNumbers.latest_iff, Tables.getLatestSnapshot]
    rcases s.db.tables.snapshots.latest p with _ | r'
    · exact ⟨fun h => (nomatch h), fun h => (nomatch h)⟩
    · exact ⟨fun h => congrArg some (Except.ok.inj h), fun h => congrArg Except.ok (Option.some.inj h)⟩

end System

/-- **Version numbers are exact.**  Whatever requests there are, on either backend, and however their
    attempts interleave, fail, abort and are retried: in every state the versions of a flag and the
    snapshots of a project are numbered `1, …, n`, each row was returned to the caller that wrote
    it, and the latest row is number `n`. -/
theorem versions_exact (b : Backend) (mutation : Nat → Mutation) (ev : Nat → AppendAuditParams)
    (events : List TryEvent) :
    Along (Requests.next b mutation ev) (Requests.Exact mutation) Requests.init events := by
  have hinv : Along (Requests.next b mutation ev) (Requests.Inv mutation) Requests.init events :=
    along_of_invariant (fun _ e h => Requests.inv_next h e) Requests.inv_init
  exact hinv.imp fun _ h => h.exact

end FalseFlag
