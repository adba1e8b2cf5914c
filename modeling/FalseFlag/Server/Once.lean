/-
  Exactly once (internal/server/handlers and internal/server/rpc, with `WithAudit` of
  internal/store).

  A request that changes something answers an error before its transaction, or answers what its
  transaction returns (`rest_all`).  A transaction that succeeds leaves one event in the audit log
  and its row in the tables; one that fails leaves nothing.

  * **`exactly_once`** — any number of requests at once, over both surfaces, whatever fails: the
    events in the log are those of the requests that were answered with success, one each, in the
    order of their commits; and the row that a request was answered with is in the tables from then
    on;
  * **`append_only`** — from one moment of a run to a later one no row is removed or changed, but
    for the contents of segments that are updated, and the audit log is only appended to.
-/
import FalseFlag.Server.Effects
import FalseFlag.Server.Surfaces

namespace FalseFlag.Server

open List JsonTree Processes Versioned

/-! ## What a handler can come to -/

/-- The action and the actor of the event that a request writes, if it writes one. -/
def RestRequest.audits : RestRequest → Option (String × String)
  | .createProject actor _ => some ("create_project", actor)
  | .createEnvironment _ actor _ => some ("create_environment", actor)
  | .createFlag _ actor _ => some ("create_flag", actor)
  | .publishFlagVersion _ _ _ actor _ => some ("publish_version", actor)
  | .createSegment _ actor _ => some ("create_segment", actor)
  | .updateSegment _ _ actor _ => some ("update_segment", actor)
  | .compileSnapshot _ actor _ => some ("compile_snapshot", actor)
  | _ => none

/-- The body of a success. -/
def RestResponse.reply : RestResponse → Option Reply
  | .json _ body => some body
  | .error _ _ | .crashed => none

section Shape

variable {env : Env} {db : Medium} {b : Backend} {A : RestResponse → Prop}
  {T : Audited → (Except DbError Mutators.Row → RestResponse) → Prop}

/-- A request that writes succeeds by its transaction only. -/
def RestRequest.AtOnce (r : RestRequest) (a : RestResponse) : Prop :=
  r.audits.isSome = true → a.reply = none

/-- The transaction of a request. -/
def RestRequest.AtLast (db : Medium) (r : RestRequest) (t : Audited)
    (k : Except DbError Mutators.Row → RestResponse) : Prop :=
  r.audits = some (t.event.action, t.event.actor) ∧ ∃ status, k = Rest.written db status

theorem all_withRow {β : Type} {query : Except ReadFault Db → Except DbError β}
    {k : β → Handler RestResponse} (herror : ∀ e, A (Rest.notFoundOrError e))
    (hok : ∀ row, (k row).All A T) : (Rest.withRow query k).All A T := by
  intro r
  beta_reduce
  rcases query r with e | row
  · exact herror e
  · exact hok row

theorem all_withRows {β : Type} {query : Except ReadFault Db → Except DbError (List β)}
    {k : List β → Handler RestResponse} (herror : ∀ e, A (.error 500 (.store e)))
    (hok : ∀ rows, (k rows).All A T) : (Rest.withRows query k).All A T := by
  intro r
  beta_reduce
  rcases query r with e | rows
  · exact herror e
  · exact hok rows

theorem all_withBody {β : Type} {body : Body β} {k : β → Handler RestResponse}
    (herror : ∀ text, A (Rest.badRequest text)) (hok : ∀ req, (k req).All A T) :
    (Rest.withBody body k).All A T := by
  rcases body with text | req
  · exact herror text
  · exact hok req

/-- A lookup that fails is no success. -/
theorem atOnce_notFoundOrError (r : RestRequest) (e : DbError) :
    r.AtOnce (Rest.notFoundOrError e) := by
  intro _
  unfold Rest.notFoundOrError
  split <;> rfl

theorem atOnce_badRequest (r : RestRequest) (text : String) : r.AtOnce (Rest.badRequest text) :=
  fun _ => rfl

theorem compileAndInsert_all (slug actor : String) (body : Option (Body (Option String)))
    (projectId : Nat) (envId : Option Nat) :
    (Rest.compileAndInsert env db actor projectId envId).All
      (RestRequest.AtOnce (.compileSnapshot slug actor body))
      (RestRequest.AtLast db (.compileSnapshot slug actor body)) := by
  intro r
  beta_reduce
  rcases compileBundle env db projectId r with failure | flags
  · exact fun _ => rfl
  · exact ⟨rfl, 201, rfl⟩

theorem compileSnapshot_all (slug actor : String) (body : Option (Body (Option String))) :
    (Rest.compileSnapshot env db slug actor body).All
      (RestRequest.AtOnce (.compileSnapshot slug actor body))
      (RestRequest.AtLast db (.compileSnapshot slug actor body)) := by
  refine all_withRow (atOnce_notFoundOrError _) fun proj => ?_
  rcases body with _ | body
  · exact compileAndInsert_all slug actor _ proj.id none
  · refine all_withBody (atOnce_badRequest _) fun environmentSlug => ?_
    split
    · exact compileAndInsert_all slug actor _ proj.id none
    · exact compileAndInsert_all slug actor _ proj.id none
    · rename_i envSlug _
      intro r
      beta_reduce
      rcases getEnvironmentBySlug proj.id envSlug r with e | e
      · simp only
        split
        · exact atOnce_badRequest _ _
        · exact fun _ => rfl
      · exact compileAndInsert_all slug actor _ proj.id (some e.id)

theorem publishFlagVersion_all (fuel : Nat) (slug key actor : String)
    (body : Body PublishFlagVersionRequest) :
    (Rest.publishFlagVersion env db fuel slug key actor body).All
      (RestRequest.AtOnce (.publishFlagVersion fuel slug key actor body))
      (RestRequest.AtLast db (.publishFlagVersion fuel slug key actor body)) := by
  refine all_withRow (atOnce_notFoundOrError _) fun proj => ?_
  refine all_withRow (atOnce_notFoundOrError _) fun flag => ?_
  refine all_withBody (atOnce_badRequest _) fun req => ?_
  rcases Strategy.parse req.strategy with _ | strategy
  · exact atOnce_badRequest _ _
  · intro r
    simp only
    rcases resolveSegmentRefs env (resolveSegment env db proj.id r) fuel _ with _ | err | resolved
    · exact fun _ => rfl
    · exact atOnce_badRequest _ _
    · simp only
      rcases compile env (.known strategy) resolved with err | compiled
      · simp only
        split
        · exact atOnce_badRequest _ _
        · exact fun _ => rfl
      · exact ⟨rfl, 200, rfl⟩

/-- Evaluations read. -/
theorem loadEvaluation_all (slug key : String) (body : Body Context)
    (k : Compiled → Nat → Context → RestResponse) :
    (Rest.loadEvaluation env db slug key body k).All (fun _ => True) fun _ _ => False := by
  refine all_withRow (fun _ => trivial) fun proj => all_withRow (fun _ => trivial) fun flag => ?_
  refine all_withRow (fun _ => trivial) fun version => all_withBody (fun _ => trivial) fun ctx => ?_
  rcases compile env (.ofString version.params.strategy) (.json version.params.compiled) with
    err | compiled
  · trivial
  · trivial

theorem getFlag_all (slug key : String) :
    (Rest.getFlag db slug key).All (fun _ => True) fun _ _ => False := by
  refine all_withRow (fun _ => trivial) fun proj => all_withRow (fun _ => trivial) fun flag => ?_
  intro r
  beta_reduce
  rcases getLatestFlagVersion db flag.id r with e | latest
  · simp only
    split <;> trivial
  · trivial

/-- A request that writes nothing runs no transaction. -/
theorem reads_all {r : RestRequest} (h : r.audits = none) :
    (rest env db b r).All (fun _ => True) fun _ _ => False := by
  -- a list of what a project has
  have hlist : ∀ {β : Type} (query : Nat → Except ReadFault Db → Except DbError (List β))
      (reply : List β → Reply) (slug : String),
      (Rest.listOf query reply slug).All (fun _ => True) fun _ _ => False := fun _ _ _ =>
    all_withRow (fun _ => trivial) fun _ => all_withRows (fun _ => trivial) fun _ => trivial
  cases r with
  | listProjects => exact all_withRows (fun _ => trivial) fun _ => trivial
  | listEnvironments slug => exact hlist _ _ slug
  | listFlags slug => exact hlist _ _ slug
  | listSegments slug => exact hlist _ _ slug
  | getProject slug => exact all_withRow (fun _ => trivial) fun _ => trivial
  | getEnvironment slug envSlug =>
    exact all_withRow (fun _ => trivial) fun _ => all_withRow (fun _ => trivial) fun _ => trivial
  | getFlag slug key => exact getFlag_all slug key
  | listFlagVersions slug key =>
    exact all_withRow (fun _ => trivial) fun _ => all_withRow (fun _ => trivial) fun _ =>
      all_withRows (fun _ => trivial) fun _ => trivial
  | getSegment slug segKey =>
    exact all_withRow (fun _ => trivial) fun _ => all_withRow (fun _ => trivial) fun _ => trivial
  | listSnapshots slug limit =>
    rw [rest, Rest.listSnapshots]
    exact hlist _ _ slug
  | getLatestSnapshot slug =>
    exact all_withRow (fun _ => trivial) fun _ => all_withRow (fun _ => trivial) fun _ => trivial
  | getSnapshot slug id =>
    exact all_withRow (fun _ => trivial) fun _ => all_withRow (fun _ => trivial) fun _ => trivial
  | evaluateFlag slug key body =>
    rw [rest, Rest.evaluateFlag]
    exact loadEvaluation_all slug key body _
  | evaluateFlagWithTrace slug key body =>
    rw [rest, Rest.evaluateFlagWithTrace]
    exact loadEvaluation_all slug key body _
  | createProject actor body => cases h
  | createEnvironment slug actor body => cases h
  | createFlag slug actor body => cases h
  | publishFlagVersion fuel slug key actor body => cases h
  | createSegment slug actor body => cases h
  | updateSegment slug segKey actor body => cases h
  | compileSnapshot slug actor body => cases h

theorem createSegment_all (slug actor : String) (body : Body CreateSegmentRequest) :
    (Rest.createSegment env db slug actor body).All
      (RestRequest.AtOnce (.createSegment slug actor body))
      (RestRequest.AtLast db (.createSegment slug actor body)) := by
  refine all_withRow (atOnce_notFoundOrError _) fun proj => ?_
  refine all_withBody (atOnce_badRequest _) fun req => ?_
  rcases normalizePredicate env req.predicate with text | predicate
  · exact atOnce_badRequest _ _
  · exact ⟨rfl, 201, rfl⟩

theorem updateSegment_all (slug segKey actor : String) (body : Body UpdateSegmentRequest) :
    (Rest.updateSegment env db slug segKey actor body).All
      (RestRequest.AtOnce (.updateSegment slug segKey actor body))
      (RestRequest.AtLast db (.updateSegment slug segKey actor body)) := by
  refine all_withRow (atOnce_notFoundOrError _) fun proj => ?_
  refine all_withBody (atOnce_badRequest _) fun req => ?_
  rcases normalizePredicate env req.predicate with text | predicate
  · exact atOnce_badRequest _ _
  · exact ⟨rfl, 200, rfl⟩

theorem createProject_all (actor : String) (body : Body CreateProjectRequest) :
    (Rest.createProject env db actor body).All (RestRequest.AtOnce (.createProject actor body))
      (RestRequest.AtLast db (.createProject actor body)) := by
  refine all_withBody (atOnce_badRequest _) fun req => ?_
  rcases Strategy.parse req.configStrategy with _ | strategy
  · exact atOnce_badRequest _ _
  · exact ⟨rfl, 201, rfl⟩

/-- **What a handler can come to**: a request that writes answers an error, or runs one transaction
    with an event of its action and actor, and answers what that returns; the others run none. -/
theorem rest_all (r : RestRequest) : (rest env db b r).All r.AtOnce (r.AtLast db) := by
  have hreads : r.audits = none → (rest env db b r).All r.AtOnce (r.AtLast db) := by
    intro h
    refine (reads_all h).imp (fun _ _ hsome => ?_) fun _ _ => False.elim
    rw [h] at hsome
    cases hsome
  cases r with
  | createProject actor body => exact createProject_all actor body
  | createEnvironment slug actor body =>
    exact all_withRow (atOnce_notFoundOrError _) fun _ =>
      all_withBody (atOnce_badRequest _) fun _ => ⟨rfl, 201, rfl⟩
  | createFlag slug actor body =>
    exact all_withRow (atOnce_notFoundOrError _) fun _ =>
      all_withBody (atOnce_badRequest _) fun _ => ⟨rfl, 201, rfl⟩
  | publishFlagVersion fuel slug key actor body => exact publishFlagVersion_all fuel slug key actor body
  | createSegment slug actor body => exact createSegment_all slug actor body
  | updateSegment slug segKey actor body => exact updateSegment_all slug segKey actor body
  | compileSnapshot slug actor body => exact compileSnapshot_all slug actor body
  | listProjects => exact hreads rfl
  | listEnvironments slug => exact hreads rfl
  | listFlags slug => exact hreads rfl
  | listSegments slug => exact hreads rfl
  | getProject slug => exact hreads rfl
  | getEnvironment slug envSlug => exact hreads rfl
  | getFlag slug key => exact hreads rfl
  | listFlagVersions slug key => exact hreads rfl
  | getSegment slug segKey => exact hreads rfl
  | listSnapshots slug limit => exact hreads rfl
  | getLatestSnapshot slug => exact hreads rfl
  | getSnapshot slug id => exact hreads rfl
  | evaluateFlag slug key body => exact hreads rfl
  | evaluateFlagWithTrace slug key body => exact hreads rfl

end Shape

/-! ## Over both surfaces -/

def ConnectResponse.reply : ConnectResponse → Option Reply
  | .response msg => some msg
  | .error _ _ | .crashed => none

def Answer.reply : Answer → Option Reply
  | .rest a => a.reply
  | .connect a => a.reply

def Request.audits (req : Request) : Option (String × String) := req.onRest.bind RestRequest.audits

/-- The transaction of a request: its event, and what is answered. -/
def Request.AtLast (db : Medium) (req : Request) (t : Audited)
    (k : Except DbError Mutators.Row → Answer) : Prop :=
  req.audits = some (t.event.action, t.event.actor) ∧
    ∀ x, (k x).reply = x.toOption.map (Reply.ofRow db)

section Serve

variable {env : Env} {db : Medium} {b : Backend}

theorem reply_writeStoreErr (e : DbError) : (Rest.writeStoreErr e).reply = none := by
  unfold Rest.writeStoreErr
  split
  · rfl
  · split <;> rfl

theorem reply_written (status : Nat) (x : Except DbError Mutators.Row) :
    (Rest.written db status x).reply = x.toOption.map (Reply.ofRow db) := by
  rcases x with e | row
  · exact reply_writeStoreErr e
  · rfl

theorem reply_toConnect (a : RestResponse) : a.toConnect.reply = a.reply := by
  cases a <;> rfl

/-- A Connect request is one of REST, but for a snapshot id that is no UUID. -/
theorem toRest_cases (c : ConnectRequest) :
    (∃ r, c.toRest = some r) ∨ ∃ slug text, c = .getSnapshot slug (.error text) := by
  cases c with
  | getSnapshot slug id =>
    rcases id with text | id
    · exact .inr ⟨slug, text, rfl⟩
    · exact .inl ⟨_, rfl⟩
  | _ => exact .inl ⟨_, rfl⟩

/-- **What a handler can come to.** -/
theorem serve_all (req : Request) :
    (serve env db b req).All (fun a => req.audits.isSome = true → a.reply = none)
      (req.AtLast db) := by
  cases req with
  | rest r =>
    rw [serve, Process.all_map]
    refine (rest_all r).imp (fun _ h => h) ?_
    rintro t k ⟨haudits, status, rfl⟩
    exact ⟨haudits, reply_written status⟩
  | connect c =>
    rw [serve, Process.all_map]
    rcases toRest_cases c with ⟨r, hr⟩ | ⟨slug, text, rfl⟩
    · have haudits : Request.audits (.connect c) = r.audits := by
        rw [Request.audits, Request.onRest, hr]
        rfl
      rw [connect_eq_map hr, Process.all_map, haudits]
      refine (rest_all r).imp (fun a h hsome => (reply_toConnect a).trans (h hsome)) ?_
      rintro t k ⟨hr', status, rfl⟩
      exact ⟨haudits.trans hr', fun x => (reply_toConnect _).trans (reply_written status x)⟩
    · -- the lookup of the project is all that is done
      intro r
      beta_reduce
      rcases getProjectBySlug slug r with e | proj
      · exact fun hsome => absurd hsome Bool.false_ne_true
      · exact fun hsome => absurd hsome Bool.false_ne_true

end Serve

/-! ## Whole runs -/

/-- The transaction succeeded. -/
def succeeded (b : Backend) (c : Commit Db Audited Fate) : Bool :=
  (execute b c.store c.txn c.fate).2.toOption.isSome

/-- A transaction appends its event iff it succeeds. -/
theorem audit_execute (b : Backend) (c : Commit Db Audited Fate) :
    (execute b c.store c.txn c.fate).1.audit =
      c.store.audit ++ if succeeded b c then [c.txn.event] else [] := by
  rw [succeeded]
  rcases execute_cases b c.store c.txn c.fate with ⟨g, s, row, -, -, hexec⟩ | ⟨e, hexec⟩
  · rw [hexec]
    rfl
  · rw [hexec]
    exact (append_nil _).symm

/-- The row of a transaction that succeeded is in its table. -/
theorem row_mem {b : Backend} {d : Db} {t : Audited} {w : Fate} {row : Mutators.Row}
    (h : (execute b d t w).2 = .ok row) : row ∈ row.table.rows (execute b d t w).1.tables := by
  rcases execute_cases b d t w with ⟨g, s, row', -, htx, hexec⟩ | ⟨e, hexec⟩
  · rw [hexec] at h ⊢
    cases h
    rcases Mutators.tx_ok htx with ⟨-, hrow⟩ | ⟨p, -, hrow⟩
    · rw [hrow.rows, if_pos rfl]
      exact mem_append_right _ (mem_singleton_self _)
    · obtain ⟨r, hfind, rfl⟩ := hrow.found
      rw [hrow.store]
      refine mem_map_of_mem (mem_map.mpr ⟨r, mem_of_find?_eq_some hfind, ?_⟩)
      rw [if_pos (find?_some hfind)]
  · rw [hexec] at h
    cases h

/-- A list with two readings, related item by item. -/
theorem forall₂_map_map {α β γ : Type} {R : β → γ → Prop} {f : α → β} {g : α → γ} {xs : List α}
    (h : ∀ x ∈ xs, R (f x) (g x)) : Forall₂ R (xs.map f) (xs.map g) := by
  rw [forall₂_map_left_iff, forall₂_map_right_iff]
  exact forall₂_same.mpr h

/-- **Exactly once.**  Let any requests run at once on any database, over both surfaces, interleaved
    in any way; reads and transactions may fail.  At every moment the requests that have been
    answered with success and that change something have an order, each of them standing in it once.
    A later turn only adds to its end, so it is the order in which they were committed.  The audit log
    has grown by their events in that order, with their actions and actors.  What each of them was
    answered is the row it has written, and that row is in its table, as it was but for what updates
    of segments have changed since.  A request that was answered with an error, or not yet, has left
    no trace. -/
theorem exactly_once (env : Env) (db : Medium) (b : Backend) (reqs : Nat → Request) (d : Db) :
    ∃ (order : List (Turn ReadFault Fate) → List Nat)
      (events : List (Turn ReadFault Fate) → List AppendAuditParams),
      (∀ es es', order es <+: order (es ++ es') ∧ events es <+: events (es ++ es')) ∧
      ∀ es, (order es).Nodup ∧
        (∀ i, i ∈ order es ↔ (reqs i).audits.isSome = true ∧
          ∃ a, (run env db b reqs d es).procs i = .answer a ∧ a.reply.isSome = true) ∧
        (run env db b reqs d es).store.audit = d.audit ++ events es ∧
        Forall₂ (fun i ev => (reqs i).audits = some (ev.action, ev.actor)) (order es)
          (events es) ∧
        ∀ i ∈ order es, ∃ a row, (run env db b reqs d es).procs i = .answer a ∧
          a.reply = some (Reply.ofRow db row) ∧
          ∃ row' ∈ row.table.rows (run env db b reqs d es).store.tables, row'.fixed = row.fixed := by
  unfold run
  refine ⟨fun es => ((history (execute b) (pool env db b reqs d) es).filter (succeeded b)).map
      Commit.who,
    fun es => ((history (execute b) (pool env db b reqs d) es).filter (succeeded b)).map
      (·.txn.event), ?_, fun es => ?_⟩
  · intro es es'
    have hlonger : (history (execute b) (pool env db b reqs d) es).filter (succeeded b) <+:
        (history (execute b) (pool env db b reqs d) (es ++ es')).filter (succeeded b) := by
      rw [history_append, filter_append]
      exact prefix_append _ _
    exact ⟨hlonger.map _, hlonger.map _⟩
  have hbetween := history_between (execute b) Grows.refl Grows.trans (grows_execute b) es
    (pool env db b reqs d)
  have hnodup := history_nodup (execute b) es (pool env db b reqs d)
  -- what has become of each request
  have hend := fun i => serial (execute b) i es (pool env db b reqs d) (serve_all (reqs i))
  have hcommit : ∀ c ∈ history (execute b) (pool env db b reqs d) es,
      ∃ k, (reqs c.who).AtLast db c.txn k ∧
        (es.foldl (Pool.next (execute b)) (pool env db b reqs d)).procs c.who =
          .answer (k (execute b c.store c.txn c.fate).2) := by
    intro c hc
    rcases hend c.who with ⟨c', hc', hwho, hk⟩ | ⟨hnone, -⟩
    · rw [inj_on_of_nodup_map hnodup hc' hc hwho] at hk
      exact hk
    · exact absurd rfl (hnone c hc)
  refine ⟨?_, ?_, history_log (execute b) (audit_execute b) es _, ?_, ?_⟩
  · exact hnodup.sublist (filter_sublist.map _)
  · intro i
    constructor
    · intro hi
      obtain ⟨c, hc, rfl⟩ := mem_map.mp hi
      obtain ⟨hc, hs⟩ := mem_filter.mp hc
      obtain ⟨k, ⟨haudits, hreply⟩, hanswer⟩ := hcommit c hc
      refine ⟨by rw [haudits]; rfl, _, hanswer, ?_⟩
      rw [hreply, Option.isSome_map]
      exact hs
    · rintro ⟨hsome, a, ha, hreply⟩
      rcases hend i with ⟨c, hc, rfl, k, ⟨-, hk⟩, hanswer⟩ | ⟨-, hall⟩
      · rw [hanswer] at ha
        cases ha
        rw [hk, Option.isSome_map] at hreply
        exact mem_map.mpr ⟨c, mem_filter.mpr ⟨hc, hreply⟩, rfl⟩
      · rw [ha] at hall
        rw [hall hsome] at hreply
        cases hreply
  · refine forall₂_map_map fun c hc => ?_
    obtain ⟨k, ⟨haudits, -⟩, -⟩ := hcommit c (mem_filter.mp hc).1
    exact haudits
  · intro i hi
    obtain ⟨c, hc, rfl⟩ := mem_map.mp hi
    obtain ⟨hc, hs⟩ := mem_filter.mp hc
    obtain ⟨k, ⟨-, hreply⟩, hanswer⟩ := hcommit c hc
    rcases hrow : (execute b c.store c.txn c.fate).2 with e | row
    · rw [succeeded, hrow] at hs
      cases hs
    · rw [hrow] at hanswer
      refine ⟨_, row, hanswer, hreply _, ?_⟩
      exact (hbetween.2 c hc).2.mem_fixed _ (row_mem hrow)

/-- A transaction leaves a segment alone, unless it is an update of it that succeeds. -/
theorem segment_execute {b : Backend} {c : Commit Db Audited Fate} {r : Mutators.Segment}
    (hr : r ∈ c.store.tables.segments)
    (h : succeeded b c = true → ∀ p, c.txn.mutation = .updateSegment p → p.selects r = false) :
    r ∈ (execute b c.store c.txn c.fate).1.tables.segments := by
  rcases execute_cases b c.store c.txn c.fate with ⟨g, s, row, -, htx, hexec⟩ | ⟨e, hexec⟩
  · have hs : succeeded b c = true := by
      rw [succeeded, hexec]
      rfl
    rw [hexec]
    rcases Mutators.tx_ok htx with ⟨-, hins⟩ | ⟨p, hp, hup⟩
    · have hmem : Mutators.Row.segment r ∈ Mutators.Table.segments.rows s := by
        rw [hins.rows]
        exact mem_append_left _ (mem_map_of_mem hr)
      obtain ⟨r', hr', heq⟩ := mem_map.mp hmem
      cases heq
      exact hr'
    · rw [hup.store]
      refine mem_map.mpr ⟨r, hr, ?_⟩
      rw [h hs p hp]
      rfl
  · rw [hexec]
    exact hr

/-- **The store is append-only.**  Take two moments of a run, on any database, whatever requests are
    under way and whatever fails.  Each table of the later moment begins with the rows of the earlier
    one, in the same order, and they are as they were but for what updates of segments change; the
    audit log of the earlier moment is the beginning of the later one; and a segment that no update
    committed in between selects is as it was. -/
theorem append_only (env : Env) (db : Medium) (b : Backend) (reqs : Nat → Request) (d : Db)
    (es es' : List (Turn ReadFault Fate)) :
    Grows (run env db b reqs d es).store (run env db b reqs d (es ++ es')).store ∧
    ∀ r ∈ (run env db b reqs d es).store.tables.segments,
      (∀ c ∈ history (execute b) (run env db b reqs d es) es', succeeded b c = true →
        ∀ p, c.txn.mutation = .updateSegment p → p.selects r = false) →
      r ∈ (run env db b reqs d (es ++ es')).store.tables.segments := by
  -- the later turns are a run of their own, from the pool that the earlier ones leave
  have hlater : run env db b reqs d (es ++ es') =
      es'.foldl (Pool.next (execute b)) (run env db b reqs d es) := by
    rw [run, foldl_append]
    rfl
  rw [hlater]
  refine ⟨(history_between (execute b) Grows.refl Grows.trans (grows_execute b) es' _).1, ?_⟩
  intro r hr hnone
  refine @kept_of_history _ _ _ _ _ _ (execute b) (r ∈ ·.tables.segments) es' _ ?_ hr
  intro c hc hr'
  exact segment_execute hr' (hnone c hc)

end FalseFlag.Server
