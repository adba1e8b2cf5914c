/-
  Segments from custom resources (`sync` of internal/operator/controllers/segment_controller.go,
  over internal/server/rpc/segments.go).

  `sync` asks for the segment, then updates it, or creates it if it was not found.  The two calls
  are not one: others may write between them.  An update meets a segment that is still there, since
  nothing deletes one.  A create may meet one that was not there before, and then `sync` takes the
  `AlreadyExists` for success, whatever the segment is.

  * **`success_means_content_iff`** — if a sync returns nil, the content of its spec was in place at
    some moment, EXACTLY when it does not lose the race to create the segment, or the others write
    this very content.

  Content is compared as the evaluators read it: documents with the same value, numbers as float64.
-/
import FalseFlag.Operator.Upstream

namespace FalseFlag.Operator

open JsonTree Runs Except

/-! ## SegmentReconciler.sync -/

/-- `CreateSegmentRequest` and `UpdateSegmentRequest`. -/
structure SegmentCall where
  projectSlug : String
  key : String
  name : String
  description : String
  predicate : Context

/-- The calls on the segments service. -/
structure SegmentsApi (σ : Type) where
  getSegment : String → String → σ → Except ApiError Unit × σ
  createSegment : SegmentCall → σ → Except ApiError Unit × σ
  updateSegment : SegmentCall → σ → Except ApiError Unit × σ

/-- `predicateToStruct`. -/
def predicateToStruct (p : Predicate) : Except JsonError Context :=
  match unmarshalAny (encodePredicate p) with
  | .ok (.obj fields) => .ok fields
  | _ => .error .cannotUnmarshal

/-- The call for a spec. -/
def SegmentSpec.call (spec : SegmentSpec) (predicate : Context) : SegmentCall :=
  { projectSlug := spec.projectSlug, key := spec.key, name := spec.name
    description := spec.description, predicate }

/-- `sync`; nothing of the cluster is read. -/
def syncSegment {σ : Type} (api : SegmentsApi σ) (_ : Kube) (seg : Object SegmentSpec) (s : σ) :
    SyncReply × σ :=
  match irForSegment seg.spec with
  | .error err => ({ err := some (.invalid (.predicate err)) }, s)
  | .ok pred =>
    match predicateToStruct pred with
    | .error _ => ({ err := some (.invalid (.source (encodePredicate pred))) }, s)
    | .ok predStruct =>
      match api.getSegment seg.spec.projectSlug seg.spec.key s with
      | (.ok (), s1) =>
        match api.updateSegment (seg.spec.call predStruct) s1 with
        | (.ok (), s2) => ({}, s2)
        | (.error err, s2) => ({ err := some (.api err) }, s2)
      | (.error getErr, s1) =>
        if getErr.code ≠ some .notFound then ({ err := some (.api getErr) }, s1)
        else
          -- it was not there when the first call was served; it may be by now
          match api.createSegment (seg.spec.call predStruct) s1 with
          | (.ok (), s2) => ({}, s2)
          | (.error createErr, s2) =>
            -- the segment that exists is not looked at
            if createErr.code = some .alreadyExists then ({}, s2)
            else ({ err := some (.api createErr) }, s2)

/-! ## The server, among others -/

section Server

variable (env : Env) (projects : String → Option Nat)

/-- The write handlers. -/
def serveWrite (isUpdate : Bool) (call : SegmentCall) (t : SegmentTable) :
    Except ApiError Unit × SegmentTable :=
  match projects call.projectSlug with
  | none => (.error (connectError .notFound), t)
  | some projectId =>
    match handle env t { isUpdate, projectId, key := call.key, name := call.name
                         description := call.description
                         predicate := .connect (some call.predicate) } with
    | .error err => (.error (connectError err), t)
    | .ok t' => (.ok (), t')

/-- The Connect handlers of the segments service; `projects` is `GetProjectBySlug`. -/
def SegmentsApi.server : SegmentsApi SegmentTable where
  getSegment slug key t :=
    match projects slug with
    | none => (.error (connectError .notFound), t)
    | some projectId =>
      match t.get projectId key with
      | none => (.error (connectError .notFound), t)
      | some _ => (.ok (), t)
  createSegment := serveWrite env projects false
  updateSegment := serveWrite env projects true

end Server

/-- A table that others write too: the tables it was, and what the others send before each of the
    next calls is served. -/
structure Shared where
  table : SegmentTable
  past : List SegmentTable := []
  others : List (List SegmentRequest)

/-- The tables so far. -/
def Shared.moments (sh : Shared) : List SegmentTable := sh.table :: sh.past

def Shared.write (sh : Shared) (t : SegmentTable) : Shared :=
  { sh with table := t, past := sh.moments }

/-- Requests of others. -/
def Shared.receive (env : Env) : Shared → List SegmentRequest → Shared
  | sh, [] => sh
  | sh, req :: reqs => (sh.write (afterRequest env sh.table req)).receive env reqs

/-- The others have their turn. -/
def Shared.letOthers (env : Env) (sh : Shared) : Shared :=
  match sh.others with
  | [] => sh
  | reqs :: rest => { sh with others := rest }.receive env reqs

def Shared.serve (sh : Shared) (call : SegmentTable → Except ApiError Unit × SegmentTable) :
    Except ApiError Unit × Shared :=
  ((call sh.table).1, sh.write (call sh.table).2)

/-- An API that others call too. -/
def SegmentsApi.among (api : SegmentsApi SegmentTable) (env : Env) : SegmentsApi Shared where
  getSegment slug key sh := (sh.letOthers env).serve (api.getSegment slug key)
  createSegment call sh := (sh.letOthers env).serve (api.createSegment call)
  updateSegment call sh := (sh.letOthers env).serve (api.updateSegment call)

/-- A sync from its start to its return.  The others write before the first call is served, between
    the two, and after the second. -/
def syncAmong (env : Env) (projects : String → Option Nat) (k : Kube) (seg : Object SegmentSpec)
    (t : SegmentTable) (before between after : List SegmentRequest) : SyncReply × Shared :=
  let out := syncSegment ((SegmentsApi.server env projects).among env) k seg
    { table := t, others := [before, between, after] }
  (out.1, out.2.letOthers env)

/-! ### What the table was -/

section Moments

variable {env : Env} {P : SegmentTable → Prop}

/-- `P` held at some moment. -/
def Shared.Saw (sh : Shared) (P : SegmentTable → Prop) : Prop := ∃ m ∈ sh.moments, P m

theorem saw_iff {sh : Shared} : sh.Saw P ↔ P sh.table ∨ ∃ m ∈ sh.past, P m :=
  List.exists_mem_cons_iff P sh.table sh.past

theorem receive_saw : ∀ {reqs : List SegmentRequest} {sh : Shared},
    (sh.receive env reqs).Saw P ↔
      (∃ m ∈ sh.past, P m) ∨ Sometime (afterRequest env) P sh.table reqs
  | [], sh => by
    rw [Sometime, or_comm]
    exact saw_iff
  | req :: reqs, sh => by
    rw [Shared.receive, receive_saw, Sometime, ← or_assoc]
    -- the table before the request is now in the past
    have hpast : (∃ m ∈ (sh.write (afterRequest env sh.table req)).past, P m) ↔
        (∃ m ∈ sh.past, P m) ∨ P sh.table := saw_iff.trans or_comm
    rw [hpast]
    rfl

theorem receive_table : ∀ {reqs : List SegmentRequest} {sh : Shared},
    (sh.receive env reqs).table = reqs.foldl (afterRequest env) sh.table ∧
      (sh.receive env reqs).others = sh.others
  | [], _ => ⟨rfl, rfl⟩
  | req :: reqs, sh => by
    rw [Shared.receive, List.foldl_cons]
    exact receive_table

/-- **A call among others**: they have their turn, and the call is served on the table they
    leave. -/
theorem serve_among (call : SegmentTable → Except ApiError Unit × SegmentTable) (t : SegmentTable)
    (past : List SegmentTable) (reqs : List SegmentRequest) (rest : List (List SegmentRequest)) :
    ∃ past', (Shared.letOthers env ⟨t, past, reqs :: rest⟩).serve call =
        ((call (reqs.foldl (afterRequest env) t)).1,
          ⟨(call (reqs.foldl (afterRequest env) t)).2, past', rest⟩) ∧
      ∀ P : SegmentTable → Prop,
        (∃ m ∈ past', P m) ↔ (∃ m ∈ past, P m) ∨ Sometime (afterRequest env) P t reqs := by
  obtain ⟨htable, hothers⟩ := @receive_table env reqs ⟨t, past, rest⟩
  refine ⟨(Shared.receive env ⟨t, past, rest⟩ reqs).moments, ?_, fun P => receive_saw⟩
  have hturn : Shared.letOthers env ⟨t, past, reqs :: rest⟩ =
    Shared.receive env ⟨t, past, rest⟩ reqs := rfl
  rw [hturn, Shared.serve, Shared.write, htable, hothers]

end Moments

/-! ## What the handlers do -/

section Handlers

variable {env : Env} {projects : String → Option Nat} {projectId : Nat}

theorem server_getSegment {slug key : String} (hproj : projects slug = some projectId)
    (t : SegmentTable) : (SegmentsApi.server env projects).getSegment slug key t =
      (if (t.get projectId key).isSome then .ok () else .error (connectError .notFound), t) := by
  unfold SegmentsApi.server
  simp only [hproj]
  rcases t.get projectId key with _ | row
  · rfl
  · rfl

/-- A predicate that is refused. -/
theorem serveWrite_refused {isUpdate : Bool} {call : SegmentCall} {text : String}
    (hproj : projects call.projectSlug = some projectId)
    (h : normalizePredicateBytes env (some call.predicate) = .error text) (t : SegmentTable) :
    serveWrite env projects isUpdate call t = (.error (connectError (.badRequest text)), t) := by
  unfold serveWrite handle
  simp only [hproj, PredicateBody.normalize, h]

/-- The row of a call. -/
def SegmentCall.row (call : SegmentCall) (projectId : Nat) (sp : StoredPredicate) : Segment :=
  ⟨projectId, call.key, call.name, call.description, sp⟩

/-- An update that meets its row, or a create that meets none, writes the row. -/
theorem serveWrite_granted {isUpdate : Bool} {call : SegmentCall} {sp : StoredPredicate}
    {t : SegmentTable} (hproj : projects call.projectSlug = some projectId)
    (h : normalizePredicateBytes env (some call.predicate) = .ok sp)
    (hthere : (t.get projectId call.key).isSome = isUpdate) :
    ∃ t', serveWrite env projects isUpdate call t = (.ok (), t') ∧
      t'.get projectId call.key = some (call.row projectId sp) := by
  unfold serveWrite
  simp only [hproj]
  rcases hreq : handle env t ⟨isUpdate, projectId, call.key, call.name, call.description,
    .connect (some call.predicate)⟩ with err | t'
  · -- neither refusal of the table applies
    exfalso
    unfold handle at hreq
    simp only [PredicateBody.normalize, h] at hreq
    cases isUpdate with
    | true => simp [SegmentTable.update, hthere] at hreq
    | false =>
      have hnone : t.get projectId call.key = none := by simpa using hthere
      simp [SegmentTable.create, hnone] at hreq
  · obtain ⟨sp', hsp', hget⟩ := handle_get hreq
    have hsame : sp = sp' := ok.inj (h.symm.trans hsp')
    refine ⟨t', rfl, ?_⟩
    rw [hget, if_pos ⟨rfl, rfl⟩, hsame]
    rfl

/-- A create that meets a row. -/
theorem serveWrite_conflict {call : SegmentCall} {sp : StoredPredicate} {t : SegmentTable}
    (hproj : projects call.projectSlug = some projectId)
    (h : normalizePredicateBytes env (some call.predicate) = .ok sp)
    (hthere : t.get projectId call.key ≠ none) :
    serveWrite env projects false call t = (.error (connectError .conflict), t) := by
  unfold serveWrite handle
  simp [hproj, PredicateBody.normalize, h, SegmentTable.create, hthere]

/-- Nothing deletes a segment. -/
theorem present_stays {key : String} (t : SegmentTable) (req : SegmentRequest)
    (h : t.get projectId key ≠ none) : (afterRequest env t req).get projectId key ≠ none := by
  unfold afterRequest
  rcases hreq : handle env t req with err | t'
  · exact h
  · obtain ⟨sp, -, hget⟩ := handle_get hreq
    show t'.get projectId key ≠ none
    rw [hget]
    split
    · nofun
    · exact h

/-- It is there after any requests. -/
theorem present_stays_run {key : String} {t : SegmentTable} (reqs : List SegmentRequest)
    (h : t.get projectId key ≠ none) :
    (reqs.foldl (afterRequest env) t).get projectId key ≠ none :=
  (@along_of_invariant _ _ (afterRequest env) (fun t : SegmentTable => t.get projectId key ≠ none)
    present_stays reqs t h).last

end Handlers

/-! ## Success and content -/

section Content

variable (env : Env) (projects : String → Option Nat) (spec : SegmentSpec)

/-- A definition has the value of the predicate of the spec. -/
def SegmentSpec.SamePredicate (sp : StoredPredicate) : Prop :=
  ∃ pred, irForSegment spec = .ok pred ∧ Doc.value sp.doc = Doc.value (encodePredicate pred)

/-- The segment upstream has the name, the description and the predicate of the spec. -/
def HasContent (t : SegmentTable) : Prop :=
  ∃ projectId row, projects spec.projectSlug = some projectId ∧ t.get projectId spec.key = some row ∧
    row.name = spec.name ∧ row.description = spec.description ∧ spec.SamePredicate row.predicate

/-- Another writer's request gives the segment this content, and is accepted. -/
def WritesContent (t : SegmentTable) (req : SegmentRequest) : Prop :=
  (∃ t', handle env t req = .ok t') ∧ projects spec.projectSlug = some req.projectId ∧
    req.key = spec.key ∧ req.name = spec.name ∧ req.description = spec.description ∧
    ∃ sp, req.predicate.normalize env = .ok sp ∧ spec.SamePredicate sp

/-- The server accepts the predicate of the spec. -/
def Acceptable : Prop :=
  ∃ pred fields sp, irForSegment spec = .ok pred ∧ predicateToStruct pred = .ok fields ∧
    normalizePredicateBytes env (some fields) = .ok sp

/-- Between the two calls of a sync others create the segment. -/
def LosesRace (t : SegmentTable) (between : List SegmentRequest) : Prop :=
  ∃ projectId, projects spec.projectSlug = some projectId ∧ t.get projectId spec.key = none ∧
    (between.foldl (afterRequest env) t).get projectId spec.key ≠ none

variable {env projects spec}

/-- What is stored for the predicate of a spec has its value. -/
theorem samePredicate_stored {pred : Predicate} {fields : Context} {sp : StoredPredicate}
    (hir : irForSegment spec = .ok pred) (hfields : predicateToStruct pred = .ok fields)
    (hsp : normalizePredicateBytes env (some fields) = .ok sp) : spec.SamePredicate sp := by
  refine ⟨pred, hir, ?_⟩
  have hobj : .obj fields = Doc.value (encodePredicate pred) := by
    unfold predicateToStruct unmarshalAny at hfields
    split at hfields
    · rename_i hany
      split at hany
      · rw [ok.inj hany, ok.inj hfields]
      · nomatch hany
    · nomatch hfields
  have hdoc : sp.doc = marshalAny (.obj fields) := by
    unfold normalizePredicateBytes acceptPredicate at hsp
    split at hsp
    · nomatch hsp
    · split at hsp
      · nomatch hsp
      · split at hsp
        · nomatch hsp
        · rw [← ok.inj hsp]
          rfl
  rw [hdoc, hobj, value_marshalAny]

/-- **Which requests of others bring the content.** -/
theorem hasContent_afterRequest (t : SegmentTable) (req : SegmentRequest) :
    (WritesContent env projects spec t req → HasContent projects spec (afterRequest env t req)) ∧
      (HasContent projects spec (afterRequest env t req) →
        HasContent projects spec t ∨ WritesContent env projects spec t req) := by
  unfold afterRequest
  rcases hreq : handle env t req with err | t'
  · exact ⟨fun ⟨⟨t', h⟩, _⟩ => (nomatch hreq.symm.trans h), .inl⟩
  · obtain ⟨sp, hsp, hget⟩ := handle_get hreq
    constructor
    · rintro ⟨-, hproj, hkey, hname, hdesc, sp', hsp', hpred⟩
      have hsame : sp = sp' := ok.inj (hsp.symm.trans hsp')
      have hrow := hget req.projectId spec.key
      rw [if_pos ⟨rfl, hkey⟩] at hrow
      exact ⟨_, _, hproj, hrow, hname, hdesc, hsame ▸ hpred⟩
    · rintro ⟨projectId, row, hproj, hrow, hname, hdesc, hpred⟩
      have hrow' : t'.get projectId spec.key = some row := hrow
      rw [hget] at hrow'
      split at hrow'
      · rename_i hk
        obtain ⟨rfl, hkey⟩ := hk
        obtain rfl := Option.some.inj hrow'
        exact .inr ⟨⟨t', hreq⟩, hproj, hkey, hname, hdesc, sp, hsp, hpred⟩
      · exact .inl ⟨projectId, row, hproj, hrow', hname, hdesc, hpred⟩

/-- Along any requests the content is there at some moment iff it is there at first or a request
    brings it. -/
theorem content_sometime_iff {t : SegmentTable} {reqs : List SegmentRequest} :
    Sometime (afterRequest env) (HasContent projects spec) t reqs ↔
      HasContent projects spec t ∨
        SomeStep (afterRequest env) (WritesContent env projects spec) t reqs :=
  sometime_iff (fun t req => (hasContent_afterRequest t req).1)
    fun t req => (hasContent_afterRequest t req).2

end Content

/-! ### The calls of a sync -/

section Calls

variable {env : Env} {projects : String → Option Nat} {k : Kube} {seg : Object SegmentSpec}
  {t t1 t2 : SegmentTable} {before between after : List SegmentRequest} {projectId : Nat}
  {pred : Predicate} {fields : Context}

/-- What `sync` makes of the answer to its second call. -/
def writeOutcome (isUpdate : Bool) : Except ApiError Unit → SyncReply
  | .ok () => {}
  | .error err =>
    if isUpdate = false ∧ err.code = some .alreadyExists then {} else { err := some (.api err) }

/-- **The calls of a sync among those of others**: the second is an update if the first meets the
    segment, and a create if not. -/
theorem sync_calls (h1 : before.foldl (afterRequest env) t = t1)
    (h2 : between.foldl (afterRequest env) t1 = t2) (hir : irForSegment seg.spec = .ok pred)
    (hfields : predicateToStruct pred = .ok fields)
    (hproj : projects seg.spec.projectSlug = some projectId) :
    ∃ past, syncAmong env projects k seg t before between after =
        (writeOutcome (t1.get projectId seg.spec.key).isSome (serveWrite env projects
            (t1.get projectId seg.spec.key).isSome (seg.spec.call fields) t2).1,
          Shared.receive env ⟨(serveWrite env projects (t1.get projectId seg.spec.key).isSome
            (seg.spec.call fields) t2).2, past, []⟩ after) ∧
      ∀ P : SegmentTable → Prop, (∃ m ∈ past, P m) ↔
        Sometime (afterRequest env) P t before ∨ Sometime (afterRequest env) P t1 between := by
  obtain ⟨past1, hfirst, hpast1⟩ := @serve_among env
    ((SegmentsApi.server env projects).getSegment seg.spec.projectSlug seg.spec.key) t [] before
    [between, after]
  obtain ⟨past2, hsecond, hpast2⟩ := @serve_among env
    (serveWrite env projects (t1.get projectId seg.spec.key).isSome (seg.spec.call fields)) t1 past1
    between [after]
  rw [h1, server_getSegment hproj] at hfirst
  rw [h2] at hsecond
  refine ⟨past2, ?_, fun P => ?_⟩
  · unfold syncAmong syncSegment SegmentsApi.among
    simp only [hir, hfields, hfirst]
    cases hthere : (t1.get projectId seg.spec.key).isSome with
    | true =>
      rw [hthere] at hsecond
      simp only [if_true, SegmentsApi.server, hsecond]
      rcases (serveWrite env projects true (seg.spec.call fields) t2).1 with err | _
      · rfl
      · rfl
    | false =>
      rw [hthere] at hsecond
      simp only [Bool.false_eq_true, if_false, connectError, ne_eq, not_true_eq_false,
        SegmentsApi.server, hsecond]
      rcases (serveWrite env projects false (seg.spec.call fields) t2).1 with err | _
      · simp only [writeOutcome, true_and]
        split
        · rfl
        · rfl
      · rfl
  · rw [hpast2, hpast1]
    simp

/-- **The second call**, with a predicate that is accepted: it is taken for a success.  It leaves
    the row of the call, unless it is a create that meets a segment. -/
theorem second_call {call : SegmentCall} {sp : StoredPredicate}
    (hproj : projects call.projectSlug = some projectId)
    (hsp : normalizePredicateBytes env (some call.predicate) = .ok sp)
    (hstays : t1.get projectId call.key ≠ none → t2.get projectId call.key ≠ none) :
    ∃ r t', serveWrite env projects (t1.get projectId call.key).isSome call t2 = (r, t') ∧
      writeOutcome (t1.get projectId call.key).isSome r = {} ∧
      (¬ (t1.get projectId call.key = none ∧ t2.get projectId call.key ≠ none) ∧
          t'.get projectId call.key = some (call.row projectId sp) ∨
        (t1.get projectId call.key = none ∧ t2.get projectId call.key ≠ none) ∧ t' = t2) := by
  by_cases h1 : t1.get projectId call.key = none
  · -- a create, which meets the table the others left
    rw [h1, Option.isSome_none]
    by_cases h2 : t2.get projectId call.key = none
    · have hthere : (t2.get projectId call.key).isSome = false := by rw [h2, Option.isSome_none]
      obtain ⟨t', hserve, hrow⟩ := serveWrite_granted hproj hsp hthere
      exact ⟨_, t', hserve, rfl, .inl ⟨fun h => h.2 h2, hrow⟩⟩
    · exact ⟨_, t2, serveWrite_conflict hproj hsp h2, rfl, .inr ⟨⟨rfl, h2⟩, rfl⟩⟩
  · -- an update: nothing deletes the segment meanwhile
    rw [Option.isSome_iff_ne_none.mpr h1]
    have hthere := Option.isSome_iff_ne_none.mpr (hstays h1)
    obtain ⟨t', hserve, hrow⟩ := serveWrite_granted hproj hsp hthere
    exact ⟨_, t', hserve, rfl, .inl ⟨fun h => h1 h.1, hrow⟩⟩

/-- A project that the server does not know: the segment is not found, and cannot be created. -/
theorem sync_unknownProject (hir : irForSegment seg.spec = .ok pred)
    (hfields : predicateToStruct pred = .ok fields) (hproj : projects seg.spec.projectSlug = none) :
    (syncAmong env projects k seg t before between after).1.err =
      some (.api (connectError .notFound)) := by
  have hcall : projects (seg.spec.call fields).projectSlug = none := hproj
  unfold syncAmong syncSegment SegmentsApi.among SegmentsApi.server
  simp only [hir, hfields, hproj, hcall, Shared.serve, serveWrite]
  rfl

/-- **A sync of a spec that the server accepts** returns nil.  Its second call leaves the content
    of the spec, unless others create the segment between its calls: then it leaves the table as it
    is. -/
theorem sync_accepted (h1 : before.foldl (afterRequest env) t = t1)
    (h2 : between.foldl (afterRequest env) t1 = t2) (hproj : projects seg.spec.projectSlug ≠ none)
    (hacc : Acceptable env seg.spec) :
    (syncAmong env projects k seg t before between after).1.err = none ∧
    ∃ t', (∀ P, (syncAmong env projects k seg t before between after).2.Saw P ↔
        Sometime (afterRequest env) P t before ∨ Sometime (afterRequest env) P t1 between ∨
          Sometime (afterRequest env) P t' after) ∧
      (¬ LosesRace env projects seg.spec t1 between ∧ HasContent projects seg.spec t' ∨
        LosesRace env projects seg.spec t1 between ∧ t' = t2) := by
  obtain ⟨projectId, hproj⟩ := Option.ne_none_iff_exists'.mp hproj
  obtain ⟨pred, fields, sp, hir, hfields, hsp⟩ := hacc
  obtain ⟨past, hcalls, hpast⟩ := @sync_calls env projects k seg t _ _ before between after projectId
    pred fields h1 h2 hir hfields hproj
  obtain ⟨r, t', hserve, hnil, hcases⟩ := @second_call env projects t1 t2 projectId
    (seg.spec.call fields) sp hproj hsp (h2 ▸ present_stays_run between)
  have hserve' : serveWrite env projects (t1.get projectId seg.spec.key).isSome
    (seg.spec.call fields) t2 = (r, t') := hserve
  have hrace : LosesRace env projects seg.spec t1 between ↔
      t1.get projectId seg.spec.key = none ∧ t2.get projectId seg.spec.key ≠ none := by
    unfold LosesRace
    simp only [hproj, h2, Option.some.injEq, exists_eq_left']
  rw [hcalls, hserve', hrace]
  refine ⟨congrArg SyncReply.err hnil, t', fun P => ?_, ?_⟩
  · rw [receive_saw, hpast, or_assoc]
  · refine hcases.imp (fun ⟨hno, hrow⟩ => ⟨hno, ?_⟩) id
    exact ⟨projectId, _, hproj, hrow, rfl, rfl, samePredicate_stored hir hfields hsp⟩

/-- Only then does it return nil, whatever others do. -/
theorem accepted_of_sync (h : (syncAmong env projects k seg t before between after).1.err = none) :
    projects seg.spec.projectSlug ≠ none ∧ Acceptable env seg.spec := by
  rcases hir : irForSegment seg.spec with err | pred
  · simp only [syncAmong, syncSegment, hir] at h
    nomatch h
  rcases hfields : predicateToStruct pred with err | fields
  · simp only [syncAmong, syncSegment, hir, hfields] at h
    nomatch h
  rcases hproj : projects seg.spec.projectSlug with _ | projectId
  · rw [sync_unknownProject hir hfields hproj] at h
    nomatch h
  refine ⟨nofun, ?_⟩
  rcases hsp : normalizePredicateBytes env (some fields) with text | sp
  · obtain ⟨past, hcalls, -⟩ := @sync_calls env projects k seg t _ _ before between after projectId
      pred fields rfl rfl hir hfields hproj
    have hcall : projects (seg.spec.call fields).projectSlug = some projectId := hproj
    rw [hcalls, serveWrite_refused hcall hsp] at h
    simp [writeOutcome, connectError] at h
  · exact ⟨pred, fields, sp, hir, hfields, hsp⟩

end Calls

/-! ### The race -/

section Race

variable (env : Env) (projects : String → Option Nat)

/-- **When nil means that the spec was in place.**  A sync, among any requests of others before,
    between and after its calls: if it returns nil, the segment upstream had the content of the
    spec at some moment, EXACTLY when it does not lose the race to create the segment, or from then
    on some request of another writer brings this content.  (A sync of a spec that the server does
    not accept does not return nil.) -/
theorem success_means_content_iff (k : Kube) (seg : Object SegmentSpec) (t : SegmentTable)
    (before between after : List SegmentRequest) :
    ((syncAmong env projects k seg t before between after).1.err = none →
      ∃ m ∈ (syncAmong env projects k seg t before between after).2.moments,
        HasContent projects seg.spec m) ↔
    (Acceptable env seg.spec →
      LosesRace env projects seg.spec (before.foldl (afterRequest env) t) between →
      SomeStep (afterRequest env) (WritesContent env projects seg.spec)
        (before.foldl (afterRequest env) t) (between ++ after)) := by
  constructor
  · intro hmeans hacc hrace
    obtain ⟨projectId, hproj, habsent, -⟩ := id hrace
    have hknown : projects seg.spec.projectSlug ≠ none := by
      rw [hproj]
      nofun
    obtain ⟨hnil, t', hsaw, hcases⟩ := @sync_accepted env projects k seg t _ _ before between after
      rfl rfl hknown hacc
    obtain ⟨-, rfl⟩ := hcases.resolve_left fun h => h.1 hrace
    -- what is absent when the first call is served was never there
    have hpresent : ∀ m, HasContent projects seg.spec m → m.get projectId seg.spec.key ≠ none := by
      rintro m ⟨id, row, hid, hrow, -⟩
      rw [Option.some.inj (hproj.symm.trans hid), hrow]
      nofun
    rcases (hsaw _).mp (hmeans hnil) with hbefore | hlater
    · exact absurd habsent (hbefore.last hpresent present_stays)
    · have hsome := content_sometime_iff.mp (sometime_append.mpr hlater)
      exact hsome.resolve_left fun h => hpresent _ h habsent
  · intro hcond hnil
    obtain ⟨hknown, hacc⟩ := accepted_of_sync hnil
    obtain ⟨-, t', hsaw, hcases⟩ := @sync_accepted env projects k seg t _ _ before between after
      rfl rfl hknown hacc
    refine (hsaw _).mpr ?_
    rcases hcases with ⟨-, hcontent⟩ | ⟨hrace, rfl⟩
    · exact .inr (.inr (Sometime.first hcontent))
    · exact .inr (sometime_append.mp (content_sometime_iff.mpr (.inr (hcond hacc hrace))))

end Race

/-! ### A race that is lost -/

/-- The segment of customers on the plan `pro`. -/
def proSegment : Object SegmentSpec where
  metadata := { ns := "default", generation := 1, deletionTimestamp := none
                finalizers := [segmentReconciler.finalizer] }
  spec := { projectSlug := "demo", key := "vip", name := "VIP", description := ""
            predicate := { raw := some (.obj [("kind", .str "eq"), ("attr", .str "plan"),
              ("value", .str "pro")]) } }
  status := {}

/-- Another writer has it mean the plan `free`. -/
def freeRequest : SegmentRequest where
  isUpdate := false
  projectId := 1
  key := "vip"
  name := "VIP"
  description := ""
  predicate := .rest (some (.obj [("attr", .str "plan"), ("kind", .str "eq"),
    ("value", .str "free")]))

/-- The other writer creates the segment between the two calls, and the sync returns nil: the
    segment was never that of the spec. -/
theorem race_taken_for_success :
    (syncAmong .plain oneProject {} proSegment .empty [] [freeRequest] []).1.err = none ∧
      ¬ ∃ m ∈ (syncAmong .plain oneProject {} proSegment .empty [] [freeRequest] []).2.moments,
        HasContent oneProject proSegment.spec m := by
  refine ⟨rfl, ?_⟩
  -- the table is empty up to the request, and has its row from then on
  have hvalues : ∀ o ∈ (syncAmong .plain oneProject {} proSegment .empty [] [freeRequest]
      []).2.moments.map (fun m => (m.get 1 "vip").map fun row => Doc.value row.predicate.doc),
      o ≠ some (.obj [("attr", .str "plan"), ("kind", .str "eq"), ("value", .str "pro")]) := by
    decide
  rintro ⟨m, hm, projectId, row, hproj, hrow, -, -, pred, hir, hvalue⟩
  obtain rfl := Option.some.inj hproj
  obtain rfl := ok.inj hir
  refine hvalues _ (List.mem_map_of_mem hm) ?_
  have hrow' : m.get 1 "vip" = some row := hrow
  rw [hrow', Option.map_some, hvalue]
  rfl

end FalseFlag.Operator
