/-
  The two surfaces of the control plane are one program.

  internal/server/rpc repeats the handlers of internal/server/handlers: the same reads in the same
  order, the same checks, the same mutation with the same audit event, and its own translation of
  the errors.  `ConnectRequest.toRest` is the REST request that says the same: enumerations are
  spelled out, a missing struct is an empty object, a limit that is not positive is left out.

  * `connect_eq_map` — a Connect handler IS the REST handler of the same request, with its answers
    translated: the same tree of reads and the same transaction;
  * **`surfaces_agree`** — any number of requests at once: sending some of them over the other
    surface changes no answer and leaves the same database, in every interleaving and whatever
    fails.
-/
import FalseFlag.Server.Handlers

namespace FalseFlag.Server

open JsonTree Processes Strategy Process

/-! ## The same request -/

/-- The strategy, as REST spells it; a number without a name is no strategy. -/
def ProtoStrategy.spelled : ProtoStrategy → String
  | .json => "json"
  | .cel => "cel"
  | .typescript => "typescript"
  | s => s.text

/-- The REST request that says the same; none for a snapshot id that is no UUID. -/
def ConnectRequest.toRest : ConnectRequest → Option RestRequest
  | .listProjects => some .listProjects
  | .listEnvironments slug => some (.listEnvironments slug)
  | .listFlags slug => some (.listFlags slug)
  | .listSegments slug => some (.listSegments slug)
  | .getProject slug => some (.getProject slug)
  | .createProject actor slug displayName configStrategy =>
    some (.createProject actor (.ok ⟨slug, displayName, configStrategy.spelled⟩))
  | .getEnvironment slug envSlug => some (.getEnvironment slug envSlug)
  | .createEnvironment slug actor envSlug name =>
    some (.createEnvironment slug actor (.ok ⟨envSlug, name⟩))
  | .getFlag slug key => some (.getFlag slug key)
  | .createFlag slug actor key name description valueType defaultValue =>
    some (.createFlag slug actor (.ok ⟨key, name, some description, valueTypeFromProto valueType,
      defaultValue.getD .null⟩))
  | .publishFlagVersion fuel slug key actor strategy source sourceText =>
    some (.publishFlagVersion fuel slug key actor
      (.ok ⟨strategy.spelled, .obj (source.getD []), some sourceText⟩))
  | .listFlagVersions slug key => some (.listFlagVersions slug key)
  | .getSegment slug segKey => some (.getSegment slug segKey)
  | .createSegment slug actor key name description predicate =>
    some (.createSegment slug actor
      (.ok ⟨key, name, some description, some (.obj (predicate.getD []))⟩))
  | .updateSegment slug segKey actor name description predicate =>
    some (.updateSegment slug segKey actor
      (.ok ⟨name, some description, some (.obj (predicate.getD []))⟩))
  | .listSnapshots slug limit => some (.listSnapshots slug (if limit ≤ 0 then none else some limit))
  | .getLatestSnapshot slug => some (.getLatestSnapshot slug)
  | .getSnapshot _ (.error _) => none
  | .getSnapshot slug (.ok id) => some (.getSnapshot slug id)
  | .compileSnapshot slug actor environmentSlug =>
    some (.compileSnapshot slug actor (some (.ok environmentSlug)))
  | .evaluate slug key ctx => some (.evaluateFlag slug key (.ok (ctx.getD [])))
  | .evaluateWithTrace slug key ctx => some (.evaluateFlagWithTrace slug key (.ok (ctx.getD [])))

/-- The code that stands for a status. -/
def codeOfStatus : Nat → Operator.Code
  | 400 | 422 => .invalidArgument
  | 404 => .notFound
  | 409 => .alreadyExists
  | 500 => .internal
  | _ => .unknown

/-- An answer of REST, as Connect gives it. -/
def RestResponse.toConnect : RestResponse → ConnectResponse
  | .json _ body => .response body
  | .error status failure => .error (codeOfStatus status) failure
  | .crashed => .crashed

open RestResponse (toConnect)

/-! ## The errors -/

/-- An error of the store has one meaning, -/
theorem toConnect_writeStoreErr (e : DbError) :
    (Rest.writeStoreErr e).toConnect = Connect.connectError e := by
  unfold Rest.writeStoreErr Connect.connectError
  split
  · rfl
  · split
    · rfl
    · rfl

/-- and so has the result of a transaction. -/
theorem toConnect_written (db : Medium) (status : Nat) (x : Except DbError Mutators.Row) :
    (Rest.written db status x).toConnect = Connect.returned db x := by
  rcases x with e | row
  · exact toConnect_writeStoreErr e
  · rfl

/-- A read is no conflict. -/
theorem isConflict_selectOne {β : Type} {text : String} {query : Mutators.Store → Option β}
    {r : Except ReadFault Db} {e : DbError} (h : selectOne text query r = .error e) :
    isConflict e = false := by
  rcases r with fault | d
  · injection h with h
    subst h
    exact fault.conflict
  · rw [selectOne] at h
    rcases hq : query d.tables with _ | row
    · rw [hq] at h
      injection h with h
      subst h
      rfl
    · rw [hq] at h
      cases h

/-- A list fails for an internal reason only. -/
theorem selectMany_error {β : Type} {text : String} {query : Mutators.Store → List β}
    {r : Except ReadFault Db} {e : DbError} (h : selectMany text query r = .error e) :
    e.is .notFound = false ∧ isConflict e = false := by
  rcases r with fault | d
  · injection h with h
    subst h
    exact ⟨fault.notFound, fault.conflict⟩
  · cases h

/-- A failed read is no conflict. -/
theorem toConnect_notFoundOrError {e : DbError} (h : isConflict e = false) :
    (Rest.notFoundOrError e).toConnect = Connect.connectError e := by
  unfold Rest.notFoundOrError Connect.connectError
  rw [h]
  split
  · rfl
  · rfl

/-- Any other error is internal. -/
theorem connectError_internal {e : DbError} (h : e.is .notFound = false ∧ isConflict e = false) :
    Connect.connectError e = .error .internal (.store e) := by
  rw [Connect.connectError, h.1, h.2]
  rfl

/-! ## The handlers -/

section Handlers

variable {env : Env} {db : Medium} {b : Backend}

/-- Handlers that agree on a row agree, -/
theorem map_withRow {β : Type} {query : Except ReadFault Db → Except DbError β}
    (hquery : ∀ r e, query r = .error e → isConflict e = false) (k : β → Handler RestResponse) :
    (Rest.withRow query k).map toConnect =
      Connect.withRow query fun row => (k row).map toConnect := by
  rw [Rest.withRow, Connect.withRow, map]
  congr 1
  funext r
  rcases h : query r with e | row
  · simp only [map, toConnect_notFoundOrError (hquery r e h)]
  · rfl

/-- those that agree on rows, -/
theorem map_withRows {β : Type} {query : Except ReadFault Db → Except DbError (List β)}
    (hquery : ∀ r e, query r = .error e → e.is .notFound = false ∧ isConflict e = false)
    (k : List β → Handler RestResponse) :
    (Rest.withRows query k).map toConnect =
      Connect.withRow query fun rows => (k rows).map toConnect := by
  rw [Rest.withRows, Connect.withRow, map]
  congr 1
  funext r
  rcases h : query r with e | rows
  · simp only [map, connectError_internal (hquery r e h)]
    rfl
  · rfl

/-- on the project, -/
theorem map_withProject (slug : String) (k : Mutators.Project → Handler RestResponse) :
    (Rest.withProject slug k).map toConnect =
      Connect.withProject slug fun proj => (k proj).map toConnect :=
  map_withRow (fun _ _ => isConflict_selectOne) k

/-- on the flag. -/
theorem map_withFlag (projectId : Nat) (key : String) (k : Mutators.Flag → Handler RestResponse) :
    (Rest.withFlag db projectId key k).map toConnect =
      Connect.withFlag db projectId key fun flag => (k flag).map toConnect :=
  map_withRow (fun _ _ => isConflict_selectOne) k

/-- Transactions are the same. -/
theorem map_transact (t : Audited) (status : Nat) :
    (transact t (Rest.written db status) : Handler RestResponse).map toConnect =
      .transact t (Connect.returned db) := by
  rw [map]
  congr 1
  funext x
  exact toConnect_written db status x

/-- A number is written with digits and a sign. -/
theorem mem_toString_int {c : Char} : ∀ {n : Int}, c ∈ (toString n).toList →
    c.isDigit = true ∨ c = '-'
  | .ofNat m, h => by
    have hlist : (toString (Int.ofNat m)).toList = Nat.toDigits 10 m := by
      show (Nat.repr m).toList = _
      rw [Nat.repr, String.toList_ofList]
    rw [hlist] at h
    exact .inl (Nat.isDigit_of_mem_toDigits (by decide) (by decide) h)
  | .negSucc m, h => by
    have hlist : (toString (Int.negSucc m)).toList = '-' :: Nat.toDigits 10 (m + 1) := by
      show ("-" ++ Nat.repr (m + 1)).toList = _
      rw [String.toList_append]
      show '-' :: (Nat.repr (m + 1)).toList = _
      rw [Nat.repr, String.toList_ofList]
    rw [hlist] at h
    rcases List.mem_cons.mp h with h | h
    · exact .inr h
    · exact .inl (Nat.isDigit_of_mem_toDigits (by decide) (by decide) h)

/-- A number is no strategy: every strategy has a letter. -/
theorem parse_toString (n : Int) : parse (toString n) = none := by
  rcases h : parse (toString n) with _ | st
  · rfl
  · have hname : st.name = toString n := @StringEnum.name_of_parse Strategy _ _ _ h
    have hletter : st.name.toList.any (fun c => !c.isDigit && c != '-') = true := by
      cases st <;> decide
    rw [hname, List.any_eq_true] at hletter
    obtain ⟨c, hc, hletter⟩ := hletter
    rcases mem_toString_int hc with hdigit | rfl
    · rw [hdigit] at hletter
      cases hletter
    · cases hletter

/-- A strategy is sent in a spelling that parses alike. -/
theorem parse_spelled (s : ProtoStrategy) :
    parse s.spelled = parse (strategyFromProto s) := by
  cases s with
  | unspecified => rfl
  | json => rfl
  | cel => rfl
  | typescript => rfl
  | unrecognized n => exact parse_toString n

/-- What is spelled as a strategy is that strategy. -/
theorem spelled_of_parse {s : ProtoStrategy} {st : Strategy}
    (h : parse (strategyFromProto s) = some st) :
    s.spelled = st.name ∧ strategyFromProto s = st.name := by
  cases s with
  | unspecified => cases h
  | json => cases h; exact ⟨rfl, rfl⟩
  | cel => cases h; exact ⟨rfl, rfl⟩
  | typescript => cases h; exact ⟨rfl, rfl⟩
  | unrecognized n => cases h

theorem spelled_of_parse_none {s : ProtoStrategy} (h : parse (strategyFromProto s) = none) :
    s.spelled = s.text := by
  cases s with
  | unspecified => rfl
  | json => cases h
  | cel => cases h
  | typescript => cases h
  | unrecognized n => rfl

/-- The handlers agree, one by one. -/
theorem createProject_agree (actor slug displayName : String) (configStrategy : ProtoStrategy) :
    Connect.createProject env db actor slug displayName configStrategy =
      (Rest.createProject env db actor (.ok ⟨slug, displayName, configStrategy.spelled⟩)).map
        RestResponse.toConnect := by
  simp only [Connect.createProject, Rest.createProject, Rest.withBody, parse_spelled]
  rcases h : parse (strategyFromProto configStrategy) with _ | st
  · rw [spelled_of_parse_none h]
    rfl
  · obtain ⟨hspelled, hproto⟩ := spelled_of_parse h
    rw [hspelled, hproto]
    exact (map_transact _ _).symm

theorem getProject_agree (slug : String) :
    Connect.getProject slug = (Rest.getProject slug).map toConnect := by
  rw [Rest.getProject, map_withProject]
  rfl

theorem getEnvironment_agree (slug envSlug : String) :
    Connect.getEnvironment slug envSlug =
      (Rest.getEnvironment slug envSlug).map toConnect := by
  rw [Rest.getEnvironment, map_withProject, Connect.getEnvironment]
  congr 1
  funext proj
  rw [map_withRow]
  · rfl
  · exact fun _ _ => isConflict_selectOne

theorem createEnvironment_agree (slug actor envSlug name : String) :
    Connect.createEnvironment db slug actor envSlug name =
      (Rest.createEnvironment db slug actor (.ok ⟨envSlug, name⟩)).map toConnect := by
  rw [Rest.createEnvironment, map_withProject, Connect.createEnvironment]
  congr 1
  funext proj
  exact (map_transact _ _).symm

theorem getSegment_agree (slug segKey : String) :
    Connect.getSegment db slug segKey =
      (Rest.getSegment db slug segKey).map toConnect := by
  rw [Rest.getSegment, map_withProject, Connect.getSegment]
  congr 1
  funext proj
  rw [map_withRow]
  · rfl
  · exact fun _ _ => isConflict_selectOne

theorem getLatestSnapshot_agree (slug : String) :
    Connect.getLatestSnapshot db slug =
      (Rest.getLatestSnapshot db slug).map toConnect := by
  rw [Rest.getLatestSnapshot, map_withProject, Connect.getLatestSnapshot]
  congr 1
  funext proj
  rw [map_withRow]
  · rfl
  · exact fun _ _ => isConflict_selectOne

theorem getSnapshot_agree (slug : String) (id : Nat) :
    Connect.getSnapshot db slug (.ok id) =
      (Rest.getSnapshot db slug id).map toConnect := by
  rw [Rest.getSnapshot, map_withProject, Connect.getSnapshot]
  congr 1
  funext proj
  rw [map_withRow]
  · rfl
  · exact fun _ _ => isConflict_selectOne

/-- A default that is absent is `null`. -/
theorem createFlag_agree (slug actor key name description : String) (valueType : ProtoValueType)
    (defaultValue : Option Value) :
    Connect.createFlag db slug actor key name description valueType defaultValue =
      (Rest.createFlag db slug actor (.ok ⟨key, name, some description,
        valueTypeFromProto valueType, defaultValue.getD .null⟩)).map toConnect := by
  rw [Rest.createFlag, map_withProject, Connect.createFlag]
  congr 1
  funext proj
  exact (map_transact _ _).symm

theorem getFlag_agree (slug key : String) :
    Connect.getFlag db slug key = (Rest.getFlag db slug key).map toConnect := by
  rw [Rest.getFlag, map_withProject, Connect.getFlag]
  congr 1
  funext proj
  rw [map_withFlag]
  congr 1
  funext flag
  rw [map]
  congr 1
  funext r
  rcases h : getLatestFlagVersion db flag.id r with e | latest
  · simp only
    by_cases hnotFound : e.is .notFound = true
    · rw [if_pos hnotFound, if_pos hnotFound]
      rfl
    · rw [if_neg hnotFound, if_neg hnotFound,
        connectError_internal ⟨by simpa using hnotFound, isConflict_selectOne h⟩]
      rfl
  · rfl

/-- An absent struct is an empty object. -/
theorem raw_eq (source : Option Context) :
    Connect.structToJSONRaw source = marshalAny (.obj (source.getD [])) := by
  cases source with
  | none => rfl
  | some fields => rfl

/-- The struct stands for the source of the body. -/
theorem publishFlagVersion_agree (fuel : Nat) (slug key actor : String) (strategy : ProtoStrategy)
    (source : Option Context) (sourceText : Source) :
    Connect.publishFlagVersion env db fuel slug key actor strategy source sourceText =
      (Rest.publishFlagVersion env db fuel slug key actor
        (.ok ⟨strategy.spelled, .obj (source.getD []), some sourceText⟩)).map
          RestResponse.toConnect := by
  rw [Rest.publishFlagVersion, map_withProject, Connect.publishFlagVersion]
  congr 1
  funext proj
  rw [map_withFlag]
  congr 1
  funext flag
  simp only [Rest.withBody, parse_spelled, raw_eq, Option.getD_some]
  rcases h : parse (strategyFromProto strategy) with _ | st
  · rw [spelled_of_parse_none h]
    rfl
  · rw [(spelled_of_parse h).2]
    simp only [map]
    congr 1
    funext r
    rcases resolveSegmentRefs env (resolveSegment env db proj.id r) fuel _ with
      _ | err | resolved
    · rfl
    · rfl
    · simp only
      rcases compile env (.known st) resolved with err | compiled
      · simp only
        split
        · rfl
        · rfl
      · exact (map_transact _ _).symm

theorem createSegment_agree (slug actor key name description : String) (predicate : Option Context) :
    Connect.createSegment env db slug actor key name description predicate =
      (Rest.createSegment env db slug actor
        (.ok ⟨key, name, some description, some (.obj (predicate.getD []))⟩)).map
          RestResponse.toConnect := by
  rw [Rest.createSegment, map_withProject, Connect.createSegment]
  congr 1
  funext proj
  simp only [Rest.withBody, normalizePredicate, normalizePredicateBytes, Option.getD_some]
  rcases acceptPredicate env (marshalAny (.obj (predicate.getD []))) with text | stored
  · rfl
  · exact (map_transact _ _).symm

theorem updateSegment_agree (slug segKey actor name description : String)
    (predicate : Option Context) :
    Connect.updateSegment env db slug segKey actor name description predicate =
      (Rest.updateSegment env db slug segKey actor
        (.ok ⟨name, some description, some (.obj (predicate.getD []))⟩)).map
          RestResponse.toConnect := by
  rw [Rest.updateSegment, map_withProject, Connect.updateSegment]
  congr 1
  funext proj
  simp only [Rest.withBody, normalizePredicate, normalizePredicateBytes, Option.getD_some]
  rcases acceptPredicate env (marshalAny (.obj (predicate.getD []))) with text | stored
  · rfl
  · exact (map_transact _ _).symm

/-- Lists agree where their reads fail internally. -/
theorem listOf_agree {β : Type} (query : Nat → Except ReadFault Db → Except DbError (List β))
    (hquery : ∀ id r e, query id r = .error e → e.is .notFound = false ∧ isConflict e = false)
    (reply : List β → Reply) (slug : String) :
    Connect.listOf query reply slug = (Rest.listOf query reply slug).map toConnect := by
  rw [Rest.listOf, map_withProject, Connect.listOf]
  congr 1
  funext proj
  rw [map_withRows]
  · rfl
  · exact hquery proj.id

theorem listProjects_agree :
    Connect.listProjects = Rest.listProjects.map toConnect := by
  rw [Rest.listProjects, map_withRows]
  · rfl
  · exact fun _ _ => selectMany_error

theorem listFlagVersions_agree (slug key : String) :
    Connect.listFlagVersions db slug key =
      (Rest.listFlagVersions db slug key).map toConnect := by
  rw [Rest.listFlagVersions, map_withProject, Connect.listFlagVersions]
  congr 1
  funext proj
  rw [map_withFlag]
  congr 1
  funext flag
  rw [map_withRows]
  · rfl
  · exact fun _ _ => selectMany_error

/-- Listing snapshots fails with an error of its own, or of the read. -/
theorem listSnapshotsByProject_error {projectId : Nat} {limit : Int32} {r : Except ReadFault Db}
    {e : DbError} (h : listSnapshotsByProject db b projectId limit r = .error e) :
    e.is .notFound = false ∧ isConflict e = false := by
  unfold listSnapshotsByProject at h
  simp only at h
  split at h
  · cases b with
    | postgres =>
      cases h
      exact ⟨rfl, rfl⟩
    | sqlite => exact selectMany_error h
  · rcases hrows : selectMany "store: list snapshots" (fun s =>
      ((s.versions.snapshots.of projectId).map (snapshotFromRow db)).reverse) r with e' | rows
    · rw [hrows] at h
      cases h
      exact selectMany_error hrows
    · rw [hrows] at h
      cases h

/-- A limit below 1 is none. -/
theorem listSnapshots_agree (slug : String) (limit : Int32) :
    Connect.listSnapshots db b slug limit =
      (Rest.listSnapshots db b slug (if limit ≤ 0 then none else some limit)).map
        RestResponse.toConnect := by
  have hlimit : (if limit ≤ 0 then none else some limit : Option Int32).getD 50 =
      if limit ≤ 0 then 50 else limit := by
    by_cases h : limit ≤ 0
    · rw [if_pos h, if_pos h]
      rfl
    · rw [if_neg h, if_neg h]
      rfl
  rw [Rest.listSnapshots, hlimit]
  exact listOf_agree _ (fun _ _ _ => listSnapshotsByProject_error) _ slug

theorem compileAndInsert_agree (actor : String) (projectId : Nat) (envId : Option Nat) :
    Connect.compileAndInsert env db actor projectId envId =
      (Rest.compileAndInsert env db actor projectId envId).map toConnect := by
  rw [Rest.compileAndInsert, Connect.compileAndInsert, map]
  congr 1
  funext r
  rcases h : compileBundle env db projectId r with failure | flags
  · rcases failure with e | text
    · -- an error of the store comes from the read
      have he : e.is .notFound = false ∧ isConflict e = false := by
        unfold compileBundle at h
        rcases hlist : listLatestFlagVersions db projectId r with e' | latest
        · rw [hlist] at h
          injection h with h
          injection h with h
          subst h
          exact @selectMany_error _ _ _ _ e' hlist
        · rw [hlist] at h
          obtain ⟨lv, -, hlv⟩ := insertEach_error h
          rcases hdec : decodeTree lv.2.params.compiled with err | tree
          · rw [hdec] at hlv
            cases hlv
          · rw [hdec] at hlv
            cases hlv
      simp only [Connect.bundleError, connectError_internal he]
      rfl
    · rfl
  · exact (map_transact _ _).symm

/-- The environment is optional on both surfaces. -/
theorem compileSnapshot_agree (slug actor : String) (environmentSlug : Option String) :
    Connect.compileSnapshot env db slug actor environmentSlug =
      (Rest.compileSnapshot env db slug actor (some (.ok environmentSlug))).map
        RestResponse.toConnect := by
  rw [Rest.compileSnapshot, map_withProject, Connect.compileSnapshot]
  congr 1
  funext proj
  simp only [Rest.withBody]
  split
  · exact compileAndInsert_agree actor proj.id none
  · exact compileAndInsert_agree actor proj.id none
  · rename_i envSlug _
    rw [map]
    congr 1
    funext r
    rcases h : getEnvironmentBySlug proj.id envSlug r with e | e
    · simp only
      by_cases hnotFound : e.is .notFound = true
      · rw [if_pos hnotFound, if_pos hnotFound]
        rfl
      · rw [if_neg hnotFound, if_neg hnotFound,
          connectError_internal ⟨by simpa using hnotFound, isConflict_selectOne h⟩]
        rfl
    · exact compileAndInsert_agree actor proj.id (some e.id)

/-- Evaluations agree if what they make of the flag agrees. -/
theorem loadEvaluation_agree (slug key : String) (ctx : Option Context)
    {k : Compiled → Nat → Context → ConnectResponse} {k' : Compiled → Nat → Context → RestResponse}
    (hk : ∀ c n ctx, k c n ctx = (k' c n ctx).toConnect) :
    Connect.loadEvaluation env db slug key ctx k =
      (Rest.loadEvaluation env db slug key (.ok (ctx.getD [])) k').map toConnect := by
  rw [Rest.loadEvaluation, map_withProject, Connect.loadEvaluation]
  congr 1
  funext proj
  rw [map_withFlag]
  congr 1
  funext flag
  rw [map_withRow]
  · congr 1
    funext version
    simp only [Rest.withBody]
    rcases compile env (.ofString version.params.strategy) (.json version.params.compiled) with
      err | compiled
    · rfl
    · simp only [map, hk]
  · exact fun _ _ => isConflict_selectOne

/-- An absent context is empty. -/
theorem evaluate_agree (slug key : String) (ctx : Option Context) :
    Connect.evaluate env db slug key ctx =
      (Rest.evaluateFlag env db slug key (.ok (ctx.getD []))).map toConnect :=
  loadEvaluation_agree slug key ctx fun c n ctx => by
    rcases FalseFlag.evaluate env c ctx n with err | d
    · rfl
    · rfl

theorem evaluateWithTrace_agree (slug key : String) (ctx : Option Context) :
    Connect.evaluateWithTrace env db slug key ctx =
      (Rest.evaluateFlagWithTrace env db slug key (.ok (ctx.getD []))).map toConnect :=
  loadEvaluation_agree slug key ctx fun c n ctx => by
    rcases FalseFlag.evaluateWithTrace env c ctx n with err | ⟨d, t⟩
    · rfl
    · rfl

end Handlers

/-- A Connect request and the REST request that says the same are handled by the same process, up to
    the translation of its answers. -/
theorem connect_eq_map {env : Env} {db : Medium} {b : Backend} {c : ConnectRequest}
    {r : RestRequest} (h : c.toRest = some r) :
    connect env db b c = (rest env db b r).map toConnect := by
  cases c with
  | listProjects =>
    cases h
    exact listProjects_agree
  | listEnvironments slug =>
    cases h
    exact listOf_agree listEnvironmentsByProject (fun _ _ _ => selectMany_error) _ slug
  | listFlags slug =>
    cases h
    exact listOf_agree (listFlagsByProject db) (fun _ _ _ => selectMany_error) _ slug
  | listSegments slug =>
    cases h
    exact listOf_agree (listSegmentsByProject db) (fun _ _ _ => selectMany_error) _ slug
  | getProject slug =>
    cases h
    exact getProject_agree slug
  | createProject actor slug displayName configStrategy =>
    cases h
    exact createProject_agree actor slug displayName configStrategy
  | getEnvironment slug envSlug =>
    cases h
    exact getEnvironment_agree slug envSlug
  | createEnvironment slug actor envSlug name =>
    cases h
    exact createEnvironment_agree slug actor envSlug name
  | getFlag slug key =>
    cases h
    exact getFlag_agree slug key
  | createFlag slug actor key name description valueType defaultValue =>
    cases h
    exact createFlag_agree slug actor key name description valueType defaultValue
  | publishFlagVersion fuel slug key actor strategy source sourceText =>
    cases h
    exact publishFlagVersion_agree fuel slug key actor strategy source sourceText
  | listFlagVersions slug key =>
    cases h
    exact listFlagVersions_agree slug key
  | getSegment slug segKey =>
    cases h
    exact getSegment_agree slug segKey
  | createSegment slug actor key name description predicate =>
    cases h
    exact createSegment_agree slug actor key name description predicate
  | updateSegment slug segKey actor name description predicate =>
    cases h
    exact updateSegment_agree slug segKey actor name description predicate
  | listSnapshots slug limit =>
    cases h
    exact listSnapshots_agree slug limit
  | getLatestSnapshot slug =>
    cases h
    exact getLatestSnapshot_agree slug
  | getSnapshot slug id =>
    rcases id with text | id
    · cases h
    · cases h
      exact getSnapshot_agree slug id
  | compileSnapshot slug actor environmentSlug =>
    cases h
    exact compileSnapshot_agree slug actor environmentSlug
  | evaluate slug key ctx =>
    cases h
    exact evaluate_agree slug key ctx
  | evaluateWithTrace slug key ctx =>
    cases h
    exact evaluateWithTrace_agree slug key ctx

/-! ## Requests on both surfaces -/

/-- A request, on one surface or the other. -/
inductive Request where
  | rest (r : RestRequest)
  | connect (c : ConnectRequest)

/-- What is answered. -/
inductive Answer where
  | rest (a : RestResponse)
  | connect (a : ConnectResponse)

/-- The answer, in the words of Connect. -/
def Answer.told : Answer → ConnectResponse
  | .rest a => a.toConnect
  | .connect a => a

/-- The request, in the words of REST. -/
def Request.onRest : Request → Option RestRequest
  | .rest r => some r
  | .connect c => c.toRest

/-- The handler of a request. -/
def serve (env : Env) (db : Medium) (b : Backend) : Request → Handler Answer
  | .rest r => (rest env db b r).map .rest
  | .connect c => (connect env db b c).map .connect

/-- A server with these requests, none of which has begun. -/
def pool (env : Env) (db : Medium) (b : Backend) (reqs : Nat → Request) (d : Db) :
    Pool Db ReadFault Audited (Except DbError Mutators.Row) Answer where
  store := d
  procs i := serve env db b (reqs i)

/-- The server after some turns. -/
def run (env : Env) (db : Medium) (b : Backend) (reqs : Nat → Request) (d : Db)
    (es : List (Turn ReadFault Fate)) :
    Pool Db ReadFault Audited (Except DbError Mutators.Row) Answer :=
  es.foldl (Pool.next (execute b)) (pool env db b reqs d)

/-- Whichever surface a request comes over, it is handled as REST handles it. -/
theorem told_serve {env : Env} {db : Medium} {b : Backend} {req : Request} {r : RestRequest}
    (h : req.onRest = some r) :
    (serve env db b req).map Answer.told = (rest env db b r).map toConnect := by
  cases req with
  | rest r' =>
    cases h
    rw [serve, map_map]
    rfl
  | connect c =>
    rw [serve, map_map, ← connect_eq_map h]
    exact map_id _

/-- A database with a project and a flag. -/
def oneFlag : Db where
  tables := { Mutators.emptyStore with
    projects := [⟨1, "shop", "Shop", "json", 0, 0⟩]
    flags := [⟨2, 1, "banner", "Banner", "", "boolean", .bool false, 0, 0⟩] }
  audit := []

/-- Two reads by the first request. -/
def twoReads : List (Turn ReadFault Fate) := [⟨0, none, .error .notFound⟩, ⟨0, none, .error .notFound⟩]

end FalseFlag.Server
