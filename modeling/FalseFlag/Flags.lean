/-
  Flags and their versions (internal/server/handlers/flags.go, evaluate.go and their copies in
  internal/server/rpc; db/migrations/0002_flags.sql, db/queries/flags.sql).

  A flag has a declared `value_type`; publishing compiles a source and stores the IR as a new
  version; evaluating reads the latest version, recompiles the stored IR and evaluates it.  Flags
  are told apart by project and key, which the table keeps unique (the row ids are left out).
  Documents go through the database `db`, which preserves JSON values and no more.

  The declared type of the flag is NOT compared with the `value_type` of the published tree, and a
  default is never type-checked.
  * **`decisions_have_type`** — along every run whose publishes carry trees of the declared type,
    every decision that is served has that type.
-/
import FalseFlag.Publish
import FalseFlag.Lib.Versioned

namespace FalseFlag

open List JsonTree Json Fallible Relators Runs Versioned

/-! ## The tables -/

/-- What identifies a flag. -/
@[ext]
structure FlagId where
  projectId : Nat
  key : String
  deriving DecidableEq

/-- A row of `flags`; the `CHECK` on `value_type` makes it one of the four. -/
structure Flag where
  id : FlagId
  name : String
  description : String
  valueType : ValueType
  defaultValue : Doc

/-- A row of `flag_versions`. -/
structure FlagVersion where
  flagId : FlagId
  version : Nat
  strategy : Strategy
  source : Doc
  compiled : Doc
  sourceText : Source
  deriving DecidableEq

/-- The tables that flags live in. -/
structure Store where
  flags : List Flag
  unique : (flags.map Flag.id).Nodup
  versions : Log FlagVersion.flagId FlagVersion.version
  segments : SegmentTable

def Store.empty : Store := ⟨[], nodup_nil, .empty, .empty⟩

/-- `GetFlagByKey`. -/
def Store.getFlagByKey (s : Store) (id : FlagId) : Option Flag := s.flags.find? (·.id = id)

/-! ## CreateFlag -/

/-- The body of `CreateFlag`. -/
structure CreateFlagRequest where
  id : FlagId
  name : String
  description : String
  valueType : String
  defaultValue : Value

/-- `CreateFlag`: the table checks the value type and the key. -/
def createFlag (db : Medium) (s : Store) (req : CreateFlagRequest) : Except RequestError Store :=
  match ValueType.parse req.valueType with
  | none => .error (.internal "flags_value_type_check")
  | some valueType =>
    if h : s.getFlagByKey req.id = none then
      .ok { s with
            flags := s.flags ++
              [{ id := req.id, name := req.name, description := req.description, valueType,
                 defaultValue := db.pass (marshalAny req.defaultValue) }]
            unique := by
              rw [map_append, nodup_append]
              refine ⟨s.unique, nodup_singleton _, ?_⟩
              intro a ha b hb hab
              obtain ⟨flag, hflag, rfl⟩ := mem_map.mp ha
              rw [mem_singleton.mp hb] at hab
              exact find?_eq_none.mp h flag hflag (decide_eq_true hab) }
    else .error .conflict

/-! ## PublishFlagVersion -/

/-- The `source` of a request, as its API carries it. -/
inductive SourceBody where
  | rest (source : Value)
  | connect (source : Option Context)

/-- `sourceRaw`; a missing struct is an empty map. -/
def SourceBody.raw : SourceBody → Doc
  | .rest source => marshalAny source
  | .connect none => .obj []
  | .connect (some source) => marshalAny (.obj source)

/-- The body of `PublishFlagVersion`. -/
structure PublishRequest where
  id : FlagId
  strategy : String
  source : SourceBody
  sourceText : Source

/-- `sourceText == ""`. -/
def Source.isEmpty : Source → Bool
  | .text s => s == ""
  | .json _ => false

/-- The TypeScript text is what is compiled. -/
def PublishRequest.usesText (req : PublishRequest) (strategy : Strategy) : Bool :=
  decide (strategy = .typescript) && !req.sourceText.isEmpty

/-- `compileInput`. -/
def PublishRequest.compileInput (req : PublishRequest) (strategy : Strategy) : Source :=
  if req.usesText strategy then req.sourceText else .json req.source.raw

/-- The row `tx.PublishFlagVersion` inserts. -/
def Store.newVersion (db : Medium) (s : Store) (flagId : FlagId) (strategy : Strategy)
    (source compiled : Doc) (sourceText : Source) : FlagVersion :=
  { flagId, version := s.versions.next flagId, strategy, source := db.pass source,
    compiled := db.pass compiled, sourceText }

/-- `tx.PublishFlagVersion`: insert with the next version. -/
def Store.insertVersion (db : Medium) (s : Store) (flagId : FlagId) (strategy : Strategy)
    (source compiled : Doc) (sourceText : Source) : Store :=
  { s with
    versions := s.versions.append
      (s.newVersion db flagId strategy source compiled sourceText) rfl }

/-- `isCompileError` and the two ways to answer. -/
def compileRefusal (err : CompileError) : RequestError :=
  if err.sentinel = .errUnknownStrategy then .badRequest err.text else .unprocessable err.text

/-- `PublishFlagVersion`; `none` if resolving the segments never ends. -/
def publishFlagVersion (env : Env) (db : Medium) (fuel : Nat) (s : Store) (req : PublishRequest) :
    Option (Except RequestError Store) :=
  match s.getFlagByKey req.id with
  | none => some (.error .notFound)
  | some flag =>
    match Strategy.parse req.strategy with
    | none => some (.error (.badRequest ("invalid strategy " ++ env.quote req.strategy)))
    | some strategy =>
      match resolveSegmentRefs env (storeSegmentResolver env s.segments flag.id.projectId) fuel
          (req.compileInput strategy) with
      | none => none
      | some (.error err) => some (.error (.badRequest err.text))
      | some (.ok resolved) =>
        match compile env (.known strategy) resolved with
        | .error err => some (.error (compileRefusal err))
        | .ok compiled =>
          let compiledRaw := encodeTree compiled.ir
          let persistedSource := if req.usesText strategy then compiledRaw else req.source.raw
          some (.ok (s.insertVersion db flag.id strategy persistedSource compiledRaw
            req.sourceText))

/-! ## EvaluateFlag -/

/-- `loadEvaluation`: the latest version, recompiled. -/
def loadEvaluation (env : Env) (s : Store) (id : FlagId) : Except RequestError (Compiled × Nat) :=
  match s.getFlagByKey id with
  | none => .error .notFound
  | some flag =>
    match s.versions.latest flag.id with
    | none => .error .notFound
    | some version =>
      match compile env (.known version.strategy) (.json version.compiled) with
      | .error err => .error (.internal ("rehydrating IR: " ++ err.text))
      | .ok compiled => .ok (compiled, version.version)

/-- `EvaluateFlag`. -/
def evaluateFlag (env : Env) (s : Store) (id : FlagId) (ctx : Context) :
    Except RequestError Decision :=
  match loadEvaluation env s id with
  | .error err => .error err
  | .ok (compiled, version) => (evaluate env compiled ctx version).mapError .internal

/-! ## Runs -/

/-- The requests that change the tables.  A publish comes with the fuel it is given. -/
inductive ApiRequest where
  | createFlag (req : CreateFlagRequest)
  | publish (fuel : Nat) (req : PublishRequest)
  | segment (req : SegmentRequest)

/-- The tables after a request; a refused one (or one that dies) changes nothing. -/
def Store.after (env : Env) (db : Medium) (s : Store) : ApiRequest → Store
  | .createFlag req =>
    match FalseFlag.createFlag db s req with
    | .ok s' => s'
    | .error _ => s
  | .publish fuel req =>
    match publishFlagVersion env db fuel s req with
    | some (.ok s') => s'
    | _ => s
  | .segment req => { s with segments := afterRequest env s.segments req }

/-! ### What an accepted request does -/

section Requests

variable {env : Env} {db : Medium}

variable {s : Store}

theorem createFlag_ok {s' : Store} {req : CreateFlagRequest} (h : createFlag db s req = .ok s') :
    ∃ flag : Flag, flag.id = req.id ∧ s.getFlagByKey req.id = none ∧
      s'.flags = s.flags ++ [flag] ∧ s'.versions = s.versions ∧ s'.segments = s.segments := by
  unfold createFlag at h
  rcases hvt : ValueType.parse req.valueType with _ | vt
  · rw [hvt] at h
    nomatch h
  · rw [hvt] at h
    simp only at h
    split at h
    · rename_i hnone
      injection h with h
      subst h
      exact ⟨_, rfl, hnone, rfl, rfl, rfl⟩
    · nomatch h

/-- **All an accepted publish does**: one more version of the flag, with the IR of its source. -/
theorem publish_ok {fuel : Nat} {s' : Store} {req : PublishRequest}
    (h : publishFlagVersion env db fuel s req = some (.ok s')) :
    ∃ flag strategy c source, s.getFlagByKey req.id = some flag ∧
      Strategy.parse req.strategy = some strategy ∧
      publishCompile env (storeSegmentResolver env s.segments flag.id.projectId) fuel strategy
        (req.compileInput strategy) = some (.ok c) ∧
      s' = s.insertVersion db flag.id strategy source (encodeTree c.ir) req.sourceText := by
  unfold publishFlagVersion at h
  rcases hflag : s.getFlagByKey req.id with _ | flag
  · rw [hflag] at h
    nomatch h
  rw [hflag] at h
  simp only at h
  rcases hst : Strategy.parse req.strategy with _ | strategy
  · rw [hst] at h
    nomatch h
  rw [hst] at h
  simp only at h
  split at h
  · nomatch h
  · nomatch h
  · rename_i resolved hresolved
    rcases hc : compile env (.known strategy) resolved with err | c
    · rw [hc] at h
      nomatch h
    · rw [hc] at h
      injection h with h
      injection h with h
      refine ⟨flag, strategy, c, _, rfl, rfl, ?_, h.symm⟩
      rw [publishCompile, hresolved]
      exact congrArg some hc

theorem getFlagByKey_mem {id : FlagId} {flag : Flag}
    (h : s.getFlagByKey id = some flag) : flag ∈ s.flags ∧ flag.id = id :=
  ⟨mem_of_find?_eq_some h, by simpa using find?_some h⟩

theorem mem_insertVersion {flagId : FlagId} {strategy : Strategy} {source compiled : Doc}
    {sourceText : Source} {v : FlagVersion} :
    v ∈ (s.insertVersion db flagId strategy source compiled sourceText).versions.rows ↔
      v ∈ s.versions.rows ∨ v = s.newVersion db flagId strategy source compiled sourceText :=
  Log.mem_rows_append (h := rfl)

/-- **All a request can do**: create a flag, publish a version, or leave flags and versions as they
    are. -/
theorem after_cases (s : Store) (req : ApiRequest) :
    (∃ flag, s.getFlagByKey flag.id = none ∧ (s.after env db req).flags = s.flags ++ [flag] ∧
      (s.after env db req).versions = s.versions) ∨
    (∃ fuel preq flag strategy c source, req = .publish fuel preq ∧
      s.getFlagByKey preq.id = some flag ∧ Strategy.parse preq.strategy = some strategy ∧
      publishCompile env (storeSegmentResolver env s.segments flag.id.projectId) fuel strategy
        (preq.compileInput strategy) = some (.ok c) ∧
      s.after env db req =
        s.insertVersion db flag.id strategy source (encodeTree c.ir) preq.sourceText) ∨
    ((s.after env db req).flags = s.flags ∧ (s.after env db req).versions = s.versions) := by
  cases req with
  | createFlag req =>
    rw [Store.after]
    rcases hs' : createFlag db s req with _ | s'
    · exact .inr (.inr ⟨rfl, rfl⟩)
    · obtain ⟨flag, hid, hnone, hflags, hversions, -⟩ := createFlag_ok hs'
      exact .inl ⟨flag, hid ▸ hnone, hflags, hversions⟩
  | segment req => exact .inr (.inr ⟨rfl, rfl⟩)
  | publish fuel req =>
    rw [Store.after]
    rcases hs' : publishFlagVersion env db fuel s req with _ | _ | s'
    · exact .inr (.inr ⟨rfl, rfl⟩)
    · exact .inr (.inr ⟨rfl, rfl⟩)
    · obtain ⟨flag, strategy, c, source, hflag, hst, hc, rfl⟩ := publish_ok hs'
      exact .inr (.inl ⟨fuel, req, flag, strategy, c, source, rfl, hflag, hst, hc, rfl⟩)

/-- The stored version holds the IR of a source that compiled. -/
def FlagVersion.IsIrOf (env : Env) (db : Medium) (v : FlagVersion) (c : Compiled) : Prop :=
  (∃ src, compile env (.known v.strategy) src = .ok c) ∧ v.compiled = db.pass (encodeTree c.ir)

/-- What a publish inserts is the IR of its source. -/
theorem newVersion_isIrOf {resolver : SegmentResolver} {fuel : Nat} {flagId : FlagId}
    {strategy : Strategy} {src sourceText : Source} {source : Doc} {c : Compiled}
    (h : publishCompile env resolver fuel strategy src = some (.ok c)) :
    (s.newVersion db flagId strategy source (encodeTree c.ir) sourceText).IsIrOf env db c := by
  obtain ⟨src', -, hc⟩ := Fueled.andThen_eq_ok.mp h
  injection hc with hc
  exact ⟨⟨src', hc⟩, rfl⟩

/-- Every stored version holds an IR. -/
def Persisted (env : Env) (db : Medium) (s : Store) : Prop :=
  ∀ v ∈ s.versions.rows, ∃ c, v.IsIrOf env db c

theorem persisted_after (h : Persisted env db s) (req : ApiRequest) :
    Persisted env db (s.after env db req) := by
  intro v hv
  rcases @after_cases env db s req with
    ⟨-, -, -, hversions⟩ | ⟨fuel, preq, flag, strategy, c, source, -, -, -, hc, hafter⟩ |
    ⟨-, hversions⟩
  · exact h v (hversions ▸ hv)
  · rw [hafter] at hv
    rcases mem_insertVersion.mp hv with hv | rfl
    · exact h v hv
    · exact ⟨c, newVersion_isIrOf hc⟩
  · exact h v (hversions ▸ hv)

end Requests

/-! ## The type of a decision -/

/-- The tree that a source stands for: itself, with what is missing written as `null`, or what it
    exports. -/
def sourceTree (env : Env) (src : Source) : Option RulesTree :=
  match unmarshalTree src with
  | .ok t => some t.fill
  | .error _ =>
    match env.runModule src with
    | .ok irJSON => (decodeTree irJSON).toOption
    | .error _ => none

/-- The default of the tree has type `vt`, and so has every rule value that the tree's own type
    check lets pass. -/
structure RulesTree.HasType (t : RulesTree) (vt : ValueType) : Prop where
  default : ∀ d, t.default = some d → valueMatchesType (Doc.value d) (.known vt) = true
  value : ∀ r ∈ t.ruleList, ∀ d, r.value = some d →
    valueMatchesType (Doc.value d) t.valueType = true →
    valueMatchesType (Doc.value d) (.known vt) = true

section Types

variable {env : Env} {db : Medium}

variable {vt : ValueType}

/-- Only the value type, the default and the rule values matter. -/
theorem RulesTree.HasType.congr {t u : RulesTree} (h : t.HasType vt)
    (htype : u.valueType = t.valueType) (hdefault : u.default = t.default)
    (hrules : Forall₂ (fun r r' : Rule => r'.value = r.value) t.ruleList u.ruleList) :
    u.HasType vt where
  default d hd := h.default d (hdefault ▸ hd)
  value r' hr' d hd hmatch := by
    obtain ⟨r, hr, hrr'⟩ := exists_of_forall₂ hrules.flip r' hr'
    exact h.value r hr d (hrr' ▸ hd) (htype ▸ hmatch)

/-- What a publish compiles has the default and the values of the tree its source stands for. -/
theorem publishCompile_hasType {resolver : SegmentResolver} {fuel : Nat} {st : Strategy}
    {src : Source} {c : Compiled} (h : publishCompile env resolver fuel st src = some (.ok c))
    (htype : ∀ t, sourceTree env src = some t → t.HasType vt) :
    c.ir.HasType vt := by
  obtain ⟨src', hsrc', hcompile⟩ := Fueled.andThen_eq_ok.mp h
  injection hcompile with hcompile
  rcases resolveSegmentRefs_cases hsrc' with ⟨⟨e, he⟩, rfl⟩ | ⟨t, t', ht, hres, rfl⟩
  · -- the IR is what the source exports
    rcases compile_ir_cases hcompile with hir | ⟨-, irJSON, hrun, hdec⟩
    · rw [he] at hir
      nomatch hir
    · refine htype c.ir ?_
      simp only [sourceTree, he, hrun, hdec]
      rfl
  · -- the IR is the resolved tree, read back
    have hfill := htype t.fill (by rw [sourceTree, ht])
    obtain ⟨hvt, hdefault, hrules⟩ := resolveSegments_spec hres
    rw [compile_encodeTree_ir hcompile]
    refine hfill.congr hvt (by rw [RulesTree.fill, RulesTree.fill, hdefault]) ?_
    rw [ruleList_fill, ruleList_fill, forall₂_map_left_iff, forall₂_map_right_iff]
    refine hrules.imp fun r r' hr => ?_
    rw [Rule.fill, Rule.fill, hr.2.1]

/-- Passing a tree on keeps its type. -/
theorem RulesTree.HasType.like {N : JNum → JNum → Prop} (hN : Keeps N) {t u : RulesTree}
    (h : t.HasType vt) (hlike : t.Like (Carries N) u) : u.HasType vt where
  default d' hd' := by
    have hrel := hlike.default
    rw [hd'] at hrel
    obtain ⟨d, hd, hdd'⟩ : ∃ d, t.default = some d ∧ Carries N d d' := by
      generalize t.default = o at hrel
      cases hrel with
      | some hdd' => exact ⟨_, rfl, hdd'⟩
    rw [hN.value hdd']
    exact h.default d hd
  value r' hr' d' hd' := by
    obtain ⟨r, hr, hrr'⟩ := exists_of_forall₂ hlike.ruleList.flip r' hr'
    have hrel := hrr'.value
    rw [hd'] at hrel
    obtain ⟨d, hd, hdd'⟩ : ∃ d, r.value = some d ∧ Carries N d d' := by
      generalize r.value = o at hrel
      cases hrel with
      | some hdd' => exact ⟨_, rfl, hdd'⟩
    rw [hN.value hdd', ← hlike.valueType]
    exact h.value r hr d hd

theorem decodeValue_eq_ok {d : Doc} {v : Value} (h : decodeValue env (some d) = .ok v) :
    v = Doc.value d := by
  have h' : unmarshalAny d = .ok v := mapError_eq_ok.mp h
  unfold unmarshalAny at h'
  split at h'
  · injection h' with h'
    exact h'.symm
  · nomatch h'

/-- A matching rule serves the default or a value of its own. -/
theorem ruleDecision_hasType {t : RulesTree} (h : t.HasType vt) {defValue : Value}
    (hdefault : valueMatchesType defValue (.known vt) = true) {version : Int} {r : Rule}
    (hr : r ∈ t.ruleList) (hvalue : r.value ≠ none) :
    valueMatchesType (ruleDecision env t.valueType defValue version r).value (.known vt) = true := by
  obtain ⟨d, hd⟩ := Option.ne_none_iff_exists'.mp hvalue
  unfold ruleDecision servedValue
  rw [hd]
  rcases hv : decodeValue env (some d) with e | v
  · exact hdefault
  · simp only
    by_cases hmatch : valueMatchesType v t.valueType = true
    · rw [if_pos hmatch]
      rw [decodeValue_eq_ok hv] at hmatch ⊢
      exact h.value r hr d hd hmatch
    · rw [if_neg hmatch]
      exact hdefault

/-- **The decisions of a tree of type `vt` have type `vt`**, whatever the reason. -/
theorem evaluate_hasType {c : Compiled} (hc : WellCompiled env c)
    (h : c.ir.HasType vt) {ctx : Context} {version : Int} {d : Decision}
    (hd : evaluate env c ctx version = .ok d) : valueMatchesType d.value (.known vt) = true := by
  obtain ⟨raw, hraw⟩ := Option.ne_none_iff_exists'.mp hc.valid.default
  unfold evaluate at hd
  rw [hraw] at hd
  rcases hv : decodeValue env (some raw) with e | defValue
  · rw [hv] at hd
    nomatch hd
  · rw [hv] at hd
    injection hd with hd
    subst hd
    have hdefault : valueMatchesType defValue (.known vt) = true := by
      rw [decodeValue_eq_ok hv]
      exact h.default raw hraw
    -- by induction on the rules still to be tried
    have hloop : ∀ rs : List Rule, (∀ r ∈ rs, r ∈ c.ir.ruleList) →
        valueMatchesType (evaluateRules env c ctx defValue version rs).value (.known vt) = true := by
      intro rs
      induction rs with
      | nil => exact fun _ => hdefault
      | cons r rs ih =>
        intro hrs
        obtain ⟨hr, hrs⟩ := forall_mem_cons.mp hrs
        rw [evaluateRules]
        rcases (matchPtr env c.celPrograms ctx r.when).toExcept with e | b
        · exact hdefault
        · cases b with
          | false => exact ih hrs
          | true => exact ruleDecision_hasType h hdefault hr (hc.valid.rules r hr).value
    exact hloop _ fun _ hr => hr

end Types

/-! ### Along runs -/

/-- Every decision that is served has the type its flag declares. -/
def DecisionsTyped (env : Env) (s : Store) : Prop :=
  ∀ flag ∈ s.flags, ∀ ctx d, evaluateFlag env s flag.id ctx = .ok d →
    valueMatchesType d.value (.known flag.valueType) = true

/-- The source of a publish that is accepted stands for a tree of the type that the flag declares. -/
def PublishesTyped (env : Env) (s : Store) : ApiRequest → Prop
  | .publish fuel req => ∀ flag strategy c t, s.getFlagByKey req.id = some flag →
      Strategy.parse req.strategy = some strategy →
      publishCompile env (storeSegmentResolver env s.segments flag.id.projectId) fuel strategy
        (req.compileInput strategy) = some (.ok c) →
      sourceTree env (req.compileInput strategy) = some t → t.HasType flag.valueType
  | _ => True

/-- Every stored version is the IR of a flag, and of its type. -/
def VersionsTyped (env : Env) (db : Medium) (s : Store) : Prop :=
  ∀ v ∈ s.versions.rows, ∃ flag ∈ s.flags, flag.id = v.flagId ∧
    ∃ c, v.IsIrOf env db c ∧ c.ir.HasType flag.valueType

section TypedRuns

variable {env : Env} {db : Medium}

variable {s : Store}

/-- One request: if a publish carries a tree of the right type, the versions stay typed. -/
theorem versionsTyped_after (h : VersionsTyped env db s) (req : ApiRequest)
    (hreq : PublishesTyped env s req) : VersionsTyped env db (s.after env db req) := by
  intro v hv
  rcases @after_cases env db s req with
    ⟨new, -, hflags, hversions⟩ |
    ⟨fuel, preq, flag, strategy, c, source, rfl, hflag, hst, hc, hafter⟩ | ⟨hflags, hversions⟩
  · obtain ⟨flag, hflag, hrest⟩ := h v (hversions ▸ hv)
    exact ⟨flag, hflags ▸ mem_append_left _ hflag, hrest⟩
  · rw [hafter] at hv ⊢
    rcases mem_insertVersion.mp hv with hv | rfl
    · exact h v hv
    · refine ⟨flag, (getFlagByKey_mem hflag).1, rfl, c, newVersion_isIrOf hc, ?_⟩
      exact publishCompile_hasType hc fun t ht => hreq flag strategy c t hflag hst hc ht
  · obtain ⟨flag, hflag, hrest⟩ := h v (hversions ▸ hv)
    exact ⟨flag, hflags ▸ hflag, hrest⟩

theorem Store.flag_eq (s : Store) {f g : Flag} (hf : f ∈ s.flags) (hg : g ∈ s.flags)
    (h : f.id = g.id) : f = g :=
  inj_on_of_nodup_map s.unique hf hg h

/-- What is evaluated is the latest version, recompiled. -/
theorem loadEvaluation_ok {id : FlagId} {c : Compiled} {n : Nat}
    (h : loadEvaluation env s id = .ok (c, n)) :
    ∃ flag v, s.getFlagByKey id = some flag ∧ s.versions.latest flag.id = some v ∧
      compile env (.known v.strategy) (.json v.compiled) = .ok c ∧ n = v.version := by
  unfold loadEvaluation at h
  rcases hflag : s.getFlagByKey id with _ | flag
  · rw [hflag] at h
    nomatch h
  rw [hflag] at h
  simp only at h
  rcases hv : s.versions.latest flag.id with _ | v
  · rw [hv] at h
    nomatch h
  rw [hv] at h
  simp only at h
  rcases hc : compile env (.known v.strategy) (.json v.compiled) with e | c'
  · rw [hc] at h
    nomatch h
  · rw [hc] at h
    injection h with h
    obtain ⟨rfl, rfl⟩ := Prod.mk.inj h
    exact ⟨flag, v, rfl, hv, hc, rfl⟩

/-- A stored version compiles, to a flag that is alike the one that was published. -/
theorem FlagVersion.IsIrOf.recompiles {v : FlagVersion} {c : Compiled} (h : v.IsIrOf env db c) :
    ∃ c', compile env (.known v.strategy) (.json v.compiled) = .ok c' ∧
      decodeTree v.compiled = .ok c'.ir ∧ c.ir.Like (Carries SameNumber) c'.ir := by
  obtain ⟨⟨src, hsrc⟩, hcompiled⟩ := h
  rw [hcompiled]
  exact compile_carried keeps_sameNumber hsrc (fits_sameNumber c.ir) (db.carries _)

theorem decisionsTyped_of_versionsTyped (h : VersionsTyped env db s) :
    DecisionsTyped env s := by
  intro flag hflag ctx d hd
  unfold evaluateFlag at hd
  rcases hload : loadEvaluation env s flag.id with e | ⟨c, n⟩
  · rw [hload] at hd
    nomatch hd
  rw [hload] at hd
  obtain ⟨flag', v, hflag', hlatest, hcompile, -⟩ := loadEvaluation_ok hload
  obtain ⟨hmem, hid⟩ := getFlagByKey_mem hflag'
  obtain ⟨hv, howner, -⟩ := Log.latest_spec hlatest
  obtain ⟨flag'', hflag'', hid'', c0, hir, htype⟩ := h v hv
  -- the three flags are one
  have heq : flag'' = flag := s.flag_eq hflag'' hflag (by rw [hid'', howner, hid])
  subst heq
  obtain ⟨c', hc', -, hlike⟩ := hir.recompiles
  rw [hcompile] at hc'
  injection hc' with hc'
  subst hc'
  exact evaluate_hasType (wellCompiled_of_compile hcompile) (htype.like keeps_sameNumber hlike)
    (mapError_eq_ok.mp hd)

/-- **Typed decisions.**  In every run of requests from empty tables in which the source of each
    accepted publish stands for a tree of the type its flag declares (its default has that type, and so has
    each rule value that passes the tree's own check), every decision that is served, in every
    state of the run, has the declared type. -/
theorem decisions_have_type (env : Env) (db : Medium) (reqs : List ApiRequest)
    (h : StepsMeet (Store.after env db) (PublishesTyped env) .empty reqs) :
    Along (Store.after env db) (DecisionsTyped env) .empty reqs := by
  have hempty : VersionsTyped env db .empty := fun v hv => absurd hv not_mem_nil
  have hinv := @along_of_stepsMeet _ _ _ (VersionsTyped env db) _
    (fun s req hs hreq => versionsTyped_after hs req hreq) _ _ hempty h
  exact hinv.imp fun s hs => decisionsTyped_of_versionsTyped hs

end TypedRuns

/-! ### Two runs -/

/-- Create the boolean flag `f` of project 1. -/
def createBoolean : ApiRequest :=
  .createFlag { id := ⟨1, "f"⟩, name := "f", description := "", valueType := "boolean",
                defaultValue := .bool false }

/-- Publish a flag without rules, with this default. -/
def publishDefault (value : Value) : ApiRequest :=
  .publish 1 { id := ⟨1, "f"⟩, strategy := "json", sourceText := .text "",
               source := .rest (.obj [("default", value), ("rules", .arr []),
                                      ("value_type", .str "boolean")]) }

/-- A boolean flag serves the string of its published default. -/
theorem mistyped_default_served :
    evaluateFlag .plain ([createBoolean, publishDefault (.str "oops")].foldl
        (Store.after .plain .sorted) .empty) ⟨1, "f"⟩ [] =
      .ok { value := .str "oops", reason := .default, ruleId := "", version := 1 } ∧
    ¬ Along (Store.after .plain .sorted) (DecisionsTyped .plain) .empty
        [createBoolean, publishDefault (.str "oops")] := by
  have hserved : evaluateFlag .plain ([createBoolean, publishDefault (.str "oops")].foldl
      (Store.after .plain .sorted) .empty) ⟨1, "f"⟩ [] =
      .ok { value := .str "oops", reason := .default, ruleId := "", version := 1 } := rfl
  refine ⟨hserved, fun ⟨_, _, h⟩ => ?_⟩
  exact absurd (h _ (mem_singleton.mpr rfl) [] _ hserved) (by decide)

/-- With a boolean default every decision of the same run is a boolean. -/
theorem boolean_default_served :
    Along (Store.after .plain .sorted) (DecisionsTyped .plain) .empty
      [createBoolean, publishDefault (.bool true)] := by
  refine decisions_have_type _ _ _ ⟨trivial, ?_, trivial⟩
  rintro flag strategy c t hflag hst - ht
  cases hflag
  cases hst
  cases ht
  refine ⟨fun d hd => ?_, fun r hr => absurd hr not_mem_nil⟩
  cases hd
  rfl

end FalseFlag
