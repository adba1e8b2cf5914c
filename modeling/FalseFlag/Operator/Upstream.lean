/-
  The flag reconciler against the API server (internal/operator/controllers/flag_controller.go over
  internal/server/rpc/flags.go and errors.go).

  The plan of the operator calls the publish endpoint idempotent by shape: publishing the same
  source again is meant to return the version that is there.  The handler compares nothing.  It
  inserts the next version, and every successful reconcile publishes at least once.

  * **`versions_same_iff`** — `n` successful reconciles leave the versions that one would have left
    EXACTLY when `n` is one.
-/
import FalseFlag.Flags
import FalseFlag.Operator.FlagController

namespace FalseFlag.Operator

open List JsonTree Runs Versioned Prod

/-! ## The server as an API -/

/-- `connectError`, `badRequest` and `compileErrorToConnect`. -/
def connectError : RequestError → ApiError
  | .badRequest text => ⟨some .invalidArgument, text⟩
  | .unprocessable text => ⟨some .invalidArgument, text⟩
  | .notFound => ⟨some .notFound, "store: not found"⟩
  | .conflict => ⟨some .alreadyExists, "store: conflict"⟩
  | .internal text => ⟨some .internal, text⟩

/-- `valueTypeFromProto`. -/
def valueTypeFromProto : Option ValueType → String
  | some vt => vt.name
  | none => ""

/-- The request a publish call stands for. -/
def PublishCall.request (call : PublishCall) (projectId : Nat) : PublishRequest where
  id := ⟨projectId, call.key⟩
  strategy := "json"
  source := .connect (some call.source)
  sourceText := .text ""

section Server

variable (env : Env) (db : Medium) (fuel : Nat) (projects : String → Option Nat)

/-- The Connect handlers of the flags service; `projects` is `GetProjectBySlug`.  A publish whose
    segments do not resolve in finitely many steps gets no answer. -/
def FlagsApi.server : FlagsApi Store where
  getFlag slug key s :=
    match projects slug with
    | none => (.error (connectError .notFound), s)
    | some projectId =>
      match s.getFlagByKey ⟨projectId, key⟩ with
      | none => (.error (connectError .notFound), s)
      | some _ => (.ok (), s)
  createFlag call s :=
    match projects call.projectSlug with
    | none => (.error (connectError .notFound), s)
    | some projectId =>
      match FalseFlag.createFlag db s
          { id := ⟨projectId, call.key⟩, name := call.name, description := ""
            valueType := valueTypeFromProto call.valueType, defaultValue := call.defaultValue } with
      | .error err => (.error (connectError err), s)
      | .ok s' => (.ok (), s')
  publishFlagVersion call s :=
    match projects call.projectSlug with
    | none => (.error (connectError .notFound), s)
    | some projectId =>
      match FalseFlag.publishFlagVersion env db fuel s (call.request projectId) with
      | none => (.error ⟨none, "unexpected EOF"⟩, s)
      | some (.error err) => (.error (connectError err), s)
      | some (.ok s') => (.ok (some (Int32.ofNat (s.versions.next ⟨projectId, call.key⟩))), s')

/-- The versions of the flag upstream. -/
def upstreamVersions (spec : FlagSpec) (s : Store) : List FlagVersion :=
  match projects spec.projectSlug with
  | none => []
  | some projectId => s.versions.of ⟨projectId, spec.key⟩

end Server

/-! ## What the calls do to the versions -/

section Calls

variable {env : Env} {db : Medium} {fuel : Nat} {projects : String → Option Nat}
  {protojson : Doc → Except String Value} {spec : FlagSpec} {rollouts : Rollouts}

/-- The version that is inserted is the last one of its flag. -/
theorem of_insertVersion {s : Store} {flagId : FlagId} {strategy : Strategy} {source compiled : Doc}
    {sourceText : Source} :
    (s.insertVersion db flagId strategy source compiled sourceText).versions.of flagId =
      s.versions.of flagId ++ [s.newVersion db flagId strategy source compiled sourceText] := by
  have hlast : [s.newVersion db flagId strategy source compiled sourceText].filter
      (·.flagId = flagId) = [s.newVersion db flagId strategy source compiled sourceText] := by
    simp [Store.newVersion]
  have happend := @Log.of_append _ _ _ _ _ s.versions
    (s.newVersion db flagId strategy source compiled sourceText) rfl flagId
  exact happend.trans (congrArg (s.versions.of flagId ++ ·) hlast)

/-- A publish is never answered with a conflict. -/
theorem publishFlagVersion_ne_conflict {s : Store} {req : PublishRequest} :
    FalseFlag.publishFlagVersion env db fuel s req ≠ some (.error .conflict) := by
  unfold FalseFlag.publishFlagVersion compileRefusal
  intro h
  split at h
  · nomatch h
  · split at h
    · nomatch h
    · split at h
      · nomatch h
      · nomatch h
      · split at h
        · injection h with h
          injection h with h
          split at h <;> nomatch h
        · nomatch h

/-- **All a publish does.**  If it is granted, the source that is built compiles at the server, and
    its IR is inserted; if not, nothing says that a version is there already. -/
theorem publish_cases {binding : Option FlagSpecBinding} {s s' : Store} {r : Except Failure Int32}
    (h : publish (.server env db fuel projects) spec rollouts binding s = (r, s')) :
    (∃ n source projectId c src, r = .ok n ∧ buildSource spec rollouts binding = .ok source ∧
        projects spec.projectSlug = some projectId ∧
        publishCompile env (storeSegmentResolver env s.segments projectId) fuel .json
          (.json (marshalAny (.obj source))) = some (.ok c) ∧
        s' = s.insertVersion db ⟨projectId, spec.key⟩ .json src (encodeTree c.ir) (.text "")) ∨
      ∃ f, r = .error f ∧ f.code ≠ some .alreadyExists := by
  unfold publish at h
  rcases hsource : buildSource spec rollouts binding with e | source
  · rw [hsource] at h
    injection h with hr hs
    exact .inr ⟨_, hr.symm, nofun⟩
  · rw [hsource] at h
    simp only [FlagsApi.server] at h
    rcases hproj : projects spec.projectSlug with _ | projectId
    · simp only [hproj, mk.injEq] at h
      exact .inr ⟨_, h.1.symm, nofun⟩
    · simp only [hproj] at h
      rcases hpub : FalseFlag.publishFlagVersion env db fuel s
        (PublishCall.request ⟨spec.projectSlug, spec.key, source⟩ projectId) with _ | err | s1
      · simp only [hpub, mk.injEq] at h
        exact .inr ⟨_, h.1.symm, nofun⟩
      · simp only [hpub, mk.injEq] at h
        refine .inr ⟨_, h.1.symm, fun hcode => ?_⟩
        cases err with
        | conflict => exact publishFlagVersion_ne_conflict hpub
        | badRequest _ => nomatch hcode
        | notFound => nomatch hcode
        | unprocessable _ => nomatch hcode
        | internal _ => nomatch hcode
      · simp only [hpub, mk.injEq] at h
        obtain ⟨hr, rfl⟩ := h
        obtain ⟨flag, strategy, c, src, hflag, hst, hc, rfl⟩ := publish_ok hpub
        have hid : flag.id = ⟨projectId, spec.key⟩ := (getFlagByKey_mem hflag).2
        have hjson : Strategy.parse "json" = some .json := rfl
        obtain rfl : Strategy.json = strategy := Option.some.inj (hjson.symm.trans hst)
        rw [hid] at hc ⊢
        exact .inl ⟨_, source, projectId, c, src, hr.symm, rfl, rfl, hc, rfl⟩

/-- **A publish that is granted inserts one version of the flag.**  One that is not leaves the
    tables alone, and does not claim that the version is there. -/
theorem publish_versions {binding : Option FlagSpecBinding} {s s' : Store}
    {r : Except Failure Int32}
    (h : publish (.server env db fuel projects) spec rollouts binding s = (r, s')) :
    (∃ v row, r = .ok v ∧
        upstreamVersions projects spec s' = upstreamVersions projects spec s ++ [row]) ∨
      ∃ f, r = .error f ∧ f.code ≠ some .alreadyExists := by
  rcases publish_cases h with ⟨n, source, projectId, c, src, hr, -, hproj, -, rfl⟩ | hf
  · unfold upstreamVersions
    rw [hproj]
    exact .inl ⟨n, _, hr, of_insertVersion⟩
  · exact .inr hf

/-- **A loop over bindings that succeeds inserts one version for each of them.** -/
theorem publishEach_versions : ∀ {targets : List (Option FlagSpecBinding)} {ver : Int32}
    {s s' : Store} {reply : SyncReply},
    publishEach (.server env db fuel projects) spec rollouts ver targets s = (reply, s') →
    (∀ f, reply.err = some f → f.code = some .alreadyExists) →
    ∃ rows, rows.length = targets.length ∧
      upstreamVersions projects spec s' = upstreamVersions projects spec s ++ rows
  | [], ver, s, s', reply, h, _ => by
    injection h with _ hs
    exact ⟨[], rfl, by rw [hs, append_nil]⟩
  | t :: ts, ver, s, s', reply, h, hok => by
    rw [publishEach] at h
    rcases hp : publish (.server env db fuel projects) spec rollouts t s with ⟨r, s1⟩
    rw [hp] at h
    rcases publish_versions hp with ⟨v, row, rfl, hrow⟩ | ⟨f, rfl, hcode⟩
    · obtain ⟨rows, hlen, hrows⟩ := publishEach_versions h hok
      refine ⟨row :: rows, by simp [hlen], ?_⟩
      rw [hrows, hrow, append_assoc, singleton_append]
    · injection h with hreply _
      exact absurd (hok f (hreply ▸ rfl)) hcode

/-- `GetFlag` changes nothing, and fails with `NotFound` only. -/
theorem server_getFlag {slug key : String} {s s' : Store} {r : Except ApiError Unit}
    (h : (FlagsApi.server env db fuel projects).getFlag slug key s = (r, s')) :
    s' = s ∧ ∀ e, r = .error e → e.code = some .notFound := by
  unfold FlagsApi.server at h
  simp only at h
  split at h
  · obtain ⟨rfl, rfl⟩ := mk.inj h
    exact ⟨rfl, fun e he => Except.error.inj he ▸ rfl⟩
  · split at h
    · obtain ⟨rfl, rfl⟩ := mk.inj h
      exact ⟨rfl, fun e he => Except.error.inj he ▸ rfl⟩
    · obtain ⟨rfl, rfl⟩ := mk.inj h
      exact ⟨rfl, nofun⟩

/-- `CreateFlag` inserts no version. -/
theorem server_createFlag {call : CreateFlagCall} {s s' : Store} {r : Except ApiError Unit}
    (h : (FlagsApi.server env db fuel projects).createFlag call s = (r, s')) :
    s'.versions = s.versions := by
  unfold FlagsApi.server at h
  simp only at h
  split at h
  · rw [← (mk.inj h).2]
  · split at h
    · rw [← (mk.inj h).2]
    · rename_i hcreate
      obtain ⟨-, -, -, -, hversions, -⟩ := createFlag_ok hcreate
      rw [← (mk.inj h).2, hversions]

/-- Making sure that the flag exists inserts no version, and does not fail with `AlreadyExists`. -/
theorem ensureFlag_versions {s s' : Store} {o : Option Failure}
    (h : ensureFlag (.server env db fuel projects) protojson spec s = (o, s')) :
    s'.versions = s.versions ∧ ∀ f, o = some f → f.code ≠ some .alreadyExists := by
  obtain ⟨s1, r, hget, hcases⟩ := ensureFlag_cases h
  obtain ⟨rfl, hcode⟩ := server_getFlag hget
  rcases hcases with ⟨rfl, ho⟩ | ⟨call, r', hcreate, ho⟩
  · refine ⟨rfl, fun f hf => ?_⟩
    rcases ho with rfl | ⟨e, hr, hne, rfl⟩ | ⟨text, rfl⟩
    · nomatch hf
    · exact absurd (hcode e hr) hne
    · exact Option.some.inj hf ▸ nofun
  · refine ⟨server_createFlag hcreate, fun f hf => ?_⟩
    rcases ho with rfl | ⟨e, hne, rfl⟩
    · nomatch hf
    · exact Option.some.inj hf ▸ hne

/-- A sync that is treated as successful inserts one version for each binding, or one. -/
theorem syncFlag_versions {k : Kube} {flag : Object FlagSpec} {s : Store}
    (h : treatedAsSuccess env (syncFlag (.server env db fuel projects) protojson k flag s).1.err = true) :
    ∃ rows, rows.length = flag.spec.targets.length ∧
      upstreamVersions projects flag.spec
          (syncFlag (.server env db fuel projects) protojson k flag s).2 =
        upstreamVersions projects flag.spec s ++ rows := by
  rw [treatedAsSuccess_iff] at h
  unfold syncFlag at h ⊢
  rcases hensure : ensureFlag (.server env db fuel projects) protojson flag.spec s with ⟨o, s1⟩
  obtain ⟨hversions, hcode⟩ := ensureFlag_versions hensure
  rw [hensure] at h
  rcases o with _ | f
  · rcases hres : resolveRollouts k.policies flag with err | rollouts
    · simp only [hres] at h
      nomatch h _ rfl
    · simp only [hres] at h ⊢
      obtain ⟨rows, hlen, hrows⟩ := publishEach_versions rfl h
      refine ⟨rows, hlen, hrows.trans ?_⟩
      rw [upstreamVersions, upstreamVersions, hversions]
  · exact absurd (h f rfl) (hcode f rfl)

end Calls

/-! ## Reconciling again and again -/

section Runs

variable (env : Env) (db : Medium) (fuel : Nat) (projects : String → Option Nat)
  (protojson : Doc → Except String Value)

/-- One `FlagReconciler.Reconcile`: the flag as it is stored and the tables of the server. -/
def reconcileFlag (st : Object FlagSpec × Store) (k : Kube) : Object FlagSpec × Store :=
  let after := flagReconciler.reconcile env
    (syncFlag (.server env db fuel projects) protojson) k st.1 st.2
  (after.object, after.upstream)

/-- The reconcile gets to `sync`, and the sync is treated as successful. -/
def Succeeds (st : Object FlagSpec × Store) (k : Kube) : Prop :=
  flagReconciler.Syncs k st.1.metadata ∧
    treatedAsSuccess env (syncFlag (.server env db fuel projects) protojson k st.1 st.2).1.err = true

variable {env db fuel projects protojson}

/-- **A successful reconcile inserts a version for each binding, or one**, and leaves metadata and
    spec as they were. -/
theorem reconcile_versions {st : Object FlagSpec × Store} {k : Kube}
    (h : Succeeds env db fuel projects protojson st k) :
    (reconcileFlag env db fuel projects protojson st k).1.spec = st.1.spec ∧
      ∃ rows, rows.length = st.1.spec.targets.length ∧
        upstreamVersions projects st.1.spec (reconcileFlag env db fuel projects protojson st k).2 =
          upstreamVersions projects st.1.spec st.2 ++ rows := by
  obtain ⟨hsyncs, htreated⟩ := h
  obtain ⟨hup, hobj⟩ := @Controller.reconcile_syncs _ _ flagReconciler env
    (syncFlag (.server env db fuel projects) protojson) k st.1 st.2 hsyncs
  simp only [reconcileFlag, hup, hobj]
  refine ⟨?_, syncFlag_versions htreated⟩
  split <;> rfl

/-- A run of successful reconciles. -/
theorem run_versions : ∀ {ks : List Kube} {st : Object FlagSpec × Store},
    StepsMeet (reconcileFlag env db fuel projects protojson)
      (Succeeds env db fuel projects protojson) st ks →
    ∃ rows, rows.length = ks.length * st.1.spec.targets.length ∧
      upstreamVersions projects st.1.spec
          (ks.foldl (reconcileFlag env db fuel projects protojson) st).2 =
        upstreamVersions projects st.1.spec st.2 ++ rows
  | [], st, _ => ⟨[], by simp, by simp⟩
  | k :: ks, st, h => by
    obtain ⟨hspec, first, hfirst, hone⟩ := reconcile_versions h.1
    obtain ⟨rest, hrest, hrun⟩ := run_versions h.2
    rw [hspec] at hrest hrun
    refine ⟨first ++ rest, ?_, ?_⟩
    · rw [length_append, hfirst, hrest, length_cons, Nat.succ_mul, Nat.add_comm]
    · rw [foldl_cons, hrun, hone, append_assoc]

/-- At least one version is published. -/
theorem targets_length_pos (spec : FlagSpec) : 0 < spec.targets.length := by
  unfold FlagSpec.targets
  split
  · exact Nat.one_pos
  · rename_i hne
    rw [length_map]
    exact length_pos_iff.mpr hne

theorem nodup_upstreamVersions (spec : FlagSpec) (s : Store) :
    (upstreamVersions projects spec s).Nodup := by
  unfold upstreamVersions
  split
  · exact nodup_nil
  · exact Log.nodup_of _

/-- **When reconciling again changes nothing.**  After `n` successful reconciles of a flag, the
    versions upstream are those that the first one left EXACTLY if `n` is one. -/
theorem versions_same_iff (flag : Object FlagSpec) (s : Store) (ks : List Kube) (hn : 1 ≤ ks.length)
    (h : StepsMeet (reconcileFlag env db fuel projects protojson)
      (Succeeds env db fuel projects protojson) (flag, s) ks) :
    (∀ v, v ∈ upstreamVersions projects flag.spec
          (ks.foldl (reconcileFlag env db fuel projects protojson) (flag, s)).2 ↔
        v ∈ upstreamVersions projects flag.spec
          ((ks.take 1).foldl (reconcileFlag env db fuel projects protojson) (flag, s)).2) ↔
      ks.length = 1 := by
  obtain ⟨k, rest, rfl⟩ := exists_cons_of_length_pos hn
  obtain ⟨hspec, -⟩ := reconcile_versions h.1
  obtain ⟨rows, hlen, hrows⟩ := run_versions h.2
  have hspec' : (reconcileFlag env db fuel projects protojson (flag, s) k).1.spec = flag.spec := hspec
  rw [hspec'] at hlen hrows
  rw [take_succ_cons, take_zero, foldl_cons, foldl_cons, foldl_nil, hrows]
  constructor
  · intro hsame
    -- a row of a later reconcile would be there twice
    have hnil : rows = [] := by
      rw [eq_nil_iff_forall_not_mem]
      intro v hv
      have hnodup := @nodup_upstreamVersions projects flag.spec
        (rest.foldl (reconcileFlag env db fuel projects protojson)
          (reconcileFlag env db fuel projects protojson (flag, s) k)).2
      rw [hrows, nodup_append] at hnodup
      exact hnodup.2.2 v ((hsame v).mp (mem_append_right _ hv)) v hv rfl
    rw [hnil, length_nil] at hlen
    have hzero := (Nat.mul_eq_zero.mp hlen.symm).resolve_right (targets_length_pos flag.spec).ne'
    rw [length_cons, hzero]
  · intro hone
    have hrest : rest = [] := length_eq_zero_iff.mp (Nat.succ.inj hone)
    subst hrest
    rw [length_nil, Nat.zero_mul] at hlen
    rw [length_eq_zero_iff.mp hlen, append_nil]
    exact fun _ => Iff.rfl

end Runs

/-! ### Two reconciles -/

/-- A boolean flag without rules, that has its finalizer. -/
def plainFlag : Object FlagSpec where
  metadata := { ns := "default", generation := 1, deletionTimestamp := none
                finalizers := [flagReconciler.finalizer] }
  spec := { projectSlug := "demo", key := "beta", name := "Beta", valueType := "boolean"
            default := { raw := some (.bool false) } }
  status := {}

/-- The server knows one project. -/
def oneProject (slug : String) : Option Nat := if slug = "demo" then some 1 else none

/-- A reader of protobuf values that takes what encoding/json takes. -/
def readValue (raw : Doc) : Except String Value := (unmarshalAny raw).mapError fun _ => "json"

theorem plainFlag_succeeds :
    StepsMeet (reconcileFlag .plain .sorted 1 oneProject readValue)
      (Succeeds .plain .sorted 1 oneProject readValue) (plainFlag, .empty) [{}, {}] := by
  exact ⟨⟨by decide, rfl⟩, ⟨by decide, rfl⟩, trivial⟩

/-- The spec does not change, both reconciles succeed, and there are two versions. -/
theorem second_version_published :
    StepsMeet (reconcileFlag .plain .sorted 1 oneProject readValue)
        (Succeeds .plain .sorted 1 oneProject readValue) (plainFlag, .empty) [{}, {}] ∧
      (upstreamVersions oneProject plainFlag.spec
        (reconcileFlag .plain .sorted 1 oneProject readValue (plainFlag, .empty) {}).2).map
          FlagVersion.version = [1] ∧
      (upstreamVersions oneProject plainFlag.spec
        (([{}, {}] : List Kube).foldl (reconcileFlag .plain .sorted 1 oneProject readValue)
          (plainFlag, .empty)).2).map FlagVersion.version = [1, 2] :=
  ⟨plainFlag_succeeds, rfl, rfl⟩

/-- The versions after the second reconcile are not those after the first. -/
theorem second_reconcile_differs :
    ¬ ∀ v, v ∈ upstreamVersions oneProject plainFlag.spec
          (([{}, {}] : List Kube).foldl (reconcileFlag .plain .sorted 1 oneProject readValue)
            (plainFlag, .empty)).2 ↔
        v ∈ upstreamVersions oneProject plainFlag.spec
          ((([{}, {}] : List Kube).take 1).foldl
            (reconcileFlag .plain .sorted 1 oneProject readValue) (plainFlag, .empty)).2 := by
  intro hsame
  have hone := (versions_same_iff plainFlag .empty [{}, {}] (by decide) plainFlag_succeeds).mp hsame
  exact absurd hone (by decide)

end FalseFlag.Operator
