/-
  Publishing flags from custom resources (internal/operator/controllers/flag_controller.go,
  flagbinding_controller.go and flagbinding_overrides.go).

  `sync` makes sure that the flag exists, looks up the RolloutPolicies it needs, and publishes one
  version for each binding, or one if there are none.  `publishAll` does the same for the
  environments of a FlagBinding.  The API is a parameter: each call may answer in any way and leave
  the API in any state.

  Which policies are looked up and which are used is decided in two places.  `resolveRollouts`
  collects the names in `spec.rules`; the translation looks up those in the rules that are in force,
  which a binding may replace; and `publishAll` looks up nothing at all.
  * **`policies_resolved_iff`** — with every named policy in place, neither ever misses one EXACTLY
    when no rule of a binding that is reached names a policy that `spec.rules` does not name, and a
    FlagBinding with environments reaches no rule of the flag that names any.
-/
import FalseFlag.Operator.Reconcile

namespace FalseFlag.Operator

open List JsonTree Fallible

/-! ## The API -/

/-- `CreateFlagRequest`; no value type is `VALUE_TYPE_UNSPECIFIED`. -/
structure CreateFlagCall where
  projectSlug : String
  key : String
  name : String
  valueType : Option ValueType
  defaultValue : Value

/-- `PublishFlagVersionRequest`, with `STRATEGY_JSON`. -/
structure PublishCall where
  projectSlug : String
  key : String
  source : Context

/-- The calls on the flags service.  A publish answers with the version, if it says one. -/
structure FlagsApi (σ : Type) where
  getFlag : String → String → σ → Except ApiError Unit × σ
  createFlag : CreateFlagCall → σ → Except ApiError Unit × σ
  publishFlagVersion : PublishCall → σ → Except ApiError (Option Int32) × σ

/-! ## FlagReconciler -/

/-- `valueTypeFromString`. -/
def valueTypeFromString : String → Option ValueType
  | "string" => some .string
  | "number" => some .number
  | "object" => some .object
  | "boolean" => some .boolean
  | "" => some .boolean
  | _ => none

/-- The RolloutPolicies that rules name. -/
def namedPolicies (rules : List FlagRule) : List String :=
  (rules.map FlagRule.rolloutRef).filter (· ≠ "")

/-- The body of the loop over the listed policies: other projects are skipped, and so is what is
    not wanted. -/
def collectOne (project : String) (wanted : String → Bool) (out : Rollouts) (rp : RolloutPolicy) :
    Rollouts :=
  if rp.projectSlug ≠ project then out
  else if wanted rp.name then fun name => if name = rp.name then some rp else out name
  else out

/-- The loop: of several policies of one name the last stays. -/
def collect (project : String) (wanted : String → Bool) (items : List RolloutPolicy) : Rollouts :=
  items.foldl (collectOne project wanted) fun _ => none

/-- `resolveRollouts`.  (Which of several missing policies is reported is up to Go's map order.) -/
def resolveRollouts (policies : Except String (List RolloutPolicy)) (flag : Object FlagSpec) :
    Except SpecError Rollouts :=
  -- the rules of bindings are not looked at
  let needed := namedPolicies flag.spec.ruleList
  if needed = [] then .ok fun _ => none
  else
    match policies with
    | .error text => .error (.listPolicies text)
    | .ok items =>
      let out := collect flag.spec.projectSlug (· ∈ needed) items
      match needed.find? fun name => (out name).isNone with
      | some name => .error (.policyNotFound name flag.metadata.ns)
      | none => .ok out

/-- The source that is published for a binding. -/
def buildSource (spec : FlagSpec) (rollouts : Rollouts) (binding : Option FlagSpecBinding) :
    Except SpecError Context :=
  match irForFlag spec rollouts binding with
  | .error err => .error (.translate err)
  | .ok tree =>
    match publishSource tree with
    | .error _ => .error (.source (encodeTree tree))
    | .ok source => .ok source

section Sync

variable {σ : Type} (api : FlagsApi σ)

/-- `rawToValue`; `protojson` reads a document into a protobuf value. -/
def rawToValue (protojson : Doc → Except String Value) : Option Doc → Except String Value
  | none => .ok .null
  | some raw => protojson raw

/-- `ensureFlag`. -/
def ensureFlag (protojson : Doc → Except String Value) (spec : FlagSpec) (s : σ) :
    Option Failure × σ :=
  match api.getFlag spec.projectSlug spec.key s with
  | (.ok (), s1) => (none, s1)
  | (.error getErr, s1) =>
    if getErr.code ≠ some .notFound then (some (.api getErr), s1)
    else
      match rawToValue protojson spec.default.raw with
      | .error text => (some (.invalid (.defaultValue text)), s1)
      | .ok defaultValue =>
        match api.createFlag
            { projectSlug := spec.projectSlug, key := spec.key, name := spec.name
              valueType := valueTypeFromString spec.valueType, defaultValue } s1 with
        | (.ok (), s2) => (none, s2)
        | (.error err, s2) =>
          -- another writer created the flag meanwhile
          if err.code = some .alreadyExists then (none, s2) else (some (.api err), s2)

/-- `publish`. -/
def publish (spec : FlagSpec) (rollouts : Rollouts) (binding : Option FlagSpecBinding) (s : σ) :
    Except Failure Int32 × σ :=
  match buildSource spec rollouts binding with
  | .error err => (.error (.invalid err), s)
  | .ok source =>
    match api.publishFlagVersion { projectSlug := spec.projectSlug, key := spec.key, source } s with
    | (.error err, s') => (.error (.api err), s')
    | (.ok version, s') => (.ok (version.getD 0), s')

/-- The loop over the bindings: the first failure ends it. -/
def publishEach (spec : FlagSpec) (rollouts : Rollouts) :
    Int32 → List (Option FlagSpecBinding) → σ → SyncReply × σ
  | lastVer, [], s => ({ version := lastVer }, s)
  | lastVer, binding :: bindings, s =>
    match publish api spec rollouts binding s with
    | (.error f, s') => ({ version := lastVer, err := some f }, s')
    | (.ok ver, s') => publishEach spec rollouts ver bindings s'

/-- What is published: a version for each binding, or one without. -/
def FlagSpec.targets (spec : FlagSpec) : List (Option FlagSpecBinding) :=
  if spec.bindingList = [] then [none] else spec.bindingList.map some

/-- `FlagReconciler.sync`. -/
def syncFlag (protojson : Doc → Except String Value) (k : Kube) (flag : Object FlagSpec) (s : σ) :
    SyncReply × σ :=
  match ensureFlag api protojson flag.spec s with
  | (some f, s1) => ({ err := some f }, s1)
  | (none, s1) =>
    match resolveRollouts k.policies flag with
    | .error err => ({ err := some (.invalid err) }, s1)
    | .ok rollouts => publishEach api flag.spec rollouts 0 flag.spec.targets s1

variable {api} in
/-- **All `ensureFlag` does**: it asks for the flag, and creates it if there is none.  What fails is
    the question, the default, or the creation. -/
theorem ensureFlag_cases {protojson : Doc → Except String Value} {spec : FlagSpec} {s s' : σ}
    {o : Option Failure} (h : ensureFlag api protojson spec s = (o, s')) :
    ∃ s1 r, api.getFlag spec.projectSlug spec.key s = (r, s1) ∧
      ((s' = s1 ∧ (o = none ∨ (∃ e, r = .error e ∧ e.code ≠ some .notFound ∧ o = some (.api e)) ∨
          ∃ text, o = some (.invalid (.defaultValue text)))) ∨
        ∃ call r', api.createFlag call s1 = (r', s') ∧
          (o = none ∨ ∃ e, e.code ≠ some .alreadyExists ∧ o = some (.api e))) := by
  unfold ensureFlag at h
  rcases hget : api.getFlag spec.projectSlug spec.key s with ⟨e | _, s1⟩
  · refine ⟨s1, _, rfl, ?_⟩
    simp only [hget] at h
    split at h
    · rename_i hcode
      obtain ⟨rfl, rfl⟩ := Prod.mk.inj h
      exact .inl ⟨rfl, .inr (.inl ⟨e, rfl, hcode, rfl⟩)⟩
    · rcases hval : rawToValue protojson spec.default.raw with text | v
      · simp only [hval] at h
        obtain ⟨rfl, rfl⟩ := Prod.mk.inj h
        exact .inl ⟨rfl, .inr (.inr ⟨text, rfl⟩)⟩
      · simp only [hval] at h
        split at h
        · rename_i hcall
          obtain ⟨rfl, rfl⟩ := Prod.mk.inj h
          exact .inr ⟨_, _, hcall, .inl rfl⟩
        · rename_i e' _ hcall
          split at h
          · obtain ⟨rfl, rfl⟩ := Prod.mk.inj h
            exact .inr ⟨_, _, hcall, .inl rfl⟩
          · rename_i hcode
            obtain ⟨rfl, rfl⟩ := Prod.mk.inj h
            exact .inr ⟨_, _, hcall, .inr ⟨e', hcode, rfl⟩⟩
  · simp only [hget] at h
    obtain ⟨rfl, rfl⟩ := Prod.mk.inj h
    exact ⟨s1, _, rfl, .inl ⟨rfl, .inl rfl⟩⟩

/-! ## FlagBindingReconciler -/

/-- `FlagBindingSpec`. -/
structure FlagBindingSpec where
  projectSlug : String
  flagKey : String
  environments : List String
  overrides : Option RawExtension := none

/-- `parseOverridesJSON`: what is no object is no override; `null` is one. -/
def parseOverridesJSON : Doc → List (String × RawExtension)
  | .obj ms => (setMembers [] ms).map fun m => (m.1, { raw := some m.2 })
  | _ => []

/-- `decodeOverrides`. -/
def decodeOverrides (fb : FlagBindingSpec) : List (String × RawExtension) :=
  match fb.overrides.bind RawExtension.raw with
  | none => []
  | some raw => parseOverridesJSON raw

/-- What `publishAll` returns. -/
structure PublishAllReply where
  versions : List (String × Int32) := []
  err : Option Failure := none

/-- The binding `publishAll` makes up for an environment. -/
def overrideBinding (fb : FlagBindingSpec) (environment : String) : FlagSpecBinding :=
  { environment, default := (decodeOverrides fb).lookup environment }

/-- The loop of `publishAll`: no policies are passed, and `AlreadyExists` is passed over. -/
def publishEnvironments (fb : FlagBindingSpec) (spec : FlagSpec) :
    List (String × Int32) → List String → σ → PublishAllReply × σ
  | versions, [], s => ({ versions }, s)
  | versions, environment :: environments, s =>
    match buildSource spec (fun _ => none) (some (overrideBinding fb environment)) with
    | .error err => ({ versions, err := some (.invalid err) }, s)
    | .ok source =>
      match api.publishFlagVersion
          { projectSlug := fb.projectSlug, key := fb.flagKey, source } s with
      | (.error err, s') =>
        if err.code ≠ some .alreadyExists then ({ versions, err := some (.api err) }, s')
        else publishEnvironments fb spec versions environments s'
      | (.ok none, s') => publishEnvironments fb spec versions environments s'
      | (.ok (some version), s') =>
        publishEnvironments fb spec (insertMember environment version versions) environments s'

/-- `FlagBindingReconciler.publishAll`. -/
def publishAll (fb : FlagBindingSpec) (spec : FlagSpec) (s : σ) : PublishAllReply × σ :=
  publishEnvironments api fb spec [] fb.environments s

end Sync

/-! ## Policies that are collected -/

section Collect

variable {project : String} {items : List RolloutPolicy}

/-- The policy is the one collected under `name`. -/
def Collects (project : String) (wanted : String → Bool) (name : String) (rp : RolloutPolicy) : Bool :=
  decide (rp.projectSlug = project) && wanted name && decide (rp.name = name)

theorem collectOne_eq (wanted : String → Bool) (out : Rollouts) (rp : RolloutPolicy) (name : String) :
    collectOne project wanted out rp name =
      ([rp].find? (Collects project wanted name)).or (out name) := by
  unfold collectOne Collects
  by_cases hproj : rp.projectSlug = project
  · by_cases hname : name = rp.name
    · subst hname
      by_cases hw : wanted rp.name = true <;> simp [hproj, hw]
    · have hname' : ¬ rp.name = name := fun h => hname h.symm
      by_cases hw : wanted rp.name = true <;> simp [hproj, hw, hname, hname']
  · simp [hproj]

/-- What is found under a name: the last policy of the project, if it is wanted. -/
theorem collect_eq_find (wanted : String → Bool) (name : String) :
    collect project wanted items name = items.reverse.find? (Collects project wanted name) := by
  have hgo : ∀ (items : List RolloutPolicy) (out : Rollouts),
      items.foldl (collectOne project wanted) out name =
        (items.reverse.find? (Collects project wanted name)).or (out name) := by
    intro items
    induction items with
    | nil => exact fun _ => rfl
    | cons rp items ih =>
      intro out
      rw [foldl_cons, ih, collectOne_eq, reverse_cons, find?_append, Option.or_assoc]
  rw [collect, hgo, Option.or_none]

/-- Every policy of the project. -/
def allPolicies (project : String) (items : List RolloutPolicy) : Rollouts :=
  collect project (fun _ => true) items

theorem collect_of_wanted {wanted : String → Bool} {name : String} (h : wanted name = true) :
    collect project wanted items name = allPolicies project items name := by
  rw [allPolicies, collect_eq_find, collect_eq_find]
  unfold Collects
  rw [h]

theorem allPolicies_ne_none {rp : RolloutPolicy} (hmem : rp ∈ items)
    (hproj : rp.projectSlug = project) :
    allPolicies project items rp.name ≠ none := by
  rw [allPolicies, collect_eq_find, Ne, find?_eq_none]
  intro hno
  exact hno rp (mem_reverse.mpr hmem) (by simp [Collects, hproj])

end Collect

/-! ## Policies that are missed -/

/-- The failure is an unknown or missing RolloutPolicy. -/
def Failure.MissingPolicy : Failure → Prop
  | .invalid (.policyNotFound _ _) => True
  | .invalid (.translate (.unknownPolicy _ _)) => True
  | _ => False

/-- The rules a binding sets itself. -/
def FlagSpecBinding.ownRules (b : FlagSpecBinding) : List FlagRule := b.rules.getD []

/-- Every RolloutPolicy that the flag names, in its rules or in those of a binding, is among the
    policies of its namespace, in its project and with a variant. -/
def PoliciesExist (spec : FlagSpec) (items : List RolloutPolicy) : Prop :=
  ∀ name ∈ namedPolicies (spec.ruleList ++ spec.bindingList.flatMap FlagSpecBinding.ownRules),
    ∃ rp ∈ items, rp.projectSlug = spec.projectSlug ∧ rp.name = name ∧ rp.variants ≠ []

/-- The policies that are looked up: those `spec.rules` names. -/
def Resolved (spec : FlagSpec) (items : List RolloutPolicy) (rollouts : Rollouts) : Prop :=
  ∀ name, rollouts name =
    if name ∈ namedPolicies spec.ruleList then allPolicies spec.projectSlug items name else none

theorem mem_namedPolicies {rules : List FlagRule} {r : FlagRule} (hr : r ∈ rules)
    (href : r.rolloutRef ≠ "") : r.rolloutRef ∈ namedPolicies rules := by
  rw [namedPolicies, mem_filter]
  exact ⟨mem_map_of_mem hr, by simpa using href⟩

section Policies

variable {spec : FlagSpec} {items : List RolloutPolicy} {rollouts : Rollouts}

theorem Resolved.partOf (h : Resolved spec items rollouts) :
    PartOf rollouts (allPolicies spec.projectSlug items) := by
  intro name rp hrp
  rw [h name] at hrp
  split at hrp
  · exact hrp
  · nomatch hrp

/-- A policy that `spec.rules` names is there. -/
theorem PoliciesExist.ne_none (h : PoliciesExist spec items) {name : String}
    (hname : name ∈ namedPolicies spec.ruleList) :
    allPolicies spec.projectSlug items name ≠ none := by
  have hmem : name ∈ namedPolicies (spec.ruleList ++ spec.bindingList.flatMap FlagSpecBinding.ownRules) := by
    rw [namedPolicies, map_append, filter_append]
    exact mem_append_left _ hname
  obtain ⟨rp, hrp, hproj, rfl, -⟩ := h name hmem
  exact allPolicies_ne_none hrp hproj

/-- When the named policies exist, looking them up succeeds or the list cannot be read. -/
theorem resolveRollouts_cases {flag : Object FlagSpec} (h : PoliciesExist flag.spec items)
    {policies : Except String (List RolloutPolicy)} (hlist : ∀ xs, policies = .ok xs → xs = items) :
    (∃ text, policies = .error text ∧
        resolveRollouts policies flag = .error (.listPolicies text)) ∨
      ∃ rollouts, resolveRollouts policies flag = .ok rollouts ∧ Resolved flag.spec items rollouts := by
  unfold resolveRollouts
  by_cases hneeded : namedPolicies flag.spec.ruleList = []
  · right
    refine ⟨_, if_pos hneeded, fun name => ?_⟩
    rw [hneeded, if_neg not_mem_nil]
  · rcases policies with text | xs
    · left
      exact ⟨text, rfl, if_neg hneeded⟩
    · right
      obtain rfl := hlist xs rfl
      have hfind : (namedPolicies flag.spec.ruleList).find? (fun name =>
          (collect flag.spec.projectSlug (· ∈ namedPolicies flag.spec.ruleList) xs name).isNone) = none := by
        rw [find?_eq_none]
        intro name hname hnone
        rw [Option.isNone_iff_eq_none, collect_of_wanted (by simpa using hname)] at hnone
        exact h.ne_none hname hnone
      refine ⟨collect flag.spec.projectSlug (· ∈ namedPolicies flag.spec.ruleList) xs, ?_, fun name => ?_⟩
      · simp only [hneeded, if_false, hfind]
      · by_cases hname : name ∈ namedPolicies flag.spec.ruleList
        · rw [if_pos hname, collect_of_wanted (by simpa using hname)]
        · rw [if_neg hname, collect_eq_find, find?_eq_none]
          intro rp _
          simp [Collects, hname]

/-! ### Sources -/

/-- A source misses a policy iff the rules in force do. -/
theorem buildSource_missing_iff {binding : Option FlagSpecBinding} :
    (∃ e, buildSource spec rollouts binding = .error e ∧ (Failure.invalid e).MissingPolicy) ↔
      MissesPolicy rollouts (effectiveRules spec binding) := by
  unfold buildSource irForFlag MissesPolicy
  rcases irForRules rollouts (effectiveRules spec binding) with err | rules
  · cases err <;> simp [Except.map, Failure.MissingPolicy]
  · simp only [Except.map, reduceCtorEq, exists_const, iff_false]
    rintro ⟨e, he, hmiss⟩
    split at he
    · injection he with he
      subst he
      exact hmiss
    · nomatch he

variable {all : Rollouts}

theorem buildSource_mono (hpart : PartOf rollouts all) {binding : Option FlagSpecBinding}
    {source : Context} (h : buildSource spec rollouts binding = .ok source) :
    buildSource spec all binding = .ok source := by
  rcases hrules : irForRules rollouts (effectiveRules spec binding) with err | rules
  · rw [buildSource, irForFlag, hrules] at h
    cases h
  · rw [buildSource, irForFlag, irForRules_mono hpart hrules]
    rw [buildSource, irForFlag, hrules] at h
    exact h

theorem buildSource_or_misses (hpart : PartOf rollouts all) {binding : Option FlagSpecBinding}
    {source : Context} (h : buildSource spec all binding = .ok source) :
    buildSource spec rollouts binding = .ok source ∨
      MissesPolicy rollouts (effectiveRules spec binding) := by
  rcases hrules : irForRules all (effectiveRules spec binding) with err | rules
  · rw [buildSource, irForFlag, hrules] at h
    cases h
  · refine (irForRules_or_misses hpart hrules).imp_left fun hrules' => ?_
    rw [buildSource, irForFlag, hrules']
    rw [buildSource, irForFlag, hrules] at h
    exact h

end Policies

/-! ### Runs -/

/-- An API that grants everything. -/
def FlagsApi.granting : FlagsApi Unit where
  getFlag _ _ _ := (.ok (), ())
  createFlag _ _ := (.ok (), ())
  publishFlagVersion _ _ := (.ok (some 1), ())

section Runs

variable {spec : FlagSpec} {rollouts all : Rollouts}

/-- How the loop over the bindings fails: in a call, or at the first source that is not built. -/
theorem publishEach_err {σ : Type} {api : FlagsApi σ} {f : Failure} :
    ∀ {targets : List (Option FlagSpecBinding)} {ver : Int32} {s : σ},
      (publishEach api spec rollouts ver targets s).1.err = some f →
      (∃ e, f = .api e) ∨ ∃ before t after e, targets = before ++ t :: after ∧
        (∀ t' ∈ before, ∃ source, buildSource spec rollouts t' = .ok source) ∧
        buildSource spec rollouts t = .error e ∧ f = .invalid e
  | [], _, _, h => nomatch h
  | t :: ts, ver, s, h => by
    rw [publishEach] at h
    rcases ht : buildSource spec rollouts t with e | source
    · simp only [publish, ht] at h
      injection h with h
      exact .inr ⟨[], t, ts, e, rfl, nofun, ht, h.symm⟩
    · rcases hcall : api.publishFlagVersion
        { projectSlug := spec.projectSlug, key := spec.key, source } s with ⟨e | v, s'⟩
      · simp only [publish, ht, hcall] at h
        injection h with h
        exact .inl ⟨e, h.symm⟩
      · simp only [publish, ht, hcall] at h
        refine (publishEach_err h).imp_right ?_
        rintro ⟨before, t', after, e, rfl, hbefore, ht', hf⟩
        refine ⟨t :: before, t', after, e, rfl, fun u hu => ?_, ht', hf⟩
        rcases mem_cons.mp hu with rfl | hu
        · exact ⟨source, ht⟩
        · exact hbefore u hu

/-- If more policies would take the loop to a binding that misses one of the fewer, it fails for
    want of a policy. -/
theorem publishEach_misses (hpart : PartOf rollouts all) {t : Option FlagSpecBinding}
    {after : List (Option FlagSpecBinding)} (ht : MissesPolicy rollouts (effectiveRules spec t)) :
    ∀ {before : List (Option FlagSpecBinding)} {ver : Int32},
      (∀ t' ∈ before, ∃ source, buildSource spec all t' = .ok source) →
      ∃ f, (publishEach .granting spec rollouts ver (before ++ t :: after) ()).1.err = some f ∧
        f.MissingPolicy
  | [], ver, _ => by
    obtain ⟨e, he, hmiss⟩ := buildSource_missing_iff.mpr ht
    refine ⟨.invalid e, ?_, hmiss⟩
    rw [nil_append, publishEach, publish, he]
  | t' :: before, ver, hbefore => by
    obtain ⟨source, hsource⟩ := hbefore t' mem_cons_self
    rcases buildSource_or_misses hpart hsource with hok | hmiss
    · rw [cons_append, publishEach, publish, hok]
      exact publishEach_misses hpart ht fun u hu => hbefore u (mem_cons_of_mem _ hu)
    · obtain ⟨e, he, hmiss⟩ := buildSource_missing_iff.mpr hmiss
      refine ⟨.invalid e, ?_, hmiss⟩
      rw [cons_append, publishEach, publish, he]

/-- How `publishAll` fails: in a call, or for want of a source. -/
theorem publishEnvironments_err {σ : Type} {api : FlagsApi σ} {fb : FlagBindingSpec} {f : Failure} :
    ∀ {envs : List String} {versions : List (String × Int32)} {s : σ},
      (publishEnvironments api fb spec versions envs s).1.err = some f →
      (∃ e, f = .api e) ∨ (∃ e ∈ envs, ∃ err,
        buildSource spec (fun _ => none) (some (overrideBinding fb e)) = .error err ∧
          f = .invalid err)
  | [], _, _, h => nomatch h
  | e :: envs, versions, s, h => by
    have hrest : ∀ {versions : List (String × Int32)} {s : σ},
        (publishEnvironments api fb spec versions envs s).1.err = some f →
        (∃ e, f = .api e) ∨ (∃ e' ∈ e :: envs, ∃ err,
          buildSource spec (fun _ => none) (some (overrideBinding fb e')) = .error err ∧
            f = .invalid err) := fun h =>
      (publishEnvironments_err h).imp_right fun ⟨e', he', hf⟩ => ⟨e', mem_cons_of_mem _ he', hf⟩
    rw [publishEnvironments] at h
    rcases hb : buildSource spec (fun _ => none) (some (overrideBinding fb e)) with err | source
    · simp only [hb] at h
      injection h with h
      exact .inr ⟨e, mem_cons_self, err, hb, h.symm⟩
    · simp only [hb] at h
      rcases hcall : api.publishFlagVersion
        { projectSlug := fb.projectSlug, key := fb.flagKey, source } s with ⟨err | _ | v, s'⟩
      · simp only [hcall] at h
        by_cases hcode : err.code = some .alreadyExists
        · simp only [hcode, ne_eq, not_true_eq_false, if_false] at h
          exact hrest h
        · simp only [hcode, ne_eq, not_false_eq_true, if_true] at h
          injection h with h
          exact .inl ⟨err, h.symm⟩
      · simp only [hcall] at h
        exact hrest h
      · simp only [hcall] at h
        exact hrest h

end Runs

/-! ## When no policy is missed -/

/-- Every rule that a binding sets itself and that the translation gets to, names a policy that
    `spec.rules` names too. -/
def BindingsCovered (spec : FlagSpec) (items : List RolloutPolicy) : Prop :=
  ∀ before b after, spec.bindingList = before ++ b :: after →
    (∀ b' ∈ before, ∃ source,
      buildSource spec (allPolicies spec.projectSlug items) (some b') = .ok source) →
    ∀ r, Reaches (allPolicies spec.projectSlug items) b.ownRules r → r.rolloutRef ≠ "" →
      r.rolloutRef ∈ namedPolicies spec.ruleList

/-- The FlagBinding has no environment, or gets to no rule of the flag that names a policy. -/
def NoPolicyReached (fb : FlagBindingSpec) (spec : FlagSpec) (items : List RolloutPolicy) : Prop :=
  fb.environments ≠ [] →
    ∀ r, Reaches (allPolicies spec.projectSlug items) spec.ruleList r → r.rolloutRef = ""

section Resolution

variable {flag : Object FlagSpec} {fb : FlagBindingSpec} {items : List RolloutPolicy}

theorem Reaches.mem {rollouts : Rollouts} {rules : List FlagRule} {r : FlagRule}
    (h : Reaches rollouts rules r) : r ∈ rules := by
  obtain ⟨before, after, rfl, -⟩ := h
  exact mem_append_right _ mem_cons_self

/-- With the policies that are looked up, a binding that is covered misses none. -/
theorem not_misses_of_covered {rollouts : Rollouts} (hexist : PoliciesExist flag.spec items)
    (hresolved : Resolved flag.spec items rollouts) (hcovered : BindingsCovered flag.spec items)
    {before : List (Option FlagSpecBinding)} {t : Option FlagSpecBinding}
    {after : List (Option FlagSpecBinding)} (htargets : flag.spec.targets = before ++ t :: after)
    (hbefore : ∀ t' ∈ before, ∃ source, buildSource flag.spec rollouts t' = .ok source) :
    ¬ MissesPolicy rollouts (effectiveRules flag.spec t) := by
  intro hmiss
  obtain ⟨r, hreach, href, hnone⟩ := irForRules_unknown_iff.mp hmiss
  -- whatever rules are in force, `spec.rules` names the policy
  have hname : r.rolloutRef ∈ namedPolicies flag.spec.ruleList := by
    rcases hown : t.bind FlagSpecBinding.rules with _ | rules
    · rw [effectiveRules, hown] at hreach
      exact mem_namedPolicies hreach.mem href
    · obtain ⟨b, rfl, hb⟩ := Option.bind_eq_some_iff.mp hown
      rw [effectiveRules, hown] at hreach
      have hne : flag.spec.bindingList ≠ [] := by
        intro hnil
        rw [FlagSpec.targets, if_pos hnil] at htargets
        have hmem : some b ∈ [none] := htargets ▸ mem_append_right _ mem_cons_self
        cases mem_singleton.mp hmem
      rw [FlagSpec.targets, if_neg hne] at htargets
      obtain ⟨bs, rest, hsplit, rfl, hrest⟩ := map_eq_append_iff.mp htargets
      obtain ⟨b', bs', rfl, hb', rfl⟩ := map_eq_cons_iff.mp hrest
      obtain rfl := Option.some.inj hb'
      refine hcovered bs b' bs' hsplit (fun u hu => ?_) r ?_ href
      · obtain ⟨source, hsource⟩ := hbefore (some u) (mem_map_of_mem hu)
        exact ⟨source, buildSource_mono hresolved.partOf hsource⟩
      · rw [FlagSpecBinding.ownRules, hb]
        exact hreach.mono hresolved.partOf
  rw [hresolved, if_pos hname] at hnone
  exact hexist.ne_none hname hnone

/-- `sync` misses no policy if the bindings are covered. -/
theorem syncFlag_resolved {σ : Type} {api : FlagsApi σ} {protojson : Doc → Except String Value}
    {k : Kube} {s : σ} {f : Failure} (hexist : PoliciesExist flag.spec items)
    (hcovered : BindingsCovered flag.spec items) (hlist : ∀ xs, k.policies = .ok xs → xs = items)
    (h : (syncFlag api protojson k flag s).1.err = some f) : ¬ f.MissingPolicy := by
  rw [syncFlag] at h
  rcases hensure : ensureFlag api protojson flag.spec s with ⟨_ | g, s1⟩
  · rw [hensure] at h
    simp only at h
    rcases resolveRollouts_cases hexist hlist with ⟨text, -, hres⟩ | ⟨rollouts, hres, hresolved⟩
    · rw [hres] at h
      injection h with h
      exact h ▸ id
    · rw [hres] at h
      rcases publishEach_err h with ⟨e, rfl⟩ | ⟨before, t, after, e, htargets, hbefore, ht, rfl⟩
      · exact id
      · intro hmiss
        exact not_misses_of_covered hexist hresolved hcovered htargets hbefore
          (buildSource_missing_iff.mp ⟨e, ht, hmiss⟩)
  · rw [hensure] at h
    injection h with h
    subst h
    obtain ⟨s2, r, -, ⟨-, hf⟩ | ⟨call, r', -, hf⟩⟩ := ensureFlag_cases hensure
    · rcases hf with hf | ⟨e, -, -, hf⟩ | ⟨text, hf⟩
      · nomatch hf
      · exact Option.some.inj hf ▸ id
      · exact Option.some.inj hf ▸ id
    · rcases hf with hf | ⟨e, -, hf⟩
      · nomatch hf
      · exact Option.some.inj hf ▸ id

/-- `publishAll` passes no policies, so it misses one as soon as a rule that it gets to names it. -/
theorem publishAll_resolved {σ : Type} {api : FlagsApi σ} {s : σ} {f : Failure}
    (hnone : NoPolicyReached fb flag.spec items)
    (h : (publishAll api fb flag.spec s).1.err = some f) : ¬ f.MissingPolicy := by
  rcases publishEnvironments_err h with ⟨e, rfl⟩ | ⟨e, he, err, hsource, rfl⟩
  · exact id
  · intro hmiss
    obtain ⟨r, hreach, href, -⟩ :=
      irForRules_unknown_iff.mp (buildSource_missing_iff.mp ⟨err, hsource, hmiss⟩)
    have hpart : PartOf (fun _ => none) (allPolicies flag.spec.projectSlug items) := nofun
    exact href (hnone (ne_nil_of_mem he) r (hreach.mono hpart))

/-- With the policies that are looked up, a binding misses the policy of a rule that it gets to and
    that `spec.rules` does not name. -/
theorem misses_of_not_named {rollouts : Rollouts} (hresolved : Resolved flag.spec items rollouts)
    {b : FlagSpecBinding} {r : FlagRule}
    (hreach : Reaches (allPolicies flag.spec.projectSlug items) b.ownRules r)
    (href : r.rolloutRef ≠ "") (hname : r.rolloutRef ∉ namedPolicies flag.spec.ruleList) :
    MissesPolicy rollouts (effectiveRules flag.spec (some b)) := by
  have heff : effectiveRules flag.spec (some b) = b.ownRules := by
    rcases hb : b.rules with _ | rules
    · have hmem := hreach.mem
      rw [FlagSpecBinding.ownRules, hb] at hmem
      exact absurd hmem not_mem_nil
    · rw [effectiveRules, Option.bind_some, FlagSpecBinding.ownRules, hb]
      rfl
  rw [heff]
  exact hreach.misses hresolved.partOf href (by rw [hresolved, if_neg hname])

/-- If `sync` never misses a policy, the bindings are covered: an API that grants everything lets it
    get to each of them. -/
theorem covered_of_syncFlag (hexist : PoliciesExist flag.spec items)
    (hsync : ∀ f, (syncFlag .granting (fun _ => .ok .null) { policies := .ok items } flag ()).1.err =
      some f → ¬ f.MissingPolicy) : BindingsCovered flag.spec items := by
  intro before b after hsplit hbefore r hreach href
  by_contra hname
  rcases @resolveRollouts_cases items flag hexist (.ok items) (fun xs h => (Except.ok.inj h).symm)
    with ⟨_, hno, -⟩ | ⟨rollouts, hres, hresolved⟩
  · nomatch hno
  have htargets : flag.spec.targets = before.map some ++ some b :: after.map some := by
    rw [FlagSpec.targets, if_neg (by rw [hsplit]; simp), hsplit, map_append, map_cons]
  have hsources : ∀ t ∈ before.map some, ∃ source,
      buildSource flag.spec (allPolicies flag.spec.projectSlug items) t = .ok source := by
    intro t ht
    obtain ⟨b', hb', rfl⟩ := mem_map.mp ht
    exact hbefore b' hb'
  obtain ⟨f, hf, hmiss⟩ := @publishEach_misses flag.spec rollouts _ hresolved.partOf (some b)
    (after.map some) (misses_of_not_named hresolved hreach href hname) (before.map some) 0 hsources
  refine hsync f ?_ hmiss
  show (match resolveRollouts (.ok items) flag with
    | .error err => (({ err := some (.invalid err) } : SyncReply), ())
    | .ok rollouts => publishEach .granting flag.spec rollouts 0 flag.spec.targets ()).1.err = some f
  rw [hres, htargets]
  exact hf

/-- If `publishAll` never misses a policy, it gets to no rule that names one. -/
theorem noPolicyReached_of_publishAll
    (hall : ∀ f, (publishAll .granting fb flag.spec ()).1.err = some f → ¬ f.MissingPolicy) :
    NoPolicyReached fb flag.spec items := by
  intro henvs r hreach
  by_contra href
  obtain ⟨e, envs, henv⟩ := exists_cons_of_ne_nil henvs
  have hpart : PartOf (fun _ => none) (allPolicies flag.spec.projectSlug items) := nofun
  have hmisses : MissesPolicy (fun _ => none)
      (effectiveRules flag.spec (some (overrideBinding fb e))) := hreach.misses hpart href rfl
  obtain ⟨err, herr, hmiss⟩ := buildSource_missing_iff.mpr hmisses
  refine hall (.invalid err) ?_ hmiss
  rw [publishAll, henv, publishEnvironments, herr]

end Resolution

/-- **When no policy is missed.**  Suppose every RolloutPolicy that a flag names exists.  Then,
    whatever the API answers, neither `sync` nor the `publishAll` of a FlagBinding fails for an
    unknown or missing policy EXACTLY when the bindings are covered by `spec.rules` and the
    FlagBinding gets to no rule that names a policy. -/
theorem policies_resolved_iff (flag : Object FlagSpec) (fb : FlagBindingSpec)
    (items : List RolloutPolicy) (hexist : PoliciesExist flag.spec items) :
    ((∀ (σ : Type) (api : FlagsApi σ) (protojson : Doc → Except String Value) (k : Kube) (s : σ),
        (∀ xs, k.policies = .ok xs → xs = items) →
        ∀ f, (syncFlag api protojson k flag s).1.err = some f → ¬ f.MissingPolicy) ∧
      ∀ (σ : Type) (api : FlagsApi σ) (s : σ),
        ∀ f, (publishAll api fb flag.spec s).1.err = some f → ¬ f.MissingPolicy) ↔
      BindingsCovered flag.spec items ∧ NoPolicyReached fb flag.spec items := by
  constructor
  · rintro ⟨hsync, hall⟩
    refine ⟨covered_of_syncFlag hexist fun f hf => ?_, noPolicyReached_of_publishAll (hall _ _ _)⟩
    exact hsync _ _ _ _ _ (fun xs h => (Except.ok.inj h).symm) f hf
  · rintro ⟨hcovered, hnone⟩
    exact ⟨fun σ api protojson k s hlist f hf => syncFlag_resolved hexist hcovered hlist hf,
      fun σ api s f hf => publishAll_resolved hnone hf⟩

/-! ### A policy that only a binding names -/

/-- A rule that serves the heaviest variant of `half` to everyone. -/
def halfRule : FlagRule where
  id := "r1"
  when := { raw := some (.obj [("kind", .str "always")]) }
  rolloutRef := "half"

/-- The policy `half`. -/
def halfPolicy : RolloutPolicy where
  projectSlug := "demo"
  name := "half"
  variants := [{ id := "on", weight := 50, value := { raw := some (.bool true) } }]

/-- A flag that uses `half` in its own rules if `own`, and in `prod`. -/
def halfFlag (own : Bool) : Object FlagSpec where
  metadata := { ns := "default", generation := 1, deletionTimestamp := none
                finalizers := [flagReconciler.finalizer] }
  spec := { projectSlug := "demo", key := "beta", name := "Beta", valueType := "boolean"
            default := { raw := some (.bool false) }
            rules := if own then some [halfRule] else none
            bindings := some [{ environment := "prod", rules := some [halfRule] }] }
  status := {}

/-- A FlagBinding for `prod`. -/
def prodBinding : FlagBindingSpec where
  projectSlug := "demo"
  flagKey := "beta"
  environments := ["prod"]

theorem policiesExist_half (own : Bool) : PoliciesExist (halfFlag own).spec [halfPolicy] := by
  intro name hname
  have hhalf : name = "half" := by
    cases own <;> simp [namedPolicies, halfFlag, FlagSpec.ruleList, FlagSpec.bindingList,
      FlagSpecBinding.ownRules, halfRule] at hname <;> exact hname
  exact ⟨halfPolicy, mem_singleton_self _, rfl, hhalf.symm, cons_ne_nil _ _⟩

/-- The policy exists, and yet: `sync` does not find it when only the binding names it, and
    `publishAll` does not find it when the flag's own rules do. -/
theorem existing_policy_missed :
    (PoliciesExist (halfFlag false).spec [halfPolicy] ∧
      (syncFlag .granting (fun _ => .ok .null) { policies := .ok [halfPolicy] } (halfFlag false) ()).1.err
        = some (.invalid (.translate (.unknownPolicy "r1" "half")))) ∧
    PoliciesExist (halfFlag true).spec [halfPolicy] ∧
      (publishAll .granting prodBinding (halfFlag true).spec ()).1.err =
        some (.invalid (.translate (.unknownPolicy "r1" "half"))) :=
  ⟨⟨policiesExist_half false, rfl⟩, policiesExist_half true, rfl⟩

/-- When the flag's own rules name the policy too, `sync` finds it for `prod`. -/
theorem named_policy_found :
    PoliciesExist (halfFlag true).spec [halfPolicy] ∧
      ¬ ∃ f, (syncFlag .granting (fun _ => .ok .null) { policies := .ok [halfPolicy] }
        (halfFlag true) ()).1.err = some f ∧ f.MissingPolicy := by
  have hcovered : BindingsCovered (halfFlag true).spec [halfPolicy] := by
    intro before b after hsplit _ r hreach _
    have hb : b ∈ (halfFlag true).spec.bindingList :=
      hsplit ▸ mem_append_right _ mem_cons_self
    rw [mem_singleton.mp hb] at hreach
    rw [mem_singleton.mp (show r ∈ [halfRule] from hreach.mem)]
    decide
  refine ⟨policiesExist_half true, ?_⟩
  rintro ⟨f, hf, hmiss⟩
  exact ((policies_resolved_iff (halfFlag true) { prodBinding with environments := [] } [halfPolicy]
    (policiesExist_half true)).mpr ⟨hcovered, fun hne => absurd rfl hne⟩).1 _ _ _ _ _
    (fun xs h => (Except.ok.inj h).symm) f hf hmiss

end FalseFlag.Operator
