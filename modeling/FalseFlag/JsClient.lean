/-
  The snapshot client of the JavaScript SDK (js/packages/sdk-js/src/client.ts), and what its
  `compile` and `evaluate` throw.

  `pollSnapshot` compiles the flags of a body one after the other and installs the snapshot at the
  end.  An exception on the way leaves the function, so ONE flag that does not compile keeps all
  the others from being installed (`poll_serves_iff`).

  Flags that do not compile are not far away: Go writes a missing `rules` as `null`, and `compile`
  reads `ir.rules.map` (`published_runs_iff`).  `evaluate` itself never throws (`runRules_eq_ok`).
-/
import FalseFlag.CelLite
import FalseFlag.JsParity
import FalseFlag.Publish
import FalseFlag.SdkGo

namespace FalseFlag

open List JsonTree Json Fallible Ecma

/-! ## pollSnapshot -/

/-- What `createClient` is given, as far as the snapshot needs it. -/
structure ClientOptions where
  baseUrl : String
  projectSlug : String

/-- The `url` of `pollSnapshot`. -/
def ClientOptions.snapshotUrl (opts : ClientOptions) : String :=
  opts.baseUrl ++ "/v1/projects/" ++ opts.projectSlug ++ "/snapshots/latest"

/-- The answer to a request: the first 512 bytes of the body as they came, and the document they
    begin, `none` if the body is not JSON. -/
structure FetchResponse where
  status : Nat
  head : String
  body : Option Doc

/-- `resp.ok`. -/
def FetchResponse.ok (resp : FetchResponse) : Bool := 200 ≤ resp.status && resp.status ≤ 299

/-- `SnapshotInfo`; a property the body does not have is `undefined`. -/
structure SnapshotInfo where
  id : Option (Json ℚ)
  version : Option (Json ℚ)
  createdAt : Option (Json ℚ)
  flags : List (String × JsCompiled)

/-- The members of a parsed object, in order; `JSON.parse` keeps the last of a name. -/
def ownEntries (ms : List (String × Doc)) : List (String × Doc) :=
  ownOrder (ms.foldl (fun acc m => setOwn m.1 m.2 acc) [])

/-- `Object.entries(flags ?? {})`. -/
def flagEntries : Option Doc → List (String × Doc)
  | some (.obj ms) => ownEntries ms
  | some (.arr items) => items.mapIdx fun i d => (toString i, d)
  | some (.str s) => s.toList.mapIdx fun i c => (toString i, .str c.toString)
  | _ => []

/-- `body.compiled.flags`; reading a property of `undefined` or `null` throws. -/
def bodyFlags (body : Doc) : Except String (Option Doc) :=
  match property "compiled" body with
  | none | some .null => .error "TypeError"
  | some compiled => .ok (property "flags" compiled)

section Poll

variable (opts : ClientOptions) (compile : Doc → Except String JsCompiled)

/-- The loop of `pollSnapshot`. -/
def compileEntries (flags : List (String × JsCompiled)) :
    List (String × Doc) → Except String (List (String × JsCompiled))
  | [] => .ok flags
  | (key, ir) :: entries => do
    let compiled ← compile ir
    compileEntries (setOwn key compiled flags) entries

/-- The snapshot of a body. -/
def bodySnapshot (body : Doc) : Except String SnapshotInfo := do
  let flags ← bodyFlags body
  let flags ← compileEntries compile [] (flagEntries flags)
  return {
    id := (property "id" body).map parseDoc
    version := (property "version" body).map parseDoc
    createdAt := (property "created_at" body).map parseDoc
    flags }

/-- `pollSnapshot`: the snapshot afterwards, or what it throws.  The `compile` of evaluator.ts is a
    parameter. -/
def pollSnapshot (snapshot : Option SnapshotInfo) :
    Except String FetchResponse → Except String (Option SnapshotInfo)
  | .error e => .error e
  | .ok resp =>
    if resp.status = 404 then .ok snapshot
    else if ¬ resp.ok then
      .error ("FalseFlag SDK: fetch " ++ opts.snapshotUrl ++ " → " ++ toString resp.status)
    else
      match resp.body with
      | none => .error "SyntaxError"
      | some body => (bodySnapshot compile body).map some

/-- The variable `snapshot` after a poll: an exception is caught by the caller, and changes
    nothing. -/
def afterPoll (snapshot : Option SnapshotInfo) (fetched : Except String FetchResponse) :
    Option SnapshotInfo :=
  match pollSnapshot opts compile snapshot fetched with
  | .ok snapshot' => snapshot'
  | .error _ => snapshot

/-- The current snapshot is that of the body, and has the flag. -/
def ServedFrom (snapshot : Option SnapshotInfo) (body : Doc) (key : String) (c : JsCompiled) : Prop :=
  ∃ s, snapshot = some s ∧ s.id = (property "id" body).map parseDoc ∧
    s.version = (property "version" body).map parseDoc ∧
    s.createdAt = (property "created_at" body).map parseDoc ∧ s.flags.lookup key = some c

variable {compile}

/-- The loop gets to its end iff every entry compiles. -/
theorem compileEntries_isOk_iff : ∀ {entries : List (String × Doc)}
    {flags : List (String × JsCompiled)},
    (∃ flags', compileEntries compile flags entries = .ok flags') ↔
      ∀ e ∈ entries, ∃ c, compile e.2 = .ok c
  | [], flags => ⟨fun _ e he => absurd he not_mem_nil, fun _ => ⟨flags, rfl⟩⟩
  | (key, ir) :: entries, flags => by
    rw [compileEntries, forall_mem_cons]
    constructor
    · rintro ⟨flags', h⟩
      obtain ⟨c, hc, h⟩ := bind_eq_ok.mp h
      exact ⟨⟨c, hc⟩, compileEntries_isOk_iff.mp ⟨flags', h⟩⟩
    · rintro ⟨⟨c, hc⟩, h⟩
      obtain ⟨flags', h⟩ := (@compileEntries_isOk_iff entries (setOwn key c flags)).mpr h
      exact ⟨flags', bind_eq_ok.mpr ⟨c, hc, h⟩⟩

/-- What the loop leaves: the flags of the entries, and the others as they were. -/
theorem lookup_compileEntries {key : String} : ∀ {entries : List (String × Doc)}
    {flags flags' : List (String × JsCompiled)}, (entries.map Prod.fst).Nodup →
    compileEntries compile flags entries = .ok flags' →
    (∀ ir c, entries.lookup key = some ir → compile ir = .ok c → flags'.lookup key = some c) ∧
      (key ∉ entries.map Prod.fst → flags'.lookup key = flags.lookup key)
  | [], flags, flags', _, h => by
    injection h with h
    subst h
    exact ⟨fun _ _ h => (nomatch h), fun _ => rfl⟩
  | (k, d) :: entries, flags, flags', hnodup, h => by
    obtain ⟨hk, hnodup⟩ := nodup_cons.mp hnodup
    rw [compileEntries] at h
    obtain ⟨c0, hc0, h⟩ := bind_eq_ok.mp h
    obtain ⟨hin, hout⟩ := lookup_compileEntries hnodup h
    constructor
    · intro ir c hir hc
      by_cases hkey : key = k
      · -- the first entry, which no later one overwrites
        subst hkey
        rw [lookup_cons_self] at hir
        injection hir with hir
        subst hir
        rw [hc0] at hc
        injection hc with hc
        rw [hout hk, lookup_setOwn, if_pos rfl, hc]
      · rw [lookup_cons, beq_eq_false_iff_ne.mpr hkey] at hir
        exact hin ir c hir hc
    · intro hkey
      obtain ⟨hne, hrest⟩ := not_or.mp (fun h => hkey (mem_cons.mpr h))
      rw [hout hrest, lookup_setOwn, if_neg hne]

end Poll

theorem nodup_ownEntries (ms : List (String × Doc)) : ((ownEntries ms).map Prod.fst).Nodup := by
  have hfold : ∀ (ms acc : List (String × Doc)), (acc.map Prod.fst).Nodup →
      ((ms.foldl (fun acc m => setOwn m.1 m.2 acc) acc).map Prod.fst).Nodup := by
    intro ms
    induction ms with
    | nil => exact fun acc h => h
    | cons m ms ih => exact fun acc h => ih _ (nodup_setOwn h)
  exact ((perm_ownOrder _).map Prod.fst).nodup_iff.mpr (hfold ms [] nodup_nil)

section Serves

variable {opts : ClientOptions} {compile : Doc → Except String JsCompiled}

/-- A poll of a body is the snapshot of the body, or changes nothing. -/
theorem afterPoll_body {resp : FetchResponse} {body : Doc} (hok : resp.ok = true)
    (hbody : resp.body = some body) (prior : Option SnapshotInfo) :
    afterPoll opts compile prior (.ok resp) =
      match bodySnapshot compile body with
      | .ok s => some s
      | .error _ => prior := by
  have hstatus : resp.status ≠ 404 := by
    intro h
    rw [FetchResponse.ok, h] at hok
    nomatch hok
  rw [afterPoll, pollSnapshot, if_neg hstatus, if_neg (not_not_intro hok), hbody]
  rcases hsnap : bodySnapshot compile body with e | s
  · simp only [hsnap]
    rfl
  · simp only [hsnap]
    rfl

/-- The snapshot of a body that has flags. -/
theorem bodySnapshot_eq_ok {body : Doc} {ms : List (String × Doc)} {s : SnapshotInfo}
    (hflags : bodyFlags body = .ok (some (.obj ms))) :
    bodySnapshot compile body = .ok s ↔
      compileEntries compile [] (ownEntries ms) = .ok s.flags ∧
        s.id = (property "id" body).map parseDoc ∧
        s.version = (property "version" body).map parseDoc ∧
        s.createdAt = (property "created_at" body).map parseDoc := by
  constructor
  · intro h
    obtain ⟨_, hobj, h⟩ := bind_eq_ok.mp h
    rw [hflags] at hobj
    injection hobj with hobj
    subst hobj
    obtain ⟨flags, hentries, h⟩ := bind_eq_ok.mp h
    injection h with h
    subst h
    exact ⟨hentries, rfl, rfl, rfl⟩
  · rintro ⟨hentries, hid, hversion, hcreated⟩
    refine bind_eq_ok.mpr ⟨_, hflags, bind_eq_ok.mpr ⟨s.flags, hentries, ?_⟩⟩
    rw [← hid, ← hversion, ← hcreated]
    rfl

/-- **When one flag does not get in the way of the others**: a poll serves every flag that compiles
    from the body, whatever was held before, iff all flags of the body compile, or none. -/
theorem poll_serves_iff (opts : ClientOptions) (compile : Doc → Except String JsCompiled)
    (resp : FetchResponse) (body : Doc) (ms : List (String × Doc)) (hok : resp.ok = true)
    (hbody : resp.body = some body) (hflags : bodyFlags body = .ok (some (.obj ms))) :
    (∀ prior key ir c, (ownEntries ms).lookup key = some ir → compile ir = .ok c →
      ServedFrom (afterPoll opts compile prior (.ok resp)) body key c) ↔
    (∀ e ∈ ownEntries ms, ∃ c, compile e.2 = .ok c) ∨
      ∀ e ∈ ownEntries ms, ∀ c, compile e.2 ≠ .ok c := by
  constructor
  · intro h
    by_cases hnone : ∀ e ∈ ownEntries ms, ∀ c, compile e.2 ≠ .ok c
    · exact .inr hnone
    · -- a flag that compiles is served although nothing was held: the loop got to its end
      push Not at hnone
      obtain ⟨⟨key, ir⟩, he, c, hc⟩ := hnone
      obtain ⟨s, hs, -⟩ := h none key ir c (lookup_of_mem (nodup_ownEntries ms) he) hc
      rw [afterPoll_body hok hbody] at hs
      rcases hsnap : bodySnapshot compile body with e | s'
      · rw [hsnap] at hs
        nomatch hs
      · exact .inl (compileEntries_isOk_iff.mp ⟨_, ((bodySnapshot_eq_ok hflags).mp hsnap).1⟩)
  · rintro (hall | hnone) prior key ir c hir hc
    · obtain ⟨flags, hentries⟩ := (@compileEntries_isOk_iff compile _ []).mpr hall
      have hsnap := (@bodySnapshot_eq_ok compile body ms ⟨_, _, _, flags⟩ hflags).mpr
        ⟨hentries, rfl, rfl, rfl⟩
      rw [afterPoll_body hok hbody, hsnap]
      exact ⟨_, rfl, rfl, rfl, rfl,
        (lookup_compileEntries (nodup_ownEntries ms) hentries).1 ir c hir hc⟩
    · exact absurd hc (hnone (key, ir) (mem_of_lookup hir) c)

end Serves

/-- `compile` of evaluator.ts on a document. -/
def compileDoc (js : JsEnv) (ir : Doc) : Except String JsCompiled := jsCompile js (readTree ir)

/-- A flag that serves `true`. -/
def plainFlag : Doc :=
  .obj [("value_type", .str "boolean"), ("default", .bool true), ("rules", .arr [])]

/-- The same flag without rules, as Go writes it. -/
def nullRulesFlag : Doc :=
  .obj [("value_type", .str "boolean"), ("default", .bool true), ("rules", .null)]

def mixedFlags : List (String × Doc) := [("bare", nullRulesFlag), ("plain", plainFlag)]

def mixedBody : Doc :=
  .obj [("id", .str "s2"), ("version", .num (.int 2)), ("created_at", .str "2026-01-01T00:00:00Z"),
    ("compiled", .obj [("flags", .obj mixedFlags)])]

/-- `plain` compiles and is not served: there is no snapshot after the poll. -/
theorem mixed_body_dropped : ∃ c, bodyFlags mixedBody = .ok (some (.obj mixedFlags)) ∧
    (ownEntries mixedFlags).lookup "plain" = some plainFlag ∧
    compileDoc .plain plainFlag = .ok c ∧
    afterPoll ⟨"http://localhost", "demo"⟩ (compileDoc .plain) none (.ok ⟨200, "", some mixedBody⟩) =
      none :=
  ⟨_, rfl, by decide +kernel, rfl, rfl⟩

/-- A flag with a rule. -/
def ruledFlag : Doc :=
  .obj [("value_type", .str "boolean"), ("default", .bool true),
    ("rules", .arr [.obj [("id", .str "r1"), ("when", .obj [("kind", .str "always")]),
      ("value", .bool false)]])]

def plainFlags : List (String × Doc) := [("plain", plainFlag), ("ruled", ruledFlag)]

def plainBody : Doc :=
  .obj [("id", .str "s3"), ("version", .num (.int 3)), ("created_at", .str "2026-01-02T00:00:00Z"),
    ("compiled", .obj [("flags", .obj plainFlags)])]

/-- Next to a flag that compiles it is served. -/
theorem plain_body_served : ∃ c, compileDoc .plain plainFlag = .ok c ∧
    ServedFrom (afterPoll ⟨"http://localhost", "demo"⟩ (compileDoc .plain) none
      (.ok ⟨200, "", some plainBody⟩)) plainBody "plain" c := by
  refine ⟨_, rfl, (poll_serves_iff _ _ ⟨200, "", some plainBody⟩ _ plainFlags rfl rfl
    rfl).mpr (.inl ?_) none "plain" plainFlag _ (by decide +kernel) rfl⟩
  exact forall_mem_cons.mpr ⟨⟨_, rfl⟩, forall_mem_singleton.mpr ⟨_, rfl⟩⟩

/-! ## What evaluate can throw -/

/-- `reasonForRule` reads `p.kind`, outside of the `try`. -/
def reasonOrThrow : Option JsPredicate → Except String Reason
  | none => .error "TypeError"
  | some p => .ok (jsReasonForRule (some p))

section Throws

variable (env : Env) (js : JsEnv) (c : JsCompiled) (ctx : Ecma.Value) (version : Int)

/-- The loop of `evaluate`, with what it throws. -/
def runRules : List JsRule → Except String JsDecision
  | [] => .ok { value := c.ir.default, reason := .default, ruleId := none, version }
  | rule :: rules =>
    match jsMatchPtr (jsLeaf env js c.celPrograms ctx) rule.when with
    | .error _ => .ok { value := c.ir.default, reason := .error, ruleId := some rule.id, version }
    | .ok false => runRules rules
    | .ok true =>
      if jsValueMatchesType rule.value c.ir.valueType then
        (reasonOrThrow rule.when).map fun reason =>
          { value := rule.value, reason, ruleId := some rule.id, version }
      else .ok { value := c.ir.default, reason := .typeMismatch, ruleId := some rule.id, version }

/-- A rule that matched has a predicate, so `evaluate` throws nothing. -/
theorem runRules_eq_ok : ∀ rules : List JsRule,
    runRules env js c ctx version rules = .ok (jsEvaluateRules env js c ctx version rules)
  | [] => rfl
  | rule :: rules => by
    rw [runRules, jsEvaluateRules]
    rcases hwhen : rule.when with _ | p
    · rfl
    · rcases jsMatchPtr (jsLeaf env js c.celPrograms ctx) (some p) with e | matched
      · rfl
      · cases matched with
        | false => exact runRules_eq_ok rules
        | true =>
          show (if _ then _ else _) = Except.ok (if _ then _ else _)
          split
          · rfl
          · rfl

end Throws

/-- `evaluate`, with what it throws. -/
def runEvaluate (env : Env) (js : JsEnv) (c : JsCompiled) (ctx : Ecma.Value) (version : Int) :
    Except String JsDecision :=
  runRules env js c ctx version c.rules

/-! ## The IR of the publish path -/

section Published

variable {env : Env} {js : JsEnv}

/-- Resolving segments keeps `rules` missing or present. -/
theorem rules_of_resolveSegments {resolver : SegmentResolver} {fuel : Nat} {t t' : RulesTree}
    (h : resolveSegments env resolver fuel t = some (.ok t')) :
    t'.rules = none ↔ t.rules = none := by
  unfold resolveSegments at h
  rcases hrules : t.rules with _ | rs
  · rw [hrules] at h
    injection h with h
    injection h with h
    rw [← h, hrules]
  · rw [hrules] at h
    obtain ⟨rs', -, h⟩ := Fueled.andThen_eq_ok.mp h
    injection h with h
    injection h with h
    rw [← h]
    exact ⟨fun h => (nomatch h), fun h => (nomatch h)⟩

/-- `compile` throws iff `rules` is missing, or a CEL source below the rules does not compile. -/
theorem jsCompile_isOk_iff (t : RulesTree) :
    (∃ compiled, jsCompile js (readTree (encodeTree t)) = .ok compiled) ↔
      t.rules ≠ none ∧ ∀ r ∈ t.ruleList, ∀ p, r.when = some p → JsCompiles js p := by
  constructor
  · rintro ⟨compiled, h⟩
    obtain ⟨rs, hrs, programs, hprograms, -⟩ := jsCompile_eq_ok.mp h
    refine ⟨hrs ▸ Option.some_ne_none rs, fun r hr p hp s hs => ?_⟩
    rw [RulesTree.ruleList, hrs] at hr
    refine Memo.addAll_iff.mp ⟨programs, hprograms⟩ s (mem_flatMap.mpr ⟨r, hr, ?_⟩)
    rw [hp]
    exact hs
  · rintro ⟨hrules, hsources⟩
    obtain ⟨rs, hrs⟩ := Option.ne_none_iff_exists'.mp hrules
    rw [RulesTree.ruleList, hrs] at hsources
    obtain ⟨programs, hprograms⟩ := (@Memo.addAll_iff _ _ _ _ js.compileCEL _
      (rs.flatMap fun r => jsSourcesPtr (readChild r.when))).mpr (by
        intro s hs
        obtain ⟨r, hr, hs⟩ := mem_flatMap.mp hs
        rcases hwhen : r.when with _ | p
        · rw [hwhen] at hs
          cases hs
        · rw [hwhen] at hs
          exact hsources r hr p hwhen s hs)
    exact ⟨_, jsCompile_eq_ok.mpr ⟨rs, hrs, programs, hprograms, rfl⟩⟩

/-- **When the SDK takes what the publish path persists** under the strategy `json`: when the source
    has `rules`, and cel-lite compiles the CEL sources below the rules.  (Validation lets such
    sources stand in children that a predicate does not use.) -/
theorem published_runs_iff (env : Env) (js : JsEnv) (resolver : SegmentResolver) (fuel : Nat)
    (src : Source) (c : Compiled) (h : publishCompile env resolver fuel .json src = some (.ok c)) :
    (∃ compiled, jsCompile js (readTree (encodeTree c.ir)) = .ok compiled ∧
      ∀ ctx version, ∃ d, runEvaluate env js compiled ctx version = .ok d) ↔
    (∀ t, unmarshalTree src = .ok t → t.rules ≠ none) ∧
      ∀ r ∈ c.ir.ruleList, ∀ p, r.when = some p → JsCompiles js p := by
  have hrules : c.ir.rules ≠ none ↔ ∀ t, unmarshalTree src = .ok t → t.rules ≠ none := by
    obtain ⟨src', hsrc', hcompile⟩ := Fueled.andThen_eq_ok.mp h
    injection hcompile with hcompile
    rcases resolveSegmentRefs_cases hsrc' with ⟨⟨e, he⟩, rfl⟩ | ⟨t, t', ht, hres, rfl⟩
    · -- a source that does not decode is refused
      rcases compile_ir_cases hcompile with hir | ⟨hst, -⟩
      · rw [he] at hir
        nomatch hir
      · nomatch hst
    · rw [compile_encodeTree_ir hcompile, ht]
      have hfill : t'.fill.rules = none ↔ t.rules = none := by
        rw [← rules_of_resolveSegments hres]
        exact Option.map_eq_none_iff
      rw [Ne, hfill]
      refine ⟨fun hne t0 ht0 => ?_, fun hne => hne t rfl⟩
      injection ht0 with ht0
      exact ht0 ▸ hne
  rw [← hrules, ← jsCompile_isOk_iff]
  constructor
  · rintro ⟨compiled, hcompiled, -⟩
    exact ⟨compiled, hcompiled⟩
  · rintro ⟨compiled, hcompiled⟩
    exact ⟨compiled, hcompiled, fun ctx version => ⟨_, runRules_eq_ok env js compiled ctx version _⟩⟩

end Published

/-- The SDK with its cel-lite, whose errors have these texts. -/
def JsEnv.celLite (js : JsEnv) (code : Code ℚ (List UInt16))
    (thrown : CelLite.CompileError → String) : JsEnv :=
  { js with
    compileCEL := fun source =>
      ((CelLite.compileCEL (Strings.ofText source)).mapError thrown).map fun prog ctx =>
        match ctx with
        | .data v => CelLite.evalCEL code prog (replace (fun q => .num (.finite q)) Strings.ofText v)
        | _ => false }

/-- **What cel-lite compiles**: sources that fall into pieces whose tokens the grammar derives. -/
theorem jsCompiles_celLite_iff {js : JsEnv} {code : Code ℚ (List UInt16)}
    {thrown : CelLite.CompileError → String} {p : Predicate} :
    JsCompiles (js.celLite code thrown) p ↔ ∀ s ∈ jsSourcesPtr (readChild (some p)),
      ∃ (ps : List CelLite.Piece) (t : CelLite.Tree .or),
        CelLite.Splits (Strings.ofText s) ps ∧ t.yield = ps.filterMap CelLite.Piece.token := by
  refine forall_congr' fun s => forall_congr' fun _ => ?_
  constructor
  · rintro ⟨_, hprog⟩
    obtain ⟨prog, hprog, -⟩ := map_eq_ok.mp hprog
    obtain ⟨ps, t, hps, hyield, -⟩ := CelLite.compileCEL_eq_ok_iff.mp (mapError_eq_ok.mp hprog)
    exact ⟨ps, t, hps, hyield⟩
  · rintro ⟨ps, t, hps, hyield⟩
    have hprog := CelLite.compileCEL_eq_ok_iff.mpr ⟨ps, t, hps, hyield, rfl⟩
    exact ⟨_, map_eq_ok.mpr ⟨t.value, mapError_eq_ok.mpr hprog, rfl⟩⟩

/-- A flag without rules. -/
def bareFlag : Doc := .obj [("value_type", .str "boolean"), ("default", .bool true)]

/-- It is published with `"rules": null`, which `compile` does not take. -/
theorem bare_flag_throws : ∃ c,
    publishCompile .plain (storeSegmentResolver .plain nestedTable 1) 1 .json (.json bareFlag) =
      some (.ok c) ∧
    jsCompile .plain (readTree (encodeTree c.ir)) = .error "TypeError" :=
  ⟨_, rfl, rfl⟩

/-- With an empty list of rules, the flag runs. -/
theorem empty_rules_run : ∃ c,
    publishCompile .plain (storeSegmentResolver .plain nestedTable 1) 1 .json
      (.json missingDefault) = some (.ok c) ∧
    ∃ compiled, jsCompile .plain (readTree (encodeTree c.ir)) = .ok compiled ∧
      ∀ ctx version, ∃ d, runEvaluate .plain .plain compiled ctx version = .ok d := by
  refine ⟨_, rfl, (published_runs_iff .plain .plain (storeSegmentResolver .plain nestedTable 1) 1
    (.json missingDefault) _ rfl).mpr ⟨?_, ?_⟩⟩
  · intro t ht
    injection ht with ht
    rw [← ht]
    nofun
  · intro r hr
    nomatch hr

end FalseFlag
