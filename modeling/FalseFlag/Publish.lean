/-
  The publish path (internal/server/handlers/flags.go, segment_resolver.go, and their copies in
  internal/server/rpc): resolve the segment references of a source, then compile it.

  `resolveSegmentRefs` reads the source as a tree, resolves it and WRITES IT AGAIN.  Two things
  follow from that.
  * A TypeScript source is not JSON, so nothing is resolved before it runs, and the tree it exports
    may hold segment nodes that every later check accepts (`publish_noSegment_iff`).
  * Writing a tree fills a missing `default` or rule `value` with `null`, which validation accepts:
    sources that `Compile` refuses are published (`publish_transparent_iff`).

  What IS compiled lacks nothing that writing could fill, so it is its own fixed point: compiling
  the written IR gives the same flag, for `typescript` without running anything
  (`compile_encodeTree_again`).  That is what lets the API and the SDKs evaluate from stored IR.
-/
import FalseFlag.Carried
import FalseFlag.Segments

namespace FalseFlag

open JsonTree Fallible References Relation

/-! ## resolveSegmentRefs -/

/-- `resolveSegmentRefs`: a source that does not decode is passed on as it is. -/
def resolveSegmentRefs (env : Env) (resolver : SegmentResolver) (fuel : Nat) (source : Source) :
    Fueled Source :=
  match unmarshalTree source with
  | .error _ => some (.ok source)
  | .ok tree =>
    (resolveSegments env resolver fuel tree).andThen fun tree' =>
      some (.ok (.json (encodeTree tree')))

/-- The compile step of `PublishFlagVersion`. -/
def publishCompile (env : Env) (resolver : SegmentResolver) (fuel : Nat) (strategy : Strategy)
    (source : Source) : Fueled Compiled :=
  (resolveSegmentRefs env resolver fuel source).andThen fun resolved =>
    some (compile env (.known strategy) resolved)

/-! ## What can be persisted -/

theorem ruleList_fill (t : RulesTree) : t.fill.ruleList = t.ruleList.map Rule.fill := by
  obtain ⟨vt, dflt, rules⟩ := t
  cases rules <;> rfl

/-- Filling in values does not touch the predicates. -/
theorem noSegment_fill {t : RulesTree} (h : t.NoSegment) : t.fill.NoSegment := by
  intro r hr p hp
  rw [ruleList_fill] at hr
  obtain ⟨r0, hr0, rfl⟩ := List.mem_map.mp hr
  exact h r0 hr0 p hp

section Persisted

variable {env : Env} {resolver : SegmentResolver} {fuel : Nat}

variable {src : Source}

/-- What `resolveSegmentRefs` passes on: the source itself if it does not decode, else the text of
    the resolved tree. -/
theorem resolveSegmentRefs_cases {src' : Source}
    (h : resolveSegmentRefs env resolver fuel src = some (.ok src')) :
    ((∃ e, unmarshalTree src = .error e) ∧ src' = src) ∨
      ∃ t t', unmarshalTree src = .ok t ∧ resolveSegments env resolver fuel t = some (.ok t') ∧
        src' = .json (encodeTree t') := by
  unfold resolveSegmentRefs at h
  rcases htree : unmarshalTree src with e | t
  · rw [htree] at h
    injection h with h
    injection h with h
    exact .inl ⟨⟨e, rfl⟩, h.symm⟩
  · rw [htree] at h
    obtain ⟨t', ht', h⟩ := Fueled.andThen_eq_ok.mp h
    injection h with h
    injection h with h
    exact .inr ⟨t, t', rfl, ht', h.symm⟩

variable {c : Compiled}

/-- A strategy either takes its IR from the source, or (typescript) from what the source exports. -/
theorem compile_ir_cases {st : Strategy} (h : compile env (.known st) src = .ok c) :
    unmarshalTree src = .ok c.ir ∨
      (st = .typescript ∧ ∃ irJSON, env.runModule src = .ok irJSON ∧ decodeTree irJSON = .ok c.ir) := by
  cases st with
  | json =>
    obtain ⟨t, ht, -, rfl⟩ := jsonCompile_eq_ok.mp h
    exact .inl ht
  | cel =>
    obtain ⟨t, ht, hf⟩ := celCompile_eq_ok.mp h
    obtain ⟨-, out, -, rfl⟩ := finish_eq_ok.mp hf
    exact .inl ht
  | typescript =>
    obtain ⟨-, hre | ⟨-, -, ir, hrun, -, t, ht, hf⟩⟩ := compileTypescript_eq_ok.mp h
    · obtain ⟨t, ht, hf⟩ := tryRehydrateIR_eq_some.mp hre
      obtain ⟨-, out, -, rfl⟩ := finish_eq_ok.mp hf
      exact .inl ht
    · obtain ⟨-, out, -, rfl⟩ := finish_eq_ok.mp hf
      exact .inr ⟨rfl, ir, hrun, ht⟩

/-- The text of a tree is never run: what it decodes to is what is compiled. -/
theorem compile_encodeTree_ir {st : Strategy} {t : RulesTree}
    (h : compile env (.known st) (.json (encodeTree t)) = .ok c) : c.ir = t.fill := by
  rcases compile_ir_cases h with hir | ⟨-, irJSON, hrun, -⟩
  · rw [unmarshalTree, decodeTree_encodeTree] at hir
    injection hir with hir
    exact hir.symm
  · obtain ⟨err, herr⟩ := env.runModule_object _ _
    rw [encodeTree, herr] at hrun
    nomatch hrun

/-! ### Compiling an IR again -/

/-- The IR of a compiled flag is written and read back as it is. -/
theorem unmarshalTree_encodeTree (hc : WellCompiled env c) :
    unmarshalTree (.json (encodeTree c.ir)) = .ok c.ir := by
  rw [unmarshalTree, decodeTree_encodeTree, hc.valid.complete.fill_eq_self]

/-- What a TypeScript source is compiled to, `finish` makes of its tree. -/
theorem finish_of_compileTypescript
    (h : compileTypescript env src = .ok c) : finish env .typescript c.ir = .ok c := by
  obtain ⟨-, hre | ⟨-, -, ir, -, -, t, -, hf⟩⟩ := compileTypescript_eq_ok.mp h
  · obtain ⟨t, -, hf⟩ := tryRehydrateIR_eq_some.mp hre
    obtain ⟨-, out, -, rfl⟩ := finish_eq_ok.mp hf
    exact hf
  · obtain ⟨-, out, -, rfl⟩ := finish_eq_ok.mp hf
    exact hf

/-- A TypeScript flag is rehydrated from its IR. -/
theorem tryRehydrateIR_encodeTree (h : compile env (.known .typescript) src = .ok c) :
    tryRehydrateIR env (.json (encodeTree c.ir)) = some c :=
  tryRehydrateIR_eq_some.mpr ⟨c.ir, unmarshalTree_encodeTree (wellCompiled_of_compile h),
    finish_of_compileTypescript h⟩

/-- A compiled flag is what its strategy makes of its written IR. -/
theorem compile_encodeTree_self {st : Named Strategy}
    (h : compile env st src = .ok c) : compile env st (.json (encodeTree c.ir)) = .ok c := by
  have htree := unmarshalTree_encodeTree (wellCompiled_of_compile h)
  rcases st with st | ⟨s, hs⟩
  · cases st with
    | json =>
      obtain ⟨t, -, hvalid, rfl⟩ := jsonCompile_eq_ok.mp h
      exact jsonCompile_eq_ok.mpr ⟨t, htree, hvalid, rfl⟩
    | cel =>
      obtain ⟨t, -, hf⟩ := celCompile_eq_ok.mp h
      obtain ⟨-, out, -, rfl⟩ := finish_eq_ok.mp hf
      exact celCompile_eq_ok.mpr ⟨t, htree, hf⟩
    | typescript =>
      refine compileTypescript_eq_ok.mpr ⟨(env.docLen_pos _).ne', .inl ?_⟩
      exact tryRehydrateIR_encodeTree h
  · nomatch h

/-- **Compiling a compiled IR changes nothing**, once or again.  A TypeScript flag takes the
    rehydration path, whatever its source was. -/
theorem compile_encodeTree_again {st : Named Strategy} {src : Source} {c : Compiled}
    (h : compile env st src = .ok c) :
    ∃ c', compile env st (.json (encodeTree c.ir)) = .ok c' ∧
      (st = .known .typescript → tryRehydrateIR env (.json (encodeTree c.ir)) = some c') ∧
      c'.strategy = c.strategy ∧ c'.ir = c.ir ∧
      (∀ source, source ∈ c'.celPrograms.map Prod.fst ↔ source ∈ c.celPrograms.map Prod.fst) ∧
      (∀ ctx version, evaluate env c' ctx version = evaluate env c ctx version) ∧
      compile env st (.json (encodeTree c'.ir)) = .ok c' := by
  refine ⟨c, compile_encodeTree_self h, ?_, rfl, rfl, fun _ => Iff.rfl, fun _ _ => rfl,
    compile_encodeTree_self h⟩
  rintro rfl
  exact tryRehydrateIR_encodeTree h

/-- A TypeScript source that is not an IR itself exports a tree without segments. -/
def ExportsNoSegment (env : Env) (st : Strategy) (src : Source) : Prop :=
  st = .typescript → (∀ t, unmarshalTree src ≠ .ok t) →
    ∀ irJSON t, env.runModule src = .ok irJSON → decodeTree irJSON = .ok t → t.NoSegment

/-- **When the persisted IR is free of segments.**  Segment references are resolved in sources that
    are JSON.  A TypeScript source is not, and nothing resolves or rejects the segment nodes of the
    tree it exports. -/
theorem publish_noSegment_iff (env : Env) (resolver : SegmentResolver) (fuel : Nat) (st : Strategy)
    (src : Source) (c : Compiled) (h : publishCompile env resolver fuel st src = some (.ok c)) :
    c.ir.NoSegment ↔ ExportsNoSegment env st src := by
  obtain ⟨src', hsrc', hcompile⟩ := Fueled.andThen_eq_ok.mp h
  injection hcompile with hcompile
  rcases resolveSegmentRefs_cases hsrc' with ⟨⟨e, he⟩, rfl⟩ | ⟨t, t', ht, hres, rfl⟩
  · -- nothing was resolved: the IR is what the module exports
    rcases compile_ir_cases hcompile with hir | ⟨rfl, irJSON, hrun, hdec⟩
    · rw [he] at hir
      nomatch hir
    · constructor
      · intro hc _ _ irJSON' t' hrun' hdec'
        rw [hrun] at hrun'
        injection hrun' with hrun'
        rw [← hrun', hdec] at hdec'
        injection hdec' with hdec'
        exact hdec' ▸ hc
      · intro hexp
        exact hexp rfl (fun t ht => by rw [he] at ht; nomatch ht) irJSON c.ir hrun hdec
  · -- the source was resolved, and is what is compiled
    refine ⟨fun _ _ hdec => absurd ht (hdec t), fun _ => ?_⟩
    rw [compile_encodeTree_ir hcompile]
    exact noSegment_fill (noSegment_of_resolveSegments hres)

end Persisted

/-- A flag with one rule for `when`, in TypeScript. -/
def exportText (when : String) : String :=
  "export default \x7b value_type: 'boolean', default: false, rules: [\x7b id: 'r1', when: " ++ when ++
    ", value: true \x7d] \x7d"

/-- The program of `ctx.beta == true`. -/
def betaProgram : CELProgram := fun ctx =>
  match ctx.lookup "beta" with
  | none => .error "no such key: beta"
  | some v => .ok (.bool (decide (v = .bool true)))

/-- A runtime that runs one module, which exports `tree`, and compiles one CEL source. -/
def Env.exporting (when : String) (tree : RulesTree) : Env :=
  { Env.plain with
    celCompile := fun source =>
      if source = "ctx.beta == true" then .ok { outputType := "bool", program := .ok betaProgram }
      else .error "cel"
    runModule := fun src =>
      if src = .text (exportText when) then .ok (encodeTree tree) else .error "esbuild"
    runModule_object := fun _ _ => ⟨_, rfl⟩ }

/-- The module is run, and the tree it exports is compiled. -/
theorem compile_exported {when : String} {tree : RulesTree} {c : Compiled}
    (hpos : (exportText when).utf8ByteSize ≠ 0)
    (hlen : (exportText when).utf8ByteSize ≤ maxSourceTextBytes)
    (h : finish (.exporting when tree) .typescript tree.fill = .ok c) :
    compile (.exporting when tree) (.known .typescript) (.text (exportText when)) = .ok c := by
  have hdoc : "{}".utf8ByteSize ≤ maxIRBytes := by decide
  exact compileTypescript_eq_ok.mpr ⟨hpos, .inr ⟨rfl, hlen, encodeTree tree, if_pos rfl, hdoc,
    tree.fill, decodeTree_encodeTree tree, h⟩⟩

def segmentWhen : String := "\x7b kind: 'segment', segment_key: 'alpha' \x7d"

def betaWhen : String := "\x7b kind: 'cel', source: 'ctx.beta == true' \x7d"

/-- A flag whose rule is the CEL source `ctx.beta == true`. -/
def betaTree : RulesTree where
  valueType := .known .boolean
  default := some (.bool false)
  rules := some [{ id := "r1", value := some (.bool true),
                   when := some { kind := .known .cel, source := "ctx.beta == true" } }]

/-- The flag a TypeScript source exports, with its CEL program, comes back from its IR. -/
theorem exported_flag_rehydrated : ∃ c,
    compile (.exporting betaWhen betaTree) (.known .typescript) (.text (exportText betaWhen)) =
      .ok c ∧ c.celPrograms.map Prod.fst = ["ctx.beta == true"] ∧
      ∃ c', compile (.exporting betaWhen betaTree) (.known .typescript)
          (.json (encodeTree c.ir)) = .ok c' ∧
        tryRehydrateIR (.exporting betaWhen betaTree) (.json (encodeTree c.ir)) = some c' ∧
        c'.ir = c.ir := by
  have hc : compile (.exporting betaWhen betaTree) (.known .typescript)
      (.text (exportText betaWhen)) =
        .ok ⟨.typescript, betaTree, [("ctx.beta == true", betaProgram)]⟩ :=
    compile_exported (by decide +kernel) (by decide +kernel) rfl
  refine ⟨_, hc, rfl, ?_⟩
  obtain ⟨c', hc', hre, -, hir, -⟩ := compile_encodeTree_again hc
  exact ⟨c', hc', hre rfl, hir⟩

/-- The segment node of an exported tree is persisted. -/
theorem exported_segment_persisted : ∃ c,
    publishCompile (.exporting segmentWhen nestedTree)
      (storeSegmentResolver (.exporting segmentWhen nestedTree) nestedTable 1) 5 .typescript
      (.text (exportText segmentWhen)) = some (.ok c) ∧ ¬ c.ir.NoSegment := by
  have hc : compile (.exporting segmentWhen nestedTree) (.known .typescript)
      (.text (exportText segmentWhen)) = .ok ⟨.typescript, nestedTree, []⟩ :=
    compile_exported (by decide +kernel) (by decide +kernel) rfl
  refine ⟨⟨.typescript, nestedTree, []⟩, congrArg some hc, fun h => ?_⟩
  exact h _ List.mem_cons_self _ rfl _ (.refl _) rfl

/-- `nestedTree` with its segments inlined. -/
def nestedTreeResolved : RulesTree where
  valueType := .known .boolean
  default := some (.bool false)
  rules := some [{ id := "r1", value := some (.bool true),
                   when := some { kind := .known .not, ofOne := some { kind := .known .always } } }]

theorem nested_publishCompile :
    publishCompile .plain (storeSegmentResolver .plain nestedTable 1) 3 .json
      (.json (encodeTree nestedTree)) = some (.ok ⟨.json, nestedTreeResolved, []⟩) := by
  have hres : resolveSegments .plain (storeSegmentResolver .plain nestedTable 1) 3 nestedTree.fill
      = some (.ok nestedTreeResolved) := rfl
  have hvalid : validateTree .plain nestedTreeResolved = .ok () := rfl
  rw [publishCompile, resolveSegmentRefs, unmarshalTree, decodeTree_encodeTree]
  simp only
  rw [hres]
  simp only [Fueled.andThen, compile, jsonCompile, unmarshalTree, decodeTree_encodeTree]
  show some (validateTree .plain nestedTreeResolved >>= _) = _
  rw [hvalid]
  rfl

/-- The same rule in a JSON source is resolved. -/
theorem nested_source_resolved :
    publishCompile .plain (storeSegmentResolver .plain nestedTable 1) 3 .json
      (.json (encodeTree nestedTree)) = some (.ok ⟨.json, nestedTreeResolved, []⟩) ∧
    nestedTreeResolved.NoSegment :=
  ⟨nested_publishCompile,
    (publish_noSegment_iff _ _ _ _ _ _ nested_publishCompile).mpr fun h => nomatch h⟩

/-! ## What rewriting changes -/

/-- What `Compile` checks besides the presence of values: the value type, the id and the predicate
    of each rule, and that each CEL source reached compiles. -/
structure OtherwiseValid (env : Env) (st : Strategy) (t : RulesTree) : Prop where
  valueType : ∃ vt, t.valueType = .known vt
  rules : ∀ r ∈ t.ruleList,
    r.id ≠ "" ∧ validatePredicate env (decide (st = .cel)) r.when = .ok ()
  sources : st = .cel → ∀ s ∈ ruleSources t.ruleList, ∃ prog, celProgram env s = .ok prog

section Rewriting

variable {env : Env}

theorem complete_fill (t : RulesTree) : t.fill.Complete := by
  refine ⟨nofun, fun r hr => ?_⟩
  rw [ruleList_fill] at hr
  obtain ⟨r0, -, rfl⟩ := List.mem_map.mp hr
  nofun

theorem ruleSources_fill (t : RulesTree) :
    ruleSources t.fill.ruleList = ruleSources t.ruleList := by
  rw [ruleList_fill, ruleSources, List.flatMap_map]
  rfl

variable {st : Strategy} {t : RulesTree}

/-- Filling in values leaves every other check as it is. -/
theorem otherwiseValid_fill :
    OtherwiseValid env st t.fill ↔ OtherwiseValid env st t := by
  have hrules : ∀ P : Rule → Prop, (∀ r, P r.fill ↔ P r) →
      ((∀ r ∈ t.fill.ruleList, P r) ↔ ∀ r ∈ t.ruleList, P r) := by
    intro P hP
    rw [ruleList_fill, List.forall_mem_map]
    exact forall₂_congr fun r _ => hP r
  have hchecks := hrules
    (fun r => r.id ≠ "" ∧ validatePredicate env (decide (st = .cel)) r.when = .ok ())
    fun _ => Iff.rfl
  constructor
  · rintro ⟨hvt, hr, hs⟩
    exact ⟨hvt, hchecks.mp hr, ruleSources_fill t ▸ hs⟩
  · rintro ⟨hvt, hr, hs⟩
    exact ⟨hvt, hchecks.mpr hr, (ruleSources_fill t).symm ▸ hs⟩

theorem validTree_iff :
    ValidTree env (decide (st = .cel)) t ↔ t.Complete ∧ (∃ vt, t.valueType = .known vt) ∧
      ∀ r ∈ t.ruleList, r.id ≠ "" ∧ validatePredicate env (decide (st = .cel)) r.when = .ok () := by
  constructor
  · rintro ⟨hvt, hdefault, hrules⟩
    exact ⟨⟨hdefault, fun r hr => (hrules r hr).value⟩, hvt,
      fun r hr => ⟨(hrules r hr).id, validatePredicate_iff.mpr (hrules r hr).when⟩⟩
  · rintro ⟨⟨hdefault, hvalues⟩, hvt, hrules⟩
    exact ⟨hvt, hdefault, fun r hr =>
      ⟨(hrules r hr).1, hvalues r hr, validatePredicate_iff.mp (hrules r hr).2⟩⟩

variable {src : Source}

/-- **What the strategies whose source is the tree accept.** -/
theorem compile_isOk_iff (hst : st = .json ∨ st = .cel) :
    (∃ c, compile env (.known st) src = .ok c) ↔
      ∃ t, unmarshalTree src = .ok t ∧ t.Complete ∧ OtherwiseValid env st t := by
  have hshape : (∃ c, compile env (.known st) src = .ok c) ↔
      ∃ t, unmarshalTree src = .ok t ∧ ValidTree env (decide (st = .cel)) t ∧
        (st = .cel → ∃ out, compilePredicates env [] t.ruleList = .ok out) := by
    rcases hst with rfl | rfl
    · constructor
      · rintro ⟨c, hc⟩
        obtain ⟨t, ht, hvalid, -⟩ := jsonCompile_eq_ok.mp hc
        exact ⟨t, ht, hvalid, fun h => nomatch h⟩
      · rintro ⟨t, ht, hvalid, -⟩
        exact ⟨_, jsonCompile_eq_ok.mpr ⟨t, ht, hvalid, rfl⟩⟩
    · constructor
      · rintro ⟨c, hc⟩
        obtain ⟨t, ht, hf⟩ := celCompile_eq_ok.mp hc
        obtain ⟨hvalid, out, hout, -⟩ := finish_eq_ok.mp hf
        exact ⟨t, ht, hvalid, fun _ => ⟨out, hout⟩⟩
      · rintro ⟨t, ht, hvalid, hout⟩
        obtain ⟨out, hout⟩ := hout rfl
        exact ⟨_, celCompile_eq_ok.mpr ⟨t, ht, finish_eq_ok.mpr ⟨hvalid, out, hout, rfl⟩⟩⟩
  rw [hshape]
  refine exists_congr fun t => and_congr Iff.rfl ?_
  rw [validTree_iff, compilePredicates_iff]
  constructor
  · rintro ⟨⟨hcomplete, hvt, hrules⟩, hsources⟩
    exact ⟨hcomplete, hvt, hrules, hsources⟩
  · rintro ⟨hcomplete, hvt, hrules, hsources⟩
    exact ⟨⟨hcomplete, hvt, hrules⟩, hsources⟩

/-- What these strategies make of a source that decodes depends on its tree only. -/
theorem compile_congr (hst : st = .json ∨ st = .cel) {src' : Source} (h : unmarshalTree src = .ok t)
    (h' : unmarshalTree src' = .ok t) :
    compile env (.known st) src = compile env (.known st) src' := by
  rcases hst with rfl | rfl
  · show jsonCompile env src = jsonCompile env src'
    rw [jsonCompile, jsonCompile, h, h']
  · show celCompile env src = celCompile env src'
    rw [celCompile, celCompile, h, h']

/-- Resolving before compiling changes nothing: both sources compile or neither does, and if they
    do, the two flags decide alike. -/
def Transparent (env : Env) (resolver : SegmentResolver) (fuel : Nat) (st : Strategy)
    (src : Source) : Prop :=
  ∃ src', resolveSegmentRefs env resolver fuel src = some (.ok src') ∧
    ((∃ c', compile env (.known st) src' = .ok c') ↔ ∃ c, compile env (.known st) src = .ok c) ∧
    ∀ c c', compile env (.known st) src = .ok c → compile env (.known st) src' = .ok c' →
      ∀ ctx version, evaluate env c' ctx version = evaluate env c ctx version

/-- A source without segments is rewritten to the text of its tree. -/
theorem resolveSegmentRefs_noSegment {resolver : SegmentResolver} {fuel : Nat}
    (ht : unmarshalTree src = .ok t) (hno : t.NoSegment) :
    resolveSegmentRefs env resolver fuel src = some (.ok (.json (encodeTree t))) := by
  unfold resolveSegmentRefs
  rw [ht]
  simp only
  rw [resolveSegments_self hno]
  rfl

/-- **When rewriting a source without segments changes nothing**: when nothing is missing from it,
    or when it is refused for another reason.  Where a missing default or rule value is the only
    defect, `Compile` refuses the source and the publish path accepts it. -/
theorem publish_transparent_iff (env : Env) (resolver : SegmentResolver) (fuel : Nat)
    (st : Strategy) (hst : st = .json ∨ st = .cel) (d : Doc)
    (hno : ∀ t, decodeTree d = .ok t → t.NoSegment) :
    Transparent env resolver fuel st (.json d) ↔
      ∀ t, decodeTree d = .ok t → t.Complete ∨ ¬ OtherwiseValid env st t := by
  rcases ht : decodeTree d with e | t
  · -- the source is passed on as it is
    have hsame : resolveSegmentRefs env resolver fuel (.json d) = some (.ok (.json d)) := by
      rw [resolveSegmentRefs, unmarshalTree, ht]
    refine ⟨fun _ t h => (nomatch h), fun _ => ⟨_, hsame, Iff.rfl, ?_⟩⟩
    intro c c' hc hc' ctx version
    rw [hc] at hc'
    injection hc' with hc'
    rw [hc']
  · have hrewritten := @resolveSegmentRefs_noSegment env t (.json d) resolver fuel ht
      (hno t ht)
    have hbefore : (∃ c, compile env (.known st) (.json d) = .ok c) ↔
        t.Complete ∧ OtherwiseValid env st t := by
      rw [compile_isOk_iff hst, unmarshalTree, ht]
      simp
    have hafter : (∃ c, compile env (.known st) (.json (encodeTree t)) = .ok c) ↔
        OtherwiseValid env st t := by
      rw [compile_isOk_iff hst, unmarshalTree, decodeTree_encodeTree]
      simp [complete_fill, otherwiseValid_fill]
    constructor
    · rintro ⟨src', hsrc', hiff, -⟩ t' ht'
      injection ht' with ht'
      subst ht'
      rw [hrewritten] at hsrc'
      injection hsrc' with hsrc'
      injection hsrc' with hsrc'
      subst hsrc'
      rw [hbefore, hafter] at hiff
      by_cases hvalid : OtherwiseValid env st t
      · exact .inl (hiff.mp hvalid).1
      · exact .inr hvalid
    · intro h
      refine ⟨_, hrewritten, ?_, fun c c' hc hc' ctx version => ?_⟩
      · rw [hbefore, hafter]
        exact ⟨fun hvalid => ⟨(h t rfl).resolve_right (not_not_intro hvalid), hvalid⟩, And.right⟩
      · -- a source that compiles is complete, so its tree reads back as it was
        have hfill := (hbefore.mp ⟨c, hc⟩).1.fill_eq_self
        have hcc : compile env (.known st) (.json (encodeTree t)) =
            compile env (.known st) (.json d) :=
          compile_congr hst (by rw [unmarshalTree, decodeTree_encodeTree, hfill]) ht
        rw [hcc, hc] at hc'
        injection hc' with hc'
        rw [hc']

end Rewriting

/-- A boolean flag without default. -/
def missingDefault : Doc := .obj [("value_type", .str "boolean"), ("rules", .arr [])]

/-- The tree `missingDefault` decodes to. -/
def missingDefaultTree : RulesTree where
  valueType := .known .boolean
  rules := some []

/-- `Compile` refuses a source without default, the publish path accepts it. -/
theorem missing_default_published :
    compile .plain (.known .json) (.json missingDefault) =
      .error (errorf .errInvalidIR "missing default") ∧
    publishCompile .plain (storeSegmentResolver .plain nestedTable 1) 1 .json (.json missingDefault) =
      some (.ok ⟨.json, missingDefaultTree.fill, []⟩) ∧
    ¬ Transparent .plain (storeSegmentResolver .plain nestedTable 1) 1 .json (.json missingDefault) := by
  have hsrc : resolveSegmentRefs .plain (storeSegmentResolver .plain nestedTable 1) 1
      (.json missingDefault) = some (.ok (.json (encodeTree missingDefaultTree))) := rfl
  have hafter : compile .plain (.known .json) (.json (encodeTree missingDefaultTree)) =
      .ok ⟨.json, missingDefaultTree.fill, []⟩ := rfl
  refine ⟨rfl, by rw [publishCompile, hsrc]; rfl, ?_⟩
  rintro ⟨src', hsrc', hiff, -⟩
  rw [hsrc] at hsrc'
  injection hsrc' with hsrc'
  injection hsrc' with hsrc'
  subst hsrc'
  obtain ⟨c, hc⟩ := hiff.mp ⟨_, hafter⟩
  nomatch hc

theorem noSegment_nestedTreeResolved : nestedTreeResolved.NoSegment := by
  intro r hr p hp
  rw [List.mem_singleton.mp hr] at hp
  injection hp with hp
  exact hp ▸ (segmentRefs_eq_nil_iff _).mp rfl

/-- A complete source is not changed. -/
theorem complete_source_transparent :
    Transparent .plain (storeSegmentResolver .plain nestedTable 1) 1 .json
      (.json (encodeTree nestedTreeResolved)) := by
  have htree : decodeTree (encodeTree nestedTreeResolved) = .ok nestedTreeResolved :=
    decodeTree_encodeTree _
  refine (publish_transparent_iff _ _ _ _ (.inl rfl) _ fun t ht => ?_).mpr fun t ht => ?_
  · rw [htree] at ht
    injection ht with ht
    exact ht ▸ noSegment_nestedTreeResolved
  · rw [htree] at ht
    injection ht with ht
    exact .inl (ht ▸ complete_fill nestedTreeResolved)

end FalseFlag
