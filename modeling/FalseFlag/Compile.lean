/-
  The strategy compilers (internal/config: strategy.go, json.go, cel.go, typescript.go).

  All three strategies end in the same tree and the same validation; they differ in where the tree
  comes from and in what happens to CEL sources:
  * json        the source IS the tree; CEL predicates are refused;
  * cel         the source is the tree; every CEL source that is reached is compiled;
  * typescript  a source that is an IR already is taken as it is (`tryRehydrateIR`), any other is
                run, and the exported tree goes the way of `cel`.
-/
import FalseFlag.IrCodec
import FalseFlag.Lib.Memo

namespace FalseFlag

open List JsonTree Fallible Memo

/-! ## Strategies and errors -/

/-- `Strategy`: the project-scoped configuration strategies. -/
inductive Strategy where
  | json | cel | typescript
  deriving DecidableEq

def Strategy.name : Strategy → String
  | .json => "json"
  | .cel => "cel"
  | .typescript => "typescript"

def Strategy.parse : String → Option Strategy
  | "json" => some .json
  | "cel" => some .cel
  | "typescript" => some .typescript
  | _ => none

instance : StringEnum Strategy where
  name := Strategy.name
  parse := Strategy.parse
  parse_name := by intro a; cases a <;> rfl
  name_of_parse := by
    intro s a h
    unfold Strategy.parse at h
    split at h <;> first | (injection h with h; subst h; rfl) | nomatch h

/-- The sentinel errors; `errors.Is` looks for these. -/
inductive Sentinel where
  | errUnknownStrategy | errInvalidIR | errInvalidPredicate | errInvalidValueType
  | errCELCompileFailure | errTypeScriptCompileFailure
  deriving DecidableEq

def Sentinel.text : Sentinel → String
  | .errUnknownStrategy => "unknown strategy"
  | .errInvalidIR => "invalid IR"
  | .errInvalidPredicate => "invalid predicate"
  | .errInvalidValueType => "invalid value_type"
  | .errCELCompileFailure => "cel compile failure"
  | .errTypeScriptCompileFailure => "typescript compile failure"

/-- A compile error: the sentinel it wraps and its text. -/
structure CompileError where
  sentinel : Sentinel
  text : String
  deriving DecidableEq

/-- `fmt.Errorf("%w: …", sentinel)`. -/
def errorf (sentinel : Sentinel) (rest : String) : CompileError :=
  { sentinel, text := sentinel.text ++ ": " ++ rest }

/-- `fmt.Errorf("rule %q: %w", id, err)`. -/
def CompileError.inRule (env : Env) (id : String) (err : CompileError) : CompileError :=
  { err with text := "rule " ++ env.quote id ++ ": " ++ err.text }

/-! ## Validation -/

mutual

/-- `validatePredicate`. -/
def validatePredicate (env : Env) (allowCEL : Bool) : Option Predicate → Except CompileError Unit
  | none => .error (errorf .errInvalidPredicate "nil predicate")
  | some p => validateNode env allowCEL p
  termination_by structural o => o

/-- The `switch` of `validatePredicate`. -/
def validateNode (env : Env) (allowCEL : Bool) : Predicate → Except CompileError Unit
  | { kind, attr, value, values, pattern, salt, percent, of, ofOne, source, segmentKey } =>
    match kind with
    | .known .eq | .known .neq | .known .gt | .known .gte | .known .lt | .known .lte
    | .known .startsWith =>
      if attr = "" then .error (errorf .errInvalidPredicate (kind.toString ++ " missing attr"))
      else if value = none then
        .error (errorf .errInvalidPredicate (kind.toString ++ " missing value"))
      else .ok ()
    | .known .isIn =>
      if attr = "" then .error (errorf .errInvalidPredicate "in missing attr")
      else if values = [] then .error (errorf .errInvalidPredicate "in needs non-empty values")
      else .ok ()
    | .known .matches =>
      if attr = "" ∨ pattern = "" then
        .error (errorf .errInvalidPredicate "matches missing attr or pattern")
      else
        match env.regexpCompile pattern with
        | .error err => .error (errorf .errInvalidPredicate ("matches pattern: " ++ err))
        | .ok _ => .ok ()
    | .known .rollout =>
      if attr = "" ∨ salt = "" then
        .error (errorf .errInvalidPredicate "rollout missing attr or salt")
      else if percent < 0 ∨ percent > 100 then
        .error (errorf .errInvalidPredicate "rollout percent out of [0,100]")
      else .ok ()
    | .known .all | .known .any =>
      if of = [] then .error (errorf .errInvalidPredicate (kind.toString ++ " requires of[]"))
      else validateOf env allowCEL of
    | .known .not =>
      if ofOne.isNone then .error (errorf .errInvalidPredicate "not requires of_one")
      else validatePredicate env allowCEL ofOne
    | .known .cel =>
      if !allowCEL then
        .error (errorf .errInvalidPredicate "cel predicate not permitted in this strategy")
      else if source = "" then .error (errorf .errInvalidPredicate "cel missing source")
      else .ok ()
    | .known .always => .ok ()
    | .known .segment =>
      if segmentKey = "" then .error (errorf .errInvalidPredicate "segment missing key")
      else .ok ()
    | .other s _ => .error (errorf .errInvalidPredicate ("unknown kind " ++ env.quote s))
  termination_by structural p => p

/-- The loop over `of`. -/
def validateOf (env : Env) (allowCEL : Bool) : List (Option Predicate) → Except CompileError Unit
  | [] => .ok ()
  | c :: cs => do
    validatePredicate env allowCEL c
    validateOf env allowCEL cs
  termination_by structural cs => cs

end

/-- The checks on rule number `i`. -/
def validateRule (env : Env) (allowCEL : Bool) (i : Nat) (r : Rule) : Except CompileError Unit :=
  if r.id = "" then .error (errorf .errInvalidIR ("rule " ++ toString i ++ " missing id"))
  else if r.value = none then
    .error (errorf .errInvalidIR ("rule " ++ env.quote r.id ++ " missing value"))
  else if r.when.isNone then
    .error (errorf .errInvalidIR ("rule " ++ env.quote r.id ++ " missing when"))
  else (validatePredicate env allowCEL r.when).mapError (·.inRule env r.id)

/-- The loop over the rules. -/
def validateRules (env : Env) (allowCEL : Bool) (i : Nat) : List Rule → Except CompileError Unit
  | [] => .ok ()
  | r :: rs => do
    validateRule env allowCEL i r
    validateRules env allowCEL (i + 1) rs

/-- `validateTreeWith`. -/
def validateTreeWith (env : Env) (allowCEL : Bool) (tree : RulesTree) : Except CompileError Unit :=
  match tree.valueType with
  | .other s _ => .error (errorf .errInvalidValueType (env.quote s))
  | .known _ =>
    if tree.default = none then .error (errorf .errInvalidIR "missing default")
    else validateRules env allowCEL 0 tree.ruleList

/-- `validateTree`: the same checks, CEL predicates refused. -/
def validateTree (env : Env) (tree : RulesTree) : Except CompileError Unit :=
  validateTreeWith env false tree

/-! ## CEL programs -/

/-- `CELPrograms`, a map from sources to programs. -/
abbrev Programs := List (String × CELProgram)

/-- `env.Compile` and `env.Program` on one source. -/
def celProgram (env : Env) (source : String) : Except CompileError CELProgram :=
  match env.celCompile source with
  | .error iss => .error (errorf .errCELCompileFailure iss)
  | .ok ast =>
    if ast.outputType ≠ "bool" then
      .error (errorf .errCELCompileFailure
        ("cel expression must return bool, got " ++ ast.outputType))
    else ast.program.mapError (errorf .errCELCompileFailure)

/-- Compile a source unless it is in the map already. -/
def addProgram (env : Env) (out : Programs) (source : String) : Except CompileError Programs :=
  match out.lookup source with
  | some _ => .ok out
  | none => (celProgram env source).map fun prog => (source, prog) :: out

mutual

/-- `walkAndCompile`. -/
def walkAndCompile (env : Env) (out : Programs) : Option Predicate → Except CompileError Programs
  | none => .ok out
  | some p => walkNode env out p
  termination_by structural o => o

/-- The `switch` of `walkAndCompile`. -/
def walkNode (env : Env) (out : Programs) : Predicate → Except CompileError Programs
  | { kind, of, ofOne, source, .. } =>
    match kind with
    | .known .cel => addProgram env out source
    | .known .all | .known .any => walkOf env out of
    | .known .not => walkAndCompile env out ofOne
    | _ => .ok out
  termination_by structural p => p

/-- The loop over `of`. -/
def walkOf (env : Env) (out : Programs) : List (Option Predicate) → Except CompileError Programs
  | [] => .ok out
  | c :: cs => do
    let out ← walkAndCompile env out c
    walkOf env out cs
  termination_by structural cs => cs

end

/-- `compilePredicates`. -/
def compilePredicates (env : Env) (out : Programs) : List Rule → Except CompileError Programs
  | [] => .ok out
  | r :: rs => do
    let out ← (walkAndCompile env out r.when).mapError (·.inRule env r.id)
    compilePredicates env out rs

/-! ## The compilers -/

/-- `Compiled`. -/
structure Compiled where
  strategy : Strategy
  ir : RulesTree
  celPrograms : Programs

/-- `json.Unmarshal(source, &tree)`: a text that is not JSON fails. -/
def unmarshalTree : Source → Except JsonError RulesTree
  | .json d => decodeTree d
  | .text _ => .error .cannotUnmarshal

/-- `jsonCompiler.Compile`. -/
def jsonCompile (env : Env) (source : Source) : Except CompileError Compiled :=
  match unmarshalTree source with
  | .error _ => .error (errorf .errInvalidIR (env.jsonErrorText source))
  | .ok tree => do
    validateTree env tree
    return { strategy := .json, ir := tree, celPrograms := [] }

/-- Validation and CEL compilation of a tree, shared by `cel` and `typescript`. -/
def finish (env : Env) (strategy : Strategy) (tree : RulesTree) : Except CompileError Compiled := do
  validateTreeWith env true tree
  let programs ← compilePredicates env [] tree.ruleList
  return { strategy, ir := tree, celPrograms := programs }

/-- `celCompiler.Compile`. -/
def celCompile (env : Env) (source : Source) : Except CompileError Compiled :=
  match unmarshalTree source with
  | .error _ => .error (errorf .errInvalidIR (env.jsonErrorText source))
  | .ok tree => finish env .cel tree

/-- `tryRehydrateIR`: the source is a compiled IR already. -/
def tryRehydrateIR (env : Env) (source : Source) : Option Compiled :=
  match unmarshalTree source with
  | .error _ => none
  | .ok tree =>
    if tree.valueType.toString = "" then none
    else (finish env .typescript tree).toOption

/-- `maxSourceTextBytes`. -/
def maxSourceTextBytes : Nat := 32 * 1024

/-- `maxIRBytes`. -/
def maxIRBytes : Nat := 32 * 1024

/-- The end of `compileTypescript`: run the source and compile the tree it exports. -/
def runExport (env : Env) (source : Source) : Except CompileError Compiled :=
  match env.runModule source with
  | .error text => .error { sentinel := .errTypeScriptCompileFailure, text }
  | .ok irJSON =>
    if env.docLen irJSON > maxIRBytes then
      .error (errorf .errTypeScriptCompileFailure
        ("IR exceeds " ++ toString maxIRBytes ++ " bytes"))
    else
      match decodeTree irJSON with
      | .error _ => .error (errorf .errInvalidIR (env.jsonErrorText (.json irJSON)))
      | .ok tree => finish env .typescript tree

/-- `compileTypescript`. -/
def compileTypescript (env : Env) (source : Source) : Except CompileError Compiled :=
  if env.sourceLen source = 0 then
    .error (errorf .errTypeScriptCompileFailure "empty source")
  else
    match tryRehydrateIR env source with
    | some compiled => .ok compiled
    | none =>
      if env.sourceLen source > maxSourceTextBytes then
        .error (errorf .errTypeScriptCompileFailure
          ("source exceeds " ++ toString maxSourceTextBytes ++ " bytes"))
      else runExport env source

/-- `Compile`. -/
def compile (env : Env) (s : Named Strategy) (source : Source) : Except CompileError Compiled :=
  match s with
  | .known .json => jsonCompile env source
  | .known .cel => celCompile env source
  | .known .typescript => compileTypescript env source
  | .other s _ => .error (errorf .errUnknownStrategy (env.quote s))

/-! ## What validation accepts -/

/-- The kinds that compare an attribute with a value. -/
def PredicateKind.IsComparison (k : PredicateKind) : Prop :=
  k = .eq ∨ k = .neq ∨ k = .gt ∨ k = .gte ∨ k = .lt ∨ k = .lte ∨ k = .startsWith

/-- The predicates `validatePredicate` accepts.  Only the children that the kind USES are looked
    at: `of` under `all` and `any`, `of_one` under `not`. -/
inductive ValidPredicate (env : Env) (allowCEL : Bool) : Predicate → Prop
  | compare {p : Predicate} {k : PredicateKind} {d : Doc} (hkind : p.kind = .known k)
      (hk : k.IsComparison) (hattr : p.attr ≠ "") (hvalue : p.value = some d) :
      ValidPredicate env allowCEL p
  | isIn {p : Predicate} (hkind : p.kind = .known .isIn) (hattr : p.attr ≠ "")
      (hvalues : p.values ≠ []) : ValidPredicate env allowCEL p
  | matches {p : Predicate} {re : String → Bool} (hkind : p.kind = .known .matches)
      (hattr : p.attr ≠ "") (hpattern : p.pattern ≠ "")
      (hre : env.regexpCompile p.pattern = .ok re) : ValidPredicate env allowCEL p
  | rollout {p : Predicate} (hkind : p.kind = .known .rollout) (hattr : p.attr ≠ "")
      (hsalt : p.salt ≠ "") (hpercent : ¬ (p.percent < 0 ∨ p.percent > 100)) :
      ValidPredicate env allowCEL p
  | all {p : Predicate} (hkind : p.kind = .known .all) (hne : p.of ≠ []) (hnil : none ∉ p.of)
      (hof : ∀ c, some c ∈ p.of → ValidPredicate env allowCEL c) : ValidPredicate env allowCEL p
  | any {p : Predicate} (hkind : p.kind = .known .any) (hne : p.of ≠ []) (hnil : none ∉ p.of)
      (hof : ∀ c, some c ∈ p.of → ValidPredicate env allowCEL c) : ValidPredicate env allowCEL p
  | not {p c : Predicate} (hkind : p.kind = .known .not) (hone : p.ofOne = some c)
      (hc : ValidPredicate env allowCEL c) : ValidPredicate env allowCEL p
  | cel {p : Predicate} (hkind : p.kind = .known .cel) (hallow : allowCEL = true)
      (hsource : p.source ≠ "") : ValidPredicate env allowCEL p
  | always {p : Predicate} (hkind : p.kind = .known .always) : ValidPredicate env allowCEL p
  | segment {p : Predicate} (hkind : p.kind = .known .segment) (hkey : p.segmentKey ≠ "") :
      ValidPredicate env allowCEL p

section Validation

variable {env : Env} {allowCEL : Bool}

/-- The loop over `of` succeeds iff every child is there and is accepted. -/
theorem validateOf_iff : ∀ {cs : List (Option Predicate)},
    validateOf env allowCEL cs = .ok () ↔
      none ∉ cs ∧ ∀ c, some c ∈ cs → validateNode env allowCEL c = .ok ()
  | [] => by
    rw [validateOf]
    simp
  | none :: cs => by
    rw [validateOf, seq_eq_ok, validatePredicate]
    constructor
    · rintro ⟨h, -⟩
      nomatch h
    · rintro ⟨h, -⟩
      exact absurd mem_cons_self h
  | some c :: cs => by
    rw [validateOf, seq_eq_ok, validatePredicate, validateOf_iff]
    constructor
    · rintro ⟨hc, hnil, hcs⟩
      refine ⟨?_, ?_⟩
      · simpa using hnil
      · intro c' hc'
        rcases mem_cons.mp hc' with h | h
        · injection h with h
          exact h ▸ hc
        · exact hcs c' h
    · rintro ⟨hnil, hcs⟩
      refine ⟨hcs c mem_cons_self, fun h => hnil (mem_cons_of_mem _ h), ?_⟩
      intro c' hc'
      exact hcs c' (mem_cons_of_mem _ hc')

theorem ValidPredicate.of_validateNode (p : Predicate) :
    validateNode env allowCEL p = .ok () → ValidPredicate env allowCEL p := by
  induction p with
  | node p hof hone =>
    obtain ⟨kind, attr, value, values, pattern, salt, percent, of, ofOne⟩ := p
    intro h
    rcases kind with k | _
    · cases k <;> simp only [validateNode, ite_error_eq_ok] at h
      case isIn => exact .isIn rfl h.1 h.2.1
      case rollout => exact .rollout rfl (fun ha => h.1 (.inl ha)) (fun hs => h.1 (.inr hs)) h.2.1
      case always => exact .always rfl
      case segment => exact .segment rfl h.1
      case cel => exact .cel rfl (by simpa using h.1) h.2.1
      case «matches» =>
        obtain ⟨hne, hre⟩ := h
        split at hre
        · cases hre
        · rename_i re hre'
          exact .matches rfl (fun ha => hne (.inl ha)) (fun hp => hne (.inr hp)) hre'
      case all =>
        obtain ⟨hnil, hcs⟩ := validateOf_iff.mp h.2
        exact .all rfl h.1 hnil fun c hc => hof c hc (hcs c hc)
      case any =>
        obtain ⟨hnil, hcs⟩ := validateOf_iff.mp h.2
        exact .any rfl h.1 hnil fun c hc => hof c hc (hcs c hc)
      case not =>
        obtain ⟨hsome, hc⟩ := h
        rcases ofOne with _ | c
        · exact absurd rfl hsome
        · rw [validatePredicate] at hc
          exact .not rfl rfl (hone c rfl hc)
      -- the seven comparisons
      all_goals
        obtain ⟨d, hd⟩ := Option.ne_none_iff_exists'.mp h.2.1
        exact .compare rfl (by simp [PredicateKind.IsComparison]) h.1 hd
    · rw [validateNode] at h
      cases h

theorem ValidPredicate.validateNode {p : Predicate} (h : ValidPredicate env allowCEL p) :
    validateNode env allowCEL p = .ok () := by
  induction h with
  | @compare p k d hkind hk hattr hvalue =>
    cases p
    subst hkind hvalue
    rcases hk with rfl | rfl | rfl | rfl | rfl | rfl | rfl <;>
      simp only [FalseFlag.validateNode, if_neg hattr, reduceCtorEq, if_false]
  | isIn hkind hattr hvalues =>
    rename_i p
    cases p
    subst hkind
    simp only [FalseFlag.validateNode, if_neg hattr, if_neg hvalues]
  | @«matches» p re hkind hattr hpattern hre =>
    cases p
    subst hkind
    simp only [FalseFlag.validateNode, if_neg (not_or.mpr ⟨hattr, hpattern⟩), hre]
  | @rollout p hkind hattr hsalt hpercent =>
    cases p
    subst hkind
    simp only [FalseFlag.validateNode, if_neg (not_or.mpr ⟨hattr, hsalt⟩), if_neg hpercent]
  | @all p hkind hne hnil _ ih =>
    cases p
    subst hkind
    simp only [FalseFlag.validateNode, if_neg hne]
    exact validateOf_iff.mpr ⟨hnil, ih⟩
  | @any p hkind hne hnil _ ih =>
    cases p
    subst hkind
    simp only [FalseFlag.validateNode, if_neg hne]
    exact validateOf_iff.mpr ⟨hnil, ih⟩
  | @not p c hkind hone _ ih =>
    cases p
    subst hkind hone
    simp only [FalseFlag.validateNode, Option.isNone_some, Bool.false_eq_true, if_false,
      validatePredicate, ih]
  | @cel p hkind hallow hsource =>
    cases p
    subst hkind
    simp only [FalseFlag.validateNode, hallow, Bool.not_true, Bool.false_eq_true, if_false,
      if_neg hsource]
  | @always p hkind =>
    cases p
    subst hkind
    rfl
  | @segment p hkind hkey =>
    cases p
    subst hkind
    simp only [FalseFlag.validateNode, if_neg hkey]

/-- **What `validatePredicate` accepts.** -/
theorem validatePredicate_iff {o : Option Predicate} :
    validatePredicate env allowCEL o = .ok () ↔ ∃ p, o = some p ∧ ValidPredicate env allowCEL p := by
  cases o with
  | none =>
    rw [validatePredicate]
    exact ⟨fun h => (nomatch h), fun ⟨_, h, _⟩ => (nomatch h)⟩
  | some p =>
    rw [validatePredicate]
    constructor
    · intro h
      exact ⟨p, rfl, .of_validateNode p h⟩
    · rintro ⟨q, hq, h⟩
      injection hq with hq
      exact hq ▸ h.validateNode

/-- What one strategy accepts without CEL is accepted with CEL. -/
theorem ValidPredicate.mono {p : Predicate} (h : ValidPredicate env false p) :
    ValidPredicate env allowCEL p := by
  induction h with
  | compare hkind hk hattr hvalue => exact .compare hkind hk hattr hvalue
  | isIn hkind hattr hvalues => exact .isIn hkind hattr hvalues
  | «matches» hkind hattr hpattern hre => exact .matches hkind hattr hpattern hre
  | rollout hkind hattr hsalt hpercent => exact .rollout hkind hattr hsalt hpercent
  | all hkind hne hnil _ ih => exact .all hkind hne hnil ih
  | any hkind hne hnil _ ih => exact .any hkind hne hnil ih
  | not hkind hone _ ih => exact .not hkind hone ih
  | cel _ hallow _ => nomatch hallow
  | always hkind => exact .always hkind
  | segment hkind hkey => exact .segment hkind hkey

/-- The rules the validation accepts. -/
structure ValidRule (env : Env) (allowCEL : Bool) (r : Rule) : Prop where
  id : r.id ≠ ""
  value : r.value ≠ none
  when : ∃ p, r.when = some p ∧ ValidPredicate env allowCEL p

/-- The trees the validation accepts. -/
structure ValidTree (env : Env) (allowCEL : Bool) (t : RulesTree) : Prop where
  valueType : ∃ vt, t.valueType = .known vt
  default : t.default ≠ none
  rules : ∀ r ∈ t.ruleList, ValidRule env allowCEL r

theorem validateRule_iff {i : Nat} {r : Rule} :
    validateRule env allowCEL i r = .ok () ↔ ValidRule env allowCEL r := by
  rw [validateRule, ite_error_eq_ok, ite_error_eq_ok, ite_error_eq_ok, mapError_eq_ok,
    validatePredicate_iff]
  constructor
  · rintro ⟨hid, hvalue, -, hwhen⟩
    exact ⟨hid, hvalue, hwhen⟩
  · rintro ⟨hid, hvalue, p, hp, hvalid⟩
    exact ⟨hid, hvalue, by simp [hp], p, hp, hvalid⟩

/-- All rules are checked. -/
theorem validateRules_iff : ∀ {rs : List Rule} {i : Nat},
    validateRules env allowCEL i rs = .ok () ↔ ∀ r ∈ rs, ValidRule env allowCEL r
  | [], i => by simp [validateRules]
  | r :: rs, i => by
    rw [validateRules, seq_eq_ok, validateRule_iff, validateRules_iff, forall_mem_cons]

variable {t : RulesTree}

/-- **What `validateTreeWith` accepts.** -/
theorem validateTreeWith_iff :
    validateTreeWith env allowCEL t = .ok () ↔ ValidTree env allowCEL t := by
  unfold validateTreeWith
  rcases ht : t.valueType with vt | ⟨s, hs⟩
  · show (if _ then _ else _) = _ ↔ _
    rw [ite_error_eq_ok, validateRules_iff]
    constructor
    · rintro ⟨hdefault, hrules⟩
      exact ⟨⟨vt, ht⟩, hdefault, hrules⟩
    · rintro ⟨-, hdefault, hrules⟩
      exact ⟨hdefault, hrules⟩
  · constructor
    · intro h
      nomatch h
    · rintro ⟨⟨vt, hvt⟩, -, -⟩
      rw [ht] at hvt
      nomatch hvt

/-- Without `cel`, a tree is valid for all strategies. -/
theorem ValidTree.mono (h : ValidTree env false t) : ValidTree env allowCEL t where
  valueType := h.valueType
  default := h.default
  rules := by
    intro r hr
    obtain ⟨hid, hvalue, p, hp, hvalid⟩ := h.rules r hr
    exact ⟨hid, hvalue, p, hp, hvalid.mono⟩

theorem ValidTree.complete (h : ValidTree env allowCEL t) : t.Complete :=
  ⟨h.default, fun r hr => (h.rules r hr).value⟩

end Validation

/-! ## What CEL compilation does -/

mutual

/-- The CEL sources reached below a predicate, in the order `walkAndCompile` meets them. -/
def celSources : Predicate → List String
  | { kind, of, ofOne, source, .. } =>
    match kind with
    | .known .cel => [source]
    | .known .all | .known .any => celSourcesOf of
    | .known .not => celSourcesPtr ofOne
    | _ => []
  termination_by structural p => p

/-- `celSources` of a pointer. -/
def celSourcesPtr : Option Predicate → List String
  | none => []
  | some p => celSources p
  termination_by structural o => o

/-- `celSources` of the children. -/
def celSourcesOf : List (Option Predicate) → List String
  | [] => []
  | c :: cs => celSourcesPtr c ++ celSourcesOf cs
  termination_by structural cs => cs

end

/-- The CEL sources reached from a list of rules. -/
def ruleSources (rs : List Rule) : List String := rs.flatMap fun r => celSourcesPtr r.when

section Programs

variable {env : Env}

theorem addProgram_eq (out : Programs) (s : String) :
    addProgram env out s = add (celProgram env) out s := by
  unfold addProgram add
  cases out.lookup s <;> rfl

theorem walkOf_eq : ∀ (cs : List (Option Predicate)) (out : Programs),
    (∀ c, some c ∈ cs → ∀ out, walkNode env out c = addAll (celProgram env) out (celSources c)) →
    walkOf env out cs = addAll (celProgram env) out (celSourcesOf cs)
  | [], out, _ => by
    rw [walkOf, celSourcesOf]
    rfl
  | none :: cs, out, h => by
    rw [walkOf, celSourcesOf, celSourcesPtr, nil_append, walkAndCompile]
    exact walkOf_eq cs out fun c hc => h c (mem_cons_of_mem _ hc)
  | some c :: cs, out, h => by
    rw [walkOf, celSourcesOf, celSourcesPtr, walkAndCompile, h c mem_cons_self,
      addAll_append]
    refine congrArg _ (funext fun out => ?_)
    exact walkOf_eq cs out fun c hc => h c (mem_cons_of_mem _ hc)

/-- `walkAndCompile` compiles the sources it reaches, in order. -/
theorem walkNode_eq (p : Predicate) : ∀ out,
    walkNode env out p = addAll (celProgram env) out (celSources p) := by
  induction p with
  | node p hof hone =>
    intro out
    obtain ⟨kind, attr, value, values, pattern, salt, percent, of, ofOne, source⟩ := p
    rcases kind with k | _
    · cases k <;> simp only [walkNode, celSources]
      case cel =>
        show _ = (add (celProgram env) out source >>= pure)
        rw [bind_pure, addProgram_eq]
      case all => exact walkOf_eq of out hof
      case any => exact walkOf_eq of out hof
      case not =>
        cases ofOne with
        | none => rfl
        | some c => exact hone c rfl out
      all_goals rfl
    · rfl

/-- Each source is compiled once. -/
theorem walkAndCompile_eq (o : Option Predicate) (out : Programs) :
    walkAndCompile env out o = addAll (celProgram env) out (celSourcesPtr o) := by
  cases o with
  | none => rfl
  | some p => exact walkNode_eq p out

theorem compilePredicates_eq_ok : ∀ {rs : List Rule} {out out' : Programs},
    compilePredicates env out rs = .ok out' ↔
      addAll (celProgram env) out (ruleSources rs) = .ok out'
  | [], out, out' => Iff.rfl
  | r :: rs, out, out' => by
    rw [compilePredicates, bind_eq_ok, ruleSources, flatMap_cons, addAll_append,
      bind_eq_ok]
    refine exists_congr fun out1 => and_congr ?_ compilePredicates_eq_ok
    rw [mapError_eq_ok, walkAndCompile_eq]

/-- **The programs of a compilation**: what is found under a reached source is its program. -/
theorem compilePredicates_lookup {rs : List Rule} {out : Programs}
    (h : compilePredicates env [] rs = .ok out) {s : String} (hs : s ∈ ruleSources rs) :
    ∃ prog, out.lookup s = some prog ∧ celProgram env s = .ok prog :=
  addAll_lookup (compilePredicates_eq_ok.mp h) hs

/-- Compilation succeeds iff every reached source compiles. -/
theorem compilePredicates_iff {rs : List Rule} :
    (∃ out, compilePredicates env [] rs = .ok out) ↔
      ∀ s ∈ ruleSources rs, ∃ prog, celProgram env s = .ok prog := by
  rw [← addAll_iff]
  exact exists_congr fun out => compilePredicates_eq_ok

end Programs

/-! ## What the compilers make of a source -/

section Compile

variable {env : Env}

variable {t : RulesTree} {c : Compiled}

theorem finish_eq_ok {strategy : Strategy} :
    finish env strategy t = .ok c ↔ ValidTree env true t ∧
      ∃ out, compilePredicates env [] t.ruleList = .ok out ∧ c = ⟨strategy, t, out⟩ := by
  rw [finish, seq_eq_ok, validateTreeWith_iff, bind_eq_ok]
  refine and_congr Iff.rfl (exists_congr fun out => and_congr Iff.rfl ?_)
  constructor
  · intro h
    injection h with h
    exact h.symm
  · rintro rfl
    rfl

variable {src : Source}

/-- What the compiler of `json` accepts, -/
theorem jsonCompile_eq_ok :
    jsonCompile env src = .ok c ↔
      ∃ t, unmarshalTree src = .ok t ∧ ValidTree env false t ∧ c = ⟨.json, t, []⟩ := by
  unfold jsonCompile
  rcases unmarshalTree src with e | t
  · exact ⟨fun h => (nomatch h), fun ⟨_, h, _⟩ => (nomatch h)⟩
  · show (validateTree env t >>= _) = _ ↔ _
    rw [validateTree, seq_eq_ok, validateTreeWith_iff]
    constructor
    · rintro ⟨hvalid, h⟩
      injection h with h
      exact ⟨t, rfl, hvalid, h.symm⟩
    · rintro ⟨t', h, hvalid, rfl⟩
      injection h with h
      subst h
      exact ⟨hvalid, rfl⟩

/-- that of `cel`, -/
theorem celCompile_eq_ok :
    celCompile env src = .ok c ↔
      ∃ t, unmarshalTree src = .ok t ∧ finish env .cel t = .ok c := by
  unfold celCompile
  rcases unmarshalTree src with e | t
  · exact ⟨fun h => (nomatch h), fun ⟨_, h, _⟩ => (nomatch h)⟩
  · constructor
    · intro h
      exact ⟨t, rfl, h⟩
    · rintro ⟨t', h, h'⟩
      injection h with h
      exact h ▸ h'

/-- A source is rehydrated iff it decodes to a tree that `finish` accepts. -/
theorem tryRehydrateIR_eq_some :
    tryRehydrateIR env src = some c ↔
      ∃ t, unmarshalTree src = .ok t ∧ finish env .typescript t = .ok c := by
  unfold tryRehydrateIR
  rcases unmarshalTree src with e | t
  · exact ⟨fun h => (nomatch h), fun ⟨_, h, _⟩ => (nomatch h)⟩
  · constructor
    · intro h
      refine ⟨t, rfl, ?_⟩
      have h' : (if t.valueType.toString = "" then none else
        (finish env .typescript t).toOption) = some c := h
      split at h'
      · nomatch h'
      · cases hf : finish env .typescript t with
        | error e => rw [hf] at h'; nomatch h'
        | ok c' =>
          rw [hf] at h'
          injection h' with h'
          rw [h']
    · rintro ⟨t', h, h'⟩
      injection h with h
      subst h
      -- a tree that is accepted has a value type, so its name is not empty
      obtain ⟨vt, hvt⟩ := (finish_eq_ok.mp h').1.valueType
      show (if t.valueType.toString = "" then none else
        (finish env .typescript t).toOption) = some c
      rw [if_neg (by rw [hvt]; cases vt <;> decide), h']
      rfl

theorem runExport_eq_ok :
    runExport env src = .ok c ↔
      ∃ irJSON, env.runModule src = .ok irJSON ∧ env.docLen irJSON ≤ maxIRBytes ∧
        ∃ t, decodeTree irJSON = .ok t ∧ finish env .typescript t = .ok c := by
  unfold runExport
  rcases env.runModule src with e | irJSON
  · exact ⟨fun h => (nomatch h), fun ⟨_, h, _⟩ => (nomatch h)⟩
  · show (if _ then _ else _) = _ ↔ _
    rw [ite_error_eq_ok, Nat.not_lt]
    rcases ht : decodeTree irJSON with e | t
    · constructor
      · rintro ⟨-, h⟩
        nomatch h
      · rintro ⟨ir', h, -, t, h', -⟩
        injection h with h
        rw [← h, ht] at h'
        nomatch h'
    · constructor
      · rintro ⟨hlen, h⟩
        exact ⟨irJSON, rfl, hlen, t, ht, h⟩
      · rintro ⟨ir', h, hlen, t', h', hf⟩
        injection h with h
        subst h
        rw [ht] at h'
        injection h' with h'
        exact ⟨hlen, h' ▸ hf⟩

/-- and that of `typescript`. -/
theorem compileTypescript_eq_ok :
    compileTypescript env src = .ok c ↔ env.sourceLen src ≠ 0 ∧
      (tryRehydrateIR env src = some c ∨
        (tryRehydrateIR env src = none ∧ env.sourceLen src ≤ maxSourceTextBytes ∧
          ∃ irJSON, env.runModule src = .ok irJSON ∧ env.docLen irJSON ≤ maxIRBytes ∧
            ∃ t, decodeTree irJSON = .ok t ∧ finish env .typescript t = .ok c)) := by
  rw [compileTypescript, ite_error_eq_ok]
  refine and_congr Iff.rfl ?_
  rcases tryRehydrateIR env src with _ | c'
  · show (if _ then _ else _) = _ ↔ _
    rw [ite_error_eq_ok, Nat.not_lt, runExport_eq_ok]
    constructor
    · intro h
      exact .inr ⟨rfl, h⟩
    · rintro (h | ⟨-, h⟩)
      · nomatch h
      · exact h
  · constructor
    · intro h
      injection h with h
      exact .inl (by rw [h])
    · rintro (h | ⟨h, -⟩)
      · injection h with h
        rw [h]
      · nomatch h

theorem celSourcesOf_eq_nil : ∀ {cs : List (Option Predicate)},
    (∀ c, some c ∈ cs → celSources c = []) → celSourcesOf cs = []
  | [], _ => rfl
  | none :: cs, h => by
    rw [celSourcesOf, celSourcesPtr, nil_append]
    exact celSourcesOf_eq_nil fun c hc => h c (mem_cons_of_mem _ hc)
  | some c :: cs, h => by
    rw [celSourcesOf, celSourcesPtr, h c mem_cons_self, nil_append]
    exact celSourcesOf_eq_nil fun c hc => h c (mem_cons_of_mem _ hc)

/-- Without CEL predicates no CEL source is reached. -/
theorem ValidPredicate.celSources_eq_nil {p : Predicate} (h : ValidPredicate env false p) :
    celSources p = [] := by
  induction h with
  | @compare p k d hkind hk _ _ =>
    cases p
    subst hkind
    rcases hk with rfl | rfl | rfl | rfl | rfl | rfl | rfl <;> rfl
  | @all p hkind _ _ _ ih =>
    cases p
    subst hkind
    exact celSourcesOf_eq_nil ih
  | @any p hkind _ _ _ ih =>
    cases p
    subst hkind
    exact celSourcesOf_eq_nil ih
  | @not p c hkind hone _ ih =>
    cases p
    subst hkind hone
    exact ih
  | @cel p hkind hallow _ => nomatch hallow
  | @isIn p hkind | @«matches» p _ hkind | @rollout p hkind | @always p hkind
  | @segment p hkind =>
    cases p
    subst hkind
    rfl

/-- No program is needed. -/
theorem ValidTree.ruleSources_eq_nil (h : ValidTree env false t) :
    ruleSources t.ruleList = [] := by
  rw [ruleSources, flatMap_eq_nil_iff]
  intro r hr
  obtain ⟨-, -, p, hp, hvalid⟩ := h.rules r hr
  rw [hp, celSourcesPtr, hvalid.celSources_eq_nil]

/-- What every strategy guarantees of its result: a valid tree, and under each CEL source that an
    evaluation can reach the program of that source. -/
structure WellCompiled (env : Env) (c : Compiled) : Prop where
  valid : ValidTree env true c.ir
  programs : ∀ s ∈ ruleSources c.ir.ruleList,
    ∃ prog, c.celPrograms.lookup s = some prog ∧ celProgram env s = .ok prog

theorem WellCompiled.of_finish {strategy : Strategy}
    (h : finish env strategy t = .ok c) : WellCompiled env c := by
  obtain ⟨hvalid, out, hout, rfl⟩ := finish_eq_ok.mp h
  exact ⟨hvalid, fun s hs => compilePredicates_lookup hout hs⟩

/-- **Compiling gives a well-compiled flag**, whatever the strategy. -/
theorem wellCompiled_of_compile {st : Named Strategy}
    (h : compile env st src = .ok c) : WellCompiled env c := by
  rcases st with st | ⟨s, hs⟩
  · cases st with
    | json =>
      obtain ⟨t, -, hvalid, rfl⟩ := jsonCompile_eq_ok.mp h
      refine ⟨hvalid.mono, fun s hs => ?_⟩
      have hs' : s ∈ ruleSources t.ruleList := hs
      rw [hvalid.ruleSources_eq_nil] at hs'
      exact absurd hs' not_mem_nil
    | cel =>
      obtain ⟨t, -, hf⟩ := celCompile_eq_ok.mp h
      exact .of_finish hf
    | typescript =>
      obtain ⟨-, hre | ⟨-, -, ir, -, -, t, -, hf⟩⟩ := compileTypescript_eq_ok.mp h
      · obtain ⟨t, -, hf⟩ := tryRehydrateIR_eq_some.mp hre
        exact .of_finish hf
      · exact .of_finish hf
  · nomatch h

end Compile

end FalseFlag
