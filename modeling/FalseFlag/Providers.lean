/-
  The typed methods of the two providers (internal/sdkgo/provider.go, js/packages/sdk-js/src/
  provider.ts, and the lookup of a flag in client.ts).

  Both providers ask their client for a decision and coerce its value to the type of the method.
  docs/sdk-openfeature.md says what comes out: the default with reason `default` for a flag that is
  not in the snapshot, the decision itself when its value has the type, else the default, with the
  reason `error` kept and any other turned into `type_mismatch` (`contract`).  Three things are in
  the way:
  1. a missing flag reaches the coercion as a decision with value nil, which has no type: BOTH
     providers turn its reason into `type_mismatch`;
  2. `typed` of provider.ts forgets the reason `error`, the Go one keeps it;
  3. `typeof [] === "object"`: the object method of provider.ts lets arrays through.

  **`providers_follow_contract_iff`** says that there is nothing else.
-/
import FalseFlag.JsClient

namespace FalseFlag

open JsonTree Ecma

/-! ## provider.go -/

/-- `typed`: a value of another type is replaced, and so is the reason unless it is `error`. -/
def typed (d : Decision) (defaultValue : Value) (ok : Bool) : Decision :=
  if ok then d
  else
    { d with
      value := defaultValue
      reason := if d.reason ≠ .error then .typeMismatch else d.reason }

/-- The type assertions of the four methods.  Values come from JSON, so a number is a float64; an
    object is a `map[string]any`. -/
def assertType : ValueType → Value → Bool
  | .boolean, .bool _ => true
  | .string, .str _ => true
  | .number, .num _ => true
  | .object, .obj _ => true
  | _, _ => false

section Go

variable (env : Env) (cached : Option SdkSnapshot) (key : String)

/-- What the four methods share. -/
def typedEvaluation (method : ValueType) (defaultValue : Value) (ctx : Context) : Decision :=
  let d := clientEvaluate env cached key ctx
  typed d defaultValue (assertType method d.value)

def booleanEvaluation (defaultValue : Bool) (ctx : Context) : Decision :=
  typedEvaluation env cached key .boolean (.bool defaultValue) ctx

def stringEvaluation (defaultValue : String) (ctx : Context) : Decision :=
  typedEvaluation env cached key .string (.str defaultValue) ctx

def numberEvaluation (defaultValue : ℚ) (ctx : Context) : Decision :=
  typedEvaluation env cached key .number (.num defaultValue) ctx

def objectEvaluation (defaultValue : Value) (ctx : Context) : Decision :=
  typedEvaluation env cached key .object defaultValue ctx

end Go

/-! ## provider.ts -/

/-- What `snapshot.flags[flag]` can be. -/
inductive FlagProperty where
  | compiled (c : JsCompiled)
  | other
  | undefined

/-- `snapshot.flags[flag]`, on a plain object.  Names of `Object.prototype` are found there; a flag
    called `__proto__` has become the prototype itself, and lends its own two properties. -/
def flagProperty (flags : List (String × JsCompiled)) (flag : String) : FlagProperty :=
  match flags.lookup flag with
  | some c => .compiled c
  | none =>
    if flag = "__proto__" ∨ flag ∈ objectMethods ∨
        ((flags.lookup "__proto__").isSome = true ∧ (flag = "ir" ∨ flag = "celPrograms")) then .other
    else .undefined

section Js

variable (env : Env) (js : JsEnv) (flags : List (String × JsCompiled)) (version : Int)

/-- `evaluateFlag` of client.ts when a snapshot is loaded.  What is not a compiled flag has no `ir`,
    so that `evaluate` throws. -/
def jsEvaluateFlag (flag : String) (ctx : Ecma.Value) : Except String JsDecision :=
  match flagProperty flags flag with
  | .undefined => .ok { value := some .null, reason := .default, ruleId := none, version }
  | .other => .error "TypeError"
  | .compiled c => runEvaluate env js c ctx version

/-- `typed`. -/
def jsTyped (ok : Ecma.Value → Bool) (fallback : Json ℚ) (d : JsDecision) : JsDecision :=
  if ok (orUndefined d.value) then d
  else { d with value := some fallback, reason := .typeMismatch }

/-- The checks that the four methods pass to `typed`. -/
def typeCheck : ValueType → Ecma.Value → Bool
  | .boolean, v => v.typeOf = .boolean
  | .string, v => v.typeOf = .string
  | .number, v => v.typeOf = .number
  | .object, v => v.typeOf = .object && !v.isNull

/-- What the four methods share. -/
def resolveEvaluation (method : ValueType) (key : String) (defaultValue : Json ℚ)
    (context : Ecma.Value) : Except String JsDecision :=
  (jsEvaluateFlag env js flags version key context).map (jsTyped (typeCheck method) defaultValue)

def resolveBooleanEvaluation (key : String) (defaultValue : Bool) (context : Ecma.Value) :
    Except String JsDecision :=
  resolveEvaluation env js flags version .boolean key (.bool defaultValue) context

def resolveStringEvaluation (key : String) (defaultValue : String) (context : Ecma.Value) :
    Except String JsDecision :=
  resolveEvaluation env js flags version .string key (.str defaultValue) context

def resolveNumberEvaluation (key : String) (defaultValue : ℚ) (context : Ecma.Value) :
    Except String JsDecision :=
  resolveEvaluation env js flags version .number key (.num defaultValue) context

def resolveObjectEvaluation (key : String) (defaultValue : Json ℚ) (context : Ecma.Value) :
    Except String JsDecision :=
  resolveEvaluation env js flags version .object key defaultValue context

end Js

/-! ## The contract -/

/-- A call of one of the four methods: its default says which. -/
inductive Resolution where
  | boolean (defaultValue : Bool)
  | string (defaultValue : String)
  | number (defaultValue : ℚ)
  | object (defaultValue : Json ℚ)

namespace Resolution

def method : Resolution → ValueType
  | .boolean _ => .boolean
  | .string _ => .string
  | .number _ => .number
  | .object _ => .object

/-- The default, as it was written. -/
def written : Resolution → Json ℚ
  | .boolean b => .bool b
  | .string s => .str s
  | .number q => .num q
  | .object v => v

/-- The default as a Go value. -/
def default (r : Resolution) : Value := r.written.norm id

/-- The call in Go. -/
def go (r : Resolution) (env : Env) (snap : SdkSnapshot) (key : String) (ctx : Context) : Decision :=
  match r with
  | .boolean b => booleanEvaluation env (some snap) key b ctx
  | .string s => stringEvaluation env (some snap) key s ctx
  | .number q => numberEvaluation env (some snap) key q ctx
  | .object v => objectEvaluation env (some snap) key (v.norm id) ctx

/-- The call in JavaScript. -/
def js (r : Resolution) (env : Env) (jsEnv : JsEnv) (flags : List (String × JsCompiled))
    (version : Int) (key : String) (ctx : Ecma.Value) : Except String JsDecision :=
  match r with
  | .boolean b => resolveBooleanEvaluation env jsEnv flags version key b ctx
  | .string s => resolveStringEvaluation env jsEnv flags version key s ctx
  | .number q => resolveNumberEvaluation env jsEnv flags version key q ctx
  | .object v => resolveObjectEvaluation env jsEnv flags version key v ctx

theorem go_eq (r : Resolution) (env : Env) (snap : SdkSnapshot) (key : String) (ctx : Context) :
    r.go env snap key ctx = typedEvaluation env (some snap) key r.method r.default ctx := by
  cases r <;> rfl

theorem js_eq (r : Resolution) (env : Env) (jsEnv : JsEnv) (flags : List (String × JsCompiled))
    (version : Int) (key : String) (ctx : Ecma.Value) :
    r.js env jsEnv flags version key ctx =
      resolveEvaluation env jsEnv flags version r.method key r.written ctx := by
  cases r <;> rfl

end Resolution

/-- The evaluator's decision on a flag of the snapshot; `none` if the flag is not there. -/
def evaluatorDecision (env : Env) (snap : SdkSnapshot) (key : String) (ctx : Context) :
    Option Decision :=
  (snap.flags.lookup key).bind fun c => (evaluate env c ctx snap.version.toInt).toOption

/-- What the documentation promises, given the evaluator's decision. -/
def contract (r : Resolution) : Option Decision → Value × Reason
  | none => (r.default, .default)
  | some d =>
    if assertType r.method d.value then (d.value, d.reason)
    else (r.default, if d.reason = .error then .error else .typeMismatch)

/-- Both providers return what is expected. -/
def Returns (expected : Value × Reason) (go : Decision) (js : Except String JsDecision) : Prop :=
  (go.value, go.reason) = expected ∧
  ∃ j, js = .ok j ∧ ((j.value.map (·.norm id)).getD .null, j.reason) = expected

/-- The two SDKs have loaded the same snapshot, and their evaluators agree on its flags. -/
structure SnapshotsAgree (env : Env) (js : JsEnv) (snap : SdkSnapshot)
    (flags : List (String × JsCompiled)) (goCtx : Context) (jsCtx : Ecma.Value) : Prop where
  keys : ∀ key, (snap.flags.lookup key).isSome = (flags.lookup key).isSome
  decisions : ∀ key c cj, snap.flags.lookup key = some c → flags.lookup key = some cj →
    ∃ d dj, evaluate env c goCtx snap.version.toInt = .ok d ∧
      runEvaluate env js cj jsCtx snap.version.toInt = .ok dj ∧ dj.Same d

def valueIsArray : Value → Bool
  | .arr _ => true
  | _ => false

/-- The decisions that both providers coerce as promised.  Where the value does not have the type,
    the reason must not be `error`; and an array must not reach the object method, unless nobody can
    tell it from the default that should have taken its place. -/
def Coercible (r : Resolution) (d : Decision) : Prop :=
  assertType r.method d.value = true ∨
    if r.method = .object ∧ valueIsArray d.value = true then
      d.value = r.default ∧ (d.reason = .error ∨ d.reason = .typeMismatch)
    else d.reason ≠ .error

/-! ## What the providers return -/

section Results

variable {env : Env} {js : JsEnv} {snap : SdkSnapshot} {flags : List (String × JsCompiled)}
  {goCtx : Context} {jsCtx : Ecma.Value} {key : String}

variable {r : Resolution} {d : Decision}

/-- A flag that is there: Go keeps the contract. -/
theorem go_present (hd : clientEvaluate env (some snap) key goCtx = d) :
    ((r.go env snap key goCtx).value, (r.go env snap key goCtx).reason) = contract r (some d) := by
  rw [r.go_eq, typedEvaluation, hd]
  simp only [typed, contract]
  by_cases htype : assertType r.method d.value = true
  · rw [if_pos htype, if_pos htype]
  · rw [if_neg htype, if_neg htype]
    by_cases herr : d.reason = .error
    · simp [herr]
    · simp [herr]

/-- A flag that is not there: Go reports a type mismatch. -/
theorem go_missing (h : snap.flags.lookup key = none) :
    (r.go env snap key goCtx).reason = .typeMismatch := by
  rw [r.go_eq, typedEvaluation, clientEvaluate, h]
  cases r <;> rfl

/-- The check of provider.ts is the type, or lets an array through. -/
theorem typeCheck_eq (method : ValueType) (v : Option (Json ℚ)) :
    typeCheck method (orUndefined v) =
      (assertType method ((v.map (·.norm id)).getD .null) ||
        (decide (method = .object) && valueIsArray ((v.map (·.norm id)).getD .null))) := by
  rcases v with _ | v
  · cases method <;> rfl
  · show typeCheck method (.data v) = _
    rw [Option.map_some, Option.getD_some]
    cases v <;> cases method <;> simp [typeCheck, assertType, valueIsArray, Json.norm, Value.typeOf,
      Value.isNull]

variable {dj : JsDecision}

/-- A flag that is there, in JavaScript. -/
theorem js_present {cj : JsCompiled} {version : Int}
    (hcj : flags.lookup key = some cj) (hdj : runEvaluate env js cj jsCtx version = .ok dj) :
    r.js env js flags version key jsCtx = .ok (jsTyped (typeCheck r.method) r.written dj) := by
  rw [r.js_eq, resolveEvaluation, jsEvaluateFlag, flagProperty, hcj]
  show (runEvaluate env js cj jsCtx version).map _ = _
  rw [hdj]
  rfl

/-- What JavaScript makes of a decision, in Go's terms. -/
theorem jsTyped_result (hsame : dj.Same d) :
    (((jsTyped (typeCheck r.method) r.written dj).value.map (·.norm id)).getD .null,
        (jsTyped (typeCheck r.method) r.written dj).reason) =
      if assertType r.method d.value = true ∨ (r.method = .object ∧ valueIsArray d.value = true) then
        (d.value, d.reason)
      else (r.default, .typeMismatch) := by
  obtain ⟨hshows, hreason, -, -⟩ := hsame
  have hvalue : (dj.value.map (·.norm id)).getD .null = d.value := by
    rw [← shows_iff_of_string.mp hshows]
    cases dj.value <;> rfl
  have hcheck := typeCheck_eq r.method dj.value
  rw [hvalue] at hcheck
  unfold jsTyped
  rw [hcheck]
  by_cases h : assertType r.method d.value = true ∨ (r.method = .object ∧ valueIsArray d.value = true)
  · rw [if_pos h, if_pos (by simpa using h), hvalue, hreason]
  · rw [if_neg h, if_neg (by simpa using h)]
    rfl

/-- JavaScript keeps the contract exactly on the decisions that are `Coercible`. -/
theorem jsTyped_contract_iff (hsame : dj.Same d) :
    (((jsTyped (typeCheck r.method) r.written dj).value.map (·.norm id)).getD .null,
        (jsTyped (typeCheck r.method) r.written dj).reason) = contract r (some d) ↔
      Coercible r d := by
  rw [jsTyped_result hsame, contract, Coercible]
  by_cases htype : assertType r.method d.value = true
  · rw [if_pos (.inl htype), if_pos htype]
    exact ⟨fun _ => .inl htype, fun _ => rfl⟩
  rw [if_neg htype]
  by_cases harr : r.method = .object ∧ valueIsArray d.value = true
  · -- an array passes for an object
    rw [if_pos (.inr harr), if_pos harr, Prod.mk.injEq]
    by_cases herr : d.reason = .error
    · simp [htype, herr]
    · simp [htype, herr]
  · -- the default is served, and JavaScript has one reason for it
    rw [if_neg (not_or.mpr ⟨htype, harr⟩), if_neg harr, Prod.mk.injEq]
    by_cases herr : d.reason = .error
    · simp [htype, herr]
    · simp [htype, herr]

/-- **When the providers return what the documentation promises.**  For a snapshot that both SDKs
    have loaded, on whose flags their evaluators agree: the flag must be in the snapshot, and the
    decision on it `Coercible`. -/
theorem providers_follow_contract_iff (hagree : SnapshotsAgree env js snap flags goCtx jsCtx)
    (r : Resolution) (key : String) :
    Returns (contract r (evaluatorDecision env snap key goCtx)) (r.go env snap key goCtx)
        (r.js env js flags snap.version.toInt key jsCtx) ↔
      ∃ c d, snap.flags.lookup key = some c ∧
        evaluate env c goCtx snap.version.toInt = .ok d ∧ Coercible r d := by
  rcases hc : snap.flags.lookup key with _ | c
  · -- a missing flag: `type_mismatch` in place of `default`
    constructor
    · rintro ⟨hgo, -⟩
      have hreason := congrArg Prod.snd hgo
      rw [evaluatorDecision, hc] at hreason
      have hmissing := @go_missing env snap goCtx key r hc
      rw [show (r.go env snap key goCtx).reason = .default from hreason] at hmissing
      cases hmissing
    · rintro ⟨c, d, h, -⟩
      cases h
  · have hkeys := hagree.keys key
    rw [hc] at hkeys
    obtain ⟨cj, hcj⟩ := Option.isSome_iff_exists.mp hkeys.symm
    obtain ⟨d, dj, hd, hdj, hsame⟩ := hagree.decisions key c cj hc hcj
    have hclient : clientEvaluate env (some snap) key goCtx = d := by
      rw [clientEvaluate, hc]
      simp only [hd]
    have hdecision : evaluatorDecision env snap key goCtx = some d := by
      rw [evaluatorDecision, hc, Option.bind_some, hd]
      rfl
    rw [hdecision, Returns, go_present hclient, js_present hcj hdj]
    constructor
    · rintro ⟨-, j, hj, hresult⟩
      injection hj with hj
      subst hj
      exact ⟨c, d, rfl, hd, (jsTyped_contract_iff hsame).mp hresult⟩
    · rintro ⟨c', d', hc', hd', hcoercible⟩
      injection hc' with hc'
      subst hc'
      rw [hd] at hd'
      injection hd' with hd'
      subst hd'
      exact ⟨rfl, _, rfl, (jsTyped_contract_iff hsame).mpr hcoercible⟩

end Results

/-! ## The three ways out -/

/-- A flag whose default is an array; only the values of rules are checked against the type. -/
def listDoc : Doc :=
  .obj [("value_type", .str "object"), ("default", .arr [.num (.int 1)]), ("rules", .arr [])]

/-- A flag with a rule in error: the prefix is not a string. -/
def brokenDoc : Doc := .obj [("value_type", .str "boolean"), ("default", .bool false),
  ("rules", .arr [.obj [("id", .str "r1"),
    ("when", .obj [("kind", .str "starts_with"), ("attr", .str "plan"), ("value", .num (.int 5))]),
    ("value", .bool true)]])]

/-- The flags as the Go client has them, -/
def goFlag (d : Doc) : Compiled :=
  ⟨.cel, (match decodeTree d with | .ok t => t | .error _ => {}), []⟩

/-- and as the JavaScript client has them. -/
def jsFlag (d : Doc) : JsCompiled := ⟨readTree d, (readTree d).rules.getD [], []⟩

def twoFlags : SdkSnapshot := ⟨1, [("list", goFlag listDoc), ("broken", goFlag brokenDoc)]⟩

def twoJsFlags : List (String × JsCompiled) := [("list", jsFlag listDoc), ("broken", jsFlag brokenDoc)]

def proCtx : Context := [("plan", .str "pro")]

def proJsCtx : Ecma.Value := .data (.obj [("plan", .str "pro")])

theorem list_decisions : ∃ d dj, evaluate .plain (goFlag listDoc) proCtx 1 = .ok d ∧
    runEvaluate .plain .plain (jsFlag listDoc) proJsCtx 1 = .ok dj ∧ dj.Same d ∧
    d = ⟨.arr [.num 1], .default, "", 1⟩ := by
  refine ⟨⟨.arr [.num 1], .default, "", 1⟩, _, ?_, rfl, ?_, rfl⟩
  · decide +kernel
  · exact ⟨shows_iff_of_string.mpr (by decide +kernel), rfl, rfl, rfl⟩

theorem broken_decisions : ∃ d dj, evaluate .plain (goFlag brokenDoc) proCtx 1 = .ok d ∧
    runEvaluate .plain .plain (jsFlag brokenDoc) proJsCtx 1 = .ok dj ∧ dj.Same d ∧
    d = ⟨.bool false, .error, "r1", 1⟩ := by
  refine ⟨⟨.bool false, .error, "r1", 1⟩, _, ?_, rfl, ?_, rfl⟩
  · decide +kernel
  · exact ⟨shows_iff_of_string.mpr (by decide +kernel), by decide +kernel, by decide +kernel,
      by decide +kernel⟩

/-- What is found under a name, in both lists. -/
theorem lookup_twoFlags (key : String) :
    (twoFlags.flags.lookup key = some (goFlag listDoc) ∧ twoJsFlags.lookup key = some (jsFlag listDoc)) ∨
    (twoFlags.flags.lookup key = some (goFlag brokenDoc) ∧
      twoJsFlags.lookup key = some (jsFlag brokenDoc)) ∨
    (twoFlags.flags.lookup key = none ∧ twoJsFlags.lookup key = none) := by
  by_cases hlist : key = "list"
  · subst hlist
    exact .inl ⟨rfl, rfl⟩
  by_cases hbroken : key = "broken"
  · subst hbroken
    exact .inr (.inl ⟨rfl, rfl⟩)
  have hlist' : (key == "list") = false := beq_eq_false_iff_ne.mpr hlist
  have hbroken' : (key == "broken") = false := beq_eq_false_iff_ne.mpr hbroken
  refine .inr (.inr ?_)
  simp [twoFlags, twoJsFlags, List.lookup_cons, hlist', hbroken']

theorem twoFlags_agree : SnapshotsAgree .plain .plain twoFlags twoJsFlags proCtx proJsCtx where
  keys key := by
    rcases lookup_twoFlags key with ⟨h, h'⟩ | ⟨h, h'⟩ | ⟨h, h'⟩ <;> rw [h, h'] <;> rfl
  decisions key c cj hc hcj := by
    rcases lookup_twoFlags key with ⟨h, h'⟩ | ⟨h, h'⟩ | ⟨h, h'⟩ <;> rw [h] at hc <;> rw [h'] at hcj
    · injection hc with hc
      injection hcj with hcj
      subst hc hcj
      obtain ⟨d, dj, hd, hdj, hsame, -⟩ := list_decisions
      exact ⟨d, dj, hd, hdj, hsame⟩
    · injection hc with hc
      injection hcj with hcj
      subst hc hcj
      obtain ⟨d, dj, hd, hdj, hsame, -⟩ := broken_decisions
      exact ⟨d, dj, hd, hdj, hsame⟩
    · nomatch hc

/-- A flag that is not there; an error that JavaScript forgets; an array that it takes for an
    object.  The evaluators agree throughout. -/
theorem providers_break_contract :
    SnapshotsAgree .plain .plain twoFlags twoJsFlags proCtx proJsCtx ∧
    ((Resolution.boolean true).go .plain twoFlags "absent" proCtx).reason = .typeMismatch ∧
    contract (.boolean true) (evaluatorDecision .plain twoFlags "absent" proCtx) =
      (.bool true, .default) ∧
    (∃ j, (Resolution.string "none").js .plain .plain twoJsFlags 1 "broken" proJsCtx = .ok j ∧
      j.reason = .typeMismatch) ∧
    contract (.string "none") (evaluatorDecision .plain twoFlags "broken" proCtx) =
      (.str "none", .error) ∧
    (∃ j, (Resolution.object (.obj [])).js .plain .plain twoJsFlags 1 "list" proJsCtx = .ok j ∧
      j.value = some (.arr [.num 1]) ∧ j.reason = .default) ∧
    contract (.object (.obj [])) (evaluatorDecision .plain twoFlags "list" proCtx) =
      (.obj [], .typeMismatch) := by
  refine ⟨twoFlags_agree, by decide +kernel, by decide +kernel, ⟨_, rfl, ?_⟩, by decide +kernel,
    ⟨_, rfl, ?_, ?_⟩, by decide +kernel⟩
  · decide +kernel
  · decide +kernel
  · decide +kernel

/-- The boolean method on the flag in error: the value has the type, and both return it. -/
theorem broken_boolean_returned :
    Returns (.bool false, .error) ((Resolution.boolean true).go .plain twoFlags "broken" proCtx)
      ((Resolution.boolean true).js .plain .plain twoJsFlags 1 "broken" proJsCtx) := by
  obtain ⟨d, dj, hd, -, -, hd'⟩ := broken_decisions
  have hcontract : contract (.boolean true) (evaluatorDecision .plain twoFlags "broken" proCtx) =
      (.bool false, .error) := by decide +kernel
  rw [← hcontract]
  refine (providers_follow_contract_iff twoFlags_agree (.boolean true) "broken").mpr
    ⟨goFlag brokenDoc, d, rfl, hd, .inl ?_⟩
  rw [hd']
  rfl

end FalseFlag
