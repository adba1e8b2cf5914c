/-
  The evaluator of the JavaScript SDK (js/packages/sdk-js/src/evaluator.ts, rollout.ts, ir.ts).

  Go and JavaScript read the same IR and the same context, as JSON.  Go has typed fields and maps;
  JavaScript has what `JSON.parse` gives and reads properties, own or inherited.  Numbers are taken
  to be exact, and one predicate stands for both regular expression engines.

  The strings of JavaScript are of a type `S`: code units, of which Go makes a text when it reads
  them (`Json.text`), or texts, where nothing depends on the difference.

  * `readPtr_encodePredicate` — what JavaScript finds in the JSON of a Go predicate;
  * `jsRolloutBucket_eq` — the buckets are the same;
  * `jsJsonEqual_data` — `jsonEqual` is equality, the order of members included.
-/
import FalseFlag.Carried
import FalseFlag.Lib.Ecma

namespace FalseFlag

open List JsonTree Json Fallible Relators Ecma Predicate JNum
open Strings (ofText split startsWith text_ofText ofText_injective)

/-! ## The IR in JavaScript -/

/-- The interface `Predicate` of ir.ts. -/
structure JsPredicate (S : Type := String) where
  kind : Named PredicateKind := .ofString ""
  attr : Option S := none
  value : Option (Json ℚ S) := none
  values : Option (List (Json ℚ S)) := none
  pattern : Option S := none
  salt : Option S := none
  percent : Option ℚ := none
  of : Option (List (Option (JsPredicate S))) := none
  ofOne : Option (JsPredicate S) := none
  source : Option S := none

/-- The interface `Rule`. -/
structure JsRule (S : Type := String) where
  id : S
  when : Option (JsPredicate S)
  value : Option (Json ℚ S)

/-- The interface `RulesTree`; `rules` may be `null`. -/
structure JsTree (S : Type := String) where
  valueType : Named ValueType
  default : Option (Json ℚ S)
  rules : Option (List (JsRule S))

section Evaluator

variable {S : Type} [Strings S] [DecidableEq S]

/-- `JSON.parse` of a document. -/
abbrev parseDoc (d : Doc S) : Json ℚ S := Ecma.parse float64 d

/-- A number, as `JSON.parse` reads it: what no double holds is infinite. -/
def JNum.number (n : JNum) : Ecma.Number :=
  if float64InRange n.val then .finite n.float64 else .infinity (decide (n.val < 0))

/-- `JSON.parse`, with the numbers that are not finite. -/
abbrev parseJson (d : Doc S) : Json Ecma.Number S := Ecma.parse JNum.number d

/-- A string of the document. -/
def readString : Doc S → Option S
  | .str s => some s
  | _ => none

/-- A string of the document, compared with texts. -/
def readText (d : Doc S) : String := ((readString d).map Strings.text).getD ""

/-- A number of the document. -/
def readNumber : Doc S → Option ℚ
  | .num n => some n.float64
  | _ => none

/-- An array of the document. -/
def readArray : Doc S → Option (List (Json ℚ S))
  | .arr items => some (items.map parseDoc)
  | _ => none

/-- Set the property of a field; `ptr` and `ptrs` are the document as a child and as a list of
    children.  The interface does not have `key`. -/
def JsPredicate.put (cur : JsPredicate S) (d : Doc S) (ptr : Option (JsPredicate S))
    (ptrs : Option (List (Option (JsPredicate S)))) : PredicateField → JsPredicate S
  | .kind => { cur with kind := .ofString (readText d) }
  | .attr => { cur with attr := readString d }
  | .value => { cur with value := some (parseDoc d) }
  | .values => { cur with values := readArray d }
  | .pattern => { cur with pattern := readString d }
  | .salt => { cur with salt := readString d }
  | .percent => { cur with percent := readNumber d }
  | .of => { cur with of := ptrs }
  | .ofOne => { cur with ofOne := ptr }
  | .source => { cur with source := readString d }
  | .segmentKey => cur

/-- The names of the properties. -/
def jsFields : List (S × PredicateField) := predicateFields.map fun m => (ofText m.1, m.2)

mutual

/-- The properties of an object, one after the other. -/
def readMembers (cur : JsPredicate S) : List (S × Doc S) → JsPredicate S
  | [] => cur
  | (name, d) :: ms =>
    match jsFields.lookup name with
    | some f => readMembers (cur.put d (readPtr d) (readOf d) f) ms
    | none => readMembers cur ms
  termination_by structural ms => ms

/-- An object of the interface `Predicate`. -/
def readPtr : Doc S → Option (JsPredicate S)
  | .obj ms => some (readMembers {} ms)
  | _ => none
  termination_by structural d => d

/-- The array `of`. -/
def readOf : Doc S → Option (List (Option (JsPredicate S)))
  | .arr items => some (readPtrs items)
  | _ => none
  termination_by structural d => d

/-- The elements of `of`. -/
def readPtrs : List (Doc S) → List (Option (JsPredicate S))
  | [] => []
  | d :: ds => readPtr d :: readPtrs ds
  termination_by structural ds => ds

end

/-- A property of a parsed object. -/
def property (name : String) : Doc S → Option (Doc S)
  | .obj ms => ms.reverse.lookup (ofText name)
  | _ => none

def readRule (d : Doc S) : JsRule S where
  id := ((property "id" d).bind readString).getD (ofText "")
  when := (property "when" d).bind readPtr
  value := (property "value" d).map parseDoc

def readTree (d : Doc S) : JsTree S where
  valueType := .ofString (((property "value_type" d).map readText).getD "")
  default := (property "default" d).map parseDoc
  rules := (property "rules" d).bind fun
    | .arr items => some (items.map readRule)
    | _ => none

end Evaluator

/-! ## compile -/

/-- A compiled cel-lite program: `evalCEL` on the context. -/
abbrev JsCelProgram (S : Type := String) := Ecma.Value ℚ S → Bool

/-- What the SDK takes from elsewhere. -/
structure JsEnv (S : Type := String) [Strings S] where
  /-- How `JSON.stringify` prints numbers and strings. -/
  code : Code ℚ S
  /-- `compileCEL` of cel-lite.ts; an error is thrown. -/
  compileCEL : S → Except String (JsCelProgram S)
  /-- `re.test(s)`: what a regular expression says of texts, it says of strings. -/
  test : (String → Bool) → S → Bool
  test_ofText : ∀ re s, test re (ofText s) = re s

/-- `Map<string, CelProgram>`. -/
abbrev JsPrograms (S : Type := String) := List (S × JsCelProgram S)

/-- `Compiled` of evaluator.ts. -/
structure JsCompiled (S : Type := String) where
  ir : JsTree S
  rules : List (JsRule S)
  celPrograms : JsPrograms S

section Evaluator

variable {S : Type} [Strings S] [DecidableEq S]

/-- The source of a CEL node is compiled, unless it was before. -/
def walkSource (js : JsEnv S) (out : JsPrograms S) (kind : Named PredicateKind) :
    Option S → Except String (JsPrograms S)
  | none => .ok out
  | some src =>
    if kind = .known .cel ∧ out.lookup src = none then
      (js.compileCEL src).map fun prog => (src, prog) :: out
    else .ok out

mutual

/-- `walkAndCompileCEL` on one element: `if (!p) continue`. -/
def walkCELPtr (js : JsEnv S) (out : JsPrograms S) : Option (JsPredicate S) → Except String (JsPrograms S)
  | none => .ok out
  | some p => walkCELNode js out p
  termination_by structural o => o

/-- The body of the loop: a CEL source, then the children, whatever the kind. -/
def walkCELNode (js : JsEnv S) (out : JsPrograms S) : JsPredicate S → Except String (JsPrograms S)
  | { kind, of, ofOne, source, .. } => do
    let out ← walkSource js out kind source
    let out ← walkCELOf js out of
    walkCELPtr js out ofOne
  termination_by structural p => p

/-- `if (p.of) walkAndCompileCEL(p.of, out)`. -/
def walkCELOf (js : JsEnv S) (out : JsPrograms S) :
    Option (List (Option (JsPredicate S))) → Except String (JsPrograms S)
  | none => .ok out
  | some cs => walkCELList js out cs
  termination_by structural o => o

/-- `walkAndCompileCEL`. -/
def walkCELList (js : JsEnv S) (out : JsPrograms S) :
    List (Option (JsPredicate S)) → Except String (JsPrograms S)
  | [] => .ok out
  | p :: ps => do
    let out ← walkCELPtr js out p
    walkCELList js out ps
  termination_by structural ps => ps

end

/-- `compile`: `ir.rules.map` throws if `rules` is `null`. -/
def jsCompile (js : JsEnv S) (ir : JsTree S) : Except String (JsCompiled S) :=
  match ir.rules with
  | none => .error "TypeError"
  | some rules => (walkCELList js [] (rules.map (·.when))).map fun programs => ⟨ir, rules, programs⟩

/-! ## Leaves -/

/-- The loop of `lookup`. -/
def walkPath (cur : Ecma.Value ℚ S) : List S → Ecma.Value ℚ S
  | [] => cur
  | part :: parts =>
    if cur.isNull ∨ cur.typeOf ≠ .object then .undefined
    else walkPath (getProperty cur part) parts

/-- `lookup`. -/
def jsLookup (ctx : Ecma.Value ℚ S) (path : S) : Ecma.Value ℚ S :=
  if path = ofText "" then .undefined else walkPath ctx (split path)

/-- `typeof v === "string" ? v : undefined`. -/
def asString : Ecma.Value ℚ S → Option S
  | .data (.str s) => some s
  | _ => none

/-- `toNumber`: every number here is finite. -/
def toNumber : Ecma.Value ℚ S → Option ℚ
  | .data (.num q) => some q
  | _ => none

/-- `jsonEqual`, the same text in evaluator.ts and in cel-lite.ts. -/
def jsJsonEqual {N : Type} [Numbers N] (code : Code ℚ S) (a b : Ecma.Value N S) : Bool :=
  if strictEq a b then true
  else if a.isNull || b.isNull then false
  else if a.typeOf ≠ b.typeOf then false
  else if a.typeOf = .object then stringify code a == stringify code b
  else false

/-- A property that may be `undefined`. -/
def orUndefined : Option (Json ℚ S) → Ecma.Value ℚ S
  | none => .undefined
  | some v => .data v

/-- `cmpEq`, on the attribute. -/
def jsCmpEq (js : JsEnv S) (p : JsPredicate S) (actual : Ecma.Value ℚ S) : Bool :=
  if actual.typeOf = .undefined then false else jsJsonEqual js.code actual (orUndefined p.value)

/-- `cmpIn`, on the attribute. -/
def jsCmpIn (js : JsEnv S) (p : JsPredicate S) (actual : Ecma.Value ℚ S) : Bool :=
  if actual.typeOf = .undefined then false
  else (p.values.getD []).any fun v => jsJsonEqual js.code actual (.data v)

/-- `cmpOrd`, on the attribute. -/
def jsCmpOrd (kind : PredicateKind) (p : JsPredicate S) (actual : Ecma.Value ℚ S) : Bool :=
  match toNumber actual, toNumber (orUndefined p.value) with
  | some a, some b => ordHolds kind a b
  | _, _ => false

/-- `cmpMatches`, on the attribute; a pattern that does not compile does not match. -/
def jsCmpMatches (env : Env) (js : JsEnv S) (p : JsPredicate S) (actual : Ecma.Value ℚ S) : Bool :=
  match asString actual with
  | none => false
  | some s =>
    match env.regexpCompile ((p.pattern.map Strings.text).getD "") with
    | .error _ => false
    | .ok re => js.test re s

/-- `cmpStartsWith`, on the attribute. -/
def jsCmpStartsWith (p : JsPredicate S) (actual : Ecma.Value ℚ S) : Except String Bool :=
  match asString actual with
  | none => .ok false
  | some s =>
    match asString (orUndefined p.value) with
    | none => .error "starts_with value must be a string"
    | some head => .ok (startsWith s head)

/-! ### Rollout -/

/-- `fnv1a64`, on `bigint`s. -/
def fnv1a64 (bytes : List UInt8) : Nat :=
  bytes.foldl (fun hash byte => (Nat.xor hash byte.toNat * 0x100000001b3) % 2 ^ 64)
    0xcbf29ce484222325

/-- `rolloutBucket`. -/
def jsRolloutBucket (salt attrValue : String) : Nat :=
  fnv1a64 (utf8 salt ++ utf8 ":" ++ utf8 attrValue) % 10000

/-- `inBucket`. -/
def jsInBucket (salt attrValue : String) (percent : ℚ) : Bool :=
  if percent ≤ 0 then false
  else if 100 ≤ percent then true
  else decide ((jsRolloutBucket salt attrValue : ℚ) < percent * 100)

/-- The rollout case of `match`, on the attribute. -/
def jsRollout (p : JsPredicate S) (actual : Ecma.Value ℚ S) : Bool :=
  match asString actual with
  | none => false
  | some v => jsInBucket ((p.salt.map Strings.text).getD "") (Strings.text v) (p.percent.getD 0)

/-! ## match -/

/-- The test of a leaf on its attribute.  A kind without a case returns `undefined`, which every
    caller takes for false. -/
def jsTest (env : Env) (js : JsEnv S) (p : JsPredicate S) (actual : Ecma.Value ℚ S) : Except String Bool :=
  match p.kind with
  | .known .eq | .known .neq => .ok (jsCmpEq js p actual)
  | .known .isIn => .ok (jsCmpIn js p actual)
  | .known .gt => .ok (jsCmpOrd .gt p actual)
  | .known .gte => .ok (jsCmpOrd .gte p actual)
  | .known .lt => .ok (jsCmpOrd .lt p actual)
  | .known .lte => .ok (jsCmpOrd .lte p actual)
  | .known .matches => .ok (jsCmpMatches env js p actual)
  | .known .startsWith => jsCmpStartsWith p actual
  | .known .rollout => .ok (jsRollout p actual)
  | _ => .ok false

/-- The cases of `match` that look at no child. -/
def jsLeaf (env : Env) (js : JsEnv S) (programs : JsPrograms S) (ctx : Ecma.Value ℚ S) (p : JsPredicate S) :
    Except String Bool :=
  match p.kind with
  | .known .always => .ok true
  | .known .neq => (jsTest env js p (jsLookup ctx (p.attr.getD (ofText "")))).map (!·)
  | .known .cel =>
    match programs.lookup (p.source.getD (ofText "")) with
    | none => .error "cel program missing for source"
    | some prog => .ok (prog ctx)
  | _ => jsTest env js p (jsLookup ctx (p.attr.getD (ofText "")))

section Match

variable (leaf : JsPredicate S → Except String Bool)

mutual

/-- `match` on a child; reading `p.kind` of nothing throws. -/
def jsMatchPtr : Option (JsPredicate S) → Except String Bool
  | none => .error "TypeError"
  | some p => jsMatch p
  termination_by structural o => o

/-- `match`, for given leaves. -/
def jsMatch : JsPredicate S → Except String Bool
  | p@{ kind, of, ofOne, .. } =>
    match kind with
    | .known .all => jsEveryOf of
    | .known .any => jsSomeOf of
    | .known .not => (jsMatchPtr ofOne).map (!·)
    | _ => leaf p
  termination_by structural p => p

/-- `(p.of ?? []).every`. -/
def jsEveryOf : Option (List (Option (JsPredicate S))) → Except String Bool
  | none => .ok true
  | some cs => jsEvery cs
  termination_by structural o => o

/-- `(p.of ?? []).some`. -/
def jsSomeOf : Option (List (Option (JsPredicate S))) → Except String Bool
  | none => .ok false
  | some cs => jsSome cs
  termination_by structural o => o

/-- `every`. -/
def jsEvery : List (Option (JsPredicate S)) → Except String Bool
  | [] => .ok true
  | c :: cs => do
    if ← jsMatchPtr c then jsEvery cs else pure false
  termination_by structural cs => cs

/-- `some`. -/
def jsSome : List (Option (JsPredicate S)) → Except String Bool
  | [] => .ok false
  | c :: cs => do
    if ← jsMatchPtr c then pure true else jsSome cs
  termination_by structural cs => cs

end

end Match

/-! ## evaluate -/

/-- `Decision` of ir.ts; `undefined` properties are `none`. -/
structure JsDecision (S : Type := String) where
  value : Option (Json ℚ S)
  reason : Reason
  ruleId : Option S
  version : Int

/-- `valueMatchesType`. -/
def jsValueMatchesType (v : Option (Json ℚ S)) (t : Named ValueType) : Bool :=
  match t, v with
  | .known .boolean, some (.bool _) => true
  | .known .string, some (.str _) => true
  | .known .number, some (.num _) => true
  | .known .object, some (.obj _) => true
  | _, _ => false

/-- `reasonForRule`. -/
def jsReasonForRule (p : Option (JsPredicate S)) : Reason :=
  match p with
  | some p => if p.kind = .known .rollout then .rolloutInBucket else .ruleMatched
  | none => .ruleMatched

/-- The loop of `evaluate`. -/
def jsEvaluateRules (env : Env) (js : JsEnv S) (c : JsCompiled S) (ctx : Ecma.Value ℚ S) (version : Int) :
    List (JsRule S) → JsDecision S
  | [] => { value := c.ir.default, reason := .default, ruleId := none, version }
  | rule :: rules =>
    match jsMatchPtr (jsLeaf env js c.celPrograms ctx) rule.when with
    | .error _ => { value := c.ir.default, reason := .error, ruleId := some rule.id, version }
    | .ok false => jsEvaluateRules env js c ctx version rules
    | .ok true =>
      if jsValueMatchesType rule.value c.ir.valueType then
        { value := rule.value, reason := jsReasonForRule rule.when, ruleId := some rule.id, version }
      else { value := c.ir.default, reason := .typeMismatch, ruleId := some rule.id, version }

/-- `evaluate`. -/
def jsEvaluate (env : Env) (js : JsEnv S) (c : JsCompiled S) (ctx : Ecma.Value ℚ S) (version : Int) :
    JsDecision S :=
  jsEvaluateRules env js c ctx version c.rules

/-! ## The same in both languages -/

/-- A value in JavaScript shows a value in Go: the order of members apart, and without a string that
    is no text. -/
def Shows (b : Json ℚ S) (v : Value) : Prop := b.Textual ∧ b.text.norm id = v

/-- A lookup in JavaScript finds what one in Go finds. -/
def Found (x : Ecma.Value ℚ S) (o : Option Value) : Prop :=
  (x = .undefined ↔ o = none) ∧ ∀ v, o = some v → ∃ b, x = .data b ∧ Shows b v

omit [DecidableEq S] in
/-- Where Go finds nothing, the lookups agree if JavaScript does not either. -/
theorem found_none {x : Ecma.Value ℚ S} : Found x none ↔ x = .undefined := by
  refine ⟨fun h => h.1.mpr rfl, fun h => ⟨⟨fun _ => rfl, fun _ => h⟩, ?_⟩⟩
  intro v hv
  cases hv

omit [DecidableEq S] in
/-- Where Go finds something, JavaScript has to find it. -/
theorem found_some {x : Ecma.Value ℚ S} {v : Value} :
    Found x (some v) ↔ ∃ b, x = .data b ∧ Shows b v := by
  constructor
  · exact fun h => h.2 v rfl
  · rintro ⟨b, rfl, hb⟩
    refine ⟨⟨fun h => (by cases h), fun h => (by cases h)⟩, ?_⟩
    rintro _ ⟨⟩
    exact ⟨b, rfl, hb⟩

/-- The two decisions are one. -/
def JsDecision.Same (j : JsDecision S) (g : Decision) : Prop :=
  Shows (j.value.getD .null) g.value ∧ j.reason = g.reason ∧
    j.ruleId.getD (ofText "") = ofText g.ruleId ∧ j.version = g.version

/-- Where strings are texts, a value shows its canonical form. -/
theorem shows_iff_of_string {b : Json ℚ} {v : Value} : Shows b v ↔ b.norm id = v := by
  rw [Shows, text_of_string]
  exact and_iff_right (textual_of_string b)

/-- What was parsed shows the value of the document, if its strings are texts. -/
theorem shows_parse {d : Doc S} : Shows (parseDoc d) (Doc.value d.text) ↔ (parseDoc d).Textual :=
  and_iff_left_of_imp (norm_text_parse _ d)

/-! ## What JavaScript reads -/

/-- The names of the properties are the names of the Go fields. -/
theorem lookup_jsFields {name : S} {f : PredicateField} :
    jsFields.lookup name = some f ↔ name = ofText f.name := by
  have hnodup : ((jsFields (S := S)).map Prod.fst).Nodup := by
    have h : (predicateFields.map Prod.fst).Nodup := by decide
    rw [jsFields, map_map]
    have hmap := h.map_on (f := (ofText : String → S)) fun _ _ _ _ h => ofText_injective h
    rwa [map_map] at hmap
  rw [lookup_eq_some_iff hnodup]
  constructor
  · intro h
    obtain ⟨m, hm, heq⟩ := mem_map.mp h
    obtain ⟨rfl, rfl⟩ := Prod.mk.inj heq
    have hall : ∀ m ∈ predicateFields, m.1 = m.2.name := by decide
    rw [hall m hm]
  · rintro rfl
    have hmem : (f.name, f) ∈ predicateFields := by cases f <;> decide
    exact mem_map_of_mem (f := fun m => ((ofText m.1 : S), m.2)) hmem

/-- What a property holds. -/
def PredicateField.JsContent (S : Type) : PredicateField → Type
  | .kind => Named PredicateKind
  | .value => Option (Json ℚ S)
  | .values => Option (List (Json ℚ S))
  | .percent => Option ℚ
  | .of => Option (List (Option (JsPredicate S)))
  | .ofOne => Option (JsPredicate S)
  | .attr | .pattern | .salt | .source => Option S
  | .segmentKey => Unit

def JsPredicate.get : (f : PredicateField) → JsPredicate S → f.JsContent S
  | .kind, q => q.kind
  | .attr, q => q.attr
  | .value, q => q.value
  | .values, q => q.values
  | .pattern, q => q.pattern
  | .salt, q => q.salt
  | .percent, q => q.percent
  | .of, q => q.of
  | .ofOne, q => q.ofOne
  | .source, q => q.source
  | .segmentKey, _ => ()

/-- What a document is read as. -/
def JsPredicate.content : (f : PredicateField) → Doc S → f.JsContent S
  | .kind, d => .ofString (readText d)
  | .attr, d => readString d
  | .value, d => some (parseDoc d)
  | .values, d => readArray d
  | .pattern, d => readString d
  | .salt, d => readString d
  | .percent, d => readNumber d
  | .of, d => readOf d
  | .ofOne, d => readPtr d
  | .source, d => readString d
  | .segmentKey, _ => ()

theorem JsPredicate.get_put (cur : JsPredicate S) (d : Doc S) (f : PredicateField) :
    (cur.put d (readPtr d) (readOf d) f).get f = JsPredicate.content f d := by
  cases f <;> rfl

theorem JsPredicate.get_put_other (cur : JsPredicate S) (d : Doc S) (ptr : Option (JsPredicate S))
    (ptrs : Option (List (Option (JsPredicate S)))) {f g : PredicateField} (h : f ≠ g) :
    (cur.put d ptr ptrs f).get g = cur.get g := by
  cases f <;> cases g <;> first | rfl | exact absurd rfl h

/-- A property is what it was last set to. -/
theorem get_readMembers (f : PredicateField) : ∀ (ms : List (S × Doc S)) (cur : JsPredicate S),
    (readMembers cur ms).get f =
      ((ms.reverse.lookup (ofText f.name)).map (JsPredicate.content f)).getD (cur.get f)
  | [], cur => by simp [readMembers]
  | (name, d) :: ms, cur => by
    have ih := get_readMembers f ms
    rw [readMembers, reverse_cons, lookup_append]
    by_cases h : ofText f.name = name
    · -- set here, unless it is set again
      subst h
      rw [lookup_jsFields.mpr rfl]
      simp only [ih, JsPredicate.get_put]
      rcases ms.reverse.lookup (ofText f.name) with _ | d'
      · simp
      · simp
    · have hskip : ∀ cur', cur'.get f = cur.get f →
          (readMembers cur' ms).get f = (((ms.reverse.lookup (ofText f.name)).or
            ([(name, d)].lookup (ofText f.name))).map (JsPredicate.content f)).getD (cur.get f) := by
        intro cur' hcur'
        rw [ih, hcur', lookup_cons, beq_eq_false_iff_ne.mpr h, lookup_nil, Option.or_none]
      rcases hf' : jsFields.lookup name with _ | f'
      · exact hskip cur rfl
      · refine hskip _ (JsPredicate.get_put_other _ _ _ _ ?_)
        rintro rfl
        exact h (lookup_jsFields.mp hf').symm

/-- What the properties of a parsed predicate say about the one it was written from: every `??`
    puts back what `omitempty` left out. -/
structure JsPredicate.Reads (q : JsPredicate S) (p : Predicate S) : Prop where
  kind : q.kind = p.kind
  attr : q.attr.getD (ofText "") = ofText p.attr
  value : q.value = p.value.map parseDoc
  values : q.values.getD [] = p.values.map parseDoc
  pattern : (q.pattern.map Strings.text).getD "" = p.pattern
  salt : (q.salt.map Strings.text).getD "" = p.salt
  percent : q.percent.getD 0 = (int p.percent.toInt).float64
  of : q.of.getD [] = p.of.map fun o => readPtr (encodePtr o)
  ofOne : q.ofOne = p.ofOne.bind fun c => readPtr (encodePredicate c)

theorem readPtrs_eq_map (ds : List (Doc S)) : readPtrs ds = ds.map readPtr := by
  induction ds with
  | nil => rfl
  | cons d ds ih => rw [readPtrs, ih, map_cons]

theorem lookup_optField (name k : String) (v : Option (Doc S)) :
    (optField name v).lookup (ofText k) = if k = name then v else none := by
  rcases v with _ | d
  · rw [ite_self]
    rfl
  · rw [optField, lookup_cons_ite]
    exact if_congr ⟨ofText_injective, congrArg _⟩ rfl rfl

omit [DecidableEq S] in
theorem reverse_optField (name : String) (v : Option (Doc S)) :
    (optField name v).reverse = optField name v := by
  cases v <;> rfl

/-- The members of the JSON of a predicate, each under its name. -/
theorem encodePredicate_members (p : Predicate S) : ∃ ms, encodePredicate p = .obj ms ∧
    ∀ f : PredicateField, ms.reverse.lookup (ofText f.name) = p.member f := by
  obtain ⟨kind⟩ := p
  refine ⟨_, rfl, fun f => ?_⟩
  have hkind : ∀ d : Doc S, [(ofText "kind", d)] = optField "kind" (some d) := fun _ => rfl
  cases f <;>
    simp [lookup_append, reverse_optField, lookup_optField, hkind, PredicateField.name,
      member]

omit [DecidableEq S] in
theorem readString_omitString (s : String) :
    (((omitString s).map readString).getD none).getD (ofText "") = (ofText s : S) := by
  unfold omitString
  split
  · rename_i h
    rw [h]
    rfl
  · rfl

omit [DecidableEq S] in
theorem readText_omitString (s : String) :
    ((((omitString s : Option (Doc S)).map readString).getD none).map Strings.text).getD "" = s := by
  unfold omitString
  split
  · rename_i h
    exact h.symm
  · exact text_ofText s

/-- **The JSON of a predicate, read in JavaScript.** -/
theorem readPtr_encodePredicate (p : Predicate S) :
    ∃ q, readPtr (encodePredicate p) = some q ∧ q.Reads p := by
  obtain ⟨ms, hms, hlookup⟩ := encodePredicate_members p
  rw [hms, readPtr]
  refine ⟨_, rfl, ?_⟩
  have hget : ∀ f : PredicateField, (readMembers {} ms).get f =
      ((p.member f).map (JsPredicate.content f)).getD (JsPredicate.get f {}) := fun f => by
    rw [get_readMembers, hlookup]
  generalize readMembers {} ms = q at hget
  exact {
    kind := by
      have h : q.kind = .ofString (Strings.text (ofText p.kind.toString : S)) := hget .kind
      rw [h, text_ofText, Named.ofString_toString]
    attr := (congrArg (Option.getD · (ofText "")) (hget .attr)).trans (readString_omitString p.attr)
    value := by
      have h : q.value = _ := hget .value
      rw [h, member]
      cases p.value <;> rfl
    values := by
      have h : q.values = _ := hget .values
      rw [h, member, omitList]
      split
      · rename_i hnil
        rw [hnil]
        rfl
      · rfl
    pattern := (congrArg (fun o => (o.map Strings.text).getD "") (hget .pattern)).trans
      (readText_omitString p.pattern)
    salt := (congrArg (fun o => (o.map Strings.text).getD "") (hget .salt)).trans (readText_omitString p.salt)
    percent := by
      have h : q.percent = _ := hget .percent
      rw [h, member, omitInt]
      split
      · rename_i hzero
        rw [hzero]
        show (0 : ℚ) = (int 0).float64
        decide +kernel
      · rfl
    of := by
      have h : q.of = _ := hget .of
      rw [h, member, omitList, encodePtrs_eq_map]
      split
      · rename_i hnil
        rw [map_eq_nil_iff.mp hnil]
        rfl
      · show (readOf _).getD [] = _
        rw [readOf, Option.getD_some, readPtrs_eq_map, map_map]
        rfl
    ofOne := by
      have h : q.ofOne = _ := hget .ofOne
      rw [h, member]
      cases p.ofOne <;> rfl }

end Evaluator

/-! ## The same bucket -/

/-- Masked `bigint`s are 64-bit words. -/
theorem toNat_fnvWrite (bytes : List UInt8) : ∀ h : UInt64,
    (fnvWrite h bytes).toNat =
      bytes.foldl (fun hash byte => (Nat.xor hash byte.toNat * 0x100000001b3) % 2 ^ 64) h.toNat := by
  induction bytes with
  | nil => exact fun _ => rfl
  | cons b bs ih =>
    intro h
    have hstep : ((h ^^^ b.toUInt64) * fnvPrime).toNat =
        (Nat.xor h.toNat b.toNat * 0x100000001b3) % 2 ^ 64 := by
      rw [UInt64.toNat_mul, UInt64.toNat_xor, UInt8.toNat_toUInt64]
      rfl
    rw [foldl_cons, ← hstep, ← ih]
    rfl

/-- **JavaScript and Go compute the same bucket.** -/
theorem jsRolloutBucket_eq (salt attrValue : String) :
    jsRolloutBucket salt attrValue = rolloutBucket salt attrValue := by
  have hwrite : fnvWrite (fnvWrite (fnvWrite fnvOffset (utf8 salt)) (utf8 ":")) (utf8 attrValue) =
      fnvWrite fnvOffset (utf8 salt ++ utf8 ":" ++ utf8 attrValue) := by
    simp only [fnvWrite, foldl_append]
  rw [rolloutBucket, hwrite, UInt64.toNat_mod, toNat_fnvWrite]
  rfl

theorem float64_percent : ∀ i : Fin 101, (int (i : ℕ)).float64 = (i : ℕ) := by
  decide +kernel

/-- Read as a number, an integer stays on its side of 0 and of 100. -/
theorem float64_percent_sides (i : ℤ) :
    (int i).float64 = i ∨ (i ≤ 0 ∧ (int i).float64 ≤ 0) ∨
      (100 ≤ i ∧ 100 ≤ (int i).float64) := by
  have hval : (int i).val = (i : ℚ) := rfl
  rcases le_or_gt i 0 with hlo | hlo
  · refine .inr (.inl ⟨hlo, Binary.binary64.round_nonpos ?_⟩)
    rw [hval]
    exact_mod_cast hlo
  rcases le_or_gt 100 i with hhi | hhi
  · refine .inr (.inr ⟨hhi, ?_⟩)
    refine Binary.binary64.le_round (m := 100) (by decide) (by decide) (by decide) ?_
    rw [hval]
    exact_mod_cast hhi
  · obtain ⟨k, rfl⟩ := Int.eq_ofNat_of_zero_le hlo.le
    exact .inl (float64_percent ⟨k, by omega⟩)

/-- **The gate is the same for every integer.** -/
theorem jsInBucket_eq (salt attrValue : String) (percent : Int64) :
    jsInBucket salt attrValue (int percent.toInt).float64 = inBucket salt attrValue percent := by
  have hzero : (percent ≤ 0) = (percent.toInt ≤ 0) := by rw [Int64.le_iff_toInt_le]; rfl
  have hhundred : (percent ≥ 100) = (100 ≤ percent.toInt) := by
    rw [ge_iff_le, Int64.le_iff_toInt_le]
    rfl
  unfold jsInBucket inBucket
  simp only [hzero, hhundred]
  rcases float64_percent_sides percent.toInt with hfloat | ⟨hlo, hfloat⟩ | ⟨hhi, hfloat⟩
  · rw [hfloat, jsRolloutBucket_eq]
    norm_cast
  · rw [if_pos hfloat, if_pos hlo]
  · rw [if_neg (not_le.mpr (lt_of_lt_of_le (by norm_num) hfloat)), if_pos hfloat, if_neg (by omega),
      if_pos hhi]

/-! ## The same value -/

section Values

variable {S : Type} [Strings S] [DecidableEq S]

/-- What `jsonEqual` makes of JSON: arrays and objects are equal if they are written alike. -/
def WrittenAlike {N : Type} [Numbers N] : Json N S → Json N S → Prop
  | .null, .null => True
  | .bool a, .bool b => a = b
  | .num a, .num b => Numbers.same a b = true
  | .str a, .str b => a = b
  | .arr xs, .arr ys => written (.arr xs) = written (.arr ys)
  | .obj ms, .obj ns => written (.obj ms) = written (.obj ns)
  | _, _ => False

omit [Strings S] in
theorem jsJsonEqual_plain {N : Type} [Numbers N] (code : Code ℚ S) {x y : Ecma.Value N S}
    {a b : Json N S} (hx : x.plain = some a) (hy : y.plain = some b) :
    jsJsonEqual code x y = true ↔ WrittenAlike a b := by
  have htext : (stringify code x == stringify code y) = true ↔ written a = written b := by
    rw [beq_iff_eq, stringify_eq_iff, toJson_of_plain hx, toJson_of_plain hy, Option.some_inj]
  unfold jsJsonEqual
  -- an array literal is an object, like a parsed array
  rcases plain_cases hx with rfl | ⟨xs, vs, rfl, rfl, -⟩ <;>
    rcases plain_cases hy with rfl | ⟨ys, ws, rfl, rfl, -⟩
  · cases a <;> cases b <;>
      simp_all [strictEq, Ecma.Value.isNull, Ecma.Value.typeOf, WrittenAlike, written, Json.replace]
  · cases a <;>
      simp_all [strictEq, Ecma.Value.isNull, Ecma.Value.typeOf, WrittenAlike, written, Json.replace]
  · cases b <;>
      simp_all [strictEq, Ecma.Value.isNull, Ecma.Value.typeOf, WrittenAlike, written, Json.replace]
  · simp_all [strictEq, Ecma.Value.isNull, Ecma.Value.typeOf, WrittenAlike]

omit [Strings S] [DecidableEq S] in
/-- Where numbers are finite, JSON that is written alike is equal, order included. -/
theorem writtenAlike_finite {N : Type} [Numbers N] {f : ℚ → N}
    (hf : ∀ q, Numbers.finite? (f q) = some q)
    (hsame : ∀ p q, Numbers.same (f p) (f q) = true ↔ p = q) (a b : Json ℚ S) :
    WrittenAlike (a.mapNum f) (b.mapNum f) ↔ a = b := by
  have hwritten : written (a.mapNum f) = written (b.mapNum f) ↔ a = b := by
    rw [written_finite hf, written_finite hf]
  cases a <;> cases b <;> simp_all [WrittenAlike, mapNum, Json.replace]

omit [Strings S] in
/-- On parsed values with finite numbers `jsonEqual` is equality, order included. -/
theorem jsJsonEqual_data (code : Code ℚ S) (a b : Json ℚ S) :
    jsJsonEqual code (.data a) (.data b) = decide (a = b) := by
  have hid : ∀ v : Json ℚ S, v.mapNum id = v := Json.replace_eq_self (fun _ => rfl) fun _ => rfl
  rw [Bool.eq_iff_iff, decide_eq_true_eq, jsJsonEqual_plain code rfl rfl, ← hid a, ← hid b]
  exact (writtenAlike_finite (fun _ => rfl) (fun _ _ => decide_eq_true_iff) a b).trans
    (by rw [hid, hid])

/-! ## The context -/

/-- The context of the Go evaluator: a request body, decoded. -/
def goContext (ctx : List (S × Doc S)) : Context :=
  normMembers float64 [] (replaceMembers .num Strings.text ctx)

/-- The context of the JavaScript evaluator: the same text, parsed. -/
def jsContext (ctx : List (S × Doc S)) : Ecma.Value ℚ S := .data (parseDoc (.obj ctx))

end Values

end FalseFlag
