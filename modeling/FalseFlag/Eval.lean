/-
  The evaluator (internal/eval: eval.go, predicates.go, rollout.go).

  Go returns `(bool, error)` from `match`; an `Outcome` is that pair, with the flag kept beside an
  error (`neq` leaves `true` there, and the trace records it).  `Outcome.toExcept` forgets the flag
  of a failed match, which is all `Evaluate` looks at: `all` and `any` are the short-circuit
  conjunction and disjunction of their children (`toExcept_connectAll`, `toExcept_connectAny`).

  The evaluation context is an arbitrary `map[string]any`, the programs an arbitrary map.
-/
import FalseFlag.Compile

namespace FalseFlag

open JsonTree Fallible

/-! ## Outcomes -/

/-- Go's `(bool, error)`; the error is its text. -/
structure Outcome where
  ok : Bool
  err : Option String
  deriving DecidableEq

namespace Outcome

/-- `return b, nil`. -/
def result (b : Bool) : Outcome := { ok := b, err := none }

/-- `return false, err`. -/
def failed (text : String) : Outcome := { ok := false, err := some text }

/-- `return !ok, err`. -/
def not (o : Outcome) : Outcome := { o with ok := !o.ok }

/-- The outcome as its callers see it: an error, or a boolean. -/
def toExcept (o : Outcome) : Except String Bool :=
  match o.err with
  | some e => .error e
  | none => .ok o.ok

theorem toExcept_not (o : Outcome) : o.not.toExcept = o.toExcept.map (!·) := by
  obtain ⟨ok, err⟩ := o
  cases err <;> rfl

end Outcome

/-! ## Looking up attributes -/

/-- `strings.Split(path, ".")`. -/
def splitPath (path : String) : List String := (path.toList.splitOn '.').map String.ofList

/-- The loop of `lookup`: only maps have members. -/
def lookupParts (cur : Value) : List String → Option Value
  | [] => some cur
  | part :: parts =>
    match cur with
    | .obj members =>
      match members.lookup part with
      | some v => lookupParts v parts
      | none => none
    | _ => none

/-- `lookup`: walk a dotted path through nested maps. -/
def lookup (ctx : Context) (path : String) : Option Value :=
  if path = "" then none else lookupParts (.obj ctx) (splitPath path)

/-- `lookupString`. -/
def lookupString (ctx : Context) (path : String) : Option String :=
  match lookup ctx path with
  | some (.str s) => some s
  | _ => none

/-- `toFloat`. -/
def toFloat : Value → Option Rat
  | .num q => some q
  | _ => none

/-! ## Rollout -/

/-- `fnv.New64a()`. -/
def fnvOffset : UInt64 := 14695981039346656037

/-- The 64-bit FNV prime. -/
def fnvPrime : UInt64 := 1099511628211

/-- `h.Write`: FNV-1a, one byte after the other. -/
def fnvWrite (h : UInt64) (bytes : List UInt8) : UInt64 :=
  bytes.foldl (fun h b => (h ^^^ b.toUInt64) * fnvPrime) h

/-- `[]byte(s)`. -/
def utf8 (s : String) : List UInt8 := s.toUTF8.data.toList

/-- `rolloutBucket`. -/
def rolloutBucket (salt attrValue : String) : Nat :=
  (fnvWrite (fnvWrite (fnvWrite fnvOffset (utf8 salt)) (utf8 ":")) (utf8 attrValue) % 10000).toNat

/-- `inBucket`. -/
def inBucket (salt attrValue : String) (percent : Int64) : Bool :=
  if percent ≤ 0 then false
  else if percent ≥ 100 then true
  else decide ((rolloutBucket salt attrValue : Int) < percent.toInt * 100)

/-! ## The leaves -/

/-- `json.Unmarshal(raw, &v)`; a nil message is an unexpected end of input. -/
def unmarshalRaw (env : Env) : Option Doc → Except String Value
  | none => .error "unexpected end of JSON input"
  | some d => (unmarshalAny d).mapError fun _ => env.jsonErrorText (.json d)

/-- `cmpEq`. -/
def cmpEq (env : Env) (p : Predicate) (ctx : Context) : Outcome :=
  match lookup ctx p.attr with
  | none => .result false
  | some actual =>
    match unmarshalRaw env p.value with
    | .error err => .failed ("decoding eq value: " ++ err)
    | .ok expected => .result (jsonEqual env.fmt actual expected)

/-- The loop of `cmpIn`. -/
def cmpInValues (env : Env) (actual : Value) : List Doc → Outcome
  | [] => .result false
  | raw :: raws =>
    match unmarshalRaw env (some raw) with
    | .error err => .failed ("decoding in values: " ++ err)
    | .ok v => if jsonEqual env.fmt actual v then .result true else cmpInValues env actual raws

/-- `cmpIn`. -/
def cmpIn (env : Env) (p : Predicate) (ctx : Context) : Outcome :=
  match lookup ctx p.attr with
  | none => .result false
  | some actual => cmpInValues env actual p.values

/-- The comparison of an ordering kind. -/
def ordHolds (kind : PredicateKind) (a b : Rat) : Bool :=
  match kind with
  | .gt => decide (a > b)
  | .gte => decide (a ≥ b)
  | .lt => decide (a < b)
  | .lte => decide (a ≤ b)
  | _ => false

/-- `cmpOrd`. -/
def cmpOrd (env : Env) (kind : PredicateKind) (p : Predicate) (ctx : Context) : Outcome :=
  match lookup ctx p.attr with
  | none => .result false
  | some actualRaw =>
    match toFloat actualRaw with
    | none => .result false
    | some a =>
      match unmarshalRaw env p.value with
      | .error err => .failed ("decoding ord value: " ++ err)
      | .ok expRaw =>
        match toFloat expRaw with
        | none => .result false
        | some b => .result (ordHolds kind a b)

/-- `cmpMatches`. -/
def cmpMatches (env : Env) (p : Predicate) (ctx : Context) : Outcome :=
  match lookupString ctx p.attr with
  | none => .result false
  | some actual =>
    match env.regexpCompile p.pattern with
    | .error err => .failed ("compiling pattern: " ++ err)
    | .ok re => .result (re actual)

/-- `json.Unmarshal(raw, &s)` into an empty string. -/
def unmarshalRawString (env : Env) : Option Doc → Except String String
  | none => .error "unexpected end of JSON input"
  | some d => (unmarshalString d).mapError fun _ => env.jsonErrorText (.json d)

/-- `strings.HasPrefix(s, t)`. -/
def hasPrefix (s t : String) : Bool := t.toList.isPrefixOf s.toList

/-- `cmpStartsWith`. -/
def cmpStartsWith (env : Env) (p : Predicate) (ctx : Context) : Outcome :=
  match lookupString ctx p.attr with
  | none => .result false
  | some actual =>
    match unmarshalRawString env p.value with
    | .error err => .failed ("decoding starts_with value: " ++ err)
    | .ok head => .result (hasPrefix actual head)

/-- The rollout case of `match`. -/
def matchRollout (p : Predicate) (ctx : Context) : Outcome :=
  match lookupString ctx p.attr with
  | none => .result false
  | some v => .result (inBucket p.salt v p.percent)

/-- `EvalCEL`: outputs that are not booleans are treated as false. -/
def evalCEL (prog : CELProgram) (ctx : Context) : Outcome :=
  match prog ctx with
  | .error err => .failed err
  | .ok (.bool b) => .result b
  | .ok .other => .result false

/-- The CEL case of `match`. -/
def matchCel (env : Env) (programs : Programs) (p : Predicate) (ctx : Context) : Outcome :=
  match programs.lookup p.source with
  | none => .failed ("cel program missing for source " ++ env.quote p.source)
  | some prog => evalCEL prog ctx

/-- The cases of `match` that look at no child. -/
def matchLeaf (env : Env) (programs : Programs) (ctx : Context) (p : Predicate) : Outcome :=
  match p.kind with
  | .known .always => .result true
  | .known .eq => cmpEq env p ctx
  | .known .neq => (cmpEq env p ctx).not
  | .known .isIn => cmpIn env p ctx
  | .known .gt => cmpOrd env .gt p ctx
  | .known .gte => cmpOrd env .gte p ctx
  | .known .lt => cmpOrd env .lt p ctx
  | .known .lte => cmpOrd env .lte p ctx
  | .known .matches => cmpMatches env p ctx
  | .known .startsWith => cmpStartsWith env p ctx
  | .known .rollout => matchRollout p ctx
  | .known .cel => matchCel env programs p ctx
  | kind => .failed ("unknown predicate kind " ++ env.quote kind.toString)

/-! ## match -/

section Connect

variable (leaf : Predicate → Outcome)

mutual

/-- `match` on a pointer, for given leaves; nil does not match. -/
def connectPtr : Option Predicate → Outcome
  | none => .result false
  | some p => connect p
  termination_by structural o => o

/-- The connectives of `match`, for given leaves. -/
def connect : Predicate → Outcome
  | p@{ kind, of, ofOne, .. } =>
    match kind with
    | .known .all => connectAll of
    | .known .any => connectAny of
    | .known .not => (connectPtr ofOne).not
    | _ => leaf p
  termination_by structural p => p

/-- The loop of `all`. -/
def connectAll : List (Option Predicate) → Outcome
  | [] => .result true
  | c :: cs =>
    match (connectPtr c).toExcept with
    | .error err => .failed err
    | .ok false => .result false
    | .ok true => connectAll cs
  termination_by structural cs => cs

/-- The loop of `any`. -/
def connectAny : List (Option Predicate) → Outcome
  | [] => .result false
  | c :: cs =>
    match (connectPtr c).toExcept with
    | .error err => .failed err
    | .ok true => .result true
    | .ok false => connectAny cs
  termination_by structural cs => cs

end

variable {leaf}

/-! ### One equation per kind of node -/

/-- The kinds that look at children. -/
def PredicateKind.IsConnective (k : PredicateKind) : Prop := k = .all ∨ k = .any ∨ k = .not

/-- The node looks at no child. -/
def Predicate.IsLeaf (p : Predicate) : Prop :=
  ∀ k : PredicateKind, k.IsConnective → p.kind ≠ .known k

/-- Every node is one of the three connectives or a leaf. -/
theorem Predicate.kind_cases (p : Predicate) :
    p.kind = .known .all ∨ p.kind = .known .any ∨ p.kind = .known .not ∨ p.IsLeaf := by
  by_cases hall : p.kind = .known .all
  · exact .inl hall
  by_cases hany : p.kind = .known .any
  · exact .inr (.inl hany)
  by_cases hnot : p.kind = .known .not
  · exact .inr (.inr (.inl hnot))
  refine .inr (.inr (.inr ?_))
  rintro k (rfl | rfl | rfl)
  · exact hall
  · exact hany
  · exact hnot

/-- The children `match` looks at: `of` under `all` and `any`, `of_one` under `not`. -/
def Predicate.operands (p : Predicate) : List (Option Predicate) :=
  match p.kind with
  | .known .all | .known .any => p.of
  | .known .not => [p.ofOne]
  | _ => []

variable {p : Predicate}

theorem Predicate.operands_all (h : p.kind = .known .all) : p.operands = p.of := by
  rw [operands, h]

theorem Predicate.operands_any (h : p.kind = .known .any) : p.operands = p.of := by
  rw [operands, h]

theorem Predicate.operands_not (h : p.kind = .known .not) :
    p.operands = [p.ofOne] := by
  rw [operands, h]

theorem Predicate.operands_leaf (h : p.IsLeaf) : p.operands = [] := by
  unfold operands
  split
  · rename_i hk
    exact absurd hk (h .all (.inl rfl))
  · rename_i hk
    exact absurd hk (h .any (.inr (.inl rfl)))
  · rename_i hk
    exact absurd hk (h .not (.inr (.inr rfl)))
  · rfl

theorem Predicate.mem_of_operands {c : Predicate} (h : some c ∈ p.operands) :
    some c ∈ p.of ∨ p.ofOne = some c := by
  unfold operands at h
  split at h
  · exact .inl h
  · exact .inl h
  · exact .inr (List.mem_singleton.mp h).symm
  · exact absurd h List.not_mem_nil

/-- Induction over the nodes `match` can reach. -/
theorem Predicate.operand_induct {P : Predicate → Prop}
    (node : ∀ p : Predicate, (∀ c, some c ∈ p.operands → P c) → P p) (p : Predicate) : P p := by
  induction p with
  | node p hof hone =>
    refine node p fun c hc => ?_
    rcases p.mem_of_operands hc with h | h
    · exact hof c h
    · exact hone c h

/-- `q` is a leaf that `match` can reach from the node. -/
inductive Predicate.LeafOf (q : Predicate) : Predicate → Prop
  | leaf : q.IsLeaf → LeafOf q q
  | of {p c : Predicate} : p.kind = .known .all ∨ p.kind = .known .any → some c ∈ p.of →
      LeafOf q c → LeafOf q p
  | ofOne {p c : Predicate} : p.kind = .known .not → p.ofOne = some c → LeafOf q c → LeafOf q p

namespace Predicate.LeafOf

variable {l p c : Predicate}

theorem isLeaf (h : l.LeafOf p) : l.IsLeaf := by
  induction h with
  | leaf h => exact h
  | of _ _ _ ih => exact ih
  | ofOne _ _ _ ih => exact ih

theorem operand (hc : some c ∈ p.operands) (h : l.LeafOf c) : l.LeafOf p := by
  rcases p.kind_cases with hk | hk | hk | hk
  · exact .of (.inl hk) (operands_all hk ▸ hc) h
  · exact .of (.inr hk) (operands_any hk ▸ hc) h
  · rw [operands_not hk, List.mem_singleton] at hc
    exact .ofOne hk hc.symm h
  · rw [operands_leaf hk] at hc
    exact absurd hc List.not_mem_nil

/-- A leaf is the node itself, or a leaf of an operand. -/
theorem self_or_operand (h : l.LeafOf p) :
    (p.IsLeaf ∧ l = p) ∨ ∃ c, some c ∈ p.operands ∧ l.LeafOf c := by
  cases h with
  | leaf h => exact .inl ⟨h, rfl⟩
  | @of _ c hk hc h =>
    refine .inr ⟨c, ?_, h⟩
    rcases hk with hk | hk
    · exact operands_all hk ▸ hc
    · exact operands_any hk ▸ hc
  | @ofOne _ c hk hc h =>
    refine .inr ⟨c, ?_, h⟩
    rw [operands_not hk, hc]
    exact List.mem_singleton_self _

end Predicate.LeafOf

theorem connect_all (h : p.kind = .known .all) :
    connect leaf p = connectAll leaf p.of := by
  cases p
  subst h
  rw [connect]

theorem connect_any (h : p.kind = .known .any) :
    connect leaf p = connectAny leaf p.of := by
  cases p
  subst h
  rw [connect]

theorem connect_not (h : p.kind = .known .not) :
    connect leaf p = (connectPtr leaf p.ofOne).not := by
  cases p
  subst h
  rw [connect]

theorem connect_leaf (h : p.IsLeaf) : connect leaf p = leaf p := by
  obtain ⟨kind⟩ := p
  rcases kind with k | ⟨s, hs⟩
  · cases k with
    | all => exact absurd rfl (h .all (.inl rfl))
    | any => exact absurd rfl (h .any (.inr (.inl rfl)))
    | not => exact absurd rfl (h .not (.inr (.inr rfl)))
    | _ => rfl
  · rfl

/-- `all` is the short-circuit conjunction of its children. -/
theorem toExcept_connectAll : ∀ cs : List (Option Predicate),
    (connectAll leaf cs).toExcept = cs.allM fun c => (connectPtr leaf c).toExcept
  | [] => rfl
  | c :: cs => by
    rw [connectAll, List.allM]
    rcases (connectPtr leaf c).toExcept with e | b
    · rfl
    · cases b with
      | false => rfl
      | true => exact toExcept_connectAll cs

/-- `any` is the short-circuit disjunction of its children. -/
theorem toExcept_connectAny : ∀ cs : List (Option Predicate),
    (connectAny leaf cs).toExcept = cs.anyM fun c => (connectPtr leaf c).toExcept
  | [] => rfl
  | c :: cs => by
    rw [connectAny, List.anyM]
    rcases (connectPtr leaf c).toExcept with e | b
    · rfl
    · cases b with
      | true => rfl
      | false => exact toExcept_connectAny cs

variable {e : String}

theorem Outcome.toExcept_eq_error {o : Outcome} :
    o.toExcept = .error e ↔ o.err = some e := by
  obtain ⟨ok, err⟩ := o
  cases err with
  | none => exact ⟨fun h => (nomatch h), fun h => (nomatch h)⟩
  | some e' =>
    constructor
    · intro h
      injection h with h
      rw [h]
    · intro h
      injection h with h
      rw [h]
      rfl

/-- A node fails with the error of one of its operands, if it has any. -/
theorem connect_error_operand (hp : ¬ p.IsLeaf) (h : (connect leaf p).toExcept = .error e) :
    ∃ c ∈ p.operands, (connectPtr leaf c).toExcept = .error e := by
  rcases p.kind_cases with hk | hk | hk | hk
  · rw [connect_all hk, toExcept_connectAll] at h
    rw [Predicate.operands_all hk]
    exact allM_eq_error h
  · rw [connect_any hk, toExcept_connectAny] at h
    rw [Predicate.operands_any hk]
    exact anyM_eq_error h
  · rw [connect_not hk, Outcome.toExcept_eq_error] at h
    rw [Predicate.operands_not hk]
    exact ⟨p.ofOne, List.mem_singleton_self _, Outcome.toExcept_eq_error.mpr h⟩
  · exact absurd hk hp

/-- **A match fails only with the error of a leaf beneath it.** -/
theorem connect_error (h : (connect leaf p).toExcept = .error e) :
    ∃ l, l.LeafOf p ∧ (leaf l).err = some e := by
  induction p using Predicate.operand_induct with
  | node p ih =>
    by_cases hp : p.IsLeaf
    · rw [connect_leaf hp] at h
      exact ⟨p, .leaf hp, Outcome.toExcept_eq_error.mp h⟩
    · obtain ⟨c, hc, he⟩ := connect_error_operand hp h
      cases c with
      | none => nomatch he
      | some c =>
        obtain ⟨l, hl, hle⟩ := ih c hc he
        exact ⟨l, .operand hc hl, hle⟩

variable {leaf' : Predicate → Outcome}

/-- The loops give the same when the children do, one by one. -/
theorem connectAll_congr {cs ds : List (Option Predicate)}
    (h : List.Forall₂ (fun c d => connectPtr leaf c = connectPtr leaf' d) cs ds) :
    connectAll leaf cs = connectAll leaf' ds := by
  induction h with
  | nil => rw [connectAll, connectAll]
  | cons hcd _ ih => rw [connectAll, connectAll, hcd, ih]

theorem connectAny_congr {cs ds : List (Option Predicate)}
    (h : List.Forall₂ (fun c d => connectPtr leaf c = connectPtr leaf' d) cs ds) :
    connectAny leaf cs = connectAny leaf' ds := by
  induction h with
  | nil => rw [connectAny, connectAny]
  | cons hcd _ ih => rw [connectAny, connectAny, hcd, ih]

/-- Two nodes of one kind match alike when their children do and, if they are leaves, they do. -/
theorem connect_congr {q : Predicate} (hkind : p.kind = q.kind)
    (hof : List.Forall₂ (fun c d => connectPtr leaf c = connectPtr leaf' d) p.of q.of)
    (hone : connectPtr leaf p.ofOne = connectPtr leaf' q.ofOne)
    (hleaf : p.IsLeaf → leaf p = leaf' q) : connect leaf p = connect leaf' q := by
  rcases p.kind_cases with h | h | h | h
  · rw [connect_all h, connect_all (hkind ▸ h), connectAll_congr hof]
  · rw [connect_any h, connect_any (hkind ▸ h), connectAny_congr hof]
  · rw [connect_not h, connect_not (hkind ▸ h), hone]
  · have hq : q.IsLeaf := fun k hk => hkind ▸ h k hk
    rw [connect_leaf h, connect_leaf hq, hleaf h]

end Connect

/-- `match` on a pointer. -/
def matchPtr (env : Env) (programs : Programs) (ctx : Context) (o : Option Predicate) : Outcome :=
  connectPtr (matchLeaf env programs ctx) o

/-- `match` on a node. -/
def matchNode (env : Env) (programs : Programs) (ctx : Context) (p : Predicate) : Outcome :=
  connect (matchLeaf env programs ctx) p

theorem matchPtr_some (env : Env) (programs : Programs) (ctx : Context) (p : Predicate) :
    matchPtr env programs ctx (some p) = matchNode env programs ctx p := rfl

/-! ## Evaluate -/

/-- The resolution reasons. -/
inductive Reason where
  | default | ruleMatched | rolloutInBucket | rolloutOutOfBucket | typeMismatch | error
  deriving DecidableEq

/-- `Decision`. -/
structure Decision where
  value : Value
  reason : Reason
  ruleId : String
  version : Int
  deriving DecidableEq

/-- `decodeValue`: a nil message is nil. -/
def decodeValue (env : Env) : Option Doc → Except String Value
  | none => .ok .null
  | some d => unmarshalRaw env (some d)

/-- `valueMatchesType`. -/
def valueMatchesType (v : Value) (t : Named ValueType) : Bool :=
  match t, v with
  | .known .boolean, .bool _ => true
  | .known .string, .str _ => true
  | .known .number, v => (toFloat v).isSome
  | .known .object, .obj _ => true
  | _, _ => false

/-- `reasonForRule`. -/
def reasonForRule (r : Rule) : Reason :=
  match r.when with
  | some p => if p.kind = .known .rollout then .rolloutInBucket else .ruleMatched
  | none => .ruleMatched

/-- The value a matching rule serves: its own, if it decodes and has the flag's type. -/
def servedValue (env : Env) (t : Named ValueType) (r : Rule) : Option Value :=
  match decodeValue env r.value with
  | .error _ => none
  | .ok v => if valueMatchesType v t then some v else none

/-- The decision for a rule that matches. -/
def ruleDecision (env : Env) (t : Named ValueType) (defValue : Value) (version : Int) (r : Rule) :
    Decision :=
  match servedValue env t r with
  | none => { value := defValue, reason := .typeMismatch, ruleId := r.id, version }
  | some v => { value := v, reason := reasonForRule r, ruleId := r.id, version }

/-- The loop over the rules. -/
def evaluateRules (env : Env) (c : Compiled) (ctx : Context) (defValue : Value) (version : Int) :
    List Rule → Decision
  | [] => { value := defValue, reason := .default, ruleId := "", version }
  | r :: rs =>
    match (matchPtr env c.celPrograms ctx r.when).toExcept with
    | .error _ => { value := defValue, reason := .error, ruleId := r.id, version }
    | .ok false => evaluateRules env c ctx defValue version rs
    | .ok true => ruleDecision env c.ir.valueType defValue version r

/-- `Evaluate`. -/
def evaluate (env : Env) (c : Compiled) (ctx : Context) (version : Int) :
    Except String Decision :=
  match decodeValue env c.ir.default with
  | .error err => .error ("decoding default: " ++ err)
  | .ok defValue => .ok (evaluateRules env c ctx defValue version c.ir.ruleList)

/-! ### Reasons -/

theorem reasonForRule_ne (r : Rule) : reasonForRule r ≠ .typeMismatch ∧ reasonForRule r ≠ .default ∧
    reasonForRule r ≠ .error := by
  unfold reasonForRule
  split
  · split <;> decide
  · decide

/-- A rule that matches does not fall back to `default`, and is no error. -/
theorem ruleDecision_reason (env : Env) (t : Named ValueType) (defValue : Value) (version : Int)
    (r : Rule) :
    (ruleDecision env t defValue version r).reason ≠ .default ∧
    (ruleDecision env t defValue version r).reason ≠ .error := by
  unfold ruleDecision
  split
  · exact ⟨nofun, nofun⟩
  · exact (reasonForRule_ne r).2

/-- Where an evaluation with reason `error` ends. -/
theorem evaluateRules_error {env : Env} {c : Compiled} {ctx : Context} {defValue : Value}
    {version : Int} : ∀ {rs : List Rule},
    (evaluateRules env c ctx defValue version rs).reason = .error →
      ∃ (i : Nat) (r : Rule), rs[i]? = some r ∧
        (evaluateRules env c ctx defValue version rs).ruleId = r.id ∧
        (∃ text, (matchPtr env c.celPrograms ctx r.when).toExcept = .error text) ∧
        ∀ (j : Nat) (r' : Rule), j < i → rs[j]? = some r' →
          (matchPtr env c.celPrograms ctx r'.when).toExcept = .ok false
  | [], h => nomatch h
  | r :: rs, h => by
    rw [evaluateRules] at h ⊢
    rcases hm : (matchPtr env c.celPrograms ctx r.when).toExcept with text | b
    · refine ⟨0, r, rfl, rfl, ⟨text, hm⟩, ?_⟩
      intro j r' hj
      omega
    · rw [hm] at h
      cases b with
      | true => exact absurd h (ruleDecision_reason _ _ _ _ _).2
      | false =>
        obtain ⟨i, r1, hr1, hid, herr, hbefore⟩ := evaluateRules_error h
        refine ⟨i + 1, r1, hr1, hid, herr, ?_⟩
        intro j r' hj hr'
        cases j with
        | zero =>
          injection hr' with hr'
          exact hr' ▸ hm
        | succ j => exact hbefore j r' (by omega) hr'

end FalseFlag
