/-
  Explained evaluation (internal/eval/trace.go).

  `EvaluateWithTrace` records every rule and every predicate node, so it cannot stop where
  `Evaluate` stops: it evaluates the rules after the first match, and the children of `all` and
  `any` after the deciding one, and it keeps the FIRST error it meets.  Errors are where the two
  part.  An erring leaf makes the whole rule unmatched in the trace, also where `match` never
  looks at that leaf; and a rule in error is skipped by the trace while it ends `Evaluate`.

  `errsBelow` says that some leaf below a predicate errs, reached by `match` or not.
  * **`evaluateWithTrace_eq_iff`** — exactly when the two decisions are the same.
-/
import FalseFlag.Eval

namespace FalseFlag

open List JsonTree Fallible

/-! ## The trace -/

/-- `TraceNode`. -/
structure TraceNode where
  kind : String
  attr : String := ""
  attrValue : Value := .null
  expected : Value := .null
  expectedValues : List Value := []
  pattern : String := ""
  salt : String := ""
  percent : Int64 := 0
  bucket : Nat := 0
  source : String := ""
  result : Bool := false
  children : List TraceNode := []

/-- `TraceRule`. -/
structure TraceRule where
  ruleId : String
  matched : Bool
  predicate : TraceNode
  error : String := ""

/-- `Trace`. -/
structure Trace where
  evaluatedRules : List TraceRule
  defaultUsed : Bool := false
  matchedRuleId : String := ""

mutual

/-- What `json.Unmarshal` has stored when it reports numbers out of range: nil in their place. -/
def dropOutOfRange : Doc → Doc
  | .num n => if float64InRange n.val then .num n else .null
  | .arr items => .arr (dropItems items)
  | .obj members => .obj (dropMembers members)
  | d => d
  termination_by structural d => d

/-- `dropOutOfRange` on items. -/
def dropItems : List Doc → List Doc
  | [] => []
  | d :: ds => dropOutOfRange d :: dropItems ds
  termination_by structural ds => ds

/-- `dropOutOfRange` on members. -/
def dropMembers : List (String × Doc) → List (String × Doc)
  | [] => []
  | (k, d) :: ms => (k, dropOutOfRange d) :: dropMembers ms
  termination_by structural ms => ms

end

/-- `_ = json.Unmarshal(raw, &v)`: the error is ignored. -/
def unmarshalLoose : Option Doc → Value
  | none => .null
  | some d => Doc.value (dropOutOfRange d)

section TraceMatch

variable (env : Env) (programs : Programs) (ctx : Context)

/-- The cases of `traceMatch` that look at no child: what is recorded, and the outcome of `match`. -/
def traceLeaf (p : Predicate) : TraceNode × Outcome :=
  let node : TraceNode := { kind := p.kind.toString }
  let o := matchNode env programs ctx p
  match p.kind with
  | .known .always => ({ node with result := true }, .result true)
  | .known .eq | .known .neq | .known .startsWith
  | .known .gt | .known .gte | .known .lt | .known .lte =>
    ({ node with
        attr := p.attr
        attrValue := (lookup ctx p.attr).getD .null
        expected := unmarshalLoose p.value
        result := o.ok }, o)
  | .known .isIn =>
    ({ node with
        attr := p.attr
        attrValue := (lookup ctx p.attr).getD .null
        expectedValues := p.values.map fun raw => unmarshalLoose (some raw)
        result := o.ok }, o)
  | .known .matches =>
    ({ node with
        attr := p.attr
        attrValue := .str ((lookupString ctx p.attr).getD "")
        pattern := p.pattern
        result := o.ok }, o)
  | .known .rollout =>
    ({ node with
        attr := p.attr
        salt := p.salt
        percent := p.percent
        attrValue := .str ((lookupString ctx p.attr).getD "")
        bucket := match lookupString ctx p.attr with
          | some actual => rolloutBucket p.salt actual
          | none => 0
        result := o.ok }, o)
  | .known .cel => ({ node with source := p.source, result := o.ok }, o)
  | kind => (node, .failed ("unknown predicate kind " ++ env.quote kind.toString))

/-- What the loops of `all` and `any` carry: the flag, the first error and the children so far. -/
structure TraceLoop where
  flag : Bool
  firstErr : Option String := none
  children : List TraceNode := []

/-- One iteration; `combine` is the loop's own way to update the flag. -/
def TraceLoop.step (combine : Bool → Bool → Bool) (l : TraceLoop) (child : TraceNode × Outcome) :
    TraceLoop where
  flag := combine l.flag child.2.ok
  firstErr := if child.2.err.isSome && l.firstErr.isNone then child.2.err else l.firstErr
  children := l.children ++ [child.1]

/-- The end of `all` and `any`. -/
def TraceLoop.finish (kind : Named PredicateKind) (l : TraceLoop) : TraceNode × Outcome :=
  let result := l.flag && l.firstErr.isNone
  ({ kind := kind.toString, result, children := l.children }, { ok := result, err := l.firstErr })

mutual

/-- `traceMatch` on a pointer. -/
def tracePtr : Option Predicate → TraceNode × Outcome
  | none => ({ kind := "nil" }, .result false)
  | some p => traceNode p
  termination_by structural o => o

/-- The `switch` of `traceMatch`. -/
def traceNode : Predicate → TraceNode × Outcome
  | p@{ kind, of, ofOne, .. } =>
    match kind with
    | .known .all =>
      (traceOf (fun all ok => if !ok then false else all) { flag := true } of).finish kind
    | .known .any =>
      (traceOf (fun any ok => if ok then true else any) { flag := false } of).finish kind
    | .known .not =>
      let (child, o) := tracePtr ofOne
      let result := !o.ok && o.err.isNone
      ({ kind := kind.toString, result, children := [child] }, { ok := result, err := o.err })
    | _ => traceLeaf env programs ctx p
  termination_by structural p => p

/-- The loop over `of`. -/
def traceOf (combine : Bool → Bool → Bool) (l : TraceLoop) : List (Option Predicate) → TraceLoop
  | [] => l
  | c :: cs => traceOf combine (l.step combine (tracePtr c)) cs
  termination_by structural cs => cs

end

end TraceMatch

/-- The record of one rule. -/
def traceRule (env : Env) (c : Compiled) (ctx : Context) (r : Rule) : TraceRule :=
  let (node, o) := tracePtr env c.celPrograms ctx r.when
  match o.err with
  | some err => { ruleId := r.id, matched := false, predicate := node, error := err }
  | none => { ruleId := r.id, matched := o.ok, predicate := node }

/-- The loop over the rules: the records so far and the first rule that matched. -/
def traceRules (env : Env) (c : Compiled) (ctx : Context) (records : List TraceRule)
    (winner : Option Rule) : List Rule → List TraceRule × Option Rule
  | [] => (records, winner)
  | r :: rs =>
    let tr := traceRule env c ctx r
    let winner := if winner.isNone && tr.matched then some r else winner
    traceRules env c ctx (records ++ [tr]) winner rs

/-- `EvaluateWithTrace`. -/
def evaluateWithTrace (env : Env) (c : Compiled) (ctx : Context) (version : Int) :
    Except String (Decision × Trace) :=
  match decodeValue env c.ir.default with
  | .error err => .error ("decoding default: " ++ err)
  | .ok defValue =>
    match traceRules env c ctx [] none c.ir.ruleList with
    | (records, none) =>
      .ok ({ value := defValue, reason := .default, ruleId := "", version },
        { evaluatedRules := records, defaultUsed := true })
    | (records, some winner) =>
      .ok (ruleDecision env c.ir.valueType defValue version winner,
        { evaluatedRules := records, matchedRuleId := winner.id })

/-! ## Where a leaf errs -/

section ErrsBelow

variable (env : Env) (programs : Programs) (ctx : Context)

mutual

/-- Some leaf below the predicate errs, whether `match` looks at it or not. -/
def errsBelow : Predicate → Bool
  | p@{ kind, of, ofOne, .. } =>
    match kind with
    | .known .all | .known .any => errsBelowOf of
    | .known .not => errsBelowPtr ofOne
    | _ => (matchLeaf env programs ctx p).err.isSome
  termination_by structural p => p

/-- `errsBelow` of a pointer. -/
def errsBelowPtr : Option Predicate → Bool
  | none => false
  | some p => errsBelow p
  termination_by structural o => o

/-- Some child has an erring leaf. -/
def errsBelowOf : List (Option Predicate) → Bool
  | [] => false
  | c :: cs => errsBelowPtr c || errsBelowOf cs
  termination_by structural cs => cs

end

variable {env programs ctx}

variable {p : Predicate}

theorem errsBelow_all (h : p.kind = .known .all) :
    errsBelow env programs ctx p = errsBelowOf env programs ctx p.of := by
  cases p
  subst h
  rw [errsBelow]

theorem errsBelow_any (h : p.kind = .known .any) :
    errsBelow env programs ctx p = errsBelowOf env programs ctx p.of := by
  cases p
  subst h
  rw [errsBelow]

theorem errsBelow_not (h : p.kind = .known .not) :
    errsBelow env programs ctx p = errsBelowPtr env programs ctx p.ofOne := by
  cases p
  subst h
  rw [errsBelow]

theorem errsBelow_leaf (h : p.IsLeaf) :
    errsBelow env programs ctx p = (matchLeaf env programs ctx p).err.isSome := by
  obtain ⟨kind⟩ := p
  rcases kind with k | ⟨s, hs⟩
  · cases k with
    | all => exact absurd rfl (h .all (.inl rfl))
    | any => exact absurd rfl (h .any (.inr (.inl rfl)))
    | not => exact absurd rfl (h .not (.inr (.inr rfl)))
    | _ => rfl
  · rfl

theorem errsBelowOf_eq_any : ∀ cs : List (Option Predicate),
    errsBelowOf env programs ctx cs = cs.any (errsBelowPtr env programs ctx)
  | [] => rfl
  | c :: cs => by rw [errsBelowOf, errsBelowOf_eq_any cs, any_cons]

/-! ## The traced outcome -/

theorem traceNode_all (h : p.kind = .known .all) :
    traceNode env programs ctx p =
      (traceOf env programs ctx (fun all ok => if !ok then false else all) { flag := true }
        p.of).finish p.kind := by
  cases p
  subst h
  rw [traceNode]

theorem traceNode_any (h : p.kind = .known .any) :
    traceNode env programs ctx p =
      (traceOf env programs ctx (fun any ok => if ok then true else any) { flag := false }
        p.of).finish p.kind := by
  cases p
  subst h
  rw [traceNode]

theorem traceNode_not (h : p.kind = .known .not) :
    (traceNode env programs ctx p).2 =
      { ok := !(tracePtr env programs ctx p.ofOne).2.ok &&
          (tracePtr env programs ctx p.ofOne).2.err.isNone
        err := (tracePtr env programs ctx p.ofOne).2.err } := by
  cases p
  subst h
  rw [traceNode]

/-- A leaf is recorded by `traceLeaf`, with its kind, with the outcome of `match`, and without
    children. -/
theorem traceLeaf_spec (h : p.IsLeaf) :
    traceNode env programs ctx p = traceLeaf env programs ctx p ∧
      (traceNode env programs ctx p).2 = matchLeaf env programs ctx p ∧
      (traceNode env programs ctx p).1.kind = p.kind.toString ∧
      (traceNode env programs ctx p).1.result = (traceNode env programs ctx p).2.ok ∧
      (traceNode env programs ctx p).1.children = [] := by
  obtain ⟨kind⟩ := p
  rcases kind with k | ⟨s, hs⟩
  · cases k with
    | all => exact absurd rfl (h .all (.inl rfl))
    | any => exact absurd rfl (h .any (.inr (.inl rfl)))
    | not => exact absurd rfl (h .not (.inr (.inr rfl)))
    | _ => exact ⟨rfl, rfl, rfl, rfl, rfl⟩
  · exact ⟨rfl, rfl, rfl, rfl, rfl⟩

theorem traceNode_leaf (h : p.IsLeaf) :
    (traceNode env programs ctx p).2 = matchLeaf env programs ctx p := (traceLeaf_spec h).2.1

/-- What the loop ends with: the flags combined, and the first error. -/
theorem traceOf_spec (combine : Bool → Bool → Bool) : ∀ (cs : List (Option Predicate))
    (l : TraceLoop),
    (traceOf env programs ctx combine l cs).flag =
        cs.foldl (fun b c => combine b (tracePtr env programs ctx c).2.ok) l.flag ∧
      (traceOf env programs ctx combine l cs).firstErr =
        l.firstErr.or (cs.findSome? fun c => (tracePtr env programs ctx c).2.err)
  | [], l => by simp [traceOf]
  | c :: cs, l => by
    rw [traceOf]
    obtain ⟨hflag, herr⟩ := traceOf_spec combine cs (l.step combine (tracePtr env programs ctx c))
    refine ⟨hflag, ?_⟩
    rw [herr, findSome?_cons, TraceLoop.step]
    rcases l.firstErr with _ | e <;> rcases (tracePtr env programs ctx c).2.err with _ | e' <;> rfl

/-- What is proved of every predicate: the trace errs iff a leaf below does, and else it agrees
    with `match`. -/
def TraceSound (env : Env) (programs : Programs) (ctx : Context) (o : Option Predicate) : Prop :=
  (tracePtr env programs ctx o).2.err.isSome = errsBelowPtr env programs ctx o ∧
  (errsBelowPtr env programs ctx o = false →
    (tracePtr env programs ctx o).2.toExcept = (matchPtr env programs ctx o).toExcept)

theorem Outcome.toExcept_of_err {o : Outcome} (h : o.err.isSome = false) :
    o.toExcept = .ok o.ok := by
  obtain ⟨ok, err⟩ := o
  cases err with
  | none => rfl
  | some e => nomatch h

theorem Outcome.err_of_toExcept {o : Outcome} {b : Bool} (h : o.toExcept = .ok b) :
    o = .result b := by
  obtain ⟨ok, err⟩ := o
  cases err with
  | none =>
    injection h with h
    exact congrArg Outcome.result h
  | some e => nomatch h

/-- The children of a node, when none has an erring leaf. -/
theorem TraceSound.children {cs : List (Option Predicate)}
    (hcs : ∀ c ∈ cs, TraceSound env programs ctx c)
    (h : errsBelowOf env programs ctx cs = false) : ∀ c ∈ cs,
    (tracePtr env programs ctx c).2.err = none ∧
    (matchPtr env programs ctx c).toExcept = .ok (tracePtr env programs ctx c).2.ok := by
  intro c hc
  rw [errsBelowOf_eq_any, any_eq_false] at h
  have hno : errsBelowPtr env programs ctx c = false := Bool.eq_false_iff.mpr (h c hc)
  obtain ⟨herr, hsame⟩ := hcs c hc
  rw [hno] at herr
  refine ⟨Option.isSome_eq_false_iff.mp herr |> Option.isNone_iff_eq_none.mp, ?_⟩
  rw [← hsame hno, Outcome.toExcept_of_err herr]

/-- The loop errs iff a child has an erring leaf. -/
theorem TraceSound.firstErr {cs : List (Option Predicate)} {combine : Bool → Bool → Bool}
    {flag : Bool} (hcs : ∀ c ∈ cs, TraceSound env programs ctx c) :
    (traceOf env programs ctx combine { flag } cs).firstErr.isSome =
      errsBelowOf env programs ctx cs := by
  rw [(traceOf_spec combine cs _).2, errsBelowOf_eq_any, Option.none_or, Bool.eq_iff_iff,
    findSome?_isSome_iff, any_eq_true]
  constructor
  · rintro ⟨c, hc, herr⟩
    exact ⟨c, hc, by rw [← (hcs c hc).1]; exact herr⟩
  · rintro ⟨c, hc, herr⟩
    exact ⟨c, hc, by rw [(hcs c hc).1]; exact herr⟩

theorem foldl_and {α : Type} (g : α → Bool) : ∀ (xs : List α) (b : Bool),
    xs.foldl (fun b x => if !(g x) then false else b) b = (b && xs.all g)
  | [], b => by simp
  | x :: xs, b => by
    rw [foldl_cons, foldl_and g xs, all_cons]
    cases g x <;> cases b <;> rfl

theorem foldl_or {α : Type} (g : α → Bool) : ∀ (xs : List α) (b : Bool),
    xs.foldl (fun b x => if g x then true else b) b = (b || xs.any g)
  | [], b => by simp
  | x :: xs, b => by
    rw [foldl_cons, foldl_or g xs, any_cons]
    cases g x <;> cases b <;> rfl

theorem traceSound_all (h : p.kind = .known .all)
    (hcs : ∀ c ∈ p.of, TraceSound env programs ctx c) : TraceSound env programs ctx (some p) := by
  unfold TraceSound
  rw [tracePtr, errsBelowPtr, matchPtr_some, traceNode_all h, errsBelow_all h, matchNode,
    connect_all h, toExcept_connectAll]
  refine ⟨TraceSound.firstErr hcs, fun hno => ?_⟩
  have herr := @TraceSound.firstErr _ _ _ _ (fun all ok => if !ok then false else all) true hcs
  rw [hno] at herr
  show _ = p.of.allM fun c => (matchPtr env programs ctx c).toExcept
  rw [Outcome.toExcept_of_err herr, allM_eq_ok fun c hc => (TraceSound.children hcs hno c hc).2]
  have hnone := Option.isNone_iff_eq_none.mp (Option.isSome_eq_false_iff.mp herr)
  rw [TraceLoop.finish, hnone, (traceOf_spec _ p.of _).1,
    foldl_and fun c => (tracePtr env programs ctx c).2.ok]
  simp

theorem traceSound_any (h : p.kind = .known .any)
    (hcs : ∀ c ∈ p.of, TraceSound env programs ctx c) : TraceSound env programs ctx (some p) := by
  unfold TraceSound
  rw [tracePtr, errsBelowPtr, matchPtr_some, traceNode_any h, errsBelow_any h, matchNode,
    connect_any h, toExcept_connectAny]
  refine ⟨TraceSound.firstErr hcs, fun hno => ?_⟩
  have herr := @TraceSound.firstErr _ _ _ _ (fun any ok => if ok then true else any) false hcs
  rw [hno] at herr
  show _ = p.of.anyM fun c => (matchPtr env programs ctx c).toExcept
  rw [Outcome.toExcept_of_err herr, anyM_eq_ok fun c hc => (TraceSound.children hcs hno c hc).2]
  have hnone := Option.isNone_iff_eq_none.mp (Option.isSome_eq_false_iff.mp herr)
  rw [TraceLoop.finish, hnone, (traceOf_spec _ p.of _).1,
    foldl_or fun c => (tracePtr env programs ctx c).2.ok]
  simp

theorem traceSound_not (h : p.kind = .known .not)
    (hc : TraceSound env programs ctx p.ofOne) : TraceSound env programs ctx (some p) := by
  unfold TraceSound
  rw [tracePtr, errsBelowPtr, matchPtr_some, traceNode_not h, errsBelow_not h, matchNode,
    connect_not h, Outcome.toExcept_not]
  refine ⟨hc.1, fun hno => ?_⟩
  have herr := hc.1
  rw [hno] at herr
  show _ = (matchPtr env programs ctx p.ofOne).toExcept.map _
  rw [← hc.2 hno, Outcome.toExcept_of_err herr]
  have hnone := Option.isNone_iff_eq_none.mp (Option.isSome_eq_false_iff.mp herr)
  rw [hnone]
  simp [Outcome.toExcept, Except.map]

/-- **The traced outcome**, for every predicate. -/
theorem traceSound (o : Option Predicate) : TraceSound env programs ctx o := by
  cases o with
  | none => exact ⟨rfl, fun _ => rfl⟩
  | some p =>
    induction p with
    | node p hof hone =>
      have hcs : ∀ c ∈ p.of, TraceSound env programs ctx c := by
        intro c hc
        cases c with
        | none => exact ⟨rfl, fun _ => rfl⟩
        | some c => exact hof c hc
      rcases p.kind_cases with h | h | h | h
      · exact traceSound_all h hcs
      · exact traceSound_any h hcs
      · refine traceSound_not h ?_
        rcases hp : p.ofOne with _ | c
        · exact ⟨rfl, fun _ => rfl⟩
        · exact hone c hp
      · unfold TraceSound
        rw [tracePtr, errsBelowPtr, matchPtr_some, traceNode_leaf h, errsBelow_leaf h, matchNode,
          connect_leaf h]
        exact ⟨rfl, fun _ => rfl⟩

/-- The trace marks a predicate as matching iff `match` does and no leaf below errs. -/
theorem trace_matched_iff {o : Option Predicate} :
    (tracePtr env programs ctx o).2.toExcept = .ok true ↔
      (matchPtr env programs ctx o).toExcept = .ok true ∧
        errsBelowPtr env programs ctx o = false := by
  obtain ⟨herr, hsame⟩ := @traceSound env programs ctx o
  constructor
  · intro h
    have hno : errsBelowPtr env programs ctx o = false := by
      rw [← herr, Outcome.err_of_toExcept h]
      rfl
    exact ⟨by rw [← hsame hno, h], hno⟩
  · rintro ⟨h, hno⟩
    rw [hsame hno, h]

end ErrsBelow

/-! ## The decisions -/

section Decisions

variable {env : Env} {c : Compiled} {ctx : Context}

/-- The rule matches, and no leaf of it errs. -/
def cleanMatch (env : Env) (c : Compiled) (ctx : Context) (r : Rule) : Bool :=
  (matchPtr env c.celPrograms ctx r.when).toExcept == .ok true &&
    !errsBelowPtr env c.celPrograms ctx r.when

theorem traceRule_matched (r : Rule) :
    (traceRule env c ctx r).matched = cleanMatch env c ctx r := by
  have hiff := @trace_matched_iff env c.celPrograms ctx r.when
  have hmatched : (traceRule env c ctx r).matched = true ↔
      (tracePtr env c.celPrograms ctx r.when).2.toExcept = .ok true := by
    unfold traceRule
    rcases tracePtr env c.celPrograms ctx r.when with ⟨node, ok, err⟩
    cases err with
    | none => simp [Outcome.toExcept]
    | some e => simp [Outcome.toExcept]
  rw [Bool.eq_iff_iff, hmatched, hiff, cleanMatch]
  simp

/-- The winner is the first rule with a clean match. -/
theorem traceRules_winner : ∀ (rs : List Rule) (records : List TraceRule) (winner : Option Rule),
    (traceRules env c ctx records winner rs).2 = winner.or (rs.find? (cleanMatch env c ctx))
  | [], records, winner => by simp [traceRules]
  | r :: rs, records, winner => by
    rw [traceRules, traceRules_winner rs, traceRule_matched, find?_cons]
    cases winner <;> cases cleanMatch env c ctx r <;> rfl

/-- The decision for the first rule with a clean match, or the default. -/
def cleanDecision (env : Env) (c : Compiled) (ctx : Context) (defValue : Value) (version : Int)
    (rs : List Rule) : Decision :=
  match rs.find? (cleanMatch env c ctx) with
  | none => { value := defValue, reason := .default, ruleId := "", version }
  | some r => ruleDecision env c.ir.valueType defValue version r

/-- **The traced decision.** -/
theorem traceDecision_eq (version : Int) :
    (evaluateWithTrace env c ctx version).map Prod.fst =
      match decodeValue env c.ir.default with
      | .error err => .error ("decoding default: " ++ err)
      | .ok defValue => .ok (cleanDecision env c ctx defValue version c.ir.ruleList) := by
  unfold evaluateWithTrace
  rcases decodeValue env c.ir.default with err | defValue
  · rfl
  · have hwinner := @traceRules_winner env c ctx c.ir.ruleList [] none
    rw [Option.none_or] at hwinner
    unfold cleanDecision
    rcases hres : traceRules env c ctx [] none c.ir.ruleList with ⟨records, winner⟩
    rw [hres] at hwinner
    have hwinner' : winner = c.ir.ruleList.find? (cleanMatch env c ctx) := hwinner
    rw [← hwinner']
    cases winner <;> rfl

/-- The rule does not match and does not err. -/
def noMatch (env : Env) (c : Compiled) (ctx : Context) (r : Rule) : Bool :=
  (matchPtr env c.celPrograms ctx r.when).toExcept == .ok false

/-- Rules in front that do not match are passed over by `Evaluate`, -/
theorem evaluateRules_dropWhile (defValue : Value) (version : Int) : ∀ rs : List Rule,
    evaluateRules env c ctx defValue version rs =
      evaluateRules env c ctx defValue version (rs.dropWhile (noMatch env c ctx))
  | [] => rfl
  | r :: rs => by
    rw [dropWhile_cons]
    split
    · rename_i h
      rw [noMatch, beq_iff_eq] at h
      rw [evaluateRules, h]
      exact evaluateRules_dropWhile defValue version rs
    · rfl

/-- and by the trace. -/
theorem cleanDecision_dropWhile (defValue : Value) (version : Int) : ∀ rs : List Rule,
    cleanDecision env c ctx defValue version rs =
      cleanDecision env c ctx defValue version (rs.dropWhile (noMatch env c ctx))
  | [] => rfl
  | r :: rs => by
    rw [dropWhile_cons]
    split
    · rename_i h
      rw [noMatch, beq_iff_eq] at h
      rw [← cleanDecision_dropWhile defValue version rs]
      unfold cleanDecision
      rw [find?_cons, cleanMatch, h]
      rfl
    · rfl

/-- Two rules get the same decision. -/
def SameOutcome (env : Env) (t : Named ValueType) (r r' : Rule) : Prop :=
  r.id = r'.id ∧ servedValue env t r = servedValue env t r' ∧
    (servedValue env t r ≠ none → reasonForRule r = reasonForRule r')

theorem ruleDecision_eq_iff {t : Named ValueType} {defValue : Value} {version : Int} {r r' : Rule} :
    ruleDecision env t defValue version r = ruleDecision env t defValue version r' ↔
      SameOutcome env t r r' := by
  unfold ruleDecision SameOutcome
  rcases servedValue env t r with _ | v <;> rcases servedValue env t r' with _ | v'
  · simp
  · have hne := (reasonForRule_ne r').1
    simp [Ne.symm hne]
  · have hne := (reasonForRule_ne r).1
    simp [hne]
  · simp
    tauto

/-- When the two evaluators agree: the first rule that does not simply fail to match, if there is
    one, must MATCH; and either none of its leaves errs, or the rule the trace serves in its place
    has the same id and the same outcome. -/
def TraceAgrees (env : Env) (c : Compiled) (ctx : Context) : Prop :=
  match c.ir.ruleList.dropWhile (noMatch env c ctx) with
  | [] => True
  | r :: rest =>
    (matchPtr env c.celPrograms ctx r.when).toExcept = .ok true ∧
    (errsBelowPtr env c.celPrograms ctx r.when = false ∨
      ∃ r', rest.find? (cleanMatch env c ctx) = some r' ∧ SameOutcome env c.ir.valueType r r')

theorem cleanDecision_reason_ne (defValue : Value) (version : Int) (rs : List Rule) :
    (cleanDecision env c ctx defValue version rs).reason ≠ .error := by
  unfold cleanDecision
  split
  · exact nofun
  · exact (ruleDecision_reason _ _ _ _ _).2

/-- The trace serves the decision of rule `r` iff it serves a rule with the same outcome. -/
theorem cleanDecision_eq_rule_iff {defValue : Value} {version : Int} {rs : List Rule} {r : Rule} :
    cleanDecision env c ctx defValue version rs =
        ruleDecision env c.ir.valueType defValue version r ↔
      ∃ r', rs.find? (cleanMatch env c ctx) = some r' ∧ SameOutcome env c.ir.valueType r r' := by
  unfold cleanDecision
  rcases rs.find? (cleanMatch env c ctx) with _ | r'
  · constructor
    · intro h
      exact absurd (congrArg Decision.reason h).symm (ruleDecision_reason _ _ _ _ _).1
    · rintro ⟨r', h, -⟩
      nomatch h
  · constructor
    · intro h
      exact ⟨r', rfl, ruleDecision_eq_iff.mp h.symm⟩
    · rintro ⟨r'', h, hsame⟩
      injection h with h
      exact (ruleDecision_eq_iff.mpr (h ▸ hsame)).symm

theorem decisions_eq_iff (defValue : Value) (version : Int) :
    cleanDecision env c ctx defValue version c.ir.ruleList =
      evaluateRules env c ctx defValue version c.ir.ruleList ↔ TraceAgrees env c ctx := by
  rw [evaluateRules_dropWhile, cleanDecision_dropWhile, TraceAgrees]
  rcases hrs : c.ir.ruleList.dropWhile (noMatch env c ctx) with _ | ⟨r, rest⟩
  · exact ⟨fun _ => trivial, fun _ => rfl⟩
  -- `r` is the first rule that `Evaluate` does not pass over: it errs, or it matches
  have hr : (matchPtr env c.celPrograms ctx r.when).toExcept ≠ .ok false := by
    intro h
    have hhead := head?_dropWhile_not (noMatch env c ctx) c.ir.ruleList
    rw [hrs] at hhead
    simp [noMatch, h] at hhead
  show _ ↔ _ ∧ _
  rcases hm : (matchPtr env c.celPrograms ctx r.when).toExcept with e | b
  · constructor
    · intro h
      rw [evaluateRules, hm] at h
      exact absurd (congrArg Decision.reason h) (cleanDecision_reason_ne _ _ _)
    · rintro ⟨h, -⟩
      cases h
  · cases b with
    | false => exact absurd hm hr
    | true =>
      rw [evaluateRules, hm]
      show _ = ruleDecision env c.ir.valueType defValue version r ↔ _
      rw [cleanDecision_eq_rule_iff, find?_cons, cleanMatch, hm]
      cases errsBelowPtr env c.celPrograms ctx r.when with
      | false =>
        constructor
        · intro _
          exact ⟨rfl, .inl rfl⟩
        · intro _
          exact ⟨r, rfl, rfl, rfl, fun _ => rfl⟩
      | true =>
        constructor
        · intro h
          exact ⟨rfl, .inr h⟩
        · rintro ⟨-, h | h⟩
          · cases h
          · exact h

/-- **When the trace returns the decision of `Evaluate`**: when the default does not decode (both
    return that error), or when `TraceAgrees`. -/
theorem evaluateWithTrace_eq_iff (env : Env) (c : Compiled) (ctx : Context) (version : Int) :
    (evaluateWithTrace env c ctx version).map Prod.fst = evaluate env c ctx version ↔
      (∃ err, decodeValue env c.ir.default = .error err) ∨ TraceAgrees env c ctx := by
  rw [traceDecision_eq, evaluate]
  rcases decodeValue env c.ir.default with err | defValue
  · exact ⟨fun _ => .inl ⟨err, rfl⟩, fun _ => rfl⟩
  · show Except.ok _ = Except.ok _ ↔ _
    rw [Except.ok.injEq, decisions_eq_iff]
    constructor
    · exact .inr
    · rintro (⟨err, h⟩ | h)
      · nomatch h
      · exact h

end Decisions

/-- A flag with one rule, whose prefix is not a string. -/
def badPrefixSource : Source := .json (.obj [("value_type", .str "boolean"),
  ("default", .bool false),
  ("rules", .arr [.obj [("id", .str "r1"),
    ("when", .obj [("kind", .str "starts_with"), ("attr", .str "plan"), ("value", .num (.int 5))]),
    ("value", .bool true)]])])

/-- The rule in error ends `Evaluate` with reason `error`; the trace goes on to the default. -/
theorem trace_passes_over_error :
    ∃ c, compile .plain (.known .json) badPrefixSource = .ok c ∧
      evaluate .plain c [("plan", .str "pro")] 1 =
        .ok { value := .bool false, reason := .error, ruleId := "r1", version := 1 } ∧
      (evaluateWithTrace .plain c [("plan", .str "pro")] 1).map Prod.fst =
        .ok { value := .bool false, reason := .default, ruleId := "", version := 1 } ∧
      (evaluateWithTrace .plain c [("plan", .str "pro")] 1).map Prod.fst ≠
        evaluate .plain c [("plan", .str "pro")] 1 := by
  refine ⟨_, rfl, ?_, ?_, ?_⟩
  · decide
  · decide
  · decide

end FalseFlag
