/-
  What a trace shows (internal/eval/trace.go).

  `Trace` compares the two DECISIONS; here the trace itself is compared with `match`.  The trace is
  a second, non-short-circuiting copy of the recursion, with its own bookkeeping of errors, so the
  comparison is made node by node:
  * `Mirrors` — a recorded node against a predicate: the kind, one child per operand in order, and
    the result of `match` wherever no leaf beneath errs;
  * **`evaluateWithTrace_faithful`** — every trace that is returned is faithful.

  A negated leaf may carry `true` BESIDE an error (`neq` on a value that does not decode).  Nothing
  is said of the result of such a node: the error is kept, and it unmatches the rule.
-/
import FalseFlag.Trace

namespace FalseFlag

open List JsonTree Fallible Predicate

/-! ## The recorded nodes -/

section Nodes

variable {env : Env} {programs : Programs} {ctx : Context}

/-- The loops append one record per child. -/
theorem traceOf_children (combine : Bool → Bool → Bool) : ∀ (cs : List (Option Predicate))
    (l : TraceLoop), (traceOf env programs ctx combine l cs).children =
      l.children ++ cs.map fun c => (tracePtr env programs ctx c).1
  | [], l => by
    rw [traceOf, map_nil, append_nil]
  | c :: cs, l => by
    rw [traceOf, traceOf_children combine cs, TraceLoop.step, map_cons, append_assoc]
    rfl

/-- **The record of a node**: its kind, the traced flag, and the records of its operands. -/
theorem traceNode_record (p : Predicate) :
    (traceNode env programs ctx p).1.kind = p.kind.toString ∧
      (traceNode env programs ctx p).1.result = (traceNode env programs ctx p).2.ok ∧
      (traceNode env programs ctx p).1.children =
        p.operands.map fun c => (tracePtr env programs ctx c).1 := by
  rcases p.kind_cases with h | h | h | h
  · rw [traceNode_all h, operands_all h]
    exact ⟨rfl, rfl, traceOf_children _ p.of _⟩
  · rw [traceNode_any h, operands_any h]
    exact ⟨rfl, rfl, traceOf_children _ p.of _⟩
  · rw [operands_not h]
    cases p
    subst h
    rw [traceNode]
    exact ⟨rfl, rfl, rfl⟩
  · rw [operands_leaf h]
    exact (traceLeaf_spec h).2.2

end Nodes

/-- A recorded node against the predicate it stands for.  A nil predicate is recorded as a node of
    its own, which never matches. -/
inductive Mirrors (env : Env) (programs : Programs) (ctx : Context) :
    Option Predicate → TraceNode → Prop
  | nil {n : TraceNode} (hkind : n.kind = "nil") (hresult : n.result = false)
      (hchildren : n.children = []) : Mirrors env programs ctx none n
  | node {p : Predicate} {n : TraceNode} (hkind : n.kind = p.kind.toString)
      (hresult : errsBelow env programs ctx p = false →
        (matchNode env programs ctx p).toExcept = .ok n.result)
      (hchildren : Forall₂ (Mirrors env programs ctx) p.operands n.children) :
      Mirrors env programs ctx (some p) n

section Mirror

variable {env : Env} {programs : Programs} {ctx : Context}

variable {p : Predicate}

/-- The recorded result is the one of `match` when no leaf beneath errs. -/
theorem traceNode_result (h : errsBelow env programs ctx p = false) :
    (matchNode env programs ctx p).toExcept = .ok (traceNode env programs ctx p).1.result := by
  obtain ⟨herr, hsame⟩ := @traceSound env programs ctx (some p)
  have hno : errsBelowPtr env programs ctx (some p) = false := h
  rw [hno] at herr
  have hmatch := hsame hno
  rw [Outcome.toExcept_of_err herr, matchPtr_some] at hmatch
  rw [(traceNode_record p).2.1, ← hmatch]
  rfl

theorem mirrors_nil : Mirrors env programs ctx none (tracePtr env programs ctx none).1 :=
  .nil rfl rfl rfl

/-- **Every predicate is mirrored by its record.** -/
theorem mirrors (o : Option Predicate) :
    Mirrors env programs ctx o (tracePtr env programs ctx o).1 := by
  cases o with
  | none => exact mirrors_nil
  | some p =>
    induction p using operand_induct with
    | node p ih =>
      obtain ⟨hkind, -, hchildren⟩ := @traceNode_record env programs ctx p
      refine .node hkind traceNode_result ?_
      show Forall₂ _ p.operands (traceNode env programs ctx p).1.children
      rw [hchildren, forall₂_map_right_iff, forall₂_same]
      intro c hc
      cases c with
      | none => exact mirrors_nil
      | some c => exact ih c hc

/-! ## The recorded errors -/

theorem errsBelow_leaf_or_operands (p : Predicate) :
    errsBelow env programs ctx p = true ↔
      (p.IsLeaf ∧ (matchLeaf env programs ctx p).err.isSome = true) ∨
        ∃ c, some c ∈ p.operands ∧ errsBelow env programs ctx c = true := by
  have hof : ∀ cs : List (Option Predicate), errsBelowOf env programs ctx cs = true ↔
      ∃ c, some c ∈ cs ∧ errsBelow env programs ctx c = true := by
    intro cs
    rw [errsBelowOf_eq_any, any_eq_true]
    constructor
    · rintro ⟨_ | c, hc, h⟩
      · nomatch h
      · exact ⟨c, hc, h⟩
    · rintro ⟨c, hc, h⟩
      exact ⟨some c, hc, h⟩
  have hleaf : ∀ k : PredicateKind, k.IsConnective → p.kind = .known k → ¬ p.IsLeaf :=
    fun k hk hp h => h k hk hp
  rcases p.kind_cases with h | h | h | h
  · rw [errsBelow_all h, hof, operands_all h]
    simp [hleaf .all (.inl rfl) h]
  · rw [errsBelow_any h, hof, operands_any h]
    simp [hleaf .any (.inr (.inl rfl)) h]
  · have hone := hof [p.ofOne]
    rw [errsBelowOf, errsBelowOf, Bool.or_false] at hone
    rw [errsBelow_not h, hone, operands_not h]
    simp [hleaf .not (.inr (.inr rfl)) h]
  · rw [errsBelow_leaf h, operands_leaf h]
    simp [h]

/-- `errsBelow` looks at the leaves, all of them. -/
theorem errsBelow_iff : errsBelow env programs ctx p = true ↔
    ∃ l, l.LeafOf p ∧ (matchLeaf env programs ctx l).err.isSome = true := by
  induction p using operand_induct with
  | node p ih =>
    rw [errsBelow_leaf_or_operands]
    constructor
    · rintro (⟨hp, herr⟩ | ⟨c, hc, h⟩)
      · exact ⟨p, .leaf hp, herr⟩
      · obtain ⟨l, hl, herr⟩ := (ih c hc).mp h
        exact ⟨l, .operand hc hl, herr⟩
    · rintro ⟨l, hl, herr⟩
      rcases hl.self_or_operand with ⟨hp, rfl⟩ | ⟨c, hc, hl⟩
      · exact .inl ⟨hp, herr⟩
      · exact .inr ⟨c, hc, (ih c hc).mpr ⟨l, hl, herr⟩⟩

variable {e : String}

/-- The error of a connective is the error of an operand. -/
theorem traceNode_error_operand (hp : ¬ p.IsLeaf)
    (h : (traceNode env programs ctx p).2.err = some e) :
    ∃ c ∈ p.operands, (tracePtr env programs ctx c).2.err = some e := by
  have hfirst : ∀ (combine : Bool → Bool → Bool) (flag : Bool),
      (traceOf env programs ctx combine { flag } p.of).firstErr = some e →
        ∃ c ∈ p.of, (tracePtr env programs ctx c).2.err = some e := by
    intro combine flag hf
    rw [(traceOf_spec combine p.of _).2, Option.none_or] at hf
    exact exists_of_findSome?_eq_some hf
  rcases p.kind_cases with hk | hk | hk | hk
  · rw [traceNode_all hk] at h
    rw [operands_all hk]
    exact hfirst _ _ h
  · rw [traceNode_any hk] at h
    rw [operands_any hk]
    exact hfirst _ _ h
  · rw [traceNode_not hk] at h
    rw [operands_not hk]
    exact ⟨p.ofOne, mem_singleton_self _, h⟩
  · exact absurd hk hp

/-- The trace fails only with the error of a leaf. -/
theorem tracePtr_error (h : (tracePtr env programs ctx (some p)).2.err = some e) :
    ∃ l, l.LeafOf p ∧ (matchLeaf env programs ctx l).err = some e := by
  induction p using operand_induct with
  | node p ih =>
    rw [tracePtr] at h
    by_cases hp : p.IsLeaf
    · rw [traceNode_leaf hp] at h
      exact ⟨p, .leaf hp, h⟩
    · obtain ⟨c, hc, he⟩ := traceNode_error_operand hp h
      cases c with
      | none => cases he
      | some c =>
        obtain ⟨l, hl, hle⟩ := ih c hc he
        exact ⟨l, .operand hc hl, hle⟩

/-- A match in error has an erring leaf, so its trace is in error too (perhaps with the error of
    another leaf: the trace keeps the first it MEETS, and it meets all of them). -/
theorem tracePtr_error_of_match {o : Option Predicate}
    (h : (matchPtr env programs ctx o).toExcept = .error e) :
    ∃ p e' l, o = some p ∧ (tracePtr env programs ctx o).2.err = some e' ∧ l.LeafOf p ∧
      (matchLeaf env programs ctx l).err = some e' := by
  cases o with
  | none => nomatch h
  | some p =>
    obtain ⟨l, hl, hle⟩ := connect_error h
    have herr : errsBelowPtr env programs ctx (some p) = true :=
      errsBelow_iff.mpr ⟨l, hl, by rw [hle]; rfl⟩
    rw [← (@traceSound env programs ctx (some p)).1] at herr
    obtain ⟨e', he'⟩ := Option.isSome_iff_exists.mp herr
    obtain ⟨l', hl', hle'⟩ := tracePtr_error he'
    exact ⟨p, e', l', rfl, he', hl', hle'⟩

end Mirror

/-! ## Error texts -/

/-- The programs report errors with a text, as cel-go's do. -/
def ErrorsHaveText (programs : Programs) (ctx : Context) : Prop :=
  ∀ source prog text, programs.lookup source = some prog → prog ctx = .error text → text ≠ ""

section Texts

variable {env : Env} {programs : Programs} {ctx : Context}

theorem append_ne_empty {s : String} (hs : s ≠ "") (t : String) : s ++ t ≠ "" := by
  intro h
  exact hs (String.append_eq_empty_iff.mp h).1

variable {p : Predicate} {e : String}

theorem cmpEq_error_text (h : (cmpEq env p ctx).err = some e) :
    e ≠ "" := by
  unfold cmpEq at h
  split at h
  · nomatch h
  · split at h
    · injection h with h
      exact h ▸ append_ne_empty (by decide) _
    · nomatch h

theorem cmpInValues_error_text {actual : Value} : ∀ {raws : List Doc},
    (cmpInValues env actual raws).err = some e → e ≠ ""
  | [], h => nomatch h
  | raw :: raws, h => by
    rw [cmpInValues] at h
    split at h
    · injection h with h
      exact h ▸ append_ne_empty (by decide) _
    · split at h
      · nomatch h
      · exact cmpInValues_error_text h

theorem cmpOrd_error_text {k : PredicateKind} (h : (cmpOrd env k p ctx).err = some e) : e ≠ "" := by
  unfold cmpOrd at h
  split at h
  · nomatch h
  · split at h
    · nomatch h
    · split at h
      · injection h with h
        exact h ▸ append_ne_empty (by decide) _
      · split at h <;> nomatch h

/-- **The error of a leaf has a text**, as far as the programs' errors do. -/
theorem matchLeaf_error_text (hcel : ErrorsHaveText programs ctx)
    (h : (matchLeaf env programs ctx p).err = some e) : e ≠ "" := by
  unfold matchLeaf at h
  split at h
  · nomatch h
  · exact cmpEq_error_text h
  · exact cmpEq_error_text h
  · rw [cmpIn] at h
    split at h
    · nomatch h
    · exact cmpInValues_error_text h
  · exact cmpOrd_error_text h
  · exact cmpOrd_error_text h
  · exact cmpOrd_error_text h
  · exact cmpOrd_error_text h
  · rw [cmpMatches] at h
    split at h
    · nomatch h
    · split at h
      · injection h with h
        exact h ▸ append_ne_empty (by decide) _
      · nomatch h
  · rw [cmpStartsWith] at h
    split at h
    · nomatch h
    · split at h
      · injection h with h
        exact h ▸ append_ne_empty (by decide) _
      · nomatch h
  · rw [matchRollout] at h
    split at h <;> nomatch h
  · rw [matchCel] at h
    split at h
    · injection h with h
      exact h ▸ append_ne_empty (by decide) _
    · rename_i prog hprog
      rw [evalCEL] at h
      split at h
      · rename_i text htext
        injection h with h
        exact h ▸ hcel _ prog text hprog htext
      · nomatch h
      · nomatch h
  · injection h with h
    exact h ▸ append_ne_empty (by decide) _

end Texts

/-! ## Whole traces -/

/-- The entry of a trace for one rule. -/
structure Records (env : Env) (c : Compiled) (ctx : Context) (r : Rule) (e : TraceRule) : Prop where
  ruleId : e.ruleId = r.id
  /-- Node by node, the predicate and the results of `match`. -/
  predicate : Mirrors env c.celPrograms ctx r.when e.predicate
  /-- Matched iff `match` is true and no leaf errs, reached by `match` or not. -/
  matched : e.matched = true ↔ (matchPtr env c.celPrograms ctx r.when).toExcept = .ok true ∧
    ∀ p l, r.when = some p → l.LeafOf p → (matchLeaf env c.celPrograms ctx l).err = none

/-- The entry carries the error of a leaf of its rule, and it shows. -/
def CarriesError (env : Env) (c : Compiled) (ctx : Context) (r : Rule) (e : TraceRule) : Prop :=
  (∃ p l, r.when = some p ∧ l.LeafOf p ∧
    (matchLeaf env c.celPrograms ctx l).err = some e.error) ∧
  (ErrorsHaveText c.celPrograms ctx → e.error ≠ "")

/-- The rule at position `i` is the one that ends `Evaluate`: it errs, and those before do not
    match. -/
structure ErrsAt (env : Env) (c : Compiled) (ctx : Context) (i : Nat) (r : Rule) : Prop where
  rule : c.ir.ruleList[i]? = some r
  errs : ∃ text, (matchPtr env c.celPrograms ctx r.when).toExcept = .error text
  before : ∀ j r', j < i → c.ir.ruleList[j]? = some r' →
    (matchPtr env c.celPrograms ctx r'.when).toExcept = .ok false

/-- What a trace has to show of the evaluation of a flag. -/
structure FaithfulTrace (env : Env) (c : Compiled) (ctx : Context) (version : Int) (tr : Trace) :
    Prop where
  /-- One entry per rule, in order. -/
  entries : Forall₂ (Records env c ctx) c.ir.ruleList tr.evaluatedRules
  defaultUsed : tr.defaultUsed = true ↔ ∀ e ∈ tr.evaluatedRules, e.matched = false
  /-- Otherwise the matched rule is the first entry that is marked so. -/
  matchedRule : tr.defaultUsed = false →
    ∃ e, tr.evaluatedRules.find? (·.matched) = some e ∧ tr.matchedRuleId = e.ruleId
  /-- When `Evaluate` reports an error, the entry of the rule that ends it carries one. -/
  errors : ∀ d, evaluate env c ctx version = .ok d → d.reason = .error →
    ∃ i r e, ErrsAt env c ctx i r ∧ d.ruleId = r.id ∧ tr.evaluatedRules[i]? = some e ∧
      CarriesError env c ctx r e

section Faithful

variable {env : Env} {c : Compiled} {ctx : Context}

theorem traceRules_records : ∀ (rs : List Rule) (records : List TraceRule) (winner : Option Rule),
    (traceRules env c ctx records winner rs).1 = records ++ rs.map (traceRule env c ctx)
  | [], records, winner => by
    rw [traceRules, map_nil, append_nil]
  | r :: rs, records, winner => by
    rw [traceRules, traceRules_records rs, map_cons, append_assoc]
    rfl

/-- What `EvaluateWithTrace` returns when the default decodes. -/
theorem evaluateWithTrace_eq_ok {version : Int} {d : Decision} {tr : Trace}
    (h : evaluateWithTrace env c ctx version = .ok (d, tr)) :
    tr.evaluatedRules = c.ir.ruleList.map (traceRule env c ctx) ∧
      ((c.ir.ruleList.find? (cleanMatch env c ctx) = none ∧ tr.defaultUsed = true) ∨
        ∃ r, c.ir.ruleList.find? (cleanMatch env c ctx) = some r ∧ tr.defaultUsed = false ∧
          tr.matchedRuleId = r.id) := by
  unfold evaluateWithTrace at h
  have hrecords := @traceRules_records env c ctx c.ir.ruleList [] none
  have hwinner := @traceRules_winner env c ctx c.ir.ruleList [] none
  rw [nil_append] at hrecords
  rw [Option.none_or] at hwinner
  rcases hres : traceRules env c ctx [] none c.ir.ruleList with ⟨records, winner⟩
  rw [hres] at h hrecords hwinner
  have hrecords' : records = c.ir.ruleList.map (traceRule env c ctx) := hrecords
  have hwinner' : winner = c.ir.ruleList.find? (cleanMatch env c ctx) := hwinner
  split at h
  · nomatch h
  · rw [← hwinner']
    cases winner with
    | none =>
      injection h with h
      injection h with _ htr
      subst htr
      exact ⟨hrecords', .inl ⟨rfl, rfl⟩⟩
    | some r =>
      injection h with h
      injection h with _ htr
      subst htr
      exact ⟨hrecords', .inr ⟨r, rfl, rfl, rfl⟩⟩

theorem cleanMatch_iff {r : Rule} : cleanMatch env c ctx r = true ↔
    (matchPtr env c.celPrograms ctx r.when).toExcept = .ok true ∧
      ∀ p l, r.when = some p → l.LeafOf p → (matchLeaf env c.celPrograms ctx l).err = none := by
  rw [cleanMatch, Bool.and_eq_true, beq_iff_eq, Bool.not_eq_true']
  refine and_congr Iff.rfl ?_
  cases hw : r.when with
  | none => simp [errsBelowPtr]
  | some q =>
    rw [errsBelowPtr, ← Bool.not_eq_true, errsBelow_iff]
    constructor
    · intro hno p l hp hl
      injection hp with hp
      subst hp
      by_contra herr
      exact hno ⟨l, hl, Option.isSome_iff_ne_none.mpr herr⟩
    · rintro h ⟨l, hl, herr⟩
      rw [h q l rfl hl] at herr
      cases herr

theorem traceRule_fields (r : Rule) : (traceRule env c ctx r).ruleId = r.id ∧
    (traceRule env c ctx r).predicate = (tracePtr env c.celPrograms ctx r.when).1 ∧
    ∀ e, (tracePtr env c.celPrograms ctx r.when).2.err = some e →
      (traceRule env c ctx r).error = e := by
  unfold traceRule
  rcases tracePtr env c.celPrograms ctx r.when with ⟨node, ok, err⟩
  cases err with
  | none => exact ⟨rfl, rfl, fun e h => (nomatch h)⟩
  | some err =>
    refine ⟨rfl, rfl, fun e h => ?_⟩
    injection h

theorem records_traceRule (r : Rule) : Records env c ctx r (traceRule env c ctx r) where
  ruleId := (traceRule_fields r).1
  predicate := by
    rw [(traceRule_fields r).2.1]
    exact mirrors r.when
  matched := by
    rw [traceRule_matched]
    exact cleanMatch_iff

theorem carriesError_of_match {r : Rule} {text : String}
    (h : (matchPtr env c.celPrograms ctx r.when).toExcept = .error text) :
    CarriesError env c ctx r (traceRule env c ctx r) := by
  obtain ⟨p, e, l, hp, he, hl, hle⟩ := tracePtr_error_of_match h
  have herror := (traceRule_fields r).2.2 e he
  refine ⟨⟨p, l, hp, hl, by rw [herror]; exact hle⟩, fun hcel => ?_⟩
  rw [herror]
  exact matchLeaf_error_text hcel hle

/-- The trace of a flag whose default decodes. -/
theorem faithful_of_eq_ok {version : Int} {d : Decision} {tr : Trace}
    (h : evaluateWithTrace env c ctx version = .ok (d, tr)) :
    FaithfulTrace env c ctx version tr := by
  obtain ⟨hentries, hwinner⟩ := evaluateWithTrace_eq_ok h
  -- the entries marked as matched are those of the rules with a clean match
  have hfind : tr.evaluatedRules.find? (·.matched) =
      (c.ir.ruleList.find? (cleanMatch env c ctx)).map (traceRule env c ctx) := by
    have hmatched : (fun e : TraceRule => e.matched) ∘ traceRule env c ctx = cleanMatch env c ctx :=
      funext traceRule_matched
    rw [hentries, find?_map, hmatched]
  have hnone : (∀ e ∈ tr.evaluatedRules, e.matched = false) ↔
      c.ir.ruleList.find? (cleanMatch env c ctx) = none := by
    have hall := @find?_eq_none _ (·.matched) tr.evaluatedRules
    rw [hfind, Option.map_eq_none_iff] at hall
    rw [hall]
    simp
  constructor
  case entries =>
    rw [hentries, forall₂_map_right_iff, forall₂_same]
    exact fun r _ => records_traceRule r
  case defaultUsed =>
    rw [hnone]
    rcases hwinner with ⟨hw, hd⟩ | ⟨r, hw, hd, -⟩
    · simp [hw, hd]
    · simp [hw, hd]
  case matchedRule =>
    intro hdefault
    rcases hwinner with ⟨-, hd⟩ | ⟨r, hw, -, hid⟩
    · rw [hd] at hdefault
      nomatch hdefault
    · refine ⟨traceRule env c ctx r, by rw [hfind, hw]; rfl, ?_⟩
      rw [hid, (traceRule_fields r).1]
  case errors =>
    intro d' hd' hreason
    unfold evaluate at hd'
    split at hd'
    · nomatch hd'
    · injection hd' with hd'
      subst hd'
      obtain ⟨i, r, hr, hid, ⟨text, htext⟩, hbefore⟩ := evaluateRules_error hreason
      refine ⟨i, r, traceRule env c ctx r, ⟨hr, ⟨text, htext⟩, hbefore⟩, hid, ?_,
        carriesError_of_match htext⟩
      rw [hentries, getElem?_map, hr]
      rfl

end Faithful

/-- **Traces are faithful**: `EvaluateWithTrace` fails only when the default does not decode, and
    every trace it returns shows what `match` and `Evaluate` do. -/
theorem evaluateWithTrace_faithful (env : Env) (c : Compiled) (ctx : Context) (version : Int) :
    match evaluateWithTrace env c ctx version with
    | .error _ => ∃ err, decodeValue env c.ir.default = .error err
    | .ok (_, tr) => FaithfulTrace env c ctx version tr := by
  split
  · rename_i err h
    unfold evaluateWithTrace at h
    split at h
    · rename_i err' herr'
      exact ⟨err', herr'⟩
    · split at h <;> nomatch h
  · rename_i d tr h
    exact faithful_of_eq_ok h

end FalseFlag
