/-
  TWO evaluations compared (internal/eval): one flag on two contexts, and two trees on one context.

  1. What a flag can see of a context.  A leaf reads the context at ONE path, its own `attr`; every
     connective only combines what its operands give.  So the leaves are settled first, and what is
     above them is a congruence:
     * `traceLeaf_congr` — a leaf traces alike on contexts that agree on its path, CEL apart (a CEL
       program gets the whole context; the json strategy compiles none);
     * **`evaluate_named_only`** — decision and trace are the same on contexts that agree on the
       paths a flag names.

  2. What raising a rollout does.  `Raised` is the relation "the same tree, some percents larger":
     * `inBucket_mono` — the gate is monotone in the percent, at 0 and 100 too;
     * **`raised_matches`** — what matched still matches, if no rollout stands under a `not`.
-/
import FalseFlag.Trace

namespace FalseFlag

open List JsonTree Fallible Relators Predicate

/-! ## A match depends on its leaves -/

/-- Two ways to settle leaves that agree on the leaves below a node settle the node alike. -/
theorem connect_leaves {leaf leaf' : Predicate → Outcome} {p : Predicate}
    (h : ∀ l, l.LeafOf p → leaf l = leaf' l) : connect leaf p = connect leaf' p := by
  induction p using operand_induct with
  | node p ih =>
    have hptr : ∀ c ∈ p.operands, connectPtr leaf c = connectPtr leaf' c := by
      rintro (_ | c) hc
      · rfl
      · exact ih c hc fun l hl => h l (hl.operand hc)
    have hall : Forall₂ (fun c d => connectPtr leaf c = connectPtr leaf' d)
        p.operands p.operands := forall₂_same.mpr hptr
    rcases p.kind_cases with hk | hk | hk | hk
    · rw [operands_all hk] at hall
      rw [connect_all hk, connect_all hk, connectAll_congr hall]
    · rw [operands_any hk] at hall
      rw [connect_any hk, connect_any hk, connectAny_congr hall]
    · rw [operands_not hk] at hptr
      rw [connect_not hk, connect_not hk, hptr _ (mem_singleton_self _)]
    · rw [connect_leaf hk, connect_leaf hk, h p (.leaf hk)]

/-! ## What a flag can see of a context -/

section Named

variable {env : Env} {ctx ctx' : Context}

theorem lookupString_congr {path : String} (h : lookup ctx path = lookup ctx' path) :
    lookupString ctx path = lookupString ctx' path := by
  unfold lookupString
  rw [h]

/-- Without CEL programs a leaf reads the context at its own path only. -/
theorem matchLeaf_congr {p : Predicate} (h : lookup ctx p.attr = lookup ctx' p.attr) :
    matchLeaf env [] ctx p = matchLeaf env [] ctx' p := by
  have hs := lookupString_congr h
  unfold matchLeaf cmpEq cmpIn cmpOrd cmpMatches cmpStartsWith matchRollout
  rw [h, hs]
  rfl

/-- … and so does the record of a leaf. -/
theorem traceLeaf_congr {p : Predicate} (hp : p.IsLeaf)
    (h : lookup ctx p.attr = lookup ctx' p.attr) :
    traceLeaf env [] ctx p = traceLeaf env [] ctx' p := by
  have hs := lookupString_congr h
  have hm : matchNode env [] ctx p = matchNode env [] ctx' p := by
    rw [matchNode, matchNode, connect_leaf hp, connect_leaf hp, matchLeaf_congr h]
  unfold traceLeaf
  rw [h, hs, hm]

/-- The loops record the same when the children do. -/
theorem traceOf_congr {programs : Programs} (combine : Bool → Bool → Bool) :
    ∀ {cs : List (Option Predicate)} (l : TraceLoop),
      (∀ c ∈ cs, tracePtr env programs ctx c = tracePtr env programs ctx' c) →
      traceOf env programs ctx combine l cs = traceOf env programs ctx' combine l cs
  | [], _, _ => by rw [traceOf, traceOf]
  | c :: cs, l, h => by
    rw [traceOf, traceOf, h c mem_cons_self]
    exact traceOf_congr combine _ fun d hd => h d (mem_cons_of_mem _ hd)

/-- A trace, with its outcome, depends on the records of the leaves beneath. -/
theorem traceNode_leaves {programs : Programs} {p : Predicate}
    (h : ∀ l, l.LeafOf p → traceLeaf env programs ctx l = traceLeaf env programs ctx' l) :
    traceNode env programs ctx p = traceNode env programs ctx' p := by
  induction p using operand_induct with
  | node p ih =>
    have hptr : ∀ c ∈ p.operands, tracePtr env programs ctx c = tracePtr env programs ctx' c := by
      rintro (_ | c) hc
      · rfl
      · exact ih c hc fun l hl => h l (hl.operand hc)
    rcases p.kind_cases with hk | hk | hk | hk
    · rw [operands_all hk] at hptr
      rw [traceNode_all hk, traceNode_all hk, traceOf_congr _ _ hptr]
    · rw [operands_any hk] at hptr
      rw [traceNode_any hk, traceNode_any hk, traceOf_congr _ _ hptr]
    · have hone := hptr p.ofOne (operands_not hk ▸ mem_singleton_self _)
      cases p
      subst hk
      dsimp only at hone
      rw [traceNode, traceNode, hone]
    · rw [(traceLeaf_spec hk).1, (traceLeaf_spec hk).1, h p (.leaf hk)]

/-- The two contexts give the same lookup, hit or miss, for every path a rule of the tree names. -/
def SameNamed (t : RulesTree) (ctx ctx' : Context) : Prop :=
  ∀ r ∈ t.ruleList, ∀ p, r.when = some p → ∀ l : Predicate, l.LeafOf p →
    lookup ctx l.attr = lookup ctx' l.attr

/-- The rules are settled alike, one by one. -/
theorem SameNamed.matchPtr_eq {t : RulesTree} (h : SameNamed t ctx ctx') {r : Rule}
    (hr : r ∈ t.ruleList) : matchPtr env [] ctx r.when = matchPtr env [] ctx' r.when := by
  rcases hp : r.when with _ | p
  · rfl
  · exact connect_leaves fun l hl => matchLeaf_congr (h r hr p hp l hl)

theorem SameNamed.tracePtr_eq {t : RulesTree} (h : SameNamed t ctx ctx') {r : Rule}
    (hr : r ∈ t.ruleList) : tracePtr env [] ctx r.when = tracePtr env [] ctx' r.when := by
  rcases hp : r.when with _ | p
  · rfl
  · exact traceNode_leaves fun l hl => traceLeaf_congr hl.isLeaf (h r hr p hp l hl)

theorem evaluateRules_congr {c : Compiled} {defValue : Value} {version : Int} :
    ∀ {rs : List Rule},
      (∀ r ∈ rs, matchPtr env c.celPrograms ctx r.when = matchPtr env c.celPrograms ctx' r.when) →
      evaluateRules env c ctx defValue version rs = evaluateRules env c ctx' defValue version rs
  | [], _ => rfl
  | r :: rs, h => by
    rw [evaluateRules, evaluateRules, h r mem_cons_self,
      evaluateRules_congr fun r' hr' => h r' (mem_cons_of_mem _ hr')]

theorem traceRules_congr {c : Compiled} : ∀ {rs : List Rule} (records : List TraceRule)
    (winner : Option Rule),
      (∀ r ∈ rs, tracePtr env c.celPrograms ctx r.when = tracePtr env c.celPrograms ctx' r.when) →
      traceRules env c ctx records winner rs = traceRules env c ctx' records winner rs
  | [], _, _, _ => rfl
  | r :: rs, records, winner, h => by
    have hr : traceRule env c ctx r = traceRule env c ctx' r := by
      unfold traceRule
      rw [h r mem_cons_self]
    rw [traceRules, traceRules, hr]
    exact traceRules_congr _ _ fun r' hr' => h r' (mem_cons_of_mem _ hr')

/-- **A flag of the json strategy sees of a context only what its rules name**: on contexts that
    agree there, the decision is the same, and so is the trace with all that it records. -/
theorem evaluate_named_only {src : Source} {c : Compiled} (hc : jsonCompile env src = .ok c)
    (h : SameNamed c.ir ctx ctx') (version : Int) :
    evaluate env c ctx version = evaluate env c ctx' version ∧
      evaluateWithTrace env c ctx version = evaluateWithTrace env c ctx' version := by
  obtain ⟨t, -, -, rfl⟩ := jsonCompile_eq_ok.mp hc
  constructor
  · unfold evaluate
    rcases decodeValue env t.default with _ | defValue
    · rfl
    · exact congrArg _ (evaluateRules_congr fun r hr => h.matchPtr_eq hr)
  · unfold evaluateWithTrace
    rw [traceRules_congr _ _ fun r hr => h.tracePtr_eq hr]

/-- A flag that names `plan` under a `not`, and no other path. -/
def planFlag : Doc :=
  .obj [("value_type", .str "boolean"), ("default", .bool false),
    ("rules", .arr [.obj [("id", .str "paying"),
      ("when", .obj [("kind", .str "not"),
        ("of_one", .obj [("kind", .str "eq"), ("attr", .str "plan"), ("value", .str "free")])]),
      ("value", .bool true)]])]

/-- What it compiles to. -/
def planTree : RulesTree where
  valueType := .known .boolean
  default := some (.bool false)
  rules := some [{
    id := "paying"
    when := some { kind := .known .not
                   ofOne := some { kind := .known .eq, attr := "plan", value := some (.str "free") } }
    value := some (.bool true) }]

/-- It compiles, and cannot tell apart two users of one plan. -/
theorem planFlag_named_only :
    jsonCompile Env.plain (.json planFlag) = .ok ⟨.json, planTree, []⟩ ∧
    evaluateWithTrace Env.plain ⟨.json, planTree, []⟩
        [("email", .str "a"), ("plan", .str "pro")] 1 =
      evaluateWithTrace Env.plain ⟨.json, planTree, []⟩
        [("email", .str "b"), ("plan", .str "pro")] 1 := by
  have hc : jsonCompile Env.plain (.json planFlag) = .ok ⟨.json, planTree, []⟩ := rfl
  refine ⟨hc, (evaluate_named_only hc ?_ 1).2⟩
  intro r hr p hp l hl
  obtain rfl := mem_singleton.mp hr
  injection hp with hp
  subst hp
  rcases hl.self_or_operand with ⟨h, -⟩ | ⟨c, hc, hl⟩
  · exact absurd rfl (h .not (.inr (.inr rfl)))
  · injection mem_singleton.mp hc with hc
    subst hc
    rcases hl.self_or_operand with ⟨-, rfl⟩ | ⟨c, hc, -⟩
    · rfl
    · nomatch hc

end Named

/-! ## Where no leaf errs -/

section Settled

variable {leaf : Predicate → Outcome}

/-- No leaf below the node errs. -/
def Settled (leaf : Predicate → Outcome) (p : Predicate) : Prop :=
  ∀ l : Predicate, l.LeafOf p → (leaf l).err = none

theorem Settled.operand {p c : Predicate} (h : Settled leaf p) (hc : some c ∈ p.operands) :
    Settled leaf c :=
  fun l hl => h l (hl.operand hc)

/-- Then the node does not err either. -/
theorem Settled.connect_ok {p : Predicate} (h : Settled leaf p) :
    ∃ b, (connect leaf p).toExcept = .ok b := by
  rcases hb : (connect leaf p).toExcept with e | b
  · obtain ⟨l, hl, he⟩ := connect_error hb
    rw [h l hl] at he
    nomatch he
  · exact ⟨b, rfl⟩

/-- … and none of its operands does. -/
theorem Settled.operand_ok {p : Predicate} (h : Settled leaf p) :
    ∀ c ∈ p.operands, ∃ b, (connectPtr leaf c).toExcept = .ok b
  | none, _ => ⟨false, rfl⟩
  | some _, hc => (h.operand hc).connect_ok

/-- `all` matches iff every child does. -/
theorem connectAll_matches : ∀ {cs : List (Option Predicate)},
    (connectAll leaf cs).toExcept = .ok true ↔ ∀ c ∈ cs, (connectPtr leaf c).toExcept = .ok true
  | [] => by simp [connectAll, Outcome.result, Outcome.toExcept]
  | c :: cs => by
    rw [connectAll, forall_mem_cons]
    rcases (connectPtr leaf c).toExcept with e | b
    · exact ⟨fun h => (by cases h), fun h => by cases h.1⟩
    · cases b with
      | false => exact ⟨fun h => (by cases h), fun h => by cases h.1⟩
      | true =>
        show (connectAll leaf cs).toExcept = .ok true ↔ _
        rw [connectAll_matches]
        exact ⟨fun h => ⟨rfl, h⟩, fun h => h.2⟩

/-- `any` matches iff some child does, if none errs: an error before that child would win. -/
theorem connectAny_matches : ∀ {cs : List (Option Predicate)},
    (∀ c ∈ cs, ∃ b, (connectPtr leaf c).toExcept = .ok b) →
    ((connectAny leaf cs).toExcept = .ok true ↔
      ∃ c ∈ cs, (connectPtr leaf c).toExcept = .ok true)
  | [], _ => by simp [connectAny, Outcome.result, Outcome.toExcept]
  | c :: cs, h => by
    obtain ⟨b, hb⟩ := h c mem_cons_self
    have ih := connectAny_matches fun d hd => h d (mem_cons_of_mem _ hd)
    rw [connectAny, exists_mem_cons_iff, hb]
    cases b with
    | true => exact ⟨fun _ => .inl rfl, fun _ => rfl⟩
    | false =>
      show (connectAny leaf cs).toExcept = .ok true ↔ _
      rw [ih]
      exact ⟨.inr, fun h => h.elim (fun h => by cases h) id⟩

end Settled

/-! ## What raising a rollout does -/

/-- `q` is `p` with the percents of some rollouts raised, anywhere below; salts, attributes and all
    else are as they were. -/
inductive Raised : Predicate → Predicate → Prop
  | node {p : Predicate} {percent : Int64} {of : List (Option Predicate)}
      {ofOne : Option Predicate} :
      p.percent ≤ percent → (p.kind ≠ .known .rollout → percent = p.percent) →
      Forall₂ (Option.Rel Raised) p.of of → Option.Rel Raised p.ofOne ofOne →
      Raised p { p with percent, of, ofOne }

/-- No rollout stands under a `not`. -/
inductive NoRolloutUnderNot : Predicate → Prop
  | leaf {p : Predicate} : p.IsLeaf → NoRolloutUnderNot p
  | of {p : Predicate} : p.kind = .known .all ∨ p.kind = .known .any →
      (∀ c, some c ∈ p.of → NoRolloutUnderNot c) → NoRolloutUnderNot p
  | ofOne {p : Predicate} : p.kind = .known .not →
      (∀ l : Predicate, l.LeafOf p → l.kind ≠ .known .rollout) → NoRolloutUnderNot p

theorem NoRolloutUnderNot.of_mem {p c : Predicate} (h : NoRolloutUnderNot p)
    (hk : p.kind = .known .all ∨ p.kind = .known .any) (hc : some c ∈ p.of) :
    NoRolloutUnderNot c := by
  cases h with
  | leaf hp =>
    rcases hk with hk | hk
    · exact absurd hk (hp .all (.inl rfl))
    · exact absurd hk (hp .any (.inr (.inl rfl)))
  | of _ h => exact h c hc
  | ofOne hnot _ =>
    rw [hnot] at hk
    exact absurd hk (by decide)

namespace Raised

variable {p q : Predicate}

theorem kind_eq (h : Raised p q) : q.kind = p.kind := by
  cases h
  rfl

theorem isLeaf (h : Raised p q) (hp : p.IsLeaf) : q.IsLeaf := by
  intro k hk
  rw [h.kind_eq]
  exact hp k hk

/-- The operands are raised one by one. -/
theorem operands (h : Raised p q) : Forall₂ (Option.Rel Raised) p.operands q.operands := by
  rcases p.kind_cases with hk | hk | hk | hk
  · rw [operands_all hk, operands_all (h.kind_eq.trans hk)]
    cases h with
    | node _ _ hof _ => exact hof
  · rw [operands_any hk, operands_any (h.kind_eq.trans hk)]
    cases h with
    | node _ _ hof _ => exact hof
  · rw [operands_not hk, operands_not (h.kind_eq.trans hk)]
    cases h with
    | node _ _ _ hone => exact .cons hone .nil
  · rw [operands_leaf hk, operands_leaf (h.isLeaf hk)]
    exact .nil

theorem exists_operand (h : Raised p q) {d : Predicate} (hd : some d ∈ q.operands) :
    ∃ c, some c ∈ p.operands ∧ Raised c d := by
  obtain ⟨o, ho, hrel⟩ := exists_of_forall₂ h.operands.flip _ hd
  cases hrel with
  | some hcd => exact ⟨_, ho, hcd⟩

variable {env : Env} {programs : Programs} {ctx : Context}

/-- A leaf that is no rollout is not touched. -/
theorem matchLeaf_eq (h : Raised p q) (hk : p.kind ≠ .known .rollout) :
    matchLeaf env programs ctx q = matchLeaf env programs ctx p := by
  cases h with
  | node _ hpercent _ _ =>
    obtain rfl := hpercent hk
    rfl

/-- A rollout never errs, before or after. -/
theorem leaf_err (h : Raised p q) (hp : (matchLeaf env programs ctx p).err = none) :
    (matchLeaf env programs ctx q).err = none := by
  by_cases hk : p.kind = .known .rollout
  · unfold matchLeaf
    rw [h.kind_eq, hk]
    show (matchRollout q ctx).err = none
    unfold matchRollout
    split <;> rfl
  · rwa [h.matchLeaf_eq hk]

theorem settled (h : Raised p q) (hp : Settled (matchLeaf env programs ctx) p) :
    Settled (matchLeaf env programs ctx) q := by
  induction p using operand_induct generalizing q with
  | node p ih =>
    intro l hl
    rcases hl.self_or_operand with ⟨hq, rfl⟩ | ⟨d, hd, hl⟩
    · have hleaf : p.IsLeaf := fun k hk => h.kind_eq ▸ hq k hk
      exact h.leaf_err (hp p (.leaf hleaf))
    · obtain ⟨c, hc, hcd⟩ := h.exists_operand hd
      exact ih c hc hcd (hp.operand hc) l hl

/-- A node without rollouts below gives exactly what it gave. -/
theorem connect_eq (h : Raised p q) (hp : ∀ l : Predicate, l.LeafOf p → l.kind ≠ .known .rollout) :
    connect (matchLeaf env programs ctx) p = connect (matchLeaf env programs ctx) q := by
  induction p using operand_induct generalizing q with
  | node p ih =>
    have hops : Forall₂ (fun c d => connectPtr (matchLeaf env programs ctx) c =
        connectPtr (matchLeaf env programs ctx) d) p.operands q.operands := by
      refine forall₂_imp ?_ h.operands
      intro c hc d hcd
      cases hcd with
      | none => rfl
      | some hcd => exact ih _ hc hcd fun l hl => hp l (hl.operand hc)
    rcases p.kind_cases with hk | hk | hk | hk
    · rw [operands_all hk, operands_all (h.kind_eq.trans hk)] at hops
      rw [connect_all hk, connect_all (h.kind_eq.trans hk), connectAll_congr hops]
    · rw [operands_any hk, operands_any (h.kind_eq.trans hk)] at hops
      rw [connect_any hk, connect_any (h.kind_eq.trans hk), connectAny_congr hops]
    · rw [operands_not hk, operands_not (h.kind_eq.trans hk)] at hops
      rw [connect_not hk, connect_not (h.kind_eq.trans hk), (forall₂_cons.mp hops).1]
    · rw [connect_leaf hk, connect_leaf (h.isLeaf hk), h.matchLeaf_eq (hp p (.leaf hk))]

end Raised

/-- The gate is monotone in the percent; 0 and below let nobody in, 100 and above everybody. -/
theorem inBucket_mono {salt v : String} {percent percent' : Int64} (h : percent ≤ percent')
    (hin : inBucket salt v percent = true) : inBucket salt v percent' = true := by
  unfold inBucket at hin ⊢
  rw [Int64.le_iff_toInt_le] at h
  simp only [Int64.le_iff_toInt_le, ge_iff_le] at hin ⊢
  split at hin
  · nomatch hin
  · rename_i hpos
    rw [if_neg (by omega)]
    split
    · rfl
    · rename_i hlt
      rw [if_neg (by omega)] at hin
      have hbucket := of_decide_eq_true hin
      exact decide_eq_true (by omega)

/-- A leaf that matched still matches. -/
theorem Raised.leaf_matches {env : Env} {programs : Programs} {ctx : Context} {p q : Predicate}
    (h : Raised p q) (hp : (matchLeaf env programs ctx p).toExcept = .ok true) :
    (matchLeaf env programs ctx q).toExcept = .ok true := by
  by_cases hk : p.kind = .known .rollout
  · have hk' := h.kind_eq.trans hk
    unfold matchLeaf at hp ⊢
    rw [hk] at hp
    rw [hk']
    change (matchRollout p ctx).toExcept = .ok true at hp
    show (matchRollout q ctx).toExcept = .ok true
    cases h with
    | node hpercent _ _ _ =>
      unfold matchRollout at hp ⊢
      rcases hv : lookupString ctx p.attr with _ | v
      · rw [hv] at hp
        nomatch hp
      · rw [hv] at hp
        injection hp with hp
        show (Outcome.result (inBucket p.salt v _)).toExcept = .ok true
        rw [inBucket_mono hpercent hp]
        rfl
  · rwa [h.matchLeaf_eq hk]

/-- **Ramping a rollout up never drops a user who was in**: where no leaf errs and no rollout stands
    under a `not`, what a tree matches it still matches with any of its percents raised. -/
theorem raised_matches {env : Env} {programs : Programs} {ctx : Context} {p q : Predicate}
    (hnot : NoRolloutUnderNot p) (herr : Settled (matchLeaf env programs ctx) p)
    (h : Raised p q) (hp : (matchNode env programs ctx p).toExcept = .ok true) :
    (matchNode env programs ctx q).toExcept = .ok true := by
  unfold matchNode at hp ⊢
  induction p using operand_induct generalizing q with
  | node p ih =>
    have hsettled := h.settled herr
    rcases p.kind_cases with hk | hk | hk | hk
    · have hops := h.operands
      rw [operands_all hk, operands_all (h.kind_eq.trans hk)] at hops
      rw [connect_all hk, connectAll_matches] at hp
      rw [connect_all (h.kind_eq.trans hk), connectAll_matches]
      intro d hd
      obtain ⟨c, hc, hcd⟩ := exists_of_forall₂ hops.flip d hd
      cases hcd with
      | none => exact hp none hc
      | @some c d hcd =>
        have hcp : some c ∈ p.operands := operands_all hk ▸ hc
        exact ih c hcp (hnot.of_mem (.inl hk) hc) (herr.operand hcp) hcd (hp _ hc)
    · have hops := h.operands
      have hok := herr.operand_ok
      have hok' := hsettled.operand_ok
      rw [operands_any hk] at hops hok
      rw [operands_any (h.kind_eq.trans hk)] at hops hok'
      rw [connect_any hk, connectAny_matches hok] at hp
      rw [connect_any (h.kind_eq.trans hk), connectAny_matches hok']
      obtain ⟨c, hc, hcm⟩ := hp
      obtain ⟨d, hd, hcd⟩ := exists_of_forall₂ hops c hc
      refine ⟨d, hd, ?_⟩
      cases hcd with
      | none => exact hcm
      | @some c d hcd =>
        have hcp : some c ∈ p.operands := operands_any hk ▸ hc
        exact ih c hcp (hnot.of_mem (.inr hk) hc) (herr.operand hcp) hcd hcm
    · -- nothing below a `not` can have changed
      cases hnot with
      | leaf hp => exact absurd hk (hp .not (.inr (.inr rfl)))
      | of hk' _ =>
        rw [hk] at hk'
        exact absurd hk' (by decide)
      | ofOne _ hfree => rwa [← h.connect_eq hfree]
    · rw [connect_leaf hk] at hp
      rw [connect_leaf (h.isLeaf hk)]
      exact h.leaf_matches hp

/-- `beta` testers, and a share of the rest. -/
def rampTree (percent : Int64) : Predicate where
  kind := .known .any
  of := [some { kind := .known .eq, attr := "beta", value := some (.bool true) },
    some { kind := .known .rollout, attr := "id", salt := "ramp", percent }]

/-- User `u13` is among the first 10 percent, and stays in at 25. -/
theorem rampTree_matches :
    (matchNode Env.plain [] [("id", .str "u13")] (rampTree 10)).toExcept = .ok true ∧
    (matchNode Env.plain [] [("id", .str "u13")] (rampTree 25)).toExcept = .ok true := by
  have hin : (matchNode Env.plain [] [("id", .str "u13")] (rampTree 10)).toExcept = .ok true := rfl
  have hchild : ∀ c, some c ∈ (rampTree 10).of → c.IsLeaf ∧
      (matchLeaf Env.plain [] [("id", .str "u13")] c).err = none := by
    intro c hc
    rcases mem_cons.mp hc with h | h
    · injection h with h
      subst h
      exact ⟨by rintro k (rfl | rfl | rfl) <;> nofun, rfl⟩
    · injection mem_singleton.mp h with h
      subst h
      exact ⟨by rintro k (rfl | rfl | rfl) <;> nofun, rfl⟩
  refine ⟨hin, raised_matches (.of (.inr rfl) fun c hc => .leaf (hchild c hc).1) ?_ ?_ hin⟩
  · intro l hl
    rcases hl.self_or_operand with ⟨h, -⟩ | ⟨c, hc, hl⟩
    · exact absurd rfl (h .any (.inr (.inl rfl)))
    · rcases hl.self_or_operand with ⟨-, rfl⟩ | ⟨d, hd, -⟩
      · exact (hchild _ hc).2
      · rw [operands_leaf (hchild c hc).1] at hd
        nomatch hd
  · refine .node (by decide) (fun _ => rfl) (.cons ?_ (.cons ?_ .nil)) .none
    · exact .some (.node (by decide) (fun _ => rfl) .nil .none)
    · exact .some (.node (by decide) (fun h => absurd rfl h) .nil .none)

end FalseFlag
