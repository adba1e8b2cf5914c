/-
  From a custom resource to the IR the server keeps, and back to a decision
  (internal/operator/translate, internal/operator/controllers/flag_controller.go,
  internal/server/rpc/flags.go).

  A rule of a Flag travels far: it is read into the IR (`IRForFlag`), written and read as a map
  (`PublishSource`), sent as a protobuf Struct, written again by the server, read as a tree, resolved,
  written, compiled, written, and stored.  Every stage keeps the tree up to `Like`:
  * `carries_published` — what the server compiles is the translated tree, its numbers printed from
    their float64;
  * `like_of_accepted` — if the server can read it, it reads the translated tree, with `null` where
    a value was missing (`fill`);
  * **`published_as_translated`** — the stored IR has the rules of the resource, and decides as the
    translated tree does.
-/
import FalseFlag.Operator.Upstream
import FalseFlag.SdkGo

namespace FalseFlag

open List JsonTree Json Fallible Relators Binary

/-! ## The numbers -/

/-- Integers below `2 ^ 53` are read as they are. -/
theorem float64_int {i : ℤ} (h : |i| < 2 ^ 53) : (JNum.int i).float64 = i := by
  have hval : (JNum.int i).val = (i : ℚ) := rfl
  rw [JNum.float64, hval]
  exact Format.Representable.round_eq ⟨i, 0, by simp, h, by decide⟩

/-- An integer that is read as one from 0 to 100 is that one. -/
theorem eq_of_float64_eq {i j : ℤ} (hlo : 0 ≤ j) (hhi : j ≤ 100)
    (h : (JNum.int i).float64 = j) : i = j := by
  have hval : (JNum.int i).float64 = binary64.round (i : ℚ) := rfl
  have hnotneg : ¬ i ≤ -1 := by
    intro hi
    have hle : ((1 : ℤ) : ℚ) ≤ binary64.round (-(i : ℚ)) := by
      refine binary64.le_round (by decide) (by decide) (by decide) ?_
      exact_mod_cast (by omega : (1 : ℤ) ≤ -i)
    rw [binary64.round_neg, ← hval, h] at hle
    have : (1 : ℤ) ≤ -j := by exact_mod_cast hle
    omega
  have hnotbig : ¬ 101 ≤ i := by
    intro hi
    have hle : ((101 : ℤ) : ℚ) ≤ binary64.round (i : ℚ) := by
      refine binary64.le_round (by decide) (by decide) (by decide) ?_
      exact_mod_cast hi
    rw [← hval, h] at hle
    have : (101 : ℤ) ≤ j := by exact_mod_cast hle
    omega
  rw [float64_int (abs_lt.mpr ⟨by omega, by omega⟩)] at h
  exact_mod_cast h

/-- A `percent` in bounds that arrived was sent. -/
theorem percent_of_resent {i j : Int64}
    (h : Carries (S := String) Resent (.num (.int i.toInt)) (.num (.int j.toInt)))
    (hj : ¬ (j < 0 ∨ j > 100)) : i = j := by
  cases h with
  | num h =>
    rw [gt_iff_lt, Int64.lt_iff_toInt_lt, Int64.lt_iff_toInt_lt] at hj
    have hlo : 0 ≤ j.toInt := by
      have : ¬ j.toInt < 0 := fun h => hj (.inl h)
      omega
    have hhi : j.toInt ≤ 100 := by
      have : ¬ 100 < j.toInt := fun h => hj (.inr h)
      omega
    have hfloat : (JNum.int i.toInt).float64 = j.toInt := by
      rw [← keeps_resent.float64 h, float64_int (abs_lt.mpr ⟨by omega, by omega⟩)]
    exact Int64.toInt_inj.mp (eq_of_float64_eq hlo hhi hfloat)

/-! ## Checks that are passed on the other side -/

section Unlike

variable {env : Env} {allowCEL : Bool} {R : Doc → Doc → Prop}
  (hback : ∀ {i j : Int64}, R (.num (.int i.toInt)) (.num (.int j.toInt)) →
    ¬ (j < 0 ∨ j > 100) → i = j)

theorem rel_some_right {α β : Type} {S : α → β → Prop} {o : Option α} {b : β}
    (h : Option.Rel S o (some b)) : ∃ a, o = some a ∧ S a b := by
  cases h with
  | some h => exact ⟨_, rfl, h⟩

theorem none_not_mem_of_unlike {cs ds : List (Option Predicate)}
    (h : Forall₂ (Option.Rel (Predicate.Like R)) cs ds) (hds : none ∉ ds) : none ∉ cs := by
  intro hcs
  obtain ⟨o, ho, hrel⟩ := exists_of_forall₂ h _ hcs
  cases hrel with
  | none => exact hds ho

theorem unlike_child {cs ds : List (Option Predicate)}
    (h : Forall₂ (Option.Rel (Predicate.Like R)) cs ds) {c : Predicate} (hc : some c ∈ cs) :
    ∃ d, some d ∈ ds ∧ c.Like R d := by
  obtain ⟨o, ho, hrel⟩ := exists_of_forall₂ h _ hc
  cases hrel with
  | some hcd => exact ⟨_, ho, hcd⟩

include hback

/-- What was written passes the checks that what is read passes. -/
theorem ValidPredicate.unlike {q : Predicate} (h : ValidPredicate env allowCEL q) :
    ∀ {p : Predicate}, p.Like R q → ValidPredicate env allowCEL p := by
  induction h with
  | compare hkind hk hattr hvalue =>
    rintro p ⟨hkind', hattr', hvalue'⟩
    rw [hvalue] at hvalue'
    obtain ⟨d, hd, -⟩ := rel_some_right hvalue'
    exact .compare (hkind'.trans hkind) hk (hattr' ▸ hattr) hd
  | isIn hkind hattr hvalues =>
    rintro p ⟨hkind', hattr', -, hvalues'⟩
    exact .isIn (hkind'.trans hkind) (hattr' ▸ hattr) (ne_nil_of_forall₂ hvalues'.flip hvalues)
  | «matches» hkind hattr hpattern hre =>
    rintro p ⟨hkind', hattr', -, -, hpattern'⟩
    exact .matches (hkind'.trans hkind) (hattr' ▸ hattr) (hpattern' ▸ hpattern)
      (hpattern'.symm ▸ hre)
  | rollout hkind hattr hsalt hpercent =>
    rintro p ⟨hkind', hattr', -, -, -, hsalt', hpercent'⟩
    exact .rollout (hkind'.trans hkind) (hattr' ▸ hattr) (hsalt' ▸ hsalt)
      (by rwa [hback hpercent' hpercent])
  | all hkind hne hnil _ ih =>
    rintro p ⟨hkind', -, -, -, -, -, -, hof⟩
    refine .all (hkind'.trans hkind) (ne_nil_of_forall₂ hof.flip hne)
      (none_not_mem_of_unlike hof hnil) ?_
    intro c hc
    obtain ⟨d, hd, hcd⟩ := unlike_child hof hc
    exact ih d hd hcd
  | any hkind hne hnil _ ih =>
    rintro p ⟨hkind', -, -, -, -, -, -, hof⟩
    refine .any (hkind'.trans hkind) (ne_nil_of_forall₂ hof.flip hne)
      (none_not_mem_of_unlike hof hnil) ?_
    intro c hc
    obtain ⟨d, hd, hcd⟩ := unlike_child hof hc
    exact ih d hd hcd
  | not hkind hone _ ih =>
    rintro p ⟨hkind', -, -, -, -, -, -, -, hone'⟩
    rw [hone] at hone'
    obtain ⟨c, hc, hcd⟩ := rel_some_right hone'
    exact .not (hkind'.trans hkind) hc (ih hcd)
  | cel hkind hallow hsource =>
    rintro p ⟨hkind', -, -, -, -, -, -, -, -, hsource', -⟩
    exact .cel (hkind'.trans hkind) hallow (hsource' ▸ hsource)
  | always hkind =>
    rintro p ⟨hkind'⟩
    exact .always (hkind'.trans hkind)
  | segment hkind hkey =>
    rintro p ⟨hkind', -, -, -, -, -, -, -, -, -, hkey'⟩
    exact .segment (hkind'.trans hkind) (hkey' ▸ hkey)

/-- What passes the checks there has passed them here. -/
theorem ValidTree.unlike {t u : RulesTree} (h : t.Like R u) (hu : ValidTree env allowCEL u) :
    ValidTree env allowCEL t where
  valueType := by
    obtain ⟨vt, hvt⟩ := hu.valueType
    exact ⟨vt, h.valueType.trans hvt⟩
  default := by
    obtain ⟨d, hd⟩ := Option.ne_none_iff_exists'.mp hu.default
    have hdefault := h.default
    rw [hd] at hdefault
    obtain ⟨d', hd', -⟩ := rel_some_right hdefault
    rw [hd']
    nofun
  rules := by
    intro r hr
    obtain ⟨r', hr', hrr'⟩ := exists_of_forall₂ h.ruleList r hr
    obtain ⟨hid, hvalue, q, hq, hvalid⟩ := hu.rules r' hr'
    obtain ⟨hid', hwhen', hvalue'⟩ := hrr'
    obtain ⟨d, hd⟩ := Option.ne_none_iff_exists'.mp hvalue
    rw [hd] at hvalue'
    rw [hq] at hwhen'
    obtain ⟨d', hd', -⟩ := rel_some_right hvalue'
    obtain ⟨p, hp, hpq⟩ := rel_some_right hwhen'
    exact ⟨hid' ▸ hid, by rw [hd']; nofun, p, hp, hvalid.unlike hback hpq⟩

end Unlike

/-! ## Missing values -/

section Fill

variable {env : Env}

/-- A missing value is decoded like `null`. -/
theorem decodeValue_fill (o : Option Doc) :
    decodeValue env (some (o.getD .null)) = decodeValue env o := by
  cases o <;> rfl

theorem ruleDecision_fill (vt : Named ValueType) (defValue : Value) (version : Int) (r : Rule) :
    ruleDecision env vt defValue version r.fill = ruleDecision env vt defValue version r := by
  have hserved : servedValue env vt r.fill = servedValue env vt r := by
    unfold servedValue Rule.fill
    rw [decodeValue_fill]
  unfold ruleDecision
  rw [hserved]
  rfl

theorem evaluateRules_fill {c c' : Compiled} (hvt : c'.ir.valueType = c.ir.valueType)
    (hprog : c'.celPrograms = c.celPrograms) (ctx : Context) (defValue : Value) (version : Int) :
    ∀ rs : List Rule, evaluateRules env c' ctx defValue version (rs.map Rule.fill) =
      evaluateRules env c ctx defValue version rs
  | [] => rfl
  | r :: rs => by
    rw [map_cons, evaluateRules, evaluateRules, ruleDecision_fill, hvt, hprog,
      evaluateRules_fill hvt hprog ctx defValue version rs]
    rfl

/-- **Filling in what is missing changes no decision.** -/
theorem evaluate_fill (st : Strategy) (t : RulesTree) (programs : Programs) (ctx : Context)
    (version : Int) :
    evaluate env ⟨st, t.fill, programs⟩ ctx version = evaluate env ⟨st, t, programs⟩ ctx version := by
  have hdefault : decodeValue env t.fill.default = decodeValue env t.default :=
    decodeValue_fill t.default
  have hrules := ruleList_fill t
  unfold evaluate
  simp only
  rw [hdefault, hrules]
  rcases decodeValue env t.default with err | defValue
  · rfl
  · exact congrArg Except.ok (@evaluateRules_fill env ⟨st, t, programs⟩ ⟨st, t.fill, programs⟩ rfl rfl
      ctx defValue version t.ruleList)

end Fill

/-! ## What the server reads -/

section Accepted

variable {R : Doc → Doc → Prop}

theorem noSegment_like {p q : Predicate} (h : p.Like R q) : NoSegment p → NoSegment q := by
  refine Predicate.Like.induct (P := fun p q => NoSegment p → NoSegment q) ?_ p q h
  intro p q hlike hof hone hno s hs
  cases hs with
  | refl =>
    obtain ⟨hkind⟩ := hlike
    exact hkind ▸ hno p (.refl p)
  | of hc hs =>
    obtain ⟨o, ho, hrel⟩ := exists_of_forall₂ hof.flip _ hc
    cases hrel with
    | some hcd => exact hcd (fun l hl => hno l (.of ho hl)) s hs
  | ofOne hc hs =>
    rw [hc] at hone
    obtain ⟨c, hpc, hcd⟩ := rel_some_right hone
    exact hcd (fun l hl => hno l (.ofOne hpc hl)) s hs

variable {t : RulesTree}

theorem RulesTree.NoSegment.like {u : RulesTree} (ht : t.NoSegment) (h : t.Like R u) :
    u.NoSegment := by
  intro r' hr' q hq
  obtain ⟨r, hr, hrr'⟩ := exists_of_forall₂ h.ruleList.flip r' hr'
  have hwhen := hrr'.when
  rw [hq] at hwhen
  obtain ⟨p, hp, hpq⟩ := rel_some_right hwhen
  exact noSegment_like hpq (ht r hr p hp)

/-- What is alike a tree with nothing missing has nothing missing. -/
theorem RulesTree.Complete.like {u : RulesTree} (ht : t.Complete) (h : t.Like R u) :
    u.Complete := by
  refine ⟨fun hnone => ht.1 ?_, fun r' hr' hnone => ?_⟩
  · have hdefault := h.default
    rw [hnone] at hdefault
    generalize t.default = o at hdefault ⊢
    cases hdefault
    rfl
  · obtain ⟨r, hr, hrr'⟩ := exists_of_forall₂ h.ruleList.flip r' hr'
    have hvalue := hrr'.value
    rw [hnone] at hvalue
    refine ht.2 r hr ?_
    generalize r.value = o at hvalue ⊢
    cases hvalue
    rfl

/-- **What was sent and can be read is the tree that was sent**, its missing values filled in. -/
theorem like_of_accepted {u : RulesTree} {raw : Doc} (hraw : Carries Resent (encodeTree t) raw)
    (hu : decodeTree raw = .ok u) : t.Fits (Carries Resent) ∧ t.fill.Like (Carries Resent) u := by
  have hfits : t.Fits (Carries Resent) := by
    intro r hr p hp q hq
    obtain ⟨j, hj⟩ := survives_of_decodeTree keeps_resent.transport hraw hu hr hp q hq
    exact fits_of_survivesFloat (survivesFloat_of_resent hj)
  obtain ⟨u', hu', hlike⟩ := decodeTree_transport keeps_resent.transport hfits hraw
  rw [hu] at hu'
  injection hu' with hu'
  exact ⟨hfits, hu' ▸ hlike⟩

/-- **What the server compiles** from a source without segments that was sent. -/
theorem publishCompile_sent {env : Env} {resolver : SegmentResolver} {fuel : Nat}
    {raw : Doc} {c : Compiled} (hraw : Carries Resent (encodeTree t) raw) (hno : t.NoSegment)
    (h : publishCompile env resolver fuel .json (.json raw) = some (.ok c)) :
    decodeTree raw = .ok c.ir ∧ ValidTree env false c.ir ∧ c = ⟨.json, c.ir, []⟩ ∧
      ∃ src, compile env (.known .json) src = .ok c := by
  obtain ⟨src', hsrc', hc⟩ := Fueled.andThen_eq_ok.mp h
  injection hc with hc
  obtain ⟨u, hu, hvalid, rfl⟩ := jsonCompile_eq_ok.mp hc
  rcases resolveSegmentRefs_cases hsrc' with ⟨⟨e, he⟩, rfl⟩ | ⟨w, w', hw, hresolve, rfl⟩
  · rw [he] at hu
    nomatch hu
  · obtain ⟨-, hlike⟩ := like_of_accepted hraw hw
    -- nothing is resolved, and nothing is filled in any more
    rw [resolveSegments_self ((noSegment_fill hno).like hlike)] at hresolve
    injection hresolve with hresolve
    injection hresolve with hresolve
    subst hresolve
    rw [unmarshalTree, decodeTree_encodeTree,
      ((complete_fill t).like hlike).fill_eq_self] at hu
    injection hu with hu
    subst hu
    exact ⟨hw, hvalid, rfl, _, hc⟩

end Accepted

end FalseFlag

namespace FalseFlag.Operator

open List JsonTree Json Fallible Relators

/-! ## From the resource to the store -/

section Translated

variable {rollouts : Rollouts}

theorem irForRule_id {r : FlagRule} {rule : Rule} (h : irForRule rollouts r = .ok rule) :
    rule.id = r.id ∧ ∃ p, rule.when = some p ∧ unmarshalPredicate r.when.raw = .ok p := by
  unfold irForRule at h
  rcases hp : unmarshalPredicate r.when.raw with err | p
  · rw [hp] at h
    nomatch h
  rw [hp] at h
  by_cases href : r.rolloutRef = ""
  · simp only [href, ne_eq, not_true_eq_false, if_false] at h
    rcases hv : r.value with _ | v
    · rw [hv] at h
      nomatch h
    · rw [hv] at h
      injection h with h
      subst h
      exact ⟨rfl, p, rfl, rfl⟩
  · simp only [ne_eq, href, not_false_eq_true, if_true] at h
    rcases hrp : rollouts r.rolloutRef with _ | rp
    · rw [hrp] at h
      nomatch h
    · rw [hrp] at h
      rcases hv : pickRolloutValue rp with err | value
      · simp only [hv] at h
        nomatch h
      · simp only [hv] at h
        injection h with h
        subst h
        exact ⟨rfl, p, rfl, rfl⟩

/-- The translated rules are those of the resource, one by one. -/
theorem irForRules_each : ∀ {rs : List FlagRule} {rules : List Rule},
    irForRules rollouts rs = .ok rules → Forall₂ (fun r rule => rule.id = r.id ∧
      ∃ p, rule.when = some p ∧ unmarshalPredicate r.when.raw = .ok p) rs rules
  | [], _, h => by
    injection h with h
    subst h
    exact .nil
  | r :: rs, _, h => by
    obtain ⟨rule, rest, hrule, hrest, rfl⟩ := irForRules_cons.mp h
    exact .cons (irForRule_id hrule) (irForRules_each hrest)

variable {spec : FlagSpec} {binding : Option FlagSpecBinding}

theorem ruleList_irForFlag {tree : RulesTree} (h : irForFlag spec rollouts binding = .ok tree) :
    irForRules rollouts (effectiveRules spec binding) = .ok tree.ruleList := by
  obtain ⟨rules, hrules, rfl⟩ := map_eq_ok.mp h
  rw [hrules]
  cases rules <;> rfl

/-- The rules keep their identifiers, in order. -/
theorem ids_irForFlag {tree : RulesTree} (h : irForFlag spec rollouts binding = .ok tree) :
    tree.ruleList.map Rule.id = (effectiveRules spec binding).map FlagRule.id := by
  have heach := irForRules_each (ruleList_irForFlag h)
  have heq : Forall₂ Eq (tree.ruleList.map Rule.id)
      ((effectiveRules spec binding).map FlagRule.id) := by
    rw [forall₂_map_left_iff, forall₂_map_right_iff]
    exact (heach.imp fun _ _ h => h.1.symm).flip.imp fun _ _ h => h.symm
  rwa [forall₂_eq_eq_eq] at heq

/-- No rule of the resource, as far as it is published, refers to a segment. -/
def NoSegmentRefs (spec : FlagSpec) (binding : Option FlagSpecBinding) : Prop :=
  ∀ r ∈ effectiveRules spec binding, ∀ p, unmarshalPredicate r.when.raw = .ok p → NoSegment p

theorem NoSegmentRefs.tree {tree : RulesTree}
    (hno : NoSegmentRefs spec binding) (h : irForFlag spec rollouts binding = .ok tree) :
    tree.NoSegment := by
  intro rule hrule p hp
  obtain ⟨r, hr, -, p', hp', hraw⟩ :=
    exists_of_forall₂ (irForRules_each (ruleList_irForFlag h)).flip rule hrule
  rw [hp] at hp'
  injection hp' with hp'
  exact hp' ▸ hno r hr _ hraw

end Translated

variable {source : Context}

/-- The map that is sent is the value of the written tree. -/
theorem publishSource_eq_ok {tree : RulesTree} (h : publishSource tree = .ok source) :
    inRange (encodeTree tree) = true ∧ Doc.value (encodeTree tree) = .obj source := by
  unfold publishSource unmarshalAny at h
  by_cases hrange : inRange (encodeTree tree) = true
  · rw [if_pos hrange] at h
    cases hv : Doc.value (encodeTree tree) with
    | obj fields =>
      rw [hv] at h
      injection h with h
      exact ⟨hrange, by rw [h]⟩
    | null | bool _ | num _ | str _ | arr _ =>
      rw [hv] at h
      nomatch h
  · rw [if_neg hrange] at h
    nomatch h

/-- **What the server gets is the written tree, its numbers printed from their float64.** -/
theorem carries_published {tree : RulesTree} (h : publishSource tree = .ok source) :
    Carries Resent (encodeTree tree) (marshalAny (.obj source)) := by
  rw [← (publishSource_eq_ok h).2]
  have hread := carries_norm JNum.float64 (encodeTree tree)
  have hprint := carries_mapNum formatFloat (noDup_norm JNum.float64 (encodeTree tree))
  refine (hread.trans _ hprint).mono ?_ _
  rintro n m ⟨_, rfl, rfl⟩
  exact ⟨rfl, fun _ h => h⟩

/-- The server's flag decides as the tree that was translated. -/
theorem evaluate_published {env : Env} {resolver : SegmentResolver} {fuel : Nat} {tree : RulesTree}
    {c : Compiled} (hsource : publishSource tree = .ok source) (hno : tree.NoSegment)
    (h : publishCompile env resolver fuel .json (.json (marshalAny (.obj source))) = some (.ok c)) :
    tree.fill.Like (Carries Resent) c.ir ∧ c.ir.Raws (inRange · = true) ∧
      ∀ ctx version, evaluate env c ctx version = evaluate env ⟨.json, tree, []⟩ ctx version := by
  have hraw := carries_published hsource
  have hrange := (publishSource_eq_ok hsource).1
  obtain ⟨hdec, hvalid, hc, src, hcompile⟩ := publishCompile_sent hraw hno h
  obtain ⟨hfits, hlike⟩ := like_of_accepted hraw hdec
  have hraws : c.ir.Raws (inRange · = true) :=
    raws_of_transport keeps_resent.transport hfits hraw (keeps_resent.inRange _ hraw hrange) hdec
  have hraws0 : tree.fill.Raws (inRange · = true) :=
    raws_of_transport Transport.eq (fun _ _ p _ => p.fits_eq) rfl hrange (decodeTree_encodeTree tree)
  have hvalid0 : ValidTree env false tree.fill := hvalid.unlike percent_of_resent hlike
  have hwell0 : WellCompiled env ⟨.json, tree.fill, []⟩ := by
    refine ⟨hvalid0.mono, fun s hs => ?_⟩
    rw [hvalid0.ruleSources_eq_nil] at hs
    exact absurd hs not_mem_nil
  refine ⟨hlike, hraws, fun ctx version => ?_⟩
  rw [← evaluate_fill .json tree [] ctx version]
  exact @evaluate_like _ keeps_resent env ⟨.json, tree.fill, []⟩ c hlike hwell0
    (wellCompiled_of_compile hcompile) hraws0 ctx version

theorem ids_like {R : Doc → Doc → Prop} {t u : RulesTree} (h : t.Like R u) :
    u.ruleList.map Rule.id = t.ruleList.map Rule.id := by
  have heq : Forall₂ Eq (u.ruleList.map Rule.id) (t.ruleList.map Rule.id) := by
    rw [forall₂_map_left_iff, forall₂_map_right_iff]
    exact (h.ruleList.imp fun _ _ h => h.id).flip.imp fun _ _ h => h.symm
  rwa [forall₂_eq_eq_eq] at heq

theorem ids_fill (t : RulesTree) : t.fill.ruleList.map Rule.id = t.ruleList.map Rule.id := by
  rw [ruleList_fill, map_map]
  rfl

/-- **What is stored has the rules of the resource and decides as its translation.**  A publish that
    the server grants inserts one version of the flag; its IR has the identifiers of the effective
    rules, in order, and recompiled it makes the decisions of the translated tree. -/
theorem published_as_translated (env : Env) (db : Medium) (fuel : Nat)
    (projects : String → Option Nat) (spec : FlagSpec) (rollouts : Rollouts)
    (binding : Option FlagSpecBinding) {tree : RulesTree} {source : Context} {s s' : Store}
    {n : Int32} (htree : irForFlag spec rollouts binding = .ok tree)
    (hsource : publishSource tree = .ok source) (hno : NoSegmentRefs spec binding)
    (hpublish : publish (.server env db fuel projects) spec rollouts binding s = (.ok n, s')) :
    ∃ v persisted c,
      upstreamVersions projects spec s' = upstreamVersions projects spec s ++ [v] ∧
      decodeTree v.compiled = .ok persisted ∧
      persisted.ruleList.map Rule.id = (effectiveRules spec binding).map FlagRule.id ∧
      compile env (.known v.strategy) (.json v.compiled) = .ok c ∧ c.ir = persisted ∧
      ∀ ctx version, evaluate env c ctx version = evaluate env ⟨.json, tree, []⟩ ctx version := by
  rcases publish_cases hpublish with
    ⟨_, source', projectId, c, src, -, hbuild, hproj, hc, rfl⟩ | ⟨f, hf, -⟩
  · have hsame : source' = source := by
      unfold buildSource at hbuild
      rw [htree] at hbuild
      simp only [hsource] at hbuild
      injection hbuild with hbuild
      exact hbuild.symm
    subst hsame
    obtain ⟨hlike, hraws, heval⟩ := evaluate_published hsource (hno.tree htree) hc
    obtain ⟨-, -, -, src', hcompile⟩ :=
      publishCompile_sent (carries_published hsource) (hno.tree htree) hc
    obtain ⟨c', hc', hdec', hlike'⟩ :=
      compile_carried keeps_sameNumber hcompile (fits_sameNumber c.ir) (db.carries (encodeTree c.ir))
    refine ⟨s.newVersion db ⟨projectId, spec.key⟩ .json src (encodeTree c.ir) (.text ""), c'.ir, c', ?_,
      hdec', ?_, hc', rfl, fun ctx version => ?_⟩
    · unfold upstreamVersions
      rw [hproj]
      exact of_insertVersion
    · rw [ids_like hlike', ids_like hlike, ids_fill, ids_irForFlag htree]
    · rw [evaluate_like keeps_sameNumber hlike' (wellCompiled_of_compile hcompile)
        (wellCompiled_of_compile hc') hraws, heval]
  · nomatch hf

theorem eq_ok_of_toOption {ε α : Type} {x : Except ε α} {a : α} (h : x.toOption = some a) :
    x = .ok a := by
  cases x with
  | error _ => nomatch h
  | ok b =>
    injection h with h
    rw [h]

theorem eq_mk_of_toOption {ε α β : Type} {x : Except ε α × β} {a : α}
    (h : x.1.toOption = some a) : x = (.ok a, x.2) := by
  rw [← eq_ok_of_toOption h]

/-- A boolean flag with one rule. -/
def payingSpec : FlagSpec where
  projectSlug := "demo"
  key := "beta"
  name := "Beta"
  valueType := "boolean"
  default := { raw := some (.bool false) }
  rules := some [{ id := "paying"
                   when := { raw := some (.obj [("kind", .str "eq"), ("attr", .str "plan"),
                     ("value", .str "pro")]) }
                   value := some { raw := some (.bool true) } }]

/-- What it is translated to. -/
def payingTree : RulesTree where
  valueType := .known .boolean
  default := some (.bool false)
  rules := some [{ id := "paying"
                   when := some { kind := .known .eq, attr := "plan", value := some (.str "pro") }
                   value := some (.bool true) }]

/-- The server after the flag was created. -/
def payingStore : Store :=
  Store.after .plain .sorted .empty (.createFlag
    { id := ⟨1, "beta"⟩, name := "Beta", description := "", valueType := "boolean"
      defaultValue := .bool false })

theorem payingSpec_noSegmentRefs : NoSegmentRefs payingSpec none := by
  intro r hr p hp
  obtain rfl := mem_singleton.mp hr
  injection hp with hp
  subst hp
  exact (segmentRefs_eq_nil_iff _).mp rfl

/-- It is published with its rule. -/
theorem paying_published : ∃ v persisted,
    upstreamVersions oneProject payingSpec (publish (.server .plain .sorted 1 oneProject) payingSpec
      (fun _ => none) none payingStore).2 =
      upstreamVersions oneProject payingSpec payingStore ++ [v] ∧
    decodeTree v.compiled = .ok persisted ∧ persisted.ruleList.map Rule.id = ["paying"] := by
  have htree : irForFlag payingSpec (fun _ => none) none = .ok payingTree := rfl
  have hsome : (publishSource payingTree).toOption.isSome = true := by decide +kernel
  obtain ⟨source, hsource⟩ := Option.isSome_iff_exists.mp hsome
  have hone : (publish (.server .plain .sorted 1 oneProject) payingSpec (fun _ => none) none
      payingStore).1.toOption = some 1 := by decide +kernel
  obtain ⟨v, persisted, -, hrow, hdec, hids, -⟩ := published_as_translated .plain .sorted 1 oneProject
    payingSpec (fun _ => none) none htree (eq_ok_of_toOption hsource) payingSpec_noSegmentRefs
    (eq_mk_of_toOption hone)
  exact ⟨v, persisted, hrow, hdec, hids⟩

end FalseFlag.Operator
