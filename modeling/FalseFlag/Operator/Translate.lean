/-
  From custom resources to the IR (internal/operator/translate/translate.go).

  `irForFlag` builds the rules tree of a flag, for one of its bindings or for none: a binding's
  default and rules replace those of the flag when they are SET, that is, when the pointer or the
  slice is not nil.  A rule that names a RolloutPolicy gets the value of its heaviest variant.

  The finalizer `Update` of the reconciler writes the flag and reads it back before the first
  publish, and an empty `rules` of a binding comes back nil (`FlagSpec.reread`): a binding that
  switches all rules off then inherits them.
  * **`update_keeps_tree_iff`** — the update changes what a binding publishes EXACTLY when the
    binding has an empty list of rules and the flag has rules.
-/
import FalseFlag.Operator.Resources
import FalseFlag.Segments

namespace FalseFlag.Operator

open JsonTree Fallible
open FlagSpecBinding (default reread rules)

/-! ## Predicates and rollouts -/

/-- Why a predicate is refused. -/
inductive PredicateError where
  | empty
  | json (raw : Doc)

def PredicateError.text (env : Env) : PredicateError → String
  | .empty => "predicate is empty"
  | .json raw => "unmarshal predicate: " ++ env.jsonErrorText (.json raw)

/-- `unmarshalPredicate`. -/
def unmarshalPredicate : Option Doc → Except PredicateError Predicate
  | none => .error .empty
  | some raw => (FalseFlag.unmarshalPredicate raw).mapError fun _ => .json raw

/-- `IRForSegment`. -/
def irForSegment (seg : SegmentSpec) : Except PredicateError Predicate :=
  unmarshalPredicate seg.predicate.raw

/-- Why no value is picked. -/
inductive RolloutError where
  | noVariants (policy : String)

def RolloutError.text (env : Env) : RolloutError → String
  | .noVariants policy => "rollout policy " ++ env.quote policy ++ " has no variants"

/-- The loop of `pickRolloutValue`: a later variant wins only if it is heavier. -/
def heaviest (variants : List RolloutVariant) : RolloutVariant :=
  variants.foldl (fun best v => if best.weight < v.weight then v else best) {}

/-- `pickRolloutValue`; where nothing has a weight, or the heaviest has no value, it is the first
    variant. -/
def pickRolloutValue (rp : RolloutPolicy) : Except RolloutError (Option Doc) :=
  match rp.variants with
  | [] => .error (.noVariants rp.name)
  | first :: _ =>
    let best := heaviest rp.variants
    .ok (if best.value.raw = none then first.value.raw else best.value.raw)

/-! ## IRForFlag -/

/-- A `map[string]*RolloutPolicy`. -/
abbrev Rollouts := String → Option RolloutPolicy

/-- Why a rule is not translated. -/
inductive TranslateError where
  | when (id : String) (err : PredicateError)
  | unknownPolicy (id ref : String)
  | rollout (id : String) (err : RolloutError)
  | noValue (id : String)

def TranslateError.text (env : Env) : TranslateError → String
  | .when id err => "rule " ++ env.quote id ++ " when: " ++ err.text env
  | .unknownPolicy id ref =>
    "rule " ++ env.quote id ++ " references unknown RolloutPolicy " ++ env.quote ref
  | .rollout id err => "rule " ++ env.quote id ++ " rollout: " ++ err.text env
  | .noValue id => "rule " ++ env.quote id ++ " must set value or rolloutRef"

/-- The body of the loop of `IRForFlag`. -/
def irForRule (rollouts : Rollouts) (r : FlagRule) : Except TranslateError Rule :=
  match unmarshalPredicate r.when.raw with
  | .error err => .error (.when r.id err)
  | .ok when =>
    if r.rolloutRef ≠ "" then
      match rollouts r.rolloutRef with
      | none => .error (.unknownPolicy r.id r.rolloutRef)
      | some rp =>
        match pickRolloutValue rp with
        | .error err => .error (.rollout r.id err)
        | .ok value => .ok { id := r.id, when := some when, value }
    else
      match r.value with
      | some v => .ok { id := r.id, when := some when, value := v.raw }
      | none => .error (.noValue r.id)

/-- The loop: the first rule that fails ends it. -/
def irForRules (rollouts : Rollouts) : List FlagRule → Except TranslateError (List Rule)
  | [] => .ok []
  | r :: rs => do
    let rule ← irForRule rollouts r
    let rules ← irForRules rollouts rs
    return rule :: rules

/-- `def`: the binding's default if it is set. -/
def effectiveDefault (spec : FlagSpec) (binding : Option FlagSpecBinding) : RawExtension :=
  (binding.bind default).getD spec.default

/-- `rules`: the binding's if they are set, be they empty. -/
def effectiveRules (spec : FlagSpec) (binding : Option FlagSpecBinding) : List FlagRule :=
  (binding.bind rules).getD spec.ruleList

/-- A slice that was appended to: nil until the first element. -/
def appended {α : Type} : List α → Option (List α)
  | [] => none
  | a :: as => some (a :: as)

/-- `IRForFlag`; it reads the spec of the flag only. -/
def irForFlag (spec : FlagSpec) (rollouts : Rollouts) (binding : Option FlagSpecBinding) :
    Except TranslateError RulesTree :=
  (irForRules rollouts (effectiveRules spec binding)).map fun rules =>
    { valueType := .ofString spec.valueType
      default := (effectiveDefault spec binding).raw
      rules := appended rules }

/-- `PublishSource`: the tree as a `map[string]any`.  It fails on a number outside float64. -/
def publishSource (tree : RulesTree) : Except JsonError Context :=
  match unmarshalAny (encodeTree tree) with
  | .ok (.obj fields) => .ok fields
  | _ => .error .cannotUnmarshal

/-! ### What a translation is -/

section Rules

variable {rollouts : Rollouts}

theorem irForRules_cons {r : FlagRule} {rs : List FlagRule} {rules : List Rule} :
    irForRules rollouts (r :: rs) = .ok rules ↔ ∃ rule rest, irForRule rollouts r = .ok rule ∧
      irForRules rollouts rs = .ok rest ∧ rules = rule :: rest := by
  rw [irForRules, bind_eq_ok]
  constructor
  · rintro ⟨rule, hrule, h⟩
    obtain ⟨rest, hrest, h⟩ := bind_eq_ok.mp h
    injection h with h
    exact ⟨rule, rest, hrule, hrest, h.symm⟩
  · rintro ⟨rule, rest, hrule, hrest, rfl⟩
    exact ⟨rule, hrule, bind_eq_ok.mpr ⟨rest, hrest, rfl⟩⟩

/-- A tree without rules comes from a list without rules. -/
theorem ruleList_eq_nil {spec : FlagSpec} {binding : Option FlagSpecBinding} {tree : RulesTree}
    (h : irForFlag spec rollouts binding = .ok tree) (hnil : tree.rules = none) :
    effectiveRules spec binding = [] := by
  obtain ⟨rules, hrules, rfl⟩ := map_eq_ok.mp h
  rcases hr : effectiveRules spec binding with _ | ⟨r, rs⟩
  · rfl
  · rw [hr] at hrules
    obtain ⟨rule, rest, -, -, rfl⟩ := irForRules_cons.mp hrules
    nomatch hnil

end Rules

/-! ### Rules that name a policy -/

/-- The translation gets to rule `r`: the rules before it are translated, and its predicate is
    read. -/
def Reaches (rollouts : Rollouts) (rules : List FlagRule) (r : FlagRule) : Prop :=
  ∃ before after, rules = before ++ r :: after ∧ (∃ done, irForRules rollouts before = .ok done) ∧
    ∃ p, unmarshalPredicate r.when.raw = .ok p

/-- The translation fails at a rule whose policy is not there. -/
def MissesPolicy (rollouts : Rollouts) (rules : List FlagRule) : Prop :=
  ∃ id ref, irForRules rollouts rules = .error (.unknownPolicy id ref)

/-- `rollouts` is a part of `all`. -/
def PartOf (rollouts all : Rollouts) : Prop :=
  ∀ {name : String} {rp : RolloutPolicy}, rollouts name = some rp → all name = some rp

section Policies

variable {rollouts all : Rollouts}

theorem irForRules_append (rs ss : List FlagRule) :
    irForRules rollouts (rs ++ ss) = do
      let xs ← irForRules rollouts rs
      let ys ← irForRules rollouts ss
      return xs ++ ys := by
  induction rs with
  | nil =>
    show irForRules rollouts ss = (irForRules rollouts ss >>= fun ys => .ok ys)
    cases irForRules rollouts ss <;> rfl
  | cons r rs ih =>
    rw [List.cons_append, irForRules, irForRules, ih]
    cases irForRule rollouts r with
    | error _ => rfl
    | ok rule =>
      cases irForRules rollouts rs with
      | error _ => rfl
      | ok xs => cases irForRules rollouts ss <;> rfl

/-- A rule fails for want of a policy iff its predicate is read and its policy is not there. -/
theorem irForRule_unknown_iff {r : FlagRule} :
    (∃ id ref, irForRule rollouts r = .error (.unknownPolicy id ref)) ↔
      (∃ p, unmarshalPredicate r.when.raw = .ok p) ∧ r.rolloutRef ≠ "" ∧
        rollouts r.rolloutRef = none := by
  unfold irForRule
  rcases unmarshalPredicate r.when.raw with err | p
  · simp
  · by_cases href : r.rolloutRef = ""
    · rcases r.value with _ | v <;> simp [href]
    · rcases hrp : rollouts r.rolloutRef with _ | rp
      · simp [href]
      · rcases hv : pickRolloutValue rp with err | v <;> simp [href, hv]

/-- **Where a translation misses a policy**: at the first rule that it does not get past. -/
theorem irForRules_unknown_iff {rules : List FlagRule} :
    MissesPolicy rollouts rules ↔
      ∃ r, Reaches rollouts rules r ∧ r.rolloutRef ≠ "" ∧ rollouts r.rolloutRef = none := by
  constructor
  · induction rules with
    | nil =>
      rintro ⟨_, _, h⟩
      nomatch h
    | cons r rs ih =>
      rintro ⟨id, ref, h⟩
      rw [irForRules] at h
      rcases hr : irForRule rollouts r with e | rule
      · rw [hr] at h
        injection h with h
        obtain ⟨hp, href, hnone⟩ := irForRule_unknown_iff.mp ⟨id, ref, h ▸ hr⟩
        exact ⟨r, ⟨[], rs, rfl, ⟨[], rfl⟩, hp⟩, href, hnone⟩
      · rcases hrs : irForRules rollouts rs with e | rest
        · rw [hr, hrs] at h
          injection h with h
          obtain ⟨r', ⟨before, after, rfl, ⟨done, hdone⟩, hp⟩, hmiss⟩ := ih ⟨id, ref, h ▸ hrs⟩
          exact ⟨r', ⟨r :: before, after, rfl,
            ⟨rule :: done, irForRules_cons.mpr ⟨rule, done, hr, hdone, rfl⟩⟩, hp⟩, hmiss⟩
        · rw [hr, hrs] at h
          nomatch h
  · rintro ⟨r, ⟨before, after, rfl, ⟨done, hdone⟩, hp⟩, href, hnone⟩
    obtain ⟨id, ref, hr⟩ := irForRule_unknown_iff.mpr ⟨hp, href, hnone⟩
    refine ⟨id, ref, ?_⟩
    rw [irForRules_append, hdone, irForRules, hr]
    rfl

/-- With fewer policies a rule fares as with more, or misses its own. -/
theorem irForRule_part (hpart : PartOf rollouts all) (r : FlagRule) :
    (∃ id ref, irForRule rollouts r = .error (.unknownPolicy id ref)) ∨
      irForRule rollouts r = irForRule all r := by
  unfold irForRule
  rcases unmarshalPredicate r.when.raw with err | p
  · exact .inr rfl
  · by_cases href : r.rolloutRef = ""
    · right
      simp [href]
    · rcases hrp : rollouts r.rolloutRef with _ | rp
      · left
        simp [href]
      · right
        rw [hpart hrp]

/-- What is translated with some of the policies, is translated in the same way with more. -/
theorem irForRules_mono (hpart : PartOf rollouts all) :
    ∀ {rules : List FlagRule} {done : List Rule},
    irForRules rollouts rules = .ok done → irForRules all rules = .ok done
  | [], _, h => h
  | _ :: _, _, h => by
    obtain ⟨rule, rest, hrule, hrest, rfl⟩ := irForRules_cons.mp h
    rcases irForRule_part hpart _ with ⟨id, ref, hmiss⟩ | hsame
    · rw [hrule] at hmiss
      nomatch hmiss
    · exact irForRules_cons.mpr ⟨rule, rest, hsame ▸ hrule, irForRules_mono hpart hrest, rfl⟩

/-- What is translated with more policies, is translated in the same way with fewer, or misses
    one. -/
theorem irForRules_or_misses (hpart : PartOf rollouts all) : ∀ {rules : List FlagRule}
    {done : List Rule}, irForRules all rules = .ok done →
      irForRules rollouts rules = .ok done ∨ MissesPolicy rollouts rules
  | [], _, h => .inl h
  | r :: rs, _, h => by
    obtain ⟨rule, rest, hrule, hrest, rfl⟩ := irForRules_cons.mp h
    rcases irForRule_part hpart r with ⟨id, ref, hr⟩ | hsame
    · refine .inr ⟨id, ref, ?_⟩
      rw [irForRules, hr]
      rfl
    · rcases irForRules_or_misses hpart hrest with hrs | ⟨id, ref, hrs⟩
      · exact .inl (irForRules_cons.mpr ⟨rule, rest, hsame.trans hrule, hrs, rfl⟩)
      · refine .inr ⟨id, ref, ?_⟩
        rw [irForRules, hsame.trans hrule, hrs]
        rfl

theorem Reaches.mono (hpart : PartOf rollouts all) {rules : List FlagRule} {r : FlagRule}
    (h : Reaches rollouts rules r) : Reaches all rules r := by
  obtain ⟨before, after, hrules, ⟨done, hdone⟩, hp⟩ := h
  exact ⟨before, after, hrules, ⟨done, irForRules_mono hpart hdone⟩, hp⟩

/-- A rule that is reached with more policies, and whose own is not among the fewer: the fewer do
    not suffice. -/
theorem Reaches.misses (hpart : PartOf rollouts all) {rules : List FlagRule} {r : FlagRule}
    (h : Reaches all rules r) (href : r.rolloutRef ≠ "") (hnone : rollouts r.rolloutRef = none) :
    MissesPolicy rollouts rules := by
  obtain ⟨before, after, rfl, ⟨done, hdone⟩, hp⟩ := h
  rcases irForRules_or_misses hpart hdone with hbefore | ⟨id, ref, hbefore⟩
  · exact irForRules_unknown_iff.mpr ⟨r, ⟨before, after, rfl, ⟨done, hbefore⟩, hp⟩, href, hnone⟩
  · refine ⟨id, ref, ?_⟩
    rw [irForRules_append, hbefore]
    rfl

end Policies

/-! ## What the finalizer update changes -/

theorem ruleList_reread (spec : FlagSpec) : spec.reread.ruleList = spec.ruleList := by
  rcases hr : spec.rules with _ | _ | ⟨r, rs⟩ <;>
    simp [FlagSpec.reread, FlagSpec.ruleList, rereadSlice, hr]

theorem bindingList_reread (spec : FlagSpec) :
    spec.reread.bindingList = spec.bindingList.map reread := by
  rcases hb : spec.bindings with _ | _ | ⟨b, bs⟩ <;>
    simp [FlagSpec.reread, FlagSpec.bindingList, rereadSlice, hb]

/-- A binding keeps its rules, unless it has an empty list of them. -/
theorem reread_rules {b : FlagSpecBinding} (h : b.rules ≠ some []) : b.reread.rules = b.rules := by
  rcases hr : b.rules with _ | _ | ⟨r, rs⟩
  · simp [reread, rereadSlice, hr]
  · exact absurd hr h
  · simp [reread, rereadSlice, hr]

theorem irForFlag_reread (spec : FlagSpec) (rollouts : Rollouts) (binding : Option FlagSpecBinding)
    (h : ∀ b, binding = some b → b.rules ≠ some []) :
    irForFlag spec.reread rollouts (binding.map reread) =
      irForFlag spec rollouts binding := by
  have hrules : effectiveRules spec.reread (binding.map reread) =
      effectiveRules spec binding := by
    unfold effectiveRules
    rw [ruleList_reread]
    rcases binding with _ | b
    · rfl
    · exact congrArg (·.getD spec.ruleList) (reread_rules (h b rfl))
  have hdefault : effectiveDefault spec.reread (binding.map reread) =
      effectiveDefault spec binding := by
    cases binding <;> rfl
  rw [irForFlag, irForFlag, hrules, hdefault]
  rfl

/-- A binding with an empty list of rules publishes none; after the update, those of the flag. -/
theorem irForFlag_reread_empty (spec : FlagSpec) (rollouts : Rollouts) {b : FlagSpecBinding}
    (h : b.rules = some []) :
    (irForFlag spec.reread rollouts (some b.reread)).toOption =
      (irForFlag spec rollouts (some b)).toOption ↔ spec.ruleList = [] := by
  have hbefore : effectiveRules spec (some b) = [] := by
    simp [effectiveRules, h]
  have hafter : effectiveRules spec.reread (some b.reread) = spec.ruleList := by
    rw [effectiveRules, ruleList_reread]
    simp [reread, rereadSlice, h]
  have htree : irForFlag spec rollouts (some b) = .ok
      { valueType := .ofString spec.valueType, default := (effectiveDefault spec (some b)).raw,
        rules := none } := by
    rw [irForFlag, hbefore]
    rfl
  constructor
  · intro heq
    rw [htree] at heq
    rcases hir : irForFlag spec.reread rollouts (some b.reread) with e | tree
    · rw [hir] at heq
      nomatch heq
    · rw [hir] at heq
      injection heq with heq
      exact hafter ▸ ruleList_eq_nil hir (heq ▸ rfl)
  · intro hnil
    rw [irForFlag, irForFlag, hafter, hbefore, hnil]
    rfl

/-- **What the finalizer update changes.**  A flag is read, written and read again.  For a binding
    (or, past the last one, for none) both give the same tree, or fail, exactly if the binding has
    no empty list of rules, or the flag has no rules either. -/
theorem update_keeps_tree_iff [RawJson] {d : Doc} {spec : FlagSpec} (h : decodeFlagSpec d = .ok spec) :
    ∃ spec', decodeFlagSpec (encodeFlagSpec spec) = .ok spec' ∧ ∀ (i : Nat) (rollouts : Rollouts),
      (irForFlag spec' rollouts spec'.bindingList[i]?).toOption =
          (irForFlag spec rollouts spec.bindingList[i]?).toOption ↔
        ∀ b, spec.bindingList[i]? = some b → b.rules = some [] → spec.ruleList = [] := by
  refine ⟨_, decodeFlagSpec_encodeFlagSpec (FlagSpec.decoded_of_decode h), fun i rollouts => ?_⟩
  rw [bindingList_reread, List.getElem?_map]
  rcases hb : spec.bindingList[i]? with _ | b
  · rw [irForFlag_reread spec rollouts none nofun]
    exact ⟨fun _ => nofun, fun _ => rfl⟩
  · by_cases hempty : b.rules = some []
    · rw [Option.map_some, irForFlag_reread_empty spec rollouts hempty]
      constructor
      · intro hnil _ _ _
        exact hnil
      · intro hall
        exact hall b rfl hempty
    · rw [irForFlag_reread spec rollouts (some b) fun b' hb' => Option.some.inj hb' ▸ hempty]
      refine ⟨fun _ b' hb' hempty' => ?_, fun _ => rfl⟩
      injection hb' with hb'
      exact absurd (hb' ▸ hempty') hempty

instance : RawJson where
  marshalJSON r := r.raw.getD .null
  decodeRaw
    | cur, .null => cur
    | _, d => { raw := some d }
  marshalJSON_eq _ := rfl
  decodeRaw_null _ := rfl
  decodeRaw_raw _ d hd := by
    cases d with
    | null => exact absurd rfl hd
    | _ => rfl

/-- A flag with one rule, and a binding for `prod` that switches it off. -/
def mutedDoc : Doc :=
  .obj [("projectSlug", .str "demo"), ("key", .str "beta"), ("name", .str "Beta"),
    ("valueType", .str "boolean"), ("default", .bool false),
    ("rules", .arr [.obj [("id", .str "r1"), ("when", .obj [("kind", .str "always")]),
      ("value", .bool true)]]),
    ("bindings", .arr [.obj [("environment", .str "prod"), ("rules", .arr [])]])]

/-- `mutedDoc` as it is read. -/
def mutedSpec : FlagSpec where
  projectSlug := "demo"
  key := "beta"
  name := "Beta"
  valueType := "boolean"
  default := { raw := some (.bool false) }
  rules := some [{ id := "r1", when := { raw := some (.obj [("kind", .str "always")]) },
                   value := some { raw := some (.bool true) } }]
  bindings := some [{ environment := "prod", rules := some [] }]

/-- What `prod` gets has no rules before the update, and the flag's rule after it. -/
theorem muted_rule_returns :
    decodeFlagSpec mutedDoc = .ok mutedSpec ∧
      ∃ spec' before after, decodeFlagSpec (encodeFlagSpec mutedSpec) = .ok spec' ∧
        irForFlag mutedSpec (fun _ => none) mutedSpec.bindingList[0]? = .ok before ∧
        irForFlag spec' (fun _ => none) spec'.bindingList[0]? = .ok after ∧
        before.rules = none ∧
        after.rules = some [{ id := "r1", when := some { kind := .known .always },
                              value := some (.bool true) }] :=
  ⟨rfl, mutedSpec.reread, _, _, rfl, rfl, rfl, rfl, rfl⟩

/-- The version for no environment is the same, that for `prod` is not, whatever the policies. -/
theorem muted_flag_updated :
    decodeFlagSpec mutedDoc = .ok mutedSpec ∧
      ∃ spec', decodeFlagSpec (encodeFlagSpec mutedSpec) = .ok spec' ∧ ∀ rollouts : Rollouts,
        (irForFlag spec' rollouts spec'.bindingList[1]?).toOption =
          (irForFlag mutedSpec rollouts mutedSpec.bindingList[1]?).toOption ∧
        (irForFlag spec' rollouts spec'.bindingList[0]?).toOption ≠
          (irForFlag mutedSpec rollouts mutedSpec.bindingList[0]?).toOption := by
  have hread : decodeFlagSpec mutedDoc = .ok mutedSpec := rfl
  obtain ⟨spec', hspec', hiff⟩ := update_keeps_tree_iff hread
  refine ⟨hread, spec', hspec', fun rollouts => ⟨(hiff 1 rollouts).mpr nofun, fun heq => ?_⟩⟩
  nomatch (hiff 0 rollouts).mp heq _ rfl rfl

end FalseFlag.Operator
