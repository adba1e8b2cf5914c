/-
  Rollout policies (internal/operator/controllers/rolloutpolicy_controller.go, and
  `pickRolloutValue` of internal/operator/translate/translate.go).

  A policy is a list of variants with weights, in percent.  Its reconciler checks that every variant
  has a value and that the weights add up to 100 — an `int32` sum, so it is the exact one only as
  long as it does not wrap.  A flag rule that names the policy gets the value of ONE variant: the
  loop of `pickRolloutValue` starts from a dummy variant of weight 0 and falls back to the first
  variant when the winner has no value.

  * **`validated_policy`** — with weights in [0,100] and fewer than 2^31/100 variants the sum is the
    exact one, and the first heaviest variant is picked.
-/
import FalseFlag.Operator.ConditionHistory
import Mathlib.Algebra.Order.BigOperators.Group.List

namespace FalseFlag.Operator

open List JsonTree Int

/-! ## validateRolloutPolicy -/

/-- Why a policy is refused. -/
inductive PolicyError where
  | noVariants
  | missingValue (id : String)
  | weights (total : Int32)
  deriving DecidableEq

def PolicyError.text (env : Env) : PolicyError → String
  | .noVariants => "at least one variant is required"
  | .missingValue id => "variant " ++ env.quote id ++ " is missing a value"
  | .weights total => "variant weights must sum to 100, got " ++ toString total.toInt

/-- The loop: `total += v.Weight`, until a variant has no value. -/
def totalWeight (total : Int32) : List RolloutVariant → Except PolicyError Int32
  | [] => .ok total
  | v :: vs =>
    if v.value.raw = none then .error (.missingValue v.id)
    else totalWeight (total + v.weight) vs

/-- `validateRolloutPolicy`. -/
def validateRolloutPolicy (rp : RolloutPolicy) : Except PolicyError Unit :=
  if rp.variants.length = 0 then .error .noVariants
  else
    match totalWeight 0 rp.variants with
    | .error err => .error err
    | .ok total => if total ≠ 100 then .error (.weights total) else .ok ()

/-- The sum of the weights, as integers. -/
def exactSum (vs : List RolloutVariant) : ℤ := (vs.map (·.weight.toInt)).sum

theorem exactSum_cons (v : RolloutVariant) (vs : List RolloutVariant) :
    exactSum (v :: vs) = v.weight.toInt + exactSum vs := by
  simp [exactSum]

/-- The loop returns a total exactly when every variant has a value, and it wraps as `int32` does. -/
theorem totalWeight_eq_ok (vs : List RolloutVariant) (total result : Int32) :
    totalWeight total vs = .ok result ↔ (∀ v ∈ vs, v.value.raw ≠ none) ∧
      result.toInt = (total.toInt + exactSum vs).bmod (2 ^ 32) := by
  induction vs generalizing total with
  | nil =>
    have hself : (total.toInt + exactSum []).bmod (2 ^ 32) = total.toInt := by
      have hlow := total.le_toInt
      have hhigh := total.toInt_lt
      have hnil : exactSum [] = 0 := rfl
      rw [hnil, add_zero]
      apply bmod_eq_of_le
      · omega
      · omega
    rw [totalWeight, hself, Int32.toInt_inj]
    simp [eq_comm]
  | cons v vs ih =>
    rw [totalWeight, forall_mem_cons, exactSum_cons]
    by_cases hv : v.value.raw = none
    · rw [if_pos hv]
      constructor
      · intro h
        cases h
      · rintro ⟨⟨hne, -⟩, -⟩
        exact absurd hv hne
    · have hstep : ((total + v.weight).toInt + exactSum vs).bmod (2 ^ 32) =
          (total.toInt + (v.weight.toInt + exactSum vs)).bmod (2 ^ 32) := by
        rw [Int32.toInt_add, bmod_add_bmod, add_assoc]
      rw [if_neg hv, ih, hstep]
      constructor
      · rintro ⟨hall, hsum⟩
        exact ⟨⟨hv, hall⟩, hsum⟩
      · rintro ⟨⟨-, hall⟩, hsum⟩
        exact ⟨hall, hsum⟩

/-- **What is accepted**: every variant has a value, and the sum is 100 up to wrapping. -/
theorem validate_eq_ok_iff (rp : RolloutPolicy) :
    validateRolloutPolicy rp = .ok () ↔ (∀ v ∈ rp.variants, v.value.raw ≠ none) ∧
      (exactSum rp.variants).bmod (2 ^ 32) = 100 := by
  have hloop := totalWeight_eq_ok rp.variants 0
  rw [Int32.toInt_zero, zero_add] at hloop
  unfold validateRolloutPolicy
  by_cases hlen : rp.variants.length = 0
  · rw [if_pos hlen]
    constructor
    · intro h
      cases h
    · rintro ⟨-, hsum⟩
      rw [length_eq_zero_iff.mp hlen] at hsum
      cases hsum
  · rw [if_neg hlen]
    rcases htotal : totalWeight 0 rp.variants with err | total
    · constructor
      · intro h
        cases h
      · rintro ⟨hall, hsum⟩
        -- 100 is a total that the loop would have returned
        have hok := (hloop 100).mpr ⟨hall, hsum.symm⟩
        rw [htotal] at hok
        cases hok
    · obtain ⟨hall, hsum⟩ := (hloop total).mp htotal
      have h100 : total = 100 ↔ (exactSum rp.variants).bmod (2 ^ 32) = 100 := by
        rw [← hsum, ← Int32.toInt_inj]
        rfl
      show (if total ≠ 100 then Except.error (PolicyError.weights total) else .ok ()) = .ok () ↔ _
      by_cases htot : total = 100
      · rw [if_neg (not_not.mpr htot)]
        exact ⟨fun _ => ⟨hall, h100.mp htot⟩, fun _ => rfl⟩
      · rw [if_pos htot]
        constructor
        · intro h
          cases h
        · rintro ⟨-, hsum'⟩
          exact absurd (h100.mpr hsum') htot

/-! ## The heaviest variant -/

/-- `v` is the first variant of maximal weight. -/
def FirstHeaviest (vs : List RolloutVariant) (v : RolloutVariant) : Prop :=
  ∃ before after, vs = before ++ v :: after ∧ (∀ u ∈ before, u.weight < v.weight) ∧
    ∀ u ∈ after, u.weight ≤ v.weight

/-- **The loop, from any start**: nothing is heavier than the start and it stays, or the first of the
    heaviest is found. -/
theorem heaviest_cases (vs : List RolloutVariant) (start : RolloutVariant) :
    let found := vs.foldl (fun best v => if best.weight < v.weight then v else best) start
    (found = start ∧ ∀ u ∈ vs, u.weight ≤ start.weight) ∨
      (start.weight < found.weight ∧ FirstHeaviest vs found) := by
  induction vs generalizing start with
  | nil => exact .inl ⟨rfl, fun _ h => by cases h⟩
  | cons v vs ih =>
    intro found
    by_cases hlt : start.weight < v.weight
    · have hfound : found =
          vs.foldl (fun best v => if best.weight < v.weight then v else best) v := by
        show List.foldl _ (if start.weight < v.weight then v else start) vs = _
        rw [if_pos hlt]
      rw [hfound]
      right
      rcases ih v with ⟨hstay, hall⟩ | ⟨hup, before, after, hsplit, hbefore, hafter⟩
      · rw [hstay]
        exact ⟨hlt, [], vs, rfl, (fun _ h => by cases h), hall⟩
      · refine ⟨Int32.lt_trans hlt hup, v :: before, after, congrArg (v :: ·) hsplit, ?_, hafter⟩
        exact forall_mem_cons.mpr ⟨hup, hbefore⟩
    · have hle : v.weight ≤ start.weight := Int32.not_lt.mp hlt
      have hfound : found =
          vs.foldl (fun best v => if best.weight < v.weight then v else best) start := by
        show List.foldl _ (if start.weight < v.weight then v else start) vs = _
        rw [if_neg hlt]
      rw [hfound]
      rcases ih start with ⟨hstay, hall⟩ | ⟨hup, before, after, hsplit, hbefore, hafter⟩
      · exact .inl ⟨hstay, forall_mem_cons.mpr ⟨hle, hall⟩⟩
      · refine .inr ⟨hup, v :: before, after, congrArg (v :: ·) hsplit, ?_, hafter⟩
        exact forall_mem_cons.mpr ⟨Int32.lt_of_le_of_lt hle hup, hbefore⟩

theorem FirstHeaviest.mem {vs : List RolloutVariant} {v : RolloutVariant}
    (h : FirstHeaviest vs v) : v ∈ vs := by
  obtain ⟨before, after, rfl, -, -⟩ := h
  exact mem_append_right _ (mem_cons_self ..)

/-- Weights that are neither positive nor negative add up to 0. -/
theorem exactSum_nonpos {vs : List RolloutVariant} (h : ∀ v ∈ vs, v.weight ≤ 0)
    (hnonneg : ∀ v ∈ vs, 0 ≤ v.weight) : exactSum vs = 0 := by
  apply sum_eq_zero
  intro x hx
  obtain ⟨v, hv, rfl⟩ := mem_map.mp hx
  have hlow := Int32.le_iff_toInt_le.mp (hnonneg v hv)
  have hhigh := Int32.le_iff_toInt_le.mp (h v hv)
  rw [Int32.toInt_zero] at hlow hhigh
  omega

/-- **An accepted policy has its first heaviest variant picked**, if no weight is negative. -/
theorem pick_of_nonneg {rp : RolloutPolicy} (hnonneg : ∀ v ∈ rp.variants, 0 ≤ v.weight)
    (haccepted : validateRolloutPolicy rp = .ok ()) :
    ∃ v, FirstHeaviest rp.variants v ∧ pickRolloutValue rp = .ok v.value.raw := by
  obtain ⟨hvalues, hsum⟩ := (validate_eq_ok_iff rp).mp haccepted
  rcases heaviest_cases rp.variants {} with ⟨-, hall⟩ | ⟨-, hfirst⟩
  · -- only the dummy would be left, and then the sum is 0
    rw [exactSum_nonpos hall hnonneg] at hsum
    cases hsum
  · have hvalue : (heaviest rp.variants).value.raw ≠ none := hvalues _ hfirst.mem
    refine ⟨heaviest rp.variants, hfirst, ?_⟩
    rcases hvariants : rp.variants with _ | ⟨first, rest⟩
    · have hmem := hfirst.mem
      rw [hvariants] at hmem
      cases hmem
    · rw [hvariants] at hvalue
      rw [pickRolloutValue, hvariants]
      exact congrArg Except.ok (if_neg hvalue)

/-! ## Policies within the bounds of the custom resource -/

/-- Percentages of fewer than 2^31/100 variants add up to less than 2^31. -/
theorem exactSum_bounds {vs : List RolloutVariant}
    (hweights : ∀ v ∈ vs, 0 ≤ v.weight ∧ v.weight ≤ 100) :
    0 ≤ exactSum vs ∧ exactSum vs ≤ 100 * vs.length := by
  induction vs with
  | nil => exact ⟨le_refl _, le_refl _⟩
  | cons v vs ih =>
    obtain ⟨hv, hvs⟩ := forall_mem_cons.mp hweights
    obtain ⟨hlow, hhigh⟩ := ih hvs
    have hv0 : 0 ≤ v.weight.toInt := Int32.le_iff_toInt_le.mp hv.1
    have hv100 : v.weight.toInt ≤ 100 := Int32.le_iff_toInt_le.mp hv.2
    rw [exactSum_cons, length_cons]
    push_cast
    omega

/-- **Validated policies.**  For any number of variants below 2^31/100, with weights in [0,100] and
    values: the policy is accepted iff the exact sum of the weights is 100, and if it is accepted
    then the value of the first variant of maximal weight is picked. -/
theorem validated_policy (rp : RolloutPolicy) (hlength : 100 * rp.variants.length < 2 ^ 31)
    (hweights : ∀ v ∈ rp.variants, 0 ≤ v.weight ∧ v.weight ≤ 100)
    (hvalues : ∀ v ∈ rp.variants, v.value.raw ≠ none) :
    (validateRolloutPolicy rp = .ok () ↔ exactSum rp.variants = 100) ∧
      (validateRolloutPolicy rp = .ok () →
        ∃ v, FirstHeaviest rp.variants v ∧ pickRolloutValue rp = .ok v.value.raw) := by
  obtain ⟨hlow, hhigh⟩ := exactSum_bounds hweights
  have hexact : (exactSum rp.variants).bmod (2 ^ 32) = exactSum rp.variants := by
    apply bmod_eq_of_le
    · omega
    · omega
  constructor
  · rw [validate_eq_ok_iff, hexact]
    exact ⟨fun h => h.2, fun h => ⟨hvalues, h⟩⟩
  · intro haccepted
    exact pick_of_nonneg (fun v hv => (hweights v hv).1) haccepted

/-- Three variants, of which the second and the third are the heaviest. -/
def tiedPolicy : RolloutPolicy where
  projectSlug := "demo"
  name := "tied"
  variants := [⟨"off", 0, ⟨some (.str "off")⟩⟩, ⟨"a", 50, ⟨some (.str "a")⟩⟩,
    ⟨"b", 50, ⟨some (.str "b")⟩⟩]

/-- It is accepted, and `a` is picked. -/
theorem validated_policy_tied :
    exactSum tiedPolicy.variants = 100 ∧ pickRolloutValue tiedPolicy = .ok (some (.str "a")) ∧
      (validateRolloutPolicy tiedPolicy = .ok () ↔ exactSum tiedPolicy.variants = 100) ∧
      (validateRolloutPolicy tiedPolicy = .ok () →
        ∃ v, FirstHeaviest tiedPolicy.variants v ∧
          pickRolloutValue tiedPolicy = .ok v.value.raw) :=
  ⟨by decide, rfl, validated_policy tiedPolicy (by decide) (by decide) (by decide)⟩

/-- Two negative weights wrap to 100, and then the loop keeps its dummy: the first variant is picked,
    although the second is heavier. -/
example :
    let rp : RolloutPolicy := ⟨"demo", "negative",
      [⟨"a", -2147483648, ⟨some (.str "a")⟩⟩, ⟨"b", -2147483548, ⟨some (.str "b")⟩⟩]⟩
    validateRolloutPolicy rp = .ok () ∧ pickRolloutValue rp = .ok (some (.str "a")) :=
  ⟨rfl, rfl⟩

end FalseFlag.Operator
