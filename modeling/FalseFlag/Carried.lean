/-
  An IR that was passed on.

  The database, the bundle of a snapshot, the API and the SDK each write the IR of a flag and read
  it again, and none of them keeps the bytes.  What they keep is the value of every number
  (`Keeps`) and the rest of the tree.  Then nothing that `Compile` or `Evaluate` looks at has
  changed:

  * `ValidPredicate.like`, `celSources_like` — the tree that is read passes the same checks and
    reaches the same CEL sources;
  * `evaluate_like` — and makes the same decisions;
  * `compile_carried` — so recompiling a stored IR gives the flag back.

  A rollout `percent` is at most 100 and such integers are kept exactly.
-/
import FalseFlag.Eval

namespace FalseFlag

open List JsonTree Json Fallible Relators Binary Option Predicate PredicateKind

/-! ## Documents that keep their value -/

/-- The numbers keep their float64, and small integers their spelling. -/
structure Keeps (N : JNum → JNum → Prop) : Prop where
  float64 : ∀ {n m}, N n m → m.float64 = n.float64
  percent : ∀ {i : Int} {m}, N (.int i) m → 0 ≤ i → i ≤ 100 → m = .int i
  zero : N (.int 0) (.int 0)

section Carried

variable {N : JNum → JNum → Prop} (hN : Keeps N)

include hN

/-- A document that is carried keeps its value. -/
theorem Keeps.value {d d' : Doc} (h : Carries N d d') : Doc.value d' = Doc.value d := by
  have hnum : ∀ n m, N n m → m.float64 = n.float64 := fun _ _ hnm => hN.float64 hnm
  exact Carries.norm_eq hnum d h

omit hN in
theorem inRangeItems_iff : ∀ {ds : List Doc}, inRangeItems ds = true ↔ ∀ d ∈ ds, inRange d = true
  | [] => by simp [inRangeItems]
  | d :: ds => by
    rw [inRangeItems, Bool.and_eq_true, inRangeItems_iff, forall_mem_cons]

omit hN in
theorem inRangeMembers_iff : ∀ {ms : List (String × Doc)},
    inRangeMembers ms = true ↔ ∀ m ∈ ms, inRange m.2 = true
  | [] => by simp [inRangeMembers]
  | m :: ms => by
    rw [inRangeMembers, Bool.and_eq_true, inRangeMembers_iff, forall_mem_cons]

/-- A document in range is passed on in range. -/
theorem Keeps.inRange (d : Doc) : ∀ {d' : Doc}, Carries N d d' → inRange d = true →
    inRange d' = true := by
  induction d using Json.induct with
  | null =>
    rintro d' ⟨⟩ _
    rfl
  | bool b =>
    rintro d' ⟨⟩ _
    rfl
  | num n =>
    rintro d' ⟨⟩ h
    rename_i m hnm
    have heq : binary64.round m.val = binary64.round n.val := hN.float64 hnm
    rw [FalseFlag.inRange, float64InRange] at h ⊢
    rwa [heq]
  | str s =>
    rintro d' ⟨⟩ _
    rfl
  | arr items ih =>
    rintro d' (_ | _ | _ | _ | hab | _) h
    rw [FalseFlag.inRange, inRangeItems_iff] at h ⊢
    intro y hy
    obtain ⟨x, hx, hxy⟩ := exists_of_forall₂ hab.flip y hy
    exact ih x hx hxy (h x hx)
  | obj members ih =>
    rintro d' (_ | _ | _ | _ | _ | @⟨_, ns, hns, hab⟩) h
    rw [FalseFlag.inRange, inRangeMembers_iff] at h ⊢
    intro m hm
    obtain ⟨v, hmem, hvm⟩ := exists_member hns hab hm
    exact ih _ hmem hvm (h _ hmem)

theorem Keeps.transport : Transport (Carries N) := Transport.carries hN.zero

/-- A `percent` that is in bounds arrives as it is. -/
theorem Keeps.percent_eq {p q : Predicate} (h : p.Like (Carries N) q)
    (hp : ¬ (p.percent < 0 ∨ p.percent > 100)) : q.percent = p.percent := by
  obtain ⟨-, -, -, -, -, -, hpercent⟩ := h
  cases hpercent with
  | num hpercent =>
    obtain ⟨hlo, hhi⟩ := not_or.mp hp
    have hlo' : 0 ≤ p.percent.toInt := by
      rw [Int64.lt_iff_toInt_lt] at hlo
      simpa using hlo
    have hhi' : p.percent.toInt ≤ 100 := by
      rw [gt_iff_lt, Int64.lt_iff_toInt_lt] at hhi
      simpa using hhi
    have heq := hN.percent hpercent hlo' hhi'
    injection heq with heq
    exact Int64.toInt_inj.mp heq

end Carried

/-! ## The same checks -/

section Checks

variable {env : Env} {allowCEL : Bool} {R : Doc → Doc → Prop}

/-- The children of the one predicate are alike those of the other. -/
theorem like_child {cs ds : List (Option Predicate)}
    (h : Forall₂ (Rel (Like R)) cs ds) {d : Predicate} (hd : some d ∈ ds) :
    ∃ c, some c ∈ cs ∧ c.Like R d := by
  obtain ⟨o, ho, hrel⟩ := exists_of_forall₂ h.flip _ hd
  cases hrel with
  | some hcd => exact ⟨_, ho, hcd⟩

theorem none_not_mem_of_like {cs ds : List (Option Predicate)}
    (h : Forall₂ (Rel (Like R)) cs ds) (hcs : none ∉ cs) : none ∉ ds := by
  intro hds
  obtain ⟨o, ho, hrel⟩ := exists_of_forall₂ h.flip _ hds
  cases hrel with
  | none => exact hcs ho

theorem ne_nil_of_forall₂ {α β : Type} {S : α → β → Prop} {as : List α} {bs : List β}
    (h : Forall₂ S as bs) (has : as ≠ []) : bs ≠ [] := by
  cases h with
  | nil => exact absurd rfl has
  | cons _ _ => exact cons_ne_nil _ _

/-- What is read passes the checks that what was written passed. -/
theorem ValidPredicate.like {N : JNum → JNum → Prop} (hN : Keeps N) {p : Predicate}
    (h : ValidPredicate env allowCEL p) : ∀ {q}, p.Like (Carries N) q →
    ValidPredicate env allowCEL q := by
  induction h with
  | compare hkind hk hattr hvalue =>
    rintro q ⟨hkind', hattr', hvalue'⟩
    rw [hvalue] at hvalue'
    obtain ⟨d', hd', -⟩ := rel_some hvalue'
    exact .compare (hkind' ▸ hkind) hk (hattr' ▸ hattr) hd'
  | isIn hkind hattr hvalues =>
    rintro q ⟨hkind', hattr', -, hvalues'⟩
    exact .isIn (hkind' ▸ hkind) (hattr' ▸ hattr) (ne_nil_of_forall₂ hvalues' hvalues)
  | «matches» hkind hattr hpattern hre =>
    rintro q ⟨hkind', hattr', -, -, hpattern'⟩
    exact .matches (hkind' ▸ hkind) (hattr' ▸ hattr) (hpattern' ▸ hpattern) (hpattern' ▸ hre)
  | rollout hkind hattr hsalt hpercent =>
    intro q hlike
    have hpercent' := hN.percent_eq hlike hpercent
    obtain ⟨hkind', hattr', -, -, -, hsalt'⟩ := hlike
    exact .rollout (hkind' ▸ hkind) (hattr' ▸ hattr) (hsalt' ▸ hsalt) (by rwa [hpercent'])
  | all hkind hne hnil _ ih =>
    rintro q ⟨hkind', -, -, -, -, -, -, hof⟩
    refine .all (hkind' ▸ hkind) (ne_nil_of_forall₂ hof hne) (none_not_mem_of_like hof hnil) ?_
    intro d hd
    obtain ⟨c, hc, hcd⟩ := like_child hof hd
    exact ih c hc hcd
  | any hkind hne hnil _ ih =>
    rintro q ⟨hkind', -, -, -, -, -, -, hof⟩
    refine .any (hkind' ▸ hkind) (ne_nil_of_forall₂ hof hne) (none_not_mem_of_like hof hnil) ?_
    intro d hd
    obtain ⟨c, hc, hcd⟩ := like_child hof hd
    exact ih c hc hcd
  | not hkind hone _ ih =>
    rintro q ⟨hkind', -, -, -, -, -, -, -, hone'⟩
    rw [hone] at hone'
    obtain ⟨d, hd, hcd⟩ := rel_some hone'
    exact .not (hkind' ▸ hkind) hd (ih hcd)
  | cel hkind hallow hsource =>
    rintro q ⟨hkind', -, -, -, -, -, -, -, -, hsource', -⟩
    exact .cel (hkind' ▸ hkind) hallow (hsource' ▸ hsource)
  | always hkind =>
    rintro q ⟨hkind'⟩
    exact .always (hkind' ▸ hkind)
  | segment hkind hkey =>
    rintro q ⟨hkind', -, -, -, -, -, -, -, -, -, hkey'⟩
    exact .segment (hkind' ▸ hkind) (hkey' ▸ hkey)

theorem celSourcesPtr_congr {o o' : Option Predicate}
    (h : Rel (fun p q => celSources p = celSources q) o o') :
    celSourcesPtr o = celSourcesPtr o' := by
  cases h with
  | none => rfl
  | some h => rw [celSourcesPtr, celSourcesPtr, h]

theorem celSourcesOf_congr {cs ds : List (Option Predicate)}
    (h : Forall₂ (Rel fun p q => celSources p = celSources q) cs ds) :
    celSourcesOf cs = celSourcesOf ds := by
  induction h with
  | nil => rfl
  | cons h _ ih => rw [celSourcesOf, celSourcesOf, celSourcesPtr_congr h, ih]

/-- The same CEL sources are reached. -/
theorem celSources_like {p q : Predicate} (h : p.Like R q) : celSources p = celSources q := by
  refine Like.induct (P := fun p q => celSources p = celSources q) ?_ p q h
  intro p q hlike hof hone
  obtain ⟨hkind, -, -, -, -, -, -, -, -, hsource, -⟩ := hlike
  have hof' := celSourcesOf_congr hof
  have hone' := celSourcesPtr_congr hone
  obtain ⟨kind⟩ := p
  cases q
  simp only at hkind hsource hof' hone'
  subst hkind hsource
  rcases kind with k | _
  · cases k <;> simp only [celSources] <;> assumption
  · rfl

end Checks

/-! ## The same decisions -/

/-- What a caller of `match` learns, up to the text of an error. -/
def Outcome.verdict (o : Outcome) : Option Bool :=
  match o.err with
  | some _ => none
  | none => some o.ok

section Verdicts

variable {leaf leaf' : Predicate → Outcome}

@[simp] theorem verdict_result (b : Bool) : (Outcome.result b).verdict = some b := rfl

@[simp] theorem verdict_failed (e : String) : (Outcome.failed e).verdict = none := rfl

/-- Verdicts of `not`, -/
theorem verdict_not (o : Outcome) : o.not.verdict = o.verdict.map (!·) := by
  obtain ⟨ok, err⟩ := o
  cases err <;> rfl

/-- of `all`, -/
theorem verdict_connectAll (c : Option Predicate) (cs : List (Option Predicate)) :
    (connectAll leaf (c :: cs)).verdict =
      (connectPtr leaf c).verdict.bind fun b => if b then (connectAll leaf cs).verdict else some false := by
  rw [connectAll]
  rcases connectPtr leaf c with ⟨ok, _ | e⟩
  · cases ok <;> rfl
  · rfl

/-- of `any`. -/
theorem verdict_connectAny (c : Option Predicate) (cs : List (Option Predicate)) :
    (connectAny leaf (c :: cs)).verdict =
      (connectPtr leaf c).verdict.bind fun b => if b then some true else (connectAny leaf cs).verdict := by
  rw [connectAny]
  rcases connectPtr leaf c with ⟨ok, _ | e⟩
  · cases ok <;> rfl
  · rfl

/-- Two nodes of one kind have one verdict when their children do and, if they are leaves, they
    do. -/
theorem verdict_connect_congr {p q : Predicate} (hkind : p.kind = q.kind)
    (hof : p.kind = .known .all ∨ p.kind = .known .any → Forall₂
      (fun c d => (connectPtr leaf c).verdict = (connectPtr leaf' d).verdict) p.of q.of)
    (hone : p.kind = .known .not →
      (connectPtr leaf p.ofOne).verdict = (connectPtr leaf' q.ofOne).verdict)
    (hleaf : p.IsLeaf → (leaf p).verdict = (leaf' q).verdict) :
    (connect leaf p).verdict = (connect leaf' q).verdict := by
  rcases p.kind_cases with h | h | h | h
  · rw [connect_all h, connect_all (hkind ▸ h)]
    replace hof := hof (.inl h)
    generalize p.of = cs at hof
    generalize q.of = ds at hof
    induction hof with
    | nil => rw [connectAll, connectAll]
    | cons hcd _ ih => rw [verdict_connectAll, verdict_connectAll, hcd, ih]
  · rw [connect_any h, connect_any (hkind ▸ h)]
    replace hof := hof (.inr h)
    generalize p.of = cs at hof
    generalize q.of = ds at hof
    induction hof with
    | nil => rw [connectAny, connectAny]
    | cons hcd _ ih => rw [verdict_connectAny, verdict_connectAny, hcd, ih]
  · rw [connect_not h, connect_not (hkind ▸ h), verdict_not, verdict_not, hone h]
  · have hq : q.IsLeaf := fun k hk => hkind ▸ h k hk
    rw [connect_leaf h, connect_leaf hq, hleaf h]

end Verdicts

/-! ### Leaves -/

/-- Every raw value of the predicate satisfies `P`. -/
def Predicate.Raws (P : Doc → Prop) (p : Predicate) : Prop :=
  ∀ q : Predicate, q.Sub p → (∀ d, q.value = some d → P d) ∧ ∀ d ∈ q.values, P d

variable {env : Env}

/-- A value that is in range is decoded. -/
theorem unmarshalRaw_inRange {d : Doc} (h : inRange d = true) :
    unmarshalRaw env (some d) = .ok (Doc.value d) := by
  rw [unmarshalRaw, unmarshalAny, if_pos h]
  rfl

/-- The loop of `in`, over values that decode. -/
theorem cmpInValues_any {v : Value} : ∀ {ds : List Doc}, (∀ d ∈ ds, inRange d = true) →
    cmpInValues env v ds = .result (ds.any fun d => jsonEqual env.fmt v (Doc.value d))
  | [], _ => rfl
  | d :: ds, h => by
    rw [cmpInValues, unmarshalRaw_inRange (h d mem_cons_self), any_cons]
    show (if jsonEqual env.fmt v (Doc.value d) = true then .result true else cmpInValues env v ds) = _
    rw [cmpInValues_any fun e he => h e (mem_cons_of_mem _ he)]
    rcases jsonEqual env.fmt v (Doc.value d) with _ | _ <;> rfl

section Leaves

variable {N : JNum → JNum → Prop} (hN : Keeps N) {env : Env} {ctx : Context}

include hN

/-- A raw value in range decodes to what it decoded to. -/
theorem unmarshalRaw_carried {d d' : Doc} (h : Carries N d d') (hd : inRange d = true) :
    unmarshalRaw env (some d') = unmarshalRaw env (some d) := by
  have hd' := hN.inRange d h hd
  simp only [unmarshalRaw, unmarshalAny, hd, hd', if_true, hN.value h]
  rfl

theorem unmarshalRaw_like {o o' : Option Doc} (h : Rel (Carries N) o o')
    (ho : ∀ d, o = some d → inRange d = true) : unmarshalRaw env o' = unmarshalRaw env o := by
  cases h with
  | none => rfl
  | some h => exact unmarshalRaw_carried hN h (ho _ rfl)

theorem cmpInValues_like {actual : Value} {ds ds' : List Doc} (h : Forall₂ (Carries N) ds ds')
    (hds : ∀ d ∈ ds, inRange d = true) :
    cmpInValues env actual ds' = cmpInValues env actual ds := by
  induction h with
  | nil => rfl
  | cons h _ ih =>
    obtain ⟨hd, hds⟩ := forall_mem_cons.mp hds
    rw [cmpInValues, cmpInValues, unmarshalRaw_carried hN h hd, ih hds]

variable {p q : Predicate}

omit hN in
/-- A prefix that was a string is that string; what was none is none (with another error text). -/
theorem verdict_startsWith_like (h : p.Like (Carries N) q) :
    (cmpStartsWith env p ctx).verdict = (cmpStartsWith env q ctx).verdict := by
  obtain ⟨-, hattr, hvalue⟩ := h
  unfold cmpStartsWith
  rw [hattr]
  rcases lookupString ctx q.attr with _ | actual
  · rfl
  · simp only
    generalize p.value = o at hvalue
    generalize q.value = o' at hvalue
    cases hvalue with
    | none => rfl
    | some h => cases h <;> rfl

/-- `eq` cannot tell them apart, -/
theorem cmpEq_like (h : p.Like (Carries N) q)
    (hvalue : ∀ d, p.value = some d → inRange d = true) : cmpEq env q ctx = cmpEq env p ctx := by
  obtain ⟨-, hattr, hvalueR⟩ := h
  rw [cmpEq, cmpEq, hattr, unmarshalRaw_like hN hvalueR hvalue]

/-- comparisons cannot, -/
theorem cmpOrd_like {kind : PredicateKind} (h : p.Like (Carries N) q)
    (hvalue : ∀ d, p.value = some d → inRange d = true) :
    cmpOrd env kind q ctx = cmpOrd env kind p ctx := by
  obtain ⟨-, hattr, hvalueR⟩ := h
  rw [cmpOrd, cmpOrd, hattr, unmarshalRaw_like hN hvalueR hvalue]

/-- nor can `in`. -/
theorem cmpIn_like (h : p.Like (Carries N) q)
    (hvalues : ∀ d ∈ p.values, inRange d = true) : cmpIn env q ctx = cmpIn env p ctx := by
  obtain ⟨-, hattr, -, hvaluesR⟩ := h
  rw [cmpIn, cmpIn, hattr]
  rcases FalseFlag.lookup ctx q.attr with _ | actual
  · rfl
  · exact cmpInValues_like hN hvaluesR hvalues

/-- **A leaf that was passed on gives the same verdict**, if it finds the same CEL program. -/
theorem verdict_matchLeaf_like {programs programs' : Programs} (hlike : p.Like (Carries N) q)
    (hvalue : ∀ d, p.value = some d → inRange d = true) (hvalues : ∀ d ∈ p.values, inRange d = true)
    (hpercent : p.kind = .known .rollout → q.percent = p.percent)
    (hprog : p.kind = .known .cel → programs'.lookup p.source = programs.lookup p.source) :
    (matchLeaf env programs ctx p).verdict = (matchLeaf env programs' ctx q).verdict := by
  have heq := @cmpEq_like _ hN env ctx _ _ hlike hvalue
  have hord := fun kind => @cmpOrd_like _ hN env ctx _ _ kind hlike hvalue
  have hin := @cmpIn_like _ hN env ctx _ _ hlike hvalues
  have hstarts := @verdict_startsWith_like _ env ctx _ _ hlike
  obtain ⟨hkind, hattr, -, -, hpattern, hsalt, -, -, -, hsource, -⟩ := hlike
  rw [matchLeaf, matchLeaf, ← hkind]
  rcases hk : p.kind with k | _
  · cases k with
    | eq => exact congrArg Outcome.verdict heq.symm
    | neq => exact congrArg (fun o : Outcome => o.not.verdict) heq.symm
    | gt | gte | lt | lte => exact congrArg Outcome.verdict (hord _).symm
    | isIn => exact congrArg Outcome.verdict hin.symm
    | «matches» => rw [cmpMatches, cmpMatches, hattr, hpattern]
    | startsWith => exact hstarts
    | rollout => rw [matchRollout, matchRollout, hattr, hsalt, hpercent hk]
    | cel => rw [matchCel, matchCel, ← hsource, hprog hk]
    | _ => rfl
  · rfl

end Leaves

/-! ### Predicates -/

section Predicates

variable {env : Env} {allowCEL : Bool}

variable {p c : Predicate}

theorem ValidPredicate.child (h : ValidPredicate env allowCEL p)
    (hkind : p.kind = .known .all ∨ p.kind = .known .any) (hc : some c ∈ p.of) :
    ValidPredicate env allowCEL c := by
  cases h with
  | all _ _ _ hof => exact hof c hc
  | any _ _ _ hof => exact hof c hc
  | compare hkind' hk =>
    rcases hkind with h | h <;> rw [h] at hkind' <;> injection hkind' with hkind' <;> subst hkind' <;>
      simp [IsComparison] at hk
  | isIn hkind' | «matches» hkind' | rollout hkind' | not hkind' | cel hkind' | always hkind'
  | segment hkind' => rcases hkind with h | h <;> rw [h] at hkind' <;> cases hkind'

theorem ValidPredicate.operand (h : ValidPredicate env allowCEL p)
    (hkind : p.kind = .known .not) (hc : p.ofOne = some c) : ValidPredicate env allowCEL c := by
  cases h with
  | not _ hone hc' =>
    rw [hone] at hc
    injection hc with hc
    exact hc ▸ hc'
  | compare hkind' hk =>
    rw [hkind] at hkind'
    injection hkind' with hkind'
    subst hkind'
    simp [IsComparison] at hk
  | isIn hkind' | «matches» hkind' | rollout hkind' | all hkind' | any hkind' | cel hkind'
  | always hkind' | segment hkind' =>
    rw [hkind] at hkind'
    cases hkind'

theorem ValidPredicate.percent (h : ValidPredicate env allowCEL p)
    (hkind : p.kind = .known .rollout) : ¬ (p.percent < 0 ∨ p.percent > 100) := by
  cases h with
  | rollout _ _ _ hpercent => exact hpercent
  | compare hkind' hk =>
    rw [hkind] at hkind'
    injection hkind' with hkind'
    subst hkind'
    simp [IsComparison] at hk
  | isIn hkind' | «matches» hkind' | not hkind' | all hkind' | any hkind' | cel hkind'
  | always hkind' | segment hkind' =>
    rw [hkind] at hkind'
    cases hkind'

namespace Predicate.LeafOf

variable {l p : Predicate}

theorem valid {env : Env} {allowCEL : Bool} (h : l.LeafOf p) (hp : ValidPredicate env allowCEL p) :
    ValidPredicate env allowCEL l := by
  induction h with
  | leaf _ => exact hp
  | of hkind hc _ ih => exact ih (hp.child hkind hc)
  | ofOne hkind hc _ ih => exact ih (hp.operand hkind hc)

theorem raws {P : Doc → Prop} (h : l.LeafOf p) (hp : p.Raws P) : l.Raws P := by
  induction h with
  | leaf _ => exact hp
  | of _ hc _ ih => exact ih fun q hq => hp q (.of hc hq)
  | ofOne _ hc _ ih => exact ih fun q hq => hp q (.ofOne hc hq)

end Predicate.LeafOf

variable {s : String}

theorem mem_celSourcesOf (hs : s ∈ celSources c) :
    ∀ {cs : List (Option Predicate)}, some c ∈ cs → s ∈ celSourcesOf cs
  | [], hc => absurd hc not_mem_nil
  | d :: cs, hc => by
    rw [celSourcesOf, mem_append]
    rcases mem_cons.mp hc with rfl | hc
    · exact .inl hs
    · exact .inr (mem_celSourcesOf hs hc)

/-- What is reached below a child is reached. -/
theorem mem_celSources_child (hkind : p.kind = .known .all ∨ p.kind = .known .any)
    (hc : some c ∈ p.of) (hs : s ∈ celSources c) : s ∈ celSources p := by
  cases p
  rcases hkind with h | h <;> subst h <;> exact mem_celSourcesOf hs hc

theorem mem_celSources_operand (hkind : p.kind = .known .not)
    (hc : p.ofOne = some c) (hs : s ∈ celSources c) : s ∈ celSources p := by
  cases p
  subst hkind hc
  exact hs

theorem mem_celSources_self (hkind : p.kind = .known .cel) :
    p.source ∈ celSources p := by
  cases p
  subst hkind
  exact mem_singleton_self _

variable {N : JNum → JNum → Prop} (hN : Keeps N) {ctx : Context} {programs programs' : Programs}

include hN

/-- **A predicate that was passed on gives the same verdict.** -/
theorem verdict_match_like {q : Predicate} (h : p.Like (Carries N) q) :
    ValidPredicate env allowCEL p → p.Raws (inRange · = true) →
    (∀ s ∈ celSources p, programs'.lookup s = programs.lookup s) →
    (matchNode env programs ctx p).verdict = (matchNode env programs' ctx q).verdict := by
  refine Like.induct (P := fun p q => ValidPredicate env allowCEL p →
    p.Raws (inRange · = true) → (∀ s ∈ celSources p, programs'.lookup s = programs.lookup s) →
    (matchNode env programs ctx p).verdict = (matchNode env programs' ctx q).verdict) ?_ p q h
  intro p q hlike hof hone hvalid hraws hprog
  have hkind : p.kind = q.kind := by
    obtain ⟨hkind⟩ := hlike
    exact hkind
  refine verdict_connect_congr hkind (fun hk => ?_) (fun hk => ?_) (fun _ => ?_)
  · refine forall₂_imp (fun a ha b hab => ?_) hof
    cases hab with
    | none => rfl
    | some hab =>
      exact hab (hvalid.child hk ha) (fun r hr => hraws r (.of ha hr))
        fun s hs => hprog s (mem_celSources_child hk ha hs)
  · rcases hc : p.ofOne with _ | c
    · rw [hc] at hone
      rw [rel_none hone]
      rfl
    · rw [hc] at hone
      obtain ⟨d, hd, hcd⟩ := rel_some hone
      rw [hd]
      exact hcd (hvalid.operand hk hc) (fun r hr => hraws r (.ofOne hc hr))
        fun s hs => hprog s (mem_celSources_operand hk hc hs)
  · obtain ⟨hvalue, hvalues⟩ := hraws p (.refl p)
    exact verdict_matchLeaf_like hN hlike hvalue hvalues
      (fun hk => hN.percent_eq hlike (hvalid.percent hk))
      fun hk => hprog _ (mem_celSources_self hk)

end Predicates

/-! ### Trees -/

/-- Every raw value of the tree satisfies `P`. -/
structure RulesTree.Raws (P : Doc → Prop) (t : RulesTree) : Prop where
  default : ∀ d, t.default = some d → P d
  value : ∀ r ∈ t.ruleList, ∀ d, r.value = some d → P d
  when : ∀ r ∈ t.ruleList, ∀ p, r.when = some p → p.Raws P

/-- A flag whose numbers are in range evaluates. -/
theorem evaluate_eq_ok {c : Compiled} (hraws : c.ir.Raws (inRange · = true)) :
    ∃ defValue, decodeValue env c.ir.default = .ok defValue ∧ ∀ ctx n,
      evaluate env c ctx n = .ok (evaluateRules env c ctx defValue n c.ir.ruleList) := by
  obtain ⟨defValue, h⟩ : ∃ defValue, decodeValue env c.ir.default = .ok defValue := by
    rcases hd : c.ir.default with _ | d
    · exact ⟨_, rfl⟩
    · exact ⟨Doc.value d, unmarshalRaw_inRange (hraws.default d hd)⟩
  exact ⟨defValue, h, fun ctx n => by rw [evaluate, h]⟩

variable {R : Doc → Doc → Prop}

theorem RulesTree.Like.ruleList {t u : RulesTree} (h : t.Like R u) :
    Forall₂ (Rule.Like R) t.ruleList u.ruleList := by
  obtain ⟨-, -, hrules⟩ := h
  rw [RulesTree.ruleList, RulesTree.ruleList]
  generalize t.rules = o at hrules
  generalize u.rules = o' at hrules
  cases hrules with
  | none => exact .nil
  | some h => exact h

/-- The sources stay. -/
theorem ruleSources_like {rs rs' : List Rule}
    (h : Forall₂ (Rule.Like R) rs rs') : ruleSources rs = ruleSources rs' := by
  induction h with
  | nil => rfl
  | @cons r r' _ _ h _ ih =>
    have hwhen : celSourcesPtr r.when = celSourcesPtr r'.when :=
      celSourcesPtr_congr (rel_imp h.when fun _ _ _ hpq => celSources_like hpq)
    rw [ruleSources, flatMap_cons, hwhen]
    exact congrArg _ ih

/-! ### Raw values that arrive in range -/

section Arrived

variable {R : Doc → Doc → Prop} {P : Doc → Prop} (hP : ∀ d d', R d d' → P d')

include hP

theorem rel_arrived {o o' : Option Doc} (h : Rel R o o') (d' : Doc) (hd' : o' = some d') :
    P d' := by
  subst hd'
  cases h with
  | some h => exact hP _ _ h

theorem Predicate.Like.raws {p q : Predicate} (h : p.Like R q) : q.Raws P := by
  refine Like.induct (P := fun _ q => q.Raws P) ?_ p q h
  intro p q hlike hof hone s hs
  cases hs with
  | refl =>
    obtain ⟨-, -, hvalue, hvalues⟩ := hlike
    refine ⟨rel_arrived hP hvalue, fun d' hd' => ?_⟩
    obtain ⟨d, -, hdd'⟩ := exists_of_forall₂ hvalues.flip d' hd'
    exact hP _ _ hdd'
  | of hc hs =>
    obtain ⟨o, -, hrel⟩ := exists_of_forall₂ hof.flip _ hc
    cases hrel with
    | some hc => exact hc s hs
  | ofOne hc hs =>
    rw [hc] at hone
    generalize p.ofOne = o at hone
    cases hone with
    | some hc => exact hc s hs

theorem RulesTree.Like.raws {t u : RulesTree} (h : t.Like R u) : u.Raws P where
  default := rel_arrived hP h.default
  value r' hr' := by
    obtain ⟨r, -, hrr'⟩ := exists_of_forall₂ h.ruleList.flip r' hr'
    exact rel_arrived hP hrr'.value
  when r' hr' q hq := by
    obtain ⟨r, -, hrr'⟩ := exists_of_forall₂ h.ruleList.flip r' hr'
    have hwhen := hrr'.when
    rw [hq] at hwhen
    generalize r.when = o at hwhen
    cases hwhen with
    | some hpq => exact hpq.raws hP

end Arrived

/-- To be passed on and be in range is kept by the parts of a document. -/
theorem Transport.inRange (hR : Transport R) :
    Transport fun d d' => R d d' ∧ FalseFlag.inRange d' = true where
  null h := hR.null h.1
  str h := hR.str h.1
  num h := hR.num h.1
  zero := ⟨hR.zero, by decide +kernel⟩
  arr := by
    rintro xs d ⟨h, hrange⟩
    obtain ⟨ys, rfl, hys⟩ := hR.arr h
    rw [FalseFlag.inRange, inRangeItems_iff] at hrange
    exact ⟨ys, rfl, (forall₂_imp (fun y hy x h => ⟨h, hrange y hy⟩) hys.flip).flip⟩
  obj := by
    rintro ms d hms ⟨h, hrange⟩
    obtain ⟨ns, rfl, hns, hrel⟩ := hR.obj hms h
    rw [FalseFlag.inRange, inRangeMembers_iff] at hrange
    refine ⟨ns, rfl, hns, fun name => ?_⟩
    have hname := hrel name
    generalize ms.lookup name = o at hname ⊢
    rcases hn : ns.lookup name with _ | v
    · rw [hn] at hname
      cases hname
      exact .none
    · rw [hn] at hname
      cases hname with
      | some hv => exact .some ⟨hv, hrange _ (mem_of_lookup hn)⟩

/-- **The raw values of a tree that was read from a document in range are in range.** -/
theorem raws_of_transport (hR : Transport R) {t u : RulesTree} {d : Doc}
    (hfits : t.Fits R) (hd : R (encodeTree t) d) (hrange : inRange d = true)
    (hu : decodeTree d = .ok u) : u.Raws (inRange · = true) := by
  have hfits' : t.Fits fun d d' => R d d' ∧ inRange d' = true :=
    fun r hr p hp q hq d h => hfits r hr p hp q hq d h.1
  obtain ⟨u', hu', hlike⟩ := decodeTree_transport hR.inRange hfits' ⟨hd, hrange⟩
  rw [hu] at hu'
  injection hu' with hu'
  subst hu'
  exact hlike.raws fun _ _ h => h.2

/-! ### Flags -/

section Flags

variable {N : JNum → JNum → Prop} (hN : Keeps N) {env : Env} {allowCEL : Bool}

include hN

/-- A valid tree stays valid. -/
theorem ValidTree.like {t u : RulesTree} (h : t.Like (Carries N) u) (ht : ValidTree env allowCEL t) :
    ValidTree env allowCEL u where
  valueType := by
    obtain ⟨vt, hvt⟩ := ht.valueType
    exact ⟨vt, h.valueType ▸ hvt⟩
  default := by
    obtain ⟨d, hd⟩ := ne_none_iff_exists'.mp ht.default
    have hdefault := h.default
    rw [hd] at hdefault
    obtain ⟨d', hd', -⟩ := rel_some hdefault
    rw [hd']
    nofun
  rules := by
    intro r' hr'
    obtain ⟨r, hr, hrr'⟩ := exists_of_forall₂ h.ruleList.flip r' hr'
    obtain ⟨hid, hvalue, p, hp, hvalid⟩ := ht.rules r hr
    obtain ⟨hid', hwhen', hvalue'⟩ := hrr'
    obtain ⟨d, hd⟩ := ne_none_iff_exists'.mp hvalue
    rw [hd] at hvalue'
    rw [hp] at hwhen'
    obtain ⟨d', hd', -⟩ := rel_some hvalue'
    obtain ⟨q, hq, hpq⟩ := rel_some hwhen'
    exact ⟨hid' ▸ hid, by rw [hd']; nofun, q, hq, hvalid.like hN hpq⟩

theorem decodeValue_like {o o' : Option Doc} (h : Rel (Carries N) o o')
    (ho : ∀ d, o = some d → inRange d = true) : decodeValue env o' = decodeValue env o := by
  cases h with
  | none => rfl
  | some h => exact unmarshalRaw_carried hN h (ho _ rfl)

/-- A matching rule decides what it decided. -/
theorem ruleDecision_like {vt : Named ValueType} {defValue : Value} {version : Int} {r r' : Rule}
    (h : r.Like (Carries N) r') (hvalue : ∀ d, r.value = some d → inRange d = true) :
    ruleDecision env vt defValue version r' = ruleDecision env vt defValue version r := by
  obtain ⟨hid, hwhen, hvalueR⟩ := h
  have hserved : servedValue env vt r' = servedValue env vt r := by
    rw [servedValue, servedValue, decodeValue_like hN hvalueR hvalue]
  have hreason : reasonForRule r' = reasonForRule r := by
    unfold reasonForRule
    generalize r.when = o at hwhen
    generalize r'.when = o' at hwhen
    cases hwhen with
    | none => rfl
    | some h =>
      obtain ⟨hkind⟩ := h
      simp only [hkind]
  rw [ruleDecision, ruleDecision, hserved, hreason, hid]

variable {c : Compiled}

/-- The loop over the rules takes the same branches. -/
theorem evaluateRules_like {c' : Compiled} {ctx : Context} {defValue : Value} {version : Int}
    (hvt : c.ir.valueType = c'.ir.valueType) : ∀ {rs rs' : List Rule},
    Forall₂ (Rule.Like (Carries N)) rs rs' →
    (∀ r ∈ rs, (∀ d, r.value = some d → inRange d = true) ∧ ∀ p, r.when = some p →
      ValidPredicate env true p ∧ p.Raws (inRange · = true) ∧
      ∀ s ∈ celSources p, c'.celPrograms.lookup s = c.celPrograms.lookup s) →
    evaluateRules env c' ctx defValue version rs' = evaluateRules env c ctx defValue version rs := by
  intro rs rs' hlike
  induction hlike with
  | nil => exact fun _ => rfl
  | @cons r r' rs rs' h _ ih =>
    intro hrs
    obtain ⟨⟨hvalue, hwhen⟩, hrest⟩ := forall_mem_cons.mp hrs
    have hverdict : (matchPtr env c.celPrograms ctx r.when).verdict =
        (matchPtr env c'.celPrograms ctx r'.when).verdict := by
      have hlike := h.when
      rcases hp : r.when with _ | p
      · rw [hp] at hlike
        rw [rel_none hlike]
        rfl
      · rw [hp] at hlike
        obtain ⟨q, hq, hpq⟩ := rel_some hlike
        obtain ⟨hvalid, hraws, hprog⟩ := hwhen p hp
        rw [hq]
        exact verdict_match_like hN hpq hvalid hraws hprog
    have hrule := @ruleDecision_like _ hN env c.ir.valueType defValue version _ _ h hvalue
    rw [evaluateRules, evaluateRules, ← hvt]
    generalize matchPtr env c.celPrograms ctx r.when = o at hverdict ⊢
    generalize matchPtr env c'.celPrograms ctx r'.when = o' at hverdict ⊢
    rcases o with ⟨ok, _ | e⟩ <;> rcases o' with ⟨ok', _ | e'⟩
    · injection hverdict with hverdict
      subst hverdict
      cases ok with
      | false => exact ih hrest
      | true => exact hrule
    · cases hverdict
    · cases hverdict
    · show Decision.mk _ _ _ _ = Decision.mk _ _ _ _
      rw [h.id]

/-- **A flag that was passed on makes the same decisions.** -/
theorem evaluate_like {c' : Compiled} (hlike : c.ir.Like (Carries N) c'.ir)
    (hc : WellCompiled env c) (hc' : WellCompiled env c')
    (hraws : c.ir.Raws (inRange · = true)) (ctx : Context) (version : Int) :
    evaluate env c' ctx version = evaluate env c ctx version := by
  have hsources := ruleSources_like hlike.ruleList
  -- a source is found on both sides, with the one program it has
  have hprog : ∀ s ∈ ruleSources c.ir.ruleList,
      c'.celPrograms.lookup s = c.celPrograms.lookup s := by
    intro s hs
    obtain ⟨prog, hprog, hcompile⟩ := hc.programs s hs
    obtain ⟨prog', hprog', hcompile'⟩ := hc'.programs s (hsources ▸ hs)
    rw [hcompile] at hcompile'
    injection hcompile' with heq
    rw [hprog, hprog', heq]
  rw [evaluate, evaluate, decodeValue_like hN hlike.default hraws.default]
  rcases decodeValue env c.ir.default with e | defValue
  · rfl
  · refine congrArg _ (evaluateRules_like hN hlike.valueType hlike.ruleList fun r hr => ?_)
    refine ⟨hraws.value r hr, fun p hp => ?_⟩
    obtain ⟨p', hp', hvalid⟩ := (hc.valid.rules r hr).when
    rw [hp] at hp'
    injection hp' with hp'
    refine ⟨hp' ▸ hvalid, hraws.when r hr p hp, fun s hs => hprog s ?_⟩
    exact mem_flatMap.mpr ⟨r, hr, by rw [hp]; exact hs⟩

/-! ## Recompiling -/

/-- Every strategy's checks accept what a compiled flag is passed on as. -/
theorem finish_like (hc : WellCompiled env c) {u : RulesTree}
    (hlike : c.ir.Like (Carries N) u) (st : Strategy) :
    ∃ c', finish env st u = .ok c' ∧ c'.ir = u := by
  have hsources : ∃ out, compilePredicates env [] u.ruleList = .ok out := by
    rw [compilePredicates_iff, ← ruleSources_like hlike.ruleList]
    intro s hs
    obtain ⟨prog, -, hprog⟩ := hc.programs s hs
    exact ⟨prog, hprog⟩
  obtain ⟨out, hout⟩ := hsources
  exact ⟨_, finish_eq_ok.mpr ⟨hc.valid.like hN hlike, out, hout, rfl⟩, rfl⟩

/-- Reading back the IR of a compiled flag. -/
theorem decodeTree_carried (hc : WellCompiled env c)
    (hfits : c.ir.Fits (Carries N)) {d : Doc} (hd : Carries N (encodeTree c.ir) d) :
    ∃ u, decodeTree d = .ok u ∧ c.ir.Like (Carries N) u := by
  obtain ⟨u, hu, hlike⟩ := decodeTree_transport hN.transport hfits hd
  rw [hc.valid.complete.fill_eq_self] at hlike
  exact ⟨u, hu, hlike⟩

/-- **Recompiling a stored IR with its own strategy gives the flag back.** -/
theorem compile_carried {st : Strategy} {src : Source} (h : compile env (.known st) src = .ok c)
    (hfits : c.ir.Fits (Carries N)) {d : Doc} (hd : Carries N (encodeTree c.ir) d) :
    ∃ c', compile env (.known st) (.json d) = .ok c' ∧ decodeTree d = .ok c'.ir ∧
      c.ir.Like (Carries N) c'.ir := by
  have hc := wellCompiled_of_compile h
  obtain ⟨u, hu, hlike⟩ := decodeTree_carried hN hc hfits hd
  cases st with
  | json =>
    obtain ⟨t, -, hvalid, rfl⟩ := jsonCompile_eq_ok.mp h
    exact ⟨_, jsonCompile_eq_ok.mpr ⟨u, hu, hvalid.like hN hlike, rfl⟩, hu, hlike⟩
  | cel =>
    obtain ⟨c', hc', hir⟩ := finish_like hN hc hlike .cel
    subst hir
    exact ⟨c', celCompile_eq_ok.mpr ⟨_, hu, hc'⟩, hu, hlike⟩
  | typescript =>
    obtain ⟨c', hc', hir⟩ := finish_like hN hc hlike .typescript
    subst hir
    refine ⟨c', compileTypescript_eq_ok.mpr ⟨(env.docLen_pos d).ne', .inl ?_⟩, hu, hlike⟩
    exact tryRehydrateIR_eq_some.mpr ⟨_, hu, hc'⟩

end Flags

/-! ## A store or a wire -/

/-- The same number, and an integer literal stays the integer literal it was. -/
def SameNumber (n m : JNum) : Prop := m.val = n.val ∧ ∀ i, n = .int i → m = .int i

theorem keeps_sameNumber : Keeps SameNumber where
  float64 h := by rw [JNum.float64, JNum.float64, h.1]
  percent h _ _ := h.2 _ rfl
  zero := ⟨rfl, fun _ h => h⟩

/-- Where numbers stay, every tree fits. -/
theorem fits_sameNumber (t : RulesTree) : t.Fits (Carries SameNumber) := by
  intro r _ p _ q _ d h
  cases h with
  | num h => exact ⟨q.percent, by rw [h.2 _ rfl]⟩

/-- A database or a wire that preserves JSON values. -/
structure Medium where
  pass : Doc → Doc
  carries : ∀ d, Carries SameNumber d (pass d)

/-- One that sorts members and keeps the last of each name, as jsonb does. -/
def Medium.sorted : Medium where
  pass d := d.norm id
  carries d := (carries_norm id d).mono (fun _ _ h => h ▸ ⟨rfl, fun _ h => h⟩) d

end FalseFlag
