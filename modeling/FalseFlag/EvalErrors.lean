/-
  The errors that are left after compilation (internal/config against internal/eval).

  `match` has an error branch for nearly every kind of leaf: a value that does not decode, a pattern
  that does not compile, a CEL source without a program, a kind nobody knows.  Compilation closes
  most of them, and this file says which ones stay open:
  * `ErrantLeaf` — a CEL program that fails, a `starts_with` whose value is no string, a segment
    reference that was never resolved;
  * **`evaluate_errors`** — a compiled flag evaluates, and it reports `error` only for one of these.

  Numbers have to fit in a float64 because a raw value is not looked at before it is used: with
  `1e400` in a rule, `eq` fails where it stands.
-/
import FalseFlag.Carried
import FalseFlag.Publish
import FalseFlag.Trace

namespace FalseFlag

open List JsonTree Fallible

/-! ## Raw values are parts of the document -/

/-- What holds of a document holds of its items and of its members. -/
structure Hereditary (P : Doc → Prop) : Prop where
  arr : ∀ {items : List Doc}, P (.arr items) → ∀ d ∈ items, P d
  obj : ∀ {ms : List (String × Doc)}, P (.obj ms) → ∀ m ∈ ms, P m.2

/-- Parts of what is in range are in range. -/
theorem hereditary_inRange : Hereditary (inRange · = true) where
  arr h := by
    rw [inRange] at h
    exact inRangeItems_iff.mp h
  obj h := by
    rw [inRange] at h
    exact inRangeMembers_iff.mp h

section Raws

variable {P : Doc → Prop}

/-- The pointer is nil, or all raw values below it satisfy `P`. -/
def RawsPtr (P : Doc → Prop) (o : Option Predicate) : Prop := ∀ p, o = some p → p.Raws P

variable {p : Predicate}

theorem Predicate.raws_mk (hvalue : ∀ d, p.value = some d → P d)
    (hvalues : ∀ d ∈ p.values, P d) (hof : ∀ o ∈ p.of, RawsPtr P o) (hone : RawsPtr P p.ofOne) :
    p.Raws P := by
  intro q hq
  cases hq with
  | refl => exact ⟨hvalue, hvalues⟩
  | of hc hq => exact hof _ hc _ rfl q hq
  | ofOne hc hq => exact hone _ hc q hq

theorem Predicate.Raws.parts (h : p.Raws P) :
    (∀ d, p.value = some d → P d) ∧ (∀ d ∈ p.values, P d) ∧ (∀ o ∈ p.of, RawsPtr P o) ∧
      RawsPtr P p.ofOne := by
  refine ⟨(h p (.refl p)).1, (h p (.refl p)).2, ?_, ?_⟩
  · intro o ho c hc q hq
    exact h q (.of (hc ▸ ho) hq)
  · intro c hc q hq
    exact h q (.ofOne hc hq)

theorem rawsPtr_none : RawsPtr P none := nofun

theorem raws_zero : ({} : Predicate).Raws P :=
  Predicate.raws_mk nofun nofun nofun nofun

/-- What a document is decoded into a pointer, and into a slice of pointers. -/
def DecodesRaws (P : Doc → Prop) (d : Doc) : Prop :=
  (∀ cur o, RawsPtr P cur → decodePtr cur d = .ok o → RawsPtr P o) ∧
  (∀ cur os, (∀ o ∈ cur, RawsPtr P o) → decodeOf cur d = .ok os → ∀ o ∈ os, RawsPtr P o)

variable {d : Doc}

/-- One member; only four fields hold raw values. -/
theorem Predicate.set_raws (hP : Hereditary P) {f : PredicateField} {p' : Predicate}
    (hp : p.Raws P) (hd : P d) (hdec : DecodesRaws P d) (h : p.set f d = .ok p') : p'.Raws P := by
  obtain ⟨hvalue, hvalues, hof, hone⟩ := hp.parts
  cases f with
  | value =>
    injection h with h
    subst h
    refine raws_mk (fun d' h' => ?_) hvalues hof hone
    injection h' with h'
    exact h' ▸ hd
  | values =>
    obtain ⟨ds, hds, rfl⟩ := map_eq_ok.mp h
    refine raws_mk hvalue ?_ hof hone
    unfold decodeRaws at hds
    split at hds
    · injection hds with hds
      subst hds
      exact hP.arr hd
    · injection hds with hds
      subst hds
      exact nofun
    · nomatch hds
  | of =>
    obtain ⟨os, hos, rfl⟩ := map_eq_ok.mp h
    exact raws_mk hvalue hvalues (hdec.2 _ os hof hos) hone
  | ofOne =>
    obtain ⟨o, ho, rfl⟩ := map_eq_ok.mp h
    exact raws_mk hvalue hvalues hof (hdec.1 _ o hone ho)
  | _ =>
    obtain ⟨a, -, rfl⟩ := map_eq_ok.mp h
    exact raws_mk hvalue hvalues hof hone

theorem decodePtrs_raws : ∀ {ds : List Doc} {cur os : List (Option Predicate)},
    (∀ d ∈ ds, DecodesRaws P d) → (∀ o ∈ cur, RawsPtr P o) → decodePtrs cur ds = .ok os →
      ∀ o ∈ os, RawsPtr P o
  | [], cur, os, _, _, h => by
    rw [decodePtrs] at h
    injection h with h
    subst h
    exact forall_mem_nil _
  | d :: ds, cur, os, hds, hcur, h => by
    rw [decodePtrs] at h
    obtain ⟨o, ho, h⟩ := bind_eq_ok.mp h
    obtain ⟨os', hos', h⟩ := bind_eq_ok.mp h
    injection h with h
    subst h
    have hhead : RawsPtr P cur.head?.join := by
      cases cur with
      | nil => exact rawsPtr_none
      | cons o' cur' => exact hcur o' mem_cons_self
    have htail : ∀ o ∈ cur.tail, RawsPtr P o := fun o ho => hcur o (mem_of_mem_tail ho)
    intro o' ho'
    rcases mem_cons.mp ho' with rfl | ho'
    · exact (hds d mem_cons_self).1 _ _ hhead ho
    · exact decodePtrs_raws (fun d hd => hds d (mem_cons_of_mem _ hd)) htail hos' o' ho'

/-- **What is decoded into predicates comes from the document.** -/
theorem decodesRaws (hP : Hereditary P) (d : Doc) : P d → DecodesRaws P d := by
  induction d using Json.induct with
  | null =>
    intro _
    refine ⟨fun cur o _ h => ?_, fun cur os _ h => ?_⟩
    · rw [decodePtr] at h
      injection h with h
      exact h ▸ rawsPtr_none
    · rw [decodeOf] at h
      injection h with h
      exact h ▸ forall_mem_nil _
  | bool b => exact fun _ => ⟨fun _ _ _ h => (by cases h), fun _ _ _ h => by cases h⟩
  | num n => exact fun _ => ⟨fun _ _ _ h => (by cases h), fun _ _ _ h => by cases h⟩
  | str s => exact fun _ => ⟨fun _ _ _ h => (by cases h), fun _ _ _ h => by cases h⟩
  | arr items ih =>
    intro hd
    refine ⟨fun _ _ _ h => (by cases h), fun cur os hcur h => ?_⟩
    rw [decodeOf] at h
    exact decodePtrs_raws (fun d hmem => ih d hmem (hP.arr hd d hmem)) hcur h
  | obj ms ih =>
    intro hd
    refine ⟨fun cur o hcur h => ?_, fun _ _ _ h => by cases h⟩
    rw [decodePtr, decodePredicate_eq] at h
    obtain ⟨p, hp, h⟩ := bind_eq_ok.mp h
    injection h with h
    subst h
    have hcur' : (cur.getD {}).Raws P := by
      cases cur with
      | none => exact raws_zero
      | some p => exact hcur p rfl
    have hraws := predicateRecord.decode_invariant (fun f s v s' hs hv hset =>
      Predicate.set_raws hP hs (hv : P v ∧ DecodesRaws P v).1 hv.2 hset) hp hcur'
      fun m hm => ⟨hP.obj hd m hm, ih m hm (hP.obj hd m hm)⟩
    intro q hq
    injection hq with hq
    exact hq ▸ hraws

/-! ### Rules and trees -/

/-- The raw values of a rule. -/
def Rule.Raws (P : Doc → Prop) (r : Rule) : Prop :=
  (∀ d, r.value = some d → P d) ∧ RawsPtr P r.when

theorem Rule.raws_zero : ({} : Rule).Raws P := ⟨nofun, rawsPtr_none⟩

/-- A rule that is decoded has raw values of the document, -/
theorem decodeRule_raws (hP : Hereditary P) (hd : P d) {cur r : Rule}
    (hcur : cur.Raws P) (h : decodeRule cur d = .ok r) : r.Raws P := by
  unfold decodeRule at h
  split at h
  · injection h with h
    exact h ▸ hcur
  · refine ruleRecord.decode_invariant (P := P) (fun f s v s' hs hv hset => ?_) h hcur
      (hP.obj hd)
    cases f with
    | id =>
      obtain ⟨a, -, rfl⟩ := map_eq_ok.mp hset
      exact hs
    | when =>
      obtain ⟨o, ho, rfl⟩ := map_eq_ok.mp hset
      exact ⟨hs.1, (decodesRaws hP v hv).1 _ _ hs.2 ho⟩
    | value =>
      injection hset with hset
      subst hset
      refine ⟨fun d' h' => ?_, hs.2⟩
      injection h' with h'
      exact h' ▸ hv
  · nomatch h

/-- and so have all. -/
theorem decodeRules_raws (hP : Hereditary P) : ∀ {ds : List Doc} {cur rs : List Rule},
    (∀ d ∈ ds, P d) → (∀ r ∈ cur, r.Raws P) → decodeRules cur ds = .ok rs → ∀ r ∈ rs, r.Raws P
  | [], cur, rs, _, _, h => by
    injection h with h
    subst h
    exact forall_mem_nil _
  | d :: ds, cur, rs, hds, hcur, h => by
    rw [decodeRules] at h
    obtain ⟨r, hr, h⟩ := bind_eq_ok.mp h
    obtain ⟨rs', hrs', h⟩ := bind_eq_ok.mp h
    injection h with h
    subst h
    have hhead : (cur.head?.getD {}).Raws P := by
      cases cur with
      | nil => exact Rule.raws_zero
      | cons r' cur' => exact hcur r' mem_cons_self
    have htail : ∀ r ∈ cur.tail, r.Raws P := fun r hr => hcur r (mem_of_mem_tail hr)
    intro r' hr'
    rcases mem_cons.mp hr' with rfl | hr'
    · exact decodeRule_raws hP (hds d mem_cons_self) hhead hr
    · exact decodeRules_raws hP (fun d hd => hds d (mem_cons_of_mem _ hd)) htail hrs' r' hr'

theorem RulesTree.set_raws (hP : Hereditary P) {f : TreeField} {t t' : RulesTree}
    (ht : t.Raws P) (hd : P d) (h : t.set f d = .ok t') : t'.Raws P := by
  obtain ⟨hdefault, hvalue, hwhen⟩ := ht
  cases f with
  | valueType =>
    obtain ⟨a, -, rfl⟩ := map_eq_ok.mp h
    exact ⟨hdefault, hvalue, hwhen⟩
  | default =>
    injection h with h
    subst h
    refine ⟨fun d' h' => ?_, hvalue, hwhen⟩
    injection h' with h'
    exact h' ▸ hd
  | rules =>
    obtain ⟨rs, hrs, rfl⟩ := map_eq_ok.mp h
    have hall : ∀ r ∈ rs.getD [], r.Raws P := by
      unfold decodeRuleSlice at hrs
      split at hrs
      · injection hrs with hrs
        subst hrs
        exact nofun
      · obtain ⟨rs', hrs', rfl⟩ := map_eq_ok.mp hrs
        exact decodeRules_raws hP (hP.arr hd) (fun r hr => ⟨hvalue r hr, hwhen r hr⟩) hrs'
      · nomatch hrs
    exact ⟨hdefault, fun r hr => (hall r hr).1, fun r hr => (hall r hr).2⟩

/-- **The raw values of a decoded tree are parts of the document.** -/
theorem decodeTree_raws (hP : Hereditary P) (hd : P d) {t : RulesTree}
    (h : decodeTree d = .ok t) : t.Raws P := by
  have hzero : ({} : RulesTree).Raws P := ⟨nofun, nofun, nofun⟩
  unfold decodeTree at h
  split at h
  · injection h with h
    exact h ▸ hzero
  · exact treeRecord.decode_invariant (P := P)
      (fun f s v s' hs hv hset => RulesTree.set_raws hP hs hv hset) h hzero (hP.obj hd)
  · nomatch h

end Raws

/-! ## The leaves of a compiled flag -/

section Leaves

variable {env : Env}

theorem mem_celSources_of_leafOf {s : String} {l p : Predicate} (h : l.LeafOf p)
    (hs : s ∈ celSources l) : s ∈ celSources p := by
  induction h with
  | leaf _ => exact hs
  | of hk hc _ ih => exact mem_celSources_child hk hc ih
  | ofOne hk hc _ ih => exact mem_celSources_operand hk hc ih

/-- What is known of a leaf `match` can look at. -/
structure CompiledLeaf (env : Env) (programs : Programs) (l : Predicate) : Prop where
  leaf : l.IsLeaf
  valid : ValidPredicate env true l
  value : ∀ d, l.value = some d → inRange d = true
  values : ∀ d ∈ l.values, inRange d = true
  program : l.kind = .known .cel → ∃ prog, programs.lookup l.source = some prog

/-- **Validity, programs and raw values reach every leaf.** -/
theorem WellCompiled.leaf {c : Compiled} (hc : WellCompiled env c)
    (hraws : c.ir.Raws (inRange · = true)) {r : Rule} (hr : r ∈ c.ir.ruleList) {p l : Predicate}
    (hp : r.when = some p) (hl : l.LeafOf p) : CompiledLeaf env c.celPrograms l := by
  obtain ⟨-, -, p', hp', hvalid⟩ := hc.valid.rules r hr
  rw [hp] at hp'
  injection hp' with hp'
  subst hp'
  obtain ⟨hvalue, hvalues, -, -⟩ := (hl.raws (hraws.when r hr p hp)).parts
  refine ⟨hl.isLeaf, hl.valid hvalid, hvalue, hvalues, fun hk => ?_⟩
  have hsource : l.source ∈ ruleSources c.ir.ruleList := by
    rw [ruleSources, mem_flatMap]
    refine ⟨r, hr, ?_⟩
    rw [hp, celSourcesPtr]
    exact mem_celSources_of_leafOf hl (mem_celSources_self hk)
  obtain ⟨prog, hprog, -⟩ := hc.programs _ hsource
  exact ⟨prog, hprog⟩

end Leaves

/-! ## The errors that are left -/

/-- The document is a string, or `null`, which is read as the empty string. -/
def Doc.IsText : Doc → Prop
  | .str _ | .null => True
  | _ => False

/-- The leaves that can err on a context, with the text of the error. -/
inductive ErrantLeaf (env : Env) (programs : Programs) (ctx : Context) (l : Predicate) (e : String) :
    Prop
  /-- The program of a CEL leaf reports an evaluation error. -/
  | cel {prog : CELProgram} (hkind : l.kind = .known .cel)
      (hprog : programs.lookup l.source = some prog) (herr : prog ctx = .error e)
  /-- The attribute is a string, the value to compare its beginning with is not. -/
  | startsWith {s : String} {d : Doc} (hkind : l.kind = .known .startsWith)
      (hattr : lookupString ctx l.attr = some s) (hvalue : l.value = some d) (hd : ¬ Doc.IsText d)
      (herr : e = "decoding starts_with value: " ++ env.jsonErrorText (.json d))
  /-- A reference to a segment. -/
  | segment (hkind : l.kind = .known .segment)
      (herr : e = "unknown predicate kind " ++ env.quote "segment")

section Errors

variable {env : Env} {programs : Programs} {ctx : Context}

variable {p : Predicate} {d : Doc}

/-- In range, `eq` does not fail, -/
theorem cmpEq_no_error (hvalue : p.value = some d)
    (hd : inRange d = true) : (cmpEq env p ctx).err = none := by
  rw [cmpEq, hvalue, unmarshalRaw_inRange hd]
  cases lookup ctx p.attr <;> rfl

/-- nor do comparisons, -/
theorem cmpOrd_no_error {k : PredicateKind} (hvalue : p.value = some d)
    (hd : inRange d = true) : (cmpOrd env k p ctx).err = none := by
  rw [cmpOrd, hvalue, unmarshalRaw_inRange hd]
  rcases lookup ctx p.attr with _ | actualRaw
  · rfl
  · simp only
    rcases toFloat actualRaw with _ | a
    · rfl
    · rcases toFloat (Doc.value d) with _ | b
      · rfl
      · rfl

theorem cmpInValues_no_error {actual : Value} : ∀ {raws : List Doc},
    (∀ d ∈ raws, inRange d = true) → (cmpInValues env actual raws).err = none
  | [], _ => rfl
  | raw :: raws, h => by
    rw [cmpInValues, unmarshalRaw_inRange (h raw mem_cons_self)]
    show Outcome.err (if _ then _ else _) = none
    split
    · rfl
    · exact cmpInValues_no_error fun d hd => h d (mem_cons_of_mem _ hd)

/-- nor `in`. -/
theorem cmpIn_no_error (h : ∀ d ∈ p.values, inRange d = true) :
    (cmpIn env p ctx).err = none := by
  rw [cmpIn]
  split
  · rfl
  · exact cmpInValues_no_error h

theorem cmpMatches_no_error {re : String → Bool}
    (hre : env.regexpCompile p.pattern = .ok re) : (cmpMatches env p ctx).err = none := by
  rw [cmpMatches, hre]
  cases lookupString ctx p.attr <;> rfl

/-- A rollout never fails. -/
theorem matchRollout_no_error (p : Predicate) : (matchRollout p ctx).err = none := by
  rw [matchRollout]
  split <;> rfl

variable {e : String}

theorem cmpStartsWith_error (hvalue : p.value = some d)
    (h : (cmpStartsWith env p ctx).err = some e) :
    ∃ s, lookupString ctx p.attr = some s ∧ ¬ Doc.IsText d ∧
      e = "decoding starts_with value: " ++ env.jsonErrorText (.json d) := by
  rw [cmpStartsWith, hvalue] at h
  rcases hs : lookupString ctx p.attr with _ | s
  · rw [hs] at h
    nomatch h
  · rw [hs] at h
    refine ⟨s, rfl, ?_⟩
    cases d with
    | null => nomatch h
    | str t => nomatch h
    | bool b =>
      injection h with h
      exact ⟨id, h.symm⟩
    | num n =>
      injection h with h
      exact ⟨id, h.symm⟩
    | arr items =>
      injection h with h
      exact ⟨id, h.symm⟩
    | obj ms =>
      injection h with h
      exact ⟨id, h.symm⟩

/-- An error of `cel` is one of its program. -/
theorem matchCel_error {prog : CELProgram} (hprog : programs.lookup p.source = some prog)
    (h : (matchCel env programs p ctx).err = some e) : prog ctx = .error e := by
  rw [matchCel, hprog] at h
  show prog ctx = _
  have h' : (evalCEL prog ctx).err = some e := h
  rw [evalCEL] at h'
  rcases hrun : prog ctx with text | v
  · rw [hrun] at h'
    injection h' with h'
    rw [h']
  · rw [hrun] at h'
    cases v <;> cases h'

/-- A comparison errs only as a `starts_with` whose value is no string. -/
theorem compare_error {l : Predicate} {k : PredicateKind} (hkind : l.kind = .known k)
    (hk : k.IsComparison) (hvalue : l.value = some d) (hd : inRange d = true)
    (h : (matchLeaf env programs ctx l).err = some e) : ErrantLeaf env programs ctx l e := by
  rw [matchLeaf, hkind] at h
  have hord : ∀ k', (cmpOrd env k' l ctx).err ≠ some e := fun k' h' => by
    rw [cmpOrd_no_error hvalue hd] at h'
    cases h'
  have heq : (cmpEq env l ctx).err ≠ some e := fun h' => by
    rw [cmpEq_no_error hvalue hd] at h'
    cases h'
  rcases hk with rfl | rfl | rfl | rfl | rfl | rfl | rfl
  · exact absurd h heq
  · exact absurd h heq
  · exact absurd h (hord _)
  · exact absurd h (hord _)
  · exact absurd h (hord _)
  · exact absurd h (hord _)
  · obtain ⟨s, hs, htext, he⟩ := cmpStartsWith_error hvalue h
    exact .startsWith hkind hs hvalue htext he

/-- **A leaf of a compiled flag errs in one of three ways.** -/
theorem CompiledLeaf.errant {l : Predicate} (hl : CompiledLeaf env programs l)
    (h : (matchLeaf env programs ctx l).err = some e) : ErrantLeaf env programs ctx l e := by
  cases hl.valid with
  | @compare _ k d hkind hk hattr hvalue => exact compare_error hkind hk hvalue (hl.value d hvalue) h
  | isIn hkind _ _ =>
    rw [matchLeaf, hkind] at h
    rw [show (cmpIn env l ctx).err = none from cmpIn_no_error hl.values] at h
    cases h
  | @«matches» _ re hkind _ _ hre =>
    rw [matchLeaf, hkind] at h
    rw [show (cmpMatches env l ctx).err = none from cmpMatches_no_error hre] at h
    cases h
  | rollout hkind _ _ _ =>
    rw [matchLeaf, hkind] at h
    rw [show (matchRollout l ctx).err = none from matchRollout_no_error l] at h
    cases h
  | all hkind => exact absurd hkind (hl.leaf .all (.inl rfl))
  | any hkind => exact absurd hkind (hl.leaf .any (.inr (.inl rfl)))
  | not hkind => exact absurd hkind (hl.leaf .not (.inr (.inr rfl)))
  | cel hkind _ _ =>
    obtain ⟨prog, hprog⟩ := hl.program hkind
    rw [matchLeaf, hkind] at h
    exact .cel hkind hprog (matchCel_error hprog h)
  | always hkind =>
    rw [matchLeaf, hkind] at h
    cases h
  | segment hkind _ =>
    rw [matchLeaf, hkind] at h
    injection h with h
    exact .segment hkind h.symm

end Errors

/-! ## Compiled flags -/

/-- The numbers a strategy reads from a source fit in a float64: those of the source when it is
    JSON, and those of the document that a TypeScript module exports. -/
def LiteralsFit (env : Env) (st : Named Strategy) (src : Source) : Prop :=
  (∀ d, src = .json d → inRange d = true) ∧
  (st = .known .typescript → ∀ irJSON, env.runModule src = .ok irJSON → inRange irJSON = true)

section Compiled

variable {env : Env}

theorem raws_of_compile {st : Named Strategy} {src : Source} {c : Compiled}
    (h : compile env st src = .ok c) (hfit : LiteralsFit env st src) :
    c.ir.Raws (inRange · = true) := by
  rcases st with st | ⟨s, hs⟩
  · rcases compile_ir_cases h with hir | ⟨rfl, irJSON, hrun, hir⟩
    · cases src with
      | json d => exact decodeTree_raws hereditary_inRange (hfit.1 d rfl) hir
      | text s => nomatch hir
    · exact decodeTree_raws hereditary_inRange (hfit.2 rfl irJSON hrun) hir
  · nomatch h

/-- **What can go wrong in a compiled flag.**  Evaluation returns no Go error; it reports reason
    `error` only for a rule that has an errant leaf; and no leaf of any rule errs in another way,
    whether `match` looks at it or not. -/
theorem evaluate_errors {st : Named Strategy} {src : Source} {c : Compiled}
    (h : compile env st src = .ok c) (hfit : LiteralsFit env st src) (ctx : Context) (version : Int) :
    (∃ d, evaluate env c ctx version = .ok d ∧
      (d.reason = .error → ∃ r ∈ c.ir.ruleList, d.ruleId = r.id ∧
        ∃ p l e, r.when = some p ∧ l.LeafOf p ∧
          (matchLeaf env c.celPrograms ctx l).err = some e ∧
          ErrantLeaf env c.celPrograms ctx l e)) ∧
    ∀ r ∈ c.ir.ruleList, ∀ p l e, r.when = some p → l.LeafOf p →
      (matchLeaf env c.celPrograms ctx l).err = some e → ErrantLeaf env c.celPrograms ctx l e := by
  have hraws := raws_of_compile h hfit
  have hwell := wellCompiled_of_compile h
  have herrant : ∀ r ∈ c.ir.ruleList, ∀ p l e, r.when = some p → l.LeafOf p →
      (matchLeaf env c.celPrograms ctx l).err = some e → ErrantLeaf env c.celPrograms ctx l e :=
    fun r hr p l e hp hl he => (hwell.leaf hraws hr hp hl).errant he
  refine ⟨?_, herrant⟩
  obtain ⟨defValue, -, hevaluate⟩ := @evaluate_eq_ok env _ hraws
  refine ⟨_, hevaluate ctx version, ?_⟩
  intro hreason
  obtain ⟨i, r, hr, hid, ⟨text, htext⟩, -⟩ := evaluateRules_error hreason
  have hmem : r ∈ c.ir.ruleList := mem_of_getElem? hr
  refine ⟨r, hmem, hid, ?_⟩
  rcases hp : r.when with _ | p
  · rw [hp] at htext
    nomatch htext
  · rw [hp] at htext
    obtain ⟨l, hl, he⟩ := connect_error htext
    exact ⟨p, l, text, rfl, hl, he, herrant r hmem p l text hp hl he⟩

/-- A `starts_with` against a number is such a leaf. -/
theorem badPrefix_errant : ∃ c, compile .plain (.known .json) badPrefixSource = .ok c ∧
    ∃ r ∈ c.ir.ruleList, r.id = "r1" ∧ ∃ p l e, r.when = some p ∧ l.LeafOf p ∧
      ErrantLeaf .plain c.celPrograms [("plan", .str "pro")] l e := by
  refine ⟨_, rfl, ?_⟩
  have hfit : LiteralsFit .plain (.known .json) badPrefixSource := by
    refine ⟨fun d hd => ?_, nofun⟩
    injection hd with hd
    subst hd
    decide +kernel
  obtain ⟨⟨d, hd, herr⟩, -⟩ := evaluate_errors rfl hfit [("plan", .str "pro")] 1
  have hd' : d = { value := .bool false, reason := .error, ruleId := "r1", version := 1 } := by
    injection hd with hd
    rw [← hd]
    decide
  obtain ⟨r, hr, hid, p, l, e, hp, hl, -, hleaf⟩ := herr (by rw [hd'])
  exact ⟨r, hr, by rw [← hid, hd'], p, l, e, hp, hl, hleaf⟩

end Compiled

end FalseFlag
