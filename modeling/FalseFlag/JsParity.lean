/-
  Where the evaluator of the JavaScript SDK parts from the Go one.

  Both take the rules in order, and the operands of a predicate in order, and stop as soon as the
  result is known.  What they meet on the way are leaves, and a leaf that the compiler accepts can
  differ in five ways (`Divergent`), and in no other (`leaf_agrees_iff`).  A divergent leaf that is
  not reached does not matter, so that the flags that decide alike are found by following the
  evaluation (`inStep`, `inStepRules`): an operand or a rule that decides excuses what comes after
  it.  Where the two part, they may still come to one result by different ways, and that is counted.

  Raw values keep the strings of the source, of which Go makes texts when it decodes them
  (`Predicate.text`) and JavaScript code units.

  * **`evaluators_agree_iff`** — a flag decides alike on a context, exactly if it is in step there.
-/
import FalseFlag.EvalErrors
import FalseFlag.JsEvaluator
import FalseFlag.Lib.Utf16

namespace FalseFlag

open List JsonTree Json Fallible Relators Ecma Predicate Doc Memo
open Option (getD_some map_some some some_inj)
open Strings (ofText startsWith text_ofText ofText_injective)

section Parity

variable {S : Type} [Strings S] [DecidableEq S]

/-! ## Leaves that differ -/

/-- The kinds that compare for equality. -/
def PredicateKind.IsEquality (k : PredicateKind) : Prop := k = .eq ∨ k = .neq ∨ k = .isIn

/-- The kinds that test an attribute. -/
def PredicateKind.IsTest (k : PredicateKind) : Prop :=
  k.IsComparison ∨ k = .isIn ∨ k = .matches ∨ k = .rollout

theorem PredicateKind.IsTest.ne {k : PredicateKind} (h : k.IsTest) :
    k ≠ .segment ∧ k ≠ .always := by
  rcases h with (rfl | rfl | rfl | rfl | rfl | rfl | rfl) | rfl | rfl | rfl <;> decide

theorem PredicateKind.IsEquality.isTest {k : PredicateKind} (h : k.IsEquality) :
    k.IsTest ∧ k ≠ .startsWith := by
  rcases h with rfl | rfl | rfl <;> exact ⟨by simp [IsTest, IsComparison], by decide⟩

/-- The documents that an equality test compares its attribute with. -/
def Predicate.wanted (p : Predicate S) : List (Doc S) :=
  if p.kind = .known .isIn then p.values else p.value.toList

/-- A child as JavaScript reads it. -/
abbrev readChild (o : Option (Predicate S)) : Option (JsPredicate S) := readPtr (encodePtr o)

section Leaves

variable (env : Env) (js : JsEnv S) (programs : JsPrograms S) (ctx : List (S × Doc S))

/-- What Go makes of a node; `none` is an error. -/
def goVerdict (o : Option (Predicate S)) : Option Bool :=
  (matchPtr env [] (goContext ctx) (textPtr o)).verdict

/-- What JavaScript makes of it. -/
def jsVerdict (o : Option (Predicate S)) : Option Bool :=
  (jsMatchPtr (jsLeaf env js programs (jsContext ctx)) (readChild o)).toOption

/-- **The ways in which a leaf can differ.** -/
inductive Divergent (p : Predicate S) : Prop
  /-- Go refuses a segment, JavaScript has no case for it and takes it for false. -/
  | segment : p.kind = .known .segment → Divergent p
  /-- The lookups find different things, and the test does not treat them alike. -/
  | elsewhere (k : PredicateKind) : p.kind = .known k → k.IsTest →
      ¬ Found (jsLookup (jsContext ctx) (ofText p.attr)) (lookup (goContext ctx) p.attr) →
      jsVerdict env js programs ctx (some p) ≠ goVerdict env ctx (some p) → Divergent p
  /-- A `null` prefix is empty in Go and an error in JavaScript. -/
  | nullPrefix (s : String) : p.kind = .known .startsWith → p.value = some .null →
      lookup (goContext ctx) p.attr = some (.str s) →
      jsLookup (jsContext ctx) (ofText p.attr) = .data (.str (ofText s)) → Divergent p
  /-- A prefix that is none as a text, or only as a text. -/
  | textPrefix (s : String) (head : S) : p.kind = .known .startsWith → p.value = some (.str head) →
      lookup (goContext ctx) p.attr = some (.str s) →
      jsLookup (jsContext ctx) (ofText p.attr) = .data (.str (ofText s)) →
      startsWith (ofText s) head ≠ hasPrefix s (Strings.text head) → Divergent p
  /-- Equal values that are written with their members in another order, or with an unpaired
      surrogate. -/
  | order (k : PredicateKind) (v : Value) (a : Json ℚ S) : p.kind = .known k → k.IsEquality →
      lookup (goContext ctx) p.attr = some v → jsLookup (jsContext ctx) (ofText p.attr) = .data a →
      Shows a v → (∃ d ∈ p.wanted, value d.text = v) → (∀ d ∈ p.wanted, parseDoc d ≠ a) →
      Divergent p

variable {env js programs ctx} {p : Predicate S} {q : JsPredicate S}

omit [DecidableEq S] in
theorem shows_str (s : String) : Shows (.str (ofText s) : Json ℚ S) (.str s) :=
  ⟨textual_str.mpr (by rw [text_ofText]), congrArg Json.str (text_ofText s)⟩

variable {k : PredicateKind}

/-- What differs is a segment, a test of what the lookups do not find alike, or a test of what both
    find: for equality by order, of a prefix by `null` or by what is no text. -/
theorem divergent_iff {k : PredicateKind} (hkind : p.kind = .known k) :
    Divergent env js programs ctx p ↔ k = .segment ∨
      (k.IsTest ∧
        ¬ Found (jsLookup (jsContext ctx) (ofText p.attr)) (lookup (goContext ctx) p.attr) ∧
        jsVerdict env js programs ctx (some p) ≠ goVerdict env ctx (some p)) ∨
      ∃ v a, lookup (goContext ctx) p.attr = some v ∧
        jsLookup (jsContext ctx) (ofText p.attr) = .data a ∧ Shows a v ∧
        ((k.IsEquality ∧ (∃ d ∈ p.wanted, value d.text = v) ∧ ∀ d ∈ p.wanted, parseDoc d ≠ a) ∨
          (k = .startsWith ∧ ∃ s, v = .str s ∧ a = .str (ofText s) ∧ (p.value = some .null ∨
            ∃ head, p.value = some (.str head) ∧
              startsWith (ofText s) head ≠ hasPrefix s (Strings.text head)))) := by
  have hinj : ∀ {k'}, p.kind = .known k' → k' = k := fun h =>
    Named.known.inj (h.symm.trans hkind)
  constructor
  · intro hdiv
    cases hdiv with
    | segment h => exact .inl (hinj h).symm
    | elsewhere k' h hk hfound hne => exact .inr (.inl ⟨hinj h ▸ hk, hfound, hne⟩)
    | nullPrefix s h hvalue hv ha =>
      exact .inr (.inr ⟨_, _, hv, ha, shows_str s, .inr ⟨(hinj h).symm, s, rfl, rfl, .inl hvalue⟩⟩)
    | textPrefix s head h hvalue hv ha hne =>
      exact .inr (.inr ⟨_, _, hv, ha, shows_str s,
        .inr ⟨(hinj h).symm, s, rfl, rfl, .inr ⟨head, hvalue, hne⟩⟩⟩)
    | order k' v a h heq hv ha hshow hgo hjs =>
      exact .inr (.inr ⟨v, a, hv, ha, hshow, .inl ⟨hinj h ▸ heq, hgo, hjs⟩⟩)
  · rintro (rfl | ⟨hk, hfound, hne⟩ | ⟨v, a, hv, ha, hshow, ⟨heq, hgo, hjs⟩ |
      ⟨rfl, s, rfl, rfl, hvalue | ⟨head, hvalue, hne⟩⟩⟩)
    · exact .segment hkind
    · exact .elsewhere k hkind hk hfound hne
    · exact .order k v a hkind heq hv ha hshow hgo hjs
    · exact .nullPrefix s hkind hvalue hv ha
    · exact .textPrefix s head hkind hvalue hv ha hne

/-- Where the lookups do not agree, a test differs if its verdicts do. -/
theorem divergent_elsewhere {k : PredicateKind} (hkind : p.kind = .known k) (hk : k.IsTest)
    (hfound : ¬ Found (jsLookup (jsContext ctx) (ofText p.attr)) (lookup (goContext ctx) p.attr)) :
    Divergent env js programs ctx p ↔
      jsVerdict env js programs ctx (some p) ≠ goVerdict env ctx (some p) := by
  rw [divergent_iff hkind]
  constructor
  · rintro (h | ⟨-, -, h⟩ | ⟨v, a, hv, ha, hshow, -⟩)
    · exact absurd h hk.ne.1
    · exact h
    · exact absurd (hv ▸ found_some.mpr ⟨a, ha, hshow⟩) hfound
  · exact fun h => .inr (.inl ⟨hk, hfound, h⟩)

/-- Where Go finds something that JavaScript finds too, only an equality test or a prefix differs. -/
theorem divergent_hit {k : PredicateKind} {v : Value} {a : Json ℚ S} (hkind : p.kind = .known k)
    (hk : k ≠ .segment) (hv : lookup (goContext ctx) p.attr = some v)
    (ha : jsLookup (jsContext ctx) (ofText p.attr) = .data a) (hshow : Shows a v) :
    Divergent env js programs ctx p ↔
      (k.IsEquality ∧ (∃ d ∈ p.wanted, value d.text = v) ∧ ∀ d ∈ p.wanted, parseDoc d ≠ a) ∨
        (k = .startsWith ∧ ∃ s, v = .str s ∧ a = .str (ofText s) ∧ (p.value = some .null ∨
          ∃ head, p.value = some (.str head) ∧
            startsWith (ofText s) head ≠ hasPrefix s (Strings.text head))) := by
  rw [divergent_iff hkind]
  constructor
  · rintro (h | ⟨-, hfound, -⟩ | ⟨v', a', hv', ha', -, h⟩)
    · exact absurd h hk
    · exact absurd (hv ▸ found_some.mpr ⟨a, ha, hshow⟩) hfound
    · obtain rfl := some.inj (hv.symm.trans hv')
      obtain rfl := Value.data.inj (ha.symm.trans ha')
      exact h
  · exact fun h => .inr (.inr ⟨v, a, hv, ha, hshow, h⟩)

/-! ### Nothing to be found -/

/-- A leaf is its test, and `neq` the opposite. -/
theorem jsLeaf_test (hread : q.Reads p) (hkind : p.kind = .known k)
    (hk : k.IsTest) (programs : JsPrograms S) (jsCtx : Ecma.Value ℚ S) :
    jsLeaf env js programs jsCtx q =
      if k = .neq then (jsTest env js q (jsLookup jsCtx (ofText p.attr))).map (!·)
      else jsTest env js q (jsLookup jsCtx (ofText p.attr)) := by
  have hq : q.kind = .known k := hread.kind.trans hkind
  unfold jsLeaf
  rw [hq, hread.attr]
  rcases hk with (rfl | rfl | rfl | rfl | rfl | rfl | rfl) | rfl | rfl | rfl <;> rfl

/-- Without its attribute a test fails, and `neq` holds, in Go -/
theorem verdict_miss {p : Predicate} (hkind : p.kind = .known k) (hk : k.IsTest)
    (programs : Programs) {goCtx : Context} (hmiss : lookup goCtx p.attr = none) :
    (matchLeaf env programs goCtx p).verdict = some (decide (k = .neq)) := by
  have hstring : lookupString goCtx p.attr = none := by rw [lookupString, hmiss]
  unfold matchLeaf
  rw [hkind]
  rcases hk with (rfl | rfl | rfl | rfl | rfl | rfl | rfl) | rfl | rfl | rfl <;>
    simp [cmpEq, cmpIn, cmpOrd, cmpMatches, cmpStartsWith, matchRollout, hmiss, hstring, verdict_not]

/-- and in JavaScript. -/
theorem jsLeaf_miss (hread : q.Reads p) (hkind : p.kind = .known k)
    (hk : k.IsTest) {jsCtx : Ecma.Value ℚ S} (hmiss : jsLookup jsCtx (ofText p.attr) = .undefined) :
    (jsLeaf env js programs jsCtx q).toOption = some (decide (k = .neq)) := by
  have hq : q.kind = .known k := hread.kind.trans hkind
  rw [jsLeaf_test hread hkind hk, hmiss, jsTest, hq]
  rcases hk with (rfl | rfl | rfl | rfl | rfl | rfl | rfl) | rfl | rfl | rfl <;> rfl

/-! ### Something to compare -/

variable {a : Json ℚ S} {v : Value} {goCtx : Context}

omit [DecidableEq S] in
theorem lookupString_hit {path : String} (hv : lookup goCtx path = some v) (hshow : Shows a v) :
    lookupString goCtx path = (asString (.data a)).map Strings.text := by
  obtain ⟨-, rfl⟩ := hshow
  rw [lookupString, hv]
  cases a <;> rfl

omit [DecidableEq S] in
theorem toFloat_shows (hshow : Shows a v) : toFloat v = toNumber (.data a) := by
  obtain ⟨-, rfl⟩ := hshow
  cases a <;> rfl

theorem toFloat_value (d : Doc S) : toFloat (value d.text) = toNumber (.data (parseDoc d)) := by
  cases d <;> rfl

/-- Equal in JavaScript is equal in Go, so the two differ if only Go finds an equal value. -/
theorem equal_agrees_iff (hshow : Shows a v) (ds : List (Doc S)) :
    decide (∃ d ∈ ds, parseDoc d = a) = decide (∃ d ∈ ds, value d.text = v) ↔
      ¬ ((∃ d ∈ ds, value d.text = v) ∧ ∀ d ∈ ds, parseDoc d ≠ a) := by
  have himp : (∃ d ∈ ds, parseDoc d = a) → ∃ d ∈ ds, value d.text = v := by
    rintro ⟨d, hd, rfl⟩
    exact ⟨d, hd, (shows_parse.mpr hshow.1).2.symm.trans hshow.2⟩
  have hnot : (∀ d ∈ ds, parseDoc d ≠ a) ↔ ¬ ∃ d ∈ ds, parseDoc d = a := by simp
  rw [decide_eq_decide, hnot, not_and_not_right]
  exact ⟨Iff.mpr, fun h => ⟨himp, h⟩⟩

theorem cmpInValues_eq (actual : Value) {ds : List Doc} (h : ∀ d ∈ ds, inRange d = true) :
    cmpInValues env actual ds = .result (decide (∃ d ∈ ds, value d = actual)) := by
  rw [cmpInValues_any h]
  refine congrArg _ ?_
  rw [Bool.eq_iff_iff, any_eq_true, decide_eq_true_eq]
  simp only [jsonEqual_iff, @eq_comm _ actual]

theorem any_jsJsonEqual (code : Code ℚ S) (a : Json ℚ S) (ds : List (Doc S)) :
    (ds.map parseDoc).any (fun v => jsJsonEqual code (.data a) (.data v)) =
      decide (∃ d ∈ ds, parseDoc d = a) := by
  rw [Bool.eq_iff_iff, any_eq_true, decide_eq_true_eq]
  simp [jsJsonEqual_data, eq_comm]

omit [DecidableEq S] in
theorem exists_text {ds : List (Doc S)} {P : Doc → Prop} :
    (∃ d ∈ ds.map Json.text, P d) ↔ ∃ d ∈ ds, P d.text := by simp

variable {d : Doc S}

omit [DecidableEq S] in
/-- `cmpEq` and `cmpIn` of both sides ask whether the attribute is among the wanted values. -/
theorem cmpEq_hit (hvalue : p.value = some d) (hkind : p.kind ≠ .known .isIn)
    (hrange : inRange d.text = true) (hv : lookup goCtx p.attr = some v) :
    cmpEq env p.text goCtx = .result (decide (∃ d ∈ p.wanted, value d.text = v)) := by
  have hloop := @cmpInValues_eq env v _ (forall_mem_singleton.mpr hrange)
  have hwanted : p.wanted = [d] := by rw [Predicate.wanted, if_neg hkind, hvalue]; rfl
  have hone : (∃ d' ∈ [d], value d'.text = v) ↔ ∃ d' ∈ [d.text], value d' = v := by simp
  rw [cmpEq, text_attr, text_value, hv, hvalue, hwanted,
    decide_eq_decide.mpr hone, ← hloop, cmpInValues]
  simp only [map_some, unmarshalRaw_inRange hrange, cmpInValues]
  cases jsonEqual env.fmt v (value d.text) <;> rfl

omit [DecidableEq S] in
theorem cmpIn_hit (hkind : p.kind = .known .isIn) (hrange : ∀ d ∈ p.text.values, inRange d = true)
    (hv : lookup goCtx p.attr = some v) :
    cmpIn env p.text goCtx = .result (decide (∃ d ∈ p.wanted, value d.text = v)) := by
  have hwanted : p.wanted = p.values := by rw [Predicate.wanted, if_pos hkind]
  rw [cmpIn, text_attr, hv, hwanted]
  show cmpInValues env v p.text.values = _
  rw [cmpInValues_eq _ hrange, text_values, decide_eq_decide.mpr exists_text]

theorem jsCmpEq_hit (hread : q.Reads p) (hvalue : p.value = some d)
    (hkind : p.kind ≠ .known .isIn) (a : Json ℚ S) :
    jsCmpEq js q (.data a) = decide (∃ d ∈ p.wanted, parseDoc d = a) := by
  have hwanted : p.wanted = [d] := by rw [Predicate.wanted, if_neg hkind, hvalue]; rfl
  have hdefined : (Ecma.Value.data a).typeOf ≠ .undefined := by cases a <;> nofun
  rw [jsCmpEq, if_neg hdefined, hread.value, hvalue, hwanted, ← any_jsJsonEqual js.code]
  simp [orUndefined]

theorem jsCmpIn_hit (hread : q.Reads p) (hkind : p.kind = .known .isIn) (a : Json ℚ S) :
    jsCmpIn js q (.data a) = decide (∃ d ∈ p.wanted, parseDoc d = a) := by
  have hwanted : p.wanted = p.values := by rw [Predicate.wanted, if_pos hkind]
  have hdefined : (Ecma.Value.data a).typeOf ≠ .undefined := by cases a <;> nofun
  rw [jsCmpIn, if_neg hdefined, hread.values, hwanted, any_jsJsonEqual]

/-- Order comparisons are the same. -/
theorem cmpOrd_hit (hread : q.Reads p) (k : PredicateKind) (hvalue : p.value = some d)
    (hrange : inRange d.text = true) (hv : lookup goCtx p.attr = some v) (hshow : Shows a v) :
    cmpOrd env k p.text goCtx = .result (jsCmpOrd k q (.data a)) := by
  have hb : toNumber (orUndefined q.value) = toFloat (value d.text) := by
    rw [hread.value, hvalue, toFloat_value]
    rfl
  rw [cmpOrd, text_attr, text_value, hv, hvalue, jsCmpOrd, hb,
    ← toFloat_shows hshow]
  simp only [map_some, unmarshalRaw_inRange hrange]
  rcases toFloat v with _ | x
  · rfl
  · rcases toFloat (value d.text) with _ | y <;> rfl

/-- So are patterns that compile, -/
theorem cmpMatches_hit (hread : q.Reads p) {re : String → Bool}
    (hre : env.regexpCompile p.pattern = .ok re) (hv : lookup goCtx p.attr = some v)
    (hshow : Shows a v) :
    cmpMatches env p.text goCtx = .result (jsCmpMatches env js q (.data a)) := by
  have hstring := lookupString_hit hv hshow
  rw [cmpMatches, text_attr, text_pattern, hstring, jsCmpMatches, hread.pattern]
  cases a with
  | str s =>
    have hs : re (Strings.text s) = js.test re s := by
      rw [← js.test_ofText re, textual_str.mp hshow.1]
    simp only [asString, map_some, hre, hs]
  | _ => rfl

/-- and rollouts. -/
theorem matchRollout_hit (hread : q.Reads p) (hv : lookup goCtx p.attr = some v)
    (hshow : Shows a v) : matchRollout p.text goCtx = .result (jsRollout q (.data a)) := by
  rw [matchRollout, text_attr, lookupString_hit hv hshow, jsRollout, hread.salt,
    hread.percent]
  rcases asString (.data a) with _ | s
  · rfl
  · simp only [map_some, jsInBucket_eq, text_salt, text_percent]

/-- A prefix that is not a string fails on both sides, but `null` only in JavaScript. -/
theorem startsWith_hit (hread : q.Reads p) (hvalue : p.value = some d)
    (hv : lookup goCtx p.attr = some v) (hshow : Shows a v) :
    (jsCmpStartsWith q (.data a)).toOption = (cmpStartsWith env p.text goCtx).verdict ↔
      ¬ ∃ s, v = .str s ∧ a = .str (ofText s) ∧ (d = .null ∨ ∃ head, d = .str head ∧
        startsWith (ofText s) head ≠ hasPrefix s (Strings.text head)) := by
  have hprefix : asString (orUndefined q.value) = readString d := by
    rw [hread.value, hvalue]
    cases d <;> rfl
  have hstring := lookupString_hit hv hshow
  rw [cmpStartsWith, text_attr, text_value, hstring, jsCmpStartsWith, hprefix,
    hvalue]
  obtain ⟨htext, rfl⟩ := hshow
  cases a with
  | str s =>
    have hs : ofText (Strings.text s) = s := textual_str.mp htext
    have hnorm : ((Json.str s : Json ℚ S).text.norm id : Value) = .str (Strings.text s) := rfl
    rw [hnorm]
    have hunique : ∀ {P : String → Prop}, (∃ t, (Json.str (Strings.text s) : Value) = .str t ∧
        (Json.str s : Json ℚ S) = .str (ofText t) ∧ P t) ↔ P (Strings.text s) := by
      intro P
      constructor
      · rintro ⟨t, ht, -, hP⟩
        injection ht with ht
        exact ht ▸ hP
      · exact fun hP => ⟨_, rfl, by rw [hs], hP⟩
    rw [hunique, hs]
    cases d <;>
      simp [asString, readString, unmarshalRawString, unmarshalString, Except.mapError,
        Except.toOption, Json.text, Json.replace]
  | _ =>
    refine iff_of_true (by simp [asString, Except.toOption]) ?_
    rintro ⟨s, -, h, -⟩
    cases h

/-- The outcome of a test for equality, on both sides, negated or not. -/
theorem equality_agrees_iff (hkind : p.kind = .known k) (hk : k.IsEquality)
    (hv : lookup (goContext ctx) p.attr = some v)
    (ha : jsLookup (jsContext ctx) (ofText p.attr) = .data a) (hshow : Shows a v) :
    decide (∃ d ∈ p.wanted, parseDoc d = a) = decide (∃ d ∈ p.wanted, value d.text = v) ↔
      ¬ Divergent env js programs ctx p := by
  rw [equal_agrees_iff hshow, divergent_hit hkind hk.isTest.1.ne.1 hv ha hshow]
  simp only [hk, hk.isTest.2, true_and, false_and, or_false]

/-- The other tests agree on what is there, if they come out alike. -/
theorem others_agree_iff {k : PredicateKind} {b : Bool} (hkind : p.kind = .known k) (hk : k.IsTest)
    (hother : k ≠ .startsWith ∧ ¬ k.IsEquality) (hread : q.Reads p)
    (hv : lookup (goContext ctx) p.attr = some v)
    (ha : jsLookup (jsContext ctx) (ofText p.attr) = .data a) (hshow : Shows a v)
    (hjs : jsTest env js q (.data a) = .ok b)
    (hgo : matchLeaf env [] (goContext ctx) p.text = .result b) :
    (jsLeaf env js programs (jsContext ctx) q).toOption =
        (matchLeaf env [] (goContext ctx) p.text).verdict ↔ ¬ Divergent env js programs ctx p := by
  refine iff_of_true ?_ ?_
  · rw [jsLeaf_test hread hkind hk, ha, hjs, hgo, if_neg fun h => hother.2 (.inr (.inl h))]
    rfl
  · rw [divergent_hit hkind hk.ne.1 hv ha hshow]
    rintro (⟨h, -⟩ | ⟨h, -⟩)
    · exact hother.2 h
    · exact hother.1 h

/-- A comparison, on what both find. -/
theorem compare_agrees_iff {k : PredicateKind} {d : Doc S} (hkind : p.kind = .known k)
    (hk : k.IsComparison) (hvalue : p.value = some d) (hrange : inRange d.text = true)
    (hread : q.Reads p) (hv : lookup (goContext ctx) p.attr = some v)
    (ha : jsLookup (jsContext ctx) (ofText p.attr) = .data a) (hshow : Shows a v) :
    (jsLeaf env js programs (jsContext ctx) q).toOption =
        (matchLeaf env [] (goContext ctx) p.text).verdict ↔ ¬ Divergent env js programs ctx p := by
  have hq : q.kind = .known k := hread.kind.trans hkind
  by_cases hord : k = .gt ∨ k = .gte ∨ k = .lt ∨ k = .lte
  · refine others_agree_iff hkind (.inl hk) ?_ hread hv ha hshow (b := jsCmpOrd k q (.data a)) ?_ ?_
    · rcases hord with rfl | rfl | rfl | rfl <;> simp [PredicateKind.IsEquality]
    · unfold jsTest
      rw [hq]
      rcases hord with rfl | rfl | rfl | rfl <;> rfl
    · rw [← cmpOrd_hit hread k hvalue hrange hv hshow]
      unfold matchLeaf
      rw [text_kind, hkind]
      rcases hord with rfl | rfl | rfl | rfl <;> rfl
  have hisIn : k ≠ .isIn → p.kind ≠ .known .isIn := fun h h' =>
    h (Named.known.inj (hkind.symm.trans h'))
  rw [jsLeaf_test hread hkind (.inl hk), ha]
  unfold matchLeaf jsTest
  rw [text_kind, hkind, hq]
  rcases hk with rfl | rfl | rfl | rfl | rfl | rfl | rfl
  · -- eq
    rw [← equality_agrees_iff hkind (.inl rfl) hv ha hshow, if_neg (by nofun)]
    simp only [cmpEq_hit hvalue (hisIn nofun) hrange hv, jsCmpEq_hit hread hvalue (hisIn nofun)]
    exact some_inj
  · -- neq
    rw [← equality_agrees_iff hkind (.inr (.inl rfl)) hv ha hshow, if_pos rfl]
    simp only [cmpEq_hit hvalue (hisIn nofun) hrange hv, jsCmpEq_hit hread hvalue (hisIn nofun)]
    exact some_inj.trans Bool.not_inj_iff
  · simp at hord
  · simp at hord
  · simp at hord
  · simp at hord
  · -- starts_with
    rw [if_neg (by nofun), divergent_hit hkind nofun hv ha hshow,
      startsWith_hit hread hvalue hv hshow, hvalue]
    simp [PredicateKind.IsEquality]

omit [Strings S] [DecidableEq S] in
/-- A leaf is its own match. -/
theorem jsMatch_leaf {leaf : JsPredicate S → Except String Bool} {p : Predicate} {q : JsPredicate S}
    (hkind : q.kind = p.kind) (h : p.IsLeaf) : jsMatch leaf q = leaf q := by
  obtain ⟨kind⟩ := q
  subst hkind
  rcases hk : p.kind with k | ⟨s, hs⟩
  · cases k with
    | all => exact absurd hk (h .all (.inl rfl))
    | any => exact absurd hk (h .any (.inr (.inl rfl)))
    | not => exact absurd hk (h .not (.inr (.inr rfl)))
    | _ => rfl
  · rfl

/-- A test agrees unless it is `Divergent`, if that is known of what both find. -/
theorem test_agrees_iff {k : PredicateKind} (hkind : p.kind = .known k) (hk : k.IsTest)
    (hread : q.Reads p) (hjs : jsVerdict env js programs ctx (some p) =
      (jsLeaf env js programs (jsContext ctx) q).toOption)
    (hgo : goVerdict env ctx (some p) = (matchLeaf env [] (goContext ctx) p.text).verdict)
    (hhit : ∀ {v a}, lookup (goContext ctx) p.attr = some v →
      jsLookup (jsContext ctx) (ofText p.attr) = .data a → Shows a v →
      ((jsLeaf env js programs (jsContext ctx) q).toOption =
        (matchLeaf env [] (goContext ctx) p.text).verdict ↔ ¬ Divergent env js programs ctx p)) :
    jsVerdict env js programs ctx (some p) = goVerdict env ctx (some p) ↔
      ¬ Divergent env js programs ctx p := by
  by_cases hfound : Found (jsLookup (jsContext ctx) (ofText p.attr)) (lookup (goContext ctx) p.attr)
  · rw [hjs, hgo]
    rcases hv : lookup (goContext ctx) p.attr with _ | v
    · refine iff_of_true ?_ ?_
      · rw [jsLeaf_miss hread hkind hk (found_none.mp (hv ▸ hfound)),
          verdict_miss (p.text_kind.trans hkind) hk [] (p.text_attr.symm ▸ hv)]
      · rw [divergent_iff hkind, hv]
        rintro (h | ⟨-, h, -⟩ | ⟨v, a, h, -⟩)
        · exact hk.ne.1 h
        · exact h (hv ▸ hfound)
        · cases h
    · obtain ⟨a, ha, hshow⟩ := found_some.mp (hv ▸ hfound)
      exact hhit hv ha hshow
  · rw [divergent_elsewhere hkind hk hfound, not_not]

/-- **A leaf that was accepted agrees unless it is `Divergent`.** -/
theorem leaf_agrees_iff (hvalid : ValidPredicate env false p.text) (hleaf : p.text.IsLeaf)
    (hraws : p.text.Raws (inRange · = true)) :
    jsVerdict env js programs ctx (some p) = goVerdict env ctx (some p) ↔
      ¬ Divergent env js programs ctx p := by
  obtain ⟨hvalue, hvalues⟩ := hraws p.text (.refl _)
  obtain ⟨q, hq, hread⟩ := readPtr_encodePredicate p
  have hjs : jsVerdict env js programs ctx (some p) =
      (jsLeaf env js programs (jsContext ctx) q).toOption := by
    have hchild : readChild (some p) = some q := hq
    rw [jsVerdict, hchild, jsMatchPtr, jsMatch_leaf (hread.kind.trans p.text_kind.symm) hleaf]
  have hgo : goVerdict env ctx (some p) = (matchLeaf env [] (goContext ctx) p.text).verdict :=
    congrArg Outcome.verdict (connect_leaf hleaf)
  have hkind' : ∀ {k}, p.text.kind = .known k → p.kind = .known k := fun h => p.text_kind ▸ h
  cases hvalid with
  | compare hkind hk _ hd =>
    obtain ⟨d, hd', rfl⟩ := Option.map_eq_some_iff.mp (p.text_value ▸ hd)
    exact test_agrees_iff (hkind' hkind) (.inl hk) hread hjs hgo
      (compare_agrees_iff (hkind' hkind) hk hd' (hvalue _ hd) hread)
  | isIn hkind _ _ =>
    have hk : PredicateKind.IsEquality .isIn := .inr (.inr rfl)
    refine test_agrees_iff (hkind' hkind) hk.isTest.1 hread hjs hgo fun hv ha hshow => ?_
    rw [← equality_agrees_iff (hkind' hkind) hk hv ha hshow,
      jsLeaf_test hread (hkind' hkind) hk.isTest.1, ha, if_neg (fun h => by cases h)]
    unfold matchLeaf jsTest
    rw [hread.kind, hkind, hkind' hkind]
    simp only [cmpIn_hit (hkind' hkind) hvalues hv, jsCmpIn_hit hread (hkind' hkind)]
    exact some_inj
  | «matches» hkind _ _ hre =>
    have hk : PredicateKind.IsTest .matches := .inr (.inr (.inl rfl))
    refine test_agrees_iff (hkind' hkind) hk hread hjs hgo fun {_ a} hv ha hshow =>
      others_agree_iff (hkind' hkind) hk (by simp [PredicateKind.IsEquality]) hread hv ha hshow
        (b := jsCmpMatches env js q (.data a)) ?_ ?_
    · rw [jsTest, hread.kind, hkind' hkind]
    · rw [matchLeaf, hkind]
      exact cmpMatches_hit hread (p.text_pattern ▸ hre) hv hshow
  | rollout hkind _ _ _ =>
    have hk : PredicateKind.IsTest .rollout := .inr (.inr (.inr rfl))
    refine test_agrees_iff (hkind' hkind) hk hread hjs hgo fun {_ a} hv ha hshow =>
      others_agree_iff (hkind' hkind) hk (by simp [PredicateKind.IsEquality]) hread hv ha hshow
        (b := jsRollout q (.data a)) ?_ ?_
    · rw [jsTest, hread.kind, hkind' hkind]
    · rw [matchLeaf, hkind]
      exact matchRollout_hit hread hv hshow
  | all hkind => exact absurd hkind (hleaf .all (.inl rfl))
  | any hkind => exact absurd hkind (hleaf .any (.inr (.inl rfl)))
  | not hkind => exact absurd hkind (hleaf .not (.inr (.inr rfl)))
  | cel _ hallow => cases hallow
  | always hkind =>
    have hq' : q.kind = .known .always := hread.kind.trans (hkind' hkind)
    refine iff_of_true ?_ ?_
    · rw [hjs, hgo]
      unfold jsLeaf matchLeaf
      rw [hq', hkind]
      rfl
    · rw [divergent_iff (hkind' hkind)]
      rintro (h | ⟨h, -⟩ | ⟨_, _, _, _, _, ⟨h, -⟩ | ⟨h, -⟩⟩)
      · cases h
      · exact h.ne.2 rfl
      · exact h.isTest.1.ne.2 rfl
      · cases h
  | segment hkind _ =>
    have hq' : q.kind = .known .segment := hread.kind.trans (hkind' hkind)
    refine iff_of_false ?_ (not_not_intro (.segment (hkind' hkind)))
    rw [hjs, hgo]
    unfold jsLeaf jsTest matchLeaf
    rw [hq', hkind]
    exact Option.some_ne_none false

end Leaves

/-! ## Operands, in order -/

section InStep

variable (env : Env) (js : JsEnv S) (programs : JsPrograms S) (ctx : List (S × Doc S))

/-- The loops of `all` and `any`: on to the next operand while the verdict is `t`. -/
def loop (verdict : Option (Predicate S) → Option Bool) (t : Bool) :
    List (Option (Predicate S)) → Option Bool
  | [] => some t
  | c :: cs => if verdict c = some t then loop verdict t cs else verdict c

mutual

/-- **A predicate is in step**: the leaves that are reached are not `Divergent`. -/
def inStep : Predicate S → Prop
  | p@{ kind, of, ofOne, .. } =>
    match kind with
    | .known .all => inStepOf true of
    | .known .any => inStepOf false of
    | .known .not => inStepPtr ofOne
    | _ => ¬ Divergent env js programs ctx p
  termination_by structural p => p

/-- `inStep` of an operand; one that is not there is false in Go and an error in JavaScript. -/
def inStepPtr : Option (Predicate S) → Prop
  | none => False
  | some p => inStep p
  termination_by structural o => o

/-- `inStep` of the operands of `all` and `any`: the first is in step and, if it does not decide,
    the others are; or one loop ends at the first and the other, further on, with the same. -/
def inStepOf (t : Bool) : List (Option (Predicate S)) → Prop
  | [] => True
  | c :: cs =>
    (inStepPtr c ∧ (goVerdict env ctx c = some t → inStepOf t cs)) ∨
    (goVerdict env ctx c = some t ∧ jsVerdict env js programs ctx c ≠ some t ∧
      loop (goVerdict env ctx) t cs = jsVerdict env js programs ctx c) ∨
    (jsVerdict env js programs ctx c = some t ∧ goVerdict env ctx c ≠ some t ∧
      loop (jsVerdict env js programs ctx) t cs = goVerdict env ctx c)
  termination_by structural cs => cs

end

variable {env js programs ctx} {leaf : JsPredicate S → Except String Bool}

omit [Strings S] [DecidableEq S] in
/-- `match` on the kinds with operands. -/
theorem jsMatch_all {q : JsPredicate S} (h : q.kind = .known .all) :
    jsMatch leaf q = jsEvery leaf (q.of.getD []) := by
  obtain ⟨kind, attr, value, values, pattern, salt, percent, _ | cs, ofOne, source⟩ := q <;>
    subst h <;> simp [jsMatch, jsEveryOf, jsEvery]

omit [Strings S] [DecidableEq S] in
theorem jsMatch_any {q : JsPredicate S} (h : q.kind = .known .any) :
    jsMatch leaf q = jsSome leaf (q.of.getD []) := by
  obtain ⟨kind, attr, value, values, pattern, salt, percent, _ | cs, ofOne, source⟩ := q <;>
    subst h <;> simp [jsMatch, jsSomeOf, jsSome]

omit [Strings S] [DecidableEq S] in
theorem jsMatch_not {q : JsPredicate S} (h : q.kind = .known .not) :
    jsMatch leaf q = (jsMatchPtr leaf q.ofOne).map (!·) := by
  cases q
  subst h
  rw [jsMatch]

/-- The loops of JavaScript -/
theorem toOption_loops : ∀ cs : List (Option (Predicate S)),
    (jsEvery (jsLeaf env js programs (jsContext ctx)) (cs.map readChild)).toOption =
        loop (jsVerdict env js programs ctx) true cs ∧
      (jsSome (jsLeaf env js programs (jsContext ctx)) (cs.map readChild)).toOption =
        loop (jsVerdict env js programs ctx) false cs
  | [] => by
    rw [map_nil, jsEvery, jsSome, loop, loop]
    exact ⟨rfl, rfl⟩
  | c :: cs => by
    rw [map_cons, jsEvery, jsSome, loop, loop, ← (toOption_loops cs).1, ← (toOption_loops cs).2,
      jsVerdict]
    rcases jsMatchPtr (jsLeaf env js programs (jsContext ctx)) (readChild c) with e | _ | _ <;>
      exact ⟨rfl, rfl⟩

omit [DecidableEq S] in
/-- and of Go. -/
theorem verdict_loops : ∀ cs : List (Option (Predicate S)),
    (connectAll (matchLeaf env [] (goContext ctx)) (cs.map textPtr)).verdict =
        loop (goVerdict env ctx) true cs ∧
      (connectAny (matchLeaf env [] (goContext ctx)) (cs.map textPtr)).verdict =
        loop (goVerdict env ctx) false cs
  | [] => by
    rw [map_nil, connectAll, connectAny, loop, loop]
    exact ⟨rfl, rfl⟩
  | c :: cs => by
    rw [map_cons, verdict_connectAll, verdict_connectAny, loop, loop, ← (verdict_loops cs).1,
      ← (verdict_loops cs).2, goVerdict, matchPtr]
    rcases (connectPtr (matchLeaf env [] (goContext ctx)) (textPtr c)).verdict with _ | _ | _ <;>
      exact ⟨rfl, rfl⟩

/-! ### One equation per kind of node -/

/-- The verdicts on a node, from those on its operands. -/
theorem verdicts_loop {p : Predicate S} {t : Bool}
    (h : p.kind = .known (if t then .all else .any)) :
    jsVerdict env js programs ctx (some p) = loop (jsVerdict env js programs ctx) t p.of ∧
      goVerdict env ctx (some p) = loop (goVerdict env ctx) t p.of := by
  obtain ⟨q, hq, hread⟩ := readPtr_encodePredicate p
  rw [jsVerdict, readChild, encodePtr, encodeOfOne, getD_some, hq, jsMatchPtr]
  show _ ∧ (connect _ p.text).verdict = _
  cases t with
  | true =>
    rw [jsMatch_all (hread.kind.trans h), hread.of, connect_all (p.text_kind.trans h),
      text_of]
    exact ⟨(toOption_loops p.of).1, (verdict_loops p.of).1⟩
  | false =>
    rw [jsMatch_any (hread.kind.trans h), hread.of, connect_any (p.text_kind.trans h),
      text_of]
    exact ⟨(toOption_loops p.of).2, (verdict_loops p.of).2⟩

theorem verdicts_not (h : p.kind = .known .not) :
    jsVerdict env js programs ctx (some p) = goVerdict env ctx (some p) ↔
      jsVerdict env js programs ctx p.ofOne = goVerdict env ctx p.ofOne := by
  obtain ⟨q, hq, hread⟩ := readPtr_encodePredicate p
  have hone : q.ofOne = readChild p.ofOne := by
    rw [hread.ofOne]
    cases p.ofOne <;> rfl
  have hjs : jsVerdict env js programs ctx (some p) =
      (jsVerdict env js programs ctx p.ofOne).map (!·) := by
    rw [jsVerdict, readChild, encodePtr, encodeOfOne, getD_some, hq, jsMatchPtr,
      jsMatch_not (hread.kind.trans h), hone, jsVerdict]
    rcases jsMatchPtr _ (readChild p.ofOne) with e | b <;> rfl
  have hgo : goVerdict env ctx (some p) = (goVerdict env ctx p.ofOne).map (!·) := by
    show (connect _ p.text).verdict = _
    rw [connect_not (p.text_kind.trans h), verdict_not, text_ofOne]
    rfl
  rw [hjs, hgo]
  exact (Option.map_injective fun _ _ => Bool.not_inj).eq_iff

theorem inStep_loop {p : Predicate S} {t : Bool} (h : p.kind = .known (if t then .all else .any)) :
    inStep env js programs ctx p = inStepOf env js programs ctx t p.of := by
  cases p
  subst h
  cases t <;> simp [inStep]

theorem inStep_not (h : p.kind = .known .not) :
    inStep env js programs ctx p = inStepPtr env js programs ctx p.ofOne := by
  cases p
  subst h
  rw [inStep]

theorem inStep_leaf (h : p.text.IsLeaf) :
    inStep env js programs ctx p = ¬ Divergent env js programs ctx p := by
  obtain ⟨kind⟩ := p
  rcases kind with k | ⟨s, hs⟩
  · cases k with
    | all => exact absurd rfl (h .all (.inl rfl))
    | any => exact absurd rfl (h .any (.inr (.inl rfl)))
    | not => exact absurd rfl (h .not (.inr (.inr rfl)))
    | _ => rfl
  · rfl

/-- **The loops end alike iff their operands are in step.**  Induction on the operands; where one
    loop ends and the other goes on, the end of the other is asked for. -/
theorem loops_agree_iff (t : Bool) : ∀ {cs : List (Option (Predicate S))},
    (∀ c ∈ cs, (jsVerdict env js programs ctx c = goVerdict env ctx c ↔
      inStepPtr env js programs ctx c)) →
    (loop (jsVerdict env js programs ctx) t cs = loop (goVerdict env ctx) t cs ↔
      inStepOf env js programs ctx t cs)
  | [], _ => by simp [loop, inStepOf]
  | c :: cs, h => by
    obtain ⟨hc, hcs⟩ := forall_mem_cons.mp h
    rw [loop, loop, inStepOf, ← hc, ← loops_agree_iff t hcs]
    by_cases hgo : goVerdict env ctx c = some t <;>
      by_cases hjs : jsVerdict env js programs ctx c = some t
    · simp [hgo, hjs]
    · simp [hgo, hjs, eq_comm]
    · simp [hgo, hjs, Ne.symm hgo]
    · simp [hgo, hjs]

/-- **The verdicts on a predicate agree iff it is in step.** -/
theorem verdicts_agree_iff (p : Predicate S) (hvalid : ValidPredicate env false p.text)
    (hraws : p.text.Raws (inRange · = true)) :
    jsVerdict env js programs ctx (some p) = goVerdict env ctx (some p) ↔
      inStep env js programs ctx p := by
  induction p with
  | node p hof hone =>
    have hoperand : ∀ c, (∀ c', c = some c' → (jsVerdict env js programs ctx (some c') =
        goVerdict env ctx (some c') ↔ inStep env js programs ctx c')) →
        (jsVerdict env js programs ctx c = goVerdict env ctx c ↔
          inStepPtr env js programs ctx c) := by
      rintro (_ | c) hc
      · exact iff_of_false nofun (by rw [inStepPtr]; exact id)
      · rw [inStepPtr]
        exact hc c rfl
    have hloop : ∀ {t : Bool}, p.text.kind = .known (if t then .all else .any) →
        (jsVerdict env js programs ctx (some p) = goVerdict env ctx (some p) ↔
          inStep env js programs ctx p) := by
      intro t hk
      have hk' := p.text_kind ▸ hk
      obtain ⟨hjs, hgo⟩ := @verdicts_loop S _ _ env js programs ctx p t hk'
      rw [hjs, hgo, inStep_loop hk']
      refine loops_agree_iff t fun c hc => hoperand c ?_
      rintro c rfl
      have hmem : some c.text ∈ p.text.of := by
        rw [text_of]
        exact mem_map_of_mem hc
      refine hof c hc (hvalid.child ?_ hmem) fun q hq => hraws q (.of hmem hq)
      cases t
      · exact .inr hk
      · exact .inl hk
    rcases p.text.kind_cases with hk | hk | hk | hleaf
    · exact hloop (t := true) hk
    · exact hloop (t := false) hk
    · have hk' := p.text_kind ▸ hk
      rw [verdicts_not hk', inStep_not hk']
      refine hoperand p.ofOne fun c hc => ?_
      have hc' : p.text.ofOne = some c.text := by rw [text_ofOne, hc]; rfl
      exact hone c hc (hvalid.operand hk hc') fun q hq => hraws q (.ofOne hc' hq)
    · rw [inStep_leaf hleaf]
      exact leaf_agrees_iff hvalid hleaf hraws

end InStep

/-! ## What JavaScript reads -/

/-- A rule as JavaScript reads it. -/
theorem readRule_encodeRule (r : Rule S) : readRule (encodeRule r) =
    { id := ofText r.id, when := readChild r.when, value := some (parseDoc (r.value.getD .null)) } := by
  have hne : ∀ {s t : String}, s ≠ t → (ofText s : S) ≠ ofText t := fun h h' =>
    h (ofText_injective h')
  simp [readRule, encodeRule, property, lookup_cons_ite, hne, readString]

/-- A tree as JavaScript reads it. -/
theorem readTree_encodeTree (t : RulesTree S) : readTree (encodeTree t) =
    { valueType := t.valueType, default := some (parseDoc (t.default.getD .null)),
      rules := t.rules.map (·.map fun r => readRule (encodeRule r)) } := by
  have hne : ∀ {s t : String}, s ≠ t → (ofText s : S) ≠ ofText t := fun h h' =>
    h (ofText_injective h')
  have hvt : Named.ofString t.valueType.toString = t.valueType := Named.ofString_toString _
  obtain ⟨vt, d, _ | rs⟩ := t
  · simp [readTree, encodeTree, property, lookup_cons_ite, hne, readText, readString, text_ofText, hvt]
  · simp [readTree, encodeTree, property, lookup_cons_ite, hne, readText, readString, text_ofText, hvt]

/-- `valueMatchesType` is the same. -/
theorem jsValueMatchesType_eq (d : Doc S) (vt : Named ValueType) :
    jsValueMatchesType (some (parseDoc d)) vt = valueMatchesType (value d.text) vt := by
  rcases vt with k | ⟨s, hs⟩
  · cases k <;> cases d <;> rfl
  · cases d <;> rfl

omit [DecidableEq S] in
theorem decodeValue_inRange {env : Env} {o : Option (Doc S)}
    (h : ∀ d, o.map Json.text = some d → inRange d = true) :
    decodeValue env (o.map Json.text) = .ok (value (o.getD .null).text) := by
  rcases o with _ | d
  · rfl
  · exact unmarshalRaw_inRange (h _ rfl)

theorem jsReasonForRule_eq (r : Rule S) :
    jsReasonForRule (readChild r.when) = reasonForRule r.text := by
  unfold reasonForRule Rule.text
  rcases r.when with _ | p
  · rfl
  · obtain ⟨q, hq, hread⟩ := readPtr_encodePredicate p
    have hchild : readChild (some p) = some q := hq
    have htext : textPtr (some p) = some p.text := rfl
    rw [hchild, jsReasonForRule, htext]
    simp only [hread.kind, text_kind]

/-! ## Rules, in order -/

section Rules

variable (env : Env) (js : JsEnv S) (ctx : List (S × Doc S)) (t : RulesTree S)
  (compiled : JsCompiled S) (version : Int)

/-- What Go decides, from some rule on. -/
def goRules (rs : List (Rule S)) : Decision :=
  evaluateRules env ⟨.json, t.text, []⟩ (goContext ctx) (value (t.default.getD .null).text)
    version (rs.map Rule.text)

/-- What JavaScript decides. -/
def jsRules (rs : List (Rule S)) : JsDecision S :=
  jsEvaluateRules env js compiled (jsContext ctx) version (rs.map fun r => readRule (encodeRule r))

/-- The value that is served where the rule is the last one looked at. -/
def served (r : Rule S) : Doc S :=
  if goVerdict env ctx r.when = some true ∧
      valueMatchesType (value (r.value.getD .null).text) t.valueType then r.value.getD .null
  else t.default.getD .null

/-- **Rules are in step**: the first is and, if it does not match, the others are; and what is
    served is without unpaired surrogates.  Or the one evaluator stops at the first rule and the
    other, further on, with the same decision. -/
def inStepRules : List (Rule S) → Prop
  | [] => (parseDoc (t.default.getD .null)).Textual
  | r :: rs =>
    (inStepPtr env js compiled.celPrograms ctx r.when ∧
      if goVerdict env ctx r.when = some false then inStepRules rs
      else (parseDoc (served env ctx t r)).Textual) ∨
    (goVerdict env ctx r.when = some false ∧
      jsVerdict env js compiled.celPrograms ctx r.when ≠ some false ∧
      (jsRules env js ctx compiled version (r :: rs)).Same (goRules env ctx t version rs)) ∨
    (jsVerdict env js compiled.celPrograms ctx r.when = some false ∧
      goVerdict env ctx r.when ≠ some false ∧
      (jsRules env js ctx compiled version rs).Same (goRules env ctx t version (r :: rs)))

variable {env js ctx t compiled version} {r : Rule S} {rs : List (Rule S)}

/-! ### Where a search goes on, and where it stops -/

omit [DecidableEq S] in
theorem goRules_next (h : goVerdict env ctx r.when = some false) :
    goRules env ctx t version (r :: rs) = goRules env ctx t version rs := by
  unfold goVerdict at h
  rw [goRules, map_cons, evaluateRules, Rule.text]
  generalize matchPtr env [] (goContext ctx) (textPtr r.when) = m at h ⊢
  rcases m with ⟨_ | _, _ | e⟩
  · rfl
  · cases h
  · cases h
  · cases h

theorem jsRules_next (h : jsVerdict env js compiled.celPrograms ctx r.when = some false) :
    jsRules env js ctx compiled version (r :: rs) = jsRules env js ctx compiled version rs := by
  unfold jsVerdict at h
  rw [jsRules, map_cons, jsEvaluateRules, readRule_encodeRule]
  generalize jsMatchPtr (jsLeaf env js compiled.celPrograms (jsContext ctx)) (readChild r.when) = m
    at h ⊢
  rcases m with e | _ | _
  · cases h
  · rfl
  · cases h

/-- The rule where the search of Go stops. -/
def goStop (env : Env) (t : RulesTree S) (version : Int) (r : Rule S) :
    Option Bool → Decision
  | some true => ruleDecision env t.valueType (value (t.default.getD .null).text) version r.text
  | _ => { value := value (t.default.getD .null).text, reason := .error, ruleId := r.id, version }

/-- The rule where the search of JavaScript stops. -/
def jsStop (t : RulesTree S) (version : Int) (r : Rule S) : Option Bool → JsDecision S
  | some true =>
    if valueMatchesType (value (r.value.getD .null).text) t.valueType then
      { value := some (parseDoc (r.value.getD .null)), reason := reasonForRule r.text,
        ruleId := some (ofText r.id), version }
    else { value := some (parseDoc (t.default.getD .null)), reason := .typeMismatch,
           ruleId := some (ofText r.id), version }
  | _ => { value := some (parseDoc (t.default.getD .null)), reason := .error,
           ruleId := some (ofText r.id), version }

omit [DecidableEq S] in
theorem goRules_stop (h : goVerdict env ctx r.when ≠ some false) :
    goRules env ctx t version (r :: rs) =
      goStop env t version r (goVerdict env ctx r.when) := by
  unfold goVerdict at h ⊢
  rw [goRules, map_cons, evaluateRules, Rule.text]
  generalize matchPtr env [] (goContext ctx) (textPtr r.when) = m at h ⊢
  rcases m with ⟨_ | _, _ | e⟩
  · exact absurd rfl h
  · rfl
  · rfl
  · rfl

theorem jsRules_stop (hir : compiled.ir = readTree (encodeTree t))
    (h : jsVerdict env js compiled.celPrograms ctx r.when ≠ some false) :
    jsRules env js ctx compiled version (r :: rs) =
      jsStop t version r (jsVerdict env js compiled.celPrograms ctx r.when) := by
  unfold jsVerdict at h ⊢
  rw [jsRules, map_cons, jsEvaluateRules, readRule_encodeRule, hir, readTree_encodeTree]
  generalize jsMatchPtr (jsLeaf env js compiled.celPrograms (jsContext ctx)) (readChild r.when) = m
    at h ⊢
  rcases m with e | _ | _
  · rfl
  · exact absurd rfl h
  · rw [jsValueMatchesType_eq, jsReasonForRule_eq]
    rfl

/-- At one rule the decisions are one, if what is served is the same. -/
theorem stop_same_iff (hvalue : ∀ d, r.value.map Json.text = some d → inRange d = true)
    (h : goVerdict env ctx r.when ≠ some false) :
    (jsStop t version r (goVerdict env ctx r.when)).Same
        (goStop env t version r (goVerdict env ctx r.when)) ↔
      (parseDoc (served env ctx t r)).Textual := by
  unfold served
  rcases hgo : goVerdict env ctx r.when with _ | _ | _
  · rw [if_neg (by simp), ← shows_parse]
    exact and_iff_left ⟨rfl, rfl, rfl⟩
  · exact absurd hgo h
  · rw [jsStop, goStop, ruleDecision, servedValue, Rule.text, decodeValue_inRange hvalue]
    by_cases hfits : valueMatchesType (value (r.value.getD .null).text) t.valueType = true
    · rw [if_pos hfits, if_pos ⟨rfl, hfits⟩, ← shows_parse]
      simp only [if_pos hfits]
      exact and_iff_left ⟨rfl, rfl, rfl⟩
    · rw [if_neg hfits, if_neg (fun h => hfits h.2), ← shows_parse]
      simp only [if_neg hfits]
      exact and_iff_left ⟨rfl, rfl, rfl⟩

/-- Stopped at one rule for different reasons, they do not decide alike. -/
theorem stop_not_same {g j : Option Bool} (hg : g ≠ some false) (hj : j ≠ some false) (hne : j ≠ g) :
    ¬ (jsStop t version r j).Same (goStop env t version r g) := by
  have hmatched : (jsStop t version r (some true)).reason ≠ .error := by
    rw [jsStop]
    split
    · exact (reasonForRule_ne r.text).2.2
    · exact nofun
  rintro ⟨-, hreason, -⟩
  rcases g with _ | _ | _ <;> rcases j with _ | _ | _
  · exact hne rfl
  · exact hj rfl
  · exact hmatched hreason
  · exact hg rfl
  · exact hg rfl
  · exact hg rfl
  · exact (ruleDecision_reason _ _ _ _ _).2 hreason.symm
  · exact hj rfl
  · exact hne rfl

/-- **The decisions are one iff the rules are in step.**  Induction on the rules; one step is a rule
    that both pass by, where both stop, or where only one stops. -/
theorem rules_agree_iff (hir : compiled.ir = readTree (encodeTree t)) : ∀ {rs : List (Rule S)},
    (∀ r ∈ rs, (∀ d, r.value.map Json.text = some d → inRange d = true) ∧
      (jsVerdict env js compiled.celPrograms ctx r.when = goVerdict env ctx r.when ↔
        inStepPtr env js compiled.celPrograms ctx r.when)) →
    ((jsRules env js ctx compiled version rs).Same (goRules env ctx t version rs) ↔
      inStepRules env js ctx t compiled version rs)
  | [], _ => by
    rw [jsRules, goRules, map_nil, map_nil, jsEvaluateRules, evaluateRules, hir,
      readTree_encodeTree, inStepRules, ← shows_parse]
    exact and_iff_left ⟨rfl, rfl, rfl⟩
  | r :: rs, h => by
    obtain ⟨⟨hvalue, hmatch⟩, hrs⟩ := forall_mem_cons.mp h
    have ih := rules_agree_iff hir hrs
    rw [inStepRules, ← hmatch]
    by_cases hgo : goVerdict env ctx r.when = some false <;>
      by_cases hjs : jsVerdict env js compiled.celPrograms ctx r.when = some false
    · rw [goRules_next hgo, jsRules_next hjs, ih]
      simp [hgo, hjs]
    · rw [goRules_next hgo]
      simp [hgo, hjs]
    · rw [jsRules_next hjs]
      simp [hgo, hjs, Ne.symm hgo]
    · rw [goRules_stop hgo, jsRules_stop hir hjs]
      by_cases hsame : jsVerdict env js compiled.celPrograms ctx r.when = goVerdict env ctx r.when
      · rw [hsame, stop_same_iff hvalue hgo]
        simp [hgo]
      · simp [hsame, hgo, hjs, stop_not_same hgo hjs hsame]

end Rules

/-! ## The CEL sources of a tree -/

mutual

/-- The CEL sources below a node, in the order in which `walkAndCompileCEL` meets them. -/
def jsSources : JsPredicate S → List S
  | { kind, of, ofOne, source, .. } =>
    (if kind = .known .cel then source.toList else []) ++ (jsSourcesOf of ++ jsSourcesPtr ofOne)
  termination_by structural p => p

/-- `jsSources` of an element. -/
def jsSourcesPtr : Option (JsPredicate S) → List S
  | none => []
  | some p => jsSources p
  termination_by structural o => o

/-- `jsSources` of `of`. -/
def jsSourcesOf : Option (List (Option (JsPredicate S))) → List S
  | none => []
  | some cs => jsSourcesList cs
  termination_by structural o => o

/-- `jsSources` of a list. -/
def jsSourcesList : List (Option (JsPredicate S)) → List S
  | [] => []
  | c :: cs => jsSourcesPtr c ++ jsSourcesList cs
  termination_by structural cs => cs

end

section Sources

variable {js : JsEnv S}

theorem walkSource_eq (kind : Named PredicateKind) (source : Option S) (out : JsPrograms S) :
    walkSource js out kind source =
      addAll js.compileCEL out (if kind = .known .cel then source.toList else []) := by
  rcases source with _ | src
  · show _ = addAll _ _ (ite _ [] [])
    rw [ite_self]
    rfl
  · by_cases hkind : kind = .known .cel
    · show _ = addAll js.compileCEL out (ite _ [src] [])
      rw [if_pos hkind]
      show _ = (add js.compileCEL out src >>= pure)
      rw [bind_pure, add, walkSource]
      rcases hsrc : out.lookup src with _ | prog
      · rw [if_pos ⟨hkind, rfl⟩]
      · rw [if_neg (fun h => nomatch h.2)]
    · rw [walkSource, if_neg (fun h => hkind h.1), if_neg hkind]
      rfl

mutual

/-- `walkAndCompileCEL` compiles the sources it meets, each once. -/
theorem walkCELNode_eq : ∀ (p : JsPredicate S) (out : JsPrograms S),
    walkCELNode js out p = addAll js.compileCEL out (jsSources p)
  | { kind, of, ofOne, source, .. }, out => by
    rw [walkCELNode, jsSources, addAll_append, walkSource_eq]
    refine congrArg _ (funext fun out => ?_)
    rw [addAll_append, walkCELOf_eq of]
    exact congrArg _ (funext fun out => walkCELPtr_eq ofOne out)
  termination_by structural p => p

theorem walkCELPtr_eq : ∀ (o : Option (JsPredicate S)) (out : JsPrograms S),
    walkCELPtr js out o = addAll js.compileCEL out (jsSourcesPtr o)
  | none, out => by
    rw [walkCELPtr, jsSourcesPtr]
    rfl
  | some p, out => by
    rw [walkCELPtr, jsSourcesPtr]
    exact walkCELNode_eq p out
  termination_by structural o => o

theorem walkCELOf_eq : ∀ (o : Option (List (Option (JsPredicate S)))) (out : JsPrograms S),
    walkCELOf js out o = addAll js.compileCEL out (jsSourcesOf o)
  | none, out => by
    rw [walkCELOf, jsSourcesOf]
    rfl
  | some cs, out => by
    rw [walkCELOf, jsSourcesOf]
    exact walkCELList_eq cs out
  termination_by structural o => o

theorem walkCELList_eq : ∀ (cs : List (Option (JsPredicate S))) (out : JsPrograms S),
    walkCELList js out cs = addAll js.compileCEL out (jsSourcesList cs)
  | [], out => by
    rw [walkCELList, jsSourcesList]
    rfl
  | c :: cs, out => by
    rw [walkCELList, jsSourcesList, addAll_append, walkCELPtr_eq c out]
    exact congrArg _ (funext fun out => walkCELList_eq cs out)
  termination_by structural cs => cs

end

/-- JavaScript can compile every CEL source that stands below the predicate. -/
def JsCompiles (js : JsEnv S) (p : Predicate S) : Prop :=
  ∀ s ∈ jsSourcesPtr (readChild (some p)), ∃ prog, js.compileCEL s = .ok prog

/-- What `compile` returns, and when. -/
theorem jsCompile_eq_ok {t : RulesTree S} {compiled : JsCompiled S} :
    jsCompile js (readTree (encodeTree t)) = .ok compiled ↔
      ∃ rs, t.rules = some rs ∧ ∃ programs,
        addAll js.compileCEL [] (rs.flatMap fun r => jsSourcesPtr (readChild r.when)) =
          .ok programs ∧
        compiled = ⟨readTree (encodeTree t), rs.map fun r => readRule (encodeRule r), programs⟩ := by
  have hlist : ∀ rs : List (Rule S),
      jsSourcesList ((rs.map fun r => readRule (encodeRule r)).map (·.when)) =
        rs.flatMap fun r => jsSourcesPtr (readChild r.when) := by
    intro rs
    induction rs with
    | nil => simp [jsSourcesList]
    | cons r rs ih => rw [map_cons, map_cons, jsSourcesList, ih, flatMap_cons,
        readRule_encodeRule]
  rw [jsCompile, readTree_encodeTree]
  rcases t.rules with _ | rs
  · exact ⟨fun h => (nomatch h), fun ⟨_, h, _⟩ => (nomatch h)⟩
  · show (walkCELList js [] _).map _ = _ ↔ _
    rw [map_eq_ok, walkCELList_eq, hlist]
    constructor
    · rintro ⟨programs, hprograms, rfl⟩
      exact ⟨rs, rfl, programs, hprograms, rfl⟩
    · rintro ⟨_, hrs, programs, hprograms, rfl⟩
      injection hrs with hrs
      subst hrs
      exact ⟨programs, hprograms, rfl⟩

end Sources

/-! ## The same decision -/

/-- The two evaluators decide alike on the context. -/
def DecideAlike (env : Env) (js : JsEnv S) (c : Compiled) (compiled : JsCompiled S)
    (ctx : List (S × Doc S)) (version : Int) : Prop :=
  ∃ d, evaluate env c (goContext ctx) version = .ok d ∧
    (jsEvaluate env js compiled (jsContext ctx) version).Same d

theorem decideAlike_iff {env : Env} {js : JsEnv S} {t : RulesTree S} {compiled : JsCompiled S}
    {ctx : List (S × Doc S)} {version : Int} (hvalid : ValidTree env false t.text)
    (hraws : t.text.Raws (inRange · = true))
    (hjs : jsCompile js (readTree (encodeTree t)) = .ok compiled) :
    DecideAlike env js ⟨.json, t.text, []⟩ compiled ctx version ↔
      inStepRules env js ctx t compiled version t.ruleList := by
  obtain ⟨rs, hrs, programs, hprograms, rfl⟩ := jsCompile_eq_ok.mp hjs
  have hlist : t.ruleList = rs := by rw [RulesTree.ruleList, hrs]; rfl
  have htext : t.text.ruleList = rs.map Rule.text := by
    rw [RulesTree.ruleList, RulesTree.text, hrs]
    rfl
  have hevaluate : evaluate env ⟨.json, t.text, []⟩ (goContext ctx) version =
      .ok (goRules env ctx t version rs) := by
    rw [evaluate, RulesTree.text, decodeValue_inRange hraws.default]
    exact congrArg Except.ok (congrArg (evaluateRules _ _ _ _ _) htext)
  rw [DecideAlike, hevaluate, hlist, ← rules_agree_iff rfl]
  · constructor
    · rintro ⟨_, hd, hsame⟩
      cases hd
      exact hsame
    · exact fun h => ⟨_, rfl, h⟩
  · intro r hr
    have hr' : r.text ∈ t.text.ruleList := htext ▸ mem_map_of_mem hr
    obtain ⟨-, -, p, hp, hpvalid⟩ := hvalid.rules r.text hr'
    refine ⟨hraws.value r.text hr', ?_⟩
    rcases hwhen : r.when with _ | p'
    · rw [Rule.text, hwhen] at hp
      cases hp
    · have hp' : p'.text = p := by
        rw [Rule.text, hwhen] at hp
        exact some.inj hp
      subst hp'
      rw [inStepPtr]
      exact verdicts_agree_iff p' hpvalid (hraws.when r.text hr' _ hp)

end Parity

/-- A JavaScript runtime without CEL. -/
def JsEnv.bare {S : Type} [Strings S] (code : Code ℚ S) : JsEnv S where
  code
  compileCEL _ := .error "unsupported"
  test re s := re (Strings.text s)
  test_ofText re s := by rw [text_ofText]

/-- `JsEnv.bare` with texts for strings, -/
abbrev JsEnv.plain : JsEnv := .bare (goChars.code unaryNum)

/-- and with code units. -/
abbrev JsEnv.units : JsEnv (List UInt16) := .bare (Utf16.code unaryNum)

/-- Rules, written in JavaScript. -/
def rulesFlag (rules : List (Rule (List UInt16))) : RulesTree (List UInt16) where
  valueType := .known .boolean
  default := some (.bool false)
  rules := some rules

/-- A rule that always matches, and one behind it with a segment. -/
def maskedFlag : RulesTree (List UInt16) :=
  rulesFlag [{ id := "all", when := some { kind := .known .always }, value := some (.bool true) },
    { id := "beta", when := some { kind := .known .segment, segmentKey := "beta" },
      value := some (.bool true) }]

/-- A `null` prefix. -/
def nullPrefixFlag : RulesTree (List UInt16) :=
  rulesFlag [{ id := "only",
               when := some { kind := .known .startsWith, attr := "plan", value := some .null },
               value := some (.bool true) }]

end FalseFlag
