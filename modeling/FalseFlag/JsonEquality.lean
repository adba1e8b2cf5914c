/-
  What `eq`, `neq` and `in` compare with: the three copies of `jsonEqual` (internal/eval/predicates.go,
  sdk-js/src/evaluator.ts, sdk-js/src/cel-lite.ts).

  All three compare TEXTS.  Go's encoder writes the members of a map in increasing order, so equal
  maps have equal texts; `JSON.stringify` writes them as they stand in the object.
  * `jsonEqual_iff_same` — Go: true iff the two are the same JSON value (`Json.Same`);
  * **`jsonEqual_decides`** — the Go results together;
  * **`js_jsonEqual_iff`** — JavaScript: right, in both copies, iff values that are the same list
    their names in the same order, throughout.
-/
import FalseFlag.CelLite
import FalseFlag.Lib.JsonSame

namespace FalseFlag

open JsonTree Json Ecma Relators Strings Doc
open List hiding replace

/-! ## Go -/

section Go

variable {env : Env} {programs : Programs} {ctx : Context} {p : Predicate}

/-- **Comparing texts decides whether two decoded values are the same.** -/
theorem jsonEqual_iff_same (fmt : NumCode Rat) (d e : Doc) :
    jsonEqual fmt (value d) (value e) = true ↔ Same (value d) (value e) := by
  unfold value
  rw [jsonEqual_iff, same_iff_norm (noDup_norm _ d) (noDup_norm _ e), norm_norm, norm_norm]

theorem jsonEqual_equivalence (fmt : NumCode Rat) :
    Equivalence fun a b : Value => jsonEqual fmt a b = true := by
  simp only [jsonEqual_iff]
  exact eq_equivalence

/-- `eq` on an attribute that is there. -/
theorem match_eq {v : Value} {d : Doc} (hv : lookup ctx p.attr = some v) (hd : inRange d = true) :
    matchLeaf env programs ctx { p with kind := .known .eq, value := some d } =
      .result (jsonEqual env.fmt v (value d)) := by
  show cmpEq env { p with kind := .known .eq, value := some d } ctx = _
  unfold cmpEq
  rw [hv]
  simp only [unmarshalRaw_inRange hd]

/-- `eq` on an attribute that is not there. -/
theorem match_eq_missing (hv : lookup ctx p.attr = none) (o : Option Doc) :
    matchLeaf env programs ctx { p with kind := .known .eq, value := o } = .result false := by
  show cmpEq env { p with kind := .known .eq, value := o } ctx = _
  unfold cmpEq
  rw [hv]

/-- `neq` is `eq`, negated, with its errors. -/
theorem match_neq : matchLeaf env programs ctx { p with kind := .known .neq } =
    (matchLeaf env programs ctx { p with kind := .known .eq }).not := rfl

/-- `in` matches iff `eq` would match with one of the listed values. -/
theorem match_isIn (h : ∀ d ∈ p.values, inRange d = true) :
    (matchLeaf env programs ctx { p with kind := .known .isIn }).toExcept = .ok true ↔
      ∃ d ∈ p.values, (matchLeaf env programs ctx
        { p with kind := .known .eq, value := some d }).toExcept = .ok true := by
  have hin : matchLeaf env programs ctx { p with kind := .known .isIn } = cmpIn env p ctx := rfl
  rw [hin, cmpIn]
  rcases hv : lookup ctx p.attr with _ | v
  · constructor
    · intro hfalse
      cases hfalse
    · rintro ⟨d, -, hd⟩
      rw [match_eq_missing hv] at hd
      cases hd
  · show (cmpInValues env v p.values).toExcept = .ok true ↔ _
    have htrue : ∀ b : Bool, (Outcome.result b).toExcept = .ok true ↔ b = true := by decide
    rw [cmpInValues_any h, htrue, any_eq_true]
    constructor
    · rintro ⟨d, hd, heq⟩
      exact ⟨d, hd, by rw [match_eq hv (h d hd), htrue, heq]⟩
    · rintro ⟨d, hd, heq⟩
      rw [match_eq hv (h d hd), htrue] at heq
      exact ⟨d, hd, heq⟩

/-- **Go decides sameness of JSON values**, and so `eq`, `neq` and `in` mean what they say: `eq`
    compares a present attribute with the value of the rule, `neq` is its complement, and `in` is
    `eq` with some listed value. -/
theorem jsonEqual_decides (env : Env) :
    (∀ d e : Doc, jsonEqual env.fmt (value d) (value e) = true ↔
      Same (value d) (value e)) ∧
    Equivalence (fun a b : Value => jsonEqual env.fmt a b = true) ∧
    ∀ (programs : Programs) (ctx : Context) (p : Predicate),
      (∀ v d, lookup ctx p.attr = some v → inRange d = true →
        matchLeaf env programs ctx { p with kind := .known .eq, value := some d } =
          .result (jsonEqual env.fmt v (value d))) ∧
      (matchLeaf env programs ctx { p with kind := .known .neq }).toExcept =
        (matchLeaf env programs ctx { p with kind := .known .eq }).toExcept.map (!·) ∧
      ((∀ d ∈ p.values, inRange d = true) →
        ((matchLeaf env programs ctx { p with kind := .known .isIn }).toExcept = .ok true ↔
          ∃ d ∈ p.values, (matchLeaf env programs ctx
            { p with kind := .known .eq, value := some d }).toExcept = .ok true)) := by
  refine ⟨jsonEqual_iff_same env.fmt, jsonEqual_equivalence env.fmt, fun programs ctx p => ?_⟩
  refine ⟨fun v d hv hd => match_eq hv hd, ?_, match_isIn⟩
  rw [match_neq]
  obtain ⟨ok, err⟩ := matchLeaf env programs ctx { p with kind := .known .eq }
  cases err <;> rfl

/-- `in` finds the second of two plans. -/
theorem isIn_second :
    (matchLeaf Env.plain [] [("plan", .str "pro")]
      { kind := .known .isIn, attr := "plan", values := [.str "free", .str "pro"] }).toExcept =
      .ok true := by
  obtain ⟨-, -, hin⟩ := (jsonEqual_decides Env.plain).2.2 [] [("plan", .str "pro")]
    { attr := "plan", values := [.str "free", .str "pro"] }
  exact (hin (by decide)).mpr ⟨.str "pro", by decide, rfl⟩

end Go

/-! ## JavaScript -/

/-- Arrays and objects. -/
def IsContainer {N S : Type} : Json N S → Prop
  | .arr _ | .obj _ => True
  | _ => False

section JavaScript

variable {N S : Type} [Numbers N]

/-- No number is written like an array or an object. -/
theorem written_ne_num {a : Json N S} (ha : IsContainer a) (n : N) :
    written a ≠ written (.num n) := by
  show written a ≠ numberJson n
  unfold numberJson
  cases a with
  | arr _ => split <;> simp [replace]
  | obj _ => split <;> simp [replace]
  | null | bool _ | num _ | str _ => exact absurd ha id

/-- What is written alike lists its names in the same order. -/
theorem sameOrder_of_written (a : Json N S) : ∀ {b : Json N S}, written a = written b →
    SameOrder a b := by
  induction a with
  | null => exact fun _ => .null _
  | bool x => exact fun _ => .bool x _
  | num n => exact fun _ => .num n _
  | str s => exact fun _ => .str s _
  | arr xs ih =>
    intro b h
    cases b with
    | arr ys =>
      rw [written, replace, replaceItems_eq_map, replace, replaceItems_eq_map, Json.arr.injEq,
        ← forall₂_eq_eq_eq, forall₂_map_left_iff, forall₂_map_right_iff] at h
      exact .arr (forall₂_imp (fun x hx y h => ih x hx h) h)
    | num n => exact absurd h (written_ne_num (a := .arr xs) trivial n)
    | null | bool _ | str _ | obj _ => cases h
  | obj ms ih =>
    intro b h
    cases b with
    | obj ns =>
      rw [written, replace, replaceMembers_eq_map, replace, replaceMembers_eq_map, Json.obj.injEq,
        ← forall₂_eq_eq_eq, forall₂_map_left_iff, forall₂_map_right_iff] at h
      have hnames : ms.map Prod.fst = ns.map Prod.fst := by
        rw [← forall₂_eq_eq_eq, forall₂_map_left_iff, forall₂_map_right_iff]
        exact h.imp fun _ _ h => (Prod.ext_iff.mp h).1
      refine .obj hnames ?_
      rw [forall₂_map_left_iff, forall₂_map_right_iff]
      exact forall₂_imp (fun m hm n h => ih m hm (Prod.ext_iff.mp h).2) h
    | num n => exact absurd h (written_ne_num (a := .obj ms) trivial n)
    | null | bool _ | str _ | arr _ => cases h

/-- What `jsonEqual` says of arrays and objects, -/
theorem writtenAlike_container {a b : Json N S} (ha : IsContainer a) :
    WrittenAlike a b ↔ written a = written b := by
  cases a with
  | arr xs =>
    cases b with
    | arr ys => exact Iff.rfl
    | num n => exact iff_of_false id (written_ne_num (a := .arr xs) trivial n)
    | null | bool _ | str _ | obj _ => exact iff_of_false id (by simp [replace])
  | obj ms =>
    cases b with
    | obj ns => exact Iff.rfl
    | num n => exact iff_of_false id (written_ne_num (a := .obj ms) trivial n)
    | null | bool _ | str _ | arr _ => exact iff_of_false id (by simp [replace])
  | null | bool _ | num _ | str _ => exact absurd ha id

/-- and of all else. -/
theorem writtenAlike_scalar {a b : Json Number S} (ha : ¬ IsContainer a) (hnan : a ≠ .num .nan) :
    WrittenAlike a b ↔ a = b := by
  cases a with
  | arr xs => exact absurd trivial ha
  | obj ms => exact absurd trivial ha
  | num n =>
    have hn : n ≠ .nan := fun hn => hnan (hn ▸ rfl)
    cases b <;> simp [WrittenAlike, Numbers.same, hn]
  | null | bool _ | str _ => cases b <;> simp [WrittenAlike]

theorem parseJson_ne_nan [Strings S] [DecidableEq S] (d : Doc S) : parseJson d ≠ .num .nan := by
  cases d with
  | num n =>
    intro h
    have hn : JNum.number n = .nan := Json.num.inj h
    unfold JNum.number at hn
    split at hn <;> cases hn
  | null | bool _ | str _ | arr _ | obj _ => exact fun h => by cases h

end JavaScript

/-- **Both copies of `jsonEqual` are right** on two parsed values iff, where these are the same, they
    list their names in the same order; and where they are arrays or objects and differ, they do not
    differ only in infinite numbers and `null`s, which are all written `null`. -/
theorem js_jsonEqual_iff (code : Code ℚ (List UInt16)) (d e : Doc (List UInt16)) :
    ((jsJsonEqual code (.data (parseJson d)) (.data (parseJson e)) = true ↔
        Same (parseJson d) (parseJson e)) ∧
      (CelLite.jsonEqual code (.data (parseJson d)) (.data (parseJson e)) = true ↔
        Same (parseJson d) (parseJson e))) ↔
    (Same (parseJson d) (parseJson e) → SameOrder (parseJson d) (parseJson e)) ∧
      (IsContainer (parseJson d) → written (parseJson d) = written (parseJson e) →
        Same (parseJson d) (parseJson e)) := by
  have hd := noDup_parse JNum.number d
  have he := noDup_parse JNum.number e
  have hcopy : ∀ x y, CelLite.jsonEqual code x y = jsJsonEqual code x y := fun _ _ => rfl
  rw [hcopy, and_self, jsJsonEqual_plain code rfl rfl]
  by_cases hcontainer : IsContainer (parseJson d)
  · rw [writtenAlike_container hcontainer]
    constructor
    · exact fun h => ⟨fun hsame => sameOrder_of_written _ (h.mpr hsame), fun _ => h.mp⟩
    · rintro ⟨horder, hsame⟩
      exact ⟨hsame hcontainer, fun h => congrArg written ((h.eq_iff hd he).mpr (horder h))⟩
  · rw [writtenAlike_scalar hcontainer (parseJson_ne_nan d)]
    constructor
    · exact fun h => ⟨fun hsame => (hsame.eq_iff hd he).mp (h.mpr hsame), fun h => absurd h hcontainer⟩
    · rintro ⟨horder, -⟩
      exact ⟨fun h => h ▸ same_refl _, fun h => (h.eq_iff hd he).mpr (horder h)⟩

/-- `{"a": true, "b": false}`. -/
def abDoc : Doc (List UInt16) :=
  .obj [(ofText "a", .bool true), (ofText "b", .bool false)]

/-- `{"b": false, "a": true}`. -/
def baDoc : Doc (List UInt16) :=
  .obj [(ofText "b", .bool false), (ofText "a", .bool true)]

/-- `[1e400]`. -/
def infinityDoc : Doc (List UInt16) := .arr [.num (.int (10 ^ 400))]

/-- `[null]`. -/
def nullDoc : Doc (List UInt16) := .arr [.null]

/-- The same members in another order are not equal; `[1e400]` and `[null]` are. -/
theorem key_order_matters :
    (Same (parseJson abDoc) (parseJson baDoc) ∧
      jsJsonEqual (Utf16.code unaryNum) (.data (parseJson abDoc)) (.data (parseJson baDoc)) = false) ∧
    ¬ Same (parseJson infinityDoc) (parseJson nullDoc) ∧
      jsJsonEqual (Utf16.code unaryNum) (.data (parseJson infinityDoc)) (.data (parseJson nullDoc)) =
        true := by
  have hinfinite : parseJson infinityDoc = .arr [.num (.infinity false)] := by decide +kernel
  have hab : parseJson abDoc =
      .obj [(ofText "a", .bool true), (ofText "b", .bool false)] := rfl
  have hba : parseJson baDoc =
      .obj [(ofText "b", .bool false), (ofText "a", .bool true)] := rfl
  refine ⟨⟨?_, ?_⟩, ?_, ?_⟩
  · rw [hab, hba]
    exact same_of_perm (.swap _ _ []) (by decide +kernel)
  · rw [Bool.eq_false_iff, Ne, jsJsonEqual_plain _ rfl rfl]
    show written (parseJson abDoc) ≠ written (parseJson baDoc)
    decide +kernel
  · rw [hinfinite]
    rintro (_ | _ | _ | _ | h)
    cases h with
    | cons h _ => cases h
  · rw [hinfinite, jsJsonEqual_plain _ rfl rfl]
    rfl

end FalseFlag
