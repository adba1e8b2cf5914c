/-
  cel-lite, the CEL evaluator of the JavaScript SDK (js/packages/sdk-js/src/cel-lite.ts), against
  CEL itself as the Go evaluator runs it (internal/config/cel.go).

  cel-lite evaluates the tree that its parser made (`Ast`), whose numbers went through `Number`; CEL
  evaluates the expression, whose integers are exact (`Cel.Expr`, and `Expr.ast` for its tree).
  cel-lite never throws, so it parts from CEL wherever CEL fails; and it has its own idea of equality
  and of order.  Where that matters is found by following the evaluation (`InOrder`): the side that
  decides `&&` or `||` excuses the other, and at a comparison the operands are looked at (`Compares`).

  * **`celLite_agrees_iff`** — cel-lite agrees with CEL on a condition and a context, exactly if the
    condition is in order there.
-/
import FalseFlag.CelLite.ParserCorrect
import FalseFlag.JsEvaluator
import FalseFlag.Lib.Cel
import FalseFlag.Lib.Utf16

namespace FalseFlag.CelLite

open JsonTree Json Ecma Cel Option
open Strings (ofText)

/-! ## The evaluator -/

/-- A JavaScript value. -/
abbrev JsValue := Ecma.Value Ecma.Number JsString

/-- The number of a literal. -/
def Number.js : Number → Ecma.Number
  | .nan => .nan
  | .infinity => .infinity false
  | .finite q => .finite q

/-- `value` of a literal. -/
def Const.value : Const → Json Ecma.Number JsString
  | .string value => .str value
  | .number value => .num value.js
  | .bool value => .bool value
  | .null => .null

/-- `lookupPath`. -/
def lookupPath (cur : JsValue) : List JsString → JsValue
  | [] => cur
  | p :: parts =>
    if cur.isNull ∨ cur.typeOf ≠ .object then .undefined
    else lookupPath (getProperty cur p) parts

/-- `truthy`: `v === true`. -/
def truthy (v : JsValue) : Bool := strictEq v (.data (.bool true))

/-- `num`. -/
def num : JsValue → Ecma.Number
  | .data (.num n) => n
  | _ => .nan

/-- `num(l) < num(r)` and its like; nothing holds of `NaN`. -/
def compareNum (op : BinOp) (l r : JsValue) : Bool := ((num l).cmp (num r)).any op.holds

/-- `jsonEqual`, as in evaluator.ts. -/
def jsonEqual (code : Code ℚ JsString) (a b : JsValue) : Bool := jsJsonEqual code a b

/-- The inner `switch` over the operators that evaluate both sides. -/
def evalStrict (code : Code ℚ JsString) (op : BinOp) (l r : JsValue) : Bool :=
  match op with
  | .eq => jsonEqual code l r
  | .ne => !jsonEqual code l r
  | .isIn => r.isArray && r.items.any fun item => jsonEqual code item l
  | op => compareNum op l r

mutual

/-- `evalNode`. -/
def evalNode (code : Code ℚ JsString) (env : JsValue) : Ast → JsValue
  | .literal value => .data value.value
  | .path parts => lookupPath env parts
  | .list items => .list (evalNodes code env items)
  | .unary operand => .data (.bool (!truthy (evalNode code env operand)))
  | .binary op left right =>
    match op with
    | .and =>
      .data (.bool (if !truthy (evalNode code env left) then false
        else truthy (evalNode code env right)))
    | .or =>
      .data (.bool (if truthy (evalNode code env left) then true
        else truthy (evalNode code env right)))
    | op => .data (.bool (evalStrict code op (evalNode code env left) (evalNode code env right)))
  termination_by structural node => node

/-- `node.items.map((n) => evalNode(n, env))`. -/
def evalNodes (code : Code ℚ JsString) (env : JsValue) : List Ast → List JsValue
  | [] => []
  | n :: ns => evalNode code env n :: evalNodes code env ns
  termination_by structural ns => ns

end

/-- The object `{ ctx }`. -/
def root (ctx : Json Ecma.Number JsString) : JsValue := .data (.obj [(ofText "ctx", ctx)])

/-- `evalCEL`. -/
def evalCEL (code : Code ℚ JsString) (ast : Ast) (ctx : Json Ecma.Number JsString) : Bool :=
  truthy (evalNode code (root ctx) ast)

/-! ## The expression and its tree -/

/-- A literal, as cel-lite reads it: a number is what `Number` makes of its digits. -/
def const : Literal → Const
  | .null => .null
  | .bool b => .bool b
  | .int n => .number (.round n)
  | .double q => .number (.round q)
  | .str s => .string (ofText s)

mutual

/-- The tree of an expression. -/
def ast : Expr → Ast
  | .literal l => .literal (const l)
  | .path parts => .path (parts.map ofText)
  | .list items => .list (asts items)
  | .not e => .unary (ast e)
  | .binary op l r => .binary op (ast l) (ast r)
  termination_by structural e => e

/-- The trees of a list. -/
def asts : List Expr → List Ast
  | [] => []
  | e :: es => ast e :: asts es
  termination_by structural es => es

end

/-! ## The Go side -/

/-- The context, in CEL: its numbers are doubles. -/
def celContext (ctx : Context) : Cel.Value := mapNum .double (.obj ctx)

/-- The program of an expression. -/
def program (m : Mixed) (e : Expr) : CELProgram := fun ctx =>
  match Cel.eval m (celContext ctx) e with
  | none => .error "no such key or overload"
  | some (.bool b) => .ok (.bool b)
  | some _ => .ok .other

/-- The context in JavaScript. -/
def jsObject (ctx : List (JsString × Doc JsString)) : Json Ecma.Number JsString :=
  parseJson (.obj ctx)

/-- cel-lite compiles the source, and gives on a context what CEL gives for the expression: the same
    boolean.  cel-lite has no other way to answer, so CEL must not fail. -/
def Agrees (m : Mixed) (code : Code ℚ JsString) (source : JsString) (e : Expr)
    (ctx : List (JsString × Doc JsString)) : Prop :=
  ∃ prog, compileCEL source = .ok prog ∧
    (FalseFlag.evalCEL (program m e) (goContext ctx)).verdict = some (evalCEL code prog (jsObject ctx))

/-! ## Where the two agree -/

/-- The operand of cel-lite is `d`, with finite numbers, and this is the operand of CEL. -/
def Shows (x : JsValue) (d : Json ℚ JsString) (a : Cel.Value) : Prop :=
  x.plain = some (d.mapNum .finite) ∧ Comes d.text a

section Conditions

variable (m : Mixed) (code : Code ℚ JsString)

/-- An operator on the same operands gives in cel-lite what it gives in CEL. -/
def StrictOk (op : BinOp) (a b : Cel.Value) (d d' : Json ℚ JsString) : Prop :=
  match op with
  -- equal objects have to be written alike
  | .eq | .ne => same m a b = true → d = d'
  -- so has the element of a list; in a map nothing may be found
  | .isIn =>
    (∃ items ds, b = .arr items ∧ d' = .arr ds ∧
      ((∃ item ∈ items, same m item a = true) → d ∈ ds)) ∨
      ∃ ms, b = .obj ms ∧ ∀ key, a = .str key → ms.lookup key = none
  -- only numbers have an order
  | op => (∃ x y, a = .num x ∧ b = .num y) ∨ op.order m a b = some false

/-- A comparison comes out alike.  Where cel-lite has other operands (an integer that no double is,
    or the result of a condition that is not in order), it has to come out alike all the same. -/
def Compares (op : BinOp) (a b : Cel.Value) (x y : JsValue) : Prop :=
  (∃ d d', Shows x d a ∧ Shows y d' b ∧ StrictOk m op a b d d') ∨
  (¬ (∃ d d', Shows x d a ∧ Shows y d' b) ∧ op.strict m a b = some (evalStrict code op x y))

/-- `&&` and `||`, where `d` decides: a side that does is in order, or the other one makes up for it
    in cel-lite; or no side decides and both are in order. -/
def Connects (d : Bool) (cl cr : Option Cel.Value) (jl jr : Bool) (left right : Prop) : Prop :=
  (cl = some (.bool d) ∧ (left ∨ jr = d)) ∨ (cr = some (.bool d) ∧ (right ∨ jl = d)) ∨
    (cl = some (.bool !d) ∧ left) ∧ cr = some (.bool !d) ∧ right

variable (ctx : List (JsString × Doc JsString))

/-- What CEL makes of an expression, -/
abbrev celValue (e : Expr) : Option Cel.Value := Cel.eval m (celContext (goContext ctx)) e

/-- and cel-lite of its tree. -/
abbrev jsValue (e : Expr) : JsValue := evalNode code (root (jsObject ctx)) (ast e)

/-- **A condition is in order on a context.** -/
def InOrder : Expr → Prop
  | .literal (.bool _) => True
  | .path parts =>
    ∃ b, celValue m ctx (.path parts) = some (.bool b) ∧ truthy (jsValue code ctx (.path parts)) = b
  | .not e => InOrder e
  | .binary .and l r =>
    Connects false (celValue m ctx l) (celValue m ctx r) (truthy (jsValue code ctx l))
      (truthy (jsValue code ctx r)) (InOrder l) (InOrder r)
  | .binary .or l r =>
    Connects true (celValue m ctx l) (celValue m ctx r) (truthy (jsValue code ctx l))
      (truthy (jsValue code ctx r)) (InOrder l) (InOrder r)
  | .binary op l r =>
    ∃ a b, celValue m ctx l = some a ∧ celValue m ctx r = some b ∧
      Compares m code op a b (jsValue code ctx l) (jsValue code ctx r)
  | _ => False
  termination_by structural e => e

/-- CEL decides, and cel-lite decides alike. -/
def Decides (e : Expr) : Prop :=
  ∃ b, celValue m ctx e = some (.bool b) ∧ truthy (jsValue code ctx e) = b

end Conditions

/-! ## One operator -/

section Operators

variable {m : Mixed} {code : Code ℚ JsString} {x y : JsValue} {a b : Cel.Value}
  {d d' : Json ℚ JsString}

theorem comes_num {c : Cel.Num} (h : Comes d.text (.num c)) : ∃ q, d = .num q ∧ c.Is q := by
  cases d with
  | num q =>
    cases h with
    | num h => exact ⟨q, rfl, h⟩
  | _ => cases h

theorem comes_arr {items : List Cel.Value} (h : Comes d.text (.arr items)) :
    ∃ ds, d = .arr ds ∧ List.Forall₂ (fun d a => Comes d.text a) ds items := by
  cases d with
  | arr ds =>
    rw [text, replace, replaceItems_eq_map] at h
    cases h with
    | arr h => exact ⟨ds, rfl, List.forall₂_map_left_iff.mp h⟩
  | _ => cases h

theorem jsonEqual_shows (hx : x.plain = some (d.mapNum .finite))
    (hy : y.plain = some (d'.mapNum .finite)) : jsonEqual code x y = decide (d = d') := by
  rw [Bool.eq_iff_iff, decide_eq_true_eq, jsonEqual, jsJsonEqual_plain code hx hy]
  exact writtenAlike_finite (fun _ => rfl) (fun p q => by simp [Numbers.same]) d d'

/-- Equality: cel-lite tells apart what CEL does not. -/
theorem same_iff (hx : Shows x d a) (hy : Shows y d' b) :
    same m a b = jsonEqual code x y ↔ (same m a b = true → d = d') := by
  rw [jsonEqual_shows hx.1 hy.1, Bool.eq_iff_iff, decide_eq_true_eq]
  refine ⟨Iff.mp, fun h => ⟨h, ?_⟩⟩
  rintro rfl
  exact same_of_carries _ hx.2 hy.2

/-- An element of a list that is written like `x`. -/
theorem any_shows (hx : x.plain = some (d.mapNum .finite)) : ∀ {ys : List JsValue}
    {ds : List (Json ℚ JsString)}, plainItems ys = some (ds.map (mapNum .finite)) →
    (ys.any fun item => jsonEqual code item x) = decide (d ∈ ds)
  | ys, [], h => by
    cases ys with
    | nil => rfl
    | cons y ys =>
      rw [plainItems] at h
      obtain ⟨v, -, h⟩ := bind_eq_some_iff.mp h
      obtain ⟨ws, -, h⟩ := map_eq_some_iff.mp h
      cases h
  | ys, e :: ds, h => by
    cases ys with
    | nil => cases h
    | cons y ys =>
      rw [plainItems] at h
      obtain ⟨v, hv, h⟩ := bind_eq_some_iff.mp h
      obtain ⟨ws, hws, h⟩ := map_eq_some_iff.mp h
      rw [List.map_cons, List.cons.injEq] at h
      obtain ⟨rfl, rfl⟩ := h
      rw [List.any_cons, any_shows hx hws, jsonEqual_shows hv hx, Bool.eq_iff_iff]
      simp only [Bool.or_eq_true, decide_eq_true_eq, List.mem_cons]
      exact or_congr_left eq_comm

theorem isIn_iff (hx : Shows x d a) (hy : Shows y d' b) :
    contains m a b = some (evalStrict code .isIn x y) ↔ StrictOk m .isIn a b d d' := by
  show contains m a b = some (y.isArray && y.items.any _) ↔ _
  have harray : (∀ items, b ≠ .arr items) → y.isArray = false := by
    intro hb
    refine isArray_of_plain hy.1 fun vs hvs => ?_
    cases d' with
    | arr ds =>
      have hcome := hy.2
      rw [text, replace] at hcome
      cases hcome with
      | arr _ => exact hb _ rfl
    | _ => cases hvs
  cases b with
  | arr items =>
    obtain ⟨ds, rfl, hds⟩ := comes_arr hy.2
    have hplain := hy.1
    rw [mapNum, replace, replaceItems_eq_map] at hplain
    obtain ⟨hisArray, hitems⟩ := plainItems_items hplain
    rw [hisArray, any_shows hx.1 hitems, Bool.true_and, contains, some_inj, Bool.eq_iff_iff,
      List.any_eq_true, decide_eq_true_eq]
    constructor
    · exact fun h => .inl ⟨items, ds, rfl, rfl, h.mp⟩
    · rintro (⟨_, _, hitems', hds', h⟩ | ⟨_, heq, -⟩)
      · cases hitems'
        cases hds'
        refine ⟨h, fun hmem => ?_⟩
        obtain ⟨item, hitem, hcome⟩ := Relators.exists_of_forall₂ hds d hmem
        exact ⟨item, hitem, same_of_carries _ hcome hx.2⟩
      · cases heq
  | obj ms =>
    rw [harray (fun _ h => by cases h), Bool.false_and]
    constructor
    · intro h
      refine .inr ⟨ms, rfl, ?_⟩
      rintro key rfl
      exact isSome_eq_false_iff.mp (some.inj h) |> isNone_iff_eq_none.mp
    · rintro (⟨_, _, heq, -⟩ | ⟨_, heq, h⟩)
      · cases heq
      · cases heq
        cases a with
        | str key =>
          rw [contains, h key rfl]
          rfl
        | _ => rfl
  | null | bool _ | num _ | str _ =>
    refine iff_of_false (by simp [contains]) ?_
    rintro (⟨_, _, heq, -⟩ | ⟨_, heq, -⟩) <;> cases heq

/-- What is no number in CEL is none in cel-lite. -/
theorem num_eq_nan (hx : Shows x d a) (ha : ∀ c, a ≠ .num c) : num x = .nan := by
  rcases plain_cases hx.1 with rfl | ⟨xs, vs, rfl, -⟩
  · cases d with
    | num q =>
      have hcome := hx.2
      cases hcome with
      | num _ => exact absurd rfl (ha _)
    | _ => rfl
  · rfl

/-- Order: cel-lite has one for numbers, and says no to everything else. -/
theorem order_iff {op : BinOp} (hx : Shows x d a) (hy : Shows y d' b) :
    op.order m a b = some (compareNum op x y) ↔
      (∃ p q, a = .num p ∧ b = .num q) ∨ op.order m a b = some false := by
  by_cases hnum : ∃ p q, a = .num p ∧ b = .num q
  · refine iff_of_true ?_ (.inl hnum)
    obtain ⟨p, q, rfl, rfl⟩ := hnum
    obtain ⟨p', rfl, hp⟩ := comes_num hx.2
    obtain ⟨q', rfl, hq⟩ := comes_num hy.2
    have hdata : ∀ {z : JsValue} {r : ℚ}, z.plain = some (.num (.finite r)) →
        z = .data (.num (.finite r)) := fun h => by
      rcases plain_cases h with rfl | ⟨_, _, _, hvs, _⟩
      · rfl
      · cases hvs
    rw [hdata hx.1, hdata hy.1, BinOp.order, m.compare_of_is hp hq]
    rfl
  · have hfalse : compareNum op x y = false := by
      by_cases ha : ∃ p, a = .num p
      · obtain ⟨p, rfl⟩ := ha
        have hy := num_eq_nan hy fun q hq => hnum ⟨p, q, rfl, hq⟩
        rw [compareNum, hy]
        cases num x <;> rfl
      · rw [compareNum, num_eq_nan hx fun p hp => ha ⟨p, hp⟩]
        rfl
    rw [hfalse, or_iff_right hnum]

theorem strict_iff {op : BinOp} (hop : op ≠ .and ∧ op ≠ .or) (hx : Shows x d a) (hy : Shows y d' b) :
    op.strict m a b = some (evalStrict code op x y) ↔ StrictOk m op a b d d' := by
  cases op with
  | eq =>
    show some _ = some (jsonEqual code x y) ↔ _
    rw [some_inj]
    exact same_iff hx hy
  | ne =>
    show some _ = some (!jsonEqual code x y) ↔ _
    rw [some_inj, Bool.not_inj_iff]
    exact same_iff hx hy
  | isIn => exact isIn_iff hx hy
  | and => exact absurd rfl hop.1
  | or => exact absurd rfl hop.2
  | lt | le | gt | ge => exact order_iff hx hy

theorem compares_iff {op : BinOp} (hop : op ≠ .and ∧ op ≠ .or) :
    op.strict m a b = some (evalStrict code op x y) ↔ Compares m code op a b x y := by
  by_cases hshows : ∃ d d', Shows x d a ∧ Shows y d' b
  · obtain ⟨d, d', hx, hy⟩ := hshows
    constructor
    · exact fun h => .inl ⟨d, d', hx, hy, (strict_iff hop hx hy).mp h⟩
    · rintro (⟨d, d', hx, hy, h⟩ | ⟨-, h⟩)
      · exact (strict_iff hop hx hy).mpr h
      · exact h
  · constructor
    · exact fun h => .inr ⟨hshows, h⟩
    · rintro (⟨d, d', hx, hy, -⟩ | ⟨-, h⟩)
      · exact absurd ⟨d, d', hx, hy⟩ hshows
      · exact h

/-- `&&` and `||`, from what is known of the sides. -/
theorem connects_iff {δ : Bool} {cl cr : Option Cel.Value} {jl jr : Bool} :
    (∃ b, absorb δ cl cr = some b ∧ (if jl = δ then δ else jr) = b) ↔
      Connects δ cl cr jl jr (∃ b, cl = some (.bool b) ∧ jl = b) (∃ b, cr = some (.bool b) ∧ jr = b) := by
  have hside : ∀ {c : Option Cel.Value} {b j : Bool}, c = some (.bool b) →
      ((∃ b, c = some (.bool b) ∧ j = b) ↔ j = b) := by
    rintro c b j rfl
    simp [eq_comm]
  constructor
  · rintro ⟨b, hb, hj⟩
    rcases absorb_eq_some.mp hb with ⟨rfl, hl | hr⟩ | ⟨rfl, hl, hr⟩
    · refine .inl ⟨hl, ?_⟩
      rw [hside hl]
      by_cases h : jl = b
      · exact .inl h
      · exact .inr ((if_neg h).symm.trans hj)
    · refine .inr (.inl ⟨hr, ?_⟩)
      rw [hside hr]
      by_cases h : jl = b
      · exact .inr h
      · exact .inl ((if_neg h).symm.trans hj)
    · have h : jl ≠ δ := by
        rintro rfl
        rw [if_pos rfl] at hj
        cases jl <;> cases hj
      rw [if_neg h] at hj
      refine .inr (.inr ⟨⟨hl, (hside hl).mpr ?_⟩, hr, (hside hr).mpr hj⟩)
      exact Bool.eq_not.mpr h
  · rintro (⟨hl, h⟩ | ⟨hr, h⟩ | ⟨⟨hl, hl'⟩, hr, hr'⟩)
    · refine ⟨δ, absorb_eq_some.mpr (.inl ⟨rfl, .inl hl⟩), ?_⟩
      rw [hside hl] at h
      rcases h with rfl | rfl
      · exact if_pos rfl
      · exact ite_self _
    · refine ⟨δ, absorb_eq_some.mpr (.inl ⟨rfl, .inr hr⟩), ?_⟩
      rw [hside hr] at h
      rcases h with rfl | rfl
      · exact ite_self _
      · exact if_pos rfl
    · refine ⟨!δ, absorb_eq_some.mpr (.inr ⟨rfl, hl, hr⟩), ?_⟩
      rw [hside hl] at hl'
      rw [hside hr] at hr'
      rw [hl', hr', if_neg (by cases δ <;> decide)]

end Operators

/-! ## Expressions -/

section Expressions

variable {m : Mixed} {code : Code ℚ JsString} {ctx : List (JsString × Doc JsString)}

theorem truthy_bool (b : Bool) : truthy (.data (.bool b)) = b := by
  cases b <;> rfl

theorem decides_not (e : Expr) : Decides m code ctx (.not e) ↔ Decides m code ctx e := by
  have hjs : truthy (jsValue code ctx (.not e)) = !truthy (jsValue code ctx e) := by
    rw [jsValue, ast, evalNode, truthy_bool]
  rw [Decides, hjs, celValue, eval]
  constructor
  · rintro ⟨b, hb, hj⟩
    obtain ⟨c, hc, hcb⟩ := map_eq_some_iff.mp hb
    obtain ⟨v, hv, hnegate⟩ := bind_eq_some_iff.mp hc
    cases v with
    | bool b' =>
      refine ⟨b', hv, ?_⟩
      cases hnegate
      cases hcb
      exact Bool.not_inj hj
    | null | num _ | str _ | arr _ | obj _ => cases hnegate
  · rintro ⟨b, hb, hj⟩
    refine ⟨!b, ?_, by rw [hj]⟩
    rw [show Cel.eval m _ e = some (.bool b) from hb]
    rfl

/-- `&&` and `||`, by the value that decides. -/
theorem decides_connective {op : BinOp} {δ : Bool} {l r : Expr}
    (hcel : op.apply m (celValue m ctx l) (celValue m ctx r) =
      absorb δ (celValue m ctx l) (celValue m ctx r))
    (hjs : jsValue code ctx (.binary op l r) = .data (.bool
      (if truthy (jsValue code ctx l) = δ then δ else truthy (jsValue code ctx r)))) :
    Decides m code ctx (.binary op l r) ↔
      Connects δ (celValue m ctx l) (celValue m ctx r) (truthy (jsValue code ctx l))
        (truthy (jsValue code ctx r)) (Decides m code ctx l) (Decides m code ctx r) := by
  rw [Decides, hjs, truthy_bool, celValue, eval, hcel]
  refine Iff.trans (exists_congr fun b => and_congr_left' ?_) connects_iff
  rw [map_eq_some_iff]
  simp

/-- An operator that needs both operands. -/
theorem decides_strict {op : BinOp} {l r : Expr}
    (hcel : op.apply m (celValue m ctx l) (celValue m ctx r) =
      (celValue m ctx l).bind fun a => (celValue m ctx r).bind fun b => op.strict m a b)
    (hjs : jsValue code ctx (.binary op l r) = .data (.bool
      (evalStrict code op (jsValue code ctx l) (jsValue code ctx r))))
    (hop : op ≠ .and ∧ op ≠ .or) :
    Decides m code ctx (.binary op l r) ↔
      ∃ a b, celValue m ctx l = some a ∧ celValue m ctx r = some b ∧
        Compares m code op a b (jsValue code ctx l) (jsValue code ctx r) := by
  rw [Decides, hjs, truthy_bool, celValue, eval, hcel]
  constructor
  · rintro ⟨b, hb, rfl⟩
    obtain ⟨c, hc, hcb⟩ := map_eq_some_iff.mp hb
    obtain ⟨v, hv, hc⟩ := bind_eq_some_iff.mp hc
    obtain ⟨w, hw, hc⟩ := bind_eq_some_iff.mp hc
    cases hcb
    exact ⟨v, w, hv, hw, (compares_iff hop).mp hc⟩
  · rintro ⟨v, w, hv, hw, h⟩
    refine ⟨_, ?_, rfl⟩
    rw [hv, hw, bind_some, bind_some, (compares_iff hop).mpr h]
    rfl

/-- **CEL decides a condition and cel-lite decides it alike iff it is in order.**  Induction into the
    operands of `!`, `&&` and `||`. -/
theorem decides_iff (e : Expr) : Decides m code ctx e ↔ InOrder m code ctx e := by
  induction e with
  | literal l =>
    cases l with
    | bool b => exact iff_of_true ⟨b, by rw [celValue, eval]; rfl, truthy_bool b⟩ trivial
    | _ =>
      refine iff_of_false ?_ id
      rintro ⟨b, hb, -⟩
      rw [celValue, eval] at hb
      cases hb
  | path parts => exact Iff.rfl
  | list items =>
    refine iff_of_false ?_ id
    rintro ⟨b, hb, -⟩
    rw [celValue, eval] at hb
    obtain ⟨vs, -, h⟩ := map_eq_some_iff.mp hb
    cases h
  | not e ih => rw [decides_not, ih, InOrder]
  | binary op l r ihl ihr =>
    cases op with
    | and =>
      rw [InOrder, ← ihl, ← ihr]
      refine decides_connective rfl ?_
      rw [jsValue, ast, evalNode]
      cases truthy (evalNode code (root (jsObject ctx)) (ast l)) <;> rfl
    | or =>
      rw [InOrder, ← ihl, ← ihr]
      refine decides_connective rfl ?_
      rw [jsValue, ast, evalNode]
    | eq | ne | lt | le | gt | ge | isIn =>
      exact decides_strict rfl (by rw [jsValue, ast, evalNode] <;> simp) ⟨by simp, by simp⟩

/-- What the Go evaluator makes of the value of a condition. -/
theorem verdict_program {e : Expr} (h : e.IsCondition) :
    (FalseFlag.evalCEL (program m e) (goContext ctx)).verdict =
      (celValue m ctx e).map fun v => decide (v = .bool true) := by
  unfold FalseFlag.evalCEL program
  rcases hv : Cel.eval m (celContext (goContext ctx)) e with _ | v
  · rw [celValue, hv]
    rfl
  · obtain ⟨b, rfl⟩ := bool_of_isCondition h hv
    rw [celValue, hv]
    cases b <;> rfl

end Expressions

/-- `ctx.plan != "pro"`. -/
def notPro : Expr := .binary .ne (.path ["ctx", "plan"]) (.literal (.str "pro"))

/-- `ctx.beta && ctx.plan != "pro"`. -/
def betaNotPro : Expr := .binary .and (.path ["ctx", "beta"]) notPro

theorem compileCEL_notPro : compileCEL (units "ctx.plan != \"pro\"") = .ok (ast notPro) := by
  have htokens : tokenize (units "ctx.plan != \"pro\"") = .ok [.ident (ofText "ctx"), .punct .dot,
      .ident (ofText "plan"), .punct .ne, .string (ofText "pro"), .eof] := by decide +kernel
  rw [compileCEL, htokens]
  rfl

theorem compileCEL_betaNotPro :
    compileCEL (units "ctx.beta && ctx.plan != \"pro\"") = .ok (ast betaNotPro) := by
  have htokens : tokenize (units "ctx.beta && ctx.plan != \"pro\"") =
      .ok [.ident (ofText "ctx"), .punct .dot, .ident (ofText "beta"), .punct .and,
        .ident (ofText "ctx"), .punct .dot, .ident (ofText "plan"), .punct .ne,
        .string (ofText "pro"), .eof] := by decide +kernel
  rw [compileCEL, htokens]
  rfl

end FalseFlag.CelLite
