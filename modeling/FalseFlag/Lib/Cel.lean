/-
  A small part of CEL, the Common Expression Language, over JSON.

  Expressions are literals, selections `ctx.a.b` from the one variable `ctx`, list literals, `!`,
  `&&`, `||`, comparisons and `in`.  `eval` evaluates an expression; `none` is an error:

  * selecting a key that is not there, or from what is no map, is an error;
  * `&&` and `||` need booleans, but the side that decides absorbs what happens on the other;
  * equality is structural: the members of a map have no order (`same`);
  * `<`, `<=`, `>` and `>=` order numbers, strings and booleans, each among themselves;
  * `in` looks for an element of a list, or for a key of a map.

  A number is an integer or a double.  Two integers are compared exactly, and so is an integer that
  is a double with a double; what is said of other integers and doubles is a parameter (`Mixed`), as
  some put them on the number line and some convert.

  Values that come from one JSON value are the same: **`same_of_carries`**.
-/
import FalseFlag.Lib.Binary
import FalseFlag.Lib.JsonCarry
import Mathlib.Order.Compare
import Mathlib.Data.String.Basic

namespace Cel

open JsonTree Json Binary Relators Option

/-! ## Expressions -/

inductive Literal where
  | null
  | bool (b : Bool)
  | int (n : ℤ)
  -- the decimal, as it is written
  | double (q : ℚ)
  | str (s : String)

inductive BinOp where
  | eq | ne | lt | le | gt | ge | and | or | isIn
  deriving DecidableEq

inductive Expr where
  | literal (l : Literal)
  | path (parts : List String)
  | list (items : List Expr)
  | not (operand : Expr)
  | binary (op : BinOp) (left right : Expr)

/-- Induction over expressions, into the operands of the operators. -/
@[induction_eliminator]
theorem Expr.induct {P : Expr → Prop} (literal : ∀ l, P (.literal l))
    (path : ∀ parts, P (.path parts)) (list : ∀ items, P (.list items))
    (not : ∀ e, P e → P (.not e)) (binary : ∀ op l r, P l → P r → P (.binary op l r)) (e : Expr) :
    P e :=
  @Expr.rec P (fun _ => True) literal path (fun items _ => list items) not binary trivial
    (fun _ _ _ _ => trivial) e

/-- The expressions that yield a boolean, if they yield something. -/
def Expr.IsCondition : Expr → Prop
  | .literal (.bool _) | .not _ | .binary _ _ _ => True
  | _ => False

/-! ## Numbers -/

inductive Num where
  | int (n : ℤ)
  | double (q : ℚ)
  deriving DecidableEq

/-- How an integer compares with a double. -/
structure Mixed where
  cmp : ℤ → ℚ → Ordering
  exact : ∀ (n : ℤ) (q : ℚ), binary64.round n = n → cmp n q = compare (n : ℚ) q

/-- The number line. -/
def Mixed.line : Mixed := ⟨fun n q => compare (n : ℚ) q, fun _ _ _ => rfl⟩

def Mixed.compare (m : Mixed) : Num → Num → Ordering
  | .int a, .int b => Ord.compare a b
  | .double a, .double b => Ord.compare a b
  | .int a, .double b => m.cmp a b
  | .double a, .int b => (m.cmp b a).swap

/-- The number is `q`, which is a double. -/
def Num.Is : Num → ℚ → Prop
  | .int n, q => binary64.round n = n ∧ (n : ℚ) = q
  | .double p, q => p = q

/-- Doubles compare as they do. -/
theorem Mixed.compare_of_is (m : Mixed) {a b : Num} {p q : ℚ} (ha : a.Is p) (hb : b.Is q) :
    m.compare a b = Ord.compare p q := by
  cases a with
  | int a =>
    obtain ⟨hround, rfl⟩ := ha
    cases b with
    | int b =>
      obtain ⟨-, rfl⟩ := hb
      rw [Mixed.compare, ← cmp_eq_compare, ← cmp_eq_compare]
      exact (Int.cast_strictMono.cmp_map_eq a b).symm
    | double b =>
      obtain rfl := hb
      exact m.exact a b hround
  | double a =>
    obtain rfl := ha
    cases b with
    | int b =>
      obtain ⟨hround, rfl⟩ := hb
      rw [Mixed.compare, m.exact b a hround, ← cmp_eq_compare, ← cmp_eq_compare, cmp_swap]
    | double b =>
      obtain rfl := hb
      rfl

/-! ## Values -/

/-- Booleans, numbers, strings, lists and maps. -/
abbrev Value := Json Num

def Literal.value : Literal → Value
  | .null => .null
  | .bool b => .bool b
  | .int n => .num (.int n)
  | .double q => .num (.double (binary64.round q))
  | .str s => .str s

/-- Selections, one after the other. -/
def select (cur : Value) : List String → Option Value
  | [] => some cur
  | key :: keys =>
    match cur with
    | .obj members => (members.lookup key).bind fun v => select v keys
    | _ => none

/-- A selection from the variable `ctx`. -/
def evalPath (ctx : Value) : List String → Option Value
  | "ctx" :: keys => select ctx keys
  | _ => none

/-- An order relation. -/
def BinOp.holds : BinOp → Ordering → Bool
  | .lt, o => o == .lt
  | .le, o => o != .gt
  | .gt, o => o == .gt
  | .ge, o => o != .lt
  | _, _ => false

section Operators

variable (m : Mixed)

/-- An order relation on values. -/
def BinOp.order (op : BinOp) : Value → Value → Option Bool
  | .num a, .num b => some (op.holds (m.compare a b))
  | .str a, .str b => some (op.holds (compare a b))
  | .bool a, .bool b => some (op.holds (compare a b))
  | _, _ => none

mutual

/-- Structural equality. -/
def same : Value → Value → Bool
  | .null, .null => true
  | .bool a, .bool b => a == b
  | .num a, .num b => m.compare a b == .eq
  | .str a, .str b => a == b
  | .arr xs, .arr ys => sameItems xs ys
  | .obj ms, .obj ns => sameMembers ms ns && ns.all fun n => (ms.lookup n.1).isSome
  | _, _ => false
  termination_by structural a => a

/-- Lists are compared item by item, -/
def sameItems : List Value → List Value → Bool
  | [], [] => true
  | x :: xs, y :: ys => same x y && sameItems xs ys
  | _, _ => false
  termination_by structural xs => xs

/-- maps key by key. -/
def sameMembers : List (String × Value) → List (String × Value) → Bool
  | [], _ => true
  | (k, v) :: ms, ns => (ns.lookup k).any (same v) && sameMembers ms ns
  termination_by structural ms => ms

end

/-- `a in b`. -/
def contains (a : Value) : Value → Option Bool
  | .arr items => some (items.any fun item => same m item a)
  | .obj members =>
    match a with
    | .str key => some (members.lookup key).isSome
    | _ => some false
  | _ => none

/-- The value `d` on either side decides; else both sides have to be the other boolean. -/
def absorb (d : Bool) (a b : Option Value) : Option Bool :=
  if a = some (.bool d) ∨ b = some (.bool d) then some d
  else if a = some (.bool !d) ∧ b = some (.bool !d) then some !d
  else none

/-- The operators that need both operands. -/
def BinOp.strict (op : BinOp) (a b : Value) : Option Bool :=
  match op with
  | .eq => some (same m a b)
  | .ne => some (!same m a b)
  | .isIn => contains m a b
  | op => op.order m a b

def BinOp.apply (op : BinOp) (a b : Option Value) : Option Bool :=
  match op with
  | .and => absorb false a b
  | .or => absorb true a b
  | op => a.bind fun a => b.bind fun b => op.strict m a b

/-- `!`. -/
def negate : Value → Option Bool
  | .bool b => some (!b)
  | _ => none

mutual

/-- The value of an expression. -/
def eval (ctx : Value) : Expr → Option Value
  | .literal l => some l.value
  | .path parts => evalPath ctx parts
  | .list items => (evalItems ctx items).map .arr
  | .not e => ((eval ctx e).bind negate).map .bool
  | .binary op l r => (op.apply m (eval ctx l) (eval ctx r)).map .bool
  termination_by structural e => e

/-- The values of a list. -/
def evalItems (ctx : Value) : List Expr → Option (List Value)
  | [] => some []
  | e :: es => (eval ctx e).bind fun v => (evalItems ctx es).map (v :: ·)
  termination_by structural es => es

end

variable {m}

/-- A condition fails or yields a boolean. -/
theorem bool_of_isCondition {e : Expr} (h : e.IsCondition) {ctx v : Value}
    (hv : eval m ctx e = some v) : ∃ b, v = .bool b := by
  cases e with
  | literal l =>
    cases l with
    | bool b =>
      rw [eval] at hv
      exact ⟨b, (some.inj hv).symm⟩
    | _ => exact absurd h id
  | path _ => exact absurd h id
  | list _ => exact absurd h id
  | not x =>
    rw [eval] at hv
    obtain ⟨b, -, rfl⟩ := map_eq_some_iff.mp hv
    exact ⟨b, rfl⟩
  | binary op l r =>
    rw [eval] at hv
    obtain ⟨b, -, rfl⟩ := map_eq_some_iff.mp hv
    exact ⟨b, rfl⟩

/-- When a connective has a value. -/
theorem absorb_eq_some {d b : Bool} {x y : Option Value} :
    absorb d x y = some b ↔
      (b = d ∧ (x = some (.bool d) ∨ y = some (.bool d))) ∨
        (b = !d) ∧ x = some (.bool !d) ∧ y = some (.bool !d) := by
  have hne : ∀ z : Option Value, z = some (.bool !d) → z ≠ some (.bool d) := by
    rintro z rfl
    cases d <;> simp
  unfold absorb
  by_cases hdecides : x = some (.bool d) ∨ y = some (.bool d)
  · rw [if_pos hdecides, some_inj, eq_comm]
    refine ⟨fun h => .inl ⟨h, hdecides⟩, ?_⟩
    rintro (⟨h, -⟩ | ⟨-, hx, hy⟩)
    · exact h
    · exact absurd hdecides (not_or.mpr ⟨hne x hx, hne y hy⟩)
  · rw [if_neg hdecides]
    by_cases hboth : x = some (.bool !d) ∧ y = some (.bool !d)
    · rw [if_pos hboth, some_inj, eq_comm]
      simp [hboth]
    · rw [if_neg hboth]
      simp [hdecides, hboth]

/-! ## Values that come from JSON -/

/-- A value is a JSON value with doubles for numbers. -/
abbrev Comes (j : Json ℚ) (a : Value) : Prop := Carries (fun q c => c.Is q) j a

theorem sameItems_of_carries : ∀ {js : List (Json ℚ)} {xs ys : List Value},
    (∀ j ∈ js, ∀ {a b}, Comes j a → Comes j b → same m a b = true) →
    List.Forall₂ Comes js xs → List.Forall₂ Comes js ys → sameItems m xs ys = true
  | [], _, _, _, .nil, .nil => by rw [sameItems]
  | _ :: _, _, _, h, .cons hx hxs, .cons hy hys => by
    obtain ⟨hj, hjs⟩ := List.forall_mem_cons.mp h
    rw [sameItems, hj hx hy, sameItems_of_carries hjs hxs hys, Bool.and_self]

theorem sameMembers_of_forall : ∀ {ms ns : List (String × Value)},
    (∀ x ∈ ms, ∃ w, ns.lookup x.1 = some w ∧ same m x.2 w = true) → sameMembers m ms ns = true
  | [], _, _ => by rw [sameMembers]
  | (k, v) :: ms, ns, h => by
    obtain ⟨⟨w, hw, hsame⟩, hms⟩ := List.forall_mem_cons.mp h
    rw [sameMembers, hw, any_some, hsame, sameMembers_of_forall hms, Bool.and_self]

/-- **What comes from one JSON value is the same.**  Induction on it; of a map, each key is there on
    both sides. -/
theorem same_of_carries (j : Json ℚ) :
    ∀ {a b : Value}, Comes j a → Comes j b → same m a b = true := by
  induction j with
  | null =>
    rintro a b ⟨⟩ ⟨⟩
    rw [same]
  | bool x =>
    rintro a b ⟨⟩ ⟨⟩
    rw [same, beq_self_eq_true]
  | num q =>
    intro a b ha hb
    cases ha with
    | num ha =>
      cases hb with
      | num hb => rw [same, m.compare_of_is ha hb, ← cmp_eq_compare, cmp_self_eq_eq, beq_self_eq_true]
  | str s =>
    rintro a b ⟨⟩ ⟨⟩
    rw [same, beq_self_eq_true]
  | arr items ih =>
    intro a b ha hb
    cases ha with
    | @arr _ xs ha =>
      cases hb with
      | @arr _ ys hb =>
        rw [same]
        exact sameItems_of_carries ih ha hb
  | obj members ih =>
    intro a b ha hb
    cases ha with
    | @obj _ ms hms ha =>
      cases hb with
      | @obj _ ns hns hb =>
        -- what one side has under a key comes from a member, and so the other side has it too
        have hkey : ∀ {ms ns : List (String × Value)}, (ms.map Prod.fst).Nodup →
            (∀ k, Rel Comes (members.reverse.lookup k) (ms.lookup k)) →
            (∀ k, Rel Comes (members.reverse.lookup k) (ns.lookup k)) →
            ∀ x ∈ ms, ∃ u w, (x.1, u) ∈ members ∧ Comes u x.2 ∧ Comes u w ∧
              ns.lookup x.1 = some w := by
          intro ms ns hnodup hms hns x hx
          have hk := hms x.1
          rw [lookup_of_mem hnodup hx] at hk
          rcases hu : members.reverse.lookup x.1 with _ | u
          · rw [hu] at hk
            cases hk
          · rw [hu] at hk
            obtain ⟨w, hw, huw⟩ := rel_some (hu ▸ hns x.1)
            cases hk with
            | some hk => exact ⟨u, w, List.mem_reverse.mp (mem_of_lookup hu), hk, huw, hw⟩
        rw [same, Bool.and_eq_true, List.all_eq_true]
        constructor
        · refine sameMembers_of_forall fun x hx => ?_
          obtain ⟨u, w, hu, hv, hw, hlookup⟩ := hkey hms ha hb x hx
          exact ⟨w, hlookup, ih _ hu hv hw⟩
        · intro x hx
          obtain ⟨u, w, -, -, -, hlookup⟩ := hkey hns hb ha x hx
          rw [hlookup]
          rfl

end Operators

end Cel
