/-
  The grammar of cel-lite.

      Or      := And ('||' And)*
      And     := Not ('&&' Not)*
      Not     := '!' Not | Rel
      Rel     := Primary (relop Primary)?
      Primary := '(' Or ')' | '[' (Or (',' Or)*)? ']' | literal | ident ('.' ident)*

  A `Tree` is a derivation in it: `yield` gives the tokens that are derived and `value` the syntax
  tree that the derivation stands for.

  The grammar is read from the left without ever going back, and two facts say why: a phrase shows
  by its first token what it is (`Tree.head_or` and its like), and what comes after a phrase cannot
  continue it (`Stops`, by the `rank` of the token).
-/
import FalseFlag.CelLite.Parser

namespace FalseFlag.CelLite

open List

/-! ## The grammar -/

inductive Symbol where
  | or | ors | and | ands | not | rel | primary | items

/-- Derivations. -/
inductive Tree : Symbol → Type
  | or (head : Tree .and) (tail : Tree .ors) : Tree .or
  -- ('||' And)*
  | orsNil : Tree .ors
  | orsCons (operand : Tree .and) (tail : Tree .ors) : Tree .ors
  | and (head : Tree .not) (tail : Tree .ands) : Tree .and
  -- ('&&' Not)*
  | andsNil : Tree .ands
  | andsCons (operand : Tree .not) (tail : Tree .ands) : Tree .ands
  | not (operand : Tree .not) : Tree .not
  | rel (operand : Tree .rel) : Tree .not
  | primary (operand : Tree .primary) : Tree .rel
  | compare (left : Tree .primary) (op : RelOp) (right : Tree .primary) : Tree .rel
  | paren (inner : Tree .or) : Tree .primary
  | empty : Tree .primary
  | list (head : Tree .or) (tail : Tree .items) : Tree .primary
  | literal (value : Const) : Tree .primary
  | path (head : JsString) (tail : List JsString) : Tree .primary
  -- (',' Or)*
  | itemsNil : Tree .items
  | itemsCons (item : Tree .or) (tail : Tree .items) : Tree .items

def Const.token : Const → Token
  | .string value => .string value
  | .number value => .number value
  | .bool value => .bool value
  | .null => .null

/-- ('.' ident)* -/
def segments (parts : List JsString) : List Token := parts.flatMap fun part => [.punct .dot, .ident part]

/-- The tokens that are derived. -/
def Tree.yield : {s : Symbol} → Tree s → List Token
  | _, .or head tail => head.yield ++ tail.yield
  | _, .orsNil => []
  | _, .orsCons operand tail => .punct .or :: (operand.yield ++ tail.yield)
  | _, .and head tail => head.yield ++ tail.yield
  | _, .andsNil => []
  | _, .andsCons operand tail => .punct .and :: (operand.yield ++ tail.yield)
  | _, .not operand => .punct .bang :: operand.yield
  | _, .rel operand => operand.yield
  | _, .primary operand => operand.yield
  | _, .compare left op right => left.yield ++ op.token :: right.yield
  | _, .paren inner => .punct .lparen :: (inner.yield ++ [.punct .rparen])
  | _, .empty => [.punct .lbracket, .punct .rbracket]
  | _, .list head tail => .punct .lbracket :: (head.yield ++ (tail.yield ++ [.punct .rbracket]))
  | _, .literal value => [value.token]
  | _, .path head tail => .ident head :: segments tail
  | _, .itemsNil => []
  | _, .itemsCons item tail => .punct .comma :: (item.yield ++ tail.yield)

/-- What a derivation stands for: a syntax tree, or several. -/
abbrev Symbol.Value : Symbol → Type
  | .ors | .ands | .items => List Ast
  | _ => Ast

/-- The syntax tree; `||` and `&&` to the left. -/
def Tree.value : {s : Symbol} → Tree s → s.Value
  | _, .or head tail => tail.value.foldl (.binary .or) head.value
  | _, .orsNil => ([] : List Ast)
  | _, .orsCons operand tail => (operand.value :: tail.value : List Ast)
  | _, .and head tail => tail.value.foldl (.binary .and) head.value
  | _, .andsNil => ([] : List Ast)
  | _, .andsCons operand tail => (operand.value :: tail.value : List Ast)
  | _, .not operand => Ast.unary operand.value
  | _, .rel operand => operand.value
  | _, .primary operand => operand.value
  | _, .compare left op right => Ast.binary op.binOp left.value right.value
  | _, .paren inner => inner.value
  | _, .empty => Ast.list []
  | _, .list head tail => Ast.list (head.value :: tail.value)
  | _, .literal value => Ast.literal value
  | _, .path head tail => Ast.path (head :: tail)
  | _, .itemsNil => ([] : List Ast)
  | _, .itemsCons item tail => (item.value :: tail.value : List Ast)

/-! ## What comes after a phrase -/

/-- How far down the levels a token can follow a phrase. -/
def Token.rank : Token → ℕ
  | .eof | .punct .rparen | .punct .rbracket => 0
  | .punct .comma => 1
  | .punct .or => 2
  | .punct .and => 3
  | t => if (relOp? t).isSome then 4 else 5

def Symbol.level : Symbol → ℕ
  | .items => 0
  | .or | .ors => 1
  | .and | .ands => 2
  | .not | .rel => 3
  | .primary => 4

/-- What comes next cannot continue a phrase of this level. -/
def Stops (level : ℕ) (r : List Token) : Prop := ∃ t, r.head? = some t ∧ t.rank ≤ level

variable {k : ℕ} {r : List Token}

/-- What stops a level stops those above. -/
theorem Stops.mono {m : ℕ} (h : Stops k r) (hkm : k ≤ m) : Stops m r := by
  obtain ⟨t, ht, hrank⟩ := h
  exact ⟨t, ht, Nat.le_trans hrank hkm⟩

variable {t : Token}

theorem stops_cons : Stops k (t :: r) ↔ t.rank ≤ k :=
  ⟨fun ⟨_, ht, hrank⟩ => Option.some.inj ht ▸ hrank, fun h => ⟨t, rfl, h⟩⟩

theorem stops_eof : Stops k [.eof] := stops_cons.mpr (Nat.zero_le k)

/-- What ends a phrase does not start with a token of its own levels. -/
theorem Stops.ne_cons {w : List Token} (h : Stops k r) (ht : k < t.rank) :
    r ≠ t :: w := by
  rintro rfl
  exact absurd (stops_cons.mp h) (Nat.not_le_of_lt ht)

/-- An operator is read off its token, -/
theorem relOp?_token (op : RelOp) : relOp? op.token = some op := by
  cases op <;> rfl

/-- and off no other. -/
theorem token_of_relOp? {op : RelOp} (h : relOp? t = some op) : t = op.token := by
  unfold relOp? at h
  split at h
  all_goals cases h
  all_goals rfl

theorem relOp?_of_rank (h : t.rank ≤ 3) : relOp? t = none := by
  cases hop : relOp? t with
  | none => rfl
  | some op =>
    rw [token_of_relOp? hop] at h
    cases op <;> exact absurd h (by decide)

theorem rank_token (op : RelOp) : op.token.rank = 4 := by
  cases op <;> rfl

theorem stops_token (op : RelOp) (r : List Token) : Stops 4 (op.token :: r) :=
  stops_cons.mpr (Nat.le_of_eq (rank_token op))

theorem not_stops_token (op : RelOp) (r : List Token) : ¬ Stops 3 (op.token :: r) := by
  rw [stops_cons, rank_token]
  decide

/-- An operand of `||` stops where its chain goes on or ends. -/
theorem Tree.stops_ors {tail : Tree .ors} (h : Stops 1 r) :
    Stops 2 (tail.yield ++ r) := by
  cases tail with
  | orsNil => exact h.mono (Nat.le_succ 1)
  | orsCons _ _ => exact stops_cons.mpr (Nat.le_refl 2)

theorem Tree.stops_ands {tail : Tree .ands} (h : Stops 2 r) :
    Stops 3 (tail.yield ++ r) := by
  cases tail with
  | andsNil => exact h.mono (Nat.le_succ 2)
  | andsCons _ _ => exact stops_cons.mpr (Nat.le_refl 3)

theorem Tree.stops_items {tail : Tree .items} (h : Stops 0 r) :
    Stops 1 (tail.yield ++ r) := by
  cases tail with
  | itemsNil => exact h.mono (Nat.le_succ 0)
  | itemsCons _ _ => exact stops_cons.mpr (Nat.le_refl 1)

/-- What closes ends everything, -/
theorem stops_close (p : Punct) (hp : (Token.punct p).rank = 0) (r : List Token) :
    Stops k ([.punct p] ++ r) := stops_cons.mpr (by omega)

/-- and so do the items before it. -/
theorem Tree.stops_list (tail : Tree .items) (r : List Token) :
    Stops 1 ((tail.yield ++ [.punct .rbracket]) ++ r) := by
  rw [append_assoc]
  exact stops_items (stops_close .rbracket rfl r)

/-! ## How a phrase starts -/

/-- A token that a primary starts with. -/
def Token.opens : Token → Bool
  | .string _ | .number _ | .bool _ | .null | .ident _ => true
  | .punct .lparen | .punct .lbracket => true
  | _ => false

theorem Const.opens_token (c : Const) : c.token.opens = true := by
  cases c <;> rfl

/-- A primary begins with a token that opens one, -/
theorem Tree.head_primary (t : Tree .primary) : ∃ tok w, t.yield = tok :: w ∧ tok.opens = true := by
  cases t with
  | paren _ => exact ⟨_, _, rfl, rfl⟩
  | empty => exact ⟨_, _, rfl, rfl⟩
  | list _ _ => exact ⟨_, _, rfl, rfl⟩
  | literal value => exact ⟨_, _, rfl, value.opens_token⟩
  | path _ _ => exact ⟨_, _, rfl, rfl⟩

theorem Tree.primary_ne_bang (t : Tree .primary) {w : List Token} :
    t.yield ++ r ≠ .punct .bang :: w := by
  intro h
  obtain ⟨tok, v, hyield, hopens⟩ := t.head_primary
  rw [hyield] at h
  rw [(List.cons.inj h).1] at hopens
  nomatch hopens

/-- and so does a comparison. -/
theorem Tree.head_rel (t : Tree .rel) : ∃ tok w, t.yield = tok :: w ∧ tok.opens = true := by
  cases t with
  | primary operand => exact operand.head_primary
  | compare left op right =>
    obtain ⟨tok, w, hyield, hopens⟩ := left.head_primary
    exact ⟨tok, w ++ op.token :: right.yield, by rw [yield, hyield]; rfl, hopens⟩

/-- Anything else may start with a negation. -/
theorem Tree.head_not (t : Tree .not) :
    ∃ tok w, t.yield = tok :: w ∧ (tok.opens = true ∨ tok = .punct .bang) := by
  cases t with
  | not operand => exact ⟨_, _, rfl, .inr rfl⟩
  | rel operand =>
    obtain ⟨tok, w, hyield, hopens⟩ := operand.head_rel
    exact ⟨tok, w, hyield, .inl hopens⟩

/-- A conjunction may begin with `!`, -/
theorem Tree.head_and (t : Tree .and) :
    ∃ tok w, t.yield = tok :: w ∧ (tok.opens = true ∨ tok = .punct .bang) := by
  cases t with
  | and head tail =>
    obtain ⟨tok, w, hyield, hopens⟩ := head.head_not
    exact ⟨tok, w ++ tail.yield, by rw [yield, hyield]; rfl, hopens⟩

/-- and a disjunction, too. -/
theorem Tree.head_or (t : Tree .or) :
    ∃ tok w, t.yield = tok :: w ∧ (tok.opens = true ∨ tok = .punct .bang) := by
  cases t with
  | or head tail =>
    obtain ⟨tok, w, hyield, hopens⟩ := head.head_and
    exact ⟨tok, w ++ tail.yield, by rw [yield, hyield]; rfl, hopens⟩

/-- A segment is a dot and a name. -/
theorem length_segments (parts : List JsString) : (segments parts).length = 2 * parts.length := by
  induction parts with
  | nil => rfl
  | cons part parts ih =>
    show (segments parts).length + 1 + 1 = 2 * (parts.length + 1)
    omega

theorem eof_not_mem_ident (value : JsString) : .eof ∉ [Token.ident value] :=
  not_mem_cons_of_ne_of_not_mem nofun not_mem_nil

theorem eof_not_mem_segments (parts : List JsString) : .eof ∉ segments parts := by
  intro h
  obtain ⟨part, -, h⟩ := mem_flatMap.mp h
  rcases mem_pair.mp h with h | h <;> nomatch h

theorem RelOp.eof_ne (op : RelOp) : .eof ≠ op.token := by
  cases op <;> nofun

/-- The end of the input is never derived. -/
theorem Tree.eof_not_mem : ∀ {s : Symbol} (t : Tree s), .eof ∉ t.yield := by
  intro s t
  induction t with
  | literal value => cases value <;> simp [yield, Const.token]
  | path head tail => simp [yield, eof_not_mem_segments]
  | compare left op right ihLeft ihRight =>
    simp [yield, ihLeft, ihRight, op.eof_ne]
  | _ => simp_all [yield]

/-- Something is derived. -/
theorem Tree.or_ne_nil (t : Tree .or) : t.yield ≠ [] := by
  obtain ⟨_, _, h, -⟩ := t.head_or
  rw [h]
  exact cons_ne_nil _ _

theorem Tree.and_ne_nil (t : Tree .and) : t.yield ≠ [] := by
  obtain ⟨_, _, h, -⟩ := t.head_and
  rw [h]
  exact cons_ne_nil _ _

theorem Tree.not_ne_nil (t : Tree .not) : t.yield ≠ [] := by
  obtain ⟨_, _, h, -⟩ := t.head_not
  rw [h]
  exact cons_ne_nil _ _

theorem Tree.primary_ne_nil (t : Tree .primary) : t.yield ≠ [] := by
  obtain ⟨_, _, h, -⟩ := t.head_primary
  rw [h]
  exact cons_ne_nil _ _

/-! ## Phrases at one place -/

/-- Constants have tokens of their own, -/
theorem Const.token_inj {c d : Const} (h : c.token = d.token) : c = d := by
  cases c <;> cases d <;> cases h <;> rfl

/-- and so have operators. -/
theorem RelOp.token_inj {op op' : RelOp} (h : op.token = op'.token) : op = op' := by
  have hop := relOp?_token op
  rw [h, relOp?_token] at hop
  exact (Option.some.inj hop).symm

/-- What opens a primary stops nothing. -/
theorem rank_of_opens (h : t.opens = true) : t.rank = 5 := by
  unfold Token.opens at h
  split at h <;> first | rfl | nomatch h

/-- What a phrase starts with does not end another. -/
theorem Tree.not_stops (t : Tree .or) (hk : k < 5) (w : List Token) :
    ¬ Stops k (t.yield ++ w) := by
  obtain ⟨tok, v, hyield, hopens⟩ := t.head_or
  have hrank : tok.rank = 5 := by
    rcases hopens with hopens | rfl
    · exact rank_of_opens hopens
    · rfl
  intro h
  rw [hyield] at h
  exact h.ne_cons (hrank ▸ hk) rfl

/-- One phrase and then another, at one place. -/
theorem cancel_append {A B : Prop} {a b c d r' : List Token}
    (h : (a ++ b) ++ r = (c ++ d) ++ r')
    (hfirst : a ++ (b ++ r) = c ++ (d ++ r') → Stops k (b ++ r) → Stops k (d ++ r') →
      A ∧ b ++ r = d ++ r')
    (hsecond : b ++ r = d ++ r' → B ∧ r = r') (hstop : Stops k (b ++ r)) (hstop' : Stops k (d ++ r')) :
    A ∧ B ∧ r = r' := by
  rw [append_assoc, append_assoc] at h
  obtain ⟨hA, h⟩ := hfirst h hstop hstop'
  exact ⟨hA, hsecond h⟩

end FalseFlag.CelLite
