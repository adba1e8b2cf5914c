/-
  The grammar of CEL, over the tokens of cel-lite.

      Expr     := And ('||' And)*
      And      := Relation ('&&' Relation)*
      Relation := Unary (relop Unary)*
      Unary    := '!' Unary | Member
      Member   := Primary ('.' ident | '.' ident '(' Args ')' | '[' Expr ']')*
      Primary  := '.'? ident | '.'? ident '(' Args ')' | '(' Expr ')' | '[' Args ','? ']' | literal
      Args     := (Expr (',' Expr)*)?

  These are the productions of the language definition that need no other tokens (there is no `?`,
  no arithmetic and no brace in cel-lite); a left recursion is a repetition.  The words that CEL
  reserves are not taken out of the identifiers, so that what is shown here holds for more.

  A derivation in the grammar of cel-lite becomes one in this grammar (`Tree.toCel`): the same
  tokens, but a negation moves from the relation to its first operand.

  * **`Tree.eq_toCel`** — tokens that cel-lite accepts have no other derivation in CEL.
-/
import FalseFlag.CelLite.Grammar

namespace FalseFlag.CelLite

open List Nat

open Cel (BinOp)

/-! ## Syntax trees -/

inductive CelAst where
  | literal (value : Const)
  | ident (dot : Bool) (name : JsString)
  | select (operand : CelAst) (field : JsString)
  | index (operand i : CelAst)
  | call (dot : Bool) (name : JsString) (args : List CelAst)
  | memberCall (operand : CelAst) (name : JsString) (args : List CelAst)
  | list (items : List CelAst)
  | not (operand : CelAst)
  | binary (op : BinOp) (left right : CelAst)

/-! ## Derivations -/

inductive CelSymbol where
  | expr | ors | and | ands | relation | rels | unary | member | suffixes | primary | args | more

inductive CelTree : CelSymbol → Type
  | expr (head : CelTree .and) (tail : CelTree .ors) : CelTree .expr
  | orsNil : CelTree .ors
  | orsCons (operand : CelTree .and) (tail : CelTree .ors) : CelTree .ors
  | and (head : CelTree .relation) (tail : CelTree .ands) : CelTree .and
  | andsNil : CelTree .ands
  | andsCons (operand : CelTree .relation) (tail : CelTree .ands) : CelTree .ands
  | relation (head : CelTree .unary) (tail : CelTree .rels) : CelTree .relation
  | relsNil : CelTree .rels
  | relsCons (op : RelOp) (operand : CelTree .unary) (tail : CelTree .rels) : CelTree .rels
  | not (operand : CelTree .unary) : CelTree .unary
  | member (operand : CelTree .member) : CelTree .unary
  | suffixed (operand : CelTree .primary) (suffixes : CelTree .suffixes) : CelTree .member
  | suffixesNil : CelTree .suffixes
  | select (field : JsString) (tail : CelTree .suffixes) : CelTree .suffixes
  | memberCall (name : JsString) (args : CelTree .args) (tail : CelTree .suffixes) :
      CelTree .suffixes
  | index (i : CelTree .expr) (tail : CelTree .suffixes) : CelTree .suffixes
  | ident (dot : Bool) (name : JsString) : CelTree .primary
  | call (dot : Bool) (name : JsString) (args : CelTree .args) : CelTree .primary
  | paren (inner : CelTree .expr) : CelTree .primary
  | list (items : CelTree .args) (comma : Bool) : CelTree .primary
  | literal (value : Const) : CelTree .primary
  | argsNil : CelTree .args
  | argsCons (head : CelTree .expr) (tail : CelTree .more) : CelTree .args
  | moreNil : CelTree .more
  | moreCons (item : CelTree .expr) (tail : CelTree .more) : CelTree .more

/-- A token that may be there. -/
def optional (b : Bool) (p : Punct) : List Token := if b then [.punct p] else []

def CelTree.yield : {s : CelSymbol} → CelTree s → List Token
  | _, .expr head tail => head.yield ++ tail.yield
  | _, .orsNil => []
  | _, .orsCons operand tail => .punct .or :: (operand.yield ++ tail.yield)
  | _, .and head tail => head.yield ++ tail.yield
  | _, .andsNil => []
  | _, .andsCons operand tail => .punct .and :: (operand.yield ++ tail.yield)
  | _, .relation head tail => head.yield ++ tail.yield
  | _, .relsNil => []
  | _, .relsCons op operand tail => op.token :: (operand.yield ++ tail.yield)
  | _, .not operand => .punct .bang :: operand.yield
  | _, .member operand => operand.yield
  | _, .suffixed operand suffixes => operand.yield ++ suffixes.yield
  | _, .suffixesNil => []
  | _, .select field tail => .punct .dot :: .ident field :: tail.yield
  | _, .memberCall name args tail =>
    .punct .dot :: .ident name :: .punct .lparen :: (args.yield ++ .punct .rparen :: tail.yield)
  | _, .index i tail => .punct .lbracket :: (i.yield ++ .punct .rbracket :: tail.yield)
  | _, .ident dot name => optional dot .dot ++ [.ident name]
  | _, .call dot name args =>
    optional dot .dot ++ .ident name :: .punct .lparen :: (args.yield ++ [.punct .rparen])
  | _, .paren inner => .punct .lparen :: (inner.yield ++ [.punct .rparen])
  | _, .list items comma =>
    .punct .lbracket :: (items.yield ++ (optional comma .comma ++ [.punct .rbracket]))
  | _, .literal value => [value.token]
  | _, .argsNil => []
  | _, .argsCons head tail => head.yield ++ tail.yield
  | _, .moreNil => []
  | _, .moreCons item tail => .punct .comma :: (item.yield ++ tail.yield)

/-- What a derivation stands for.  Relations, selections and calls are taken to the left. -/
abbrev CelSymbol.Value : CelSymbol → Type
  | .ors | .ands | .args | .more => List CelAst
  | .rels => List (RelOp × CelAst)
  | .suffixes => CelAst → CelAst
  | _ => CelAst

def CelTree.value : {s : CelSymbol} → CelTree s → s.Value
  | _, .expr head tail => tail.value.foldl (.binary .or) head.value
  | _, .orsNil => ([] : List CelAst)
  | _, .orsCons operand tail => (operand.value :: tail.value : List CelAst)
  | _, .and head tail => tail.value.foldl (.binary .and) head.value
  | _, .andsNil => ([] : List CelAst)
  | _, .andsCons operand tail => (operand.value :: tail.value : List CelAst)
  | _, .relation head tail => tail.value.foldl (fun e x => .binary x.1.binOp e x.2) head.value
  | _, .relsNil => ([] : List (RelOp × CelAst))
  | _, .relsCons op operand tail => ((op, operand.value) :: tail.value : List (RelOp × CelAst))
  | _, .not operand => CelAst.not operand.value
  | _, .member operand => operand.value
  | _, .suffixed operand suffixes => suffixes.value operand.value
  | _, .suffixesNil => fun e => e
  | _, .select field tail => fun e => tail.value (.select e field)
  | _, .memberCall name args tail => fun e => tail.value (.memberCall e name args.value)
  | _, .index i tail => fun e => tail.value (.index e i.value)
  | _, .ident dot name => CelAst.ident dot name
  | _, .call dot name args => CelAst.call dot name args.value
  | _, .paren inner => inner.value
  | _, .list items _ => CelAst.list items.value
  | _, .literal value => CelAst.literal value
  | _, .argsNil => ([] : List CelAst)
  | _, .argsCons head tail => (head.value :: tail.value : List CelAst)
  | _, .moreNil => ([] : List CelAst)
  | _, .moreCons item tail => (item.value :: tail.value : List CelAst)

/-! ## From cel-lite to CEL -/

/-- The symbol of CEL for a symbol of cel-lite. -/
abbrev Symbol.cel : Symbol → CelSymbol
  | .or => .expr
  | .ors => .ors
  | .and => .and
  | .ands => .ands
  | .not | .rel => .relation
  | .primary => .member
  | .items => .more

/-- A negation belongs to the first operand of the relation. -/
def CelTree.negate : CelTree .relation → CelTree .relation
  | .relation head tail => .relation (.not head) tail

def selects : List JsString → CelTree .suffixes
  | [] => .suffixesNil
  | field :: fields => .select field (selects fields)

def Tree.toCel : {s : Symbol} → Tree s → CelTree s.cel
  | _, .or head tail => .expr head.toCel tail.toCel
  | _, .orsNil => .orsNil
  | _, .orsCons operand tail => .orsCons operand.toCel tail.toCel
  | _, .and head tail => .and head.toCel tail.toCel
  | _, .andsNil => .andsNil
  | _, .andsCons operand tail => .andsCons operand.toCel tail.toCel
  | _, .not operand => operand.toCel.negate
  | _, .rel operand => operand.toCel
  | _, .primary operand => .relation (.member operand.toCel) .relsNil
  | _, .compare left op right =>
    .relation (.member left.toCel) (.relsCons op (.member right.toCel) .relsNil)
  | _, .paren inner => .suffixed (.paren inner.toCel) .suffixesNil
  | _, .empty => .suffixed (.list .argsNil false) .suffixesNil
  | _, .list head tail => .suffixed (.list (.argsCons head.toCel tail.toCel) false) .suffixesNil
  | _, .literal value => .suffixed (.literal value) .suffixesNil
  | _, .path head tail => .suffixed (.ident false head) (selects tail)
  | _, .itemsNil => .moreNil
  | _, .itemsCons item tail => .moreCons item.toCel tail.toCel

/-- A negation derives `!` and its operand. -/
theorem yield_negate (t : CelTree .relation) : t.negate.yield = .punct .bang :: t.yield := by
  cases t with
  | relation head tail => rfl

/-- Selections derive the segments. -/
theorem yield_selects (fields : List JsString) : (selects fields).yield = segments fields := by
  induction fields with
  | nil => rfl
  | cons field fields ih =>
    show Token.punct .dot :: .ident field :: (selects fields).yield = _
    rw [ih]
    rfl

/-- The tokens are the same. -/
theorem Tree.yield_toCel : ∀ {s : Symbol} (t : Tree s), t.toCel.yield = t.yield := by
  intro s t
  induction t with
  | not operand ih => rw [toCel, yield_negate, ih, yield]
  | path head tail => simp [toCel, CelTree.yield, yield, optional, yield_selects]
  | _ => simp_all [toCel, CelTree.yield, yield, optional]

/-! ## How a phrase starts, and what comes after it -/

/-- A phrase of CEL starts with no token that can follow one. -/
theorem CelTree.head_primary (t : CelTree .primary) :
    ∃ tok w, t.yield = tok :: w ∧ (tok.opens = true ∨ tok = .punct .dot) := by
  cases t with
  | ident dot name =>
    cases dot
    · exact ⟨_, _, rfl, .inl rfl⟩
    · exact ⟨_, _, rfl, .inr rfl⟩
  | call dot name args =>
    cases dot
    · exact ⟨_, _, rfl, .inl rfl⟩
    · exact ⟨_, _, rfl, .inr rfl⟩
  | paren inner => exact ⟨_, _, rfl, .inl rfl⟩
  | list items comma => exact ⟨_, _, rfl, .inl rfl⟩
  | literal value => exact ⟨_, _, rfl, .inl value.opens_token⟩

/-- A member begins like a primary, or with a dot. -/
theorem CelTree.head_member (t : CelTree .member) :
    ∃ tok w, t.yield = tok :: w ∧ (tok.opens = true ∨ tok = .punct .dot) := by
  cases t with
  | suffixed operand suffixes =>
    obtain ⟨tok, w, hyield, hopens⟩ := operand.head_primary
    refine ⟨tok, w ++ suffixes.yield, ?_, hopens⟩
    show operand.yield ++ suffixes.yield = _
    rw [hyield]
    rfl

variable {r w : List Token}

theorem CelTree.member_ne_bang (t : CelTree .member) :
    t.yield ++ r ≠ .punct .bang :: w := by
  intro h
  obtain ⟨tok, v, hyield, hopens⟩ := t.head_member
  rw [hyield] at h
  rw [(List.cons.inj h).1] at hopens
  rcases hopens with hopens | hopens <;> nomatch hopens

theorem CelTree.head_unary (t : CelTree .unary) : ∃ tok w, t.yield = tok :: w ∧ tok.rank = 5 := by
  cases t with
  | not operand => exact ⟨_, _, rfl, rfl⟩
  | member operand =>
    obtain ⟨tok, w, hyield, hopens | rfl⟩ := operand.head_member
    · exact ⟨tok, w, hyield, rank_of_opens hopens⟩
    · exact ⟨_, w, hyield, rfl⟩

/-- What begins an expression stops nothing. -/
theorem CelTree.head_expr (t : CelTree .expr) : ∃ tok w, t.yield = tok :: w ∧ tok.rank = 5 := by
  cases t with
  | expr head ors =>
    cases head with
    | and head ands =>
      cases head with
      | relation head rels =>
        obtain ⟨tok, w, hyield, hrank⟩ := head.head_unary
        refine ⟨tok, w ++ rels.yield ++ ands.yield ++ ors.yield, ?_, hrank⟩
        show head.yield ++ rels.yield ++ ands.yield ++ ors.yield = _
        rw [hyield]
        rfl

theorem CelTree.not_stops (t : CelTree .expr) {k : ℕ} (hk : k < 5) (w : List Token) :
    ¬ Stops k (t.yield ++ w) := by
  obtain ⟨tok, v, hyield, hrank⟩ := t.head_expr
  intro h
  rw [hyield] at h
  exact h.ne_cons (hrank ▸ hk) rfl

theorem CelTree.stops_ors {tail : CelTree .ors} (h : Stops 1 r) :
    Stops 2 (tail.yield ++ r) := by
  cases tail with
  | orsNil => exact h.mono (le_succ 1)
  | orsCons _ _ => exact stops_cons.mpr (le_refl 2)

theorem CelTree.stops_ands {tail : CelTree .ands} (h : Stops 2 r) :
    Stops 3 (tail.yield ++ r) := by
  cases tail with
  | andsNil => exact h.mono (le_succ 2)
  | andsCons _ _ => exact stops_cons.mpr (le_refl 3)

variable {tail : CelTree .rels}

theorem CelTree.stops_rels (h : Stops 3 r) :
    Stops 4 (tail.yield ++ r) := by
  cases tail with
  | relsNil => exact h.mono (le_succ 3)
  | relsCons op _ _ => exact stops_token op _

theorem CelTree.stops_more {tail : CelTree .more} (h : Stops 1 r) :
    Stops 1 (tail.yield ++ r) := by
  cases tail with
  | moreNil => exact h
  | moreCons _ _ => exact stops_cons.mpr (le_refl 1)

/-- Where no relation goes on, there is none. -/
theorem CelTree.rels_eq_nil (h : Stops 3 (tail.yield ++ r)) :
    tail = .relsNil := by
  cases tail with
  | relsNil => rfl
  | relsCons op _ _ => exact absurd h (not_stops_token op _)

/-- Where they have to stop there are no suffixes. -/
theorem CelTree.suffixes_eq_nil {tail : CelTree .suffixes}
    (h : Stops 4 (tail.yield ++ r)) : tail = .suffixesNil := by
  cases tail with
  | suffixesNil => rfl
  | select _ _ | memberCall _ _ _ | index _ _ => exact absurd rfl (h.ne_cons (by decide))

/-! ## A member by its first token -/

variable {t : CelTree .member}

/-- `(` comes from parentheses, -/
theorem CelTree.eq_paren (h : .punct .lparen :: w = t.yield ++ r) :
    ∃ inner suffixes, t = .suffixed (.paren inner) suffixes ∧
      w = inner.yield ++ .punct .rparen :: (suffixes.yield ++ r) := by
  cases t with
  | suffixed operand suffixes =>
    cases operand with
    | paren inner =>
      have hrest : w = ((inner.yield ++ [.punct .rparen]) ++ suffixes.yield) ++ r :=
        (List.cons.inj h).2
      exact ⟨inner, suffixes, rfl, by rw [hrest, append_assoc, append_assoc]; rfl⟩
    | ident dot _ | call dot _ _ => cases dot <;> nomatch (List.cons.inj h).1
    | list _ _ => nomatch (List.cons.inj h).1
    | literal value => cases value <;> nomatch (List.cons.inj h).1

/-- `[` from a list, -/
theorem CelTree.eq_list (h : .punct .lbracket :: w = t.yield ++ r) :
    ∃ items comma suffixes, t = .suffixed (.list items comma) suffixes ∧
      w = items.yield ++ (optional comma .comma ++ .punct .rbracket :: (suffixes.yield ++ r)) := by
  cases t with
  | suffixed operand suffixes =>
    cases operand with
    | list items comma =>
      have hrest : w = ((items.yield ++ (optional comma .comma ++ [.punct .rbracket])) ++
        suffixes.yield) ++ r := (List.cons.inj h).2
      refine ⟨items, comma, suffixes, rfl, ?_⟩
      simp only [hrest, append_assoc, cons_append, nil_append]
    | ident dot _ | call dot _ _ => cases dot <;> nomatch (List.cons.inj h).1
    | paren _ => nomatch (List.cons.inj h).1
    | literal value => cases value <;> nomatch (List.cons.inj h).1

/-- and a constant from a literal. -/
theorem CelTree.eq_literal {value : Const} (h : value.token :: w = t.yield ++ r) :
    ∃ suffixes, t = .suffixed (.literal value) suffixes ∧ w = suffixes.yield ++ r := by
  cases t with
  | suffixed operand suffixes =>
    cases operand with
    | literal value' =>
      obtain ⟨hvalue, hrest⟩ := List.cons.inj h
      exact ⟨suffixes, by rw [Const.token_inj hvalue], hrest⟩
    | ident dot _ | call dot _ _ => cases dot <;> cases value <;> nomatch (List.cons.inj h).1
    | paren _ | list _ _ => cases value <;> nomatch (List.cons.inj h).1

/-- A name may also be that of a function. -/
theorem CelTree.eq_named {name : JsString} (h : .ident name :: w = t.yield ++ r) :
    (∃ suffixes, t = .suffixed (.ident false name) suffixes ∧ w = suffixes.yield ++ r) ∨
      ∃ v, w = .punct .lparen :: v := by
  cases t with
  | suffixed operand suffixes =>
    cases operand with
    | ident dot name' =>
      cases dot with
      | false =>
        obtain ⟨hname, hrest⟩ := List.cons.inj h
        exact .inl ⟨suffixes, by rw [Token.ident.inj hname], hrest⟩
      | true => nomatch (List.cons.inj h).1
    | call dot name' args =>
      cases dot with
      | false => exact .inr ⟨_, (List.cons.inj h).2⟩
      | true => nomatch (List.cons.inj h).1
    | paren _ | list _ _ => nomatch (List.cons.inj h).1
    | literal value => cases value <;> nomatch (List.cons.inj h).1

/-! ## One derivation in CEL -/

/-- What comes after a phrase of CEL; the items of a list may have a comma after them. -/
def Symbol.CelEnds : Symbol → List Token → Prop
  | .items, r => Stops 0 r ∨ ∃ r', r = .punct .comma :: r' ∧ Stops 0 r'
  | s, r => Stops s.level r

theorem Symbol.CelEnds.stops (h : Symbol.items.CelEnds r) : Stops 1 r := by
  rcases h with h | ⟨r', rfl, -⟩
  · exact h.mono (le_succ 0)
  · exact stops_cons.mpr (le_refl 1)

theorem celEnds_close (comma : Bool) (r : List Token) :
    Symbol.items.CelEnds (optional comma .comma ++ .punct .rbracket :: r) := by
  cases comma with
  | false => exact .inl (stops_close .rbracket rfl r)
  | true => exact .inr ⟨_, rfl, stops_close .rbracket rfl r⟩

/-- A list that closes without a comma, and nothing is selected from it. -/
theorem close_list {comma : Bool} {suffixes : CelTree .suffixes} {r' : List Token}
    (h : .punct .rbracket :: r = optional comma .comma ++ .punct .rbracket :: (suffixes.yield ++ r'))
    (hr : Stops 4 r) : comma = false ∧ suffixes = .suffixesNil ∧ r = r' := by
  cases comma with
  | false =>
    obtain rfl : r = suffixes.yield ++ r' := (List.cons.inj h).2
    obtain rfl := CelTree.suffixes_eq_nil hr
    exact ⟨rfl, rfl, rfl⟩
  | true => nomatch (List.cons.inj h).1

/-- After a name comes no parenthesis, in cel-lite. -/
theorem segments_ne_lparen {fields : List JsString} (hr : Stops 4 r) :
    segments fields ++ r ≠ .punct .lparen :: w := by
  intro h
  cases fields with
  | nil => exact hr.ne_cons (by decide) h
  | cons field fields => nomatch (List.cons.inj h).1

/-- Segments come from selections. -/
theorem eq_selects : ∀ {fields : List JsString} {t : CelTree .suffixes} {r r' : List Token},
    segments fields ++ r = t.yield ++ r' → Stops 4 r → Stops 4 r' → t = selects fields ∧ r = r'
  | [], t, r, r', h, hr, _ => by
    rw [show r = _ from h] at hr
    obtain rfl := CelTree.suffixes_eq_nil hr
    exact ⟨rfl, h⟩
  | field :: fields, .suffixesNil, r, r', h, _, hr' => (hr'.ne_cons (by decide) h.symm).elim
  | field :: fields, .select field' tail, r, r', h, hr, hr' => by
    obtain ⟨-, h⟩ := List.cons.inj h
    obtain ⟨hfield, h⟩ := List.cons.inj h
    obtain ⟨rfl, hrr⟩ := eq_selects h hr hr'
    exact ⟨by rw [Token.ident.inj hfield, selects], hrr⟩
  | field :: fields, .memberCall name args tail, r, r', h, hr, _ => by
    obtain ⟨-, h⟩ := List.cons.inj h
    exact absurd (List.cons.inj h).2 (segments_ne_lparen hr)
  | field :: fields, .index i tail, r, r', h, _, _ => nomatch (List.cons.inj h).1

/-- The one derivation of a phrase, with nothing after it that continues it. -/
def Tree.OneInCel {s : Symbol} (t : Tree s) : Prop :=
  ∀ (u : CelTree s.cel) {r r' : List Token},
    t.yield ++ r = u.yield ++ r' → Stops s.level r → s.CelEnds r' → u = t.toCel ∧ r = r'

/-- An operand of a relation that the relation does not go on from. -/
theorem eq_member {p : Tree .primary} {u : CelTree .unary} {r' : List Token}
    (hp : p.OneInCel) (h : p.yield ++ r = (u.yield ++ tail.yield) ++ r') (hr : Stops 3 r)
    (hr' : Stops 3 r') : u = .member p.toCel ∧ tail = .relsNil ∧ r = r' := by
  cases u with
  | not operand => exact absurd h p.primary_ne_bang
  | member operand =>
    rw [append_assoc] at h
    obtain ⟨rfl, rfl⟩ := hp operand h (hr.mono (le_succ 3)) (CelTree.stops_rels hr')
    obtain rfl := CelTree.rels_eq_nil hr
    exact ⟨rfl, rfl, rfl⟩

/-- One derivation: negations, -/
theorem Tree.OneInCel.not {n : Tree .not} (hn : n.OneInCel) : (Tree.not n).OneInCel := by
  intro (u : CelTree .relation) r r' h hr hr'
  cases u with
  | relation head tail =>
    cases head with
    | not operand =>
      obtain ⟨heq, rfl⟩ := hn (.relation operand tail) (List.cons.inj h).2 hr hr'
      refine ⟨?_, rfl⟩
      show _ = n.toCel.negate
      rw [← heq]
      rfl
    | member operand =>
      have hhead : .punct .bang :: (n.yield ++ r) = (operand.yield ++ tail.yield) ++ r' := h
      rw [append_assoc] at hhead
      exact absurd hhead.symm operand.member_ne_bang

/-- comparisons, -/
theorem Tree.OneInCel.compare {left right : Tree .primary} (op : RelOp) (hleft : left.OneInCel)
    (hright : right.OneInCel) : (Tree.compare left op right).OneInCel := by
  intro (u : CelTree .relation) r r' h hr hr'
  have hcut : left.yield ++ (op.token :: (right.yield ++ r)) = u.yield ++ r' := by
    rw [← h]
    show _ = (left.yield ++ op.token :: right.yield) ++ r
    rw [append_assoc, cons_append]
  cases u with
  | relation head rels =>
    cases head with
    | not operand => exact absurd hcut left.primary_ne_bang
    | member operand =>
      rw [show (CelTree.relation (.member operand) rels).yield = operand.yield ++ rels.yield from rfl,
        append_assoc] at hcut
      obtain ⟨rfl, hrels⟩ := hleft operand hcut (stops_token op _) (CelTree.stops_rels hr')
      cases rels with
      | relsNil =>
        rw [← show _ = r' from hrels] at hr'
        exact absurd hr' (not_stops_token op _)
      | relsCons op' operand' tail =>
        obtain ⟨hop, hrest⟩ := List.cons.inj hrels
        obtain ⟨rfl, rfl, rfl⟩ := eq_member hright hrest hr hr'
        exact ⟨by rw [RelOp.token_inj hop]; rfl, rfl⟩

/-- parentheses, -/
theorem Tree.OneInCel.paren {inner : Tree .or} (hinner : inner.OneInCel) :
    (Tree.paren inner).OneInCel := by
  intro (u : CelTree .member) r r' h hr hr'
  obtain ⟨inner', suffixes, rfl, hrest⟩ := CelTree.eq_paren h
  have hcut : inner.yield ++ ([.punct .rparen] ++ r) =
      inner'.yield ++ ([.punct .rparen] ++ (suffixes.yield ++ r')) := by
    rw [← append_assoc]
    exact hrest
  obtain ⟨rfl, hclose⟩ := hinner inner' hcut (stops_close .rparen rfl r) (stops_close .rparen rfl _)
  obtain rfl : r = suffixes.yield ++ r' := (List.cons.inj hclose).2
  obtain rfl := CelTree.suffixes_eq_nil hr
  exact ⟨rfl, rfl⟩

/-- empty lists, -/
theorem Tree.OneInCel.empty : Tree.empty.OneInCel := by
  intro (u : CelTree .member) r r' h hr hr'
  obtain ⟨items, comma, suffixes, rfl, hrest⟩ := CelTree.eq_list h
  cases items with
  | argsNil =>
    obtain ⟨rfl, rfl, rfl⟩ := close_list hrest hr
    exact ⟨rfl, rfl⟩
  | argsCons head tail =>
    have hstops : Stops 0 ([.punct .rbracket] ++ r) := stops_close .rbracket rfl r
    rw [show [.punct .rbracket] ++ r = (head.yield ++ tail.yield) ++ _ from hrest,
      append_assoc] at hstops
    exact absurd hstops (head.not_stops (by decide) _)

/-- lists, -/
theorem Tree.OneInCel.list {head : Tree .or} {tail : Tree .items} (hhead : head.OneInCel)
    (htail : tail.OneInCel) : (Tree.list head tail).OneInCel := by
  intro (u : CelTree .member) r r' h hr hr'
  obtain ⟨items, comma, suffixes, rfl, hrest⟩ := CelTree.eq_list h
  have hends := celEnds_close comma (suffixes.yield ++ r')
  have hcut : head.yield ++ (tail.yield ++ ([.punct .rbracket] ++ r)) = items.yield ++
      (optional comma .comma ++ .punct .rbracket :: (suffixes.yield ++ r')) := by
    rw [← append_assoc tail.yield, ← append_assoc]
    exact hrest
  cases items with
  | argsNil =>
    have hstops := hends.stops
    rw [← show _ = optional comma .comma ++ _ from hcut] at hstops
    exact absurd hstops (head.not_stops (by decide) _)
  | argsCons head' tail' =>
    rw [show (CelTree.argsCons head' tail').yield = head'.yield ++ tail'.yield from rfl,
      append_assoc] at hcut
    obtain ⟨rfl, hitems⟩ := hhead head' hcut (stops_items (stops_close .rbracket rfl r))
      (CelTree.stops_more hends.stops)
    obtain ⟨rfl, hclose⟩ := htail tail' hitems (stops_close .rbracket rfl r) hends
    obtain ⟨rfl, rfl, rfl⟩ := close_list hclose hr
    exact ⟨rfl, rfl⟩

/-- and their items. -/
theorem Tree.OneInCel.itemsCons {item : Tree .or} {tail : Tree .items} (hitem : item.OneInCel)
    (htail : tail.OneInCel) : (Tree.itemsCons item tail).OneInCel := by
  intro (u : CelTree .more) r r' h hr hr'
  cases u with
  | moreNil =>
    -- a comma that ends the list is followed by a bracket, and no item starts with one
    rcases hr' with hr' | ⟨r'', hcomma, hr''⟩
    · exact (hr'.ne_cons (by decide) h.symm).elim
    · have hrest : (item.yield ++ tail.yield) ++ r = r'' :=
        (List.cons.inj ((show _ = r' from h).trans hcomma)).2
      rw [← hrest, append_assoc] at hr''
      exact absurd hr'' (item.not_stops (by decide) _)
  | moreCons item' tail' =>
    obtain ⟨rfl, rfl, rfl⟩ := cancel_append (List.cons.inj h).2 (hitem item')
      (htail tail' · hr hr') (stops_items hr) (CelTree.stops_more hr'.stops)
    exact ⟨rfl, rfl⟩

/-- **Tokens that cel-lite accepts have no other derivation in CEL.** -/
theorem Tree.eq_toCel : ∀ {s : Symbol} (t : Tree s) (t' : CelTree s.cel) {r r' : List Token},
    t.yield ++ r = t'.yield ++ r' → Stops s.level r → s.CelEnds r' → t' = t.toCel ∧ r = r' := by
  intro s t
  change t.OneInCel
  induction t with
  | or head tail ihHead ihTail =>
    intro (u : CelTree .expr) r r' h hr hr'
    cases u with
    | expr head' tail' =>
      obtain ⟨rfl, rfl, rfl⟩ := cancel_append h (ihHead head') (ihTail tail' · hr hr')
        (stops_ors hr) (CelTree.stops_ors hr')
      exact ⟨rfl, rfl⟩
  | orsNil =>
    intro (u : CelTree .ors) r r' h hr hr'
    cases u with
    | orsNil => exact ⟨rfl, h⟩
    | orsCons operand' tail' => exact (hr.ne_cons (by decide) h).elim
  | orsCons operand tail ihOperand ihTail =>
    intro (u : CelTree .ors) r r' h hr hr'
    cases u with
    | orsNil => exact (hr'.ne_cons (by decide) h.symm).elim
    | orsCons operand' tail' =>
      obtain ⟨rfl, rfl, rfl⟩ := cancel_append (List.cons.inj h).2 (ihOperand operand')
        (ihTail tail' · hr hr') (stops_ors hr) (CelTree.stops_ors hr')
      exact ⟨rfl, rfl⟩
  | and head tail ihHead ihTail =>
    intro (u : CelTree .and) r r' h hr hr'
    cases u with
    | and head' tail' =>
      obtain ⟨rfl, rfl, rfl⟩ := cancel_append h (ihHead head') (ihTail tail' · hr hr')
        (stops_ands hr) (CelTree.stops_ands hr')
      exact ⟨rfl, rfl⟩
  | andsNil =>
    intro (u : CelTree .ands) r r' h hr hr'
    cases u with
    | andsNil => exact ⟨rfl, h⟩
    | andsCons operand' tail' => exact (hr.ne_cons (by decide) h).elim
  | andsCons operand tail ihOperand ihTail =>
    intro (u : CelTree .ands) r r' h hr hr'
    cases u with
    | andsNil => exact (hr'.ne_cons (by decide) h.symm).elim
    | andsCons operand' tail' =>
      obtain ⟨rfl, rfl, rfl⟩ := cancel_append (List.cons.inj h).2 (ihOperand operand')
        (ihTail tail' · hr hr') (stops_ands hr) (CelTree.stops_ands hr')
      exact ⟨rfl, rfl⟩
  | not operand ih => exact ih.not
  | rel operand ih => exact ih
  | primary operand ih =>
    intro (u : CelTree .relation) r r' h hr hr'
    cases u with
    | relation head' tail' =>
      obtain ⟨rfl, rfl, rfl⟩ := eq_member ih h hr hr'
      exact ⟨rfl, rfl⟩
  | compare left op right ihLeft ihRight => exact .compare op ihLeft ihRight
  | paren inner ih => exact ih.paren
  | empty => exact .empty
  | list head tail ihHead ihTail => exact ihHead.list ihTail
  | literal value =>
    intro (u : CelTree .member) r r' h hr hr'
    obtain ⟨suffixes, rfl, hrest⟩ := CelTree.eq_literal h
    obtain rfl : r = suffixes.yield ++ r' := hrest
    obtain rfl := CelTree.suffixes_eq_nil hr
    exact ⟨rfl, rfl⟩
  | path head tail =>
    intro (u : CelTree .member) r r' h hr hr'
    rcases CelTree.eq_named h with ⟨suffixes, rfl, hrest⟩ | ⟨v, hcall⟩
    · obtain ⟨rfl, rfl⟩ := eq_selects hrest hr hr'
      exact ⟨rfl, rfl⟩
    · exact absurd hcall (segments_ne_lparen hr)
  | itemsNil =>
    intro (u : CelTree .more) r r' h hr hr'
    cases u with
    | moreNil => exact ⟨rfl, h⟩
    | moreCons item' tail' => exact (hr.ne_cons (by decide) h).elim
  | itemsCons item tail ihItem ihTail => exact ihItem.itemsCons ihTail

/-! ## One derivation in cel-lite -/

theorem CelTree.negate_inj {t u : CelTree .relation} (h : t.negate = u.negate) : t = u := by
  cases t with
  | relation head tail =>
    cases u with
    | relation head' tail' =>
      obtain ⟨hhead, htail⟩ := CelTree.relation.inj h
      rw [CelTree.not.inj hhead, htail]

theorem selects_inj : ∀ {ps qs : List JsString}, selects ps = selects qs → ps = qs
  | [], [], _ => rfl
  | _ :: _, _ :: _, h => by
    obtain ⟨hfield, htail⟩ := CelTree.select.inj h
    rw [hfield, selects_inj htail]

theorem Tree.toCel_rel (t : Tree .rel) : ∃ p tail, t.toCel = .relation (.member p) tail := by
  cases t with
  | primary operand => exact ⟨_, _, rfl⟩
  | compare left op right => exact ⟨_, _, rfl⟩

theorem Tree.negate_ne_rel (t : CelTree .relation) (u : Tree .rel) : t.negate ≠ u.toCel := by
  intro h
  obtain ⟨p, tail, hu⟩ := u.toCel_rel
  cases t with
  | relation _ _ => nomatch (CelTree.relation.inj (h.trans hu)).1

/-- No two derivations become one. -/
theorem Tree.toCel_inj : ∀ {s : Symbol} {t t' : Tree s}, t.toCel = t'.toCel → t = t' := by
  intro s t
  induction t with
  | or head tail ihHead ihTail =>
    intro t' h
    cases t' with
    | or head' tail' =>
      obtain ⟨hhead, htail⟩ := CelTree.expr.inj h
      rw [ihHead hhead, ihTail htail]
  | orsNil =>
    intro t' h
    cases t' with
    | orsNil => rfl
    | orsCons _ _ => nomatch h
  | orsCons operand tail ihOperand ihTail =>
    intro t' h
    cases t' with
    | orsNil => nomatch h
    | orsCons operand' tail' =>
      obtain ⟨hoperand, htail⟩ := CelTree.orsCons.inj h
      rw [ihOperand hoperand, ihTail htail]
  | and head tail ihHead ihTail =>
    intro t' h
    cases t' with
    | and head' tail' =>
      obtain ⟨hhead, htail⟩ := CelTree.and.inj h
      rw [ihHead hhead, ihTail htail]
  | andsNil =>
    intro t' h
    cases t' with
    | andsNil => rfl
    | andsCons _ _ => nomatch h
  | andsCons operand tail ihOperand ihTail =>
    intro t' h
    cases t' with
    | andsNil => nomatch h
    | andsCons operand' tail' =>
      obtain ⟨hoperand, htail⟩ := CelTree.andsCons.inj h
      rw [ihOperand hoperand, ihTail htail]
  | not operand ih =>
    intro t' h
    cases t' with
    | not operand' => rw [ih (CelTree.negate_inj h)]
    | rel operand' => exact absurd h (negate_ne_rel _ _)
  | rel operand ih =>
    intro t' h
    cases t' with
    | not operand' => exact absurd h.symm (negate_ne_rel _ _)
    | rel operand' => rw [ih h]
  | primary operand ih =>
    intro t' h
    cases t' with
    | primary operand' => rw [ih (CelTree.member.inj (CelTree.relation.inj h).1)]
    | compare _ _ _ => nomatch (CelTree.relation.inj h).2
  | compare left op right ihLeft ihRight =>
    intro t' h
    cases t' with
    | primary _ => nomatch (CelTree.relation.inj h).2
    | compare left' op' right' =>
      obtain ⟨hleft, hrels⟩ := CelTree.relation.inj h
      obtain ⟨hop, hright, -⟩ := CelTree.relsCons.inj hrels
      rw [ihLeft (CelTree.member.inj hleft), hop, ihRight (CelTree.member.inj hright)]
  | paren inner ih =>
    intro t' h
    cases t' with
    | paren inner' => rw [ih (CelTree.paren.inj (CelTree.suffixed.inj h).1)]
    | empty | list _ _ | literal _ | path _ _ => nomatch (CelTree.suffixed.inj h).1
  | empty =>
    intro t' h
    cases t' with
    | empty => rfl
    | list _ _ => nomatch (CelTree.list.inj (CelTree.suffixed.inj h).1).1
    | paren _ | literal _ | path _ _ => nomatch (CelTree.suffixed.inj h).1
  | list head tail ihHead ihTail =>
    intro t' h
    cases t' with
    | list head' tail' =>
      obtain ⟨hhead, htail⟩ := CelTree.argsCons.inj (CelTree.list.inj (CelTree.suffixed.inj h).1).1
      rw [ihHead hhead, ihTail htail]
    | empty => nomatch (CelTree.list.inj (CelTree.suffixed.inj h).1).1
    | paren _ | literal _ | path _ _ => nomatch (CelTree.suffixed.inj h).1
  | literal value =>
    intro t' h
    cases t' with
    | literal value' => rw [CelTree.literal.inj (CelTree.suffixed.inj h).1]
    | paren _ | empty | list _ _ | path _ _ => nomatch (CelTree.suffixed.inj h).1
  | path head tail =>
    intro t' h
    cases t' with
    | path head' tail' =>
      obtain ⟨hhead, htail⟩ := CelTree.suffixed.inj h
      rw [(CelTree.ident.inj hhead).2, selects_inj htail]
    | paren _ | empty | list _ _ | literal _ => nomatch (CelTree.suffixed.inj h).1
  | itemsNil =>
    intro t' h
    cases t' with
    | itemsNil => rfl
    | itemsCons _ _ => nomatch h
  | itemsCons item tail ihItem ihTail =>
    intro t' h
    cases t' with
    | itemsNil => nomatch h
    | itemsCons item' tail' =>
      obtain ⟨hitem, htail⟩ := CelTree.moreCons.inj h
      rw [ihItem hitem, ihTail htail]

theorem Symbol.celEnds_of_stops {s : Symbol} (h : Stops s.level r) :
    s.CelEnds r := by
  cases s with
  | items => exact .inl h
  | or | ors | and | ands | not | rel | primary => exact h

/-- **Two phrases of a kind at one place are one**, where nothing comes that continues either. -/
theorem Tree.cancel {s : Symbol} (t t' : Tree s) {r' : List Token}
    (h : t.yield ++ r = t'.yield ++ r') (hr : Stops s.level r) (hr' : Stops s.level r') :
    t = t' ∧ r = r' := by
  rw [← t'.yield_toCel] at h
  obtain ⟨heq, hrr⟩ := t.eq_toCel t'.toCel h hr (Symbol.celEnds_of_stops hr')
  exact ⟨toCel_inj heq.symm, hrr⟩

/-- Tokens have one derivation in cel-lite. -/
theorem Tree.unique {t t' : Tree .or} (h : t.yield = t'.yield) : t = t' :=
  (t.cancel t' (congrArg (· ++ [Token.eof]) h) stops_eof stops_eof).1

end FalseFlag.CelLite
