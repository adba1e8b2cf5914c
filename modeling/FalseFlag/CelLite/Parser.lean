/-
  The parser of cel-lite (js/packages/sdk-js/src/cel-lite.ts).

  The class `Parser` descends by precedence, one method for each level, and keeps a position in the
  list of tokens; here the state is what is left of the list.  A loop of a method is a function of
  its own.  The methods call each other without a bound, so that they have fuel here; that it
  suffices is shown with the rest, in the module on what the parser accepts.
-/
import FalseFlag.CelLite.Lexer
import FalseFlag.Lib.Cel
import FalseFlag.Lib.Reading

namespace FalseFlag.CelLite

open Reading
open Cel (BinOp)

/-! ## Syntax trees -/

/-- The value of a literal. -/
inductive Const where
  | string (value : JsString)
  | number (value : Number)
  | bool (value : Bool)
  | null

/-- `Expr`. -/
inductive Ast where
  | literal (value : Const)
  | path (parts : List JsString)
  | list (items : List Ast)
  | unary (operand : Ast)
  | binary (op : BinOp) (left right : Ast)

/-- The operators of `parseRel`. -/
inductive RelOp where
  | eq | ne | lt | le | gt | ge | isIn
  deriving DecidableEq

def RelOp.binOp : RelOp → BinOp
  | .eq => .eq
  | .ne => .ne
  | .lt => .lt
  | .le => .le
  | .gt => .gt
  | .ge => .ge
  | .isIn => .isIn

def RelOp.token : RelOp → Token
  | .eq => .punct .eq
  | .ne => .punct .ne
  | .lt => .punct .lt
  | .le => .punct .le
  | .gt => .punct .gt
  | .ge => .punct .ge
  | .isIn => .punct .isIn

def relOp? : Token → Option RelOp
  | .punct .eq => some .eq
  | .punct .ne => some .ne
  | .punct .lt => some .lt
  | .punct .le => some .le
  | .punct .gt => some .gt
  | .punct .ge => some .ge
  | .punct .isIn => some .isIn
  | _ => none

/-! ## The parser -/

inductive ParseError where
  /-- `peek past end of input` -/
  | peekPastEnd
  /-- `next past end of input` -/
  | nextPastEnd
  /-- `expected ${value}, got ${JSON.stringify(this.peek())}` -/
  | expected (value : Punct) (got : Token)
  /-- `trailing tokens at ${this.pos}` -/
  | trailing (pos : ℕ)
  /-- `expected ident after '.'` -/
  | expectedIdent
  /-- `unexpected token ${JSON.stringify(t)}` -/
  | unexpected (t : Token)
  | outOfFuel

abbrev Parser := Reader Token ParseError

def peek : Parser Token := head .peekPastEnd

def next : Parser Token := take .nextPastEnd

def acceptPunct (value : Punct) : Parser Bool := accept .peekPastEnd (.punct value)

def expectPunct (value : Punct) : Parser Unit := do
  if ← acceptPunct value then pure ()
  else
    let got ← peek
    throw (.expected value got)

/-- The loop of `parsePrimary` over the parts of a path. -/
def pathLoop : ℕ → List JsString → Parser (List JsString)
  | 0, _ => throw .outOfFuel
  | n + 1, parts => do
    if ← acceptPunct .dot then
      let seg ← next
      match seg with
      | .ident value => pathLoop n (parts ++ [value])
      | _ => throw .expectedIdent
    else pure parts

mutual

def parseOr : ℕ → Parser Ast
  | 0 => throw .outOfFuel
  | n + 1 => do
    let left ← parseAnd n
    orLoop n left
  termination_by structural n => n

/-- The loop of `parseOr`. -/
def orLoop : ℕ → Ast → Parser Ast
  | 0, _ => throw .outOfFuel
  | n + 1, left => do
    if ← acceptPunct .or then
      let right ← parseAnd n
      orLoop n (.binary .or left right)
    else pure left
  termination_by structural n => n

def parseAnd : ℕ → Parser Ast
  | 0 => throw .outOfFuel
  | n + 1 => do
    let left ← parseNot n
    andLoop n left
  termination_by structural n => n

/-- The loop of `parseAnd`. -/
def andLoop : ℕ → Ast → Parser Ast
  | 0, _ => throw .outOfFuel
  | n + 1, left => do
    if ← acceptPunct .and then
      let right ← parseNot n
      andLoop n (.binary .and left right)
    else pure left
  termination_by structural n => n

def parseNot : ℕ → Parser Ast
  | 0 => throw .outOfFuel
  | n + 1 => do
    if ← acceptPunct .bang then
      let operand ← parseNot n
      pure (.unary operand)
    else parseRel n
  termination_by structural n => n

def parseRel : ℕ → Parser Ast
  | 0 => throw .outOfFuel
  | n + 1 => do
    let left ← parsePrimary n
    let t ← peek
    match relOp? t with
    | some op =>
      advance
      let right ← parsePrimary n
      pure (.binary op.binOp left right)
    | none => pure left
  termination_by structural n => n

def parsePrimary : ℕ → Parser Ast
  | 0 => throw .outOfFuel
  | n + 1 => do
    let t ← peek
    match t with
    | .punct .lparen =>
      advance
      let inner ← parseOr n
      expectPunct .rparen
      pure inner
    | .punct .lbracket =>
      advance
      if ← acceptPunct .rbracket then pure (.list [])
      else
        let item ← parseOr n
        let items ← itemsLoop n [item]
        expectPunct .rbracket
        pure (.list items)
    | .string value =>
      advance
      pure (.literal (.string value))
    | .number value =>
      advance
      pure (.literal (.number value))
    | .bool value =>
      advance
      pure (.literal (.bool value))
    | .null =>
      advance
      pure (.literal .null)
    | .ident value =>
      advance
      let parts ← pathLoop n [value]
      pure (.path parts)
    | t => throw (.unexpected t)
  termination_by structural n => n

/-- The loop of `parsePrimary` over the items of a list. -/
def itemsLoop : ℕ → List Ast → Parser (List Ast)
  | 0, _ => throw .outOfFuel
  | n + 1, items => do
    if ← acceptPunct .comma then
      let item ← parseOr n
      itemsLoop n (items ++ [item])
    else pure items
  termination_by structural n => n

end

/-- The calls that suffice: five levels for each token. -/
def parseFuel (tokens : List Token) : ℕ := 5 * tokens.length + 5

/-- `parse`.  The position is the number of tokens less those that are left. -/
def parse (fuel : ℕ) (tokens : List Token) : Except ParseError Ast := do
  let (expr, rest) ← parseOr fuel tokens
  let (t, rest) ← peek rest
  if t = .eof then pure expr
  else throw (.trailing (tokens.length - rest.length))

end FalseFlag.CelLite
