/-
  What the Go side takes from its runtime and from third parties.

  * encoding/json.  A `Doc` is a parsed JSON document: members in written order, numbers as
    literals.  A `Value` is what `json.Unmarshal(raw, &v)` stores in an `any`: objects as maps and
    numbers ROUNDED to float64 (there is one zero here).  The only document `unmarshalAny` rejects
    is one with a number outside the float64 range.  `marshalAny` is `json.Marshal` of an `any`, and
    `marshalText` its bytes, which `jsonEqual` (internal/eval/predicates.go) compares.
  * regexp, cel-go, esbuild and goja are parameters: the fields of `Env`.  Nothing is assumed of
    them but that they are functions of their inputs, and that esbuild rejects a JSON object.
-/
import FalseFlag.Lib.Binary
import FalseFlag.Lib.JsonCarry
import FalseFlag.Lib.JsonText

namespace FalseFlag

open JsonTree Binary

/-! ## Documents and values -/

/-- A number literal: digits only, or with a fraction or an exponent.  Only the first kind can be
    read into a Go `int`. -/
inductive JNum where
  | int (i : Int)
  | dec (q : Rat)
  deriving DecidableEq

/-- The number a literal denotes. -/
def JNum.val : JNum → Rat
  | .int i => i
  | .dec q => q

/-- The float64 a literal is read as. -/
def JNum.float64 (n : JNum) : Rat := binary64.round n.val

/-- A JSON document (the content of a `json.RawMessage`). -/
abbrev Doc (S : Type := String) := Json JNum S

/-- A decoded JSON value (the content of an `any`). -/
abbrev Value := Json Rat

/-- A `map[string]any`: the evaluation context. -/
abbrev Context := List (String × Value)

/-- `strconv.ParseFloat` reports no range error. -/
def float64InRange (q : Rat) : Bool := decide (|binary64.round q| < 2 ^ 1024)

mutual

/-- Every number of the document fits in a float64. -/
def inRange : Doc → Bool
  | .num n => float64InRange n.val
  | .arr items => inRangeItems items
  | .obj members => inRangeMembers members
  | .null | .bool _ | .str _ => true
  termination_by structural d => d

/-- `inRange` on items. -/
def inRangeItems : List Doc → Bool
  | [] => true
  | x :: xs => inRange x && inRangeItems xs
  termination_by structural ds => ds

/-- `inRange` on members. -/
def inRangeMembers : List (String × Doc) → Bool
  | [] => true
  | (_, v) :: ms => inRange v && inRangeMembers ms
  termination_by structural ms => ms

end

/-- Why `json.Unmarshal` fails: the value cannot be stored in the target (a number out of range
    counts as one that cannot be stored in a float64). -/
inductive JsonError where
  | cannotUnmarshal
  deriving DecidableEq

/-- The value of a document. -/
def Doc.value (d : Doc) : Value := d.norm JNum.float64

/-- `json.Unmarshal(raw, &v)` into an `any`. -/
def unmarshalAny (d : Doc) : Except JsonError Value :=
  if inRange d then .ok (Doc.value d) else .error .cannotUnmarshal

/-- `json.Unmarshal(raw, &s)` into a string that is `""` before: `null` leaves it alone. -/
def unmarshalString : Doc → Except JsonError String
  | .str s => .ok s
  | .null => .ok ""
  | _ => .error .cannotUnmarshal

/-! ## json.Marshal -/

/-- How a float64 is written: the shortest decimal that reads back.  Below `1e21` it has no
    exponent, so an integer is written as one. -/
def formatFloat (q : Rat) : JNum :=
  let c := binary64.shortest 17 q
  if c.den = 1 ∧ |q| < 10 ^ 21 then .int c.num else .dec c

/-- `json.Marshal` of an `any`.  A `Value` lists its members in increasing order already. -/
def marshalAny (v : Value) : Doc := v.mapNum formatFloat

theorem formatFloat_val (q : Rat) : (formatFloat q).val = binary64.shortest 17 q := by
  unfold formatFloat
  simp only
  split
  · rename_i h
    exact Rat.den_eq_one_iff _ |>.mp h.1
  · rfl

/-- A float64 is written as a literal that is read as this float64. -/
theorem float64_formatFloat (n : JNum) : (formatFloat n.float64).float64 = n.float64 := by
  rw [JNum.float64, formatFloat_val]
  exact Format.round_shortest 17 n.val

/-- What is written is read as the value it was. -/
theorem value_marshalAny (d : Doc) : Doc.value (marshalAny (Doc.value d)) = Doc.value d := by
  have hread := Json.carries_norm JNum.float64 d
  have hprint := Json.carries_mapNum formatFloat (Json.noDup_norm JNum.float64 d)
  refine Json.Carries.norm_eq ?_ d (hread.trans d hprint)
  rintro n _ ⟨_, rfl, rfl⟩
  exact float64_formatFloat n

/-- The characters `json.Marshal` writes as `\uXXXX` (HTML escaping is on). -/
def goUni (c : Char) : Bool :=
  c.toNat < 0x20 || c == '<' || c == '>' || c == '&' || c.toNat == 0x2028 || c.toNat == 0x2029

/-- Go's string escapes. -/
def goChars : CharCode := CharCode.ofUni goUni (by
  intro c hc
  simp only [goUni, Bool.or_eq_true, decide_eq_true_eq, beq_iff_eq] at hc
  rcases hc with ((((h | h) | h) | h) | h) | h
  · omega
  · subst h; decide
  · subst h; decide
  · subst h; decide
  · omega
  · omega)

/-- The bytes of `json.Marshal(v)`, as characters; `fmt` spells the numbers. -/
def marshalText (fmt : NumCode Rat) (v : Value) : List Char :=
  (goChars.code fmt).render v

/-- `jsonEqual` of internal/eval/predicates.go: strings, booleans and nil are compared directly,
    everything else through its bytes. -/
def jsonEqual (fmt : NumCode Rat) (a b : Value) : Bool :=
  match a with
  | .str s => match b with
    | .str t => s == t
    | _ => false
  | .bool x => match b with
    | .bool y => x == y
    | _ => false
  | .null => match b with
    | .null => true
    | _ => false
  | _ => marshalText fmt a == marshalText fmt b

/-- Comparing bytes compares values. -/
theorem jsonEqual_iff (fmt : NumCode Rat) (a b : Value) : jsonEqual fmt a b = true ↔ a = b := by
  have htext : marshalText fmt a = marshalText fmt b ↔ a = b :=
    ⟨fun h => (goChars.code fmt).render_injective h, fun h => by rw [h]⟩
  unfold jsonEqual
  cases a with
  | null => cases b <;> simp
  | bool x => cases b <;> simp
  | str s => cases b <;> simp
  | num q => simpa using htext
  | arr items => simpa using htext
  | obj members => simpa using htext

/-! ## Third parties -/

/-- What `prog.Eval` returns when it does not fail; only booleans are looked at. -/
inductive CelValue where
  | bool (b : Bool)
  | other
  deriving DecidableEq

/-- A `cel.Program`: a function of the context bound to `ctx`. -/
abbrev CELProgram := Context → Except String CelValue

/-- The result of `env.Compile(source)` when there are no issues: its output type, and what
    `env.Program` makes of it. -/
structure CelAst where
  outputType : String
  program : Except String CELProgram

/-- The bytes given to a compiler: a JSON document, or a text that is not one. -/
inductive Source where
  | json (d : Doc)
  | text (s : String)
  deriving DecidableEq

/-- The parts of the system that are not in the repository. -/
structure Env where
  /-- How float64 numbers are printed. -/
  fmt : NumCode Rat
  /-- `strconv.Quote`. -/
  quote : String → String
  /-- The message of the error `json.Unmarshal` returns. -/
  jsonErrorText : Source → String
  /-- `regexp.Compile`: the text of its error, or `MatchString` of what it returns. -/
  regexpCompile : String → Except String (String → Bool)
  /-- `env.Compile` of the CEL environment built by `celEnv`. -/
  celCompile : String → Except String CelAst
  /-- esbuild and goja on a TypeScript source: `json.Marshal` of `module.exports.default`. -/
  runModule : Source → Except String Doc
  /-- An object with members is no TypeScript: `{"a":` does not parse. -/
  runModule_object : ∀ m ms, ∃ err, runModule (.json (.obj (m :: ms))) = .error err
  /-- The bytes of a document; a JSON text is never empty. -/
  docText : Doc → String
  docText_ne : ∀ d, docText d ≠ ""

/-- `len` of a `json.RawMessage`. -/
def Env.docLen (env : Env) (d : Doc) : Nat := (env.docText d).utf8ByteSize

theorem Env.docLen_pos (env : Env) (d : Doc) : 0 < env.docLen d :=
  Nat.pos_of_ne_zero fun h => env.docText_ne d (String.utf8ByteSize_eq_zero_iff.mp h)

/-- `len(source)`. -/
def Env.sourceLen (env : Env) : Source → Nat
  | .json d => env.docLen d
  | .text s => s.utf8ByteSize

/-! ### A runtime to run examples in -/

/-- Numbers in unary: enough to tell them apart. -/
def unaryNum : NumCode Rat where
  num q := (if q.num < 0 then ['-'] else []) ++ List.replicate q.num.natAbs '1'
    ++ List.replicate q.den '2'
  num_injective := by
    intro p q h
    have hsign := congrArg (List.count '-') h
    have hnum := congrArg (List.count '1') h
    have hden := congrArg (List.count '2') h
    have hnum' : p.num.natAbs = q.num.natAbs := by
      by_cases hp : p.num < 0 <;> by_cases hq : q.num < 0 <;> simpa [hp, hq, List.count_replicate] using hnum
    have hden' : p.den = q.den := by
      by_cases hp : p.num < 0 <;> by_cases hq : q.num < 0 <;> simpa [hp, hq, List.count_replicate] using hden
    have hsign' : p.num < 0 ↔ q.num < 0 := by
      by_cases hp : p.num < 0 <;> by_cases hq : q.num < 0 <;> simp [hp, hq, List.count_replicate] at hsign ⊢
    exact Rat.ext (by omega) hden'
  num_ne_nil := by
    intro q h
    have hden := congrArg List.length h
    simp at hden
  num_chars := by
    intro q c hc
    simp only [List.mem_append, List.mem_replicate] at hc
    rcases hc with (hc | ⟨-, rfl⟩) | ⟨-, rfl⟩
    · split at hc
      · rw [List.mem_singleton.mp hc]
        decide
      · nomatch hc
    · decide
    · decide

/-- No regular expression and no CEL source compiles here, and no TypeScript module runs. -/
def Env.plain : Env where
  fmt := unaryNum
  quote := fun s => s
  jsonErrorText := fun _ => "json"
  regexpCompile := fun _ => .error "regexp"
  celCompile := fun _ => .error "cel"
  runModule := fun _ => .error "esbuild"
  runModule_object := fun _ _ => ⟨_, rfl⟩
  docText := fun _ => "{}"
  docText_ne := fun _ => by decide

end FalseFlag
