/-
  The rules-tree IR (internal/config/ir.go) and its JSON form.

  `RulesTree`, `Rule` and `Predicate` are the Go structs, field by field.  What matters about the
  Go types is kept: a `json.RawMessage` may be nil (`none`) and `null` is NOT nil (it is the
  document `null`); a child of `of` may be a nil pointer; the `rules` slice may be nil, which is
  written `null` and not `[]`.  Slices tagged `omitempty` (`values`, `of`) are plain lists: nil and
  empty behave alike in every use.

  `decodeTree` is `json.Unmarshal` into a zero `RulesTree`: members are taken in order, a name
  matches its field exactly or up to case, unknown names are skipped, `null` clears pointers and
  slices and leaves strings, integers and structs alone, and a repeated name is decoded INTO what
  the earlier one left.  `encodeTree` is `json.Marshal`, with `omitempty`.
-/
import FalseFlag.GoRuntime
import FalseFlag.Lib.Fallible
import FalseFlag.Lib.Named
import FalseFlag.Lib.Record
import Mathlib.Data.List.Forall2
import Mathlib.Data.Option.Basic

namespace FalseFlag

open JsonTree Fallible

/-! ## The enumerations -/

/-- `ValueType`: the typed value kinds a flag may return. -/
inductive ValueType where
  | boolean | string | number | object
  deriving DecidableEq

def ValueType.name : ValueType → String
  | .boolean => "boolean"
  | .string => "string"
  | .number => "number"
  | .object => "object"

def ValueType.parse : String → Option ValueType
  | "boolean" => some .boolean
  | "string" => some .string
  | "number" => some .number
  | "object" => some .object
  | _ => none

instance : StringEnum ValueType where
  name := ValueType.name
  parse := ValueType.parse
  parse_name := by intro a; cases a <;> rfl
  name_of_parse := by
    intro s a h
    unfold ValueType.parse at h
    split at h <;> first | (injection h with h; subst h; rfl) | nomatch h

/-- `PredicateKind`: the predicate node types. -/
inductive PredicateKind where
  | eq | neq | isIn | gt | gte | lt | lte | matches | startsWith | rollout
  | all | any | not | cel | always | segment
  deriving DecidableEq

def PredicateKind.name : PredicateKind → String
  | .eq => "eq"
  | .neq => "neq"
  | .isIn => "in"
  | .gt => "gt"
  | .gte => "gte"
  | .lt => "lt"
  | .lte => "lte"
  | .matches => "matches"
  | .startsWith => "starts_with"
  | .rollout => "rollout"
  | .all => "all"
  | .any => "any"
  | .not => "not"
  | .cel => "cel"
  | .always => "always"
  | .segment => "segment"

def PredicateKind.parse : String → Option PredicateKind
  | "eq" => some .eq
  | "neq" => some .neq
  | "in" => some .isIn
  | "gt" => some .gt
  | "gte" => some .gte
  | "lt" => some .lt
  | "lte" => some .lte
  | "matches" => some .matches
  | "starts_with" => some .startsWith
  | "rollout" => some .rollout
  | "all" => some .all
  | "any" => some .any
  | "not" => some .not
  | "cel" => some .cel
  | "always" => some .always
  | "segment" => some .segment
  | _ => none

instance : StringEnum PredicateKind where
  name := PredicateKind.name
  parse := PredicateKind.parse
  parse_name := by intro a; cases a <;> rfl
  name_of_parse := by
    intro s a h
    unfold PredicateKind.parse at h
    split at h <;> first | (injection h with h; subst h; rfl) | nomatch h

/-! ## The structs -/

/-- `Predicate`: a node of the predicate tree.  Different kinds use different fields; unset fields
    are zero.  In raw values strings may be kept as they are written (`S`). -/
@[ext] structure Predicate (S : Type := String) where
  kind : Named PredicateKind := .ofString ""
  attr : String := ""
  value : Option (Doc S) := none
  values : List (Doc S) := []
  pattern : String := ""
  salt : String := ""
  percent : Int64 := 0
  of : List (Option (Predicate S)) := []
  ofOne : Option (Predicate S) := none
  source : String := ""
  segmentKey : String := ""

/-- Induction over predicates: a node may use the property of its children, under `of` and under
    `of_one`, whatever its kind. -/
@[induction_eliminator]
theorem Predicate.induct {S : Type} {P : Predicate S → Prop}
    (node : ∀ p : Predicate S, (∀ c, some c ∈ p.of → P c) → (∀ c, p.ofOne = some c → P c) → P p)
    (p : Predicate S) : P p := by
  refine @Predicate.rec S P (fun cs => ∀ c, some c ∈ cs → P c) (fun o => ∀ c, o = some c → P c)
    (fun _ _ _ _ _ _ _ _ _ _ _ hof hone => node _ hof hone) ?_ ?_ ?_ ?_ p
  · intro c hc
    exact absurd hc List.not_mem_nil
  · intro o os ho hos c hc
    rcases List.mem_cons.mp hc with h | h
    · exact ho c h.symm
    · exact hos c h
  · intro c hc
    nomatch hc
  · intro q hq c hc
    injection hc with hc
    rw [← hc]
    exact hq

/-- `q` stands in `p`, at any depth, through `of` and `of_one`. -/
inductive Predicate.Sub : Predicate → Predicate → Prop
  | refl (p : Predicate) : Sub p p
  | of {q c p : Predicate} : some c ∈ p.of → Sub q c → Sub q p
  | ofOne {q c p : Predicate} : p.ofOne = some c → Sub q c → Sub q p

/-- `Rule`: a single targeting clause. -/
@[ext] structure Rule (S : Type := String) where
  id : String := ""
  when : Option (Predicate S) := none
  value : Option (Doc S) := none

/-- `RulesTree`: the first rule whose `when` matches wins, else the default is served. -/
@[ext] structure RulesTree (S : Type := String) where
  valueType : Named ValueType := .ofString ""
  default : Option (Doc S) := none
  rules : Option (List (Rule S)) := none

/-- The rules, a nil slice read as an empty one. -/
def RulesTree.ruleList {S : Type} (t : RulesTree S) : List (Rule S) := t.rules.getD []

/-! ## Raw values as texts -/

section Text

variable {S : Type} [Strings S]

mutual

/-- The predicate with the strings of its raw values as texts. -/
def Predicate.text : Predicate S → Predicate
  | { kind, attr, value, values, pattern, salt, percent, of, ofOne, source, segmentKey } =>
    { kind, attr, value := value.map Json.text, values := values.map Json.text, pattern, salt,
      percent, of := textPtrs of, ofOne := textPtr ofOne, source, segmentKey }
  termination_by structural p => p

/-- `Predicate.text` of a pointer. -/
def textPtr : Option (Predicate S) → Option Predicate
  | none => none
  | some p => some p.text
  termination_by structural o => o

/-- `Predicate.text` of the elements of `of`. -/
def textPtrs : List (Option (Predicate S)) → List (Option Predicate)
  | [] => []
  | o :: os => textPtr o :: textPtrs os
  termination_by structural os => os

end

/-- The operands, one by one. -/
theorem textPtrs_eq_map : ∀ os : List (Option (Predicate S)), textPtrs os = os.map textPtr
  | [] => by rw [textPtrs, List.map_nil]
  | o :: os => by rw [textPtrs, textPtrs_eq_map os, List.map_cons]

@[simp] theorem Predicate.text_kind (p : Predicate S) : p.text.kind = p.kind := by cases p; rfl

@[simp] theorem Predicate.text_attr (p : Predicate S) : p.text.attr = p.attr := by cases p; rfl

@[simp] theorem Predicate.text_pattern (p : Predicate S) :
    p.text.pattern = p.pattern := by cases p; rfl

@[simp] theorem Predicate.text_salt (p : Predicate S) : p.text.salt = p.salt := by cases p; rfl

@[simp] theorem Predicate.text_percent (p : Predicate S) :
    p.text.percent = p.percent := by cases p; rfl

@[simp] theorem Predicate.text_value (p : Predicate S) : p.text.value = p.value.map Json.text := by
  cases p; rfl

@[simp] theorem Predicate.text_values (p : Predicate S) :
    p.text.values = p.values.map Json.text := by
  cases p; rfl

@[simp] theorem Predicate.text_of (p : Predicate S) : p.text.of = p.of.map textPtr := by
  cases p
  exact textPtrs_eq_map _

@[simp] theorem Predicate.text_ofOne (p : Predicate S) : p.text.ofOne = textPtr p.ofOne := by
  cases p; rfl

def Rule.text (r : Rule S) : Rule where
  id := r.id
  when := textPtr r.when
  value := r.value.map Json.text

def RulesTree.text (t : RulesTree S) : RulesTree where
  valueType := t.valueType
  default := t.default.map Json.text
  rules := t.rules.map (·.map Rule.text)

end Text

/-! ## json.Marshal -/

section Encode

open Strings

variable {S : Type} [Strings S]

/-- A struct field that is left out when `v` is `none`. -/
def optField (name : String) (v : Option (Doc S)) : List (S × Doc S) :=
  match v with
  | none => []
  | some d => [(ofText name, d)]

/-- A string field with `omitempty`. -/
def omitString (s : String) : Option (Doc S) := if s = "" then none else some (.str (ofText s))

/-- An `int` field with `omitempty`. -/
def omitInt (i : Int64) : Option (Doc S) := if i = 0 then none else some (.num (.int i.toInt))

/-- A slice field with `omitempty`. -/
def omitList (ds : List (Doc S)) : Option (Doc S) := if ds = [] then none else some (.arr ds)

mutual

/-- `json.Marshal` of a `Predicate`. -/
def encodePredicate : Predicate S → Doc S
  | { kind, attr, value, values, pattern, salt, percent, of, ofOne, source, segmentKey } =>
    .obj ((ofText "kind", .str (ofText kind.toString)) :: (optField "attr" (omitString attr)
      ++ optField "value" value
      ++ optField "values" (omitList values)
      ++ optField "pattern" (omitString pattern)
      ++ optField "salt" (omitString salt)
      ++ optField "percent" (omitInt percent)
      ++ optField "of" (omitList (encodePtrs of))
      ++ optField "of_one" (encodeOfOne ofOne)
      ++ optField "source" (omitString source)
      ++ optField "key" (omitString segmentKey)))
  termination_by structural p => p

/-- `json.Marshal` of a pointer that is left out when nil. -/
def encodeOfOne : Option (Predicate S) → Option (Doc S)
  | none => none
  | some p => some (encodePredicate p)
  termination_by structural p => p

/-- `json.Marshal` of the elements of `of`; a nil one is `null`. -/
def encodePtrs : List (Option (Predicate S)) → List (Doc S)
  | [] => []
  | o :: os => (encodeOfOne o).getD .null :: encodePtrs os
  termination_by structural ps => ps

end

/-- `json.Marshal` of a `*Predicate`. -/
def encodePtr (o : Option (Predicate S)) : Doc S := (encodeOfOne o).getD .null

/-- `json.Marshal` of a `Rule`; a nil `RawMessage` is written `null`. -/
def encodeRule (r : Rule S) : Doc S :=
  .obj [(ofText "id", .str (ofText r.id)), (ofText "when", encodePtr r.when),
    (ofText "value", r.value.getD .null)]

/-- `json.Marshal` of a `RulesTree`. -/
def encodeTree (t : RulesTree S) : Doc S :=
  .obj [(ofText "value_type", .str (ofText t.valueType.toString)),
    (ofText "default", t.default.getD .null),
    (ofText "rules", match t.rules with
      | none => .null
      | some rs => .arr (rs.map encodeRule))]

end Encode

/-! ## json.Unmarshal -/

/-- The folding under which encoding/json compares names.  Of the letters in field names only `k`
    and `s` have a partner outside ASCII (KELVIN SIGN, LONG S). -/
def foldRune (c : Char) : Char :=
  if c.toNat = 0x212A then 'K'
  else if c.toNat = 0x17F then 'S'
  else c.toUpper

def foldName (s : String) : List Char := s.toList.map foldRune

/-- The field a member name stands for: an exact match if there is one, else a match up to case. -/
def findField {φ : Type} (fields : List (String × φ)) (name : String) : Option φ :=
  (fields.lookup name).or ((fields.map fun f => (foldName f.1, f.2)).lookup (foldName name))

/-- Into a string: `null` leaves it alone. -/
def decodeString (cur : String) : Doc → Except JsonError String
  | .str s => .ok s
  | .null => .ok cur
  | _ => .error .cannotUnmarshal

/-- Into an `int`: only a literal without fraction or exponent, in 64 bits. -/
def decodeInt (cur : Int64) : Doc → Except JsonError Int64
  | .num (.int i) =>
    if -2 ^ 63 ≤ i ∧ i < 2 ^ 63 then .ok (Int64.ofInt i) else .error .cannotUnmarshal
  | .null => .ok cur
  | _ => .error .cannotUnmarshal

/-- Into a `[]json.RawMessage`: every element is kept as it is, `null` included. -/
def decodeRaws : Doc → Except JsonError (List Doc)
  | .arr items => .ok items
  | .null => .ok []
  | _ => .error .cannotUnmarshal

/-- The fields of `Predicate`. -/
inductive PredicateField where
  | kind | attr | value | values | pattern | salt | percent | of | ofOne | source | segmentKey
  deriving DecidableEq

def predicateFields : List (String × PredicateField) :=
  [("kind", .kind), ("attr", .attr), ("value", .value), ("values", .values),
    ("pattern", .pattern), ("salt", .salt), ("percent", .percent), ("of", .of),
    ("of_one", .ofOne), ("source", .source), ("key", .segmentKey)]

mutual

/-- The members of an object into a `Predicate` that already holds `cur`. -/
def decodePredicate (cur : Predicate) : List (String × Doc) → Except JsonError Predicate
  | [] => .ok cur
  | (name, d) :: ms =>
    match findField predicateFields name with
    | none => decodePredicate cur ms
    | some .kind => do
      let s ← decodeString cur.kind.toString d
      decodePredicate { cur with kind := .ofString s } ms
    | some .attr => do
      let s ← decodeString cur.attr d
      decodePredicate { cur with attr := s } ms
    | some .value => decodePredicate { cur with value := some d } ms
    | some .values => do
      let ds ← decodeRaws d
      decodePredicate { cur with values := ds } ms
    | some .pattern => do
      let s ← decodeString cur.pattern d
      decodePredicate { cur with pattern := s } ms
    | some .salt => do
      let s ← decodeString cur.salt d
      decodePredicate { cur with salt := s } ms
    | some .percent => do
      let i ← decodeInt cur.percent d
      decodePredicate { cur with percent := i } ms
    | some .of => do
      let ps ← decodeOf cur.of d
      decodePredicate { cur with of := ps } ms
    | some .ofOne => do
      let p ← decodePtr cur.ofOne d
      decodePredicate { cur with ofOne := p } ms
    | some .source => do
      let s ← decodeString cur.source d
      decodePredicate { cur with source := s } ms
    | some .segmentKey => do
      let s ← decodeString cur.segmentKey d
      decodePredicate { cur with segmentKey := s } ms
  termination_by structural ms => ms

/-- Into a `*Predicate`: `null` makes it nil, an object fills the one there is or a new one. -/
def decodePtr (cur : Option Predicate) : Doc → Except JsonError (Option Predicate)
  | .null => .ok none
  | .obj ms => do
    let p ← decodePredicate (cur.getD {}) ms
    return some p
  | _ => .error .cannotUnmarshal
  termination_by structural d => d

/-- Into a `[]*Predicate`. -/
def decodeOf (cur : List (Option Predicate)) : Doc → Except JsonError (List (Option Predicate))
  | .null => .ok []
  | .arr items => decodePtrs cur items
  | _ => .error .cannotUnmarshal
  termination_by structural d => d

/-- The elements of an array into the elements there are, then into new ones.  (Go keeps spare
    capacity behind the elements; an element taken from there counts as new.) -/
def decodePtrs (cur : List (Option Predicate)) :
    List Doc → Except JsonError (List (Option Predicate))
  | [] => .ok []
  | d :: ds => do
    let p ← decodePtr cur.head?.join d
    let ps ← decodePtrs cur.tail ds
    return p :: ps
  termination_by structural ds => ds

end

/-! ### The predicate as a record -/

/-- What a field of `Predicate` holds. -/
def PredicateField.Content : PredicateField → Type
  | .kind => Named PredicateKind
  | .value => Option Doc
  | .values => List Doc
  | .percent => Int64
  | .of => List (Option Predicate)
  | .ofOne => Option Predicate
  | .attr | .pattern | .salt | .source | .segmentKey => String

def Predicate.get : (f : PredicateField) → Predicate → f.Content
  | .kind, p => p.kind
  | .attr, p => p.attr
  | .value, p => p.value
  | .values, p => p.values
  | .pattern, p => p.pattern
  | .salt, p => p.salt
  | .percent, p => p.percent
  | .of, p => p.of
  | .ofOne, p => p.ofOne
  | .source, p => p.source
  | .segmentKey, p => p.segmentKey

/-- Store one member; `decodePredicate` is `set` member by member (`decodePredicate_eq`). -/
def Predicate.set : PredicateField → Predicate → Doc → Except JsonError Predicate
  | .kind, p, d => (decodeString p.kind.toString d).map fun s => { p with kind := .ofString s }
  | .attr, p, d => (decodeString p.attr d).map fun s => { p with attr := s }
  | .value, p, d => .ok { p with value := some d }
  | .values, p, d => (decodeRaws d).map fun ds => { p with values := ds }
  | .pattern, p, d => (decodeString p.pattern d).map fun s => { p with pattern := s }
  | .salt, p, d => (decodeString p.salt d).map fun s => { p with salt := s }
  | .percent, p, d => (decodeInt p.percent d).map fun i => { p with percent := i }
  | .of, p, d => (decodeOf p.of d).map fun ps => { p with of := ps }
  | .ofOne, p, d => (decodePtr p.ofOne d).map fun o => { p with ofOne := o }
  | .source, p, d => (decodeString p.source d).map fun s => { p with source := s }
  | .segmentKey, p, d => (decodeString p.segmentKey d).map fun s => { p with segmentKey := s }

def PredicateField.name : PredicateField → String
  | .kind => "kind"
  | .attr => "attr"
  | .value => "value"
  | .values => "values"
  | .pattern => "pattern"
  | .salt => "salt"
  | .percent => "percent"
  | .of => "of"
  | .ofOne => "of_one"
  | .source => "source"
  | .segmentKey => "key"

/-- A member sets its own field and no other. -/
theorem Predicate.set_other {f g : PredicateField} {p p' : Predicate} {d : Doc}
    (h : p.set f d = .ok p') (hg : g ≠ f) : p'.get g = p.get g := by
  cases f <;> first
    | (obtain ⟨a, _, rfl⟩ := map_eq_ok.mp h
       cases g <;> first | rfl | exact absurd rfl hg)
    | (injection h with h
       subst h
       cases g <;> first | rfl | exact absurd rfl hg)

/-- `Predicate` as a decoder sees it. -/
def predicateRecord : Record Predicate PredicateField Doc JsonError where
  Content := PredicateField.Content
  get := Predicate.get
  ext h := Predicate.ext (h .kind) (h .attr) (h .value) (h .values) (h .pattern) (h .salt)
    (h .percent) (h .of) (h .ofOne) (h .source) (h .segmentKey)
  field := findField predicateFields
  name := PredicateField.name
  field_name := by intro f; cases f <;> rfl
  set := Predicate.set
  set_other := Predicate.set_other

/-- `decodePredicate` stores member by member. -/
theorem decodePredicate_eq : ∀ (ms : List (String × Doc)) (cur : Predicate),
    decodePredicate cur ms = predicateRecord.decode cur ms
  | [], cur => by rw [decodePredicate, Record.decode]
  | (name, d) :: ms, cur => by
    have ih := decodePredicate_eq ms
    rw [decodePredicate, Record.decode]
    rcases hf : findField predicateFields name with _ | f
    · have hf' : predicateRecord.field name = none := hf
      rw [hf']
      exact ih cur
    · have hf' : predicateRecord.field name = some f := hf
      rw [hf']
      cases f <;> simp only [ih] <;> first
        | rfl
        | (show _ = (Except.map _ _ >>= _)
           rw [map_bind])

/-! ### Rules and trees -/

/-- The fields of `Rule`. -/
inductive RuleField where
  | id | when | value
  deriving DecidableEq

def RuleField.name : RuleField → String
  | .id => "id"
  | .when => "when"
  | .value => "value"

def ruleFields : List (String × RuleField) := [("id", .id), ("when", .when), ("value", .value)]

def RuleField.Content : RuleField → Type
  | .id => String
  | .when => Option Predicate
  | .value => Option Doc

def Rule.get : (f : RuleField) → Rule → f.Content
  | .id, r => r.id
  | .when, r => r.when
  | .value, r => r.value

/-- Store one member of a rule. -/
def Rule.set : RuleField → Rule → Doc → Except JsonError Rule
  | .id, r, d => (decodeString r.id d).map fun s => { r with id := s }
  | .when, r, d => (decodePtr r.when d).map fun o => { r with when := o }
  | .value, r, d => .ok { r with value := some d }

/-- So for rules, -/
theorem Rule.set_other {f g : RuleField} {r r' : Rule} {d : Doc}
    (h : r.set f d = .ok r') (hg : g ≠ f) : r'.get g = r.get g := by
  cases f <;> first
    | (obtain ⟨a, _, rfl⟩ := map_eq_ok.mp h
       cases g <;> first | rfl | exact absurd rfl hg)
    | (injection h with h
       subst h
       cases g <;> first | rfl | exact absurd rfl hg)

def ruleRecord : Record Rule RuleField Doc JsonError where
  Content := RuleField.Content
  get := Rule.get
  ext h := Rule.ext (h .id) (h .when) (h .value)
  field := findField ruleFields
  name := RuleField.name
  field_name := by intro f; cases f <;> rfl
  set := Rule.set
  set_other := Rule.set_other

/-- Into a `Rule`. -/
def decodeRule (cur : Rule) : Doc → Except JsonError Rule
  | .null => .ok cur
  | .obj ms => ruleRecord.decode cur ms
  | _ => .error .cannotUnmarshal

/-- The elements of an array into the rules there are, then into new ones. -/
def decodeRules (cur : List Rule) : List Doc → Except JsonError (List Rule)
  | [] => .ok []
  | d :: ds => do
    let r ← decodeRule (cur.head?.getD {}) d
    let rs ← decodeRules cur.tail ds
    return r :: rs

/-- Into the `rules` slice. -/
def decodeRuleSlice (cur : Option (List Rule)) : Doc → Except JsonError (Option (List Rule))
  | .null => .ok none
  | .arr items => (decodeRules (cur.getD []) items).map some
  | _ => .error .cannotUnmarshal

/-- The fields of `RulesTree`. -/
inductive TreeField where
  | valueType | default | rules
  deriving DecidableEq

def TreeField.name : TreeField → String
  | .valueType => "value_type"
  | .default => "default"
  | .rules => "rules"

def treeFields : List (String × TreeField) :=
  [("value_type", .valueType), ("default", .default), ("rules", .rules)]

def TreeField.Content : TreeField → Type
  | .valueType => Named ValueType
  | .default => Option Doc
  | .rules => Option (List Rule)

def RulesTree.get : (f : TreeField) → RulesTree → f.Content
  | .valueType, t => t.valueType
  | .default, t => t.default
  | .rules, t => t.rules

/-- Store one member of a tree. -/
def RulesTree.set : TreeField → RulesTree → Doc → Except JsonError RulesTree
  | .valueType, t, d =>
    (decodeString t.valueType.toString d).map fun s => { t with valueType := .ofString s }
  | .default, t, d => .ok { t with default := some d }
  | .rules, t, d => (decodeRuleSlice t.rules d).map fun rs => { t with rules := rs }

/-- and for trees. -/
theorem RulesTree.set_other {f g : TreeField} {t t' : RulesTree} {d : Doc}
    (h : t.set f d = .ok t') (hg : g ≠ f) : t'.get g = t.get g := by
  cases f <;> first
    | (obtain ⟨a, _, rfl⟩ := map_eq_ok.mp h
       cases g <;> first | rfl | exact absurd rfl hg)
    | (injection h with h
       subst h
       cases g <;> first | rfl | exact absurd rfl hg)

def treeRecord : Record RulesTree TreeField Doc JsonError where
  Content := TreeField.Content
  get := RulesTree.get
  ext h := RulesTree.ext (h .valueType) (h .default) (h .rules)
  field := findField treeFields
  name := TreeField.name
  field_name := by intro f; cases f <;> rfl
  set := RulesTree.set
  set_other := RulesTree.set_other

/-- `json.Unmarshal(source, &tree)` into a zero `RulesTree`. -/
def decodeTree : Doc → Except JsonError RulesTree
  | .null => .ok {}
  | .obj ms => treeRecord.decode {} ms
  | _ => .error .cannotUnmarshal

end FalseFlag
