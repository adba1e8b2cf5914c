/-
  The custom resources of the operator (operator/api/v1alpha1) and the JSON form of a `Flag`.

  The structs are the Go ones, field by field, and what the Go types tell apart is kept: a
  `RawExtension` may hold nothing (`none`), a pointer may be nil, a slice may be nil (`none`) or
  EMPTY (`some []`).  The JSON tags do not keep all of it: `omitempty` leaves out an empty slice, so
  it comes back nil.

  Every object the operator works on was read from JSON, and its own `Update` writes and reads it
  once more.
  * `FlagSpec.Decoded` — what reading guarantees: no `RawExtension` holds `null`, and a pointer to
    one that holds nothing is nil;
  * **`decodeFlagSpec_encodeFlagSpec`** — such a spec comes back as `FlagSpec.reread`: empty slices
    are gone, everything else is as it was.

  Member names match as in encoding/json.  (The client of controller-runtime matches them exactly;
  what it can read is the same.)
-/
import FalseFlag.Ir

namespace FalseFlag.Operator

open JsonTree Fallible

/-! ## The structs -/

/-- `runtime.RawExtension`: raw JSON, or nothing. -/
structure RawExtension where
  raw : Option Doc := none
  deriving DecidableEq

/-- `FlagRule`. -/
@[ext] structure FlagRule where
  id : String := ""
  when : RawExtension := {}
  value : Option RawExtension := none
  rolloutRef : String := ""
  deriving DecidableEq

/-- `FlagSpecBinding`: an override for one environment. -/
@[ext] structure FlagSpecBinding where
  environment : String := ""
  default : Option RawExtension := none
  rules : Option (List FlagRule) := none
  deriving DecidableEq

/-- `FlagSpec`. -/
@[ext] structure FlagSpec where
  projectSlug : String := ""
  key : String := ""
  name : String := ""
  valueType : String := ""
  default : RawExtension := {}
  rules : Option (List FlagRule) := none
  bindings : Option (List FlagSpecBinding) := none
  deriving DecidableEq

/-- The rules, a nil slice read as an empty one. -/
def FlagSpec.ruleList (s : FlagSpec) : List FlagRule := s.rules.getD []

/-- The bindings, a nil slice read as an empty one. -/
def FlagSpec.bindingList (s : FlagSpec) : List FlagSpecBinding := s.bindings.getD []

/-- `RolloutVariant`. -/
structure RolloutVariant where
  id : String := ""
  weight : Int32 := 0
  value : RawExtension := {}
  deriving DecidableEq

/-- `RolloutPolicySpec`. -/
structure RolloutPolicy where
  projectSlug : String
  name : String
  variants : List RolloutVariant
  deriving DecidableEq

/-- `SegmentSpec`. -/
structure SegmentSpec where
  projectSlug : String
  key : String
  name : String
  description : String
  predicate : RawExtension

/-! ## Reading and writing raw JSON -/

/-- What is assumed of `RawExtension.MarshalJSON` and `UnmarshalJSON` (k8s.io/apimachinery): it is
    written as what it holds, or as `null`; `null` leaves it alone, and all else is what it holds
    from then on. -/
class RawJson where
  marshalJSON : RawExtension → Doc
  decodeRaw : RawExtension → Doc → RawExtension
  marshalJSON_eq : ∀ r, marshalJSON r = r.raw.getD .null
  decodeRaw_null : ∀ cur, decodeRaw cur .null = cur
  decodeRaw_raw : ∀ cur d, d ≠ .null → decodeRaw cur d = { raw := some d }

export RawJson (decodeRaw decodeRaw_null decodeRaw_raw)

variable [RawJson]

def RawExtension.doc (r : RawExtension) : Doc := RawJson.marshalJSON r

/-- Into a `*RawExtension`: `null` makes it nil. -/
def decodeRawPtr (cur : Option RawExtension) : Doc → Option RawExtension
  | .null => none
  | d => some (decodeRaw (cur.getD {}) d)

/-- Into a struct: `null` leaves it alone. -/
def decodeStruct {S φ : Type} (r : Record S φ Doc JsonError) (cur : S) : Doc → Except JsonError S
  | .null => .ok cur
  | .obj ms => r.decode cur ms
  | _ => .error .cannotUnmarshal

/-- Into a slice of structs: `null` makes it nil, and the elements of an array go into the ones
    there are, then into new ones. -/
def decodeSlice {α : Type} [Inhabited α] (decode : α → Doc → Except JsonError α)
    (cur : Option (List α)) : Doc → Except JsonError (Option (List α))
  | .null => .ok none
  | .arr items => (go (cur.getD []) items).map some
  | _ => .error .cannotUnmarshal
where
  go (cur : List α) : List Doc → Except JsonError (List α)
    | [] => .ok []
    | d :: ds => do
      let a ← decode (cur.head?.getD default) d
      let as ← go cur.tail ds
      return a :: as

/-- A slice field with `omitempty`. -/
def omitSlice {α : Type} (encode : α → Doc) (as : Option (List α)) : Option Doc :=
  omitList ((as.getD []).map encode)

/-! ## FlagRule -/

inductive FlagRuleField where
  | id | when | value | rolloutRef
  deriving DecidableEq

def FlagRuleField.tag : FlagRuleField → String
  | .id => "id"
  | .when => "when"
  | .value => "value"
  | .rolloutRef => "rolloutRef"

def FlagRuleField.all : List FlagRuleField := [.id, .when, .value, .rolloutRef]

def FlagRuleField.Content : FlagRuleField → Type
  | .id | .rolloutRef => String
  | .when => RawExtension
  | .value => Option RawExtension

def FlagRule.get : (f : FlagRuleField) → FlagRule → f.Content
  | .id, r => r.id
  | .when, r => r.when
  | .value, r => r.value
  | .rolloutRef, r => r.rolloutRef

/-- Store one member of a rule. -/
def FlagRule.set : FlagRuleField → FlagRule → Doc → Except JsonError FlagRule
  | .id, r, d => (decodeString r.id d).map fun id => { r with id }
  | .when, r, d => .ok { r with when := decodeRaw r.when d }
  | .value, r, d => .ok { r with value := decodeRawPtr r.value d }
  | .rolloutRef, r, d => (decodeString r.rolloutRef d).map fun rolloutRef => { r with rolloutRef }

def flagRuleRecord : Record FlagRule FlagRuleField Doc JsonError where
  Content := FlagRuleField.Content
  get := FlagRule.get
  ext h := FlagRule.ext (h .id) (h .when) (h .value) (h .rolloutRef)
  field := findField (FlagRuleField.all.map fun f => (f.tag, f))
  name := FlagRuleField.tag
  field_name := by intro f; cases f <;> rfl
  set := FlagRule.set
  set_other := by
    intro f g r r' d h hg
    cases f <;> first
      | (obtain ⟨a, _, rfl⟩ := map_eq_ok.mp h
         cases g <;> first | rfl | exact absurd rfl hg)
      | (injection h with h
         subst h
         cases g <;> first | rfl | exact absurd rfl hg)

instance : Inhabited FlagRule := ⟨{}⟩

/-- Into a `FlagRule`. -/
def decodeFlagRule : FlagRule → Doc → Except JsonError FlagRule := decodeStruct flagRuleRecord

/-- What is written for each field of a rule. -/
def FlagRule.member (r : FlagRule) : FlagRuleField → Option Doc
  | .id => some (.str r.id)
  | .when => some r.when.doc
  | .value => r.value.map RawExtension.doc
  | .rolloutRef => omitString r.rolloutRef

/-- `json.Marshal` of a `FlagRule`. -/
def encodeFlagRule (r : FlagRule) : Doc := .obj (flagRuleRecord.members r.member FlagRuleField.all)

/-! ## FlagSpecBinding -/

inductive BindingField where
  | environment | default | rules
  deriving DecidableEq

def BindingField.tag : BindingField → String
  | .environment => "environment"
  | .default => "default"
  | .rules => "rules"

def BindingField.all : List BindingField := [.environment, .default, .rules]

def BindingField.Content : BindingField → Type
  | .environment => String
  | .default => Option RawExtension
  | .rules => Option (List FlagRule)

def FlagSpecBinding.get : (f : BindingField) → FlagSpecBinding → f.Content
  | .environment, b => b.environment
  | .default, b => b.default
  | .rules, b => b.rules

/-- Store one member of a binding. -/
def FlagSpecBinding.set : BindingField → FlagSpecBinding → Doc → Except JsonError FlagSpecBinding
  | .environment, b, d => (decodeString b.environment d).map fun environment => { b with environment }
  | .default, b, d => .ok { b with default := decodeRawPtr b.default d }
  | .rules, b, d => (decodeSlice decodeFlagRule b.rules d).map fun rules => { b with rules }

def bindingRecord : Record FlagSpecBinding BindingField Doc JsonError where
  Content := BindingField.Content
  get := FlagSpecBinding.get
  ext h := FlagSpecBinding.ext (h .environment) (h .default) (h .rules)
  field := findField (BindingField.all.map fun f => (f.tag, f))
  name := BindingField.tag
  field_name := by intro f; cases f <;> rfl
  set := FlagSpecBinding.set
  set_other := by
    intro f g b b' d h hg
    cases f <;> first
      | (obtain ⟨a, _, rfl⟩ := map_eq_ok.mp h
         cases g <;> first | rfl | exact absurd rfl hg)
      | (injection h with h
         subst h
         cases g <;> first | rfl | exact absurd rfl hg)

instance : Inhabited FlagSpecBinding := ⟨{}⟩

/-- Into a `FlagSpecBinding`. -/
def decodeBinding : FlagSpecBinding → Doc → Except JsonError FlagSpecBinding := decodeStruct bindingRecord

/-- What is written for each field of a binding. -/
def FlagSpecBinding.member (b : FlagSpecBinding) : BindingField → Option Doc
  | .environment => some (.str b.environment)
  | .default => b.default.map RawExtension.doc
  | .rules => omitSlice encodeFlagRule b.rules

/-- `json.Marshal` of a `FlagSpecBinding`. -/
def encodeBinding (b : FlagSpecBinding) : Doc := .obj (bindingRecord.members b.member BindingField.all)

/-! ## FlagSpec -/

inductive FlagSpecField where
  | projectSlug | key | name | valueType | default | rules | bindings
  deriving DecidableEq

def FlagSpecField.tag : FlagSpecField → String
  | .projectSlug => "projectSlug"
  | .key => "key"
  | .name => "name"
  | .valueType => "valueType"
  | .default => "default"
  | .rules => "rules"
  | .bindings => "bindings"

def FlagSpecField.all : List FlagSpecField :=
  [.projectSlug, .key, .name, .valueType, .default, .rules, .bindings]

def FlagSpecField.Content : FlagSpecField → Type
  | .projectSlug | .key | .name | .valueType => String
  | .default => RawExtension
  | .rules => Option (List FlagRule)
  | .bindings => Option (List FlagSpecBinding)

def FlagSpec.get : (f : FlagSpecField) → FlagSpec → f.Content
  | .projectSlug, s => s.projectSlug
  | .key, s => s.key
  | .name, s => s.name
  | .valueType, s => s.valueType
  | .default, s => s.default
  | .rules, s => s.rules
  | .bindings, s => s.bindings

/-- Store one member of a spec. -/
def FlagSpec.set : FlagSpecField → FlagSpec → Doc → Except JsonError FlagSpec
  | .projectSlug, s, d => (decodeString s.projectSlug d).map fun projectSlug => { s with projectSlug }
  | .key, s, d => (decodeString s.key d).map fun key => { s with key }
  | .name, s, d => (decodeString s.name d).map fun name => { s with name }
  | .valueType, s, d => (decodeString s.valueType d).map fun valueType => { s with valueType }
  | .default, s, d => .ok { s with default := decodeRaw s.default d }
  | .rules, s, d => (decodeSlice decodeFlagRule s.rules d).map fun rules => { s with rules }
  | .bindings, s, d => (decodeSlice decodeBinding s.bindings d).map fun bindings => { s with bindings }

def flagSpecRecord : Record FlagSpec FlagSpecField Doc JsonError where
  Content := FlagSpecField.Content
  get := FlagSpec.get
  ext h := FlagSpec.ext (h .projectSlug) (h .key) (h .name) (h .valueType) (h .default) (h .rules)
    (h .bindings)
  field := findField (FlagSpecField.all.map fun f => (f.tag, f))
  name := FlagSpecField.tag
  field_name := by intro f; cases f <;> rfl
  set := FlagSpec.set
  set_other := by
    intro f g s s' d h hg
    cases f <;> first
      | (obtain ⟨a, _, rfl⟩ := map_eq_ok.mp h
         cases g <;> first | rfl | exact absurd rfl hg)
      | (injection h with h
         subst h
         cases g <;> first | rfl | exact absurd rfl hg)

/-- The `spec` of a `Flag`, into a zero one. -/
def decodeFlagSpec : Doc → Except JsonError FlagSpec := decodeStruct flagSpecRecord {}

/-- What is written for each field of a spec. -/
def FlagSpec.member (s : FlagSpec) : FlagSpecField → Option Doc
  | .projectSlug => some (.str s.projectSlug)
  | .key => some (.str s.key)
  | .name => some (.str s.name)
  | .valueType => some (.str s.valueType)
  | .default => some s.default.doc
  | .rules => omitSlice encodeFlagRule s.rules
  | .bindings => omitSlice encodeBinding s.bindings

/-- `json.Marshal` of a `FlagSpec`. -/
def encodeFlagSpec (s : FlagSpec) : Doc := .obj (flagSpecRecord.members s.member FlagSpecField.all)

/-! ## What reading guarantees -/

/-- Raw JSON that was read is not `null`. -/
def RawExtension.Decoded (r : RawExtension) : Prop := r.raw ≠ some .null

/-- A pointer that was read is nil, or points to JSON that is not `null`. -/
def PtrDecoded (o : Option RawExtension) : Prop := ∀ r, o = some r → ∃ d, r.raw = some d ∧ d ≠ .null

/-- Every element of a slice. -/
def Each {α : Type} (P : α → Prop) (as : Option (List α)) : Prop := ∀ a ∈ as.getD [], P a

structure FlagRule.Decoded (r : FlagRule) : Prop where
  when : r.when.Decoded
  value : PtrDecoded r.value

structure FlagSpecBinding.Decoded (b : FlagSpecBinding) : Prop where
  default : PtrDecoded b.default
  rules : Each FlagRule.Decoded b.rules

structure FlagSpec.Decoded (s : FlagSpec) : Prop where
  default : s.default.Decoded
  rules : Each FlagRule.Decoded s.rules
  bindings : Each FlagSpecBinding.Decoded s.bindings

theorem decoded_decodeRaw {cur : RawExtension} (h : cur.Decoded) (d : Doc) :
    (decodeRaw cur d).Decoded := by
  by_cases hd : d = .null
  · rw [hd, decodeRaw_null]
    exact h
  · rw [decodeRaw_raw cur d hd]
    exact fun heq => hd (Option.some.inj heq)

/-- What is read behind a pointer. -/
theorem decodeRawPtr_raw {d : Doc} (hd : d ≠ .null) (cur : Option RawExtension) :
    decodeRawPtr cur d = some { raw := some d } := by
  rw [← decodeRaw_raw (cur.getD {}) d hd]
  cases d with
  | null => exact absurd rfl hd
  | _ => rfl

theorem ptrDecoded_decodeRawPtr {cur : Option RawExtension} (d : Doc) :
    PtrDecoded (decodeRawPtr cur d) := by
  intro r hr
  by_cases hd : d = .null
  · subst hd
    cases hr
  · rw [decodeRawPtr_raw hd] at hr
    injection hr with hr
    exact ⟨d, hr ▸ rfl, hd⟩

section Slices

variable {α : Type} [Inhabited α] {decode : α → Doc → Except JsonError α} {P : α → Prop}

omit [RawJson] in
theorem each_go (hzero : P default) (hdecode : ∀ cur d a, P cur → decode cur d = .ok a → P a) :
    ∀ {ds : List Doc} {cur as : List α}, (∀ a ∈ cur, P a) → decodeSlice.go decode cur ds = .ok as →
      ∀ a ∈ as, P a
  | [], _, as, _, h => by
    injection h with h
    subst h
    nofun
  | d :: ds, cur, as, hcur, h => by
    obtain ⟨a, ha, h⟩ := bind_eq_ok.mp h
    obtain ⟨as', has', h⟩ := bind_eq_ok.mp h
    injection h with h
    subst h
    have hhead : P (cur.head?.getD default) := by
      cases cur with
      | nil => exact hzero
      | cons c _ => exact hcur c List.mem_cons_self
    intro b hb
    rcases List.mem_cons.mp hb with rfl | hb
    · exact hdecode _ d b hhead ha
    · exact each_go hzero hdecode (fun c hc => hcur c (List.mem_of_mem_tail hc)) has' b hb

omit [RawJson] in
/-- What reading one element guarantees, holds of every element of a slice. -/
theorem each_decodeSlice (hzero : P default)
    (hdecode : ∀ cur d a, P cur → decode cur d = .ok a → P a) {cur as : Option (List α)} {d : Doc}
    (hcur : Each P cur) (h : decodeSlice decode cur d = .ok as) : Each P as := by
  cases d with
  | null =>
    injection h with h
    subst h
    nofun
  | arr items =>
    obtain ⟨as', has', rfl⟩ := map_eq_ok.mp h
    exact each_go hzero hdecode hcur has'
  | bool _ => nomatch h
  | num _ => nomatch h
  | str _ => nomatch h
  | obj _ => nomatch h

omit [RawJson] in
/-- A written slice is read element by element. -/
theorem go_map {encode : α → Doc} {f : α → α} : ∀ {as : List α},
    (∀ a ∈ as, decode default (encode a) = .ok (f a)) →
      decodeSlice.go decode [] (as.map encode) = .ok (as.map f)
  | [], _ => rfl
  | a :: as, h => by
    show (decode default (encode a) >>= _) = _
    rw [h a List.mem_cons_self]
    show (decodeSlice.go decode [] (as.map encode) >>= _) = _
    rw [go_map fun b hb => h b (List.mem_cons_of_mem _ hb)]
    rfl

end Slices

omit [RawJson] in
/-- What storing one member keeps, reading a struct keeps. -/
theorem decodeStruct_invariant {S φ : Type} {r : Record S φ Doc JsonError} {I : S → Prop}
    (hset : ∀ f s d s', I s → r.set f s d = .ok s' → I s') {cur s : S} {d : Doc} (hcur : I cur)
    (h : decodeStruct r cur d = .ok s) : I s := by
  cases d with
  | null =>
    injection h with h
    exact h ▸ hcur
  | obj ms =>
    exact @Record.decode_invariant _ _ _ _ r I (fun _ => True)
      (fun f s d s' hs _ => hset f s d s' hs) _ _ _ h hcur fun _ _ => trivial
  | bool _ => nomatch h
  | num _ => nomatch h
  | str _ => nomatch h
  | arr _ => nomatch h

omit [RawJson] in
theorem FlagRule.decoded_zero : ({} : FlagRule).Decoded := ⟨nofun, nofun⟩

theorem FlagRule.decoded_of_decode {cur r : FlagRule} {d : Doc} (hcur : cur.Decoded)
    (h : decodeFlagRule cur d = .ok r) : r.Decoded := by
  refine decodeStruct_invariant (fun f s d s' hs hset => ?_) hcur h
  cases f with
  | when => injection hset with hset; exact hset ▸ ⟨decoded_decodeRaw hs.when d, hs.value⟩
  | value => injection hset with hset; exact hset ▸ ⟨hs.when, ptrDecoded_decodeRawPtr d⟩
  | id => obtain ⟨_, _, rfl⟩ := map_eq_ok.mp hset; exact ⟨hs.when, hs.value⟩
  | rolloutRef => obtain ⟨_, _, rfl⟩ := map_eq_ok.mp hset; exact ⟨hs.when, hs.value⟩

theorem each_decodeFlagRules {cur rules : Option (List FlagRule)} {d : Doc}
    (hcur : Each FlagRule.Decoded cur) (h : decodeSlice decodeFlagRule cur d = .ok rules) :
    Each FlagRule.Decoded rules :=
  each_decodeSlice FlagRule.decoded_zero (fun _ _ _ => FlagRule.decoded_of_decode) hcur h

omit [RawJson] in
theorem FlagSpecBinding.decoded_zero : ({} : FlagSpecBinding).Decoded := ⟨nofun, nofun⟩

theorem FlagSpecBinding.decoded_of_decode {cur b : FlagSpecBinding} {d : Doc} (hcur : cur.Decoded)
    (h : decodeBinding cur d = .ok b) : b.Decoded := by
  refine decodeStruct_invariant (fun f s d s' hs hset => ?_) hcur h
  cases f with
  | environment => obtain ⟨_, _, rfl⟩ := map_eq_ok.mp hset; exact ⟨hs.default, hs.rules⟩
  | default => injection hset with hset; exact hset ▸ ⟨ptrDecoded_decodeRawPtr d, hs.rules⟩
  | rules =>
    obtain ⟨rules, hrules, rfl⟩ := map_eq_ok.mp hset
    exact ⟨hs.default, each_decodeFlagRules hs.rules hrules⟩

omit [RawJson] in
theorem FlagSpec.decoded_zero : ({} : FlagSpec).Decoded := ⟨nofun, nofun, nofun⟩

/-- **What is known of a spec that was read.** -/
theorem FlagSpec.decoded_of_decode {s : FlagSpec} {d : Doc} (h : decodeFlagSpec d = .ok s) :
    s.Decoded := by
  refine decodeStruct_invariant (fun f s d s' hs hset => ?_) FlagSpec.decoded_zero h
  cases f with
  | default =>
    injection hset with hset
    exact hset ▸ ⟨decoded_decodeRaw hs.default d, hs.rules, hs.bindings⟩
  | rules =>
    obtain ⟨rules, hrules, rfl⟩ := map_eq_ok.mp hset
    exact ⟨hs.default, each_decodeFlagRules hs.rules hrules, hs.bindings⟩
  | bindings =>
    obtain ⟨bindings, hbindings, rfl⟩ := map_eq_ok.mp hset
    exact ⟨hs.default, hs.rules, each_decodeSlice FlagSpecBinding.decoded_zero
      (fun _ _ _ => FlagSpecBinding.decoded_of_decode) hs.bindings hbindings⟩
  | projectSlug => obtain ⟨_, _, rfl⟩ := map_eq_ok.mp hset; exact ⟨hs.default, hs.rules, hs.bindings⟩
  | key => obtain ⟨_, _, rfl⟩ := map_eq_ok.mp hset; exact ⟨hs.default, hs.rules, hs.bindings⟩
  | name => obtain ⟨_, _, rfl⟩ := map_eq_ok.mp hset; exact ⟨hs.default, hs.rules, hs.bindings⟩
  | valueType => obtain ⟨_, _, rfl⟩ := map_eq_ok.mp hset; exact ⟨hs.default, hs.rules, hs.bindings⟩

/-! ## Writing a spec and reading it back -/

/-- An empty slice comes back nil. -/
def rereadSlice {α : Type} (f : α → α) : Option (List α) → Option (List α)
  | none | some [] => none
  | some (a :: as) => some ((a :: as).map f)

/-- A binding after one write and one read. -/
def FlagSpecBinding.reread (b : FlagSpecBinding) : FlagSpecBinding :=
  { b with rules := rereadSlice id b.rules }

/-- A spec after one write and one read. -/
def FlagSpec.reread (s : FlagSpec) : FlagSpec :=
  { s with
    rules := rereadSlice id s.rules
    bindings := rereadSlice FlagSpecBinding.reread s.bindings }

theorem decodeRaw_doc {r : RawExtension} (h : r.Decoded) : decodeRaw {} r.doc = r := by
  rw [RawExtension.doc, RawJson.marshalJSON_eq]
  obtain ⟨_ | d⟩ := r
  · exact decodeRaw_null _
  · exact decodeRaw_raw _ d fun hd => h (congrArg some hd)

theorem decodeRawPtr_doc {r : RawExtension} {d : Doc} (hr : r.raw = some d) (hd : d ≠ .null)
    (cur : Option RawExtension) : decodeRawPtr cur r.doc = some r := by
  obtain ⟨raw⟩ := r
  subst hr
  rw [RawExtension.doc, RawJson.marshalJSON_eq]
  exact decodeRawPtr_raw hd cur

omit [RawJson] in
/-- A string field with `omitempty`. -/
theorem omitString_cases (s : String) :
    (omitString (S := String) s = none ∧ "" = s) ∨ omitString s = some (.str s : Doc) := by
  by_cases hs : s = ""
  · exact .inl ⟨if_pos hs, hs.symm⟩
  · exact .inr (if_neg hs)

/-- A pointer field with `omitempty`. -/
theorem ptr_cases {o : Option RawExtension} (h : PtrDecoded o) :
    (o.map RawExtension.doc = none ∧ none = o) ∨
      ∃ d, o.map RawExtension.doc = some d ∧ ∀ cur, decodeRawPtr cur d = o := by
  cases o with
  | none => exact .inl ⟨rfl, rfl⟩
  | some r =>
    obtain ⟨d, hr, hd⟩ := h r rfl
    exact .inr ⟨r.doc, rfl, decodeRawPtr_doc hr hd⟩

omit [RawJson] in
/-- A slice field with `omitempty`. -/
theorem slice_cases {α : Type} [Inhabited α] {decode : α → Doc → Except JsonError α}
    {encode : α → Doc} {f : α → α} {as : Option (List α)}
    (h : Each (fun a => decode default (encode a) = .ok (f a)) as) :
    (omitSlice encode as = none ∧ none = rereadSlice f as) ∨
      ∃ d, omitSlice encode as = some d ∧ decodeSlice decode none d = .ok (rereadSlice f as) := by
  rcases as with _ | _ | ⟨a, as⟩
  · exact .inl ⟨rfl, rfl⟩
  · exact .inl ⟨rfl, rfl⟩
  · refine .inr ⟨.arr ((a :: as).map encode), rfl, ?_⟩
    have hgo : decodeSlice.go decode [] ((a :: as).map encode) = .ok ((a :: as).map f) := go_map h
    show (decodeSlice.go decode [] ((a :: as).map encode)).map some = _
    rw [hgo]
    rfl

theorem decodeFlagRule_encodeFlagRule {r : FlagRule} (h : r.Decoded) :
    decodeFlagRule {} (encodeFlagRule r) = .ok r := by
  refine flagRuleRecord.decode_written (by decide) (by intro f; cases f <;> decide) fun f =>
    Record.Reads.intro _ ?_
  cases f with
  | id => exact .inr ⟨_, rfl, fun s _ => ⟨{ s with id := r.id }, rfl, rfl⟩⟩
  | when =>
    refine .inr ⟨_, rfl, fun s hs => ⟨_, rfl, ?_⟩⟩
    have hs' : s.when = {} := hs
    show decodeRaw s.when r.when.doc = r.when
    rw [hs', decodeRaw_doc h.when]
  | value =>
    rcases ptr_cases h.value with hnone | ⟨d, hd, hread⟩
    · exact .inl hnone
    · exact .inr ⟨d, hd, fun s _ => ⟨_, rfl, hread s.value⟩⟩
  | rolloutRef =>
    rcases omitString_cases r.rolloutRef with hnone | hsome
    · exact .inl hnone
    · exact .inr ⟨_, hsome, fun s _ => ⟨{ s with rolloutRef := r.rolloutRef }, rfl, rfl⟩⟩

/-- Rules come back as they were, unless there are none. -/
theorem rules_cases {rules : Option (List FlagRule)} (h : Each FlagRule.Decoded rules) :
    (omitSlice encodeFlagRule rules = none ∧ none = rereadSlice id rules) ∨
      ∃ d, omitSlice encodeFlagRule rules = some d ∧
        decodeSlice decodeFlagRule none d = .ok (rereadSlice id rules) :=
  slice_cases fun r hr => decodeFlagRule_encodeFlagRule (h r hr)

theorem decodeBinding_encodeBinding {b : FlagSpecBinding} (h : b.Decoded) :
    decodeBinding {} (encodeBinding b) = .ok b.reread := by
  refine bindingRecord.decode_written (by decide) (by intro f; cases f <;> decide) fun f =>
    Record.Reads.intro _ ?_
  cases f with
  | environment => exact .inr ⟨_, rfl, fun s _ => ⟨{ s with environment := b.environment }, rfl, rfl⟩⟩
  | default =>
    rcases ptr_cases h.default with hnone | ⟨d, hd, hread⟩
    · exact .inl hnone
    · exact .inr ⟨d, hd, fun s _ => ⟨_, rfl, hread s.default⟩⟩
  | rules =>
    rcases rules_cases h.rules with hnone | ⟨d, hd, hread⟩
    · exact .inl hnone
    · refine .inr ⟨d, hd, fun s hs => ⟨{ s with rules := rereadSlice id b.rules }, ?_, rfl⟩⟩
      have hs' : s.rules = none := hs
      simp only [bindingRecord, FlagSpecBinding.set, hs', hread, Except.map]

/-- **A spec that was read, written and read again**: empty slices are gone. -/
theorem decodeFlagSpec_encodeFlagSpec {s : FlagSpec} (h : s.Decoded) :
    decodeFlagSpec (encodeFlagSpec s) = .ok s.reread := by
  refine flagSpecRecord.decode_written (by decide) (by intro f; cases f <;> decide) fun f =>
    Record.Reads.intro _ ?_
  cases f with
  | projectSlug => exact .inr ⟨_, rfl, fun t _ => ⟨{ t with projectSlug := s.projectSlug }, rfl, rfl⟩⟩
  | key => exact .inr ⟨_, rfl, fun t _ => ⟨{ t with key := s.key }, rfl, rfl⟩⟩
  | name => exact .inr ⟨_, rfl, fun t _ => ⟨{ t with name := s.name }, rfl, rfl⟩⟩
  | valueType => exact .inr ⟨_, rfl, fun t _ => ⟨{ t with valueType := s.valueType }, rfl, rfl⟩⟩
  | default =>
    refine .inr ⟨_, rfl, fun t ht => ⟨_, rfl, ?_⟩⟩
    have ht' : t.default = {} := ht
    show decodeRaw t.default s.default.doc = s.default
    rw [ht', decodeRaw_doc h.default]
  | rules =>
    rcases rules_cases h.rules with hnone | ⟨d, hd, hread⟩
    · exact .inl hnone
    · refine .inr ⟨d, hd, fun t ht => ⟨{ t with rules := rereadSlice id s.rules }, ?_, rfl⟩⟩
      have ht' : t.rules = none := ht
      simp only [flagSpecRecord, FlagSpec.set, ht', hread, Except.map]
  | bindings =>
    have hbindings : Each (fun b => decodeBinding default (encodeBinding b) = .ok b.reread) s.bindings :=
      fun b hb => decodeBinding_encodeBinding (h.bindings b hb)
    rcases slice_cases hbindings with hnone | ⟨d, hd, hread⟩
    · exact .inl hnone
    · refine .inr ⟨d, hd, fun t ht =>
        ⟨{ t with bindings := rereadSlice FlagSpecBinding.reread s.bindings }, ?_, rfl⟩⟩
      have ht' : t.bindings = none := ht
      simp only [flagSpecRecord, FlagSpec.set, ht', hread, Except.map]

end FalseFlag.Operator
