/-
  Writing the IR and reading it back.

  Between the compiler and the evaluator an IR is written, stored, sent and read again, more than
  once: by the publish path, by jsonb, by the bundle of a snapshot, by the SDK.  None of these
  keeps bytes: members are sorted, numbers are re-spelled.  A `Transport` is any relation between
  documents that keeps what a decoder looks at: null, strings, array elements in order, and what is
  found under each name.  A number stays a number, but perhaps another one.

  The one number that a decoder reads is `percent`, a Go `int`: it must still fit one (`Fits`).
  * **`decodeTree_transport`**: if every `percent` fits, reading back a written tree succeeds and
    gives the tree that was written, up to the transport of the numbers in it and up to `fill`:
    a missing `default` or rule `value` was written as `null`, and `null` is what comes back.
  * **`survives_of_decodeTree`**: if one does not, reading fails.
-/
import FalseFlag.Ir
import FalseFlag.Lib.Relators

namespace FalseFlag

open List JsonTree Json Relators Option Record

/-! ## Trees that differ in their raw values only -/

/-- The same predicate, its raw values related by `R`. -/
inductive Predicate.Like (R : Doc → Doc → Prop) : Predicate → Predicate → Prop
  | mk {p q : Predicate} (kind : p.kind = q.kind) (attr : p.attr = q.attr)
    (value : Rel R p.value q.value) (values : Forall₂ R p.values q.values)
    (pattern : p.pattern = q.pattern) (salt : p.salt = q.salt)
    (percent : R (.num (.int p.percent.toInt)) (.num (.int q.percent.toInt)))
    (of : Forall₂ (Rel (Predicate.Like R)) p.of q.of)
    (ofOne : Rel (Predicate.Like R) p.ofOne q.ofOne)
    (source : p.source = q.source) (segmentKey : p.segmentKey = q.segmentKey) : Like R p q

/-- The same rule, its raw values related by `R`. -/
structure Rule.Like (R : Doc → Doc → Prop) (r s : Rule) : Prop where
  id : r.id = s.id
  when : Rel (Predicate.Like R) r.when s.when
  value : Rel R r.value s.value

/-- The same tree, its raw values related by `R`. -/
structure RulesTree.Like (R : Doc → Doc → Prop) (t u : RulesTree) : Prop where
  valueType : t.valueType = u.valueType
  default : Rel R t.default u.default
  rules : Rel (Forall₂ (Rule.Like R)) t.rules u.rules

/-- Induction over two predicates that are alike: the children are alike pairwise. -/
theorem Predicate.Like.induct {R : Doc → Doc → Prop} {P : Predicate → Predicate → Prop}
    (node : ∀ p q, p.Like R q → Forall₂ (Rel P) p.of q.of →
      Rel P p.ofOne q.ofOne → P p q) (p : Predicate) : ∀ q, p.Like R q → P p q := by
  induction p with
  | node p hof hone =>
    intro q h
    have hlike := h
    obtain ⟨-, -, -, -, -, -, -, hofL, honeL, -, -⟩ := hlike
    refine node p q h ?_ ?_
    · exact forall₂_imp (fun a ha b hab => rel_imp hab fun c d hc hcd => hof c (hc ▸ ha) d hcd) hofL
    · exact rel_imp honeL fun c d hc hcd => hone c hc d hcd

theorem Predicate.Like.eq {p q : Predicate} (h : p.Like Eq q) : p = q := by
  refine Predicate.Like.induct (P := Eq) (fun p q h hof hone => ?_) p q h
  obtain ⟨hkind, hattr, hvalue, hvalues, hpattern, hsalt, hpercent, -, -, hsource, hkey⟩ := h
  have hof' : p.of = q.of := forall₂_eq_eq_eq ▸ hof.imp fun _ _ => rel_eq
  have hvalues' : p.values = q.values := forall₂_eq_eq_eq ▸ hvalues
  have hvalue' := rel_eq hvalue
  have hone' := rel_eq hone
  have hpercent' : p.percent = q.percent := by
    injection hpercent with hpercent
    injection hpercent with hpercent
    exact Int64.toInt_inj.mp hpercent
  cases p
  cases q
  simp_all

theorem Rule.Like.eq {r s : Rule} (h : r.Like Eq s) : r = s := by
  obtain ⟨hid, hwhen, hvalue⟩ := h
  have hvalue' := rel_eq hvalue
  have hwhen' : r.when = s.when := by
    cases r
    cases s
    cases hwhen with
    | none => rfl
    | some h => rw [h.eq]
  cases r
  cases s
  simp_all

theorem RulesTree.Like.eq {t u : RulesTree} (h : t.Like Eq u) : t = u := by
  obtain ⟨htype, hdefault, hrules⟩ := h
  have hdefault' := rel_eq hdefault
  have hrules' : t.rules = u.rules := by
    cases t
    cases u
    cases hrules with
    | none => rfl
    | some h => exact congrArg some (forall₂_eq_eq_eq ▸ h.imp fun _ _ => Rule.Like.eq)
  cases t
  cases u
  simp_all

/-! ## What writing fills in -/

/-- A missing value is written `null`. -/
def Rule.fill (r : Rule) : Rule := { r with value := some (r.value.getD .null) }

/-- A missing default and missing values are written `null`. -/
def RulesTree.fill (t : RulesTree) : RulesTree :=
  { t with default := some (t.default.getD .null), rules := t.rules.map (·.map Rule.fill) }

/-- Nothing that writing would fill in is missing. -/
def RulesTree.Complete (t : RulesTree) : Prop :=
  t.default ≠ none ∧ ∀ r ∈ t.ruleList, r.value ≠ none

theorem Rule.fill_eq_self {r : Rule} (h : r.value ≠ none) : r.fill = r := by
  obtain ⟨id, when, value⟩ := r
  cases value with
  | none => exact absurd rfl h
  | some v => rfl

theorem RulesTree.Complete.fill_eq_self {t : RulesTree} (h : t.Complete) : t.fill = t := by
  obtain ⟨hdefault, hrules⟩ := h
  obtain ⟨vt, dflt, rules⟩ := t
  have hfill : ∀ rs : List Rule, rules = some rs → rs.map Rule.fill = rs := by
    rintro rs rfl
    exact (map_congr_left fun r hr => Rule.fill_eq_self (hrules r hr)).trans (map_id rs)
  cases dflt with
  | none => exact absurd rfl hdefault
  | some d =>
    cases rules with
    | none => rfl
    | some rs => rw [RulesTree.fill, map_some, hfill rs rfl, getD_some]

/-! ## What is written for each field -/

/-- The document written for a field of a predicate, unless it is left out. -/
def Predicate.member {S : Type} [Strings S] (p : Predicate S) : PredicateField → Option (Doc S)
  | .kind => some (.str (Strings.ofText p.kind.toString))
  | .attr => omitString p.attr
  | .value => p.value
  | .values => omitList p.values
  | .pattern => omitString p.pattern
  | .salt => omitString p.salt
  | .percent => omitInt p.percent
  | .of => omitList (encodePtrs p.of)
  | .ofOne => encodeOfOne p.ofOne
  | .source => omitString p.source
  | .segmentKey => omitString p.segmentKey

def PredicateField.all : List PredicateField :=
  [.kind, .attr, .value, .values, .pattern, .salt, .percent, .of, .ofOne, .source, .segmentKey]

theorem PredicateField.nodup_all : PredicateField.all.Nodup := by decide

theorem PredicateField.mem_all (f : PredicateField) : f ∈ PredicateField.all := by
  cases f <;> decide

theorem members_cons (p : Predicate) (f : PredicateField) (fs : List PredicateField) :
    predicateRecord.members p.member (f :: fs)
      = optField f.name (p.member f) ++ predicateRecord.members p.member fs := by
  rw [members]
  rcases p.member f with _ | d
  · rfl
  · rfl

theorem encodePredicate_eq (p : Predicate) :
    encodePredicate p = .obj (predicateRecord.members p.member PredicateField.all) := by
  obtain ⟨kind⟩ := p
  simp only [PredicateField.all, members_cons, encodePredicate, append_assoc]
  rw [members, append_nil]
  rfl

/-- The documents written for the fields of a rule; none is left out. -/
def Rule.member (r : Rule) : RuleField → Option Doc
  | .id => some (.str r.id)
  | .when => some (encodePtr r.when)
  | .value => some (r.value.getD .null)

def RuleField.all : List RuleField := [.id, .when, .value]

theorem encodeRule_eq (r : Rule) :
    encodeRule r = .obj (ruleRecord.members r.member RuleField.all) := rfl

/-- The documents written for the fields of a tree; none is left out. -/
def RulesTree.member (t : RulesTree) : TreeField → Option Doc
  | .valueType => some (.str t.valueType.toString)
  | .default => some (t.default.getD .null)
  | .rules => some (match t.rules with
    | none => .null
    | some rs => .arr (rs.map encodeRule))

def TreeField.all : List TreeField := [.valueType, .default, .rules]

theorem encodeTree_eq (t : RulesTree) :
    encodeTree t = .obj (treeRecord.members t.member TreeField.all) := by
  rcases t with ⟨_, _, _ | _⟩ <;> rfl

/-! ## Transports -/

/-- A relation between a document that is written and the one that is read, that keeps what a
    decoder looks at. -/
structure Transport (R : Doc → Doc → Prop) : Prop where
  null : ∀ {d}, R .null d → d = .null
  str : ∀ {s d}, R (.str s) d → d = .str s
  num : ∀ {n d}, R (.num n) d → ∃ m, d = .num m
  zero : R (.num (.int 0)) (.num (.int 0))
  arr : ∀ {xs d}, R (.arr xs) d → ∃ ys, d = .arr ys ∧ Forall₂ R xs ys
  obj : ∀ {ms : List (String × Doc)} {d}, (ms.map Prod.fst).Nodup → R (.obj ms) d →
    ∃ ns : List (String × Doc), d = .obj ns ∧ (ns.map Prod.fst).Nodup ∧
      ∀ name, Rel R (ms.lookup name) (ns.lookup name)

/-- A document that is passed on as it is. -/
theorem Transport.eq : Transport Eq where
  null h := h.symm
  str h := h.symm
  num h := ⟨_, h.symm⟩
  zero := rfl
  arr h := ⟨_, h.symm, by rw [forall₂_eq_eq_eq]⟩
  obj := by
    intro ms d hms h
    refine ⟨ms, h.symm, hms, fun name => ?_⟩
    rcases ms.lookup name with _ | v
    · exact .none
    · exact .some rfl

/-- Passing a document on, if zero stays zero. -/
theorem Transport.carries {N : JNum → JNum → Prop} (hzero : N (.int 0) (.int 0)) :
    Transport (Carries N) where
  null h := by
    cases h
    rfl
  str h := by
    cases h
    rfl
  num h := by
    cases h
    exact ⟨_, rfl⟩
  zero := .num hzero
  arr h := by
    cases h with
    | arr h => exact ⟨_, rfl, h⟩
  obj := by
    intro ms d hms h
    cases h with
    | obj hns h => exact ⟨_, rfl, hns, fun name => lookup_reverse_of_nodup hms name ▸ h name⟩

/-- Whatever `i` is passed on as can be read into a Go `int`. -/
def Fits (R : Doc → Doc → Prop) (i : Int64) : Prop :=
  ∀ d, R (.num (.int i.toInt)) d → ∃ j : Int64, d = .num (.int j.toInt)

/-- Every `percent` below the predicate fits. -/
def Predicate.Fits (R : Doc → Doc → Prop) (p : Predicate) : Prop :=
  ∀ q : Predicate, q.Sub p → FalseFlag.Fits R q.percent

/-- Every `percent` of the rules fits. -/
def RulesTree.Fits (R : Doc → Doc → Prop) (t : RulesTree) : Prop :=
  ∀ r ∈ t.ruleList, ∀ p, r.when = some p → p.Fits R

/-! ## Reading back -/

section ReadBack

variable {R : Doc → Doc → Prop} (hR : Transport R)

include hR

/-- The member of a string field: absent if the string is empty, else that string. -/
theorem Transport.omitString {s : String} {o : Option Doc} (h : Rel R (omitString s) o) :
    (o = none ∧ s = "") ∨ o = some (.str s) := by
  unfold FalseFlag.omitString at h
  split at h
  · rename_i hs
    cases h
    exact .inl ⟨rfl, hs⟩
  · cases h with
    | some h => exact .inr (congrArg some (hR.str h))

/-- The member of an `int` field: absent if it was zero, else what it was passed on as. -/
theorem Transport.omitInt {i : Int64} (hi : FalseFlag.Fits R i) {o : Option Doc}
    (h : Rel R (omitInt i) o) :
    ∃ j : Int64, R (.num (.int i.toInt)) (.num (.int j.toInt)) ∧
      ((o = none ∧ j = 0) ∨ o = some (.num (.int j.toInt))) := by
  unfold FalseFlag.omitInt at h
  split at h
  · rename_i hi
    cases h
    subst hi
    exact ⟨0, hR.zero, .inl ⟨rfl, rfl⟩⟩
  · obtain ⟨d, rfl, hd⟩ := rel_some h
    obtain ⟨j, rfl⟩ := hi d hd
    exact ⟨j, hd, .inr rfl⟩

/-- The member of a slice field. -/
theorem Transport.omitList {ds : List Doc} {o : Option Doc} (h : Rel R (omitList ds) o) :
    (o = none ∧ ds = []) ∨ ∃ es, o = some (.arr es) ∧ Forall₂ R ds es := by
  unfold FalseFlag.omitList at h
  split at h
  · rename_i hds
    cases h
    exact .inl ⟨rfl, hds⟩
  · cases h with
    | some h =>
      obtain ⟨es, rfl, hes⟩ := hR.arr h
      exact .inr ⟨es, rfl, hes⟩

omit hR in
theorem decodeInt_toInt (cur i : Int64) : decodeInt cur (.num (.int i.toInt)) = .ok i := by
  have hlo : -2 ^ 63 ≤ i.toInt := i.minValue_le_toInt
  have hhi : i.toInt < 2 ^ 63 := i.toInt_lt
  rw [decodeInt, if_pos ⟨hlo, hhi⟩, Int64.ofInt_toInt]

/-- What reading a written predicate gives. -/
def ReadsBack (R : Doc → Doc → Prop) (p : Predicate) : Prop :=
  ∀ d, R (encodePredicate p) d → ∃ q, decodePtr none d = .ok (some q) ∧ p.Like R q

/-- A written pointer. -/
theorem decodePtr_encodePtr {o : Option Predicate} (ho : ∀ p, o = some p → ReadsBack R p) {d : Doc}
    (h : R (encodePtr o) d) :
    ∃ o', decodePtr none d = .ok o' ∧ Rel (Predicate.Like R) o o' := by
  cases o with
  | none =>
    rw [hR.null h]
    exact ⟨none, rfl, .none⟩
  | some p =>
    obtain ⟨q, hq, hlike⟩ := ho p rfl d h
    exact ⟨some q, hq, .some hlike⟩

/-- The written elements of `of`. -/
theorem decodePtrs_encodePtrs : ∀ {os : List (Option Predicate)} {ds : List Doc},
    (∀ p, some p ∈ os → ReadsBack R p) → Forall₂ R (encodePtrs os) ds →
    ∃ os', decodePtrs [] ds = .ok os' ∧ Forall₂ (Rel (Predicate.Like R)) os os'
  | [], ds, _, h => by
    cases h
    exact ⟨[], rfl, .nil⟩
  | o :: os, ds, hos, h => by
    rw [encodePtrs] at h
    cases h with
    | @cons _ d _ ds hd hds =>
      obtain ⟨o', ho', hlike⟩ :=
        decodePtr_encodePtr hR (fun p hp => hos p (by simp [hp])) hd
      obtain ⟨os', hos', hlikes⟩ :=
        decodePtrs_encodePtrs (fun p hp => hos p (mem_cons_of_mem _ hp)) hds
      refine ⟨o' :: os', ?_, .cons hlike hlikes⟩
      rw [decodePtrs]
      show (decodePtr none d >>= _) = _
      rw [ho']
      show (decodePtrs [] ds >>= _) = _
      rw [hos']
      rfl

/-- The written `of`. -/
theorem of_readsBack {os : List (Option Predicate)} (hos : ∀ p, some p ∈ os → ReadsBack R p)
    {o : Option Doc} (h : Rel R (FalseFlag.omitList (encodePtrs os)) o) :
    ∃ os', Forall₂ (Rel (Predicate.Like R)) os os' ∧
      ((o = none ∧ os' = []) ∨ ∃ d, o = some d ∧ decodeOf [] d = .ok os') := by
  rcases hR.omitList h with ⟨ho, hnil⟩ | ⟨es, ho, hes⟩
  · have hos' : os = [] := by
      cases os with
      | nil => rfl
      | cons _ _ => rw [encodePtrs] at hnil; nomatch hnil
    exact ⟨[], by rw [hos']; exact .nil, .inl ⟨ho, rfl⟩⟩
  · obtain ⟨os', hdec, hlikes⟩ := decodePtrs_encodePtrs hR hos hes
    exact ⟨os', hlikes, .inr ⟨_, ho, by rw [decodeOf]; exact hdec⟩⟩

omit hR in
/-- The written `of_one`. -/
theorem ofOne_readsBack {o' : Option Predicate} (ho' : ∀ p, o' = some p → ReadsBack R p)
    {o : Option Doc} (h : Rel R (encodeOfOne o') o) :
    ∃ o'', Rel (Predicate.Like R) o' o'' ∧
      ((o = none ∧ o'' = none) ∨ ∃ d, o = some d ∧ decodePtr none d = .ok o'') := by
  cases o' with
  | none =>
    rw [encodeOfOne] at h
    cases h
    exact ⟨none, .none, .inl ⟨rfl, rfl⟩⟩
  | some p =>
    rw [encodeOfOne] at h
    cases h with
    | @some _ d h =>
      obtain ⟨q, hq, hlike⟩ := ho' p rfl d h
      exact ⟨some q, .some hlike, .inr ⟨d, rfl, hq⟩⟩

/-- **A written predicate reads back.** -/
theorem readsBack (p : Predicate) : p.Fits R → ReadsBack R p := by
  induction p with
  | node p hof hone =>
    intro hfits d h
    rw [encodePredicate_eq] at h
    obtain ⟨ns, rfl, hns, hrel⟩ := hR.obj (predicateRecord.nodup_members _ PredicateField.nodup_all) h
    have hlook : ∀ f : PredicateField, Rel R (p.member f) (ns.lookup f.name) := by
      intro f
      have hf := hrel f.name
      rwa [show f.name = predicateRecord.name f from rfl,
        predicateRecord.lookup_members _ PredicateField.nodup_all f.mem_all] at hf
    -- what the transport did to the members whose content is not a plain string or integer
    obtain ⟨os', hofL, hofD⟩ :=
      of_readsBack hR (fun c hc => hof c hc fun q hq => hfits q (.of hc hq)) (hlook .of)
    obtain ⟨o', honeL, honeD⟩ :=
      ofOne_readsBack (fun c hc => hone c hc fun q hq => hfits q (.ofOne hc hq)) (hlook .ofOne)
    obtain ⟨i, hiL, hiD⟩ := hR.omitInt (hfits p (.refl p)) (hlook .percent)
    obtain ⟨vs, hvsL, hvsD⟩ : ∃ vs, Forall₂ R p.values vs ∧
        ((ns.lookup "values" = none ∧ vs = []) ∨ ns.lookup "values" = some (.arr vs)) := by
      rcases hR.omitList (hlook .values) with ⟨ho, hnil⟩ | ⟨es, ho, hes⟩
      · exact ⟨[], by rw [hnil]; exact .nil, .inl ⟨ho, rfl⟩⟩
      · exact ⟨es, hes, .inr ho⟩
    refine ⟨{ p with value := ns.lookup "value", values := vs, percent := i, of := os',
                      ofOne := o' }, ?_,
      .mk rfl rfl (hlook .value) hvsL rfl rfl hiL hofL honeL rfl rfl⟩
    rw [decodePtr, decodePredicate_eq]
    show (predicateRecord.decode {} ns >>= _) = _
    rw [predicateRecord.decode_members hns hrel (p :=
      { p with value := ns.lookup "value", values := vs, percent := i, of := os', ofOne := o' })]
    · rfl
    · intro f
      apply Reads.intro
      cases f with
      | kind =>
        obtain ⟨d, ho, hd⟩ : ∃ d, ns.lookup "kind" = some d ∧ R (.str p.kind.toString) d :=
          rel_some (hlook .kind)
        rw [hR.str hd] at ho
        refine .inr ⟨_, ho, fun s _ => ⟨{ s with kind := p.kind }, ?_, rfl⟩⟩
        simp only [predicateRecord, Predicate.set, decodeString, Except.map, Named.ofString_toString]
      | attr =>
        rcases hR.omitString (hlook .attr) with ⟨ho, hs⟩ | ho
        · exact .inl ⟨ho, hs.symm⟩
        · exact .inr ⟨_, ho, fun s _ => ⟨{ s with attr := p.attr }, rfl, rfl⟩⟩
      | value =>
        rcases ho : ns.lookup "value" with _ | v
        · exact .inl ⟨ho, rfl⟩
        · exact .inr ⟨v, ho, fun s _ => ⟨{ s with value := some v }, rfl, rfl⟩⟩
      | values =>
        rcases hvsD with ⟨ho, hnil⟩ | ho
        · exact .inl ⟨ho, hnil.symm⟩
        · exact .inr ⟨_, ho, fun s _ => ⟨{ s with values := vs }, rfl, rfl⟩⟩
      | pattern =>
        rcases hR.omitString (hlook .pattern) with ⟨ho, hs⟩ | ho
        · exact .inl ⟨ho, hs.symm⟩
        · exact .inr ⟨_, ho, fun s _ => ⟨{ s with pattern := p.pattern }, rfl, rfl⟩⟩
      | salt =>
        rcases hR.omitString (hlook .salt) with ⟨ho, hs⟩ | ho
        · exact .inl ⟨ho, hs.symm⟩
        · exact .inr ⟨_, ho, fun s _ => ⟨{ s with salt := p.salt }, rfl, rfl⟩⟩
      | percent =>
        rcases hiD with ⟨ho, hi⟩ | ho
        · exact .inl ⟨ho, hi.symm⟩
        · refine .inr ⟨_, ho, fun s _ => ⟨{ s with percent := i }, ?_, rfl⟩⟩
          simp only [predicateRecord, Predicate.set, decodeInt_toInt, Except.map]
      | of =>
        rcases hofD with ⟨ho, hnil⟩ | ⟨d, ho, hd⟩
        · exact .inl ⟨ho, hnil.symm⟩
        · refine .inr ⟨d, ho, fun s hs => ⟨{ s with of := os' }, ?_, rfl⟩⟩
          have hs' : s.of = [] := hs
          simp only [predicateRecord, Predicate.set, hs', hd, Except.map]
      | ofOne =>
        rcases honeD with ⟨ho, hnone⟩ | ⟨d, ho, hd⟩
        · exact .inl ⟨ho, hnone.symm⟩
        · refine .inr ⟨d, ho, fun s hs => ⟨{ s with ofOne := o' }, ?_, rfl⟩⟩
          have hs' : s.ofOne = none := hs
          simp only [predicateRecord, Predicate.set, hs', hd, Except.map]
      | source =>
        rcases hR.omitString (hlook .source) with ⟨ho, hs⟩ | ho
        · exact .inl ⟨ho, hs.symm⟩
        · exact .inr ⟨_, ho, fun s _ => ⟨{ s with source := p.source }, rfl, rfl⟩⟩
      | segmentKey =>
        rcases hR.omitString (hlook .segmentKey) with ⟨ho, hs⟩ | ho
        · exact .inl ⟨ho, hs.symm⟩
        · exact .inr ⟨_, ho, fun s _ => ⟨{ s with segmentKey := p.segmentKey }, rfl, rfl⟩⟩

/-- A written rule. -/
theorem decodeRule_encodeRule {r : Rule} (hfits : ∀ p, r.when = some p → p.Fits R) {d : Doc}
    (h : R (encodeRule r) d) :
    ∃ r', decodeRule {} d = .ok r' ∧ r.fill.Like R r' := by
  rw [encodeRule_eq] at h
  obtain ⟨ns, rfl, hns, hrel⟩ := hR.obj (ruleRecord.nodup_members _ (by decide)) h
  obtain ⟨id, hid, hidR⟩ := rel_some (hrel "id")
  obtain ⟨when, hwhen, hwhenR⟩ := rel_some (hrel "when")
  obtain ⟨value, hvalue, hvalueR⟩ := rel_some (hrel "value")
  obtain ⟨o, ho, hlike⟩ := decodePtr_encodePtr hR (fun p hp => readsBack hR p (hfits p hp)) hwhenR
  refine ⟨{ id := r.id, when := o, value := some value }, ?_, rfl, hlike, .some hvalueR⟩
  show ruleRecord.decode {} ns = _
  refine ruleRecord.decode_members hns hrel fun f => Reads.intro _ (.inr ?_)
  cases f with
  | id =>
    rw [hR.str hidR] at hid
    exact ⟨_, hid, fun s _ => ⟨{ s with id := r.id }, rfl, rfl⟩⟩
  | when =>
    refine ⟨_, hwhen, fun s hs => ⟨{ s with when := o }, ?_, rfl⟩⟩
    have hs' : s.when = none := hs
    simp only [ruleRecord, Rule.set, hs', ho, Except.map]
  | value => exact ⟨_, hvalue, fun s _ => ⟨{ s with value := some value }, rfl, rfl⟩⟩

/-- The written rules. -/
theorem decodeRules_encodeRules : ∀ {rs : List Rule} {ds : List Doc},
    (∀ r ∈ rs, ∀ p, r.when = some p → p.Fits R) → Forall₂ R (rs.map encodeRule) ds →
    ∃ rs', decodeRules [] ds = .ok rs' ∧ Forall₂ (Rule.Like R) (rs.map Rule.fill) rs'
  | [], ds, _, h => by
    cases h
    exact ⟨[], rfl, .nil⟩
  | r :: rs, ds, hfits, h => by
    cases h with
    | @cons _ d _ ds hd hds =>
      obtain ⟨r', hr', hlike⟩ := decodeRule_encodeRule hR (hfits r mem_cons_self) hd
      obtain ⟨rs', hrs', hlikes⟩ :=
        decodeRules_encodeRules (fun r hr => hfits r (mem_cons_of_mem _ hr)) hds
      refine ⟨r' :: rs', ?_, .cons hlike hlikes⟩
      show (decodeRule {} d >>= fun r => decodeRules [] ds >>= fun rs => pure (r :: rs)) = _
      rw [hr', hrs']
      rfl

/-- **A written tree reads back** through any transport, up to `fill`. -/
theorem decodeTree_transport {t : RulesTree} (hfits : t.Fits R) {d : Doc} (h : R (encodeTree t) d) :
    ∃ t', decodeTree d = .ok t' ∧ t.fill.Like R t' := by
  rw [encodeTree_eq] at h
  obtain ⟨ns, rfl, hns, hrel⟩ := hR.obj (treeRecord.nodup_members _ (by decide)) h
  obtain ⟨vt, hvt, hvtR⟩ := rel_some (hrel "value_type")
  obtain ⟨dflt, hdflt, hdfltR⟩ := rel_some (hrel "default")
  obtain ⟨rules, hrules, hrulesR⟩ := rel_some (hrel "rules")
  obtain ⟨rs, hrs, hrsL⟩ : ∃ rs, decodeRuleSlice none rules = .ok rs ∧
      Rel (Forall₂ (Rule.Like R)) t.fill.rules rs := by
    obtain ⟨vt', dflt', rs'⟩ := t
    cases rs' with
    | none =>
      rw [hR.null hrulesR]
      exact ⟨none, rfl, .none⟩
    | some rs' =>
      obtain ⟨es, rfl, hes⟩ := hR.arr hrulesR
      obtain ⟨rs, hrs, hlikes⟩ := decodeRules_encodeRules hR hfits hes
      refine ⟨some rs, ?_, .some hlikes⟩
      show (decodeRules [] es).map some = _
      rw [hrs]
      rfl
  refine ⟨{ valueType := t.valueType, default := some dflt, rules := rs }, ?_,
    rfl, .some hdfltR, hrsL⟩
  show treeRecord.decode {} ns = _
  refine treeRecord.decode_members hns hrel fun f => Reads.intro _ (.inr ?_)
  cases f with
  | valueType =>
    rw [hR.str hvtR] at hvt
    refine ⟨_, hvt, fun s _ => ⟨{ s with valueType := t.valueType }, ?_, rfl⟩⟩
    simp only [treeRecord, RulesTree.set, decodeString, Except.map, Named.ofString_toString]
  | default => exact ⟨_, hdflt, fun s _ => ⟨{ s with default := some dflt }, rfl, rfl⟩⟩
  | rules =>
    refine ⟨_, hrules, fun s hs => ⟨{ s with rules := rs }, ?_, rfl⟩⟩
    have hs' : s.rules = none := hs
    simp only [treeRecord, RulesTree.set, hs', hrs, Except.map]

end ReadBack

/-! ## What cannot be read back -/

section Refusal

variable {R : Doc → Doc → Prop} (hR : Transport R)

include hR

/-- Every `percent` below the predicate is passed on as one that can be read. -/
def Predicate.Survives (R : Doc → Doc → Prop) (p : Predicate) : Prop :=
  ∀ q : Predicate, q.Sub p →
    ∃ j : Int64, R (.num (.int q.percent.toInt)) (.num (.int j.toInt))

omit hR in
theorem decodeInt_eq_ok {cur i : Int64} {n : JNum} (h : decodeInt cur (.num n) = .ok i) :
    n = .int i.toInt := by
  cases n with
  | int k =>
    rw [decodeInt] at h
    split at h
    · rename_i hk
      injection h with h
      rw [← h, Int64.toInt_ofInt_of_le hk.1 hk.2]
    · nomatch h
  | dec q => nomatch h

omit hR in
theorem decodePtrs_each : ∀ {ds : List Doc} {cur os : List (Option Predicate)},
    decodePtrs cur ds = .ok os → ∀ d ∈ ds, ∃ c o, decodePtr c d = .ok o
  | [], _, _, _, d, hd => absurd hd not_mem_nil
  | d0 :: ds, cur, os, h, d, hd => by
    rw [decodePtrs] at h
    obtain ⟨o, ho, h⟩ := Fallible.bind_eq_ok.mp h
    obtain ⟨os', hos', -⟩ := Fallible.bind_eq_ok.mp h
    rcases mem_cons.mp hd with rfl | hd
    · exact ⟨_, o, ho⟩
    · exact decodePtrs_each hos' d hd

omit hR in
theorem encodePtrs_eq_map {S : Type} [Strings S] :
    ∀ os : List (Option (Predicate S)), encodePtrs os = os.map encodePtr
  | [] => by rw [encodePtrs, map_nil]
  | o :: os => by
    rw [encodePtrs, encodePtrs_eq_map os, map_cons]
    rfl

/-- **A predicate that is read back had no `percent` that does not fit.** -/
theorem survives_of_decodePtr (p : Predicate) : ∀ {d : Doc} {cur o : Option Predicate},
    R (encodePredicate p) d → decodePtr cur d = .ok o → p.Survives R := by
  induction p with
  | node p hof hone =>
    intro d cur o h hdec
    rw [encodePredicate_eq] at h
    obtain ⟨ns, rfl, hns, hrel⟩ := hR.obj (predicateRecord.nodup_members _ PredicateField.nodup_all) h
    obtain ⟨s, hs, -⟩ := Fallible.bind_eq_ok.mp (show (_ >>= _) = _ from hdec)
    rw [decodePredicate_eq] at hs
    -- every member that was written was stored
    have hset : ∀ (f : PredicateField) (e : Doc), p.member f = some e →
        ∃ e' s1 s2, R e e' ∧ Predicate.set f s1 e' = .ok s2 := by
      intro f e he
      have hf := hrel (predicateRecord.name f)
      rw [predicateRecord.lookup_members _ PredicateField.nodup_all f.mem_all, he] at hf
      obtain ⟨e', he', hee'⟩ := rel_some hf
      obtain ⟨s1, s2, hset⟩ :=
        predicateRecord.set_of_decode (predicateRecord.field_name f) hs (mem_of_lookup he')
      exact ⟨e', s1, s2, hee', hset⟩
    intro q hq
    cases hq with
    | refl =>
      by_cases hzero : p.percent = 0
      · rw [hzero]
        exact ⟨0, hR.zero⟩
      · obtain ⟨e', s1, s2, hee', hs⟩ := hset .percent _ (if_neg hzero)
        obtain ⟨i, hi, -⟩ := Fallible.map_eq_ok.mp hs
        obtain ⟨m, rfl⟩ := hR.num hee'
        exact ⟨i, decodeInt_eq_ok hi ▸ hee'⟩
    | @of c _ hc hq =>
      have hne : encodePtrs p.of ≠ [] := by
        rw [encodePtrs_eq_map]
        exact fun hnil => not_mem_nil (map_eq_nil_iff.mp hnil ▸ hc)
      obtain ⟨e', s1, s2, hee', hs⟩ := hset .of _ (if_neg hne)
      obtain ⟨os, hos, -⟩ := Fallible.map_eq_ok.mp hs
      obtain ⟨es, rfl, hes⟩ := hR.arr hee'
      rw [encodePtrs_eq_map, forall₂_map_left_iff] at hes
      obtain ⟨e, he, hce⟩ := exists_of_forall₂ hes _ hc
      obtain ⟨cur', o', ho'⟩ := decodePtrs_each hos e he
      exact hof c hc hce ho' q hq
    | @ofOne c _ hc hq =>
      obtain ⟨e', s1, s2, hee', hs⟩ := hset .ofOne (encodePredicate c) (by rw [Predicate.member, hc]; rfl)
      obtain ⟨o', ho', -⟩ := Fallible.map_eq_ok.mp hs
      exact hone c hc hee' ho' q hq

theorem survives_of_decodeRule {r : Rule} {d : Doc} {cur r' : Rule} (h : R (encodeRule r) d)
    (hdec : decodeRule cur d = .ok r') {p : Predicate} (hp : r.when = some p) : p.Survives R := by
  rw [encodeRule_eq] at h
  obtain ⟨ns, rfl, hns, hrel⟩ := hR.obj (ruleRecord.nodup_members _ (by decide)) h
  obtain ⟨when, hwhen, hwhenR⟩ := rel_some (hrel "when")
  obtain ⟨s1, s2, hs⟩ :=
    ruleRecord.set_of_decode (ruleRecord.field_name .when) hdec (mem_of_lookup hwhen)
  obtain ⟨o, ho, -⟩ := Fallible.map_eq_ok.mp hs
  rw [hp] at hwhenR
  exact survives_of_decodePtr hR p hwhenR ho

omit hR in
theorem decodeRules_each : ∀ {ds : List Doc} {cur rs : List Rule},
    decodeRules cur ds = .ok rs → ∀ d ∈ ds, ∃ c r, decodeRule c d = .ok r
  | [], _, _, _, d, hd => absurd hd not_mem_nil
  | d0 :: ds, cur, rs, h, d, hd => by
    rw [decodeRules] at h
    obtain ⟨r, hr, h⟩ := Fallible.bind_eq_ok.mp h
    obtain ⟨rs', hrs', -⟩ := Fallible.bind_eq_ok.mp h
    rcases mem_cons.mp hd with rfl | hd
    · exact ⟨_, r, hr⟩
    · exact decodeRules_each hrs' d hd

/-- **A tree that is read back had no `percent` that does not fit.** -/
theorem survives_of_decodeTree {t t' : RulesTree} {d : Doc} (h : R (encodeTree t) d)
    (hdec : decodeTree d = .ok t') {r : Rule} (hr : r ∈ t.ruleList) {p : Predicate}
    (hp : r.when = some p) : p.Survives R := by
  rw [encodeTree_eq] at h
  obtain ⟨ns, rfl, hns, hrel⟩ := hR.obj (treeRecord.nodup_members _ (by decide)) h
  obtain ⟨rules, hrules, hrulesR⟩ := rel_some (hrel "rules")
  obtain ⟨s1, s2, hs⟩ :=
    treeRecord.set_of_decode (treeRecord.field_name .rules) hdec (mem_of_lookup hrules)
  obtain ⟨o, ho, -⟩ := Fallible.map_eq_ok.mp hs
  obtain ⟨vt, dflt, rs⟩ := t
  cases rs with
  | none => exact absurd hr not_mem_nil
  | some rs =>
    obtain ⟨es, rfl, hes⟩ := hR.arr hrulesR
    rw [forall₂_map_left_iff] at hes
    obtain ⟨e, he, hre⟩ := exists_of_forall₂ hes r hr
    obtain ⟨rs', hrs', -⟩ := Fallible.map_eq_ok.mp ho
    obtain ⟨cur, r', hr'⟩ := decodeRules_each hrs' e he
    exact survives_of_decodeRule hR hre hr' hp

end Refusal

theorem Predicate.fits_eq (p : Predicate) : p.Fits Eq := fun q _ _ h => ⟨q.percent, h.symm⟩

/-- Writing a tree and reading it back fills in what was missing and changes nothing else. -/
theorem decodeTree_encodeTree (t : RulesTree) : decodeTree (encodeTree t) = .ok t.fill := by
  obtain ⟨t', ht', hlike⟩ :=
    decodeTree_transport Transport.eq (t := t) (fun _ _ p _ => p.fits_eq) rfl
  rw [ht', hlike.eq]

end FalseFlag
