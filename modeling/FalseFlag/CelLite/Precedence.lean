/-
  Precedence in cel-lite (js/packages/sdk-js/src/cel-lite.ts) and in CEL.

  In cel-lite `!` takes a whole relation, in CEL only the operand that follows it: `!a == b` is
  `!(a == b)` here and `(!a) == b` there.  Nothing else is grouped differently:

  * **`groups_like_cel_iff`** — on tokens that both accept, cel-lite groups the operands as CEL
    does, up to the associativity of `&&` and `||`, exactly if no `!` stands before a primary that a
    relational operator follows.

  That two groupings do not come from one another by associativity is seen from a number: the
  relations under each negation, added up (`CelAst.negated`).
-/
import FalseFlag.CelLite.ParserCorrect

namespace FalseFlag.CelLite

open List Nat

open Cel (BinOp)

/-! ## Groupings -/

mutual

/-- A syntax tree of cel-lite, in CEL: a path is a series of selections. -/
def Ast.toCel : Ast → CelAst
  | .literal value => .literal value
  | .path parts => parts.tail.foldl .select (.ident false (parts.headD []))
  | .list items => .list (toCels items)
  | .unary operand => .not operand.toCel
  | .binary op left right => .binary op left.toCel right.toCel
  termination_by structural e => e

def toCels : List Ast → List CelAst
  | [] => []
  | e :: es => e.toCel :: toCels es
  termination_by structural es => es

end

/-- The same up to the associativity of `&&` and `||`, at any depth. -/
inductive Regroups : CelAst → CelAst → Prop
  | refl (e : CelAst) : Regroups e e
  | symm {e f : CelAst} : Regroups e f → Regroups f e
  | trans {e f g : CelAst} : Regroups e f → Regroups f g → Regroups e g
  | and (e f g : CelAst) :
      Regroups (.binary .and (.binary .and e f) g) (.binary .and e (.binary .and f g))
  | or (e f g : CelAst) :
      Regroups (.binary .or (.binary .or e f) g) (.binary .or e (.binary .or f g))
  | select {e f : CelAst} (field : JsString) :
      Regroups e f → Regroups (.select e field) (.select f field)
  | index {e f i j : CelAst} : Regroups e f → Regroups i j → Regroups (.index e i) (.index f j)
  | call {e f : CelAst} (dot : Bool) (name : JsString) (before after : List CelAst) : Regroups e f →
      Regroups (.call dot name (before ++ e :: after)) (.call dot name (before ++ f :: after))
  | operand {e f : CelAst} (name : JsString) (args : List CelAst) :
      Regroups e f → Regroups (.memberCall e name args) (.memberCall f name args)
  | memberCall {e f : CelAst} (g : CelAst) (name : JsString) (before after : List CelAst) :
      Regroups e f → Regroups (.memberCall g name (before ++ e :: after))
        (.memberCall g name (before ++ f :: after))
  | list {e f : CelAst} (before after : List CelAst) :
      Regroups e f → Regroups (.list (before ++ e :: after)) (.list (before ++ f :: after))
  | not {e f : CelAst} : Regroups e f → Regroups (.not e) (.not f)
  | binary {e f g h : CelAst} (op : BinOp) :
      Regroups e f → Regroups g h → Regroups (.binary op e g) (.binary op f h)

/-! ## The relations under negations -/

/-- One for an operator that compares. -/
def opWeight : BinOp → ℕ
  | .and | .or => 0
  | _ => 1

mutual

/-- How many relations there are. -/
def CelAst.relations : CelAst → ℕ
  | .literal _ | .ident _ _ => 0
  | .select operand _ => operand.relations
  | .index operand i => operand.relations + i.relations
  | .call _ _ args => relationsAll args
  | .memberCall operand _ args => operand.relations + relationsAll args
  | .list items => relationsAll items
  | .not operand => operand.relations
  | .binary op left right => opWeight op + left.relations + right.relations
  termination_by structural e => e

def relationsAll : List CelAst → ℕ
  | [] => 0
  | e :: es => e.relations + relationsAll es
  termination_by structural es => es

end

mutual

/-- How many relations there are under each negation, added up. -/
def CelAst.negated : CelAst → ℕ
  | .literal _ | .ident _ _ => 0
  | .select operand _ => operand.negated
  | .index operand i => operand.negated + i.negated
  | .call _ _ args => negatedAll args
  | .memberCall operand _ args => operand.negated + negatedAll args
  | .list items => negatedAll items
  | .not operand => operand.relations + operand.negated
  | .binary _ left right => left.negated + right.negated
  termination_by structural e => e

def negatedAll : List CelAst → ℕ
  | [] => 0
  | e :: es => e.negated + negatedAll es
  termination_by structural es => es

end

theorem relationsAll_append (es fs : List CelAst) :
    relationsAll (es ++ fs) = relationsAll es + relationsAll fs := by
  induction es with
  | nil => exact (zero_add _).symm
  | cons e es ih =>
    rw [cons_append, relationsAll, relationsAll, ih]
    omega

theorem negatedAll_append (es fs : List CelAst) :
    negatedAll (es ++ fs) = negatedAll es + negatedAll fs := by
  induction es with
  | nil => exact (zero_add _).symm
  | cons e es ih =>
    rw [cons_append, negatedAll, negatedAll, ih]
    omega

/-- Regrouping changes neither number. -/
theorem Regroups.measures {e f : CelAst} (h : Regroups e f) :
    e.relations = f.relations ∧ e.negated = f.negated := by
  induction h with
  | refl e => exact ⟨rfl, rfl⟩
  | symm _ ih => exact ⟨ih.1.symm, ih.2.symm⟩
  | trans _ _ ih ih' => exact ⟨ih.1.trans ih'.1, ih.2.trans ih'.2⟩
  | and e f g =>
    simp only [CelAst.relations, CelAst.negated, opWeight]
    omega
  | or e f g =>
    simp only [CelAst.relations, CelAst.negated, opWeight]
    omega
  | call dot name before after _ ih =>
    simp only [CelAst.relations, CelAst.negated, relationsAll_append, negatedAll_append,
      relationsAll, negatedAll, ih, and_self]
  | memberCall g name before after _ ih =>
    simp only [CelAst.relations, CelAst.negated, relationsAll_append, negatedAll_append,
      relationsAll, negatedAll, ih, and_self]
  | list before after _ ih =>
    simp only [CelAst.relations, CelAst.negated, relationsAll_append, negatedAll_append,
      relationsAll, negatedAll, ih, and_self]
  | select _ _ ih | operand _ _ _ ih | not _ ih =>
    simp only [CelAst.relations, CelAst.negated, ih, and_self]
  | index _ _ ih ih' | binary _ _ _ ih ih' =>
    simp only [CelAst.relations, CelAst.negated, ih, ih', and_self]

/-! ## What cel-lite has under its negations -/

/-- `f` has less under its negations than `e`, unless the two are the same. -/
structure Lighter (plain : Bool) (e f : CelAst) : Prop where
  eq : plain = true → e = f
  relations : e.relations = f.relations
  negated : f.negated + (if plain then 0 else 1) ≤ e.negated

theorem Lighter.rfl (e : CelAst) :
    Lighter true e e := ⟨fun _ => Eq.refl e, Eq.refl _, le_refl _⟩

theorem gap_and (p q : Bool) :
    (if (p && q) then 0 else 1) ≤ (if p then 0 else 1) + (if q then 0 else 1) := by
  cases p <;> cases q <;> decide

theorem relations_foldl {op : BinOp} (hop : opWeight op = 0) (es : List CelAst) (e : CelAst) :
    (es.foldl (.binary op) e).relations = e.relations + relationsAll es := by
  induction es generalizing e with
  | nil => rfl
  | cons f es ih =>
    rw [foldl_cons, ih, CelAst.relations, hop, relationsAll]
    omega

theorem negated_foldl (op : BinOp) (es : List CelAst) (e : CelAst) :
    (es.foldl (.binary op) e).negated = e.negated + negatedAll es := by
  induction es generalizing e with
  | nil => rfl
  | cons f es ih =>
    rw [foldl_cons, ih, CelAst.negated, negatedAll]
    omega

section Lighter

variable {p q : Bool} {e f e' f' : CelAst} {es fs : List CelAst}

/-- Two parts, put together in one way on both sides, with `c` more relations. -/
theorem Lighter.join {c : ℕ} {g g' : CelAst} (h : Lighter p e f) (h' : Lighter q e' f')
    (heq : e = f → e' = f' → g = g')
    (hg : g.relations = e.relations + e'.relations + c ∧ g.negated = e.negated + e'.negated)
    (hg' : g'.relations = f.relations + f'.relations + c ∧ g'.negated = f.negated + f'.negated) :
    Lighter (p && q) g g' := by
  refine ⟨fun hplain => ?_, ?_, ?_⟩
  · obtain ⟨hp, hq⟩ := (Bool.and_eq_true _ _).mp hplain
    exact heq (h.eq hp) (h'.eq hq)
  · rw [hg.1, hg'.1, h.relations, h'.relations]
  · have hgap := gap_and p q
    have hleft := h.negated
    have hright := h'.negated
    rw [hg.2, hg'.2]
    omega

theorem Lighter.binary (op : BinOp) (h : Lighter p e f) (h' : Lighter q e' f') :
    Lighter (p && q) (.binary op e e') (.binary op f f') :=
  h.join (c := opWeight op) h' (fun he he' => by rw [he, he'])
    ⟨by rw [CelAst.relations]; omega, Eq.refl _⟩ ⟨by rw [CelAst.relations]; omega, Eq.refl _⟩

theorem Lighter.cons (h : Lighter p e f) (hs : Lighter q (.list es) (.list fs)) :
    Lighter (p && q) (.list (e :: es)) (.list (f :: fs)) :=
  h.join (c := 0) hs (fun he hes => by rw [he, CelAst.list.inj hes]) ⟨Eq.refl _, Eq.refl _⟩
    ⟨Eq.refl _, Eq.refl _⟩

/-- A chain of `&&` or `||`. -/
theorem Lighter.foldl {op : BinOp} (hop : opWeight op = 0) (h : Lighter p e f)
    (hs : Lighter q (.list es) (.list fs)) :
    Lighter (p && q) (es.foldl (.binary op) e) (fs.foldl (.binary op) f) :=
  h.join (c := 0) hs (fun he hes => by rw [he, CelAst.list.inj hes])
    ⟨relations_foldl hop es e, negated_foldl op es e⟩
    ⟨relations_foldl hop fs f, negated_foldl op fs f⟩

end Lighter

/-- A relation of one operand. -/
def CelTree.single : CelTree .relation → Bool
  | .relation _ .relsNil => true
  | .relation _ (.relsCons _ _ _) => false

/-- The relations of a chain: those of the first operand, and one or more for each that follows. -/
theorem measures_relation (xs : List (RelOp × CelAst)) (e : CelAst) :
    (xs.foldl (fun e x => .binary x.1.binOp e x.2) e).relations =
        e.relations + xs.length + relationsAll (xs.map Prod.snd) ∧
      (xs.foldl (fun e x => .binary x.1.binOp e x.2) e).negated =
        e.negated + negatedAll (xs.map Prod.snd) := by
  induction xs generalizing e with
  | nil => exact ⟨rfl, rfl⟩
  | cons x xs ih =>
    have hop : opWeight x.1.binOp = 1 := by cases x.1 <;> rfl
    obtain ⟨hrel, hneg⟩ := ih (.binary x.1.binOp e x.2)
    rw [foldl_cons, hrel, hneg, CelAst.relations, CelAst.negated, hop, map_cons,
      relationsAll, negatedAll, length_cons]
    omega

/-- A negation over the first operand has less under it than one over the relation, if there is a
    relation. -/
theorem CelTree.lighter_negate (t : CelTree .relation) :
    Lighter t.single (.not t.value) t.negate.value := by
  cases t with
  | relation head tail =>
    obtain ⟨hrel, hneg⟩ := measures_relation tail.value head.value
    obtain ⟨hrel', hneg'⟩ := measures_relation tail.value (.not head.value)
    have hvalue : (relation head tail).value =
      tail.value.foldl (fun e x => .binary x.1.binOp e x.2) head.value := by rw [value]
    have hnegate : (relation head tail).negate.value =
      tail.value.foldl (fun e x => .binary x.1.binOp e x.2) (.not head.value) := rfl
    refine ⟨?_, ?_, ?_⟩
    · intro hsingle
      cases tail with
      | relsNil => rfl
      | relsCons _ _ _ => nomatch hsingle
    · rw [CelAst.relations, hvalue, hnegate, hrel, hrel', CelAst.relations]
    · rw [CelAst.negated, hvalue, hnegate, hrel, hneg, hneg', CelAst.negated]
      cases tail with
      | relsNil =>
        show _ + 0 ≤ _
        omega
      | relsCons op operand tail =>
        have hlen : ((relsCons op operand tail).value : List (RelOp × CelAst)).length =
          (tail.value : List (RelOp × CelAst)).length + 1 := rfl
        show _ + 1 ≤ _
        omega

/-- The negation of cel-lite, over what CEL has without it. -/
theorem Lighter.negate {p b : Bool} {e : CelAst} {t : CelTree .relation} (h : Lighter p e t.value)
    (hb : t.single = b) : Lighter (b && p) (.not e) t.negate.value := by
  subst hb
  have ht := t.lighter_negate
  have hrel := h.relations
  have hneg := h.negated
  have hneg' : t.negate.value.negated + _ ≤ t.value.relations + t.value.negated := ht.negated
  have hgap := gap_and t.single p
  refine ⟨fun hplain => ?_, ?_, ?_⟩
  · obtain ⟨hsingle, hp⟩ := (Bool.and_eq_true _ _).mp hplain
    rw [h.eq hp, ht.eq hsingle]
  · rw [← ht.relations]
    exact hrel
  · show _ ≤ e.relations + e.negated
    omega

/-- After the negations comes a single operand, not a relation. -/
def Tree.bare : {s : Symbol} → Tree s → Bool
  | _, .not operand => operand.bare
  | _, .rel operand => operand.bare
  | _, .compare _ _ _ => false
  | _, _ => true

/-- No negation stands before a relation. -/
def Tree.plain : {s : Symbol} → Tree s → Bool
  | _, .or head tail => head.plain && tail.plain
  | _, .orsNil => true
  | _, .orsCons operand tail => operand.plain && tail.plain
  | _, .and head tail => head.plain && tail.plain
  | _, .andsNil => true
  | _, .andsCons operand tail => operand.plain && tail.plain
  | _, .not operand => operand.bare && operand.plain
  | _, .rel operand => operand.plain
  | _, .primary operand => operand.plain
  | _, .compare left _ right => left.plain && right.plain
  | _, .paren inner => inner.plain
  | _, .empty => true
  | _, .list head tail => head.plain && tail.plain
  | _, .literal _ => true
  | _, .path _ _ => true
  | _, .itemsNil => true
  | _, .itemsCons item tail => item.plain && tail.plain

theorem single_negate (t : CelTree .relation) : t.negate.single = t.single := by
  cases t with
  | relation head tail => cases tail <;> rfl

theorem Tree.single_rel (t : Tree .rel) : t.toCel.single = t.bare := by
  cases t <;> rfl

theorem Tree.single_toCel : ∀ t : Tree .not, t.toCel.single = t.bare
  | .not operand => by
    rw [toCel, single_negate, single_toCel operand]
    rfl
  | .rel operand => operand.single_rel

/-- What a derivation of cel-lite stands for, as a syntax tree of CEL; several are a list. -/
def Symbol.ast : (s : Symbol) → s.Value → CelAst
  | .ors, es | .ands, es | .items, es => .list (toCels es)
  | .or, e | .and, e | .not, e | .rel, e | .primary, e => e.toCel

/-- And the derivation of CEL. -/
def Symbol.celAst : (s : Symbol) → s.cel.Value → CelAst
  | .ors, es | .ands, es | .items, es => .list es
  | .or, e | .and, e | .not, e | .rel, e | .primary, e => e

theorem toCel_foldl (op : BinOp) (es : List Ast) (e : Ast) :
    (es.foldl (.binary op) e).toCel = (toCels es).foldl (.binary op) e.toCel := by
  induction es generalizing e with
  | nil => rfl
  | cons f es ih => exact ih (.binary op e f)

theorem value_selects (fields : List JsString) (e : CelAst) :
    (selects fields).value e = fields.foldl .select e := by
  induction fields generalizing e with
  | nil => rfl
  | cons field fields ih => exact ih (.select e field)

/-- **CEL has less under its negations than cel-lite**, or groups as cel-lite does. -/
theorem Tree.lighter : ∀ {s : Symbol} (t : Tree s),
    Lighter t.plain (s.ast t.value) (s.celAst t.toCel.value) := by
  intro s t
  induction t with
  | or head tail ihHead ihTail =>
    show Lighter (head.plain && tail.plain) (List.foldl (.binary .or) head.value tail.value).toCel _
    rw [toCel_foldl]
    exact ihHead.foldl rfl ihTail
  | and head tail ihHead ihTail =>
    show Lighter (head.plain && tail.plain) (List.foldl (.binary .and) head.value tail.value).toCel _
    rw [toCel_foldl]
    exact ihHead.foldl rfl ihTail
  | orsNil => exact .rfl _
  | andsNil => exact .rfl _
  | itemsNil => exact .rfl _
  | orsCons operand tail ihOperand ihTail => exact ihOperand.cons ihTail
  | andsCons operand tail ihOperand ihTail => exact ihOperand.cons ihTail
  | itemsCons item tail ihItem ihTail => exact ihItem.cons ihTail
  | not operand ih => exact ih.negate operand.single_toCel
  | rel operand ih => exact ih
  | primary operand ih => exact ih
  | compare left op right ihLeft ihRight => exact ihLeft.binary op.binOp ihRight
  | paren inner ih => exact ih
  | empty => exact .rfl _
  | list head tail ihHead ihTail => exact ihHead.cons ihTail
  | literal value => exact .rfl _
  | path head tail =>
    have hvalue : (path head tail).toCel.value = tail.foldl .select (.ident false head) :=
      value_selects tail _
    show Lighter true _ (path head tail).toCel.value
    rw [hvalue]
    exact .rfl _

/-! ## Negations before relations, in the tokens -/

/-- A `!` stands before a primary that a relational operator follows. -/
def NegatesRelation (w : List Token) : Prop :=
  ∃ (before : List Token) (p : Tree .primary) (op : RelOp) (after : List Token),
    w = before ++ .punct .bang :: (p.yield ++ op.token :: after)

theorem NegatesRelation.mono {w : List Token} (h : NegatesRelation w) (a b : List Token) :
    NegatesRelation (a ++ (w ++ b)) := by
  obtain ⟨before, p, op, after, rfl⟩ := h
  refine ⟨a ++ before, p, op, after ++ b, ?_⟩
  simp only [append_assoc, cons_append]

theorem NegatesRelation.left {w : List Token} (h : NegatesRelation w) (b : List Token) :
    NegatesRelation (w ++ b) := h.mono [] b

theorem NegatesRelation.right {w : List Token} (a : List Token) (h : NegatesRelation w) :
    NegatesRelation (a ++ w) := by
  have h := h.mono a []
  rwa [append_nil] at h

/-- After the last of several negations comes the relation. -/
theorem Tree.negates_of_not_bare : ∀ t : Tree .not, t.bare = false →
    NegatesRelation (.punct .bang :: t.yield)
  | .not operand, h => (negates_of_not_bare operand h).right [.punct .bang]
  | .rel (.primary _), h => nomatch h
  | .rel (.compare left op right), _ => ⟨[], left, op, right.yield, rfl⟩

theorem Tree.negates_of_not_plain : ∀ {s : Symbol} (t : Tree s), t.plain = false →
    NegatesRelation t.yield := by
  intro s t
  induction t with
  | or head tail ihHead ihTail | and head tail ihHead ihTail =>
    intro h
    rcases (Bool.and_eq_false_iff).mp h with h | h
    · exact (ihHead h).left _
    · exact (ihTail h).right _
  | orsCons operand tail ih ihTail | andsCons operand tail ih ihTail | itemsCons operand tail ih ihTail =>
    intro h
    rcases (Bool.and_eq_false_iff).mp h with h | h
    · exact (ih h).mono [_] _
    · exact ((ihTail h).right _).right [_]
  | not operand ih =>
    intro h
    rcases (Bool.and_eq_false_iff).mp h with h | h
    · exact operand.negates_of_not_bare h
    · exact (ih h).right [_]
  | rel operand ih => exact ih
  | primary operand ih => exact ih
  | compare left op right ihLeft ihRight =>
    intro h
    rcases (Bool.and_eq_false_iff).mp h with h | h
    · exact (ihLeft h).left _
    · exact ((ihRight h).right [_]).right _
  | paren inner ih =>
    intro h
    exact (ih h).mono [_] _
  | list head tail ihHead ihTail =>
    intro h
    rcases (Bool.and_eq_false_iff).mp h with h | h
    · exact (ihHead h).mono [_] _
    · exact (((ihTail h).left _).right _).right [_]
  | orsNil | andsNil | itemsNil | empty | literal _ | path _ _ => exact nofun

/-- What comes after a `!` is what it negates: a bare operand, if the whole is plain. -/
def Negates (plain : Bool) (after r : List Token) : Prop :=
  ∃ n : Tree .not, (plain = true → n.bare = true) ∧ ∃ r', after ++ r = n.yield ++ r' ∧ Stops 3 r'

theorem split_cons {tok : Token} {w before after : List Token}
    (h : tok :: w = before ++ .punct .bang :: after) (htok : tok ≠ .punct .bang) :
    ∃ m, w = m ++ .punct .bang :: after := by
  cases before with
  | nil => exact absurd (List.cons.inj h).1 htok
  | cons t before => exact ⟨before, (List.cons.inj h).2⟩

/-- A `!` in one of two phrases. -/
theorem negates_append {p q : Bool} {a b before after r : List Token}
    (h : a ++ b = before ++ .punct .bang :: after)
    (ha : ∀ {m : List Token}, a = before ++ .punct .bang :: m → Negates p m (b ++ r))
    (hb : ∀ {m : List Token}, b = m ++ .punct .bang :: after → Negates q after r) :
    Negates (p && q) after r := by
  rcases append_eq_append_iff.mp h with ⟨m, rfl, hm⟩ | ⟨m, rfl, hm⟩
  · obtain ⟨n, hbare, hn⟩ := hb hm
    exact ⟨n, fun hpq => hbare ((Bool.and_eq_true _ _).mp hpq).2, hn⟩
  · cases m with
    | nil =>
      obtain ⟨n, hbare, hn⟩ := hb (m := []) hm.symm
      exact ⟨n, fun hpq => hbare ((Bool.and_eq_true _ _).mp hpq).2, hn⟩
    | cons t m =>
      obtain ⟨rfl, rfl⟩ := List.cons.inj hm
      obtain ⟨n, hbare, r', hsplit, hr'⟩ := ha rfl
      exact ⟨n, fun hpq => hbare ((Bool.and_eq_true _ _).mp hpq).1, r',
        (append_assoc m b r).trans hsplit, hr'⟩

theorem not_mem_of_split {w before after : List Token} (hw : .punct .bang ∉ w)
    (h : w = before ++ .punct .bang :: after) : False :=
  hw (h ▸ mem_append_right _ mem_cons_self)

theorem RelOp.token_ne_bang (op : RelOp) : op.token ≠ .punct .bang := by
  cases op <;> nofun

/-- **A `!` stands before what it negates.** -/
theorem Tree.negates : ∀ {s : Symbol} (t : Tree s) {before after r : List Token},
    t.yield = before ++ .punct .bang :: after → Stops s.level r → Negates t.plain after r := by
  intro s t
  induction t with
  | or head tail ihHead ihTail =>
    intro before after r h hr
    exact negates_append h (ihHead · (stops_ors hr)) (ihTail · hr)
  | and head tail ihHead ihTail =>
    intro before after r h hr
    exact negates_append h (ihHead · (stops_ands hr)) (ihTail · hr)
  | orsCons operand tail ihOperand ihTail =>
    intro before after r h hr
    obtain ⟨m, h⟩ := split_cons h nofun
    exact negates_append h (ihOperand · (stops_ors hr)) (ihTail · hr)
  | andsCons operand tail ihOperand ihTail =>
    intro before after r h hr
    obtain ⟨m, h⟩ := split_cons h nofun
    exact negates_append h (ihOperand · (stops_ands hr)) (ihTail · hr)
  | itemsCons item tail ihItem ihTail =>
    intro before after r h hr
    obtain ⟨m, h⟩ := split_cons h nofun
    exact negates_append h (ihItem · (stops_items hr)) (ihTail · hr)
  | not operand ih =>
    intro before after r h hr
    cases before with
    | nil =>
      obtain ⟨-, rfl⟩ := List.cons.inj h
      exact ⟨operand, fun hplain => ((Bool.and_eq_true _ _).mp hplain).1, r, rfl, hr⟩
    | cons t before =>
      obtain ⟨n, hbare, hn⟩ := ih (List.cons.inj h).2 hr
      exact ⟨n, fun hplain => hbare ((Bool.and_eq_true _ _).mp hplain).2, hn⟩
  | rel operand ih =>
    intro before after r h hr
    exact ih h hr
  | primary operand ih =>
    intro before after r h hr
    exact ih h (hr.mono (le_succ 3))
  | compare left op right ihLeft ihRight =>
    intro before after r h hr
    refine negates_append h (ihLeft · (stops_token op _)) fun h => ?_
    obtain ⟨m, h⟩ := split_cons h op.token_ne_bang
    exact ihRight h (hr.mono (le_succ 3))
  | paren inner ih =>
    intro before after r h hr
    obtain ⟨m, h⟩ := split_cons h nofun
    have hclose := negates_append (q := true) h (ih · (stops_close .rparen rfl r))
      (fun h => (not_mem_of_split (by decide) h).elim)
    rwa [Bool.and_true] at hclose
  | list head tail ihHead ihTail =>
    intro before after r h hr
    obtain ⟨m, h⟩ := split_cons h nofun
    refine negates_append h (ihHead · (stops_list tail r)) fun h => ?_
    have hclose := negates_append (q := true) h (ihTail · (stops_close .rbracket rfl r))
      (fun h => (not_mem_of_split (by decide) h).elim)
    rwa [Bool.and_true] at hclose
  | orsNil | andsNil | itemsNil | empty =>
    intro before after r h hr
    exact (not_mem_of_split (by simp [yield]) h).elim
  | literal value =>
    intro before after r h hr
    exact (not_mem_of_split (by cases value <;> simp [yield, Const.token]) h).elim
  | path head tail =>
    intro before after r h hr
    exact (not_mem_of_split (by simp [yield, segments]) h).elim

theorem Tree.not_negates_of_plain {t : Tree .or} (h : t.plain = true) :
    ¬ NegatesRelation t.yield := by
  rintro ⟨before, p, op, after, hw⟩
  obtain ⟨n, hbare, r', hsplit, hr'⟩ := t.negates hw stops_eof
  rw [append_assoc] at hsplit
  cases n with
  | not operand => exact p.primary_ne_bang hsplit
  | rel operand =>
    cases operand with
    | primary q =>
      obtain ⟨-, rfl⟩ := p.cancel q hsplit (stops_token op _) (hr'.mono (le_succ 3))
      exact not_stops_token op _ hr'
    | compare _ _ _ => nomatch hbare h

/-- A derivation is plain exactly if the tokens show no negated relation. -/
theorem Tree.plain_iff (t : Tree .or) : t.plain = true ↔ ¬ NegatesRelation t.yield := by
  refine ⟨not_negates_of_plain, fun h => ?_⟩
  cases hplain : t.plain with
  | true => rfl
  | false => exact absurd (t.negates_of_not_plain hplain) h

/-! ## cel-lite and CEL -/

theorem CelTree.eof_not_mem : ∀ {s : CelSymbol} (t : CelTree s), .eof ∉ t.yield := by
  intro s t
  induction t with
  | literal value => cases value <;> simp [yield, Const.token]
  | ident dot name | call dot name args => cases dot <;> simp_all [yield, optional]
  | list items comma => cases comma <;> simp_all [yield, optional]
  | relsCons op operand tail => simp_all [yield, op.eof_ne]
  | _ => simp_all [yield]

/-- cel-lite groups as CEL does exactly if the derivation is plain. -/
theorem Tree.regroups_iff (t : Tree .or) :
    Regroups t.value.toCel t.toCel.value ↔ t.plain = true := by
  have hlighter : Lighter t.plain t.value.toCel t.toCel.value := t.lighter
  constructor
  · intro h
    have hneg := hlighter.negated
    rw [h.measures.2] at hneg
    cases hplain : t.plain with
    | true => rfl
    | false =>
      rw [hplain] at hneg
      exact absurd hneg (not_succ_le_self _)
  · intro h
    rw [hlighter.eq h]
    exact .refl _

/-- **cel-lite groups the operands as CEL does** exactly if no `!` stands before a relation. -/
theorem groups_like_cel_iff {w : List Token} {fuel : ℕ} {e : Ast} {t : CelTree .expr}
    (hfuel : parseFuel (w ++ [.eof]) ≤ fuel) (hlite : parse fuel (w ++ [.eof]) = .ok e)
    (hcel : t.yield = w) : Regroups e.toCel t.value ↔ ¬ NegatesRelation w := by
  have hw : .eof ∉ w := hcel ▸ t.eof_not_mem
  rcases parse_outcome hw hfuel with ⟨d, rfl, hd⟩ | ⟨err, herr, -⟩
  · obtain rfl := Except.ok.inj (hd.symm.trans hlite)
    obtain ⟨rfl, -⟩ := d.eq_toCel t (congrArg (· ++ [Token.eof]) hcel.symm) stops_eof stops_eof
    rw [d.regroups_iff, d.plain_iff]
  · nomatch herr.symm.trans hlite

/-- `a == b && !c` -/
def plainTree : Tree .or :=
  .or (.and (.rel (.compare (.path (units "a") []) .eq (.path (units "b") [])))
    (.andsCons (.not (.rel (.primary (.path (units "c") [])))) .andsNil)) .orsNil

theorem plainTree_groups : parseFuel (plainTree.yield ++ [.eof]) ≤ 45 ∧
    parse 45 (plainTree.yield ++ [.eof]) = .ok plainTree.value ∧
    plainTree.toCel.yield = plainTree.yield ∧ ¬ NegatesRelation plainTree.yield ∧
    Regroups plainTree.value.toCel plainTree.toCel.value := by
  have hfuel : parseFuel (plainTree.yield ++ [.eof]) ≤ 45 := by decide
  have hplain : ¬ NegatesRelation plainTree.yield := plainTree.plain_iff.mp rfl
  exact ⟨hfuel, rfl, rfl, hplain, (groups_like_cel_iff hfuel rfl rfl).mpr hplain⟩

/-- `!a == b` -/
def negatedEq : List Token :=
  [.punct .bang, .ident (units "a"), .punct .eq, .ident (units "b")]

/-- `!a == b` is `!(a == b)` in cel-lite and `(!a) == b` in CEL. -/
theorem negation_regroups :
    parse 30 (negatedEq ++ [.eof]) =
        .ok (.unary (.binary .eq (.path [units "a"]) (.path [units "b"]))) ∧
      ∃ t : CelTree .expr, t.yield = negatedEq ∧
        t.value = .binary .eq (.not (.ident false (units "a"))) (.ident false (units "b")) ∧
        ¬ Regroups (Ast.unary (.binary .eq (.path [units "a"]) (.path [units "b"]))).toCel t.value := by
  refine ⟨rfl, .expr (.and (.relation (.not (.member (.suffixed (.ident false (units "a"))
    .suffixesNil))) (.relsCons .eq (.member (.suffixed (.ident false (units "b")) .suffixesNil))
      .relsNil)) .andsNil) .orsNil, rfl, rfl, fun h => ?_⟩
  exact absurd h.measures.2 (by decide)

end FalseFlag.CelLite
