/-
  Segment references (internal/config/predicate.go).

  `ResolveSegments` replaces every segment node by the stored definition of its key, and goes on
  inside that definition.  There is no cycle detection, so the recursion is bounded by `fuel`
  here: it counts the definitions that are open, and `none` means that it ran out.  Within one
  definition the walk is structural (`inlineNode`), with what to do at a segment node as a parameter.
  (Go rewrites the nodes in place; the resolver decodes a fresh predicate for each call, so no node
  is shared and the rewritten tree is the result.)

  * `resolveSegments_isSome` — if the references of the stored definitions (`Mentions`) expand,
    resolution terminates;
  * `connect_substitute` — the replaced tree matches as the original does when a segment node means
    its definition.
-/
import FalseFlag.Eval
import FalseFlag.Lib.References
import FalseFlag.Lib.Relators

namespace FalseFlag

open List JsonTree Fallible References Relation Relators

/-! ## Segment nodes -/

/-- No segment node stands in `p`. -/
def NoSegment (p : Predicate) : Prop := ∀ q : Predicate, q.Sub p → q.kind ≠ .known .segment

/-- No segment node stands in any rule. -/
def RulesTree.NoSegment (t : RulesTree) : Prop :=
  ∀ r ∈ t.ruleList, ∀ p, r.when = some p → FalseFlag.NoSegment p

/-! ## ResolveSegments -/

/-- A result, or `none` when the fuel ran out. -/
abbrev Fueled (α : Type) := Option (Except CompileError α)

/-- Go on with the result. -/
def Fueled.andThen {α β : Type} (x : Fueled α) (f : α → Fueled β) : Fueled β :=
  match x with
  | none => none
  | some (.error e) => some (.error e)
  | some (.ok a) => f a

/-- Wrap the error. -/
def Fueled.mapError {α : Type} (x : Fueled α) (f : CompileError → CompileError) : Fueled α :=
  Option.map (Except.mapError f) x

section Inline

variable (expand : String → Fueled Predicate)

mutual

/-- `resolveOne` on a pointer; nil stays nil. -/
def inlinePtr : Option Predicate → Fueled (Option Predicate)
  | none => some (.ok none)
  | some p => (inlineNode p).andThen fun q => some (.ok (some q))
  termination_by structural o => o

/-- `resolveOne` up to the next segment nodes.  Children are walked whatever the kind; those of a
    segment node are not looked at. -/
def inlineNode : Predicate → Fueled Predicate
  | { kind, attr, value, values, pattern, salt, percent, of, ofOne, source, segmentKey } =>
    if kind = .known .segment then expand segmentKey
    else
      (inlineOf of).andThen fun of' => (inlinePtr ofOne).andThen fun ofOne' =>
        some (.ok { kind, attr, value, values, pattern, salt, percent, of := of', ofOne := ofOne',
                    source, segmentKey })
  termination_by structural p => p

/-- The loop over `of`. -/
def inlineOf : List (Option Predicate) → Fueled (List (Option Predicate))
  | [] => some (.ok [])
  | c :: cs =>
    (inlinePtr c).andThen fun c' => (inlineOf cs).andThen fun cs' => some (.ok (c' :: cs'))
  termination_by structural cs => cs

end

end Inline

/-- `SegmentResolver.ResolveSegment`. -/
abbrev SegmentResolver := String → Except String (Option Predicate)

/-- The segment case of `resolveOne`: look the definition up and resolve it. -/
def expandSegment (env : Env) (resolver : SegmentResolver) : Nat → String → Fueled Predicate
  | 0, _ => none
  | fuel + 1, key =>
    match resolver key with
    | .error err =>
      some (.error (errorf .errInvalidPredicate ("segment " ++ env.quote key ++ ": " ++ err)))
    | .ok none =>
      some (.error (errorf .errInvalidPredicate ("segment " ++ env.quote key ++ " resolved to nil")))
    | .ok (some seg) => inlineNode (expandSegment env resolver fuel) seg

/-- `resolveOne`. -/
def resolveOne (env : Env) (resolver : SegmentResolver) (fuel : Nat) (p : Predicate) :
    Fueled Predicate :=
  inlineNode (expandSegment env resolver fuel) p

/-- The loop of `ResolveSegments`; a rule without predicate is passed over. -/
def resolveRules (env : Env) (resolver : SegmentResolver) (fuel : Nat) :
    List Rule → Fueled (List Rule)
  | [] => some (.ok [])
  | r :: rs =>
    match r.when with
    | none => (resolveRules env resolver fuel rs).andThen fun rs' => some (.ok (r :: rs'))
    | some p =>
      (Fueled.mapError (resolveOne env resolver fuel p) (·.inRule env r.id)).andThen fun p' =>
        (resolveRules env resolver fuel rs).andThen fun rs' =>
          some (.ok ({ r with when := some p' } :: rs'))

/-- `ResolveSegments`. -/
def resolveSegments (env : Env) (resolver : SegmentResolver) (fuel : Nat) (tree : RulesTree) :
    Fueled RulesTree :=
  match tree.rules with
  | none => some (.ok tree)
  | some rs =>
    (resolveRules env resolver fuel rs).andThen fun rs' => some (.ok { tree with rules := some rs' })

/-! ## References -/

mutual

/-- The keys `resolveOne` looks up in a predicate, before it enters any definition. -/
def segmentRefs : Predicate → List String
  | { kind, of, ofOne, segmentKey, .. } =>
    if kind = .known .segment then [segmentKey] else segmentRefsOf of ++ segmentRefsPtr ofOne
  termination_by structural p => p

/-- `segmentRefs` of a pointer. -/
def segmentRefsPtr : Option Predicate → List String
  | none => []
  | some p => segmentRefs p
  termination_by structural o => o

/-- `segmentRefs` of the children. -/
def segmentRefsOf : List (Option Predicate) → List String
  | [] => []
  | c :: cs => segmentRefsPtr c ++ segmentRefsOf cs
  termination_by structural cs => cs

end

/-- The keys looked up in the rules of a tree. -/
def RulesTree.segmentRefs (t : RulesTree) : List String :=
  t.ruleList.flatMap fun r => segmentRefsPtr r.when

/-- The stored definition of `a` mentions segment `b`. -/
def Mentions (resolver : SegmentResolver) (a b : String) : Prop :=
  ∃ p, resolver a = .ok (some p) ∧ b ∈ segmentRefs p

/-! ### Small facts -/

variable {α : Type}

theorem Fueled.andThen_eq_ok {β : Type} {x : Fueled α} {f : α → Fueled β} {b : β} :
    x.andThen f = some (.ok b) ↔ ∃ a, x = some (.ok a) ∧ f a = some (.ok b) := by
  rcases x with _ | e | a
  · exact ⟨fun h => (nomatch h), fun ⟨_, h, _⟩ => (nomatch h)⟩
  · exact ⟨fun h => (nomatch h), fun ⟨_, h, _⟩ => (nomatch h)⟩
  · constructor
    · intro h
      exact ⟨a, rfl, h⟩
    · rintro ⟨a', h, h'⟩
      injection h with h
      injection h with h
      exact h ▸ h'

theorem Fueled.andThen_isSome {β : Type} {x : Fueled α} {f : α → Fueled β} (hx : x.isSome)
    (hf : ∀ a, x = some (.ok a) → (f a).isSome) : (x.andThen f).isSome := by
  rcases x with _ | e | a
  · nomatch hx
  · rfl
  · exact hf a rfl

theorem Fueled.mapError_eq_ok {x : Fueled α} {f : CompileError → CompileError} {a : α} :
    x.mapError f = some (.ok a) ↔ x = some (.ok a) := by
  rcases x with _ | e | b
  · exact ⟨fun h => (nomatch h), fun h => (nomatch h)⟩
  · exact ⟨fun h => (nomatch h), fun h => (nomatch h)⟩
  · exact Iff.rfl

theorem Fueled.mapError_isSome {x : Fueled α} {f : CompileError → CompileError} :
    (x.mapError f).isSome = x.isSome := Option.isSome_map

/-- `y` gives what `x` gives, unless `x` ran out of fuel. -/
def Fueled.Le {α : Type} (x y : Fueled α) : Prop := ∀ a, x = some a → y = some a

theorem Fueled.Le.andThen {β : Type} {x y : Fueled α} {f g : α → Fueled β} (h : x.Le y)
    (hf : ∀ a, x = some (.ok a) → (f a).Le (g a)) : (x.andThen f).Le (y.andThen g) := by
  intro b hb
  rcases x with _ | e | a
  · nomatch hb
  · rw [h _ rfl]
    exact hb
  · rw [h _ rfl]
    exact hf a rfl b hb

section InlineLemmas

variable {expand expand' : String → Fueled Predicate}

variable {p : Predicate}

theorem inlineNode_segment (h : p.kind = .known .segment) :
    inlineNode expand p = expand p.segmentKey := by
  cases p
  subst h
  rw [inlineNode, if_pos rfl]

theorem inlineNode_other (h : p.kind ≠ .known .segment) :
    inlineNode expand p = (inlineOf expand p.of).andThen fun of' =>
      (inlinePtr expand p.ofOne).andThen fun ofOne' =>
        some (.ok { p with of := of', ofOne := ofOne' }) := by
  cases p
  rw [inlineNode, if_neg h]

theorem segmentRefs_segment (h : p.kind = .known .segment) :
    segmentRefs p = [p.segmentKey] := by
  cases p
  subst h
  rw [segmentRefs, if_pos rfl]

theorem segmentRefs_other (h : p.kind ≠ .known .segment) :
    segmentRefs p = segmentRefsOf p.of ++ segmentRefsPtr p.ofOne := by
  cases p
  rw [segmentRefs, if_neg h]

theorem mem_segmentRefsOf {k : String} : ∀ {cs : List (Option Predicate)},
    k ∈ segmentRefsOf cs ↔ ∃ c, some c ∈ cs ∧ k ∈ segmentRefs c
  | [] => by simp [segmentRefsOf]
  | none :: cs => by
    rw [segmentRefsOf, segmentRefsPtr, nil_append, mem_segmentRefsOf]
    simp
  | some c :: cs => by
    rw [segmentRefsOf, segmentRefsPtr, mem_append, mem_segmentRefsOf]
    constructor
    · rintro (h | ⟨c', hc', h⟩)
      · exact ⟨c, mem_cons_self, h⟩
      · exact ⟨c', mem_cons_of_mem _ hc', h⟩
    · rintro ⟨c', hc', h⟩
      rcases mem_cons.mp hc' with hc' | hc'
      · injection hc' with hc'
        exact .inl (hc' ▸ h)
      · exact .inr ⟨c', hc', h⟩

theorem mem_segmentRefsPtr {k : String} {o : Option Predicate} :
    k ∈ segmentRefsPtr o ↔ ∃ c, o = some c ∧ k ∈ segmentRefs c := by
  cases o with
  | none => simp [segmentRefsPtr]
  | some c => simp [segmentRefsPtr]

/-- A predicate looks no key up iff no segment node stands in it. -/
theorem segmentRefs_eq_nil_iff (p : Predicate) : segmentRefs p = [] ↔ NoSegment p := by
  induction p with
  | node p hof hone =>
    by_cases hp : p.kind = .known .segment
    · rw [segmentRefs_segment hp]
      exact ⟨fun h => (nomatch h), fun h => absurd hp (h p (.refl p))⟩
    · rw [segmentRefs_other hp, append_eq_nil_iff]
      constructor
      · rintro ⟨h1, h2⟩ q hq
        cases hq with
        | refl => exact hp
        | @of c _ hc hq =>
          refine (hof c hc).mp (eq_nil_iff_forall_not_mem.mpr fun k hk => ?_) q hq
          rw [eq_nil_iff_forall_not_mem] at h1
          exact h1 k (mem_segmentRefsOf.mpr ⟨c, hc, hk⟩)
        | @ofOne c _ hc hq =>
          rw [hc, segmentRefsPtr] at h2
          exact (hone c hc).mp h2 q hq
      · intro h
        constructor
        · rw [eq_nil_iff_forall_not_mem]
          intro k hk
          obtain ⟨c, hc, hk⟩ := mem_segmentRefsOf.mp hk
          rw [(hof c hc).mpr fun q hq => h q (.of hc hq)] at hk
          exact not_mem_nil hk
        · rw [eq_nil_iff_forall_not_mem]
          intro k hk
          obtain ⟨c, hc, hk⟩ := mem_segmentRefsPtr.mp hk
          rw [(hone c hc).mpr fun q hq => h q (.ofOne hc hq)] at hk
          exact not_mem_nil hk

/-! ### Inlining returns, and more fuel does not change what it returns -/

theorem inlineOf_isSome : ∀ {cs : List (Option Predicate)},
    (∀ c, some c ∈ cs → (inlineNode expand c).isSome) → (inlineOf expand cs).isSome
  | [], _ => by
    rw [inlineOf]
    rfl
  | c :: cs, h => by
    rw [inlineOf]
    have hcs : (inlineOf expand cs).isSome :=
      inlineOf_isSome fun c hc => h c (mem_cons_of_mem _ hc)
    refine Fueled.andThen_isSome ?_ fun _ _ => Fueled.andThen_isSome hcs fun _ _ => rfl
    cases c with
    | none =>
      rw [inlinePtr]
      rfl
    | some c =>
      rw [inlinePtr]
      exact Fueled.andThen_isSome (h c mem_cons_self) fun _ _ => rfl

/-- Inlining returns when every key it looks up is expanded. -/
theorem inlineNode_isSome (p : Predicate) :
    (∀ k ∈ segmentRefs p, (expand k).isSome) → (inlineNode expand p).isSome := by
  induction p with
  | node p hof hone =>
    intro h
    by_cases hp : p.kind = .known .segment
    · rw [inlineNode_segment hp]
      exact h _ (by rw [segmentRefs_segment hp]; exact mem_singleton_self _)
    · rw [inlineNode_other hp]
      rw [segmentRefs_other hp] at h
      refine Fueled.andThen_isSome (inlineOf_isSome fun c hc => hof c hc fun k hk => ?_) fun _ _ =>
        Fueled.andThen_isSome ?_ fun _ _ => rfl
      · exact h k (mem_append_left _ (mem_segmentRefsOf.mpr ⟨c, hc, hk⟩))
      · rcases hc : p.ofOne with _ | c
        · rw [inlinePtr]
          rfl
        · rw [inlinePtr]
          refine Fueled.andThen_isSome (hone c hc fun k hk => ?_) fun _ _ => rfl
          exact h k (mem_append_right _ (mem_segmentRefsPtr.mpr ⟨c, hc, hk⟩))

theorem inlinePtr_le {o : Option Predicate}
    (h : ∀ c, o = some c → (inlineNode expand c).Le (inlineNode expand' c)) :
    (inlinePtr expand o).Le (inlinePtr expand' o) := by
  cases o with
  | none =>
    rw [inlinePtr, inlinePtr]
    exact fun _ h => h
  | some c =>
    rw [inlinePtr, inlinePtr]
    exact (h c rfl).andThen fun _ _ _ h => h

theorem inlineOf_le : ∀ {cs : List (Option Predicate)},
    (∀ c, some c ∈ cs → (inlineNode expand c).Le (inlineNode expand' c)) →
    (inlineOf expand cs).Le (inlineOf expand' cs)
  | [], _ => by
    rw [inlineOf, inlineOf]
    exact fun _ h => h
  | c :: cs, h => by
    rw [inlineOf, inlineOf]
    refine (inlinePtr_le fun d hd => h d (by rw [hd]; exact mem_cons_self)).andThen fun _ _ => ?_
    exact (inlineOf_le fun d hd => h d (mem_cons_of_mem _ hd)).andThen fun _ _ _ h => h

/-- More fuel below, the same result. -/
theorem inlineNode_le (hle : ∀ k, (expand k).Le (expand' k)) (p : Predicate) :
    (inlineNode expand p).Le (inlineNode expand' p) := by
  induction p with
  | node p hof hone =>
    by_cases hp : p.kind = .known .segment
    · rw [inlineNode_segment hp, inlineNode_segment hp]
      exact hle _
    · rw [inlineNode_other hp, inlineNode_other hp]
      refine (inlineOf_le hof).andThen fun _ _ => ?_
      exact (inlinePtr_le hone).andThen fun _ _ _ h => h

end InlineLemmas

section Expand

variable {env : Env} {resolver : SegmentResolver}

theorem expandSegment_le : ∀ {m n : Nat}, m ≤ n → ∀ key,
    (expandSegment env resolver m key).Le (expandSegment env resolver n key)
  | 0, _, _, _ => fun _ h => nomatch h
  | m + 1, 0, h, _ => absurd h (Nat.not_succ_le_zero m)
  | m + 1, n + 1, h, key => by
    rw [expandSegment, expandSegment]
    rcases resolver key with err | _ | seg
    · exact fun _ h => h
    · exact fun _ h => h
    · exact inlineNode_le (fun k => expandSegment_le (Nat.le_of_succ_le_succ h) k) seg

/-- One fuel for a list of keys. -/
theorem exists_fuel : ∀ {ks : List String},
    (∀ k ∈ ks, ∃ n, (expandSegment env resolver n k).isSome) →
    ∃ n, ∀ k ∈ ks, (expandSegment env resolver n k).isSome
  | [], _ => ⟨0, fun k hk => absurd hk not_mem_nil⟩
  | k :: ks, h => by
    obtain ⟨m, hm⟩ := h k mem_cons_self
    obtain ⟨n, hn⟩ := exists_fuel fun k hk => h k (mem_cons_of_mem _ hk)
    refine ⟨max m n, fun k' hk' => ?_⟩
    rcases mem_cons.mp hk' with rfl | hk'
    · obtain ⟨a, ha⟩ := Option.isSome_iff_exists.mp hm
      rw [expandSegment_le (Nat.le_max_left m n) _ a ha]
      rfl
    · obtain ⟨a, ha⟩ := Option.isSome_iff_exists.mp (hn k' hk')
      rw [expandSegment_le (Nat.le_max_right m n) _ a ha]
      rfl

/-- **If references expand, every key is resolved or fails**: the recursion ends. -/
theorem expandSegment_terminates (h : Expands (Mentions resolver)) (key : String) :
    ∃ n, (expandSegment env resolver n key).isSome := by
  induction key using h.induction with
  | _ key ih =>
    rcases hkey : resolver key with err | _ | seg
    · exact ⟨1, by rw [expandSegment, hkey]; rfl⟩
    · exact ⟨1, by rw [expandSegment, hkey]; rfl⟩
    · obtain ⟨n, hn⟩ := @exists_fuel env _ (segmentRefs seg)
        fun k hk => ih k ⟨seg, hkey, hk⟩
      refine ⟨n + 1, ?_⟩
      rw [expandSegment, hkey]
      exact inlineNode_isSome seg hn

theorem resolveRules_isSome {n : Nat} : ∀ {rs : List Rule},
    (∀ r ∈ rs, ∀ k ∈ segmentRefsPtr r.when, (expandSegment env resolver n k).isSome) →
    (resolveRules env resolver n rs).isSome
  | [], _ => rfl
  | r :: rs, h => by
    have hrs := resolveRules_isSome fun r hr => h r (mem_cons_of_mem _ hr)
    rw [resolveRules]
    rcases hr : r.when with _ | p
    · exact Fueled.andThen_isSome hrs fun _ _ => rfl
    · refine Fueled.andThen_isSome ?_ fun _ _ => Fueled.andThen_isSome hrs fun _ _ => rfl
      rw [Fueled.mapError_isSome]
      refine inlineNode_isSome p fun k hk => h r mem_cons_self k ?_
      rw [hr, segmentRefsPtr]
      exact hk

/-- **Resolution of any tree terminates** when references expand. -/
theorem resolveSegments_isSome (h : Expands (Mentions resolver)) (tree : RulesTree) :
    ∃ n, (resolveSegments env resolver n tree).isSome := by
  obtain ⟨n, hn⟩ := @exists_fuel env _ tree.segmentRefs
    fun k _ => expandSegment_terminates h k
  refine ⟨n, ?_⟩
  unfold resolveSegments
  rcases hrs : tree.rules with _ | rs
  · rfl
  · refine Fueled.andThen_isSome (resolveRules_isSome fun r hr k hk => hn k ?_) fun _ _ => rfl
    rw [RulesTree.segmentRefs, RulesTree.ruleList, hrs]
    exact mem_flatMap.mpr ⟨r, hr, hk⟩

end Expand

/-! ## What a successful resolution computes -/

section Substitute

variable (sub : String → Predicate)

mutual

/-- Every segment node replaced by `sub` of its key. -/
def substitute : Predicate → Predicate
  | { kind, attr, value, values, pattern, salt, percent, of, ofOne, source, segmentKey } =>
    if kind = .known .segment then sub segmentKey
    else { kind, attr, value, values, pattern, salt, percent, of := substituteOf of,
           ofOne := substitutePtr ofOne, source, segmentKey }
  termination_by structural p => p

/-- `substitute` in a pointer. -/
def substitutePtr : Option Predicate → Option Predicate
  | none => none
  | some p => some (substitute p)
  termination_by structural o => o

/-- `substitute` in the children. -/
def substituteOf : List (Option Predicate) → List (Option Predicate)
  | [] => []
  | c :: cs => substitutePtr c :: substituteOf cs
  termination_by structural cs => cs

end

variable {sub}

theorem substitute_segment {p : Predicate} (h : p.kind = .known .segment) :
    substitute sub p = sub p.segmentKey := by
  cases p
  subst h
  rw [substitute, if_pos rfl]

theorem substitute_other {p : Predicate} (h : p.kind ≠ .known .segment) :
    substitute sub p = { p with of := substituteOf sub p.of, ofOne := substitutePtr sub p.ofOne } := by
  cases p
  rw [substitute, if_neg h]

variable {expand : String → Fueled Predicate}

theorem inlinePtr_eq {o : Option Predicate}
    (h : ∀ c, o = some c → inlineNode expand c = some (.ok (substitute sub c))) :
    inlinePtr expand o = some (.ok (substitutePtr sub o)) := by
  cases o with
  | none => rw [inlinePtr, substitutePtr]
  | some c =>
    rw [inlinePtr, h c rfl, substitutePtr]
    rfl

theorem inlineOf_eq : ∀ {cs : List (Option Predicate)},
    (∀ c, some c ∈ cs → inlineNode expand c = some (.ok (substitute sub c))) →
    inlineOf expand cs = some (.ok (substituteOf sub cs))
  | [], _ => by rw [inlineOf, substituteOf]
  | c :: cs, h => by
    rw [inlineOf, substituteOf,
      inlinePtr_eq fun d hd => h d (by rw [hd]; exact mem_cons_self),
      inlineOf_eq fun d hd => h d (mem_cons_of_mem _ hd)]
    rfl

/-- Inlining computes the substitution of what the keys expand to. -/
theorem inlineNode_eq (p : Predicate) :
    (∀ k ∈ segmentRefs p, expand k = some (.ok (sub k))) →
    inlineNode expand p = some (.ok (substitute sub p)) := by
  induction p with
  | node p hof hone =>
    intro h
    by_cases hp : p.kind = .known .segment
    · rw [inlineNode_segment hp, substitute_segment hp]
      exact h _ (by rw [segmentRefs_segment hp]; exact mem_singleton_self _)
    · rw [segmentRefs_other hp] at h
      rw [inlineNode_other hp, substitute_other hp,
        inlineOf_eq fun c hc => hof c hc fun k hk =>
          h k (mem_append_left _ (mem_segmentRefsOf.mpr ⟨c, hc, hk⟩)),
        inlinePtr_eq fun c hc => hone c hc fun k hk =>
          h k (mem_append_right _ (mem_segmentRefsPtr.mpr ⟨c, hc, hk⟩))]
      rfl

theorem mem_substituteOf {d : Predicate} : ∀ {cs : List (Option Predicate)},
    some d ∈ substituteOf sub cs → ∃ c, some c ∈ cs ∧ d = substitute sub c
  | [], h => by
    rw [substituteOf] at h
    exact absurd h not_mem_nil
  | none :: cs, h => by
    rw [substituteOf, substitutePtr] at h
    rcases mem_cons.mp h with h | h
    · nomatch h
    · obtain ⟨c, hc, hd⟩ := mem_substituteOf h
      exact ⟨c, mem_cons_of_mem _ hc, hd⟩
  | some c :: cs, h => by
    rw [substituteOf, substitutePtr] at h
    rcases mem_cons.mp h with h | h
    · injection h with h
      exact ⟨c, mem_cons_self, h⟩
    · obtain ⟨c, hc, hd⟩ := mem_substituteOf h
      exact ⟨c, mem_cons_of_mem _ hc, hd⟩

/-- What is left to look up after a substitution stands in a substituted definition. -/
theorem mem_segmentRefs_substitute (p : Predicate) : ∀ {k}, k ∈ segmentRefs (substitute sub p) →
    ∃ k' ∈ segmentRefs p, k ∈ segmentRefs (sub k') := by
  induction p with
  | node p hof hone =>
    intro k hk
    by_cases hp : p.kind = .known .segment
    · rw [substitute_segment hp] at hk
      exact ⟨_, by rw [segmentRefs_segment hp]; exact mem_singleton_self _, hk⟩
    · rw [substitute_other hp, segmentRefs_other (by exact hp)] at hk
      rw [segmentRefs_other hp]
      rcases mem_append.mp hk with hk | hk
      · obtain ⟨d, hd, hk⟩ := mem_segmentRefsOf.mp hk
        obtain ⟨c, hc, rfl⟩ := mem_substituteOf hd
        obtain ⟨k', hk', hmem⟩ := hof c hc hk
        exact ⟨k', mem_append_left _ (mem_segmentRefsOf.mpr ⟨c, hc, hk'⟩), hmem⟩
      · obtain ⟨d, hd, hk⟩ := mem_segmentRefsPtr.mp hk
        rcases hc : p.ofOne with _ | c
        · rw [hc] at hd
          rw [substitutePtr] at hd
          nomatch hd
        · rw [hc, substitutePtr] at hd
          injection hd with hd
          subst hd
          obtain ⟨k', hk', hmem⟩ := hone c hc hk
          exact ⟨k', mem_append_right _ (mem_segmentRefsPtr.mpr ⟨c, rfl, hk'⟩), hmem⟩

theorem substituteOf_eq_self : ∀ {cs : List (Option Predicate)},
    (∀ c, some c ∈ cs → substitute sub c = c) → substituteOf sub cs = cs
  | [], _ => by rw [substituteOf]
  | none :: cs, h => by
    rw [substituteOf, substitutePtr, substituteOf_eq_self fun c hc => h c (mem_cons_of_mem _ hc)]
  | some c :: cs, h => by
    rw [substituteOf, substitutePtr, h c mem_cons_self,
      substituteOf_eq_self fun c hc => h c (mem_cons_of_mem _ hc)]

/-- Without references there is nothing to substitute. -/
theorem substitute_eq_self (p : Predicate) : NoSegment p → substitute sub p = p := by
  induction p with
  | node p hof hone =>
    intro h
    have hone' : substitutePtr sub p.ofOne = p.ofOne := by
      rcases hc : p.ofOne with _ | c
      · rw [substitutePtr]
      · rw [substitutePtr, hone c hc fun q hq => h q (.ofOne hc hq)]
    rw [substitute_other (h p (.refl p)),
      substituteOf_eq_self fun c hc => hof c hc fun q hq => h q (.of hc hq), hone']
    cases p
    rfl

end Substitute

/-! ### No segment is left -/

section NoSegmentLeft

variable {env : Env} {resolver : SegmentResolver}

/-- What a key expands to, where it does. -/
def Fueled.result (x : Fueled Predicate) : Predicate :=
  match x with
  | some (.ok q) => q
  | _ => {}

variable {expand : String → Fueled Predicate}

theorem inlineOf_refs : ∀ {cs cs' : List (Option Predicate)},
    inlineOf expand cs = some (.ok cs') → ∀ c, some c ∈ cs → ∃ c', inlineNode expand c = some (.ok c')
  | [], _, _, c, hc => absurd hc not_mem_nil
  | d :: ds, cs', h, c, hc => by
    rw [inlineOf] at h
    obtain ⟨d', hd, h⟩ := Fueled.andThen_eq_ok.mp h
    obtain ⟨ds', hds, -⟩ := Fueled.andThen_eq_ok.mp h
    rcases mem_cons.mp hc with rfl | hc
    · rw [inlinePtr] at hd
      obtain ⟨c', hc', -⟩ := Fueled.andThen_eq_ok.mp hd
      exact ⟨c', hc'⟩
    · exact inlineOf_refs hds c hc

/-- When inlining succeeds, every key it looked up was expanded. -/
theorem inlineNode_refs (p : Predicate) : ∀ {q},
    inlineNode expand p = some (.ok q) → ∀ k ∈ segmentRefs p, ∃ q', expand k = some (.ok q') := by
  induction p with
  | node p hof hone =>
    intro q h k hk
    by_cases hp : p.kind = .known .segment
    · rw [inlineNode_segment hp] at h
      rw [segmentRefs_segment hp, mem_singleton] at hk
      exact ⟨q, hk ▸ h⟩
    · rw [inlineNode_other hp] at h
      rw [segmentRefs_other hp] at hk
      obtain ⟨of', hof', h⟩ := Fueled.andThen_eq_ok.mp h
      obtain ⟨ofOne', hone', -⟩ := Fueled.andThen_eq_ok.mp h
      rcases mem_append.mp hk with hk | hk
      · obtain ⟨c, hc, hk⟩ := mem_segmentRefsOf.mp hk
        obtain ⟨c', hc'⟩ := inlineOf_refs hof' c hc
        exact hof c hc hc' k hk
      · obtain ⟨c, hc, hk⟩ := mem_segmentRefsPtr.mp hk
        rw [hc, inlinePtr] at hone'
        obtain ⟨c', hc', -⟩ := Fueled.andThen_eq_ok.mp hone'
        exact hone c hc hc' k hk

/-- A predicate inlined from definitions without references has none. -/
theorem segmentRefs_of_inline (hexpand : ∀ k q, expand k = some (.ok q) → segmentRefs q = [])
    {p q : Predicate} (h : inlineNode expand p = some (.ok q)) : segmentRefs q = [] := by
  have hrefs : ∀ k ∈ segmentRefs p, expand k = some (.ok (expand k).result) := by
    intro k hk
    obtain ⟨q', hq'⟩ := inlineNode_refs p h k hk
    rw [hq']
    rfl
  rw [@inlineNode_eq (fun k => (expand k).result) _ p hrefs] at h
  injection h with h
  injection h with h
  rw [← h, eq_nil_iff_forall_not_mem]
  intro k hk
  obtain ⟨k', hk', hmem⟩ := mem_segmentRefs_substitute p hk
  rw [hexpand k' _ (hrefs k' hk')] at hmem
  exact not_mem_nil hmem

theorem segmentRefs_of_expand : ∀ {n : Nat} {k : String} {q : Predicate},
    expandSegment env resolver n k = some (.ok q) → segmentRefs q = []
  | 0, _, _, h => nomatch h
  | n + 1, k, q, h => by
    rw [expandSegment] at h
    rcases hk : resolver k with err | _ | p
    · rw [hk] at h
      nomatch h
    · rw [hk] at h
      nomatch h
    · rw [hk] at h
      exact segmentRefs_of_inline (fun _ _ h => segmentRefs_of_expand h) h

/-- What `ResolveSegments` does to a rule. -/
def RuleResolved (env : Env) (resolver : SegmentResolver) (n : Nat) (r r' : Rule) : Prop :=
  r'.id = r.id ∧ r'.value = r.value ∧
    ((r.when = none ∧ r'.when = none) ∨
      ∃ p p', r.when = some p ∧ r'.when = some p' ∧ resolveOne env resolver n p = some (.ok p'))

variable {n : Nat}

theorem resolveRules_spec : ∀ {rs rs' : List Rule},
    resolveRules env resolver n rs = some (.ok rs') →
    Forall₂ (RuleResolved env resolver n) rs rs'
  | [], rs', h => by
    injection h with h
    injection h with h
    subst h
    exact .nil
  | r :: rs, rs', h => by
    obtain ⟨id, when, value⟩ := r
    cases when with
    | none =>
      rw [resolveRules] at h
      obtain ⟨rs'', hrs, h⟩ := Fueled.andThen_eq_ok.mp h
      injection h with h
      injection h with h
      subst h
      exact .cons ⟨rfl, rfl, .inl ⟨rfl, rfl⟩⟩ (resolveRules_spec hrs)
    | some p =>
      rw [resolveRules] at h
      obtain ⟨p', hp, h⟩ := Fueled.andThen_eq_ok.mp h
      obtain ⟨rs'', hrs, h⟩ := Fueled.andThen_eq_ok.mp h
      injection h with h
      injection h with h
      subst h
      exact .cons ⟨rfl, rfl, .inr ⟨p, p', rfl, rfl, Fueled.mapError_eq_ok.mp hp⟩⟩
        (resolveRules_spec hrs)

/-- What `ResolveSegments` does to a tree. -/
theorem resolveSegments_spec {t t' : RulesTree}
    (h : resolveSegments env resolver n t = some (.ok t')) :
    t'.valueType = t.valueType ∧ t'.default = t.default ∧
      Forall₂ (RuleResolved env resolver n) t.ruleList t'.ruleList := by
  obtain ⟨vt, dflt, rules⟩ := t
  cases rules with
  | none =>
    injection h with h
    injection h with h
    subst h
    exact ⟨rfl, rfl, .nil⟩
  | some rs =>
    unfold resolveSegments at h
    obtain ⟨rs', hrs, h⟩ := Fueled.andThen_eq_ok.mp h
    injection h with h
    injection h with h
    subst h
    exact ⟨rfl, rfl, resolveRules_spec hrs⟩

/-- **A resolved tree has no segment left**, whatever the fuel it took. -/
theorem noSegment_of_resolveSegments {t t' : RulesTree}
    (h : resolveSegments env resolver n t = some (.ok t')) : t'.NoSegment := by
  obtain ⟨-, -, hrules⟩ := resolveSegments_spec h
  intro r' hr' q hq
  obtain ⟨r, -, -, -, hwhen⟩ := exists_of_forall₂ hrules.flip r' hr'
  rcases hwhen with ⟨-, hnone⟩ | ⟨p, p', -, hp', hp⟩
  · rw [hq] at hnone
    nomatch hnone
  · rw [hq] at hp'
    injection hp' with hp'
    subst hp'
    exact (segmentRefs_eq_nil_iff q).mp (segmentRefs_of_inline (fun _ _ => segmentRefs_of_expand) hp)

/-- A predicate without segments stays as it is. -/
theorem resolveOne_self {p : Predicate} (h : NoSegment p) :
    resolveOne env resolver n p = some (.ok p) := by
  have hrefs := (segmentRefs_eq_nil_iff p).mpr h
  rw [resolveOne, @inlineNode_eq (fun _ => {}) _ p (by simp [hrefs]), substitute_eq_self p h]

theorem resolveRules_self : ∀ {rs : List Rule},
    (∀ r ∈ rs, ∀ p, r.when = some p → NoSegment p) →
    resolveRules env resolver n rs = some (.ok rs)
  | [], _ => rfl
  | r :: rs, h => by
    have hrs : resolveRules env resolver n rs = some (.ok rs) :=
      resolveRules_self fun r hr => h r (mem_cons_of_mem _ hr)
    obtain ⟨id, when, value⟩ := r
    cases when with
    | none =>
      rw [resolveRules, hrs]
      rfl
    | some p =>
      rw [resolveRules]
      simp only
      rw [hrs, resolveOne_self (h _ mem_cons_self p rfl)]
      rfl

/-- **A tree without segments stays as it is.** -/
theorem resolveSegments_self {t : RulesTree} (h : t.NoSegment) :
    resolveSegments env resolver n t = some (.ok t) := by
  obtain ⟨vt, dflt, rules⟩ := t
  cases rules with
  | none => rfl
  | some rs =>
    have hrs : resolveRules env resolver n rs = some (.ok rs) := resolveRules_self h
    show (resolveRules env resolver n rs).andThen _ = _
    rw [hrs]
    rfl

end NoSegmentLeft

/-! ## What a segment node means -/

/-- Leaves under which a segment node means `seg` of its key. -/
def withSegments (leaf : Predicate → Outcome) (seg : String → Outcome) (p : Predicate) : Outcome :=
  if p.kind = .known .segment then seg p.segmentKey else leaf p

/-- `seg` gives every stored segment the meaning of its definition. -/
def Denotes (resolver : SegmentResolver) (leaf : Predicate → Outcome) (seg : String → Outcome) :
    Prop :=
  ∀ k p, resolver k = .ok (some p) → seg k = connect (withSegments leaf seg) p

section Meaning

variable {leaf : Predicate → Outcome}

theorem isLeaf_of_segment {p : Predicate} (h : p.kind = .known .segment) : p.IsLeaf := by
  rintro k (rfl | rfl | rfl) hk <;> rw [h] at hk <;> nomatch hk

variable {seg : String → Outcome}

theorem connect_segment {p : Predicate} (h : p.kind = .known .segment) :
    connect (withSegments leaf seg) p = seg p.segmentKey := by
  rw [connect_leaf (isLeaf_of_segment h), withSegments, if_pos h]

theorem substituteOf_eq_map {sub : String → Predicate} : ∀ cs : List (Option Predicate),
    substituteOf sub cs = cs.map (substitutePtr sub)
  | [] => by rw [substituteOf, map_nil]
  | c :: cs => by rw [substituteOf, map_cons, substituteOf_eq_map cs]

/-- **Substituting definitions for segment nodes keeps the meaning.** -/
theorem connect_substitute (hleaf : ∀ p of ofOne, leaf { p with of := of, ofOne := ofOne } = leaf p)
    {sub : String → Predicate} (p : Predicate) :
    (∀ k ∈ segmentRefs p, seg k = connect leaf (sub k)) →
    connect (withSegments leaf seg) p = connect leaf (substitute sub p) := by
  induction p with
  | node p hof hone =>
    intro h
    by_cases hp : p.kind = .known .segment
    · rw [connect_segment hp, substitute_segment hp]
      exact h _ (by rw [segmentRefs_segment hp]; exact mem_singleton_self _)
    · rw [segmentRefs_other hp] at h
      rw [substitute_other hp]
      refine connect_congr rfl ?_ ?_ ?_
      · show Forall₂ _ p.of (substituteOf sub p.of)
        rw [substituteOf_eq_map, forall₂_map_right_iff, forall₂_same]
        intro c hc
        cases c with
        | none => rfl
        | some c =>
          exact hof c hc fun k hk =>
            h k (mem_append_left _ (mem_segmentRefsOf.mpr ⟨c, hc, hk⟩))
      · show _ = connectPtr leaf (substitutePtr sub p.ofOne)
        rcases hc : p.ofOne with _ | c
        · rfl
        · exact hone c hc fun k hk =>
            h k (mem_append_right _ (mem_segmentRefsPtr.mpr ⟨c, hc, hk⟩))
      · intro _
        rw [withSegments, if_neg hp, hleaf]

/-- The meaning of a predicate looks at the meaning of the keys it mentions only. -/
theorem connect_withSegments_congr {seg' : String → Outcome} (p : Predicate) :
    (∀ k ∈ segmentRefs p, seg k = seg' k) →
    connect (withSegments leaf seg) p = connect (withSegments leaf seg') p := by
  induction p with
  | node p hof hone =>
    intro h
    by_cases hp : p.kind = .known .segment
    · rw [connect_segment hp, connect_segment hp]
      exact h _ (by rw [segmentRefs_segment hp]; exact mem_singleton_self _)
    · rw [segmentRefs_other hp] at h
      refine connect_congr rfl ?_ ?_ ?_
      · rw [forall₂_same]
        intro c hc
        cases c with
        | none => rfl
        | some c =>
          exact hof c hc fun k hk =>
            h k (mem_append_left _ (mem_segmentRefsOf.mpr ⟨c, hc, hk⟩))
      · rcases hc : p.ofOne with _ | c
        · rfl
        · exact hone c hc fun k hk =>
            h k (mem_append_right _ (mem_segmentRefsPtr.mpr ⟨c, hc, hk⟩))
      · intro _
        rw [withSegments, if_neg hp, withSegments, if_neg hp]

open Classical in
/-- The meaning of `k`, from the meaning of what its definition mentions. -/
noncomputable def meaningFrom (resolver : SegmentResolver) (leaf : Predicate → Outcome) (k : String)
    (mentioned : (j : String) → Mentions resolver k j → Outcome) : Outcome :=
  match resolver k with
  | .ok (some p) =>
    connect (withSegments leaf fun j => if h : Mentions resolver k j then mentioned j h
      else .failed "") p
  | _ => .failed ""

/-- Where references expand, every segment has a meaning. -/
theorem exists_denotes {resolver : SegmentResolver} (hE : Expands (Mentions resolver))
    (leaf : Predicate → Outcome) : ∃ seg, Denotes resolver leaf seg := by
  have hwf : WellFounded fun j k => Mentions resolver k j := hE
  refine ⟨hwf.fix (meaningFrom resolver leaf), fun k p hk => ?_⟩
  rw [WellFounded.fix_eq]
  simp only [meaningFrom, hk]
  refine connect_withSegments_congr p fun j hj => ?_
  rw [dif_pos ⟨p, hk, hj⟩]

end Meaning

/-! ## Resolution succeeds when everything it can reach is stored -/

/-- `k` and everything its definition leads to is stored. -/
def Stored (resolver : SegmentResolver) (k : String) : Prop :=
  ∀ j, ReflTransGen (Mentions resolver) k j → ∃ p, resolver j = .ok (some p)

theorem Stored.mentions {resolver : SegmentResolver} {k j : String} (h : Stored resolver k)
    (hj : Mentions resolver k j) : Stored resolver j :=
  fun i hi => h i (.head hj hi)

section Succeeds

variable {env : Env} {resolver : SegmentResolver}

open Classical in
/-- What `k` resolves to, with enough fuel. -/
noncomputable def resolved (env : Env) (resolver : SegmentResolver) (k : String) : Predicate :=
  if h : ∃ q n, expandSegment env resolver n k = some (.ok q) then Classical.choose h else {}

/-- From some fuel on, `k` resolves to `q`. -/
def ResolvesTo (env : Env) (resolver : SegmentResolver) (k : String) (q : Predicate) : Prop :=
  ∃ n, ∀ m, n ≤ m → expandSegment env resolver m k = some (.ok q)

theorem ResolvesTo.eq_resolved {k : String} {q : Predicate} (h : ResolvesTo env resolver k q) :
    q = resolved env resolver k := by
  obtain ⟨n, hn⟩ := h
  have hex : ∃ q n, expandSegment env resolver n k = some (.ok q) := ⟨q, n, hn n le_rfl⟩
  rw [resolved, dif_pos hex]
  obtain ⟨m, hm⟩ := Classical.choose_spec hex
  -- both are the result at the larger of the two fuels
  have h1 := hn (max n m) (Nat.le_max_left n m)
  have h2 := expandSegment_le (Nat.le_max_right n m) k _ hm
  rw [h1] at h2
  injection h2 with h2
  injection h2

/-- One fuel for a list of keys. -/
theorem exists_fuel_resolved : ∀ {ks : List String},
    (∀ k ∈ ks, ResolvesTo env resolver k (resolved env resolver k)) →
    ∃ n, ∀ m, n ≤ m → ∀ k ∈ ks, expandSegment env resolver m k = some (.ok (resolved env resolver k))
  | [], _ => ⟨0, fun _ _ k hk => absurd hk not_mem_nil⟩
  | k :: ks, h => by
    obtain ⟨n1, hn1⟩ := h k mem_cons_self
    obtain ⟨n2, hn2⟩ := exists_fuel_resolved fun k hk => h k (mem_cons_of_mem _ hk)
    refine ⟨max n1 n2, fun m hm k' hk' => ?_⟩
    rcases mem_cons.mp hk' with rfl | hk'
    · exact hn1 m (Nat.le_trans (Nat.le_max_left n1 n2) hm)
    · exact hn2 m (Nat.le_trans (Nat.le_max_right n1 n2) hm) k' hk'

/-- A leaf function that does not look at children. -/
def ChildBlind (leaf : Predicate → Outcome) : Prop :=
  ∀ p of ofOne, leaf { p with of := of, ofOne := ofOne } = leaf p

theorem matchLeaf_childBlind (programs : Programs) (ctx : Context) :
    ChildBlind (matchLeaf env programs ctx) := by
  intro p of ofOne
  rfl

/-- **A stored key resolves**, to a predicate that means what the key means. -/
theorem resolvesTo_resolved (hE : Expands (Mentions resolver)) (k : String) :
    Stored resolver k → ResolvesTo env resolver k (resolved env resolver k) ∧
      ∀ leaf seg, ChildBlind leaf → Denotes resolver leaf seg →
        seg k = connect leaf (resolved env resolver k) := by
  induction k using hE.induction with
  | _ k ih =>
    intro hstored
    obtain ⟨p, hp⟩ := hstored k .refl
    have hrefs := fun j (hj : j ∈ segmentRefs p) =>
      ih j ⟨p, hp, hj⟩ (hstored.mentions ⟨p, hp, hj⟩)
    obtain ⟨n, hn⟩ := exists_fuel_resolved fun j hj => (hrefs j hj).1
    have hto : ResolvesTo env resolver k (substitute (resolved env resolver) p) := by
      refine ⟨n + 1, fun m hm => ?_⟩
      obtain ⟨m, rfl⟩ := Nat.exists_eq_add_of_le' (Nat.le_trans (Nat.le_add_left 1 n) hm)
      rw [expandSegment, hp]
      exact inlineNode_eq p (hn m (Nat.le_of_succ_le_succ hm))
    rw [← hto.eq_resolved]
    refine ⟨hto, fun leaf seg hleaf hseg => ?_⟩
    rw [hseg k p hp]
    exact connect_substitute hleaf p fun j hj => (hrefs j hj).2 leaf seg hleaf hseg

/-- The resolved form of a rule. -/
noncomputable def Rule.resolved (env : Env) (resolver : SegmentResolver) (r : Rule) : Rule :=
  { r with when := substitutePtr (FalseFlag.resolved env resolver) r.when }

theorem resolveRules_eq {n : Nat} : ∀ {rs : List Rule},
    (∀ r ∈ rs, ∀ k ∈ segmentRefsPtr r.when,
      expandSegment env resolver n k = some (.ok (resolved env resolver k))) →
    resolveRules env resolver n rs = some (.ok (rs.map (Rule.resolved env resolver)))
  | [], _ => rfl
  | r :: rs, h => by
    have hrs := resolveRules_eq fun r hr => h r (mem_cons_of_mem _ hr)
    have hr := h r mem_cons_self
    obtain ⟨id, when, value⟩ := r
    cases when with
    | none =>
      rw [resolveRules, hrs]
      rfl
    | some p =>
      have hp : resolveOne env resolver n p =
          some (.ok (substitute (resolved env resolver) p)) := inlineNode_eq p hr
      rw [resolveRules]
      simp only
      rw [hp, hrs]
      rfl

/-! ### and fails when something is missing -/

/-- When expanding a key succeeds, everything it leads to is stored. -/
theorem stored_of_expand : ∀ {n : Nat} {k : String} {q : Predicate},
    expandSegment env resolver n k = some (.ok q) → Stored resolver k
  | 0, _, _, h => nomatch h
  | n + 1, k, q, h => by
    rw [expandSegment] at h
    rcases hk : resolver k with err | _ | p
    · rw [hk] at h
      nomatch h
    · rw [hk] at h
      nomatch h
    · rw [hk] at h
      intro j hj
      rcases ReflTransGen.cases_head hj with rfl | ⟨i, ⟨p', hp', hi⟩, hij⟩
      · exact ⟨p, hk⟩
      · rw [hk] at hp'
        injection hp' with hp'
        injection hp' with hp'
        subst hp'
        obtain ⟨q', hq'⟩ := inlineNode_refs p h i hi
        exact stored_of_expand hq' j hij

/-- Everything the tree leads to is stored. -/
def RulesTree.Stored (resolver : SegmentResolver) (t : RulesTree) : Prop :=
  ∀ k ∈ t.segmentRefs, FalseFlag.Stored resolver k

variable {t : RulesTree}

theorem stored_of_resolveSegments {n : Nat} {t' : RulesTree}
    (h : resolveSegments env resolver n t = some (.ok t')) : t.Stored resolver := by
  obtain ⟨-, -, hrules⟩ := resolveSegments_spec h
  intro k hk
  obtain ⟨r, hr, hk⟩ := mem_flatMap.mp hk
  obtain ⟨r', -, -, -, hwhen⟩ := exists_of_forall₂ hrules r hr
  rcases hwhen with ⟨hnone, -⟩ | ⟨p, p', hp, -, hres⟩
  · rw [hnone, segmentRefsPtr] at hk
    exact absurd hk not_mem_nil
  · rw [hp, segmentRefsPtr] at hk
    obtain ⟨q, hq⟩ := inlineNode_refs p hres k hk
    exact stored_of_expand hq

/-- The resolved form of a tree. -/
noncomputable def RulesTree.resolved (env : Env) (resolver : SegmentResolver) (t : RulesTree) :
    RulesTree :=
  { t with rules := t.rules.map (·.map (Rule.resolved env resolver)) }

/-- **Resolution of a tree**, where references expand: it gives the resolved tree if everything the
    tree leads to is stored, -/
theorem resolveSegments_ok (hE : Expands (Mentions resolver))
    (h : t.Stored resolver) : ∃ n, ∀ m, n ≤ m →
      resolveSegments env resolver m t = some (.ok (t.resolved env resolver)) := by
  obtain ⟨n, hn⟩ := exists_fuel_resolved fun k hk => (@resolvesTo_resolved env _ hE k (h k hk)).1
  refine ⟨n, fun m hm => ?_⟩
  obtain ⟨vt, dflt, rules⟩ := t
  cases rules with
  | none => rfl
  | some rs =>
    have hrs : resolveRules env resolver m rs = some (.ok (rs.map (Rule.resolved env resolver))) :=
      resolveRules_eq fun r hr k hk => hn m hm k (mem_flatMap.mpr ⟨r, hr, hk⟩)
    show (resolveRules env resolver m rs).andThen _ = _
    rw [hrs]
    rfl

/-- and an error if not. -/
theorem resolveSegments_error (hE : Expands (Mentions resolver))
    (h : ¬ t.Stored resolver) : ∃ n e, resolveSegments env resolver n t = some (.error e) := by
  obtain ⟨n, hn⟩ := @resolveSegments_isSome env _ hE t
  obtain ⟨res, hres⟩ := Option.isSome_iff_exists.mp hn
  cases res with
  | error e => exact ⟨n, e, hres⟩
  | ok t' => exact absurd (stored_of_resolveSegments hres) h

theorem ruleList_resolved (t : RulesTree) :
    (t.resolved env resolver).ruleList = t.ruleList.map (Rule.resolved env resolver) := by
  obtain ⟨vt, dflt, rules⟩ := t
  cases rules <;> rfl

/-- The rules of the resolved tree match as the original ones, where a segment node means its
    definition. -/
theorem connect_resolved (hE : Expands (Mentions resolver))
    (h : t.Stored resolver) {leaf : Predicate → Outcome} {seg : String → Outcome}
    (hleaf : ChildBlind leaf) (hseg : Denotes resolver leaf seg) {r : Rule} (hr : r ∈ t.ruleList) :
    connectPtr leaf (r.resolved env resolver).when = connectPtr (withSegments leaf seg) r.when := by
  show connectPtr leaf (substitutePtr (resolved env resolver) r.when) = _
  rcases hp : r.when with _ | p
  · rfl
  · rw [substitutePtr, connectPtr, connectPtr]
    refine (connect_substitute hleaf p fun k hk => ?_).symm
    have hstored := h k (mem_flatMap.mpr ⟨r, hr, by rw [hp, segmentRefsPtr]; exact hk⟩)
    exact (resolvesTo_resolved hE k hstored).2 leaf seg hleaf hseg

end Succeeds

end FalseFlag
