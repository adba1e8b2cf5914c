/-
  Stored segments (internal/server/handlers/segments.go, segment_resolver.go and their copies in
  internal/server/rpc; db/queries/segments.sql).

  A write is accepted when its predicate decodes, is not ITSELF a segment node, and validates.  A
  segment node further down passes (`validatePredicate` accepts it), so stored segments can mention
  each other, and themselves, and resolving such a reference never ends.

  * **`segments_resolve_iff`** — along a run of requests every store resolves every flag source
    EXACTLY when no accepted write makes a segment lead back to itself;
  * **`resolveSegments_correct`** — on a store without reference cycles, resolution succeeds iff
    everything the tree leads to is stored, and what it gives means what the tree means.
-/
import FalseFlag.Resolve
import FalseFlag.Lib.Runs

namespace FalseFlag

open List JsonTree Fallible References Relation Runs Option

/-! ## Accepting a predicate -/

/-- `json.Unmarshal(bytes, &p)` into a zero `Predicate`. -/
def unmarshalPredicate : Doc → Except JsonError Predicate
  | .null => .ok {}
  | .obj ms => decodePredicate {} ms
  | _ => .error .cannotUnmarshal

/-- The `predicate` column: a document that decodes. -/
structure StoredPredicate where
  doc : Doc
  pred : Predicate
  decodes : unmarshalPredicate doc = .ok pred

/-- What `normalizePredicate` and `normalizePredicateBytes` check on the bytes of a predicate. -/
def acceptPredicate (env : Env) (bytes : Doc) : Except String StoredPredicate :=
  match h : unmarshalPredicate bytes with
  | .error _ => .error ("decoding predicate: " ++ env.jsonErrorText (.json bytes))
  | .ok p =>
    if p.kind = .known .segment then
      .error "segment predicate must not reference another segment"
    else
      match validatePredicate env true (some p) with
      | .error err => .error err.text
      | .ok () => .ok { doc := bytes, pred := p, decodes := h }

/-- `normalizePredicate` (REST): a missing or null predicate is nil. -/
def normalizePredicate (env : Env) (raw : Option Value) : Except String StoredPredicate :=
  match raw with
  | none | some .null => .error "predicate is required"
  | some v => acceptPredicate env (marshalAny v)

/-- `normalizePredicateBytes` (Connect): a missing struct is an empty map. -/
def normalizePredicateBytes (env : Env) (fields : Option (List (String × Value))) :
    Except String StoredPredicate :=
  acceptPredicate env (marshalAny (.obj (fields.getD [])))

/-! ## The table -/

/-- A row of `segments`. -/
structure Segment where
  projectId : Nat
  key : String
  name : String
  description : String
  predicate : StoredPredicate

/-- The row is that of `key` in the project. -/
def Segment.Is (projectId : Nat) (key : String) (s : Segment) : Bool :=
  s.projectId == projectId && s.key == key

/-- The table, with `UNIQUE (project_id, key)`. -/
structure SegmentTable where
  rows : List Segment
  unique : rows.Pairwise fun a b => ¬ (a.projectId = b.projectId ∧ a.key = b.key)

/-- `GetSegmentByKey`. -/
def SegmentTable.get (t : SegmentTable) (projectId : Nat) (key : String) : Option Segment :=
  t.rows.find? (Segment.Is projectId key)

def SegmentTable.empty : SegmentTable := { rows := [], unique := List.Pairwise.nil }

/-- How a request is refused: 400, 404, 409, 422 or 500. -/
inductive RequestError where
  | badRequest (text : String)
  | notFound
  | conflict
  | unprocessable (text : String)
  | internal (text : String)
  deriving DecidableEq

theorem Segment.is_iff {projectId : Nat} {key : String} {s : Segment} :
    s.Is projectId key = true ↔ s.projectId = projectId ∧ s.key = key := by
  simp [Segment.Is]

/-- `CreateSegment`: the insert fails on a duplicate key. -/
def SegmentTable.create (t : SegmentTable) (s : Segment) : Except RequestError SegmentTable :=
  if h : t.get s.projectId s.key = none then
    .ok { rows := t.rows ++ [s]
          unique := by
            rw [pairwise_append]
            refine ⟨t.unique, pairwise_singleton _ _, ?_⟩
            rintro a ha b hb ⟨hproj, hkey⟩
            rw [mem_singleton.mp hb] at hproj hkey
            rw [SegmentTable.get, find?_eq_none] at h
            exact h a ha (Segment.is_iff.mpr ⟨hproj, hkey⟩) }
  else .error .conflict

/-- The `SET` of `UpdateSegment`. -/
def Segment.replaceWith (s r : Segment) : Segment := if r.Is s.projectId s.key then s else r

theorem Segment.replaceWith_id (s r : Segment) :
    (s.replaceWith r).projectId = r.projectId ∧ (s.replaceWith r).key = r.key := by
  unfold Segment.replaceWith
  split
  · rename_i h
    obtain ⟨hproj, hkey⟩ := Segment.is_iff.mp h
    exact ⟨hproj.symm, hkey.symm⟩
  · exact ⟨rfl, rfl⟩

/-- `pgTx.UpdateSegment`: that there is no such row is an error of the driver, which the handlers
    do not take for `ErrNotFound`. -/
def SegmentTable.update (t : SegmentTable) (s : Segment) : Except RequestError SegmentTable :=
  if (t.get s.projectId s.key).isSome then
    .ok { rows := t.rows.map s.replaceWith
          unique := by
            rw [pairwise_map]
            refine t.unique.imp fun {a b} hab => ?_
            rw [(s.replaceWith_id a).1, (s.replaceWith_id a).2, (s.replaceWith_id b).1,
              (s.replaceWith_id b).2]
            exact hab }
  else .error (.internal "store: update segment: no rows in result set")

/-! ## The handlers -/

/-- The predicate of a request, as its API carries it. -/
inductive PredicateBody where
  | rest (raw : Option Value)
  | connect (fields : Option (List (String × Value)))

def PredicateBody.normalize (env : Env) : PredicateBody → Except String StoredPredicate
  | .rest raw => normalizePredicate env raw
  | .connect fields => normalizePredicateBytes env fields

/-- `CreateSegment` or `UpdateSegment`, over REST or Connect. -/
structure SegmentRequest where
  isUpdate : Bool
  projectId : Nat
  key : String
  name : String
  description : String
  predicate : PredicateBody

/-- The four write handlers. -/
def handle (env : Env) (t : SegmentTable) (req : SegmentRequest) :
    Except RequestError SegmentTable :=
  match req.predicate.normalize env with
  | .error text => .error (.badRequest text)
  | .ok predicate =>
    let row : Segment := { projectId := req.projectId, key := req.key, name := req.name,
                           description := req.description, predicate }
    if req.isUpdate then t.update row else t.create row

/-- `storeSegmentResolver.ResolveSegment`. -/
def storeSegmentResolver (env : Env) (t : SegmentTable) (projectId : Nat) : SegmentResolver :=
  fun key =>
    match t.get projectId key with
    | none => .error ("segment " ++ env.quote key ++ " does not exist")
    | some seg =>
      match unmarshalPredicate seg.predicate.doc with
      | .error _ => .error ("decoding segment " ++ env.quote key ++ " predicate: "
          ++ env.jsonErrorText (.json seg.predicate.doc))
      | .ok pred => .ok (some pred)

/-! ### What they do -/

section Handlers

variable {env : Env}

/-- The resolver finds a definition iff there is a row, and it is the predicate of the row. -/
theorem storeSegmentResolver_eq_ok {t : SegmentTable} {projectId : Nat} {key : String}
    {p : Predicate} :
    storeSegmentResolver env t projectId key = .ok (some p) ↔
      ∃ seg, t.get projectId key = some seg ∧ seg.predicate.pred = p := by
  unfold storeSegmentResolver
  rcases t.get projectId key with _ | seg
  · exact ⟨fun h => (nomatch h), fun ⟨_, h, _⟩ => (nomatch h)⟩
  · show (match unmarshalPredicate seg.predicate.doc with
      | .error _ => Except.error ("decoding segment " ++ env.quote key ++ " predicate: "
          ++ env.jsonErrorText (.json seg.predicate.doc))
      | .ok pred => .ok (some pred)) = _ ↔ _
    rw [seg.predicate.decodes]
    constructor
    · intro h
      injection h with h
      injection h with h
      exact ⟨seg, rfl, h⟩
    · rintro ⟨seg', h, rfl⟩
      injection h with h
      rw [h]

theorem SegmentTable.get_create {t t' : SegmentTable} {s : Segment} (h : t.create s = .ok t')
    (projectId : Nat) (key : String) :
    t'.get projectId key =
      if s.projectId = projectId ∧ s.key = key then some s else t.get projectId key := by
  unfold SegmentTable.create at h
  split at h
  · rename_i hnone
    injection h with h
    subst h
    show (t.rows ++ [s]).find? _ = _
    rw [find?_append]
    by_cases hs : s.projectId = projectId ∧ s.key = key
    · rw [if_pos hs]
      obtain ⟨rfl, rfl⟩ := hs
      have hnone' : t.rows.find? (Segment.Is s.projectId s.key) = none := hnone
      rw [hnone', none_or, find?_cons, Segment.is_iff.mpr ⟨rfl, rfl⟩]
    · rw [if_neg hs, find?_cons]
      have hs' : s.Is projectId key = false := by
        rw [← Bool.not_eq_true, Segment.is_iff]
        exact hs
      rw [hs', find?_nil, or_none]
      rfl
  · nomatch h

theorem SegmentTable.get_update {t t' : SegmentTable} {s : Segment} (h : t.update s = .ok t')
    (projectId : Nat) (key : String) :
    t'.get projectId key =
      if s.projectId = projectId ∧ s.key = key then some s else t.get projectId key := by
  unfold SegmentTable.update at h
  split at h
  · rename_i hsome
    injection h with h
    subst h
    show (t.rows.map s.replaceWith).find? _ = _
    rw [find?_map]
    -- replacing a row does not change which keys it stands for
    have hfind : Segment.Is projectId key ∘ s.replaceWith = Segment.Is projectId key := by
      funext r
      simp only [Function.comp, Segment.Is, (s.replaceWith_id r).1, (s.replaceWith_id r).2]
    rw [hfind]
    by_cases hs : s.projectId = projectId ∧ s.key = key
    · rw [if_pos hs]
      obtain ⟨rfl, rfl⟩ := hs
      obtain ⟨r, hr⟩ := isSome_iff_exists.mp hsome
      have hr' : t.rows.find? (Segment.Is s.projectId s.key) = some r := hr
      have his := find?_some hr'
      rw [hr', map_some, Segment.replaceWith, if_pos his]
    · rw [if_neg hs]
      rcases hr : t.rows.find? (Segment.Is projectId key) with _ | r
      · rw [SegmentTable.get, hr, map_none]
      · have his := find?_some hr
        have hne : ¬ (r.Is s.projectId s.key = true) := by
          intro h'
          obtain ⟨h1, h2⟩ := Segment.is_iff.mp his
          obtain ⟨h3, h4⟩ := Segment.is_iff.mp h'
          exact hs ⟨h3.symm.trans h1, h4.symm.trans h2⟩
        rw [SegmentTable.get, hr, map_some, Segment.replaceWith, if_neg hne]
  · nomatch h

/-- The row of an accepted write, and the rows it leaves alone. -/
theorem handle_get {t t' : SegmentTable} {req : SegmentRequest} (h : handle env t req = .ok t') :
    ∃ sp, req.predicate.normalize env = .ok sp ∧ ∀ projectId key, t'.get projectId key =
      if req.projectId = projectId ∧ req.key = key then
        some ⟨req.projectId, req.key, req.name, req.description, sp⟩
      else t.get projectId key := by
  unfold handle at h
  rcases hsp : req.predicate.normalize env with text | sp
  · rw [hsp] at h
    nomatch h
  · rw [hsp] at h
    refine ⟨sp, rfl, fun projectId key => ?_⟩
    simp only at h
    split at h
    · exact SegmentTable.get_update h projectId key
    · exact SegmentTable.get_create h projectId key

/-- **All an accepted write does**: its key gets the new definition, every other key keeps its
    own. -/
theorem handle_spec {t t' : SegmentTable} {req : SegmentRequest} (h : handle env t req = .ok t') :
    ∃ sp, req.predicate.normalize env = .ok sp ∧
      ∀ projectId key, storeSegmentResolver env t' projectId key =
        if req.projectId = projectId ∧ req.key = key then .ok (some sp.pred)
        else storeSegmentResolver env t projectId key := by
  obtain ⟨sp, hsp, hget⟩ := handle_get h
  refine ⟨sp, hsp, fun projectId key => ?_⟩
  have hrow := hget projectId key
  by_cases hk : req.projectId = projectId ∧ req.key = key
  · rw [if_pos hk] at hrow ⊢
    exact storeSegmentResolver_eq_ok.mpr ⟨_, hrow, rfl⟩
  · rw [if_neg hk] at hrow ⊢
    unfold storeSegmentResolver
    rw [hrow]

end Handlers

/-! ## Runs of writes -/

section Writes

variable {env : Env}

/-- The table after a request; a refused one changes nothing. -/
def afterRequest (env : Env) (t : SegmentTable) (req : SegmentRequest) : SegmentTable :=
  match handle env t req with
  | .ok t' => t'
  | .error _ => t

/-- In every project the references of the table expand, and every flag source is resolved (or
    refused) in finitely many steps. -/
def Resolves (env : Env) (t : SegmentTable) : Prop :=
  ∀ projectId, Expands (Mentions (storeSegmentResolver env t projectId)) ∧
    ∀ tree, ∃ n, (resolveSegments env (storeSegmentResolver env t projectId) n tree).isSome

/-- No key that the new definition mentions leads back, through the stored definitions, to the key
    that is written. -/
def NoWayBack (env : Env) (t : SegmentTable) (req : SegmentRequest) : Prop :=
  ∀ sp, req.predicate.normalize env = .ok sp → ∀ k ∈ segmentRefs sp.pred,
    ¬ ReflTransGen (Mentions (storeSegmentResolver env t req.projectId)) k req.key

theorem resolves_iff {t : SegmentTable} :
    Resolves env t ↔ ∀ projectId, Expands (Mentions (storeSegmentResolver env t projectId)) :=
  ⟨fun h projectId => (h projectId).1,
    fun h projectId => ⟨h projectId, resolveSegments_isSome (h projectId)⟩⟩

/-- One accepted write. -/
theorem resolves_step {t t' : SegmentTable} {req : SegmentRequest} (ht : Resolves env t)
    (h : handle env t req = .ok t') : Resolves env t' ↔ NoWayBack env t req := by
  obtain ⟨sp, hsp, hspec⟩ := handle_spec h
  have hkey : ∀ r, Mentions (storeSegmentResolver env t' req.projectId) req.key r ↔
      r ∈ segmentRefs sp.pred := by
    intro r
    unfold Mentions
    rw [hspec, if_pos ⟨rfl, rfl⟩]
    constructor
    · rintro ⟨p, hp, hr⟩
      injection hp with hp
      injection hp with hp
      exact hp ▸ hr
    · intro hr
      exact ⟨sp.pred, rfl, hr⟩
  have hother : ∀ a, a ≠ req.key → ∀ b,
      Mentions (storeSegmentResolver env t' req.projectId) a b ↔
        Mentions (storeSegmentResolver env t req.projectId) a b := by
    intro a ha b
    unfold Mentions
    rw [hspec, if_neg fun hab => ha hab.2.symm]
  have hiff : Expands (Mentions (storeSegmentResolver env t' req.projectId)) ↔
      NoWayBack env t req := by
    rw [expands_redefine_iff (ht req.projectId).1 hother]
    constructor
    · intro hno sp' hsp' k hk
      rw [hsp] at hsp'
      injection hsp' with hsp'
      exact hno k ((hkey k).mpr (hsp' ▸ hk))
    · intro hno k hk
      exact hno sp hsp k ((hkey k).mp hk)
  rw [resolves_iff]
  constructor
  · intro hall
    exact hiff.mp (hall req.projectId)
  · intro hno projectId
    by_cases hproj : req.projectId = projectId
    · exact hproj ▸ hiff.mpr hno
    · -- the other projects have the definitions they had
      have hsame : storeSegmentResolver env t' projectId = storeSegmentResolver env t projectId := by
        funext key
        rw [hspec, if_neg fun h => hproj h.1]
      rw [hsame]
      exact (ht projectId).1

theorem resolves_empty : Resolves env .empty := by
  rw [resolves_iff]
  intro projectId
  refine ⟨fun a => Acc.intro a ?_⟩
  rintro b ⟨p, hp, -⟩
  nomatch hp

/-- **Along any run of segment writes, every table resolves every source exactly when every
    accepted write leaves no way back to its own key.** -/
theorem segments_resolve_iff (env : Env) (reqs : List SegmentRequest) :
    Along (afterRequest env) (Resolves env) .empty reqs ↔
      StepsMeet (afterRequest env)
        (fun t req => ∀ t', handle env t req = .ok t' → NoWayBack env t req) .empty reqs := by
  refine @along_iff _ _ _ _ (fun _ => True) _ (fun _ _ _ => trivial) ?_ _ _ trivial resolves_empty
  intro t req _ ht
  unfold afterRequest
  rcases hreq : handle env t req with e | t'
  · exact ⟨fun _ t' h => (nomatch h), fun _ => ht⟩
  · rw [resolves_step ht hreq]
    exact ⟨fun h _ _ => h, fun h => h t' rfl⟩

end Writes

/-! ### A segment that mentions itself -/

/-- `a := not (segment a)`: the reference is below the top, so the write is accepted. -/
def selfRequest : SegmentRequest where
  isUpdate := false
  projectId := 1
  key := "a"
  name := "A"
  description := ""
  predicate := .rest (some (.obj [("kind", .str "not"),
    ("of_one", .obj [("key", .str "a"), ("kind", .str "segment")])]))

/-- A flag source with one rule for segment `a`. -/
def selfTree : RulesTree where
  valueType := .known .boolean
  default := some (.bool false)
  rules := some [{ id := "r1", when := some { kind := .known .segment, segmentKey := "a" },
                   value := some (.bool true) }]

/-- The definition that is stored. -/
def selfPredicate : Predicate where
  kind := .known .not
  ofOne := some { kind := .known .segment, segmentKey := "a" }

theorem expandSegment_self {resolver : SegmentResolver}
    (h : resolver "a" = .ok (some selfPredicate)) :
    ∀ n, expandSegment .plain resolver n "a" = none
  | 0 => rfl
  | n + 1 => by
    rw [expandSegment, h]
    show (inlinePtr _ (some { kind := .known .segment, segmentKey := "a" })).andThen _ = none
    rw [inlinePtr, inlineNode_segment rfl, expandSegment_self h n]
    rfl

/-- The store accepts the segment, its references do not expand, and a flag that uses it is
    never resolved. -/
theorem self_reference_accepted :
    ∃ t, handle .plain .empty selfRequest = .ok t ∧
      ¬ Expands (Mentions (storeSegmentResolver .plain t 1)) ∧
      ∀ n, resolveSegments .plain (storeSegmentResolver .plain t 1) n selfTree = none := by
  refine ⟨_, rfl, ?_⟩
  generalize ht : storeSegmentResolver .plain _ 1 = resolver
  have h : resolver "a" = .ok (some selfPredicate) := by
    rw [← ht]
    rfl
  refine ⟨fun hE => ?_, fun n => ?_⟩
  · obtain ⟨n, hn⟩ := @expandSegment_terminates .plain _ hE "a"
    rw [expandSegment_self h n] at hn
    nomatch hn
  · show (Fueled.andThen (Fueled.andThen (Fueled.mapError (resolveOne .plain resolver n _) _) _) _)
      = none
    rw [resolveOne, inlineNode_segment rfl, expandSegment_self h n]
    rfl

/-! ## Resolution is correct -/

/-- A table has finitely many definitions: without a cycle, they expand. -/
theorem expands_of_acyclic_table {env : Env} {t : SegmentTable} {projectId : Nat}
    (h : ∀ k, ¬ TransGen (Mentions (storeSegmentResolver env t projectId)) k k) :
    Expands (Mentions (storeSegmentResolver env t projectId)) := by
  refine expands_of_acyclic ?_ h
  refine (t.rows.map Segment.key).finite_toSet.subset ?_
  rintro a ⟨b, p, hp, -⟩
  obtain ⟨seg, hseg, -⟩ := storeSegmentResolver_eq_ok.mp hp
  have hkey := (Segment.is_iff.mp (find?_some hseg)).2
  exact mem_map.mpr ⟨seg, mem_of_find?_eq_some hseg, hkey⟩

/-- **Inlining segments.**  On a table without reference cycles: if everything the tree leads to is
    stored, resolution gives (with any fuel from some point on) a tree without segment nodes, with
    the same rules in the same order, ids and values, whose predicates match, do not match or err
    as the original ones do when a segment node means its stored definition; and such a meaning
    exists.  If something the tree leads to is not stored, resolution fails. -/
theorem resolveSegments_correct (env : Env) (t : SegmentTable) (projectId : Nat)
    (hacyclic : ∀ k, ¬ TransGen (Mentions (storeSegmentResolver env t projectId)) k k)
    (tree : RulesTree) :
    (tree.Stored (storeSegmentResolver env t projectId) →
      ∃ tree' n,
        (∀ m, n ≤ m →
          resolveSegments env (storeSegmentResolver env t projectId) m tree = some (.ok tree')) ∧
        tree'.NoSegment ∧ tree'.valueType = tree.valueType ∧ tree'.default = tree.default ∧
        Forall₂ (fun r r' => r'.id = r.id ∧ r'.value = r.value) tree.ruleList tree'.ruleList ∧
        ∀ (programs : Programs) (ctx : Context),
          (∃ seg, Denotes (storeSegmentResolver env t projectId) (matchLeaf env programs ctx) seg) ∧
          ∀ seg, Denotes (storeSegmentResolver env t projectId) (matchLeaf env programs ctx) seg →
            Forall₂ (fun r r' => matchPtr env programs ctx r'.when =
              connectPtr (withSegments (matchLeaf env programs ctx) seg) r.when)
              tree.ruleList tree'.ruleList) ∧
    (¬ tree.Stored (storeSegmentResolver env t projectId) →
      ∃ n e, resolveSegments env (storeSegmentResolver env t projectId) n tree =
        some (.error e)) := by
  have hE := expands_of_acyclic_table hacyclic
  refine ⟨fun hstored => ?_, resolveSegments_error hE⟩
  obtain ⟨n, hn⟩ := @resolveSegments_ok env _ _ hE hstored
  refine ⟨_, n, hn, noSegment_of_resolveSegments (hn n le_rfl), rfl, rfl, ?_, fun programs ctx => ?_⟩
  · rw [ruleList_resolved, forall₂_map_right_iff, forall₂_same]
    exact fun r _ => ⟨rfl, rfl⟩
  · refine ⟨exists_denotes hE _, fun seg hseg => ?_⟩
    rw [ruleList_resolved, forall₂_map_right_iff, forall₂_same]
    exact fun r hr => connect_resolved hE hstored (matchLeaf_childBlind programs ctx) hseg hr

/-! ### Two nested segments -/

/-- `beta := always` and `alpha := not (segment beta)`. -/
def nestedTable : SegmentTable where
  rows :=
    [{ projectId := 1, key := "beta", name := "Beta", description := "",
       predicate := { doc := .obj [("kind", .str "always")], pred := { kind := .known .always },
                      decodes := rfl } },
     { projectId := 1, key := "alpha", name := "Alpha", description := "",
       predicate := { doc := .obj [("kind", .str "not"),
                        ("of_one", .obj [("kind", .str "segment"), ("key", .str "beta")])],
                      pred := { kind := .known .not,
                                ofOne := some { kind := .known .segment, segmentKey := "beta" } },
                      decodes := rfl } }]
  unique := by simp

/-- A flag source with one rule for segment `alpha`. -/
def nestedTree : RulesTree where
  valueType := .known .boolean
  default := some (.bool false)
  rules := some [{ id := "r1", when := some { kind := .known .segment, segmentKey := "alpha" },
                   value := some (.bool true) }]

theorem nestedTable_mentions {a b : String}
    (h : Mentions (storeSegmentResolver .plain nestedTable 1) a b) : a = "alpha" ∧ b = "beta" := by
  obtain ⟨p, hp, hb⟩ := h
  obtain ⟨seg, hseg, rfl⟩ := storeSegmentResolver_eq_ok.mp hp
  have hmem := mem_of_find?_eq_some hseg
  have hkey := (Segment.is_iff.mp (find?_some hseg)).2
  simp only [nestedTable, mem_cons, not_mem_nil, or_false] at hmem
  rcases hmem with rfl | rfl
  · exact absurd hb not_mem_nil
  · exact ⟨hkey.symm, mem_singleton.mp hb⟩

theorem nestedTable_acyclic (k : String) :
    ¬ TransGen (Mentions (storeSegmentResolver .plain nestedTable 1)) k k := by
  intro h
  obtain ⟨b, hkb, -⟩ := TransGen.head'_iff.mp h
  obtain ⟨c, -, hck⟩ := TransGen.tail'_iff.mp h
  have hk := (nestedTable_mentions hkb).1.symm.trans (nestedTable_mentions hck).2
  exact absurd hk (by decide)

theorem nestedTree_stored : nestedTree.Stored (storeSegmentResolver .plain nestedTable 1) := by
  intro k hk j hj
  rw [mem_singleton.mp (show k ∈ ["alpha"] from hk)] at hj
  rcases ReflTransGen.cases_head hj with rfl | ⟨i, hi, hij⟩
  · exact ⟨_, rfl⟩
  · obtain ⟨-, rfl⟩ := nestedTable_mentions hi
    rcases ReflTransGen.cases_head hij with rfl | ⟨i', hi', -⟩
    · exact ⟨_, rfl⟩
    · exact absurd (nestedTable_mentions hi').1 (by decide)

/-- The nested reference is inlined. -/
theorem nested_segments_inlined :
    ∃ tree' n, (∀ m, n ≤ m → resolveSegments .plain (storeSegmentResolver .plain nestedTable 1) m
        nestedTree = some (.ok tree')) ∧ tree'.NoSegment := by
  obtain ⟨tree', n, hn, hno, -⟩ :=
    (resolveSegments_correct .plain nestedTable 1 nestedTable_acyclic nestedTree).1 nestedTree_stored
  exact ⟨tree', n, hn, hno⟩

end FalseFlag
