/-
  What the reconcilers of the operator share (internal/operator/controllers/result.go, and the
  `Reconcile` methods of flag_controller.go and segment_controller.go, which differ in their
  finalizer and their `sync` only).

  A reconcile reads the object, sees to the finalizer, applies the spec upstream (`sync`), and
  writes the outcome into two conditions: `Synced` and `Ready`.  A success sets both to true.  A
  failure sets ONE of them to false (`Ready` if the spec is invalid, else `Synced`) and leaves the
  other as an earlier reconcile left it.

  * **`conditions_truthful_iff`** — along any sequence of reconciles of a new object, the conditions
    tell the truth after each completed status update EXACTLY when no failure comes after a success.

  The answers of the cluster are in `Kube`, one for each reconcile.  An object that was read from a
  stale cache is one whose status update fails.  The three clock readings of a reconcile are one.
-/
import FalseFlag.Operator.Translate

namespace FalseFlag.Operator

open List JsonTree

/-! ## Errors -/

/-- The codes of Connect. -/
inductive Code where
  | canceled | unknown | invalidArgument | deadlineExceeded | notFound | alreadyExists
  | permissionDenied | resourceExhausted | failedPrecondition | aborted | outOfRange
  | unimplemented | internal | unavailable | dataLoss | unauthenticated
  deriving DecidableEq

/-- `Code.String`. -/
def Code.text : Code → String
  | .canceled => "canceled"
  | .unknown => "unknown"
  | .invalidArgument => "invalid_argument"
  | .deadlineExceeded => "deadline_exceeded"
  | .notFound => "not_found"
  | .alreadyExists => "already_exists"
  | .permissionDenied => "permission_denied"
  | .resourceExhausted => "resource_exhausted"
  | .failedPrecondition => "failed_precondition"
  | .aborted => "aborted"
  | .outOfRange => "out_of_range"
  | .unimplemented => "unimplemented"
  | .internal => "internal"
  | .unavailable => "unavailable"
  | .dataLoss => "data_loss"
  | .unauthenticated => "unauthenticated"

/-- Why a spec cannot be applied. -/
inductive SpecError where
  | predicate (err : PredicateError)
  | translate (err : TranslateError)
  | source (written : Doc)
  | defaultValue (text : String)
  | listPolicies (text : String)
  | policyNotFound (name ns : String)

def SpecError.text (env : Env) : SpecError → String
  | .predicate err => err.text env
  | .translate err => err.text env
  | .source written => env.jsonErrorText (.json written)
  | .defaultValue text => "unmarshal default: " ++ text
  | .listPolicies text => "list rolloutpolicies: " ++ text
  | .policyNotFound name ns =>
    "RolloutPolicy " ++ env.quote name ++ " not found in namespace " ++ env.quote ns

/-- The error of an API call; without a code it is not a `connect.Error`. -/
structure ApiError where
  code : Option Code
  message : String

/-- Why a `sync` fails: the spec is invalid (`connect.NewError(CodeInvalidArgument, err)`), or a
    call to the API failed. -/
inductive Failure where
  | invalid (err : SpecError)
  | api (err : ApiError)

/-- `errors.As(err, &ce)` and `ce.Code()`. -/
def Failure.code : Failure → Option Code
  | .invalid _ => some .invalidArgument
  | .api err => err.code

/-- `ce.Message()`. -/
def Failure.message (env : Env) : Failure → String
  | .invalid err => err.text env
  | .api err => err.message

/-- `err.Error()`. -/
def Failure.text (env : Env) (f : Failure) : String :=
  match f.code with
  | none => f.message env
  | some code => code.text ++ ": " ++ f.message env

/-! ## Conditions -/

/-- `metav1.ConditionStatus`. -/
inductive ConditionStatus where
  | conditionTrue | conditionFalse | conditionUnknown
  deriving DecidableEq

/-- `metav1.Condition`. -/
structure Condition where
  type : String
  status : ConditionStatus
  reason : String
  message : String
  lastTransitionTime : Int := 0
  deriving DecidableEq

def syncedTrue : Condition where
  type := "Synced"
  status := .conditionTrue
  reason := "UpstreamApplied"
  message := "operator applied the desired state to the upstream API"

def readyTrue : Condition where
  type := "Ready"
  status := .conditionTrue
  reason := "AsExpected"
  message := "resource matches the desired state"

def conditionFalse (type reason message : String) : Condition :=
  { type, status := .conditionFalse, reason, message }

/-- `setCondition` at time `now`: replace the condition of this type, or append it.  The transition
    time stays as long as the status does. -/
def setCondition (now : Int) (cond : Condition) : List Condition → List Condition
  | [] => [{ cond with lastTransitionTime := now }]
  | c :: cs =>
    if c.type = cond.type then
      { cond with
        lastTransitionTime := if c.status = cond.status then c.lastTransitionTime else now } :: cs
    else c :: setCondition now cond cs

/-- The status of the condition of a type. -/
def statusOf (type : String) (conds : List Condition) : Option ConditionStatus :=
  (conds.find? (·.type = type)).map Condition.status

/-- `setCondition` sets the condition of its type and no other. -/
theorem statusOf_setCondition (now : Int) (cond : Condition) (type : String) :
    ∀ conds : List Condition, statusOf type (setCondition now cond conds) =
      if cond.type = type then some cond.status else statusOf type conds
  | [] => by
    by_cases h : cond.type = type <;> simp [statusOf, setCondition, h]
  | c :: cs => by
    have ih := statusOf_setCondition now cond type cs
    unfold statusOf at ih ⊢
    rw [setCondition]
    by_cases hc : c.type = cond.type
    · rw [if_pos hc, find?_cons, find?_cons, hc]
      by_cases h : cond.type = type <;> simp [h]
    · rw [if_neg hc, find?_cons, find?_cons]
      by_cases h : c.type = type
      · have hne : ¬ cond.type = type := fun h' => hc (h.trans h'.symm)
        simp [h, hne]
      · simp only [h, decide_false]
        exact ih

/-! ## translateError -/

/-- `ctrl.Result`, in nanoseconds. -/
structure Result where
  requeueAfter : Nat := 0
  deriving DecidableEq

def requeueAfterSuccess : Nat := 30 * 10 ^ 9

def requeueAfterConflict : Nat := 10 ^ 9

/-- `translateError`: when to come back, the condition to set, and what to report. -/
def translateError (env : Env) : Option Failure → Result × Condition × Option Failure
  | none => ({ requeueAfter := requeueAfterSuccess }, syncedTrue, none)
  | some f =>
    match f.code with
    -- what is there counts as applied, whatever it is
    | some .alreadyExists => ({ requeueAfter := requeueAfterSuccess }, syncedTrue, none)
    | some .failedPrecondition | some .aborted =>
      ({ requeueAfter := requeueAfterConflict },
        FalseFlag.Operator.conditionFalse "Synced" "Conflict" (f.message env), none)
    | some .invalidArgument =>
      ({}, FalseFlag.Operator.conditionFalse "Ready" "InvalidSpec" (f.message env), none)
    | some .notFound =>
      ({ requeueAfter := requeueAfterConflict },
        FalseFlag.Operator.conditionFalse "Synced" "UpstreamMissing" (f.message env), none)
    -- the only case that is reported: controller-runtime backs off
    | _ => ({}, FalseFlag.Operator.conditionFalse "Synced" "Error" (f.text env), some f)

/-- The sync was treated as successful: `syncCond.Status == ConditionTrue`. -/
def treatedAsSuccess (env : Env) (err : Option Failure) : Bool :=
  decide ((translateError env err).2.1.status = .conditionTrue)

/-- **The condition of an outcome**: `Synced` is true, or one of the two is false. -/
theorem translateError_condition (env : Env) (err : Option Failure) :
    ((translateError env err).2.1 = syncedTrue ∧ treatedAsSuccess env err = true) ∨
      ((translateError env err).2.1.status = .conditionFalse ∧ treatedAsSuccess env err = false ∧
        ((translateError env err).2.1.type = "Synced" ∨ (translateError env err).2.1.type = "Ready")) := by
  rcases err with _ | f
  · exact .inl ⟨rfl, rfl⟩
  · rw [treatedAsSuccess, translateError]
    rcases f.code with _ | code
    · exact .inr ⟨rfl, rfl, .inl rfl⟩
    · cases code <;> first
        | exact .inl ⟨rfl, rfl⟩
        | exact .inr ⟨rfl, rfl, .inl rfl⟩
        | exact .inr ⟨rfl, rfl, .inr rfl⟩

/-- Success means no error, or `AlreadyExists`. -/
theorem treatedAsSuccess_iff {env : Env} {err : Option Failure} :
    treatedAsSuccess env err = true ↔ ∀ f, err = some f → f.code = some .alreadyExists := by
  rcases err with _ | f
  · exact ⟨fun _ => nofun, fun _ => rfl⟩
  · rw [treatedAsSuccess, translateError]
    have hforall : (∀ g, some f = some g → g.code = some .alreadyExists) ↔
        f.code = some .alreadyExists := by simp
    rw [hforall]
    rcases f.code with _ | code
    · exact ⟨nofun, nofun⟩
    · cases code <;> first
        | exact ⟨fun _ => rfl, fun _ => rfl⟩
        | exact ⟨nofun, nofun⟩

/-! ## Reconcile -/

/-- What is used of `metav1.ObjectMeta`. -/
structure ObjectMeta where
  ns : String
  generation : Int64
  deletionTimestamp : Option Int
  finalizers : List String

/-- `FlagStatus`; `SegmentStatus` has no `lastPublishedVersion` (it stays 0). -/
structure Status where
  conditions : List Condition := []
  observedGeneration : Int64 := 0
  lastSyncTime : Option Int := none
  lastPublishedVersion : Int32 := 0

/-- A custom resource. -/
structure Object (Spec : Type) where
  metadata : ObjectMeta
  spec : Spec
  status : Status

/-- How the cluster answers `Get`. -/
inductive GetReply where
  | found
  | notFound
  | failed (text : String)
  deriving DecidableEq

/-- What the cluster answers during one reconcile; `none` where an update succeeds. -/
structure Kube where
  get : GetReply := .found
  update : Option String := none
  policies : Except String (List RolloutPolicy) := .ok []
  statusUpdate : Option String := none
  now : Int := 0

/-- What `sync` returns. -/
structure SyncReply where
  version : Int32 := 0
  err : Option Failure := none

/-- The error of a reconcile. -/
inductive ReconcileError where
  | kube (text : String)
  | upstream (f : Failure)

/-- What a reconcile leaves behind and returns. -/
structure Reconciled (Spec σ : Type) where
  object : Object Spec
  upstream : σ
  result : Result := {}
  err : Option ReconcileError := none

/-- What tells one reconciler from another: its finalizer, and what one write and one read make of
    its spec. -/
structure Controller (Spec : Type) where
  finalizer : String
  reread : Spec → Spec

/-- `FlagReconciler`. -/
def flagReconciler : Controller FlagSpec where
  finalizer := "flag.falseflag.dev/finalizer"
  reread := FlagSpec.reread

/-- `SegmentReconciler`; the tags of its spec keep everything. -/
def segmentReconciler : Controller SegmentSpec where
  finalizer := "segment.falseflag.dev/finalizer"
  reread := id

section Reconcile

variable {Spec σ : Type} (c : Controller Spec) (env : Env)
  (sync : Kube → Object Spec → σ → SyncReply × σ)

/-- The status that the outcome of a sync leads to. -/
def applied (env : Env) (now : Int) (generation : Int64) (status : Status) (reply : SyncReply) :
    Status :=
  let syncCond := (translateError env reply.err).2.1
  let conditions := setCondition now syncCond status.conditions
  if syncCond.status = .conditionTrue then
    { conditions := setCondition now readyTrue conditions
      observedGeneration := generation
      lastSyncTime := some now
      lastPublishedVersion :=
        if 0 < reply.version then reply.version else status.lastPublishedVersion }
  else { status with conditions }

/-- `r.Client.Update` of an object: it is written and read back. -/
def Controller.updated (obj : Object Spec) (finalizers : List String) : Object Spec :=
  { obj with metadata := { obj.metadata with finalizers }, spec := c.reread obj.spec }

/-- `Reconcile`. -/
def Controller.reconcile (k : Kube) (obj : Object Spec) (s : σ) : Reconciled Spec σ :=
  match k.get with
  | .notFound => { object := obj, upstream := s }
  | .failed text => { object := obj, upstream := s, err := some (.kube text) }
  | .found =>
    if obj.metadata.deletionTimestamp.isSome then
      if c.finalizer ∈ obj.metadata.finalizers then
        match k.update with
        | some text => { object := obj, upstream := s, err := some (.kube text) }
        | none =>
          -- there is no delete upstream: the finalizer goes, and that is all
          { object := c.updated obj (obj.metadata.finalizers.filter (· ≠ c.finalizer)), upstream := s }
      else { object := obj, upstream := s }
    else if c.finalizer ∉ obj.metadata.finalizers then
      match k.update with
      | some text => { object := obj, upstream := s, err := some (.kube text) }
      | none =>
        -- nothing is synced yet: the next reconcile starts from the object as it was written
        { object := c.updated obj (obj.metadata.finalizers ++ [c.finalizer]), upstream := s
          result := { requeueAfter := 1 } }
    else
      let (reply, s') := sync k obj s
      let (result, _, retErr) := translateError env reply.err
      match k.statusUpdate with
      | none =>
        { object := { obj with status := applied env k.now obj.metadata.generation obj.status reply }
          upstream := s', result, err := retErr.map .upstream }
      | some text =>
        -- the upstream calls were made, the status is the old one
        { object := obj, upstream := s', result
          err := some (match retErr with
            | some f => .upstream f
            | none => .kube text) }

/-- The reconcile gets as far as `sync`. -/
def Controller.Syncs (k : Kube) (metadata : ObjectMeta) : Prop :=
  k.get = .found ∧ metadata.deletionTimestamp = none ∧ c.finalizer ∈ metadata.finalizers

instance (k : Kube) (metadata : ObjectMeta) : Decidable (c.Syncs k metadata) :=
  inferInstanceAs (Decidable (_ ∧ _ ∧ _))

variable {c env sync}

/-- A reconcile that gets as far as `sync`. -/
theorem Controller.reconcile_syncs {k : Kube} {obj : Object Spec} {s : σ}
    (h : c.Syncs k obj.metadata) :
    (c.reconcile env sync k obj s).upstream = (sync k obj s).2 ∧
      (c.reconcile env sync k obj s).object =
        if k.statusUpdate = none then
          { obj with
            status := applied env k.now obj.metadata.generation obj.status (sync k obj s).1 }
        else obj := by
  obtain ⟨hget, hdeletion, hfinalizer⟩ := h
  rw [reconcile, hget]
  simp only [hdeletion, Option.isSome_none, Bool.false_eq_true, if_false, not_not.mpr hfinalizer]
  rcases k.statusUpdate with _ | text
  · exact ⟨rfl, rfl⟩
  · exact ⟨rfl, rfl⟩

/-- Any other leaves the status and the API alone. -/
theorem Controller.reconcile_other {k : Kube} {obj : Object Spec} {s : σ}
    (h : ¬ c.Syncs k obj.metadata) :
    (c.reconcile env sync k obj s).upstream = s ∧
      (c.reconcile env sync k obj s).object.status = obj.status := by
  unfold reconcile
  split
  · exact ⟨rfl, rfl⟩
  · exact ⟨rfl, rfl⟩
  · rename_i hget
    split
    · split
      · rcases k.update with _ | text <;> exact ⟨rfl, rfl⟩
      · exact ⟨rfl, rfl⟩
    · rename_i hdeletion
      split
      · rcases k.update with _ | text <;> exact ⟨rfl, rfl⟩
      · rename_i hfinalizer
        rw [Option.not_isSome_iff_eq_none] at hdeletion
        exact absurd ⟨hget, hdeletion, not_not.mp hfinalizer⟩ h

end Reconcile

/-! ## The two conditions -/

section Conditions

variable {env : Env} {now : Int} {generation : Int64} {status : Status} {reply : SyncReply}

/-- A condition is true. -/
def Status.IsTrue (s : Status) (type : String) : Prop :=
  statusOf type s.conditions = some .conditionTrue

/-- A success makes both conditions true. -/
theorem applied_success (h : treatedAsSuccess env reply.err = true) :
    (applied env now generation status reply).IsTrue "Synced" ∧
      (applied env now generation status reply).IsTrue "Ready" := by
  have hcond : (translateError env reply.err).2.1 = syncedTrue := by
    rcases translateError_condition env reply.err with ⟨hcond, -⟩ | ⟨-, hno, -⟩
    · exact hcond
    · rw [h] at hno
      nomatch hno
  unfold applied Status.IsTrue
  simp only [hcond, syncedTrue, if_true, statusOf_setCondition]
  exact ⟨by simp [readyTrue], by simp [readyTrue]⟩

/-- A failure makes one of them false and leaves the other as it was. -/
theorem applied_failure (h : treatedAsSuccess env reply.err = false) :
    (¬ (applied env now generation status reply).IsTrue "Synced" ∧
      ((applied env now generation status reply).IsTrue "Ready" ↔ status.IsTrue "Ready")) ∨
    (¬ (applied env now generation status reply).IsTrue "Ready" ∧
      ((applied env now generation status reply).IsTrue "Synced" ↔ status.IsTrue "Synced")) := by
  rcases translateError_condition env reply.err with ⟨-, hyes⟩ | ⟨hfalse, -, htype⟩
  · rw [h] at hyes
    nomatch hyes
  · unfold applied Status.IsTrue
    simp only [hfalse, reduceCtorEq, if_false, statusOf_setCondition]
    rcases htype with htype | htype
    · left
      simp [htype]
    · right
      simp [htype]

end Conditions

/-! ## Sequences of reconciles -/

/-- One reconcile: the object as its users left it, and what the cluster answers. -/
structure Pass (Spec : Type) where
  metadata : ObjectMeta
  spec : Spec
  kube : Kube

/-- A completed status update: was the sync treated as successful, and what is the status now. -/
structure Round where
  treated : Bool
  status : Status

/-- The conditions tell how the sync went. -/
def Round.Truthful (r : Round) : Prop :=
  (r.status.IsTrue "Synced" ↔ r.treated = true) ∧ (r.status.IsTrue "Ready" → r.treated = true)

section Rounds

variable {Spec σ : Type} (c : Controller Spec) (env : Env)
  (sync : Kube → Object Spec → σ → SyncReply × σ)

/-- The object that a reconcile reads. -/
def Pass.object (p : Pass Spec) (status : Status) : Object Spec := ⟨p.metadata, p.spec, status⟩

/-- The completed status updates of a sequence of reconciles.  Between two of them metadata and
    spec may change in any way, and the API too (through `s`). -/
def Controller.rounds : List (Pass Spec) → Status → σ → List Round
  | [], _, _ => []
  | p :: ps, status, s =>
    let after := c.reconcile env sync p.kube (p.object status) s
    let rest := rounds ps after.object.status after.upstream
    if c.Syncs p.kube p.metadata ∧ p.kube.statusUpdate = none then
      { treated := treatedAsSuccess env (sync p.kube (p.object status) s).1.err
        status := after.object.status } :: rest
    else rest

variable {c env sync}

/-- One reconcile: the first round is its own if the update completed, and the status is what it
    was otherwise. -/
theorem Controller.rounds_cons (p : Pass Spec) (ps : List (Pass Spec)) (status : Status) (s : σ) :
    (∃ s', c.rounds env sync (p :: ps) status s = c.rounds env sync ps status s') ∨
      ∃ reply s', c.rounds env sync (p :: ps) status s =
        ⟨treatedAsSuccess env reply.err,
          applied env p.kube.now p.metadata.generation status reply⟩ ::
        c.rounds env sync ps (applied env p.kube.now p.metadata.generation status reply) s' := by
  rw [rounds]
  by_cases hsyncs : c.Syncs p.kube p.metadata
  · obtain ⟨hup, hobj⟩ := @reconcile_syncs Spec σ c env sync p.kube (p.object status) s hsyncs
    by_cases hupdate : p.kube.statusUpdate = none
    · right
      simp only [hsyncs, hupdate, and_self, if_true, hup, hobj]
      exact ⟨_, _, rfl⟩
    · left
      simp only [hsyncs, hupdate, and_false, if_false, hup, hobj]
      exact ⟨_, rfl⟩
  · obtain ⟨hup, hstatus⟩ := @reconcile_other Spec σ c env sync p.kube (p.object status) s hsyncs
    left
    simp only [hsyncs, false_and, if_false, hup, hstatus]
    exact ⟨_, rfl⟩

/-- After a success: the conditions stay true to the facts exactly as long as there are only
    successes. -/
theorem Controller.truthful_after_success : ∀ {ps : List (Pass Spec)} {status : Status} {s : σ},
    status.IsTrue "Synced" → status.IsTrue "Ready" →
      ((∀ r ∈ c.rounds env sync ps status s, r.Truthful) ↔
        ∀ r ∈ c.rounds env sync ps status s, r.treated = true)
  | [], _, _, _, _ => ⟨fun _ => nofun, fun _ => nofun⟩
  | p :: ps, status, s, hsynced, hready => by
    rcases @rounds_cons Spec σ c env sync p ps status s with ⟨s', h⟩ | ⟨reply, s', h⟩
    · rw [h]
      exact truthful_after_success hsynced hready
    · rw [h, forall_mem_cons, forall_mem_cons]
      rcases ht : treatedAsSuccess env reply.err with _ | _
      · -- one of the two conditions is stale
        refine ⟨fun ⟨htruth, _⟩ => ?_, fun ⟨hno, _⟩ => nomatch hno⟩
        rcases applied_failure ht with ⟨-, hkeep⟩ | ⟨-, hkeep⟩
        · exact absurd (htruth.2 (hkeep.mpr hready)) nofun
        · exact absurd (htruth.1.mp (hkeep.mpr hsynced)) nofun
      · obtain ⟨hsynced', hready'⟩ := applied_success ht
        rw [truthful_after_success hsynced' hready']
        exact and_congr_left fun _ => ⟨fun _ => rfl, fun _ => ⟨⟨fun _ => rfl, fun _ => hsynced'⟩,
          fun _ => rfl⟩⟩

/-- As long as nothing has succeeded: failures are told, and a success must be the last of them. -/
theorem Controller.truthful_before_success : ∀ {ps : List (Pass Spec)} {status : Status} {s : σ},
    ¬ status.IsTrue "Synced" → ¬ status.IsTrue "Ready" →
      ((∀ r ∈ c.rounds env sync ps status s, r.Truthful) ↔
        (c.rounds env sync ps status s).Pairwise fun earlier later =>
          earlier.treated = true → later.treated = true)
  | [], _, _, _, _ => ⟨fun _ => .nil, fun _ => nofun⟩
  | p :: ps, status, s, hsynced, hready => by
    rcases @rounds_cons Spec σ c env sync p ps status s with ⟨s', h⟩ | ⟨reply, s', h⟩
    · rw [h]
      exact truthful_before_success hsynced hready
    · rw [h, forall_mem_cons, pairwise_cons]
      rcases ht : treatedAsSuccess env reply.err with _ | _
      · -- whichever condition was set, neither is true
        have hno : ¬ (applied env p.kube.now p.metadata.generation status reply).IsTrue "Synced" ∧
            ¬ (applied env p.kube.now p.metadata.generation status reply).IsTrue "Ready" := by
          rcases applied_failure ht with ⟨hno, hkeep⟩ | ⟨hno, hkeep⟩
          · exact ⟨hno, fun hyes => hready (hkeep.mp hyes)⟩
          · exact ⟨fun hyes => hsynced (hkeep.mp hyes), hno⟩
        rw [truthful_before_success hno.1 hno.2]
        refine and_congr_left fun _ => ⟨fun _ _ _ => nofun, fun _ => ?_⟩
        exact ⟨⟨fun hyes => absurd hyes hno.1, nofun⟩, fun hyes => absurd hyes hno.2⟩
      · obtain ⟨hsynced', hready'⟩ := applied_success ht
        rw [truthful_after_success hsynced' hready']
        constructor
        · rintro ⟨-, hall⟩
          refine ⟨fun r hr _ => hall r hr, ?_⟩
          exact pairwise_of_forall_mem_list fun _ _ r hr _ => hall r hr
        · rintro ⟨hall, -⟩
          exact ⟨⟨⟨fun _ => rfl, fun _ => hsynced'⟩, fun _ => rfl⟩, fun r hr => hall r hr rfl⟩

end Rounds

/-- **When the conditions tell the truth.**  For either reconciler, any `sync` and any sequence of
    reconciles of an object without status: after each completed status update `Synced` is true
    iff the sync was treated as successful and `Ready` only if it was, EXACTLY when no failure
    follows a success. -/
theorem conditions_truthful_iff {Spec σ : Type} (c : Controller Spec) (env : Env)
    (sync : Kube → Object Spec → σ → SyncReply × σ) (ps : List (Pass Spec)) (s : σ) :
    (∀ r ∈ c.rounds env sync ps {} s, r.Truthful) ↔
      (c.rounds env sync ps {} s).Pairwise fun earlier later =>
        earlier.treated = true → later.treated = true :=
  Controller.truthful_before_success nofun nofun

/-! ### A stale condition -/

/-- A `sync` that answers one reply after the other. -/
def replay {Spec : Type} (_ : Kube) (_ : Object Spec) : List SyncReply → SyncReply × List SyncReply
  | [] => ({}, [])
  | reply :: replies => (reply, replies)

/-- A reconcile of a segment that has its finalizer. -/
def segmentPass : Pass SegmentSpec where
  metadata := { ns := "default", generation := 1, deletionTimestamp := none
                finalizers := ["segment.falseflag.dev/finalizer"] }
  spec := { projectSlug := "demo", key := "beta", name := "Beta", description := ""
            predicate := { raw := some (.obj [("kind", .str "always")]) } }
  kube := {}

/-- After a success, a conflict leaves `Ready` true, and an invalid spec leaves `Synced` true. -/
theorem stale_conditions :
    (∃ ok bad, segmentReconciler.rounds .plain replay [segmentPass, segmentPass] {}
        [{}, { err := some (.api ⟨some .aborted, "version mismatch"⟩) }] = [ok, bad] ∧
      ok.treated = true ∧ bad.treated = false ∧ bad.status.IsTrue "Ready" ∧ ¬ bad.Truthful) ∧
    ∃ ok bad, segmentReconciler.rounds .plain replay [segmentPass, segmentPass] {}
        [{}, { err := some (.invalid (.predicate .empty)) }] = [ok, bad] ∧
      ok.treated = true ∧ bad.treated = false ∧ bad.status.IsTrue "Synced" ∧ ¬ bad.Truthful := by
  constructor
  · refine ⟨_, _, rfl, rfl, rfl, rfl, fun htruth => ?_⟩
    exact nomatch htruth.2 rfl
  · refine ⟨_, _, rfl, rfl, rfl, rfl, fun htruth => ?_⟩
    exact nomatch htruth.1.mp rfl

end FalseFlag.Operator
