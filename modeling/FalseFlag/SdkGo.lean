/-
  The Go SDK (internal/sdkgo/sdkgo.go) and what the API sends it (`snapshotToAPI` and `rawToAny`
  of internal/server/handlers/convert.go).

  The SDK polls the latest snapshot, compiles every flag of it with the CEL strategy, DROPS the
  flags that do not compile, and evaluates locally.  Its package comment promises the decision of
  the API.  Between the stored IR and the SDK lie the bundle, the database, `rawToAny` (which reads
  the bundle into an `any`, so every number becomes a float64 and is printed again) and the wire.

  * **`sdk_agrees_iff`** — the SDK decides like the API exactly if every `percent` of the IR is
    still a Go `int` on arrival, or nothing but a `null` default is served.
-/
import FalseFlag.Snapshots

namespace FalseFlag

open List JsonTree Json Fallible Relators Runs Versioned Binary JNum

/-! ## The response of the API -/

/-- `rawToAny`, as it is written into the response: a document that cannot be read is sent as a
    string. -/
def rawToAny (env : Env) (raw : Doc) : Doc :=
  match unmarshalAny raw with
  | .ok v => marshalAny v
  | .error _ => .str (env.docText raw)

/-- The body of `GetLatestSnapshot` for a snapshot (`snapshotToAPI`); `id`, `project_id`,
    `environment_id` and `created_at` are left out. -/
def snapshotToAPI {env : Env} (snap : Snapshot env) : Doc :=
  .obj [("compiled", rawToAny env snap.compiled),
        ("version", .num (.int (Int32.ofNat snap.version).toInt))]

/-! ## Reading the response -/

/-- Into a `map[string]json.RawMessage`. -/
def decodeRawMap (cur : List (String × Doc)) : Doc → Except JsonError (List (String × Doc))
  | .null => .ok []
  | .obj ms => .ok (setMembers cur ms)
  | _ => .error .cannotUnmarshal

/-- The struct `Compiled` of the body: its one field is `Flags`. -/
def compiledRecord : Record (List (String × Doc)) Unit Doc JsonError where
  Content _ := List (String × Doc)
  get _ flags := flags
  ext h := h ()
  field := findField [("flags", ())]
  name _ := "flags"
  field_name _ := rfl
  set _ := decodeRawMap
  set_other _ hg := absurd rfl hg

def decodeCompiled (cur : List (String × Doc)) : Doc → Except JsonError (List (String × Doc))
  | .null => .ok cur
  | .obj ms => compiledRecord.decode cur ms
  | _ => .error .cannotUnmarshal

/-- What `pollOnce` reads of a response.  Left out are `id` and `created_at`: responses are those in
    which they are missing, or a string and a time, as the API writes them. -/
@[ext] structure SnapshotBody where
  version : Int64 := 0
  flags : List (String × Doc) := []

inductive BodyField where
  | version | compiled
  deriving DecidableEq

def BodyField.name : BodyField → String
  | .version => "version"
  | .compiled => "compiled"

def BodyField.Content : BodyField → Type
  | .version => Int64
  | .compiled => List (String × Doc)

def SnapshotBody.get : (f : BodyField) → SnapshotBody → f.Content
  | .version, b => b.version
  | .compiled, b => b.flags

/-- Store one member of the body. -/
def SnapshotBody.set : BodyField → SnapshotBody → Doc → Except JsonError SnapshotBody
  | .version, b, d => (decodeInt b.version d).map fun version => { b with version }
  | .compiled, b, d => (decodeCompiled b.flags d).map fun flags => { b with flags }

def bodyRecord : Record SnapshotBody BodyField Doc JsonError where
  Content := BodyField.Content
  get := SnapshotBody.get
  ext h := SnapshotBody.ext (h .version) (h .compiled)
  field := findField [("version", .version), ("compiled", .compiled)]
  name := BodyField.name
  field_name := by intro f; cases f <;> rfl
  set := SnapshotBody.set
  set_other := by
    intro f g a b d h hg
    cases f <;> obtain ⟨_, _, rfl⟩ := map_eq_ok.mp h <;> cases g <;>
      first | rfl | exact absurd rfl hg

/-- `json.NewDecoder(resp.Body).Decode(&body)`. -/
def decodeBody : Doc → Except JsonError SnapshotBody
  | .null => .ok {}
  | .obj ms => bodyRecord.decode {} ms
  | _ => .error .cannotUnmarshal

/-! ## The client -/

/-- What the client has cached. -/
structure SdkSnapshot where
  version : Int64
  flags : List (String × Compiled)

/-- The loop of `pollOnce`: flags that do not compile are left out. -/
def compileFlags (env : Env) (flags : List (String × Doc)) : List (String × Compiled) :=
  flags.filterMap fun f =>
    match compile env (.known .cel) (.json f.2) with
    | .ok compiled => some (f.1, compiled)
    | .error _ => none

/-- `pollOnce` on a response: `none` is a 404, which keeps what is cached. -/
def pollOnce (env : Env) (cached : Option SdkSnapshot) :
    Option Doc → Except String (Option SdkSnapshot)
  | none => .ok cached
  | some body =>
    match decodeBody body with
    | .error _ => .error ("sdkgo: decoding snapshot: " ++ env.jsonErrorText (.json body))
    | .ok b => .ok (some ⟨b.version, compileFlags env b.flags⟩)

/-- `Client.Evaluate`. -/
def clientEvaluate (env : Env) (cached : Option SdkSnapshot) (key : String) (ctx : Context) :
    Decision :=
  match cached with
  | none => { value := .null, reason := .error, ruleId := "", version := 0 }
  | some snap =>
    match snap.flags.lookup key with
    | none => { value := .null, reason := .default, ruleId := "", version := snap.version.toInt }
    | some compiled =>
      match evaluate env compiled ctx snap.version.toInt with
      | .error _ => { value := .null, reason := .error, ruleId := "", version := snap.version.toInt }
      | .ok d => d

/-! ## What becomes of a number -/

/-- A number that was read as a float64, printed, and passed on. -/
def Resent (n m : JNum) : Prop := SameNumber (formatFloat n.float64) m

theorem formatFloat_percent : ∀ i : Fin 101,
    formatFloat (int (i : ℕ)).float64 = .int (i : ℕ) := by decide +kernel

theorem keeps_resent : Keeps Resent where
  float64 h := by
    rw [float64, h.1]
    exact float64_formatFloat _
  percent := by
    intro i m h hlo hhi
    obtain ⟨k, rfl⟩ := Int.eq_ofNat_of_zero_le hlo
    exact h.2 k (formatFloat_percent ⟨k, by omega⟩)
  zero := by
    have hzero : formatFloat (int 0).float64 = .int 0 := formatFloat_percent 0
    rw [Resent, hzero]
    exact ⟨rfl, fun _ h => h⟩

/-- From the bundle through the database, `rawToAny` and the wire. -/
theorem carries_resent {d stored body : Doc} (hdb : Carries SameNumber d stored)
    (hwire : Carries SameNumber (marshalAny (Doc.value stored)) body) : Carries Resent d body := by
  have hread := carries_norm float64 stored
  have hprint := carries_mapNum formatFloat (noDup_norm float64 stored)
  refine (((hdb.trans d hread).trans d hprint).trans d hwire).mono ?_ d
  rintro n m ⟨_, ⟨_, ⟨a, hna, rfl⟩, rfl⟩, hm⟩
  rw [Resent, float64, ← hna.1]
  exact hm

/-- A Go `int` that is still one after it was sent as a float64. -/
def SurvivesFloat (i : Int64) : Prop :=
  ∃ j : Int64, formatFloat (int i.toInt).float64 = .int j.toInt

/-- A 64-bit integer is printed without an exponent. -/
theorem formatFloat_int64 {i : Int64} {k : ℤ}
    (h : (formatFloat (int i.toInt).float64).val = k) :
    formatFloat (int i.toInt).float64 = .int k := by
  have hi : |((i.toInt : ℤ) : ℚ)| < 2 ^ (64 : ℤ) := by
    have hlo := Int64.le_toInt i
    have hhi := Int64.toInt_lt i
    rw [abs_lt]
    norm_num at hlo hhi ⊢
    constructor
    · exact_mod_cast (by omega : (-18446744073709551616 : ℤ) < i.toInt)
    · exact_mod_cast (by omega : i.toInt < (18446744073709551616 : ℤ))
  have hround : |(int i.toInt).float64| < 10 ^ 21 :=
    lt_of_le_of_lt (binary64.abs_round_le hi (by decide)) (by norm_num)
  rw [formatFloat_val] at h
  have hden : (binary64.shortest 17 (int i.toInt).float64).den = 1 := by
    rw [h]
    exact Rat.den_intCast k
  unfold formatFloat
  simp only
  rw [if_pos ⟨hden, hround⟩, h, Rat.num_intCast]

theorem fits_of_survivesFloat {i : Int64} (h : SurvivesFloat i) : Fits (Carries Resent) i := by
  obtain ⟨j, hj⟩ := h
  intro d hd
  cases hd with
  | num hd => exact ⟨j, by rw [hd.2 _ hj]⟩

theorem survivesFloat_of_resent {i j : Int64}
    (h : Carries (S := String) Resent (.num (.int i.toInt)) (.num (.int j.toInt))) :
    SurvivesFloat i := by
  cases h with
  | num h => exact ⟨j, formatFloat_int64 h.1.symm⟩

/-- Every `percent` of the tree survives. -/
def RulesTree.PercentsSurvive (t : RulesTree) : Prop :=
  ∀ r ∈ t.ruleList, ∀ p, r.when = some p → ∀ q : Predicate, q.Sub p → SurvivesFloat q.percent

/-! ## The document the SDK compiles -/

section Poll

variable {env : Env} {db : Medium}

theorem increasing_addFlags : ∀ {rows : List FlagVersion} {acc flags : List (String × RulesTree)},
    Increasing acc → addFlags env acc rows = .ok flags → Increasing flags
  | [], _, _, hacc, h => by
    injection h with h
    exact h ▸ hacc
  | lv :: rows, _, _, hacc, h => by
    rw [addFlags] at h
    split at h
    · cases h
    · exact increasing_addFlags (increasing_insertMember hacc) h

theorem Bundle.increasing (b : Bundle env) : Increasing b.flags :=
  increasing_addFlags increasing_nil b.decoded

theorem lookup_encode {flags : List (String × RulesTree)} (key : String) :
    (flags.map fun f => (f.1, encodeTree f.2)).lookup key = (flags.lookup key).map encodeTree := by
  induction flags with
  | nil => rfl
  | cons f flags ih =>
    rw [map_cons, lookup_cons, lookup_cons]
    by_cases hk : (key == f.1) = true
    · rw [hk]
      rfl
    · rw [Bool.eq_false_iff.mpr hk]
      exact ih

/-- The flags of the bundle, as they arrive. -/
theorem decodeCompiled_bundle {b : Bundle env} {d : Doc} (h : Carries Resent b.encode d) :
    ∃ flags, decodeCompiled [] d = .ok flags ∧ Increasing flags ∧
      ∀ key, Option.Rel (Carries Resent) ((b.flags.lookup key).map encodeTree) (flags.lookup key) := by
  have hT := keeps_resent.transport
  rw [Bundle.encode] at h
  obtain ⟨xs, rfl, hxs, hrel⟩ := hT.obj (by simp) h
  obtain ⟨fd, hfd, hfdR⟩ := rel_some (hrel "flags")
  have hnames : ((b.flags.map fun f => (f.1, encodeTree f.2)).map Prod.fst).Nodup := by
    rw [map_map]
    exact b.increasing.nodup
  obtain ⟨fs, rfl, hfs, hflags⟩ := hT.obj hnames hfdR
  have hinc : Increasing (setMembers [] fs) := increasing_setMembers increasing_nil
  refine ⟨setMembers [] fs, ?_, hinc, fun key => ?_⟩
  · show compiledRecord.decode [] xs = _
    refine @Record.decode_members _ _ _ _ compiledRecord _ (fun _ => some (.obj _)) [()] _ _ _ hxs hrel
      fun _ => Record.Reads.intro _ (.inr ⟨_, hfd, fun s hs => ⟨setMembers [] fs, ?_, rfl⟩⟩)
    rw [show s = [] from hs]
    rfl
  · rw [lookup_setMembers, lookup_reverse_of_nodup hfs, lookup_nil, Option.or_none,
      ← lookup_encode]
    exact hflags key

/-- The members that `snapshotToAPI` writes. -/
def bodyMembers (version compiled : Doc) : BodyField → Option Doc
  | .version => some version
  | .compiled => some compiled

/-- **What a successful poll has read**: under every key the document that the IR of the bundle
    became on its way. -/
theorem decodeBody_flags {snap : Snapshot env}
    (hstored : Carries SameNumber snap.bundle.encode snap.compiled) {body : Doc}
    (hbody : Carries SameNumber (snapshotToAPI snap) body) {b : SnapshotBody}
    (hb : decodeBody body = .ok b) :
    Increasing b.flags ∧ ∀ key, Option.Rel (Carries Resent)
      ((snap.bundle.flags.lookup key).map encodeTree) (b.flags.lookup key) := by
  rw [snapshotToAPI] at hbody
  obtain ⟨ns, rfl, hns, hrel⟩ := keeps_sameNumber.transport.obj (by simp) hbody
  obtain ⟨cd, hcd, hcdR⟩ := rel_some (hrel "compiled")
  obtain ⟨vd, hvd, hvdR⟩ := rel_some (hrel "version")
  obtain ⟨s1, s2, hset⟩ :=
    bodyRecord.set_of_decode (bodyRecord.field_name .compiled) hb (mem_of_lookup hcd)
  by_cases hrange : inRange snap.compiled = true
  · have hraw : rawToAny env snap.compiled = marshalAny (Doc.value snap.compiled) := by
      rw [rawToAny, unmarshalAny, if_pos hrange]
    rw [hraw] at hcdR
    obtain ⟨flags, hflags, hinc, hlookup⟩ := decodeCompiled_bundle (carries_resent hstored hcdR)
    obtain ⟨version, hversion⟩ : ∃ version, ∀ cur, decodeInt cur vd = .ok version := by
      cases hvdR with
      | num h =>
        rw [h.2 _ rfl]
        exact ⟨_, fun cur => if_pos ⟨by have := Int32.le_toInt (Int32.ofNat snap.version); omega,
          by have := Int32.toInt_lt (Int32.ofNat snap.version); omega⟩⟩
    have hdecode : bodyRecord.decode {} ns = .ok ⟨version, flags⟩ := by
      refine @Record.decode_members _ _ _ _ bodyRecord _ (bodyMembers _ _)
        [.compiled, .version] _ _ _ hns hrel fun f => Record.Reads.intro _ (.inr ?_)
      cases f with
      | version =>
        refine ⟨vd, hvd, fun s _ => ⟨{ s with version }, ?_, rfl⟩⟩
        show (decodeInt s.version vd).map _ = _
        rw [hversion]
        rfl
      | compiled =>
        refine ⟨cd, hcd, fun s hs => ⟨{ s with flags }, ?_, rfl⟩⟩
        show (decodeCompiled s.flags cd).map _ = _
        rw [show s.flags = [] from hs, hflags]
        rfl
    obtain rfl : ⟨version, flags⟩ = b := Except.ok.inj (hdecode.symm.trans hb)
    exact ⟨hinc, hlookup⟩
  · -- a string does not decode into the struct
    have hraw : rawToAny env snap.compiled = .str (env.docText snap.compiled) := by
      rw [rawToAny, unmarshalAny, if_neg hrange]
    rw [hraw] at hcdR
    cases hcdR
    have hno : bodyRecord.set .compiled s1 (.str (env.docText snap.compiled)) =
        .error .cannotUnmarshal := rfl
    rw [hno] at hset
    cases hset

theorem lookup_compileFlags {flags : List (String × Doc)} (h : (flags.map Prod.fst).Nodup)
    (key : String) : (compileFlags env flags).lookup key =
      (flags.lookup key).bind fun raw => (compile env (.known .cel) (.json raw)).toOption := by
  induction flags with
  | nil => rfl
  | cons f flags ih =>
    obtain ⟨name, raw⟩ := f
    obtain ⟨hname, hflags⟩ := nodup_cons.mp h
    have ih := ih hflags
    rw [compileFlags, filterMap_cons]
    by_cases hk : key = name
    · subst hk
      rw [lookup_cons_self, Option.bind_some]
      rcases compile env (.known .cel) (.json raw) with e | c
      · -- dropped, and the key does not come again
        have hnone : flags.lookup key = none := by
          rw [lookup_eq_none_iff]
          intro m hm
          exact bne_iff_ne.mpr fun heq => hname (mem_map.mpr ⟨m, hm, heq.symm⟩)
        rw [hnone] at ih
        exact ih
      · exact lookup_cons_self
    · rw [lookup_cons, beq_eq_false_iff_ne.mpr hk]
      rcases compile env (.known .cel) (.json raw) with e | c
      · exact ih
      · simp only [lookup_cons, beq_eq_false_iff_ne.mpr hk]
        exact ih

/-- What the client has under the key of a flag after a poll. -/
theorem polled_flag {snap : Snapshot env}
    (hstored : Carries SameNumber snap.bundle.encode snap.compiled) {body : Doc}
    (hbody : Carries SameNumber (snapshotToAPI snap) body) {cached loaded : Option SdkSnapshot}
    (hpoll : pollOnce env cached (some body) = .ok loaded) {key : String} {t : RulesTree}
    (ht : snap.bundle.flags.lookup key = some t) :
    ∃ got raw, loaded = some got ∧ Carries Resent (encodeTree t) raw ∧
      got.flags.lookup key = (compile env (.known .cel) (.json raw)).toOption := by
  rw [pollOnce] at hpoll
  split at hpoll
  · nomatch hpoll
  · rename_i b hb
    injection hpoll with hpoll
    subst hpoll
    obtain ⟨hinc, hflags⟩ := decodeBody_flags hstored hbody hb
    have hkey := hflags key
    rw [ht] at hkey
    obtain ⟨raw, hraw, hcarries⟩ := rel_some hkey
    refine ⟨_, raw, rfl, hcarries, ?_⟩
    rw [lookup_compileFlags hinc.nodup, hraw]
    rfl

end Poll

/-! ## Decisions -/

/-- What a decision says, without the version. -/
def Decision.answer (d : Decision) : Value × Reason × String := (d.value, d.reason, d.ruleId)

/-- The client and the API say the same. -/
def Agrees (d : Decision) (response : Except RequestError Decision) : Prop :=
  ∃ d', response = .ok d' ∧ d'.answer = d.answer

/-- The default is `null`, and no rule matches or errs on the context. -/
def OnlyNull (env : Env) (c : Compiled) (ctx : Context) : Prop :=
  decodeValue env c.ir.default = .ok .null ∧
    ∀ r ∈ c.ir.ruleList, (matchPtr env c.celPrograms ctx r.when).toExcept = .ok false

section Decisions

variable {env : Env} {c : Compiled} {ctx : Context}

/-- The version is passed through. -/
theorem evaluateRules_version (defValue : Value) (n m : Int) : ∀ rs : List Rule,
    (evaluateRules env c ctx defValue n rs).answer = (evaluateRules env c ctx defValue m rs).answer
  | [] => rfl
  | r :: rs => by
    rw [evaluateRules, evaluateRules]
    rcases (matchPtr env c.celPrograms ctx r.when).toExcept with e | b
    · rfl
    · cases b with
      | false => exact evaluateRules_version defValue n m rs
      | true =>
        simp only [ruleDecision]
        cases servedValue env c.ir.valueType r <;> rfl

/-- The reason is `default` only if no rule matches or errs. -/
theorem evaluateRules_default_iff (defValue : Value) (version : Int) : ∀ rs : List Rule,
    (evaluateRules env c ctx defValue version rs).answer = (.null, .default, "") ↔
      defValue = .null ∧ ∀ r ∈ rs, (matchPtr env c.celPrograms ctx r.when).toExcept = .ok false
  | [] => by simp [evaluateRules, Decision.answer]
  | r :: rs => by
    rw [evaluateRules, forall_mem_cons]
    rcases (matchPtr env c.celPrograms ctx r.when).toExcept with e | b
    · simp [Decision.answer]
    · cases b with
      | false => simpa using evaluateRules_default_iff defValue version rs
      | true =>
        have hreason := (ruleDecision_reason env c.ir.valueType defValue version r).1
        simp [Decision.answer, hreason]

end Decisions

/-! ## Agreement -/

section Agreement

variable {env : Env} {db wire : Medium}

/-- If every `percent` survives, the SDK compiles the flag and decides like the flag it was. -/
theorem evaluate_resent {c : Compiled} (hc : WellCompiled env c)
    (hraws : c.ir.Raws (inRange · = true)) (hsurvive : c.ir.PercentsSurvive) {raw : Doc}
    (hraw : Carries Resent (encodeTree c.ir) raw) :
    ∃ c', compile env (.known .cel) (.json raw) = .ok c' ∧
      ∀ ctx n, evaluate env c' ctx n = evaluate env c ctx n := by
  have hfits : c.ir.Fits (Carries Resent) :=
    fun r hr p hp q hq => fits_of_survivesFloat (hsurvive r hr p hp q hq)
  obtain ⟨u, hu, hlike⟩ := decodeTree_carried keeps_resent hc hfits hraw
  obtain ⟨c', hc', rfl⟩ := finish_like keeps_resent hc hlike .cel
  have hcompile : compile env (.known .cel) (.json raw) = .ok c' :=
    celCompile_eq_ok.mpr ⟨_, hu, hc'⟩
  exact ⟨c', hcompile, fun ctx n =>
    evaluate_like keeps_resent hlike hc (wellCompiled_of_compile hcompile) hraws ctx n⟩

/-- A flag that the SDK compiles lost no `percent`. -/
theorem survive_of_compiled {t : RulesTree} {raw : Doc} (hraw : Carries Resent (encodeTree t) raw)
    {c' : Compiled} (h : compile env (.known .cel) (.json raw) = .ok c') : t.PercentsSurvive := by
  obtain ⟨u, hu, -⟩ := celCompile_eq_ok.mp h
  intro r hr p hp q hq
  obtain ⟨j, hj⟩ := survives_of_decodeTree keeps_resent.transport hraw hu hr hp q hq
  exact survivesFloat_of_resent hj

/-- What the API answers for a flag with latest version `v`. -/
theorem evaluateFlag_latest {s : Store} {v : FlagVersion} {flag : Flag}
    (hflag : s.getFlagByKey v.flagId = some flag) (hlatest : s.versions.latest v.flagId = some v)
    {c : Compiled} (hc : compile env (.known v.strategy) (.json v.compiled) = .ok c) (ctx : Context) :
    evaluateFlag env s v.flagId ctx = (evaluate env c ctx v.version).mapError .internal := by
  have hid : flag.id = v.flagId := (getFlagByKey_mem hflag).2
  rw [evaluateFlag, loadEvaluation, hflag]
  simp only
  rw [hid, hlatest]
  simp only
  rw [hc]

/-- **When the SDK decides like the API.**  Take any snapshot of any run, a version `v` that was
    the latest of its flag when the bundle was read, whose numbers are in range, and a client that
    polled the snapshot.  It answers what the API answers from `v` exactly if every `percent` of
    the IR survives being sent as a float64, or the answer is `null` by default anyway. -/
theorem sdk_agrees_iff (env : Env) (db wire : Medium) (steps : List Step) (snap : Snapshot env)
    (hsnap : snap ∈ (steps.foldl (System.next db) (.empty env)).snapshots.rows) (v : FlagVersion)
    (hv : v ∈ snap.bundle.rows) (hrange : inRange v.compiled = true) (s : Store) (flag : Flag)
    (hflag : s.getFlagByKey v.flagId = some flag) (hlatest : s.versions.latest v.flagId = some v)
    (cached loaded : Option SdkSnapshot)
    (hpoll : pollOnce env cached (some (wire.pass (snapshotToAPI snap))) = .ok loaded)
    (ctx : Context) :
    Agrees (clientEvaluate env loaded v.flagId.key ctx) (evaluateFlag env s v.flagId ctx) ↔
      ∀ c, compile env (.known v.strategy) (.json v.compiled) = .ok c →
        c.ir.PercentsSurvive ∨ OnlyNull env c ctx := by
  have hrec := (snapshots_recorded env db steps).last
  obtain ⟨hread, hstored⟩ := hrec.snapshots snap hsnap
  obtain ⟨t, ht, hlookup⟩ := hread.lookup hv
  -- the stored version is an IR, which the API compiles and the bundle holds
  have hrow : v ∈ (steps.foldl (System.next db) (.empty env)).store.versions.rows :=
    (mem_filter.mp (mem_of_mem_take ((hread.rows v).mp hv).1)).1
  obtain ⟨c0, hir⟩ := hrec.persisted v hrow
  obtain ⟨c, hc, hdec, -⟩ := hir.recompiles
  obtain rfl : t = c.ir := Except.ok.inj (ht.symm.trans hdec)
  have hraws : c.ir.Raws (inRange · = true) :=
    raws_of_transport keeps_sameNumber.transport (fits_sameNumber c0.ir) (hir.2 ▸ db.carries _) hrange
      hdec
  obtain ⟨defValue, hdefault, hevaluate⟩ := @evaluate_eq_ok env _ hraws
  obtain ⟨got, raw, rfl, hraw, hgot⟩ :=
    polled_flag (hstored ▸ db.carries _) (wire.carries _) hpoll hlookup
  have hapi : evaluateFlag env s v.flagId ctx =
      .ok (evaluateRules env c ctx defValue v.version c.ir.ruleList) := by
    rw [evaluateFlag_latest hflag hlatest hc, hevaluate]
    rfl
  have hcond : (∀ c', compile env (.known v.strategy) (.json v.compiled) = .ok c' →
      c'.ir.PercentsSurvive ∨ OnlyNull env c' ctx) ↔ c.ir.PercentsSurvive ∨ OnlyNull env c ctx :=
    ⟨fun h => h c hc, fun h c' hc' => (Except.ok.inj (hc.symm.trans hc')) ▸ h⟩
  rw [hcond, hapi, clientEvaluate, hgot]
  rcases hcel : compile env (.known .cel) (.json raw) with e | c'
  · -- the flag was dropped: the client answers null by default
    have hlost : ¬ c.ir.PercentsSurvive := by
      intro hsurvive
      obtain ⟨c', hc', -⟩ := evaluate_resent (wellCompiled_of_compile hc) hraws hsurvive hraw
      rw [hcel] at hc'
      nomatch hc'
    have hnull := @evaluateRules_default_iff env c ctx defValue v.version c.ir.ruleList
    rw [or_iff_right hlost, OnlyNull, hdefault]
    constructor
    · rintro ⟨d', hd', hanswer⟩
      injection hd' with hd'
      subst hd'
      obtain ⟨rfl, hrules⟩ := hnull.mp hanswer
      exact ⟨rfl, hrules⟩
    · rintro ⟨hdef, hrules⟩
      exact ⟨_, rfl, hnull.mpr ⟨Except.ok.inj hdef, hrules⟩⟩
  · have hsurvive := survive_of_compiled hraw hcel
    refine iff_of_true ⟨_, rfl, ?_⟩ (.inl hsurvive)
    obtain ⟨c'', hc'', heval⟩ := evaluate_resent (wellCompiled_of_compile hc) hraws hsurvive hraw
    obtain rfl : c' = c'' := Except.ok.inj (hcel.symm.trans hc'')
    simp only [Except.toOption, heval, hevaluate]
    exact evaluateRules_version defValue _ _ _

end Agreement

/-! ### Two flags -/

/-- A flag that is always on; `percent` means nothing for this kind and is not checked. -/
def alwaysOn (percent : Int64) : RulesTree where
  valueType := .known .boolean
  default := some (.bool false)
  rules := some [{ id := "r1", when := some { kind := .known .always, percent },
                   value := some (.bool true) }]

/-- Publish it as a TypeScript source that is an IR already, and compile a snapshot. -/
def alwaysRun (percent : Int64) : List Step :=
  [.api createBoolean,
   .api (.publish 1 { id := ⟨1, "f"⟩, strategy := "typescript", source := .connect none,
                      sourceText := .json (encodeTree (alwaysOn percent)) }),
   .compileBundle 1 none, .insertSnapshot 0]

/-- The system after the run. -/
def alwaysSystem (percent : Int64) : System .plain :=
  (alwaysRun percent).foldl (System.next .sorted) (.empty .plain)

theorem alwaysSystem_eq (percent : Int64) : alwaysSystem percent =
    (alwaysRun percent).foldl (System.next .sorted) (.empty .plain) := rfl

attribute [irreducible] alwaysSystem

/-- What a new client answers that polls the latest snapshot. -/
def polledAnswer (sys : System .plain) : Option Decision :=
  (sys.snapshots.latest 1).bind fun snap =>
    (pollOnce .plain none (some (Medium.sorted.pass (snapshotToAPI snap)))).toOption.map fun loaded =>
      clientEvaluate .plain loaded "f" []

/-- `2 ^ 63 - 1` arrives as `9223372036854776000`: the SDK drops the flag that the API serves. -/
theorem wide_percent_dropped :
    (evaluateFlag .plain (alwaysSystem (2 ^ 63 - 1)).store ⟨1, "f"⟩ []).toOption =
      some { value := .bool true, reason := .ruleMatched, ruleId := "r1", version := 1 } ∧
    polledAnswer (alwaysSystem (2 ^ 63 - 1)) =
      some { value := .null, reason := .default, ruleId := "", version := 1 } := by
  exact ⟨by decide +kernel, by decide +kernel⟩

/-- Every rule is a leaf with this `percent`. -/
def RulesTree.leavesWith (percent : Int64) (t : RulesTree) : Bool :=
  t.ruleList.all fun r => r.when.all fun p =>
    p.of.isEmpty && p.ofOne.isNone && decide (p.percent = percent)

theorem percentsSurvive_of_leavesWith {percent : Int64} (h : SurvivesFloat percent) {t : RulesTree}
    (ht : t.leavesWith percent = true) : t.PercentsSurvive := by
  intro r hr p hp q hq
  have hleaf := all_eq_true.mp ht r hr
  rw [hp] at hleaf
  simp only [Option.all_some, Bool.and_eq_true, List.isEmpty_iff, Option.isNone_iff_eq_none,
    decide_eq_true_eq] at hleaf
  obtain ⟨⟨hof, hone⟩, rfl⟩ := hleaf
  cases hq with
  | refl => exact h
  | of hc _ => exact absurd (hof ▸ hc) not_mem_nil
  | ofOne hc _ =>
    rw [hone] at hc
    nomatch hc

/-- A `percent` of 50 arrives, and the two agree. -/
theorem small_percent_agrees : ∃ snap ∈ (alwaysSystem 50).snapshots.rows, ∃ loaded,
    pollOnce .plain none (some (Medium.sorted.pass (snapshotToAPI snap))) = .ok loaded ∧
      Agrees (clientEvaluate .plain loaded "f" [])
        (evaluateFlag .plain (alwaysSystem 50).store ⟨1, "f"⟩ []) := by
  -- the snapshot, the version and the flag are found by evaluation
  obtain ⟨snap, hsnap⟩ : ∃ snap, (alwaysSystem 50).snapshots.latest 1 = some snap :=
    Option.isSome_iff_exists.mp (by decide +kernel)
  obtain ⟨v, hv⟩ : ∃ v, (alwaysSystem 50).store.versions.latest ⟨1, "f"⟩ = some v :=
    Option.isSome_iff_exists.mp (by decide +kernel)
  obtain ⟨flag, hflag⟩ : ∃ flag, (alwaysSystem 50).store.getFlagByKey ⟨1, "f"⟩ = some flag :=
    Option.isSome_iff_exists.mp (by decide +kernel)
  have hfacts : ((alwaysSystem 50).snapshots.latest 1).bind (fun snap =>
      ((alwaysSystem 50).store.versions.latest ⟨1, "f"⟩).map fun v =>
        decide (v ∈ snap.bundle.rows ∧ inRange v.compiled = true ∧ v.flagId = ⟨1, "f"⟩ ∧
          (decodeTree v.compiled).toOption.all (RulesTree.leavesWith 50) = true ∧
          (pollOnce .plain none (some (Medium.sorted.pass (snapshotToAPI snap)))).toOption.isSome =
            true)) = some true := by decide +kernel
  rw [hsnap, hv, Option.bind_some, Option.map_some, Option.some_inj, decide_eq_true_eq] at hfacts
  obtain ⟨hrow, hrange, hid, hleaves, hpolled⟩ := hfacts
  obtain ⟨loaded, hpoll⟩ : ∃ loaded,
      pollOnce .plain none (some (Medium.sorted.pass (snapshotToAPI snap))) = .ok loaded := by
    generalize pollOnce .plain none _ = r at hpolled ⊢
    cases r with
    | error _ => nomatch hpolled
    | ok loaded => exact ⟨loaded, rfl⟩
  have hmem : snap ∈ (alwaysSystem 50).snapshots.rows := (Log.latest_spec hsnap).1
  refine ⟨snap, hmem, loaded, hpoll, ?_⟩
  rw [← hid] at hv hflag
  have hsurvive : ∀ c, compile .plain (.known v.strategy) (.json v.compiled) = .ok c →
      c.ir.PercentsSurvive ∨ OnlyNull .plain c [] := by
    intro c hc
    rcases compile_ir_cases hc with hdec | ⟨-, _, hrun, -⟩
    · have hdec' : decodeTree v.compiled = .ok c.ir := hdec
      rw [hdec'] at hleaves
      have hfifty : SurvivesFloat 50 := ⟨50, by decide +kernel⟩
      exact .inl (percentsSurvive_of_leavesWith hfifty hleaves)
    · nomatch hrun
  have hrun := hmem
  rw [alwaysSystem_eq] at hrun
  have hagrees := (sdk_agrees_iff .plain .sorted .sorted (alwaysRun 50) snap hrun v hrow hrange
    (alwaysSystem 50).store flag hflag hv none loaded hpoll []).mpr hsurvive
  rwa [hid] at hagrees

end FalseFlag
