/-
  Reading one's own writes (internal/server/handlers/evaluate.go, snapshots.go and their copies in
  internal/server/rpc).

  An evaluation looks up the project, the flag and its latest version in three reads, and recompiles
  the stored IR.  Other requests may run between the reads, and the database passes documents on
  with their members in another order.

  * **`evaluation_is_current`** — an evaluation that begins when some version of the flag is stored
    is answered from that version or a later one: never with "not found", never with an IR that does
    not compile, and with the decision that the flag as it was published makes;
  * **`snapshot_is_current`** — the same for a snapshot: it holds every flag that had a version when
    its compilation began, at that version or a later one;
  * `listLatestFlagVersions_returned`, `shows_published` — the tables are those of
    `FalseFlag.LatestVersions` and, without the row ids, of `FalseFlag.Flags`.
-/
import FalseFlag.LatestVersions
import FalseFlag.Server.Journal

namespace FalseFlag.Server

open List JsonTree Json Processes Versioned Runs Mutators Contract Log

/-! ## What is looked up stays -/

section Lookups

variable {env : Env} {db : Medium} {V : Db → Prop} {d : Db}

/-- A project is found by its slug. -/
theorem find_project (h : Integrity d.tables) {proj : Project}
    (hproj : proj ∈ d.tables.projects) :
    d.tables.projects.find? (fun r => r.slug = proj.slug) = some proj := by
  rcases hfind : d.tables.projects.find? (fun r => r.slug = proj.slug) with _ | proj'
  · exact absurd (decide_eq_true rfl) (find?_eq_none.mp hfind proj hproj)
  · have hslug := find?_some hfind
    rw [decide_eq_true_iff] at hslug
    rw [hfind, h.project_eq (mem_of_find?_eq_some hfind) hproj hslug]

/-- A flag is found by its project and key. -/
theorem find_flag (h : Integrity d.tables) {flag : Mutators.Flag}
    (hflag : flag ∈ d.tables.flags) :
    d.tables.flags.find? (fun r => r.projectId = flag.projectId ∧ r.key = flag.key) = some flag := by
  rcases hfind : d.tables.flags.find?
      (fun r => r.projectId = flag.projectId ∧ r.key = flag.key) with _ | flag'
  · exact absurd (decide_eq_true ⟨rfl, rfl⟩) (find?_eq_none.mp hfind flag hflag)
  · have hkeys := find?_some hfind
    rw [decide_eq_true_iff] at hkeys
    rw [hfind, h.flag_eq (mem_of_find?_eq_some hfind) hflag hkeys.1 hkeys.2]

/-- The latest version is there, and no older than one that is there. -/
theorem latest_of_mem {v0 : FlagVersionRow} (hv0 : v0 ∈ d.tables.versions.flagVersions.rows) :
    ∃ v, d.tables.versions.flagVersions.latest v0.flagId = some v ∧
      v ∈ d.tables.versions.flagVersions.rows ∧ v.flagId = v0.flagId ∧ v0.version ≤ v.version := by
  rcases hlatest : d.tables.versions.flagVersions.latest v0.flagId with _ | v
  · exact absurd rfl (latest_eq_none hlatest hv0)
  · obtain ⟨hv, howner, hle⟩ := latest_spec hlatest
    exact ⟨v, rfl, hv, howner, hle v0 hv0 rfl⟩

/-- A version that was published compiles, also after the database has passed it on. -/
theorem PublishedIR.recompiles {p : PublishFlagVersionParams} (h : PublishedIR env db V d p) :
    ∃ (st : Strategy) (src : Source) (c c' : Compiled), p.strategy = st.name ∧
      compile env (.known st) src = .ok c ∧ p.compiled = encodeTree c.ir ∧
      compile env (.ofString p.strategy) (.json (db.pass p.compiled)) = .ok c' ∧
      decodeTree (db.pass p.compiled) = .ok c'.ir ∧ c.ir.Like (Carries SameNumber) c'.ir := by
  obtain ⟨st, -, src, c, -, -, -, -, hst, -, -, -, -, -, -, hc, hcompiled⟩ := h
  obtain ⟨c', hc', hdecode, hlike⟩ :=
    compile_carried keeps_sameNumber hc (fits_sameNumber c.ir) (db.carries _)
  have hknown : (Named.ofString st.name : Named Strategy) = .known st :=
    Named.ofString_toString (.known st)
  refine ⟨st, src, c, c', hst, hc, hcompiled, ?_, ?_, hlike⟩
  · rw [hst, hcompiled, hknown]
    exact hc'
  · rw [hcompiled]
    exact hdecode

end Lookups

/-! ## The latest versions -/

section LatestVersions

variable (db : Medium) (publishedAt : FlagVersionRow → Nat)

def flagRow (f : Mutators.Flag) : Latest.FlagRow := ⟨f.id, f.projectId, f.key⟩

def versionRow (v : FlagVersionRow) : Latest.VersionRow :=
  ⟨v.id, v.flagId, v.version, v.params.strategy, v.params.compiled, publishedAt v⟩

/-- The tables that `ListLatestFlagVersions` is run on, with what the driver reads. -/
def latestTables {s : Mutators.Store} (h : Integrity s) : Latest.Tables where
  flags := s.flags.map flagRow
  versions := s.versions.flagVersions.rows.map (versionRow publishedAt ∘ flagVersionFromRow db)
  flags_pkey := by
    have hids := h.ids .flags
    rw [Table.rows, map_map] at hids
    rwa [map_map]
  flags_project_id_key := by
    rw [map_map]
    refine Nodup.map_on (fun f hf g hg heq => ?_) (h.ids .flags).of_map.of_map
    exact h.flag_eq hf hg (congrArg Prod.fst heq) (congrArg Prod.snd heq)
  flag_versions_pkey := by
    have hids := h.ids .versions
    rw [Table.rows, map_map] at hids
    rwa [map_map]
  flag_versions_flag_id_version := by
    rw [map_map]
    refine pairwise_map.mpr (s.versions.flagVersions.increasing.imp fun hlt heq => ?_)
    exact (hlt (congrArg Prod.fst heq)).ne (Int.ofNat_inj.mp (congrArg Prod.snd heq))

def latestRow (r : String × FlagVersionRow) : Latest.LatestFlagVersion :=
  ⟨r.1, r.2.flagId, r.2.version, r.2.params.strategy, r.2.params.compiled, publishedAt r.2⟩

variable {db publishedAt}

/-- **The server lists what the backends return**, in some order. -/
theorem listLatestFlagVersions_returned {d : Db} (h : Integrity d.tables)
    {projectId : Nat} {rows : List (String × FlagVersionRow)}
    (hrows : listLatestFlagVersions db projectId (.ok d) = .ok rows) :
    Latest.Returned (latestTables db publishedAt h) projectId (rows.map (latestRow publishedAt)) := by
  injection hrows with hrows
  subst hrows
  constructor
  · intro row
    simp only [mem_map, mem_filterMap, mem_filter, decide_eq_true_eq, Option.map_eq_some_iff]
    constructor
    · rintro ⟨_, ⟨f, ⟨hf, hproject⟩, v, hv, rfl⟩, rfl⟩
      obtain ⟨hmem, hid, hle⟩ := latest_spec hv
      refine ⟨_, mem_map_of_mem hf, hproject, _, ⟨mem_map_of_mem hmem, hid, ?_⟩, rfl⟩
      exact forall_mem_map.mpr fun w hw hwid => Int.ofNat_le.mpr (hle w hw hwid)
    · rintro ⟨_, hf, hproject, _, ⟨hv, hid, hle⟩, rfl⟩
      obtain ⟨f, hf', rfl⟩ := mem_map.mp hf
      obtain ⟨v, hv', rfl⟩ := mem_map.mp hv
      refine ⟨_, ⟨f, ⟨hf', hproject⟩, v, latest_eq_some_iff.mpr ⟨⟨hv', ?_⟩, hid⟩, rfl⟩, rfl⟩
      exact fun w hw hwid => Int.ofNat_le.mp (hle _ (mem_map_of_mem hw) (hwid.trans hid))
  · rw [map_map, Nodup, pairwise_map, pairwise_filterMap]
    refine (Pairwise.sublist filter_sublist (h.ids .flags).of_map.of_map).imp_of_mem ?_
    intro f g hf hg hne r hr r' hr' heq
    obtain ⟨v, hv, rfl⟩ := Option.map_eq_some_iff.mp hr
    obtain ⟨w, hw, rfl⟩ := Option.map_eq_some_iff.mp hr'
    have hid : f.id = g.id :=
      (latest_spec hv).2.1.symm.trans (heq.trans (latest_spec hw).2.1)
    exact hne (h.flag_of_id (mem_filter.mp hf).1 (mem_filter.mp hg).1 hid)

end LatestVersions

/-! ## Versions by project and key -/

/-- A version in `FalseFlag.Store`, where a flag goes by project and key, and its row. -/
def ShowsVersion (db : Medium) (m : Mutators.Store) (v : FlagVersion) (r : FlagVersionRow) : Prop :=
  (∃ f ∈ m.flags, f.id = r.flagId ∧ v.flagId = ⟨f.projectId, f.key⟩) ∧ v.version = r.version ∧
    v.strategy.name = r.params.strategy ∧ v.compiled = db.pass r.params.compiled

/-- The versions in `FalseFlag.Store` are those of the server. -/
abbrev Shows (db : Medium) (s : FalseFlag.Store) (m : Mutators.Store) : Prop :=
  Forall₂ (ShowsVersion db m) s.versions.rows m.versions.flagVersions.rows

section Shown

variable {db : Medium} {s : FalseFlag.Store} {m : Mutators.Store} (h : Shows db s m)
  (hm : Integrity m) {f : Mutators.Flag} (hf : f ∈ m.flags)

include h hm hf

theorem shows_of : Forall₂ (ShowsVersion db m) (s.versions.of ⟨f.projectId, f.key⟩)
    (m.versions.flagVersions.of f.id) := by
  refine rel_filter (fun v r hvr => ?_) h
  obtain ⟨⟨f', hf', hid, hflag⟩, -⟩ := hvr
  simp only [decide_eq_true_eq, hflag, FlagId.mk.injEq]
  constructor
  · rintro ⟨hproject, hkey⟩
    exact hid.symm.trans (congrArg _ (hm.flag_eq hf' hf hproject hkey))
  · intro howner
    rw [hm.flag_of_id hf' hf (hid.trans howner)]
    exact ⟨rfl, rfl⟩

/-- An evaluation reads the same version, -/
theorem shows_latest : Option.Rel (ShowsVersion db m) (s.versions.latest ⟨f.projectId, f.key⟩)
    (m.versions.flagVersions.latest f.id) :=
  newest_rel (fun _ _ hvr => hvr.2.1) (shows_of h hm hf)

/-- and a publish inserts the same. -/
theorem shows_published {b : Backend} {g : Given} {p : PublishFlagVersionParams}
    {m' : Mutators.Store} {row : FlagVersionRow} (hp : p.flagId = f.id) {st : Strategy}
    (hst : st.name = p.strategy) (htx : txPublishFlagVersion b g m p = .ok (m', row))
    (src : Source) :
    Shows db (s.insertVersion db ⟨f.projectId, f.key⟩ st p.source p.compiled src) m' := by
  have hversions : (s.versions.of ⟨f.projectId, f.key⟩).map FlagVersion.version =
      (m.versions.flagVersions.of f.id).map FlagVersionRow.version := by
    rw [← forall₂_eq_eq_eq, forall₂_map_left_iff, forall₂_map_right_iff]
    exact (shows_of h hm hf).imp fun _ _ hvr => hvr.2.1
  have hnext : s.versions.next ⟨f.projectId, f.key⟩ = m.versions.flagVersions.next p.flagId := by
    rw [hp, Log.next, Log.next, hversions]
  rw [txPublishFlagVersion] at htx
  rcases hrefused : flagVersionRefused g m p with refused | _
  · rw [hrefused] at htx
    cases htx
  · rw [hrefused] at htx
    cases htx
    exact rel_append h (.cons ⟨⟨f, hf, hp.symm, rfl⟩, hnext, hst, rfl⟩ .nil)

end Shown

/-! ## Evaluations -/

/-- What `EvaluateFlag` writes. -/
def evaluated (env : Env) (c : Compiled) (ctx : Context) (version : Nat) : RestResponse :=
  match evaluate env c ctx version with
  | .error err => .error 500 (.text err)
  | .ok d => .json 200 (.decision d)

/-- The answer is made from a stored version of the flag, no older than `least`, recompiled as the
    database passes it on; and is what the flag as it was published gives, if its documents are in
    the range of a float64. -/
def ServedFrom (env : Env) (db : Medium) (flagId least : Nat) (ctx : Context) (d : Db)
    (a : RestResponse) : Prop :=
  ∃ v ∈ d.tables.versions.flagVersions.rows, v.flagId = flagId ∧ least ≤ v.version ∧
    ∃ (st : Strategy) (src : Source) (c c' : Compiled), v.params.strategy = st.name ∧
      compile env (.known st) src = .ok c ∧ v.params.compiled = encodeTree c.ir ∧
      compile env (.ofString v.params.strategy) (.json (db.pass v.params.compiled)) = .ok c' ∧
      c.ir.Like (Carries SameNumber) c'.ir ∧ a = evaluated env c' ctx v.version ∧
      (c.ir.Raws (inRange · = true) → a = evaluated env c ctx v.version)

/-- A read failed, or the answer is made from a stored version. -/
def Current (env : Env) (db : Medium) (flagId least : Nat) (ctx : Context) (d : Db)
    (a : RestResponse) : Prop :=
  (∃ e, a = .error 500 (.store e)) ∨ ServedFrom env db flagId least ctx d a

section Evaluations

variable {env : Env} {db : Medium} {b : Backend} {V : Db → Prop} {d : Db}

theorem ServedFrom.grows {d' : Db} (h : Grows d d') {flagId least : Nat} {ctx : Context}
    {a : RestResponse} (ha : ServedFrom env db flagId least ctx d a) :
    ServedFrom env db flagId least ctx d' a := by
  obtain ⟨v, hv, hrest⟩ := ha
  exact ⟨v, h.version hv, hrest⟩

theorem stable_current (flagId least : Nat) (ctx : Context) :
    (contract env db b).Stable (Current env db flagId least ctx) := by
  intro d d' a hgrows ha
  exact ha.imp id (ServedFrom.grows hgrows)

/-- A read that fails is answered with 500. -/
theorem notFoundOrError_fault (text : String) (f : ReadFault) :
    Rest.notFoundOrError (.wrap text f.error) = .error 500 (.store (.wrap text f.error)) := by
  rw [Rest.notFoundOrError, if_neg]
  show ¬ f.error.is .notFound = true
  rw [f.notFound]
  nofun

/-- What an evaluation makes of a stored version. -/
theorem servedFrom_version (hprov : Provenance env db V d) {v : FlagVersionRow}
    (hv : v ∈ d.tables.versions.flagVersions.rows) {least : Nat} (hle : least ≤ v.version)
    (ctx : Context) :
    ∃ c', compile env (.ofString v.params.strategy) (.json (db.pass v.params.compiled)) = .ok c' ∧
      ServedFrom env db v.flagId least ctx d (evaluated env c' ctx v.version) := by
  obtain ⟨st, src, c, c', hst, hc, hcompiled, hc', -, hlike⟩ :=
    (hprov.versions v hv).recompiles
  refine ⟨c', hc', v, hv, rfl, hle, st, src, c, c', hst, hc, hcompiled, hc', hlike, rfl,
    fun hraws => ?_⟩
  rw [evaluated, evaluated, evaluate_like keeps_sameNumber hlike (wellCompiled_of_compile hc)
    (wellCompiled_of_compile hc') hraws]

theorem evaluateFlag_meets {proj : Project} {flag : Mutators.Flag} {v0 : FlagVersionRow}
    (hproj : proj ∈ d.tables.projects) (hflag : flag ∈ d.tables.flags)
    (howner : flag.projectId = proj.id) (hv0 : v0 ∈ d.tables.versions.flagVersions.rows)
    (hflagId : v0.flagId = flag.id) (ctx : Context) :
    (contract env db b).Meets (Current env db flag.id v0.version ctx)
      (Rest.evaluateFlag env db proj.slug flag.key (.ok ctx)) d := by
  have hfault : ∀ (text : String) (d' : Db) (f : ReadFault),
      Current env db flag.id v0.version ctx d' (Rest.notFoundOrError (.wrap text f.error)) :=
    fun text _ f => .inl ⟨_, notFoundOrError_fault text f⟩
  -- the project is found, and is the one that was there
  refine meets_withRow (hfault _) (fun d1 hwhole hgrows hnone => ?_) fun d1 proj' hwhole h1 hsome => ?_
  · rw [find_project hwhole.integrity (hgrows.project hproj)] at hnone
    cases hnone
  rw [find_project hwhole.integrity (h1.project hproj)] at hsome
  cases hsome
  -- so is the flag
  refine meets_withRow (hfault _) (fun d2 hwhole h2 hnone => ?_) fun d2 flag' hwhole h2 hsome => ?_
  · rw [← howner, find_flag hwhole.integrity ((h1.trans h2).flag hflag)] at hnone
    cases hnone
  rw [← howner, find_flag hwhole.integrity ((h1.trans h2).flag hflag)] at hsome
  cases hsome
  -- the latest version is no older than the one that was there
  refine meets_withRow (hfault _) (fun d3 hwhole h3 hnone => ?_) fun d3 v' hwhole h3 hsome => ?_
  · obtain ⟨v, hlatest, -⟩ := latest_of_mem (((h1.trans h2).trans h3).version hv0)
    rw [flagFromRow, ← hflagId, hlatest] at hnone
    cases hnone
  obtain ⟨v, hlatest, hv, hvflag, hle⟩ := latest_of_mem (((h1.trans h2).trans h3).version hv0)
  rw [flagFromRow, ← hflagId, hlatest] at hsome
  cases hsome
  obtain ⟨c', hc', hserved⟩ := servedFrom_version hwhole.provenance hv hle ctx
  rw [hvflag, hflagId] at hserved
  simp only [Rest.withBody, flagVersionFromRow, hc']
  exact .inr hserved

end Evaluations

/-- The request is handled by the REST handler that keeps a promise; so its answer keeps it too. -/
theorem serve_meets_told {env : Env} {db : Medium} {b : Backend} {d : Db} {req : Request}
    {r : RestRequest} (hr : req.onRest = some r) {Φ : Db → RestResponse → Prop}
    (h : (contract env db b).Meets Φ (rest env db b r) d) :
    (contract env db b).Meets (fun d a => ∃ x, Φ d x ∧ a.told = x.toConnect)
      (serve env db b req) d := by
  cases req with
  | rest r' =>
    cases hr
    rw [serve, meets_map]
    exact h.imp fun _ a ha => ⟨a, ha, rfl⟩
  | connect c =>
    rw [serve, meets_map, connect_eq_map hr, meets_map]
    exact h.imp fun _ a ha => ⟨a, ha, rfl⟩

/-- The promise of one request, from the moment it begins. -/
theorem answered_meets {env : Env} {db : Medium} {b : Backend} {reqs : Nat → Request} {i : Nat}
    {r : RestRequest} (hr : (reqs i).onRest = some r) {Φ : Db → RestResponse → Prop}
    (hΦ : (contract env db b).Stable Φ) {before after : List (Turn ReadFault Fate)}
    (hi : ∀ e ∈ before, e.who ≠ i)
    (h : (contract env db b).Meets Φ (rest env db b r)
      (run env db b reqs emptyDb before).store) {a : Answer}
    (ha : (run env db b reqs emptyDb (before ++ after)).procs i = .answer a) :
    ∃ x, Φ (run env db b reqs emptyDb (before ++ after)).store x ∧
      a.told = x.toConnect := by
  have hkept : (contract env db b).Kept (fun _ _ _ => True) (run env db b reqs _ before) :=
    (kept_along env db b reqs (along_of_invariant (fun _ _ _ => trivial) trivial)).last
  have hstart : (run env db b reqs emptyDb before).procs i =
      serve env db b (reqs i) := untouched before _ hi
  have hmeets := serve_meets_told hr h
  rw [← hstart] at hmeets
  have hpromise := hkept.promise hmeets
  have hstable : ∀ j, (contract env db b).Stable
      (fun d (a : Answer) => j = i → ∃ x, Φ d x ∧ a.told = x.toConnect) := by
    intro j d d' a hgrows hx hj
    obtain ⟨x, hx, htold⟩ := hx hj
    exact ⟨x, hΦ d d' x hgrows hx, htold⟩
  have hend := (along hstable hpromise
    (along_of_invariant (fun _ _ _ => trivial) trivial : Along _ (fun _ => True) _ after)).last
  rw [run, foldl_append] at ha ⊢
  exact hend.answered ha rfl

/-- **Evaluations read what was written.**  Let any requests run at once, over both surfaces,
    interleaved in any way; reads and transactions may fail.  Let one of them be an evaluation, and
    let a version of the flag be stored when it begins.  If it is answered, then with 500 because a
    read failed, or from a version of the flag that is no older: the answer is what that version
    gives, recompiled from its stored IR, and (its documents being in the range of a float64) what
    the source that was published gives. -/
theorem evaluation_is_current (env : Env) (db : Medium) (b : Backend) (reqs : Nat → Request) (i : Nat)
    (before after : List (Turn ReadFault Fate)) (proj : Project) (flag : Mutators.Flag)
    (v0 : FlagVersionRow) (ctx : Context)
    (hreq : (reqs i).onRest = some (.evaluateFlag proj.slug flag.key (.ok ctx)))
    (hi : ∀ e ∈ before, e.who ≠ i)
    (hproj : proj ∈ (run env db b reqs emptyDb before).store.tables.projects)
    (hflag : flag ∈ (run env db b reqs emptyDb before).store.tables.flags)
    (howner : flag.projectId = proj.id)
    (hv0 : v0 ∈ (run env db b reqs emptyDb
      before).store.tables.versions.flagVersions.rows)
    (hflagId : v0.flagId = flag.id) (a : Answer)
    (ha : (run env db b reqs emptyDb (before ++ after)).procs i = .answer a) :
    ∃ x, Current env db flag.id v0.version ctx
        (run env db b reqs emptyDb (before ++ after)).store x ∧
      a.told = x.toConnect :=
  answered_meets hreq (stable_current _ _ _) hi
    (evaluateFlag_meets hproj hflag howner hv0 hflagId ctx) ha

/-! ### A run -/

/-- A project, a flag, a version of it, and who asks for it. -/
def shopRequests : Nat → Request
  | 0 => .rest (.createProject "ada" (.ok ⟨"shop", "Shop", "json"⟩))
  | 1 => .rest (.createFlag "shop" "ada" (.ok ⟨"banner", "Banner", none, "boolean", .bool false⟩))
  | 2 => .rest (.publishFlagVersion 1 "shop" "banner" "ada" (.ok ⟨"json",
      .obj [("default", .bool true), ("rules", .arr []), ("value_type", .str "boolean")], none⟩))
  | 3 => .connect (.evaluate "shop" "banner" none)
  | _ => .rest (.compileSnapshot "shop" "ada" none)

/-- Request `who` takes a turn; its transaction draws this id. -/
def turnOf (who id : Nat) : Turn ReadFault Fate := ⟨who, none, .ok ⟨id, 0, fun _ => none⟩⟩

/-- The first three requests, one after another. -/
def shopTurns : List (Turn ReadFault Fate) :=
  [turnOf 0 1, turnOf 1 2, turnOf 1 2, turnOf 2 3, turnOf 2 3, turnOf 2 3, turnOf 2 3]

/-- The version that is stored then. -/
def shopVersion : FlagVersionRow :=
  ⟨3, ⟨2, "json", .obj [("default", .bool true), ("rules", .arr []), ("value_type", .str "boolean")],
    .obj [("value_type", .str "boolean"), ("default", .bool true), ("rules", .arr [])], ""⟩, 1⟩

/-- The evaluation begins when version 1 is stored, and is answered from it. -/
theorem banner_is_current :
    ∃ x, Current .plain .sorted 2 1 []
        (run .plain .sorted .sqlite shopRequests emptyDb
          (shopTurns ++ [turnOf 3 0, turnOf 3 0, turnOf 3 0])).store x ∧
      ConnectResponse.response (.decision ⟨.bool true, .default, "", 1⟩) = x.toConnect :=
  evaluation_is_current .plain .sorted .sqlite shopRequests 3 shopTurns
    [turnOf 3 0, turnOf 3 0, turnOf 3 0] ⟨1, "shop", "Shop", "json", 0, 0⟩
    ⟨2, 1, "banner", "Banner", "", "boolean", .bool false, 0, 0⟩ shopVersion [] rfl
    (by decide) (mem_singleton.mpr rfl) (mem_singleton.mpr rfl) rfl
    (mem_singleton.mpr rfl) rfl (.connect (.response (.decision ⟨.bool true, .default, "", 1⟩)))
    rfl

/-! ## Snapshots -/

/-- The tree is the one of a stored version of the flag, no older than `least`, as the database
    passes it on. -/
def TreeFrom (env : Env) (db : Medium) (flagId least : Nat) (d : Db) (tree : RulesTree) : Prop :=
  ∃ v ∈ d.tables.versions.flagVersions.rows, v.flagId = flagId ∧ least ≤ v.version ∧
    decodeTree (db.pass v.params.compiled) = .ok tree ∧
    ∃ (st : Strategy) (src : Source) (c : Compiled), v.params.strategy = st.name ∧
      compile env (.known st) src = .ok c ∧ v.params.compiled = encodeTree c.ir ∧
      c.ir.Like (Carries SameNumber) tree

/-- No stored IR is in the way; and what is answered with success is a stored snapshot of the project
    that holds the flag. -/
def Bundled (env : Env) (db : Medium) (flag : Mutators.Flag) (least : Nat) (d : Db)
    (a : RestResponse) : Prop :=
  (∀ text, a ≠ .error 500 (.text text)) ∧ ∀ reply, a.reply = some reply →
    ∃ r ∈ d.tables.versions.snapshots.rows, r.projectId = flag.projectId ∧
      reply = .snapshot (snapshotFromRow db r) ∧
      ∃ flags tree, r.params.compiled = encodeBundle flags ∧ flags.lookup flag.key = some tree ∧
        TreeFrom env db flag.id least d tree

section Snapshots

variable {env : Env} {db : Medium} {b : Backend} {V : Db → Prop} {d : Db}

theorem TreeFrom.grows {d' : Db} (h : Grows d d') {flagId least : Nat} {tree : RulesTree}
    (ht : TreeFrom env db flagId least d tree) : TreeFrom env db flagId least d' tree := by
  obtain ⟨v, hv, hrest⟩ := ht
  exact ⟨v, h.version hv, hrest⟩

theorem stable_bundled (flag : Mutators.Flag) (least : Nat) :
    (contract env db b).Stable (Bundled env db flag least) := by
  rintro d d' a hgrows ⟨htext, hreply⟩
  refine ⟨htext, fun reply h => ?_⟩
  obtain ⟨r, hr, hproject, heq, flags, tree, hcompiled, hlookup, htree⟩ := hreply reply h
  exact ⟨r, Grows.snapshot hgrows hr, hproject, heq, flags, tree, hcompiled, hlookup,
    htree.grows hgrows⟩

/-- An error of the store is not a text, and no success. -/
theorem bundled_storeError (flag : Mutators.Flag) (least status : Nat) (e : DbError) :
    Bundled env db flag least d (.error status (.store e)) :=
  ⟨nofun, nofun⟩

theorem bundled_badRequest (flag : Mutators.Flag) (least : Nat) (text : String) :
    Bundled env db flag least d (Rest.badRequest text) :=
  ⟨nofun, nofun⟩

theorem bundled_notFoundOrError (flag : Mutators.Flag) (least : Nat) (e : DbError) :
    Bundled env db flag least d (Rest.notFoundOrError e) := by
  unfold Rest.notFoundOrError
  split
  · exact bundled_storeError flag least _ e
  · exact bundled_storeError flag least _ e

theorem bundled_writeStoreErr (flag : Mutators.Flag) (least : Nat) (e : DbError) :
    Bundled env db flag least d (Rest.writeStoreErr e) := by
  unfold Rest.writeStoreErr
  split
  · exact bundled_storeError flag least _ e
  · split
    · exact bundled_storeError flag least _ e
    · exact bundled_storeError flag least _ e

/-- **The bundle of a project holds all its flags that have a version**, each with the tree of its
    latest one; nothing that is stored fails to be read. -/
theorem compileBundle_holds (hwhole : Whole env db V d) (projectId : Nat) :
    ∃ flags, compileBundle env db projectId (.ok d) = .ok flags ∧
      ∀ flag ∈ d.tables.flags, flag.projectId = projectId →
        ∀ v0 ∈ d.tables.versions.flagVersions.rows, v0.flagId = flag.id →
          ∃ tree, flags.lookup flag.key = some tree ∧
            TreeFrom env db flag.id v0.version d tree := by
  have hrows : ∀ lv ∈ (d.tables.flags.filter (·.projectId = projectId)).filterMap fun flag =>
      (d.tables.versions.flagVersions.latest flag.id).map fun v =>
        (flag.key, flagVersionFromRow db v),
      ∃ flag ∈ d.tables.flags, flag.projectId = projectId ∧
        ∃ v, d.tables.versions.flagVersions.latest flag.id = some v ∧
          lv = (flag.key, flagVersionFromRow db v) := by
    intro lv hlv
    obtain ⟨flag, hflag, hv⟩ := mem_filterMap.mp hlv
    obtain ⟨hflag, hproject⟩ := mem_filter.mp hflag
    obtain ⟨v, hlatest, rfl⟩ := Option.map_eq_some_iff.mp hv
    exact ⟨flag, hflag, of_decide_eq_true hproject, v, hlatest, rfl⟩
  obtain ⟨flags, hflags⟩ : ∃ flags, compileBundle env db projectId (.ok d) = .ok flags := by
    refine insertEach_isOk_iff.mpr fun lv hlv => ?_
    obtain ⟨flag, -, -, v, hv, rfl⟩ := hrows lv hlv
    obtain ⟨-, -, -, c', -, -, -, -, hdecode, -⟩ :=
      (hwhole.provenance.versions v (latest_spec hv).1).recompiles
    exact ⟨c'.ir, by rw [flagVersionFromRow, hdecode]; rfl⟩
  refine ⟨flags, hflags, fun flag hflag hproject v0 hv0 hflagId => ?_⟩
  obtain ⟨v, hlatest, hv, hvflag, hle⟩ := latest_of_mem hv0
  rw [hflagId] at hlatest hvflag
  have hmem : (flag.key, flagVersionFromRow db v) ∈
      (d.tables.flags.filter (·.projectId = projectId)).filterMap fun flag =>
        (d.tables.versions.flagVersions.latest flag.id).map fun v =>
          (flag.key, flagVersionFromRow db v) := by
    refine mem_filterMap.mpr ⟨flag, mem_filter.mpr ⟨hflag, decide_eq_true hproject⟩, ?_⟩
    rw [hlatest]
    rfl
  obtain ⟨tree, htree, hlookup⟩ := insertEach_lookup hflags hmem (by
    intro lv hlv hkey
    obtain ⟨flag', hflag', hproject', v', hv', rfl⟩ := hrows lv hlv
    -- flags of one project with one key are one
    rw [hwhole.integrity.flag_eq hflag' hflag (hproject'.trans hproject.symm) hkey, hlatest] at hv'
    cases hv'
    exact congrArg (·, flagVersionFromRow db v) hkey)
  refine ⟨tree, hlookup, v, hv, hvflag, hle, ?_⟩
  obtain ⟨st, src, c, c', hst, hc, hcompiled, -, hdecode, hlike⟩ :=
    (hwhole.provenance.versions v hv).recompiles
  rw [flagVersionFromRow, hdecode] at htree
  cases htree
  exact ⟨hdecode, st, src, c, hst, hc, hcompiled, hlike⟩

/-- The transaction of a snapshot, as it fares. -/
theorem bundled_execute {flag : Mutators.Flag} {least : Nat} {t : Audited}
    {flags : List (String × RulesTree)} {envId : Option Nat}
    (ht : t.mutation = .compileSnapshot ⟨flag.projectId, envId, encodeBundle flags⟩)
    {tree : RulesTree} (hlookup : flags.lookup flag.key = some tree)
    (htree : TreeFrom env db flag.id least d tree) (w : Fate) :
    Bundled env db flag least (execute b d t w).1 (Rest.written db 201 (execute b d t w).2) := by
  have hend := grows_execute b d t w
  rcases execute_cases b d t w with ⟨g, s, row, -, htx, hexec⟩ | ⟨e, hexec⟩
  · have hmem := row_mem (congrArg Prod.snd hexec)
    rw [hexec] at hend hmem ⊢
    refine ⟨nofun, fun reply hreply => ?_⟩
    rw [ht] at htx
    rcases tx_ok htx with ⟨hmakes, -⟩ | ⟨p, hp, -⟩
    · cases hmakes
      obtain ⟨r, hr, heq⟩ := mem_map.mp hmem
      cases heq
      cases hreply
      exact ⟨_, hr, rfl, rfl, flags, tree, rfl, hlookup, htree.grows hend⟩
    · cases hp
  · rw [hexec]
    exact bundled_writeStoreErr flag least e

theorem compileAndInsert_current (actor : String) {flag : Mutators.Flag} {v0 : FlagVersionRow}
    (hflag : flag ∈ d.tables.flags) (hv0 : v0 ∈ d.tables.versions.flagVersions.rows)
    (hflagId : v0.flagId = flag.id) {proj : Project} (hproj : proj ∈ d.tables.projects)
    (howner : flag.projectId = proj.id) {envId : Option Nat}
    (henv : ∀ e ∈ envId, ∃ r ∈ d.tables.environments, r.id = e ∧ r.projectId = proj.id) :
    (contract env db b).Meets (Bundled env db flag v0.version)
      (Rest.compileAndInsert env db actor proj.id envId) d := by
  intro d' hwhole hgrows fault
  rcases fault with _ | f
  · obtain ⟨flags, hflags, hholds⟩ := compileBundle_holds hwhole proj.id
    obtain ⟨tree, hlookup, htree⟩ :=
      hholds flag (Grows.flag hgrows hflag) howner v0 (Grows.version hgrows hv0) hflagId
    have hmeets : (contract env db b).Meets (fun _ _ => True)
        (Rest.compileAndInsert env db actor proj.id envId) d :=
      meets_imp (fun _ _ _ => trivial) (compileAndInsert_meets actor hproj henv)
    have hallowed := hmeets d' hwhole hgrows none
    rw [seen] at hallowed ⊢
    simp only [hflags] at hallowed ⊢
    intro d'' hwhole'' hgrows''
    refine ⟨(hallowed d'' hwhole'' hgrows'').1, fun w _ => ?_⟩
    exact bundled_execute (by rw [howner]) hlookup (htree.grows hgrows'') w
  · exact bundled_storeError flag v0.version 500 _

theorem compileSnapshot_current {proj : Project} {flag : Mutators.Flag}
    {v0 : FlagVersionRow} (hproj : proj ∈ d.tables.projects) (hflag : flag ∈ d.tables.flags)
    (howner : flag.projectId = proj.id) (hv0 : v0 ∈ d.tables.versions.flagVersions.rows)
    (hflagId : v0.flagId = flag.id) (actor : String) (body : Option (Body (Option String))) :
    (contract env db b).Meets (Bundled env db flag v0.version)
      (Rest.compileSnapshot env db proj.slug actor body) d := by
  refine meets_withRow (fun _ f => bundled_notFoundOrError _ _ _)
    (fun _ _ _ _ => bundled_notFoundOrError _ _ _) fun d1 proj' hwhole h1 hsome => ?_
  rw [find_project hwhole.integrity (h1.project hproj)] at hsome
  cases hsome
  have hdirect : (contract env db b).Meets (Bundled env db flag v0.version)
      (Rest.compileAndInsert env db actor proj.id none) d1 :=
    compileAndInsert_current actor (h1.flag hflag) (h1.version hv0) hflagId (h1.project hproj) howner
      fun _ he => by cases he
  rcases body with _ | body
  · exact hdirect
  · rcases body with text | environmentSlug
    · exact bundled_badRequest flag v0.version text
    · simp only [Rest.withBody]
      split
      · exact hdirect
      · exact hdirect
      · rename_i envSlug _
        intro d2 _ h2 fault
        beta_reduce
        rcases getEnvironmentBySlug_cases proj.id envSlug fault d2 with
          ⟨e, he⟩ | ⟨r, hr, hproject, he⟩
        · rw [he]
          simp only
          split
          · exact bundled_badRequest flag v0.version _
          · exact bundled_storeError flag v0.version 500 e
        · rw [he]
          refine compileAndInsert_current actor (Grows.flag h2 (h1.flag hflag))
            (Grows.version h2 (h1.version hv0)) hflagId (Grows.project h2 (h1.project hproj)) howner
            fun e he => ?_
          cases he
          exact ⟨r, hr, rfl, hproject⟩

end Snapshots

/-- **Snapshots hold what was written.**  Let any requests run at once, over both surfaces,
    interleaved in any way; reads and transactions may fail.  Let one of them compile a snapshot, and
    let a version of a flag of its project be stored when it begins.  It is never answered that a
    stored IR cannot be read; and if it is answered with success, then with a snapshot that is stored
    and holds the flag, with the tree of a version that is no older. -/
theorem snapshot_is_current (env : Env) (db : Medium) (b : Backend) (reqs : Nat → Request) (i : Nat)
    (before after : List (Turn ReadFault Fate)) (proj : Project) (flag : Mutators.Flag)
    (v0 : FlagVersionRow) (actor : String) (body : Option (Body (Option String)))
    (hreq : (reqs i).onRest = some (.compileSnapshot proj.slug actor body))
    (hi : ∀ e ∈ before, e.who ≠ i)
    (hproj : proj ∈ (run env db b reqs emptyDb before).store.tables.projects)
    (hflag : flag ∈ (run env db b reqs emptyDb before).store.tables.flags)
    (howner : flag.projectId = proj.id)
    (hv0 : v0 ∈ (run env db b reqs emptyDb
      before).store.tables.versions.flagVersions.rows)
    (hflagId : v0.flagId = flag.id) (a : Answer)
    (ha : (run env db b reqs emptyDb (before ++ after)).procs i = .answer a) :
    ∃ x, Bundled env db flag v0.version
        (run env db b reqs emptyDb (before ++ after)).store x ∧
      a.told = x.toConnect :=
  answered_meets hreq (stable_bundled _ _) hi
    (compileSnapshot_current hproj hflag howner hv0 hflagId actor body) ha

/-- The snapshot that is stored after `shopTurns`. -/
def shopSnapshot : SnapshotRow :=
  ⟨4, ⟨1, none, .obj [("flags", .obj [("banner", .obj [("value_type", .str "boolean"),
    ("default", .bool true), ("rules", .arr [])])])]⟩, 1⟩

/-- A snapshot that is compiled after version 1 was stored holds the flag. -/
theorem banner_is_bundled :
    ∃ x, Bundled .plain .sorted ⟨2, 1, "banner", "Banner", "", "boolean", .bool false, 0, 0⟩ 1
        (run .plain .sorted .sqlite shopRequests emptyDb
          (shopTurns ++ [turnOf 4 4, turnOf 4 4, turnOf 4 4])).store x ∧
      ConnectResponse.response (.snapshot (snapshotFromRow .sorted shopSnapshot)) = x.toConnect :=
  snapshot_is_current .plain .sorted .sqlite shopRequests 4 shopTurns
    [turnOf 4 4, turnOf 4 4, turnOf 4 4] ⟨1, "shop", "Shop", "json", 0, 0⟩
    ⟨2, 1, "banner", "Banner", "", "boolean", .bool false, 0, 0⟩ shopVersion "ada" none rfl
    (by decide) (mem_singleton.mpr rfl) (mem_singleton.mpr rfl) rfl
    (mem_singleton.mpr rfl) rfl
    (.rest (.json 201 (.snapshot (snapshotFromRow .sorted shopSnapshot)))) rfl

end FalseFlag.Server
