/-
  Projects do not see each other (internal/server/handlers, internal/server/rpc, internal/store).

  All projects live in the same tables: keys are unique for each project, but ids are unique for a
  table, versions are counted with `MAX(version) + 1` over a table, and a lookup goes by an id that
  was read before.  Two databases agree on a project if they have the same project row, the same
  environments, flags, segments and snapshots of it, the same versions of its flags and the same
  events in its part of the audit log.

  * **`projects_isolated`** — requests to other projects, however they interleave, change no answer
    to a request of a project, nor anything of the project.
-/
import FalseFlag.Server.Serving

namespace FalseFlag.Server

open List JsonTree Processes Versioned Mutators
open Mutators (Table tx_ok)

/-! ## The part of a project -/

/-- The two databases have the same rows of a project, but for the project itself. -/
structure SamePart (projectId : Nat) (d d' : Db) : Prop where
  environments : d.tables.environments.filter (·.projectId = projectId) =
    d'.tables.environments.filter (·.projectId = projectId)
  flags : d.tables.flags.filter (·.projectId = projectId) =
    d'.tables.flags.filter (·.projectId = projectId)
  segments : d.tables.segments.filter (·.projectId = projectId) =
    d'.tables.segments.filter (·.projectId = projectId)
  snapshots : d.tables.versions.snapshots.of projectId = d'.tables.versions.snapshots.of projectId
  versions : ∀ f ∈ d.tables.flags, f.projectId = projectId →
    d.tables.versions.flagVersions.of f.id = d'.tables.versions.flagVersions.of f.id
  audit : d.audit.filter (·.projectId = some projectId) =
    d'.audit.filter (·.projectId = some projectId)

/-- The two databases agree on the project with this slug. -/
structure Agree (slug : String) (d d' : Db) : Prop where
  project : d.tables.projects.find? (·.slug = slug) = d'.tables.projects.find? (·.slug = slug)
  part : ∀ proj, d.tables.projects.find? (·.slug = slug) = some proj → SamePart proj.id d d'

section Own

variable {β : Type}

/-- Rows that are told apart by their owner: the same where the owner's rows are the same. -/
theorem mem_own {owner : β → Nat} {k : Nat} {xs ys : List β}
    (h : xs.filter (fun x => owner x = k) = ys.filter (fun x => owner x = k)) {x : β}
    (hx : owner x = k) : x ∈ xs ↔ x ∈ ys := by
  have hmem : x ∈ xs.filter (fun x => owner x = k) ↔ x ∈ ys.filter (fun x => owner x = k) := by
    rw [h]
  simpa [mem_filter, hx] using hmem

theorem exists_own {owner : β → Nat} {k : Nat} {xs ys : List β}
    (h : xs.filter (fun x => owner x = k) = ys.filter (fun x => owner x = k)) {P : β → Prop}
    (hP : ∀ x, P x → owner x = k) : (∃ x ∈ xs, P x) ↔ ∃ x ∈ ys, P x :=
  exists_congr fun x => and_congr_left fun hx => mem_own h (hP x hx)

theorem find?_own {owner : β → Nat} {k : Nat} {xs ys : List β}
    (h : xs.filter (fun x => owner x = k) = ys.filter (fun x => owner x = k)) {p : β → Bool}
    (hp : ∀ x, p x = true → owner x = k) : xs.find? p = ys.find? p := by
  have hfilter : ∀ zs : List β, zs.find? p = (zs.filter (fun x => owner x = k)).find? p := by
    intro zs
    rw [find?_filter]
    congr 1
    funext x
    cases hx : p x with
    | false => simp
    | true => simp [hp x hx]
  rw [hfilter, hfilter ys, h]

/-- One more row on both sides. -/
theorem filter_snoc {p : β → Bool} {xs ys : List β} (h : xs.filter p = ys.filter p)
    (x : β) : (xs ++ [x]).filter p = (ys ++ [x]).filter p := by
  rw [filter_append, filter_append, h]

/-- One more row of another owner. -/
theorem filter_snoc_other {p : β → Bool} {x : β} (h : p x = false) (xs : List β) :
    (xs ++ [x]).filter p = xs.filter p := by
  rw [filter_append, filter_cons_of_neg (by rw [h]; exact Bool.false_ne_true),
    filter_nil, append_nil]

end Own

section Agreement

variable {projectId : Nat} {slug : String} {d d' d'' : Db}

theorem SamePart.refl (d : Db) : SamePart projectId d d :=
  ⟨rfl, rfl, rfl, rfl, fun _ _ _ => rfl, rfl⟩

theorem SamePart.symm (h : SamePart projectId d d') : SamePart projectId d' d where
  environments := h.environments.symm
  flags := h.flags.symm
  segments := h.segments.symm
  snapshots := h.snapshots.symm
  versions f hf hproject := (h.versions f ((mem_own h.flags hproject).mpr hf) hproject).symm
  audit := h.audit.symm

theorem SamePart.trans (h : SamePart projectId d d') (h' : SamePart projectId d' d'') :
    SamePart projectId d d'' where
  environments := h.environments.trans h'.environments
  flags := h.flags.trans h'.flags
  segments := h.segments.trans h'.segments
  snapshots := h.snapshots.trans h'.snapshots
  versions f hf hproject :=
    (h.versions f hf hproject).trans (h'.versions f ((mem_own h.flags hproject).mp hf) hproject)
  audit := h.audit.trans h'.audit

theorem Agree.refl (slug : String) (d : Db) : Agree slug d d := ⟨rfl, fun _ _ => SamePart.refl d⟩

theorem Agree.symm (h : Agree slug d d') : Agree slug d' d where
  project := h.project.symm
  part proj hproj := (h.part proj (h.project.trans hproj)).symm

theorem Agree.trans (h : Agree slug d d') (h' : Agree slug d' d'') : Agree slug d d'' where
  project := h.project.trans h'.project
  part proj hproj := (h.part proj hproj).trans (h'.part proj (h.project.symm.trans hproj))

/-- Databases that agree on a project have it, and its part. -/
theorem Agree.own (h : Agree slug d d') (hd : Integrity d.tables) {proj : Project}
    (hproj : proj ∈ d.tables.projects) (hslug : proj.slug = slug) :
    SamePart proj.id d d' ∧ proj ∈ d'.tables.projects := by
  have hfind := find_project hd hproj
  rw [hslug] at hfind
  refine ⟨h.part proj hfind, ?_⟩
  rw [h.project] at hfind
  exact mem_of_find?_eq_some hfind

end Agreement

/-! ## Ids that are drawn -/

/-- The id is one of a row. -/
def Used (d : Db) (id : Nat) : Prop := ∃ table : Table, ∃ row ∈ table.rows d.tables, row.id = id

/-- What a transaction draws: the id of its row. -/
def drawnId : Fate → Option Nat
  | .error _ => none
  | .ok g => some g.id

def drawn (b : Backend) : Draws (execute b) Nat where
  draws w id := drawnId w = some id
  used := Used
  grows := by
    rintro d t w id ⟨table, row, hrow, hid⟩
    rcases execute_cases b d t w with ⟨g, s, new, hw, htx, hexec⟩ | ⟨e, hexec⟩
    · rw [hexec] at hrow
      rcases tx_ok htx with ⟨hmakes, hinserted⟩ | ⟨p, -, hupdated⟩
      · rcases hinserted.cases table hrow with hold | rfl
        · exact .inl ⟨table, row, hold, hid⟩
        · exact .inr (hw ▸ congrArg some (hmakes.id.symm.trans hid))
      · obtain ⟨r, hr, hfixed⟩ := mem_of_fixed (hupdated.fixed table) hrow
        rw [← row.fixed_id, ← hfixed, r.fixed_id] at hid
        exact .inl ⟨table, r, hr, hid⟩
    · rw [hexec] at hrow
      exact .inl ⟨table, row, hrow, hid⟩

/-! ## Transactions of the project -/

section Parallel

variable {env : Env} {db : Medium} {V : Db → Prop} {b : Backend} {d1 d2 : Db} {g : Given}

theorem refuseIf_congr {c c' : Prop} [Decidable c] [Decidable c'] (h : c ↔ c')
    (v : Violation) : refuseIf c v = refuseIf c' v := by
  unfold refuseIf
  by_cases hc : c
  · rw [if_pos hc, if_pos (h.mp hc)]
  · rw [if_neg hc, if_neg fun hc' => hc (h.mpr hc')]

/-- Nothing has an id that is not used. -/
theorem no_row {β : Type} (table : Table) (f : β → Mutators.Row) {d : Db} {rows : List β} {id : Nat}
    (hrows : table.rows d.tables = rows.map f) (hfresh : ¬ Used d id) :
    ¬ ∃ r ∈ rows, (f r).id = id := by
  rintro ⟨r, hr, hid⟩
  exact hfresh ⟨table, f r, hrows ▸ mem_map_of_mem hr, hid⟩

/-- The segment of an update is one of its project. -/
theorem selects_project {p : UpdateSegmentParams} {r : Mutators.Segment}
    (h : p.selects r = true) : r.projectId = p.projectId := by
  rw [UpdateSegmentParams.selects, Bool.and_eq_true, decide_eq_true_iff] at h
  exact h.1

variable {projectId : Nat}

/-- An update keeps the project of a segment. -/
theorem filter_update (p : UpdateSegmentParams) (now : Nat)
    {rows : List Mutators.Segment} :
    (rows.map fun r => if p.selects r then p.apply now r else r).filter
        (fun r => r.projectId = projectId) =
      (rows.filter (fun r => r.projectId = projectId)).map
        fun r => if p.selects r then p.apply now r else r := by
  rw [filter_map]
  congr 2
  funext r
  show decide ((if p.selects r then p.apply now r else r).projectId = projectId) = _
  split <;> rfl

/-- The project is there. -/
theorem project_iff {proj : Project} (h1 : proj ∈ d1.tables.projects)
    (h2 : proj ∈ d2.tables.projects) :
    (∀ r ∈ d1.tables.projects, r.id ≠ proj.id) ↔ ∀ r ∈ d2.tables.projects, r.id ≠ proj.id :=
  iff_of_false (fun h => h proj h1 rfl) fun h => h proj h2 rfl

/-- A flag that is not there has no versions. -/
theorem no_versions {d : Db} (h : Integrity d.tables) {id : Nat} (hfresh : ¬ Used d id) :
    d.tables.versions.flagVersions.of id = [] := by
  rw [eq_nil_iff_forall_not_mem]
  intro r hr
  obtain ⟨hr, howner⟩ := (Log.mem_of _).mp hr
  obtain ⟨f, hf, hid⟩ := h.references .versions (.flagVersion r) (mem_map_of_mem hr)
    (.flags, r.flagId) (mem_singleton_self _)
  exact hfresh ⟨.flags, f, hf, hid.trans howner⟩

theorem next_eq {ρ κ : Type} [DecidableEq κ] {owner : ρ → κ} {version : ρ → Nat}
    {l l' : Log owner version} {k : κ} (h : l.of k = l'.of k) : l.next k = l'.next k := by
  rw [Log.next, Log.next, h]

theorem latest_eq {ρ κ : Type} [DecidableEq κ] {owner : ρ → κ} {version : ρ → Nat}
    {l l' : Log owner version} {k : κ} (h : l.of k = l'.of k) : l.latest k = l'.latest k := by
  rw [Log.latest, Log.latest, h]

theorem snapshots_after (s : Mutators.Store) (p : CompileSnapshotParams) (k : Nat) :
    ((Mutators.Mutation.compileSnapshot p).after g s).versions.snapshots.of k =
      s.versions.snapshots.of k ++
        [(⟨g.id, p, s.versions.snapshots.next p.projectId⟩ : SnapshotRow)].filter
          (·.projectId = k) :=
  Log.of_append (h := rfl) k

theorem versions_after (s : Mutators.Store) (p : PublishFlagVersionParams) (k : Nat) :
    ((Mutators.Mutation.publishFlagVersion p).after g s).versions.flagVersions.of k =
      s.versions.flagVersions.of k ++
        [(⟨g.id, p, s.versions.flagVersions.next p.flagId⟩ : FlagVersionRow)].filter
          (·.flagId = k) :=
  Log.of_append (h := rfl) k

/-- The three checks of a new row of the project: its id, its key and its project. -/
theorem own_parallel {β : Type} {proj : Project} (hproj1 : proj ∈ d1.tables.projects)
    (hproj2 : proj ∈ d2.tables.projects) (hfresh1 : ¬ Used d1 g.id) (hfresh2 : ¬ Used d2 g.id)
    (hown : projectId = proj.id) (table : Table) (f : β → Mutators.Row) {rows1 rows2 : List β}
    (hrows1 : table.rows d1.tables = rows1.map f) (hrows2 : table.rows d2.tables = rows2.map f)
    {owner : β → Nat}
    (hrows : rows1.filter (fun r => owner r = proj.id) = rows2.filter (fun r => owner r = proj.id))
    (id : β → Nat) (hid : ∀ r, (f r).id = id r) (key : β → String) (k : String) :
    ((∃ r ∈ rows1, id r = g.id) ↔ ∃ r ∈ rows2, id r = g.id) ∧
      ((∃ r ∈ rows1, owner r = projectId ∧ key r = k) ↔
        ∃ r ∈ rows2, owner r = projectId ∧ key r = k) ∧
      ((∀ r ∈ d1.tables.projects, r.id ≠ projectId) ↔ ∀ r ∈ d2.tables.projects, r.id ≠ projectId) := by
  refine ⟨?_, exists_own hrows fun _ h => h.1.trans hown, hown ▸ project_iff hproj1 hproj2⟩
  simp only [← hid]
  exact iff_of_false (no_row table f hrows1 hfresh1) (no_row table f hrows2 hfresh2)

section Within

variable {proj : Project} (hpart : SamePart proj.id d1 d2)
  (hproj1 : proj ∈ d1.tables.projects) (hproj2 : proj ∈ d2.tables.projects)
  (hfresh1 : ¬ Used d1 g.id) (hfresh2 : ¬ Used d2 g.id)

include hpart

/-- A mutation of the project returns the same row where databases agree on it, -/
theorem row_parallel : ∀ {m : Mutators.Mutation}, Within d1 proj.id m →
    m.row g d1.tables = m.row g d2.tables
  | .createProject _, hm => absurd hm id
  | .createFlag _, _ => rfl
  | .createEnvironment _, _ => rfl
  | .createSegment _, _ => rfl
  | .updateSegment p, hm => by
    have hm : p.projectId = proj.id := hm
    have hfind : d1.tables.segments.find? p.selects = d2.tables.segments.find? p.selects :=
      find?_own hpart.segments fun r hr => (selects_project hr).trans hm
    rw [Mutators.Mutation.row, Mutators.Mutation.row, hfind]
  | .compileSnapshot p, ⟨hm, _⟩ => by
    rw [Mutators.Mutation.row, Mutators.Mutation.row, next_eq (hm ▸ hpart.snapshots)]
  | .publishFlagVersion p, ⟨f, hf, hfid, hown⟩ => by
    rw [Mutators.Mutation.row, Mutators.Mutation.row, next_eq (hfid ▸ hpart.versions f hf hown)]

include hfresh1 hfresh2

/-- leaves databases that agree, -/
theorem after_parallel (h1 : Integrity d1.tables) (h2 : Integrity d2.tables)
    (ev : AppendAuditParams) : ∀ {m : Mutators.Mutation}, Within d1 proj.id m →
    SamePart proj.id ⟨m.after g d1.tables, d1.audit ++ [ev]⟩ ⟨m.after g d2.tables, d2.audit ++ [ev]⟩
  | .createProject _, hm => absurd hm id
  | .createFlag p, hm =>
    { hpart with
      flags := filter_snoc hpart.flags _
      versions := by
        intro f hf hproject
        rcases mem_append.mp hf with hf | hf
        · exact hpart.versions f hf hproject
        · -- the new flag has no versions
          rw [mem_singleton.mp hf]
          exact (no_versions h1 hfresh1).trans (no_versions h2 hfresh2).symm
      audit := filter_snoc hpart.audit ev }
  | .createEnvironment p, hm =>
    { hpart with
      environments := filter_snoc hpart.environments _
      audit := filter_snoc hpart.audit ev }
  | .createSegment p, hm =>
    { hpart with
      segments := filter_snoc hpart.segments _
      audit := filter_snoc hpart.audit ev }
  | .updateSegment p, hm =>
    { hpart with
      segments := by
        show (d1.tables.segments.map _).filter _ = (d2.tables.segments.map _).filter _
        rw [filter_update p g.now, filter_update p g.now, hpart.segments]
      audit := filter_snoc hpart.audit ev }
  | .compileSnapshot p, ⟨hm, _⟩ =>
    { hpart with
      snapshots := by
        rw [snapshots_after, snapshots_after, hpart.snapshots, next_eq (hm ▸ hpart.snapshots)]
      audit := filter_snoc hpart.audit ev }
  | .publishFlagVersion p, ⟨f, hf, hfid, hown⟩ =>
    { hpart with
      versions := by
        intro f' hf' hproject
        rw [versions_after, versions_after, hpart.versions f' hf' hproject,
          next_eq (hfid ▸ hpart.versions f hf hown)]
      audit := filter_snoc hpart.audit ev }

include hproj1 hproj2

/-- and is refused for the same reasons. -/
theorem checks_parallel : ∀ {m : Mutators.Mutation}, Within d1 proj.id m →
    m.checks g d1.tables = m.checks g d2.tables
  | .createProject _, hm => absurd hm id
  | .createFlag p, hm => by
    obtain ⟨hid, hkey, hproject⟩ := own_parallel hproj1 hproj2 hfresh1 hfresh2 hm .flags .flag
      rfl rfl hpart.flags (·.id) (fun _ => rfl) (·.key) p.key
    simp only [Mutators.Mutation.checks, refuseIf_congr hid, refuseIf_congr hkey,
      refuseIf_congr hproject]
  | .createEnvironment p, hm => by
    obtain ⟨hid, hkey, hproject⟩ := own_parallel hproj1 hproj2 hfresh1 hfresh2 hm .environments
      .environment rfl rfl hpart.environments (·.id) (fun _ => rfl) (·.slug) p.slug
    simp only [Mutators.Mutation.checks, refuseIf_congr hid, refuseIf_congr hkey,
      refuseIf_congr hproject]
  | .createSegment p, hm => by
    obtain ⟨hid, hkey, hproject⟩ := own_parallel hproj1 hproj2 hfresh1 hfresh2 hm .segments .segment
      rfl rfl hpart.segments (·.id) (fun _ => rfl) (·.key) p.key
    simp only [Mutators.Mutation.checks, refuseIf_congr hid, refuseIf_congr hkey,
      refuseIf_congr hproject]
  | .updateSegment p, hm => by
    have hm : p.projectId = proj.id := hm
    have hfind : d1.tables.segments.find? p.selects = d2.tables.segments.find? p.selects :=
      find?_own hpart.segments fun r hr => (selects_project hr).trans hm
    simp only [Mutators.Mutation.checks, hfind]
  | .compileSnapshot p, ⟨hm, henv⟩ => by
    have hid : (∃ r ∈ d1.tables.versions.snapshots.rows, r.id = g.id) ↔
        ∃ r ∈ d2.tables.versions.snapshots.rows, r.id = g.id :=
      iff_of_false (no_row .snapshots .snapshot rfl hfresh1) (no_row .snapshots .snapshot rfl hfresh2)
    have hproject := project_iff hproj1 hproj2
    rw [← hm] at hproject
    -- the environment is one of the project: it is on both sides
    have henvs : (∃ e ∈ p.environmentId.toList, ∀ r ∈ d1.tables.environments, r.id ≠ e) ↔
        ∃ e ∈ p.environmentId.toList, ∀ r ∈ d2.tables.environments, r.id ≠ e := by
      refine iff_of_false ?_ ?_
      · rintro ⟨e, he, hno⟩
        obtain ⟨r, hr, hid, -⟩ := henv e (Option.mem_toList.mp he)
        exact hno r hr hid
      · rintro ⟨e, he, hno⟩
        obtain ⟨r, hr, hid, hown⟩ := henv e (Option.mem_toList.mp he)
        exact hno r ((mem_own hpart.environments (hown.trans hm)).mp hr) hid
    simp only [Mutators.Mutation.checks, snapshotRefused, refuseIf_congr hid,
      refuseIf_congr hproject, refuseIf_congr henvs]
  | .publishFlagVersion p, ⟨f, hf, hfid, hown⟩ => by
    have hid : (∃ r ∈ d1.tables.versions.flagVersions.rows, r.id = g.id) ↔
        ∃ r ∈ d2.tables.versions.flagVersions.rows, r.id = g.id :=
      iff_of_false (no_row .versions .flagVersion rfl hfresh1)
        (no_row .versions .flagVersion rfl hfresh2)
    have hflag : (∀ r ∈ d1.tables.flags, r.id ≠ p.flagId) ↔ ∀ r ∈ d2.tables.flags, r.id ≠ p.flagId :=
      iff_of_false (fun h => h f hf hfid) fun h => h f ((mem_own hpart.flags hown).mp hf) hfid
    simp only [Mutators.Mutation.checks, flagVersionRefused, refuseIf_congr hid,
      refuseIf_congr hflag]

end Within

/-- The id of a project that is not there is in no row and in no event. -/
theorem no_part (h : Whole env db V d1) {id : Nat} (hno : ¬ ∃ r ∈ d1.tables.projects, r.id = id) :
    d1.tables.environments.filter (·.projectId = id) = [] ∧
      d1.tables.flags.filter (·.projectId = id) = [] ∧
      d1.tables.segments.filter (·.projectId = id) = [] ∧
      d1.tables.versions.snapshots.of id = [] ∧
      d1.audit.filter (·.projectId = some id) = [] := by
  -- every row that has a project references it
  have href : ∀ (table : Table), ∀ row ∈ table.rows d1.tables,
      (Table.projects, id) ∉ row.references := by
    intro table row hrow hmem
    obtain ⟨r, hr, hid⟩ := h.integrity.references table row hrow _ hmem
    obtain ⟨proj, hproj, rfl⟩ := mem_map.mp hr
    exact hno ⟨proj, hproj, hid⟩
  simp only [filter_eq_nil_iff, Log.of, decide_eq_true_iff]
  refine ⟨fun r hr hid => ?_, fun r hr hid => ?_, fun r hr hid => ?_, fun r hr hid => ?_,
    fun ev hev hid => hno (event_project h hev hid)⟩
  · exact href .environments (.environment r) (mem_map_of_mem hr)
      (by simp [Mutators.Row.references, hid])
  · exact href .flags (.flag r) (mem_map_of_mem hr)
      (by simp [Mutators.Row.references, hid])
  · exact href .segments (.segment r) (mem_map_of_mem hr)
      (by simp [Mutators.Row.references, hid])
  · exact href .snapshots (.snapshot r) (mem_map_of_mem hr)
      (by simp [Mutators.Row.references, hid])

/-- Only `CreateProject` changes the projects. -/
theorem projects_after {d : Db} : ∀ {m : Mutators.Mutation}, Within d projectId m →
    (m.after g d.tables).projects = d.tables.projects
  | .createProject _, hm => absurd hm id
  | .createFlag _, _ => rfl
  | .createEnvironment _, _ => rfl
  | .createSegment _, _ => rfl
  | .updateSegment _, _ => rfl
  | .compileSnapshot _, _ => rfl
  | .publishFlagVersion _, _ => rfl

/-- What is about the project in one database is so in the other. -/
theorem within_parallel (hpart : SamePart projectId d1 d2) :
    ∀ {m : Mutators.Mutation}, Within d1 projectId m → Within d2 projectId m
  | .createProject _, hm => hm
  | .createFlag _, hm => hm
  | .createEnvironment _, hm => hm
  | .createSegment _, hm => hm
  | .updateSegment _, hm => hm
  | .compileSnapshot _, ⟨hm, henv⟩ => by
    refine ⟨hm, fun e he => ?_⟩
    obtain ⟨r, hr, hid, hown⟩ := henv e he
    exact ⟨r, (mem_own hpart.environments (hown.trans hm)).mp hr, hid, hown⟩
  | .publishFlagVersion _, ⟨f, hf, hid, hown⟩ => ⟨f, (mem_own hpart.flags hown).mp hf, hid, hown⟩

/-- The project that is created is found. -/
theorem find_new {projects : List Project} (new : Project)
    (hnone : projects.find? (·.slug = new.slug) = none) :
    (projects ++ [new]).find? (·.slug = new.slug) = some new := by
  rw [find?_append, hnone]
  simp

/-- Creating the project. -/
theorem parallel_create (h1 : Whole env db V d1) (h2 : Whole env db V d2)
    (p : CreateProjectParams) (ev : AppendAuditParams) (hagree : Agree p.slug d1 d2)
    (hfresh1 : ¬ Used d1 g.id) (hfresh2 : ¬ Used d2 g.id) :
    Agree p.slug (execute b d1 ⟨ev, .createProject p⟩ (.ok g)).1
        (execute b d2 ⟨ev, .createProject p⟩ (.ok g)).1 ∧
      (execute b d1 ⟨ev, .createProject p⟩ (.ok g)).2 =
        (execute b d2 ⟨ev, .createProject p⟩ (.ok g)).2 := by
  have hno1 := no_row .projects .project rfl hfresh1
  have hno2 := no_row .projects .project rfl hfresh2
  have hid : (∃ r ∈ d1.tables.projects, r.id = g.id) ↔ ∃ r ∈ d2.tables.projects, r.id = g.id :=
    iff_of_false hno1 hno2
  have hfind : ∀ d : Db, (∃ r ∈ d.tables.projects, r.slug = p.slug) ↔
      (d.tables.projects.find? (·.slug = p.slug)).isSome = true := by
    intro d
    rw [find?_isSome]
    simp
  have hslug : (∃ r ∈ d1.tables.projects, r.slug = p.slug) ↔
      ∃ r ∈ d2.tables.projects, r.slug = p.slug := by
    rw [hfind, hfind, hagree.project]
  have hchecks : (Mutators.Mutation.createProject p).checks g d1.tables =
      (Mutators.Mutation.createProject p).checks g d2.tables := by
    simp only [Mutators.Mutation.checks, refuseIf_congr hid, refuseIf_congr hslug]
  rcases hok : (Mutators.Mutation.createProject p).checks g d1.tables with r | _
  · rw [execute_refused hok, execute_refused (hchecks ▸ hok)]
    exact ⟨hagree, rfl⟩
  · rw [execute_done hok, execute_done (hchecks ▸ hok)]
    simp only [Mutators.Mutation.checks, Fallible.seq_eq_ok] at hok
    have hnone : d1.tables.projects.find? (·.slug = p.slug) = none := by
      rw [← Option.not_isSome_iff_eq_none, ← hfind]
      exact refuseIf_ok.mp hok.2.2.2
    have hnew : ∀ d : Db, d.tables.projects.find? (·.slug = p.slug) = none →
        ((Mutators.Mutation.createProject p).after g d.tables).projects.find? (·.slug = p.slug) =
          some ⟨g.id, p.slug, p.displayName, p.strategy, g.now, g.now⟩ :=
      fun _ => find_new ⟨g.id, p.slug, p.displayName, p.strategy, g.now, g.now⟩
    refine ⟨⟨?_, fun proj hproj => ?_⟩, rfl⟩
    · exact (hnew d1 hnone).trans (hnew d2 (hagree.project ▸ hnone)).symm
    · rw [show (_ : Option Project) = _ from hnew d1 hnone] at hproj
      cases hproj
      obtain ⟨he1, hf1, hs1, hn1, ha1⟩ := no_part h1 hno1
      obtain ⟨he2, hf2, hs2, hn2, ha2⟩ := no_part h2 hno2
      exact
        { environments := he1.trans he2.symm
          flags := hf1.trans hf2.symm
          segments := hs1.trans hs2.symm
          snapshots := hn1.trans hn2.symm
          versions := by
            intro f hf hproject
            have hmem : f ∈ d1.tables.flags.filter (·.projectId = g.id) :=
              mem_filter.mpr ⟨hf, decide_eq_true hproject⟩
            rw [hf1] at hmem
            exact absurd hmem not_mem_nil
          audit := filter_snoc (ha1.trans ha2.symm) ev }

/-- **A transaction about the project** has the same result where databases agree on the project, and
    leaves databases that agree on it. -/
theorem parallel_execute {slug : String} {t : Audited} (h1 : Whole env db V d1) (h2 : Whole env db V d2)
    (ht : Addressed slug d1 t) (hagree : Agree slug d1 d2) {w : Fate}
    (hfresh1 : (drawn b).Fresh d1 w) (hfresh2 : (drawn b).Fresh d2 w) :
    Agree slug (execute b d1 t w).1 (execute b d2 t w).1 ∧
      (execute b d1 t w).2 = (execute b d2 t w).2 := by
  rcases w with e | g
  · exact ⟨hagree, rfl⟩
  have hfresh1 : ¬ Used d1 g.id := hfresh1 g.id rfl
  have hfresh2 : ¬ Used d2 g.id := hfresh2 g.id rfl
  cases ht with
  | within proj hproj hslug hevent hm =>
    obtain ⟨hpart, hproj2⟩ := hagree.own h1.integrity hproj hslug
    have hchecks := checks_parallel hpart hproj hproj2 hfresh1 hfresh2 hm
    rcases hok : t.mutation.checks g d1.tables with r | _
    · rw [execute_refused hok, execute_refused (hchecks ▸ hok)]
      exact ⟨hagree, rfl⟩
    · rw [execute_done hok, execute_done (hchecks ▸ hok), row_parallel hpart hm]
      refine ⟨⟨?_, fun proj' hproj' => ?_⟩, rfl⟩
      · show (t.mutation.after g d1.tables).projects.find? _ =
          (t.mutation.after g d2.tables).projects.find? _
        rw [projects_after hm, projects_after (within_parallel hpart hm)]
        exact hagree.project
      · have hfind := find_project h1.integrity hproj
        change (t.mutation.after g d1.tables).projects.find? _ = _ at hproj'
        rw [projects_after hm, ← hslug, hfind] at hproj'
        cases hproj'
        exact after_parallel hpart hfresh1 hfresh2 h1.integrity h2.integrity t.event hm
  | creates p ht hslug hevent =>
    obtain ⟨ev, m⟩ := t
    subst ht hslug
    exact parallel_create h1 h2 p ev hagree hfresh1 hfresh2

end Parallel

/-! ## Transactions of other projects -/

section Other

variable {env : Env} {db : Medium} {V : Db → Prop} {b : Backend} {d : Db} {g : Given}

/-- A mutation of one project leaves the part of another alone. -/
theorem after_other (h : Integrity d.tables) {other projectId : Nat}
    (hne : other ≠ projectId) {ev : AppendAuditParams} (hevent : ev.projectId = some other) :
    ∀ {m : Mutators.Mutation}, Within d other m →
      SamePart projectId d ⟨m.after g d.tables, d.audit ++ [ev]⟩ := by
  have haudit : d.audit.filter (·.projectId = some projectId) =
      (d.audit ++ [ev]).filter (·.projectId = some projectId) :=
    (filter_snoc_other (by rw [hevent]; simpa using hne) d.audit).symm
  intro m hm
  cases m with
  | createProject p => exact absurd hm id
  | createFlag p =>
    exact ⟨rfl, (filter_snoc_other (by rw [show p.projectId = other from hm]; simpa using hne) _).symm,
      rfl, rfl, fun _ _ _ => rfl, haudit⟩
  | createEnvironment p =>
    exact ⟨(filter_snoc_other (by rw [show p.projectId = other from hm]; simpa using hne) _).symm,
      rfl, rfl, rfl, fun _ _ _ => rfl, haudit⟩
  | createSegment p =>
    exact ⟨rfl, rfl,
      (filter_snoc_other (by rw [show p.projectId = other from hm]; simpa using hne) _).symm,
      rfl, fun _ _ _ => rfl, haudit⟩
  | updateSegment p =>
    refine ⟨rfl, rfl, ?_, rfl, fun _ _ _ => rfl, haudit⟩
    -- none of the segments of the project is selected
    show _ = (d.tables.segments.map _).filter _
    rw [filter_update p g.now]
    refine (map_congr_left fun r hr => ?_).trans (map_id _) |>.symm
    have hr : r.projectId = projectId := by simpa using (mem_filter.mp hr).2
    have hsel : ¬ p.selects r = true := by
      intro hsel
      exact hne ((show p.projectId = other from hm) ▸ (selects_project hsel) ▸ hr)
    exact if_neg hsel
  | compileSnapshot p =>
    obtain ⟨hm, -⟩ := hm
    refine ⟨rfl, rfl, rfl, ?_, fun _ _ _ => rfl, haudit⟩
    rw [snapshots_after, filter_cons_of_neg (by simp [SnapshotRow.projectId, hm, hne]),
      filter_nil, append_nil]
  | publishFlagVersion p =>
    obtain ⟨f, hf, hfid, hown⟩ := hm
    refine ⟨rfl, rfl, rfl, rfl, fun f' hf' hproject => ?_, haudit⟩
    -- a flag of the project is not the one that is published
    have hflag : p.flagId ≠ f'.id := by
      intro heq
      have := h.flag_of_id hf hf' (hfid.trans heq)
      subst this
      exact hne (hown.symm.trans hproject)
    rw [versions_after, filter_cons_of_neg (by simp [FlagVersionRow.flagId, hflag]),
      filter_nil, append_nil]

/-- **A transaction about another project** leaves the project alone. -/
theorem other_execute (h : Whole env db V d) {slug other : String} (hne : other ≠ slug) {t : Audited}
    (ht : Addressed other d t) (w : Fate) : Agree slug d (execute b d t w).1 := by
  rcases w with e | g
  · exact Agree.refl slug d
  rcases hok : t.mutation.checks g d.tables with r | _
  · rw [execute_refused hok]
    exact Agree.refl slug d
  rw [execute_done hok]
  cases ht with
  | within proj hproj hslug hevent hm =>
    refine ⟨?_, fun mine hmine => ?_⟩
    · show _ = (t.mutation.after g d.tables).projects.find? _
      rw [projects_after hm]
    · have hmem := mem_of_find?_eq_some hmine
      have hids : proj.id ≠ mine.id := by
        intro heq
        have := h.integrity.project_of_id hproj hmem heq
        subst this
        have hfound := find?_some hmine
        rw [decide_eq_true_iff] at hfound
        exact hne (hslug.symm.trans hfound)
      exact after_other h.integrity hids hevent hm
  | creates p hp hslug hevent =>
    obtain ⟨ev, m⟩ := t
    subst hp
    refine ⟨?_, fun mine _ => ?_⟩
    · show _ = (d.tables.projects ++ [_]).find? _
      rw [find?_append, find?_cons_of_neg (by rw [hslug]; simpa using hne), find?_nil,
        Option.or_none]
    · exact ⟨rfl, rfl, rfl, rfl, fun _ _ _ => rfl, (filter_snoc_other (by rw [hevent]; rfl) _).symm⟩

end Other

/-! ## What handlers read -/

/-- The handler reads nothing but what is of the project. -/
abbrev SeesOnly {α : Type} (env : Env) (db : Medium) (b : Backend) (slug : String) (p : Handler α)
    (d : Db) : Prop :=
  ReadsAlike (contract env db b) (Agree slug) p d

section Reads

variable {env : Env} {db : Medium} {V : Db → Prop} {b : Backend} {slug : String} {d : Db}

variable {β : Type}

theorem selectOne_congr {query : Mutators.Store → Option β} {d1 d2 : Db}
    (h : query d1.tables = query d2.tables) (text : String) (fault : Option ReadFault) :
    selectOne text query (seen fault d1) = selectOne text query (seen fault d2) := by
  rcases fault with _ | f
  · simp only [seen, selectOne, h]
  · rfl

theorem selectMany_congr {query : Mutators.Store → List β} {d1 d2 : Db}
    (h : query d1.tables = query d2.tables) (text : String) (fault : Option ReadFault) :
    selectMany text query (seen fault d1) = selectMany text query (seen fault d2) := by
  rcases fault with _ | f
  · simp only [seen, selectMany, h]
  · rfl

theorem readsAlike_withRow {text : String} {query : Mutators.Store → Option β}
    {k : β → Handler RestResponse}
    (hquery : ∀ d1 d2, Whole env db (fun _ => True) d1 → Grows d d1 → Agree slug d1 d2 →
      query d1.tables = query d2.tables)
    (hk : ∀ d' row, Grows d d' → query d'.tables = some row →
      SeesOnly env db b slug (k row) d') :
    SeesOnly env db b slug (Rest.withRow (selectOne text query) k) d := by
  intro d1 d2 h1 _ hgrows hagree fault
  beta_reduce
  rw [← selectOne_congr (hquery d1 d2 h1 hgrows hagree)]
  refine ⟨rfl, ?_⟩
  rcases fault with _ | f
  · rw [seen]
    rcases hq : query d1.tables with _ | row
    · simp only [selectOne, hq]
      trivial
    · simp only [selectOne, hq]
      exact hk d1 row hgrows hq
  · trivial

/-- A list is the last that is read. -/
theorem readsAlike_withRows {query : Except ReadFault Db → Except DbError (List β)}
    {k : List β → RestResponse}
    (hquery : ∀ d1 d2, Whole env db (fun _ => True) d1 → Grows d d1 → Agree slug d1 d2 → ∀ fault,
      query (seen fault d1) = query (seen fault d2)) :
    SeesOnly env db b slug (Rest.withRows query fun rows => .answer (k rows))
      d := by
  intro d1 d2 h1 _ hgrows hagree fault
  beta_reduce
  rw [← hquery d1 d2 h1 hgrows hagree fault]
  refine ⟨rfl, ?_⟩
  rcases query (seen fault d1) with e | rows
  · trivial
  · trivial

theorem readsAlike_withBody {body : Body β} {k : β → Handler RestResponse}
    (hk : ∀ req, SeesOnly env db b slug (k req) d) :
    SeesOnly env db b slug (Rest.withBody body k) d := by
  rcases body with text | req
  · trivial
  · exact hk req

/-- The project of the request is read first: what follows may rely on it. -/
theorem readsAlike_withProject {k : Project → Handler RestResponse}
    (hk : ∀ d' proj, proj ∈ d'.tables.projects → proj.slug = slug →
      SeesOnly env db b slug (k proj) d') :
    SeesOnly env db b slug (Rest.withProject slug k) d := by
  refine readsAlike_withRow (fun _ _ _ _ hagree => hagree.project) fun d' proj _ hfind => ?_
  have hslug := find?_some hfind
  rw [decide_eq_true_iff] at hslug
  exact hk d' proj (mem_of_find?_eq_some hfind) hslug

section Own

variable {proj : Project} (hproj : proj ∈ d.tables.projects) (hslug : proj.slug = slug)

include hproj hslug

/-- From then on databases that agree have the same part of the project. -/
theorem samePart_later {d1 d2 : Db} (h1 : Whole env db V d1) (hgrows : Grows d d1)
    (hagree : Agree slug d1 d2) : SamePart proj.id d1 d2 :=
  (hagree.own h1.integrity (Grows.project hgrows hproj) hslug).1

theorem readsAlike_withFlag {key : String} {k : Mutators.Flag → Handler RestResponse}
    (hk : ∀ d' flag, proj ∈ d'.tables.projects →
      (∃ f ∈ d'.tables.flags, f.id = flag.id ∧ f.projectId = proj.id) →
      SeesOnly env db b slug (k flag) d') :
    SeesOnly env db b slug (Rest.withFlag db proj.id key k) d := by
  refine readsAlike_withRow (fun d1 d2 h1 hgrows hagree => ?_) fun d' flag hgrows hflag => ?_
  · have hpart := samePart_later hproj hslug h1 hgrows hagree
    rw [find?_own hpart.flags fun r hr => (of_decide_eq_true hr).1]
  · obtain ⟨f, hf, hid, hown, -⟩ := flag_of_getFlagByKey hflag
    exact hk d' flag (Grows.project hgrows hproj) ⟨f, hf, hid, hown⟩

/-- A flag of the project has the same versions in databases that agree. -/
theorem versions_later {flagId : Nat} (hflag : ∃ f ∈ d.tables.flags, f.id = flagId ∧
    f.projectId = proj.id) {d1 d2 : Db} (h1 : Whole env db V d1) (hgrows : Grows d d1)
    (hagree : Agree slug d1 d2) :
    d1.tables.versions.flagVersions.of flagId = d2.tables.versions.flagVersions.of flagId := by
  obtain ⟨f, hf, rfl, hown⟩ := hflag
  exact (samePart_later hproj hslug h1 hgrows hagree).versions f (Grows.flag hgrows hf) hown

/-- A read of the latest version of a flag of the project, the last of its handler. -/
theorem latest_readsAlike {flag : Mutators.Flag}
    (hflag : ∃ f ∈ d.tables.flags, f.id = flag.id ∧ f.projectId = proj.id)
    {p : Except ReadFault Db → Handler RestResponse}
    (hp : ∀ r r', getLatestFlagVersion db flag.id r = getLatestFlagVersion db flag.id r' → p r = p r')
    (hlast : ∀ r d', SeesOnly env db b slug (p r) d') :
    SeesOnly env db b slug (.read p) d := by
  intro d1 d2 h1 _ hgrows hagree fault
  have hlatest := latest_eq (versions_later hproj hslug hflag h1 hgrows hagree)
  have hread : getLatestFlagVersion db flag.id (seen fault d1) =
      getLatestFlagVersion db flag.id (seen fault d2) :=
    selectOne_congr (by rw [hlatest]) _ fault
  exact ⟨hp _ _ hread, hlast _ _⟩

/-- The segments of a source are those of the project. -/
theorem resolveSegment_eq {d1 d2 : Db} (h1 : Whole env db V d1) (hgrows : Grows d d1)
    (hagree : Agree slug d1 d2) (fault : Option ReadFault) :
    resolveSegment env db proj.id (seen fault d1) = resolveSegment env db proj.id (seen fault d2) := by
  have hpart := samePart_later hproj hslug h1 hgrows hagree
  have htext : faultText (seen fault d1) = faultText (seen fault d2) := by
    rcases fault with _ | f
    · rfl
    · rfl
  funext key
  have hread : getSegmentByKey db proj.id key (seen fault d1) =
      getSegmentByKey db proj.id key (seen fault d2) := by
    refine selectOne_congr ?_ _ fault
    rw [find?_own hpart.segments fun r hr => (of_decide_eq_true hr).1]
  simp only [resolveSegment, hread, htext]

theorem compileAndInsert_readsAlike (actor : String) (envId : Option Nat) :
    SeesOnly env db b slug (Rest.compileAndInsert env db actor proj.id envId)
      d := by
  intro d1 d2 h1 _ hgrows hagree fault
  have hpart := samePart_later hproj hslug h1 hgrows hagree
  have hread : listLatestFlagVersions db proj.id (seen fault d1) =
      listLatestFlagVersions db proj.id (seen fault d2) := by
    refine selectMany_congr ?_ _ fault
    rw [← hpart.flags]
    refine filterMap_congr fun flag hflag => ?_
    obtain ⟨hmem, hown⟩ := mem_filter.mp hflag
    rw [latest_eq (hpart.versions flag hmem (of_decide_eq_true hown))]
  have hbundle : compileBundle env db proj.id (seen fault d1) =
      compileBundle env db proj.id (seen fault d2) := by
    rw [compileBundle, compileBundle, hread]
  beta_reduce
  rw [← hbundle]
  refine ⟨rfl, ?_⟩
  rcases compileBundle env db proj.id (seen fault d1) with failure | flags
  · trivial
  · trivial

/-- The environment of a snapshot is one of the project. -/
theorem environment_readsAlike {envSlug actor : String} :
    SeesOnly env db b slug
      (.read fun r =>
        match getEnvironmentBySlug proj.id envSlug r with
        | .error err =>
          if err.is .notFound then
            .answer (Rest.badRequest ("environment " ++ env.quote envSlug ++ " does not exist"))
          else .answer (.error 500 (.store err))
        | .ok e => Rest.compileAndInsert env db actor proj.id (some e.id) : Handler RestResponse)
      d := by
  intro d1 d2 h1 _ hgrows hagree fault
  have hpart := samePart_later hproj hslug h1 hgrows hagree
  have hread : getEnvironmentBySlug proj.id envSlug (seen fault d1) =
      getEnvironmentBySlug proj.id envSlug (seen fault d2) := by
    refine selectOne_congr ?_ _ fault
    rw [find?_own hpart.environments fun r hr => (of_decide_eq_true hr).1]
  beta_reduce
  rw [← hread]
  refine ⟨rfl, ?_⟩
  rcases getEnvironmentBySlug proj.id envSlug (seen fault d1) with e | r
  · simp only
    split <;> trivial
  · exact compileAndInsert_readsAlike (Grows.project hgrows hproj) hslug actor (some r.id)

end Own

theorem readsAlike_listOf
    {query : Nat → Except ReadFault Db → Except DbError (List β)} {reply : List β → Reply}
    (hquery : ∀ {id : Nat} (d1 d2 : Db), SamePart id d1 d2 → ∀ fault,
      query id (seen fault d1) = query id (seen fault d2)) :
    SeesOnly env db b slug (Rest.listOf query reply slug) d :=
  readsAlike_withProject fun _ _ hproj hslug =>
    readsAlike_withRows fun d1 d2 h1 hgrows hagree =>
      hquery d1 d2 (samePart_later hproj hslug h1 hgrows hagree)

theorem publishFlagVersion_readsAlike (fuel : Nat) (key actor : String)
    (body : Body PublishFlagVersionRequest) :
    SeesOnly env db b slug
      (Rest.publishFlagVersion env db fuel slug key actor body) d := by
  refine readsAlike_withProject fun d' proj hproj hslug => ?_
  refine readsAlike_withFlag hproj hslug fun d' flag hproj _ => readsAlike_withBody fun req => ?_
  rcases Strategy.parse req.strategy with _ | strategy
  · trivial
  · intro d1 d2 h1 _ hgrows hagree fault
    beta_reduce
    rw [← resolveSegment_eq hproj hslug h1 hgrows hagree fault]
    refine ⟨rfl, ?_⟩
    rcases resolveSegmentRefs env (resolveSegment env db proj.id (seen fault d1)) fuel _ with
      _ | err | resolved
    · trivial
    · trivial
    · simp only
      rcases compile env (.known strategy) resolved with err | compiled
      · simp only
        split <;> trivial
      · trivial

theorem loadEvaluation_readsAlike (key : String) (body : Body Context)
    (k : Compiled → Nat → Context → RestResponse) :
    SeesOnly env db b slug (Rest.loadEvaluation env db slug key body k) d := by
  refine readsAlike_withProject fun d' proj hproj hslug => ?_
  refine readsAlike_withFlag hproj hslug fun d' flag hproj hflag => ?_
  refine readsAlike_withRow (fun d1 d2 h1 hgrows hagree => ?_) fun _ version _ _ =>
    readsAlike_withBody fun ctx => ?_
  · rw [latest_eq (versions_later hproj hslug hflag h1 hgrows hagree)]
  · split <;> trivial

/-- **A handler reads nothing of other projects** than the one its request is addressed to. -/
theorem rest_readsAlike {r : RestRequest} (h : r.slug = some slug) :
    SeesOnly env db b slug (rest env db b r) d := by
  cases r with
  | listProjects => cases h
  | listEnvironments s =>
    cases h
    refine readsAlike_listOf fun _ _ hpart fault => selectMany_congr ?_ _ fault
    rw [hpart.environments]
  | listFlags s =>
    cases h
    refine readsAlike_listOf fun _ _ hpart fault => selectMany_congr ?_ _ fault
    rw [hpart.flags]
  | listSegments s =>
    cases h
    refine readsAlike_listOf fun _ _ hpart fault => selectMany_congr ?_ _ fault
    rw [hpart.segments]
  | getProject s =>
    cases h
    exact readsAlike_withProject fun _ _ _ _ => trivial
  | createProject actor body =>
    rcases body with text | req
    · trivial
    · rw [rest, Rest.createProject, Rest.withBody]
      rcases Strategy.parse req.configStrategy with _ | strategy
      · trivial
      · trivial
  | getEnvironment s envSlug =>
    cases h
    refine readsAlike_withProject fun d' proj hproj hslug =>
      readsAlike_withRow (fun d1 d2 h1 hgrows hagree => ?_) fun _ _ _ _ => trivial
    have hpart := samePart_later hproj hslug h1 hgrows hagree
    exact find?_own hpart.environments fun r hr => (of_decide_eq_true hr).1
  | createEnvironment s actor body =>
    cases h
    exact readsAlike_withProject fun _ _ _ _ => readsAlike_withBody fun _ => trivial
  | getFlag s key =>
    cases h
    refine readsAlike_withProject fun d' proj hproj hslug =>
      readsAlike_withFlag hproj hslug fun d' flag hproj hflag =>
        latest_readsAlike hproj hslug hflag (fun r r' hr => ?_) fun r _ => ?_
    · rw [hr]
    · rcases getLatestFlagVersion db flag.id r with e | v
      · simp only
        split <;> trivial
      · trivial
  | createFlag s actor body =>
    cases h
    exact readsAlike_withProject fun _ _ _ _ => readsAlike_withBody fun _ => trivial
  | publishFlagVersion fuel s key actor body =>
    cases h
    exact publishFlagVersion_readsAlike fuel key actor body
  | listFlagVersions s key =>
    cases h
    refine readsAlike_withProject fun d' proj hproj hslug =>
      readsAlike_withFlag hproj hslug fun d' flag hproj hflag =>
        readsAlike_withRows fun d1 d2 h1 hgrows hagree fault => selectMany_congr ?_ _ fault
    rw [versions_later hproj hslug hflag h1 hgrows hagree]
  | getSegment s segKey =>
    cases h
    refine readsAlike_withProject fun d' proj hproj hslug =>
      readsAlike_withRow (fun d1 d2 h1 hgrows hagree => ?_) fun _ _ _ _ => trivial
    have hpart := samePart_later hproj hslug h1 hgrows hagree
    rw [find?_own hpart.segments fun r hr => (of_decide_eq_true hr).1]
  | createSegment s actor body =>
    cases h
    refine readsAlike_withProject fun _ _ _ _ => readsAlike_withBody fun req => ?_
    rcases normalizePredicate env req.predicate with text | predicate
    · trivial
    · trivial
  | updateSegment s segKey actor body =>
    cases h
    refine readsAlike_withProject fun _ _ _ _ => readsAlike_withBody fun req => ?_
    rcases normalizePredicate env req.predicate with text | predicate
    · trivial
    · trivial
  | listSnapshots s limit =>
    cases h
    rw [rest, Rest.listSnapshots]
    refine readsAlike_listOf fun _ _ hpart fault => ?_
    rcases fault with _ | f
    · simp only [listSnapshotsByProject, seen, selectMany, hpart.snapshots]
    · rfl
  | getLatestSnapshot s =>
    cases h
    refine readsAlike_withProject fun d' proj hproj hslug =>
      readsAlike_withRow (fun d1 d2 h1 hgrows hagree => ?_) fun _ _ _ _ => trivial
    rw [latest_eq (samePart_later hproj hslug h1 hgrows hagree).snapshots]
  | getSnapshot s id =>
    cases h
    refine readsAlike_withProject fun d' proj hproj hslug =>
      readsAlike_withRow (fun d1 d2 h1 hgrows hagree => ?_) fun _ _ _ _ => trivial
    rw [(samePart_later hproj hslug h1 hgrows hagree).snapshots]
  | compileSnapshot s actor body =>
    cases h
    refine readsAlike_withProject fun d' proj hproj hslug => ?_
    rcases body with _ | body
    · exact compileAndInsert_readsAlike hproj hslug actor none
    · refine readsAlike_withBody fun environmentSlug => ?_
      split
      · exact compileAndInsert_readsAlike hproj hslug actor none
      · exact compileAndInsert_readsAlike hproj hslug actor none
      · exact environment_readsAlike hproj hslug
  | evaluateFlag s key body =>
    cases h
    rw [rest, Rest.evaluateFlag]
    exact loadEvaluation_readsAlike key body _
  | evaluateFlagWithTrace s key body =>
    cases h
    rw [rest, Rest.evaluateFlagWithTrace]
    exact loadEvaluation_readsAlike key body _

/-- So over Connect. -/
theorem serve_readsAlike {req : Request} (h : req.slug = some slug) :
    SeesOnly env db b slug (serve env db b req) d := by
  cases req with
  | rest r => exact (rest_readsAlike h).map
  | connect c =>
    rcases toRest_cases c with ⟨r, hr⟩ | ⟨s, text, rfl⟩
    · rw [serve, connect_eq_map hr]
      exact ((rest_readsAlike ((slug_connect hr).symm.trans h)).map).map
    · cases h
      refine ReadsAlike.map ?_
      intro d1 d2 _ _ _ hagree fault
      have hread : getProjectBySlug slug (seen fault d1) = getProjectBySlug slug (seen fault d2) :=
        selectOne_congr hagree.project _ fault
      beta_reduce
      rw [← hread]
      refine ⟨rfl, ?_⟩
      rcases getProjectBySlug slug (seen fault d1) with e | proj
      · trivial
      · trivial

end Reads

/-! ## Whole runs -/

/-- Nothing is in an empty database. -/
theorem not_used_empty (id : Nat) : ¬ Used emptyDb id := by
  rintro ⟨table, row, hrow, -⟩
  cases table <;> cases hrow

/-- Requests of the project see only it, and all others leave it alone. -/
theorem alike_pool (env : Env) (db : Medium) (b : Backend) (slug : String) (reqs : Nat → Request)
    {d : Db} (h : Whole env db (fun _ => True) d) :
    Alike (contract env db b) (Agree slug) (drawn b).Fresh (fun i => (reqs i).slug = some slug)
      (pool env db b reqs d) (pool env db b reqs d) where
  left := kept_pool b h reqs
  right := kept_pool b h reqs
  stores := Agree.refl slug d
  same _ _ := rfl
  blind i hi := by
    refine blind_of_readsAlike (contract env db b)
      (contractWith env db b (AddressedTo (reqs i).slug) fun _ => True)
      (fun _ h => h) (fun _ _ h => h) ?_ (serve_readsAlike hi) (serve_addressed (reqs i))
    rintro d1 d2 t w h1 h2 ⟨-, x, hx, ht⟩ hagree hfresh1 hfresh2
    rw [hi] at hx
    cases hx
    exact parallel_execute h1 h2 ht hagree hfresh1 hfresh2
  silent i hi := by
    refine silent_of_meets (contract env db b)
      (contractWith env db b (AddressedTo (reqs i).slug) fun _ => True)
      (fun _ h => h) (fun _ _ h => h) ?_ (serve_addressed (reqs i))
    rintro d1 d2 t w h1 - ⟨-, x, hx, ht⟩ hagree -
    have hne : x ≠ slug := fun heq => hi (heq ▸ hx)
    exact (other_execute h1 hne ht w).symm.trans hagree

/-- **Projects are isolated.**  Let any requests run at once from an empty database, over both
    surfaces, interleaved in any way, with reads and transactions that may fail, and ids that are
    drawn once.  Take the requests that are addressed to one project, and the run that is left of
    it when all others never take their turns.  They go through the same states to the same
    answers, and the two databases agree on the project: on its row, its environments, flags,
    segments and snapshots, the versions of its flags and its events. -/
theorem projects_isolated (env : Env) (db : Medium) (b : Backend) (slug : String)
    (reqs : Nat → Request) (es : List (Turn ReadFault Fate))
    (hids : (es.filterMap fun e => drawnId e.fate).Nodup) :
    Agree slug (run env db b reqs emptyDb es).store
        (run env db b reqs emptyDb
          (es.filter fun e => (reqs e.who).slug = some slug)).store ∧
      ∀ i, (reqs i).slug = some slug →
        (run env db b reqs emptyDb es).procs i =
          (run env db b reqs emptyDb
            (es.filter fun e => (reqs e.who).slug = some slug)).procs i := by
  have hdistinct : (drawn b).Distinct es :=
    (pairwise_filterMap.mp hids).imp fun h x hx hx' => h x hx x hx' rfl
  have halike := noninterference (drawn b) (fun _ => trivial) es
    (alike_pool env db b slug reqs (whole_empty env db trivial)) hdistinct
    fun e _ => ⟨fun x _ => not_used_empty x, fun x _ => not_used_empty x⟩
  exact ⟨halike.stores, halike.same⟩

/-- Two projects with a flag of the same key. -/
def twoProjects : Nat → Request
  | 0 => .rest (.createProject "ada" (.ok ⟨"shop", "Shop", "json"⟩))
  | 1 => .rest (.createProject "bob" (.ok ⟨"blog", "Blog", "cel"⟩))
  | 2 => .rest (.createFlag "shop" "ada" (.ok ⟨"banner", "Banner", none, "boolean", .bool false⟩))
  | 3 => .rest (.createFlag "blog" "bob" (.ok ⟨"banner", "Blog banner", none, "string", .str "hi"⟩))
  | _ => .connect (.getFlag "shop" "banner")

/-- The flag that the shop gets is not the one of the blog, which was created before. -/
theorem shop_is_isolated :
    (run .plain .sorted .sqlite twoProjects emptyDb
        [turnOf 1 1, turnOf 0 2, turnOf 3 3, turnOf 2 4, turnOf 3 5, turnOf 2 6, turnOf 4 7,
          turnOf 4 8, turnOf 4 9]).procs 4 =
      (run .plain .sorted .sqlite twoProjects emptyDb
        [turnOf 0 2, turnOf 2 4, turnOf 2 6, turnOf 4 7, turnOf 4 8, turnOf 4 9]).procs 4 :=
  (projects_isolated .plain .sorted .sqlite "shop" twoProjects
    [turnOf 1 1, turnOf 0 2, turnOf 3 3, turnOf 2 4, turnOf 3 5, turnOf 2 6, turnOf 4 7, turnOf 4 8,
      turnOf 4 9] (by decide)).2 4 rfl

end FalseFlag.Server
