/-
  The audit log tells the history of the tables (internal/server/handlers, internal/server/rpc,
  internal/store).

  Between the reads of a handler and its transaction other requests run.  The schema checks ids, keys
  and references, but not that the environment of a snapshot belongs to its project, that a version
  is the IR of anything, or that the audit event speaks of the row that is inserted with it: these
  rest on what the handlers do.

  `contract` is what they rely on and guarantee.  A transaction is allowed if its event describes its
  mutation (`Sound`); that was so when the handler last read, and stays so, since tables only grow.

  * **`audit_tells_history`** — in every interleaving of requests of both surfaces, whatever fails:
    the events are readable; those about a table list its rows, one each, in order; and the tables
    are whole, also where no constraint of the schema sees to it.
-/
import FalseFlag.Server.Once

namespace FalseFlag.Server

open List JsonTree Processes Versioned Runs Mutators Contract
open Mutators (Table tx_ok)

/-! ## What an event says -/

/-- An entry of the journal. -/
inductive Entry where
  | project (slug : String)
  | environment (projectId : Nat) (slug : String)
  | flag (projectId : Nat) (key : String)
  | segment (projectId : Nat) (key : String)
  | update (projectId : Nat) (key : String)
  | version (projectId flagId : Nat) (flagKey strategy : String)
  | snapshot (projectId flagCount : Nat)

/-- The event that a handler writes. -/
def Entry.event (actor : String) : Entry → AppendAuditParams
  | .project slug => createProjectEvent actor slug
  | .environment projectId slug => createEnvironmentEvent projectId actor slug
  | .flag projectId key => createFlagEvent projectId actor key
  | .segment projectId key => createSegmentEvent projectId actor key
  | .update projectId key => updateSegmentEvent projectId actor key
  | .version projectId flagId flagKey strategy =>
    publishVersionEvent projectId flagId actor strategy flagKey
  | .snapshot projectId flagCount => compileSnapshotEvent projectId actor flagCount

/-- The event, read. -/
def entryOf (ev : AppendAuditParams) : Option Entry :=
  match ev.action, ev.projectId, ev.flagId, ev.payload with
  | "create_project", none, none, .obj [("slug", .str slug)] => some (.project slug)
  | "create_environment", some pid, none, .obj [("slug", .str slug)] => some (.environment pid slug)
  | "create_flag", some pid, none, .obj [("key", .str key)] => some (.flag pid key)
  | "create_segment", some pid, none, .obj [("key", .str key)] => some (.segment pid key)
  | "update_segment", some pid, none, .obj [("key", .str key)] => some (.update pid key)
  | "publish_version", some pid, some flagId,
      .obj [("flag_key", .str flagKey), ("strategy", .str strategy)] =>
    some (.version pid flagId flagKey strategy)
  | "compile_snapshot", some pid, none, .obj [("flag_count", .num (.int (.ofNat n)))] =>
    some (.snapshot pid n)
  | _, _, _, _ => none

/-- What a handler writes is read as it was meant. -/
theorem entryOf_event (actor : String) (e : Entry) : entryOf (e.event actor) = some e := by
  cases e <;> rfl

/-- The project that an entry is about. -/
def Entry.projectId : Entry → Option Nat
  | .project _ => none
  | .environment pid _ | .flag pid _ | .segment pid _ | .update pid _ | .version pid _ _ _
  | .snapshot pid _ => some pid

variable {e : Entry}

theorem projectId_of_entryOf {ev : AppendAuditParams} (h : entryOf ev = some e) :
    ev.projectId = e.projectId := by
  unfold entryOf at h
  split at h <;> cases h <;> assumption

/-- The table that gets a row. -/
def Entry.creates : Entry → Option Table
  | .project _ => some .projects
  | .environment _ _ => some .environments
  | .flag _ _ => some .flags
  | .segment _ _ => some .segments
  | .update _ _ => none
  | .version _ _ _ _ => some .versions
  | .snapshot _ _ => some .snapshots

/-- The entry describes the row. -/
inductive Entry.Tells (d : Db) : Entry → Mutators.Row → Prop
  | project (r : Project) : Tells d (.project r.slug) (.project r)
  | environment (r : Environment) :
    Tells d (.environment r.projectId r.slug) (.environment r)
  | flag (r : Mutators.Flag) : Tells d (.flag r.projectId r.key) (.flag r)
  | segment (r : Mutators.Segment) : Tells d (.segment r.projectId r.key) (.segment r)
  | version (r : FlagVersionRow) (f : Mutators.Flag) (hf : f ∈ d.tables.flags)
      (hid : f.id = r.flagId) :
    Tells d (.version f.projectId f.id f.key r.params.strategy) (.flagVersion r)
  | snapshot (r : SnapshotRow) (flags : List (String × RulesTree))
      (hcompiled : r.params.compiled = encodeBundle flags) :
    Tells d (.snapshot r.projectId flags.length) (.snapshot r)

variable {d : Db}

theorem Entry.Tells.grows {d' : Db} (h : Grows d d') {row : Mutators.Row}
    (htells : e.Tells d row) : e.Tells d' row := by
  cases htells with
  | project r => exact .project r
  | environment r => exact .environment r
  | flag r => exact .flag r
  | segment r => exact .segment r
  | version r f hf hid => exact .version r f (h.flag hf) hid
  | snapshot r flags hcompiled => exact .snapshot r flags hcompiled

/-- An update of a segment does not make its entry wrong. -/
theorem Entry.Tells.fixed {row row' : Mutators.Row} (h : e.Tells d row)
    (hfixed : row'.fixed = row.fixed) : e.Tells d row' := by
  by_cases ht : row'.table = .segments
  · cases row' with
    | segment r' =>
      cases h with
      | segment r =>
        injection hfixed with hfixed
        injection hfixed with _ hproject hkey
        rw [← hproject, ← hkey]
        exact .segment r'
      | project r => cases hfixed
      | environment r => cases hfixed
      | flag r => cases hfixed
      | version r => cases hfixed
      | snapshot r => cases hfixed
    | project r' => cases ht
    | environment r' => cases ht
    | flag r' => cases ht
    | flagVersion r' => cases ht
    | snapshot r' => cases ht
  · rw [Mutators.Row.eq_of_fixed hfixed ht]
    exact h

/-! ## What is allowed -/

section Sound

variable (env : Env) (db : Medium) (V : Db → Prop)

/-- What a handler compiled for a version: the source that is stored, or for `typescript` the text,
    and then the IR is stored as the source. -/
inductive SourceOf (st : Strategy) (p : PublishFlagVersionParams) : Source → Prop
  | document : SourceOf st p (.json p.source)
  | text (src : Source) (hst : st = .typescript) (hne : src.isEmpty = false)
      (htext : p.sourceText = sourceString env src) (hsource : p.source = p.compiled) :
    SourceOf st p src

/-- The compiled document of a version is the IR of its source, compiled with its strategy after
    the segments of its project were resolved, as they were in an earlier state of the run; `V`
    are its states. -/
def PublishedIR (d : Db) (p : PublishFlagVersionParams) : Prop :=
  ∃ (st : Strategy) (src resolved : Source) (c : Compiled) (d0 : Db) (f : Mutators.Flag)
    (fault : Option ReadFault) (fuel : Nat), p.strategy = st.name ∧ SourceOf env st p src ∧
    V d0 ∧ Grows d0 d ∧ f ∈ d0.tables.flags ∧ f.id = p.flagId ∧
    resolveSegmentRefs env (resolveSegment env db f.projectId (seen fault d0)) fuel src =
      some (.ok resolved) ∧
    compile env (.known st) resolved = .ok c ∧ p.compiled = encodeTree c.ir

/-- The compiled document of a snapshot is the bundle of its project as it was in an earlier state of
    the run, of that many flags. -/
def BundledAt (d : Db) (p : CompileSnapshotParams) (flagCount : Nat) : Prop :=
  ∃ d0 flags, V d0 ∧ Grows d0 d ∧ Integrity d0.tables ∧
    compileBundle env db p.projectId (.ok d0) = .ok flags ∧ p.compiled = encodeBundle flags ∧
    flagCount = flags.length

/-- The environment of a snapshot is one of its project. -/
def OwnEnvironment (d : Db) (p : CompileSnapshotParams) : Prop :=
  ∀ e ∈ p.environmentId, ∃ r ∈ d.tables.environments, r.id = e ∧ r.projectId = p.projectId

/-- The entry describes what the mutation does, and the mutation does what a handler may do. -/
inductive Sound (d : Db) : Mutators.Mutation → Entry → Prop
  | createProject (p : CreateProjectParams) : Sound d (.createProject p) (.project p.slug)
  | createEnvironment (p : CreateEnvironmentParams) :
    Sound d (.createEnvironment p) (.environment p.projectId p.slug)
  | createFlag (p : CreateFlagParams) :
    Sound d (.createFlag p) (.flag p.projectId p.key)
  | createSegment (p : CreateSegmentParams) :
    Sound d (.createSegment p) (.segment p.projectId p.key)
  | updateSegment (p : UpdateSegmentParams) :
    Sound d (.updateSegment p) (.update p.projectId p.key)
  | publishFlagVersion (p : PublishFlagVersionParams) (f : Mutators.Flag) (hf : f ∈ d.tables.flags)
      (hid : f.id = p.flagId) (hir : PublishedIR env db V d p) :
    Sound d (.publishFlagVersion p) (.version f.projectId f.id f.key p.strategy)
  | compileSnapshot (p : CompileSnapshotParams) (flagCount : Nat) (henv : OwnEnvironment d p)
      (hbundle : BundledAt env db V d p flagCount) :
    Sound d (.compileSnapshot p) (.snapshot p.projectId flagCount)

/-- The transaction accounts for itself. -/
def Accounts (d : Db) (t : Audited) : Prop :=
  ∃ actor e, t.event = e.event actor ∧ Sound env db V d t.mutation e

variable {env db V} {d d' : Db}

theorem BundledAt.grows (h : Grows d d') {p : CompileSnapshotParams} {n : Nat}
    (hp : BundledAt env db V d p n) : BundledAt env db V d' p n := by
  obtain ⟨d0, flags, hv, hgrows, hrest⟩ := hp
  exact ⟨d0, flags, hv, hgrows.trans h, hrest⟩

theorem PublishedIR.grows (h : Grows d d') {p : PublishFlagVersionParams}
    (hp : PublishedIR env db V d p) : PublishedIR env db V d' p := by
  obtain ⟨st, src, resolved, c, d0, f, fault, fuel, hst, hsrc, hv, hgrows, hrest⟩ := hp
  exact ⟨st, src, resolved, c, d0, f, fault, fuel, hst, hsrc, hv, hgrows.trans h, hrest⟩

/-- What the handlers store and what they compile. -/
theorem sourceOf_stored {st : Strategy} {flagId : Nat} {raw ir : Doc} {text : Source} {u : Bool}
    (hu : u = (decide (st = .typescript) && !text.isEmpty)) :
    SourceOf env st ⟨flagId, st.name, if u then ir else raw, ir, sourceString env text⟩
      (if u then text else .json raw) := by
  cases u with
  | false => exact .document
  | true =>
    have huses := hu.symm
    rw [Bool.and_eq_true, decide_eq_true_iff, Bool.not_eq_true'] at huses
    exact .text text huses.1 huses.2 rfl rfl

theorem OwnEnvironment.grows (h : Grows d d') {p : CompileSnapshotParams}
    (hp : OwnEnvironment d p) : OwnEnvironment d' p := by
  intro e he
  obtain ⟨r, hr, hrest⟩ := hp e he
  exact ⟨r, h.environment hr, hrest⟩

/-- What was sound when a handler read stays so. -/
theorem Sound.grows (h : Grows d d') {m : Mutators.Mutation} {e : Entry}
    (hs : Sound env db V d m e) : Sound env db V d' m e := by
  cases hs with
  | createProject p => exact .createProject p
  | createEnvironment p => exact .createEnvironment p
  | createFlag p => exact .createFlag p
  | createSegment p => exact .createSegment p
  | updateSegment p => exact .updateSegment p
  | publishFlagVersion p f hf hid hir =>
    exact .publishFlagVersion p f (h.flag hf) hid (hir.grows h)
  | compileSnapshot p n henv hbundle => exact .compileSnapshot p n (henv.grows h) (hbundle.grows h)

/-- The entry of a mutation describes the row that is inserted. -/
theorem Sound.tells {m : Mutators.Mutation} {e : Entry} (hs : Sound env db V d m e)
    {g : Given} {row : Mutators.Row} (hm : m.Makes g row) :
    e.creates = some row.table ∧ e.Tells d row := by
  cases hs with
  | createProject p =>
    cases hm
    exact ⟨rfl, .project ⟨_, p.slug, _, _, _, _⟩⟩
  | createEnvironment p =>
    cases hm
    exact ⟨rfl, .environment ⟨_, p.projectId, p.slug, _, _⟩⟩
  | createFlag p =>
    cases hm
    exact ⟨rfl, .flag ⟨_, p.projectId, p.key, _, _, _, _, _, _⟩⟩
  | createSegment p =>
    cases hm
    exact ⟨rfl, .segment ⟨_, p.projectId, p.key, _, _, _, _, _⟩⟩
  | updateSegment p => cases hm
  | publishFlagVersion p f hf hid hir =>
    cases hm
    exact ⟨rfl, .version ⟨_, p, _⟩ f hf hid⟩
  | compileSnapshot p n henv hbundle =>
    cases hm
    obtain ⟨d0, flags, -, -, -, -, hcompiled, rfl⟩ := hbundle
    exact ⟨rfl, .snapshot ⟨_, p, _⟩ flags hcompiled⟩

end Sound

/-! ## The invariant -/

/-- The entries of the audit log. -/
def entries (d : Db) : List Entry := d.audit.filterMap entryOf

/-- The audit log lists the rows of each table. -/
structure Journal (d : Db) : Prop where
  readable : ∀ ev ∈ d.audit, ∃ e, entryOf ev = some e
  rows : ∀ table : Table, Forall₂ (Entry.Tells d)
    ((entries d).filter fun e => decide (e.creates = some table)) (table.rows d.tables)
  updates : ∀ projectId key, .update projectId key ∈ entries d →
    ∃ r ∈ d.tables.segments, r.projectId = projectId ∧ r.key = key

/-- What no constraint of the schema sees to. -/
structure Provenance (env : Env) (db : Medium) (V : Db → Prop) (d : Db) : Prop where
  versions : ∀ r ∈ d.tables.versions.flagVersions.rows, PublishedIR env db V d r.params
  environments : ∀ r ∈ d.tables.versions.snapshots.rows, OwnEnvironment d r.params
  bundles : ∀ r ∈ d.tables.versions.snapshots.rows, ∃ n, BundledAt env db V d r.params n

/-- All of it, in a state of the run. -/
structure Whole (env : Env) (db : Medium) (V : Db → Prop) (d : Db) : Prop where
  integrity : Integrity d.tables
  journal : Journal d
  provenance : Provenance env db V d
  passed : V d

theorem whole_empty (env : Env) (db : Medium) {V : Db → Prop} (hv : V emptyDb) :
    Whole env db V emptyDb where
  integrity := integrity_empty
  journal :=
    { readable := nofun
      rows := fun table => by cases table <;> exact .nil
      updates := nofun }
  provenance := ⟨nofun, nofun, nofun⟩
  passed := hv

/-- **The project of an event exists.** -/
theorem event_project {env : Env} {db : Medium} {V : Db → Prop} (h : Whole env db V d)
    {ev : AppendAuditParams} (hev : ev ∈ d.audit) {projectId : Nat}
    (hproject : ev.projectId = some projectId) : ∃ r ∈ d.tables.projects, r.id = projectId := by
  obtain ⟨e, he⟩ := h.journal.readable ev hev
  have hmem : e ∈ entries d := mem_filterMap.mpr ⟨ev, hev, he⟩
  rw [projectId_of_entryOf he] at hproject
  -- a row of the project references it
  have href : ∀ (table : Table), ∀ row ∈ table.rows d.tables,
      (Table.projects, projectId) ∈ row.references → ∃ r ∈ d.tables.projects, r.id = projectId := by
    intro table row hrow hin
    obtain ⟨r, hr, hid⟩ := h.integrity.references table row hrow _ hin
    obtain ⟨proj, hproj, rfl⟩ := mem_map.mp hr
    exact ⟨proj, hproj, hid⟩
  rcases hcreates : e.creates with _ | table
  · cases e with
    | update pid key =>
      cases hproject
      obtain ⟨r, hr, rfl, -⟩ := h.journal.updates _ key hmem
      exact href .segments (.segment r) (mem_map_of_mem hr) (mem_singleton_self _)
    | _ => cases hcreates
  · obtain ⟨row, hrow, htells⟩ := Relators.exists_of_forall₂ (h.journal.rows table) e
      (mem_filter.mpr ⟨hmem, decide_eq_true hcreates⟩)
    cases htells with
    | project r => cases hproject
    | environment r =>
      cases hproject
      exact href table (.environment r) hrow (mem_singleton_self _)
    | flag r =>
      cases hproject
      exact href table (.flag r) hrow (mem_singleton_self _)
    | segment r =>
      cases hproject
      exact href table (.segment r) hrow (mem_singleton_self _)
    | version r f hf hid =>
      cases hproject
      exact href .flags (.flag f) (mem_map_of_mem hf) (mem_singleton_self _)
    | snapshot r flags hcompiled =>
      cases hproject
      exact href table (.snapshot r) hrow mem_cons_self

section Step

variable {env : Env} {db : Medium} {V : Db → Prop} {d d' : Db} {e : Entry}

theorem entries_append {ev : AppendAuditParams} (haudit : d'.audit = d.audit ++ [ev])
    (he : entryOf ev = some e) : entries d' = entries d ++ [e] := by
  rw [entries, haudit, filterMap_append, filterMap_cons_some he]
  rfl

theorem readable_append {audit : List AppendAuditParams} {new : AppendAuditParams}
    (he : entryOf new = some e) (h : ∀ ev ∈ audit, ∃ e, entryOf ev = some e) :
    ∀ ev ∈ audit ++ [new], ∃ e, entryOf ev = some e :=
  forall_mem_append.mpr ⟨h, forall_mem_singleton.mpr ⟨e, he⟩⟩

/-- A segment is there from then on. -/
theorem segment_stays (hgrows : Grows d d') {projectId : Nat} {key : String}
    (h : ∃ r ∈ d.tables.segments, r.projectId = projectId ∧ r.key = key) :
    ∃ r ∈ d'.tables.segments, r.projectId = projectId ∧ r.key = key := by
  obtain ⟨r, hr, hproject, hkey⟩ := h
  obtain ⟨row, hrow, hfixed⟩ := hgrows.mem_fixed .segments (mem_map_of_mem hr)
  obtain ⟨r', hr', rfl⟩ := mem_map.mp hrow
  injection hfixed with hfixed
  injection hfixed with _ hproject' hkey'
  exact ⟨r', hr', hproject'.trans hproject, hkey'.trans hkey⟩

variable {row : Mutators.Row}

/-- A row is inserted, with an entry that describes it. -/
theorem Journal.inserted (h : Journal d) (hgrows : Grows d d')
    (hrow : Inserted d.tables d'.tables row) (hentries : entries d' = entries d ++ [e])
    (hcreates : e.creates = some row.table) (htells : e.Tells d row) (table : Table) :
    Forall₂ (Entry.Tells d') ((entries d').filter fun e => decide (e.creates = some table))
      (table.rows d'.tables) := by
  rw [hentries, filter_append, hrow.rows]
  refine rel_append ((h.rows table).imp fun _ _ => Entry.Tells.grows hgrows) ?_
  by_cases ht : row.table = table
  · have heq : e.creates = some table := hcreates.trans (congrArg some ht)
    rw [if_pos ht, filter_cons_of_pos (by simpa using heq)]
    exact .cons (htells.grows hgrows) .nil
  · have hne : e.creates ≠ some table := by
      rw [hcreates]
      exact fun heq => ht (Option.some.inj heq)
    rw [if_neg ht, filter_cons_of_neg (by simpa using hne)]
    exact .nil

/-- Rows that tell the same, told by the same entries. -/
theorem forall₂_fixed {es : List Entry} : ∀ {rows rows' : List Mutators.Row},
    Forall₂ (Entry.Tells d) es rows → rows'.map Mutators.Row.fixed = rows.map Mutators.Row.fixed →
    Forall₂ (Entry.Tells d) es rows' := by
  intro rows rows' h
  induction h generalizing rows' with
  | nil =>
    intro heq
    rw [map_eq_nil_iff.mp heq]
    exact .nil
  | cons htells _ ih =>
    intro heq
    rw [map_cons] at heq
    obtain ⟨r, rs, rfl, hr, hrs⟩ := map_eq_cons_iff.mp heq
    exact .cons (htells.fixed hr) (ih hrs)

/-- A segment is updated. -/
theorem Journal.updated (h : Journal d) (hgrows : Grows d d') {p : UpdateSegmentParams}
    {now : Nat} (hrow : Updated p now d.tables d'.tables row)
    (hentries : entries d' = entries d ++ [e]) (hcreates : e.creates = none) (table : Table) :
    Forall₂ (Entry.Tells d') ((entries d').filter fun e => decide (e.creates = some table))
      (table.rows d'.tables) := by
  have hne : e.creates ≠ some table := by
    rw [hcreates]
    nofun
  rw [hentries, filter_append, filter_cons_of_neg (by simpa using hne), filter_nil,
    append_nil]
  exact forall₂_fixed ((h.rows table).imp fun _ _ => Entry.Tells.grows hgrows) (hrow.fixed table)

/-- The segment of an update is there. -/
theorem updated_found {p : UpdateSegmentParams} {now : Nat} {s s' : Mutators.Store}
    (h : Updated p now s s' row) :
    ∃ r ∈ s.segments, r.projectId = p.projectId ∧ r.key = p.key := by
  obtain ⟨r, hfind, -⟩ := h.found
  have hselects := find?_some hfind
  rw [UpdateSegmentParams.selects, Bool.and_eq_true, decide_eq_true_iff,
    decide_eq_true_iff] at hselects
  exact ⟨r, mem_of_find?_eq_some hfind, hselects⟩

theorem Provenance.grows (h : Provenance env db V d) (hgrows : Grows d d')
    (hversions : ∀ r ∈ d'.tables.versions.flagVersions.rows,
      r ∈ d.tables.versions.flagVersions.rows ∨ PublishedIR env db V d r.params)
    (hsnapshots : ∀ r ∈ d'.tables.versions.snapshots.rows, r ∈ d.tables.versions.snapshots.rows ∨
      OwnEnvironment d r.params ∧ ∃ n, BundledAt env db V d r.params n) :
    Provenance env db V d' where
  versions r hr := ((hversions r hr).elim (h.versions r) id).grows hgrows
  environments r hr := ((hsnapshots r hr).elim (h.environments r) And.left).grows hgrows
  bundles r hr := by
    obtain ⟨n, hn⟩ := (hsnapshots r hr).elim (h.bundles r) And.right
    exact ⟨n, hn.grows hgrows⟩

/-- A version that is inserted is the one that was published, -/
theorem inserted_version {m : Mutators.Mutation} {g : Given}
    (hrow : Inserted d.tables d'.tables row) (hm : m.Makes g row)
    (hs : Sound env db V d m e) : ∀ r ∈ d'.tables.versions.flagVersions.rows,
      r ∈ d.tables.versions.flagVersions.rows ∨ PublishedIR env db V d r.params := by
  intro r hr
  rcases hrow.cases .versions (mem_map_of_mem hr) with hold | hnew
  · obtain ⟨r', hr', heq⟩ := mem_map.mp hold
    cases heq
    exact .inl hr'
  · subst hnew
    cases hm
    cases hs with
    | publishFlagVersion p f hf hid hir => exact .inr hir

/-- and a snapshot the one that was compiled. -/
theorem inserted_snapshot {m : Mutators.Mutation} {g : Given}
    (hrow : Inserted d.tables d'.tables row) (hm : m.Makes g row)
    (hs : Sound env db V d m e) : ∀ r ∈ d'.tables.versions.snapshots.rows,
      r ∈ d.tables.versions.snapshots.rows ∨
        OwnEnvironment d r.params ∧ ∃ n, BundledAt env db V d r.params n := by
  intro r hr
  rcases hrow.cases .snapshots (mem_map_of_mem hr) with hold | hnew
  · obtain ⟨r', hr', heq⟩ := mem_map.mp hold
    cases heq
    exact .inl hr'
  · subst hnew
    cases hm
    cases hs with
    | compileSnapshot p n henv hbundle => exact .inr ⟨henv, n, hbundle⟩

/-- **One transaction.**  If it accounts for itself, everything stays whole. -/
theorem Whole.execute (h : Whole env db V d) {b : Backend} {t : Audited}
    (ht : Accounts env db V d t) (w : Fate) (hv : V (execute b d t w).1) :
    Whole env db V (execute b d t w).1 := by
  obtain ⟨actor, e, hevent, hsound⟩ := ht
  have hgrows := grows_execute b d t w
  have hread : entryOf t.event = some e := by rw [hevent, entryOf_event]
  rcases execute_cases b d t w with ⟨g, s, row, -, htx, hexec⟩ | ⟨err, hexec⟩
  · rw [hexec] at hgrows hv ⊢
    have hentries : entries ⟨s, d.audit ++ [t.event]⟩ = entries d ++ [e] := entries_append rfl hread
    have hreadable := readable_append hread h.journal.readable
    have hupdates : (∀ projectId key, e = .update projectId key →
        ∃ r ∈ d.tables.segments, r.projectId = projectId ∧ r.key = key) →
        ∀ projectId key, .update projectId key ∈ entries ⟨s, d.audit ++ [t.event]⟩ →
          ∃ r ∈ s.segments, r.projectId = projectId ∧ r.key = key := by
      intro hnew projectId key hmem
      rw [hentries, mem_append, mem_singleton] at hmem
      refine segment_stays hgrows (hmem.elim (h.journal.updates _ _) fun heq => ?_)
      exact hnew projectId key heq.symm
    refine ⟨h.integrity.tx htx, ⟨hreadable, ?_, ?_⟩, ?_, hv⟩
    · rcases tx_ok htx with ⟨hmakes, hrow⟩ | ⟨p, hm, hrow⟩
      · obtain ⟨hcreates, htells⟩ := hsound.tells hmakes
        exact h.journal.inserted hgrows hrow hentries hcreates htells
      · rw [hm] at hsound
        cases hsound
        exact h.journal.updated hgrows hrow hentries rfl
    · refine hupdates fun projectId key heq => ?_
      subst heq
      rcases tx_ok htx with ⟨hmakes, -⟩ | ⟨p, hm, hrow⟩
      · exact absurd (hsound.tells hmakes).1 nofun
      · rw [hm] at hsound
        cases hsound
        exact updated_found hrow
    · rcases tx_ok htx with ⟨hmakes, hrow⟩ | ⟨p, -, hrow⟩
      · exact h.provenance.grows hgrows (inserted_version hrow hmakes hsound)
          (inserted_snapshot hrow hmakes hsound)
      · refine h.provenance.grows hgrows (fun r hr => .inl ?_) fun r hr => .inl ?_
        · rw [hrow.store] at hr
          exact hr
        · rw [hrow.store] at hr
          exact hr
  · rw [hexec]
    exact h

end Step

/-! ## The handlers -/

/-- The mutation is about rows of the project. -/
def Within (d : Db) (projectId : Nat) : Mutators.Mutation → Prop
  | .createProject _ => False
  | .createFlag p => p.projectId = projectId
  | .createEnvironment p => p.projectId = projectId
  | .createSegment p => p.projectId = projectId
  | .updateSegment p => p.projectId = projectId
  | .compileSnapshot p => p.projectId = projectId ∧ OwnEnvironment d p
  | .publishFlagVersion p => ∃ f ∈ d.tables.flags, f.id = p.flagId ∧ f.projectId = projectId

/-- The transaction creates the project with this slug, or is about rows of it. -/
inductive Addressed (slug : String) (d : Db) (t : Audited) : Prop
  | creates (p : CreateProjectParams) (ht : t.mutation = .createProject p)
      (hslug : p.slug = slug) (hevent : t.event.projectId = none)
  | within (proj : Project) (hproj : proj ∈ d.tables.projects) (hslug : proj.slug = slug)
      (hevent : t.event.projectId = some proj.id) (hm : Within d proj.id t.mutation)

theorem Within.grows {d' : Db} (h : Grows d d') {projectId : Nat} : ∀ {m : Mutators.Mutation},
    Within d projectId m → Within d' projectId m
  | .createProject _, hm => hm
  | .createFlag _, hm => hm
  | .createEnvironment _, hm => hm
  | .createSegment _, hm => hm
  | .updateSegment _, hm => hm
  | .compileSnapshot _, hm => ⟨hm.1, hm.2.grows h⟩
  | .publishFlagVersion _, ⟨f, hf, hrest⟩ => ⟨f, h.flag hf, hrest⟩

theorem Addressed.grows {d' : Db} (h : Grows d d') {slug : String} {t : Audited}
    (ht : Addressed slug d t) : Addressed slug d' t := by
  cases ht with
  | creates p ht hslug hevent => exact .creates p ht hslug hevent
  | within proj hproj hslug hevent hm =>
    exact .within proj (h.project hproj) hslug hevent (hm.grows h)

/-- What the handlers rely on and guarantee, in a run through the states `V`; `A` is what some of them
    guarantee on top. -/
def contractWith (env : Env) (db : Medium) (b : Backend) (A : Db → Audited → Prop)
    (V : Db → Prop) : Contract (execute b) where
  Inv := Whole env db V
  Later := Grows
  Allowed d t := Accounts env db V d t ∧ A d t
  Passes := V
  refl := Grows.refl
  trans := Grows.trans
  keeps w hinv hallowed hv := ⟨hinv.execute hallowed.1 w hv, grows_execute b _ _ w⟩

abbrev contract (env : Env) (db : Medium) (b : Backend) : Contract (execute b) :=
  contractWith env db b (fun _ _ => True) fun _ => True

/-- The handler keeps to the contract. -/
abbrev Keeps {α : Type} (env : Env) (db : Medium) (b : Backend) (A : Db → Audited → Prop)
    (V : Db → Prop) (p : Handler α) (d : Db) : Prop :=
  (contractWith env db b A V).Meets (fun _ _ => True) p d

section Meets

variable {env : Env} {db : Medium} {b : Backend} {d : Db} {Ψ : Db → RestResponse → Prop}
  {A : Db → Audited → Prop} {V : Db → Prop}

/-- A guarantee on top may be weakened. -/
theorem meets_imp {α : Type} {Φ : Db → α → Prop} {A' : Db → Audited → Prop}
    (h : ∀ d t, A d t → A' d t) {p : Handler α} (hp : (contractWith env db b A V).Meets Φ p d) :
    (contractWith env db b A' V).Meets Φ p d := by
  have hallowed : ∀ d t, (contractWith env db b A V).Allowed d t →
      (contractWith env db b A' V).Allowed d t := fun d t ht => ⟨ht.1, h d t ht.2⟩
  exact hp.weaken hallowed (fun _ hi => hi) (fun _ _ hl => hl) fun _ hv => hv

variable {β : Type} {text : String}

theorem selectOne_ok {query : Mutators.Store → Option β} {row : β}
    (h : selectOne text query (.ok d) = .ok row) : query d.tables = some row := by
  rw [selectOne] at h
  rcases hq : query d.tables with _ | row'
  · rw [hq] at h
    cases h
  · rw [hq] at h
    cases h
    rfl

theorem meets_withRow {query : Mutators.Store → Option β}
    {k : β → Handler RestResponse}
    (hfault : ∀ d' (f : ReadFault), Ψ d' (Rest.notFoundOrError (.wrap text f.error)))
    (hnone : ∀ d', Whole env db V d' → Grows d d' → query d'.tables = none →
      Ψ d' (Rest.notFoundOrError .notFound))
    (hsome : ∀ d' row, Whole env db V d' → Grows d d' → query d'.tables = some row →
      (contractWith env db b A V).Meets Ψ (k row) d') :
    (contractWith env db b A V).Meets Ψ (Rest.withRow (selectOne text query) k) d := by
  intro d' hwhole hgrows fault
  rcases fault with _ | f
  · rw [seen]
    rcases hq : query d'.tables with _ | row
    · simp only [selectOne, hq]
      exact hnone d' hwhole hgrows hq
    · simp only [selectOne, hq]
      exact hsome d' row hwhole hgrows hq
  · exact hfault d' f

/-- A transaction that is sound when its handler last reads. -/
theorem meets_transact {slug : String} {t : Audited}
    {k : Except DbError Mutators.Row → RestResponse} (h : Accounts env db V d t)
    (ht : Addressed slug d t) :
    Keeps env db b (Addressed slug) V
      (.transact t k : Handler RestResponse) d := by
  obtain ⟨actor, e, hevent, hsound⟩ := h
  exact fun d' _ hgrows =>
    ⟨⟨⟨actor, e, hevent, hsound.grows hgrows⟩, ht.grows hgrows⟩, fun _ _ => trivial⟩

/-- A row is looked up, whatever is answered if there is none. -/
theorem meets_lookup {query : Mutators.Store → Option β}
    {k : β → Handler RestResponse}
    (hsome : ∀ d' row, Grows d d' → query d'.tables = some row →
      Keeps env db b A V (k row) d') :
    Keeps env db b A V (Rest.withRow (selectOne text query) k) d :=
  meets_withRow (fun _ _ => trivial) (fun _ _ _ _ => trivial) fun d' row _ => hsome d' row

/-- A project is looked up by its slug. -/
theorem meets_withProject {slug : String} {k : Project → Handler RestResponse}
    (hsome : ∀ d' proj, Grows d d' → proj ∈ d'.tables.projects → proj.slug = slug →
      Keeps env db b A V (k proj) d') :
    Keeps env db b A V (Rest.withProject slug k) d := by
  refine meets_lookup fun d' proj hgrows hfind => ?_
  have hslug := find?_some hfind
  rw [decide_eq_true_iff] at hslug
  exact hsome d' proj hgrows (mem_of_find?_eq_some hfind) hslug

theorem meets_withBody {body : Body β} {k : β → Handler RestResponse}
    (hok : ∀ req, Keeps env db b A V (k req) d) :
    Keeps env db b A V (Rest.withBody body k) d := by
  rcases body with text | req
  · trivial
  · exact hok req

/-- The flag that is read is in its table. -/
theorem flag_of_getFlagByKey {s : Mutators.Store} {projectId : Nat} {key : String}
    {flag : Mutators.Flag}
    (h : (s.flags.find? fun r => r.projectId = projectId ∧ r.key = key).map (flagFromRow db) =
      some flag) :
    ∃ f ∈ s.flags, f.id = flag.id ∧ f.projectId = projectId ∧ f.key = flag.key := by
  obtain ⟨f, hf, rfl⟩ := Option.map_eq_some_iff.mp h
  have hkeys := find?_some hf
  rw [decide_eq_true_iff] at hkeys
  exact ⟨f, mem_of_find?_eq_some hf, rfl, hkeys.1, rfl⟩

theorem publishFlagVersion_meets (fuel : Nat) (slug key actor : String)
    (body : Body PublishFlagVersionRequest) :
    Keeps env db b (Addressed slug) V
      (Rest.publishFlagVersion env db fuel slug key actor body) d := by
  refine meets_withProject fun d1 proj _ hproj hslug => meets_lookup fun d2 flag h2 hflag => ?_
  obtain ⟨f, hf, hid, hproject, hkey⟩ := flag_of_getFlagByKey hflag
  refine meets_withBody fun req => ?_
  rcases Strategy.parse req.strategy with _ | strategy
  · trivial
  · intro d3 hwhole h3 fault
    simp only
    rcases hres : resolveSegmentRefs env (resolveSegment env db proj.id (seen fault d3)) fuel _ with
      _ | err | resolved
    · trivial
    · trivial
    · simp only
      rcases hc : compile env (.known strategy) resolved with err | compiled
      · simp only
        split <;> trivial
      · refine meets_transact ⟨actor, .version f.projectId f.id f.key strategy.name, ?_, ?_⟩ ?_
        · rw [hid, hproject, hkey]
          rfl
        · exact .publishFlagVersion ⟨flag.id, strategy.name, _, _, _⟩ f (Grows.flag h3 hf) hid
            ⟨strategy, _, resolved, compiled, d3, f, fault, fuel, rfl, sourceOf_stored rfl,
              hwhole.passed, .refl d3, Grows.flag h3 hf, hid, hproject ▸ hres, hc, rfl⟩
        · exact .within proj (h2.trans h3 |>.project hproj) hslug rfl
            ⟨f, Grows.flag h3 hf, hid, hproject⟩

theorem compileAndInsert_meets (actor : String) {proj : Project} {envId : Option Nat}
    (hproj : proj ∈ d.tables.projects)
    (henv : ∀ e ∈ envId, ∃ r ∈ d.tables.environments, r.id = e ∧ r.projectId = proj.id) :
    Keeps env db b (Addressed proj.slug) V
      (Rest.compileAndInsert env db actor proj.id envId) d := by
  intro d' hwhole hgrows fault
  rcases fault with _ | f
  · rw [seen]
    beta_reduce
    rcases hbundle : compileBundle env db proj.id (.ok d') with failure | flags
    · trivial
    · have hown : OwnEnvironment d' ⟨proj.id, envId, encodeBundle flags⟩ :=
        OwnEnvironment.grows hgrows henv
      refine meets_transact ⟨actor, .snapshot proj.id flags.length, rfl, ?_⟩ ?_
      · exact .compileSnapshot ⟨proj.id, envId, encodeBundle flags⟩ flags.length hown
          ⟨d', flags, hwhole.passed, .refl d', hwhole.integrity, hbundle, rfl, rfl⟩
      · exact .within proj (Grows.project hgrows hproj) rfl rfl ⟨rfl, hown⟩
  · trivial

theorem getEnvironmentBySlug_cases (projectId : Nat) (slug : String) (fault : Option ReadFault)
    (d : Db) :
    (∃ e, getEnvironmentBySlug projectId slug (seen fault d) = .error e) ∨
      ∃ r ∈ d.tables.environments, r.projectId = projectId ∧
        getEnvironmentBySlug projectId slug (seen fault d) = .ok r := by
  rcases h : getEnvironmentBySlug projectId slug (seen fault d) with e | r
  · exact .inl ⟨e, rfl⟩
  · refine .inr ⟨r, ?_⟩
    rcases fault with _ | f
    · have hfind := selectOne_ok h
      have hkeys := find?_some hfind
      rw [decide_eq_true_iff] at hkeys
      exact ⟨mem_of_find?_eq_some hfind, hkeys.1, rfl⟩
    · cases h

theorem compileSnapshot_meets (slug actor : String) (body : Option (Body (Option String))) :
    Keeps env db b (Addressed slug) V
      (Rest.compileSnapshot env db slug actor body) d := by
  refine meets_withProject fun d1 proj _ hproj hslug => ?_
  subst hslug
  rcases body with _ | body
  · exact compileAndInsert_meets actor hproj nofun
  · refine meets_withBody fun environmentSlug => ?_
    split
    · exact compileAndInsert_meets actor hproj nofun
    · exact compileAndInsert_meets actor hproj nofun
    · rename_i envSlug _
      intro d2 _ h2 fault
      beta_reduce
      rcases getEnvironmentBySlug_cases proj.id envSlug fault d2 with ⟨e, he⟩ | ⟨r, hr, hproject, he⟩
      · rw [he]
        simp only
        split <;> trivial
      · rw [he]
        refine compileAndInsert_meets actor (Grows.project h2 hproj) fun e he => ?_
        cases he
        exact ⟨r, hr, rfl, hproject⟩

/-- The project that a request is addressed to; a project whose body cannot be read has none. -/
def RestRequest.slug : RestRequest → Option String
  | .listProjects | .createProject _ (.error _) => none
  | .createProject _ (.ok req) => some req.slug
  | .listEnvironments slug | .listFlags slug | .listSegments slug
  | .getProject slug | .getEnvironment slug _ | .createEnvironment slug _ _ | .getFlag slug _
  | .createFlag slug _ _ | .publishFlagVersion _ slug _ _ _ | .listFlagVersions slug _
  | .getSegment slug _ | .createSegment slug _ _ | .updateSegment slug _ _ _
  | .listSnapshots slug _ | .getLatestSnapshot slug | .getSnapshot slug _
  | .compileSnapshot slug _ _ | .evaluateFlag slug _ _ | .evaluateFlagWithTrace slug _ _ => some slug

/-- The transaction is about the project that a request is addressed to. -/
def AddressedTo (slug : Option String) (d : Db) (t : Audited) : Prop :=
  ∃ x, slug = some x ∧ Addressed x d t

theorem meets_addressed {slug : String} {p : Handler RestResponse}
    (h : Keeps env db b (Addressed slug) V p d) :
    Keeps env db b (AddressedTo (some slug)) V p d :=
  meets_imp (fun _ _ ht => ⟨slug, rfl, ht⟩) h

/-- **Every handler of REST keeps to the contract**, whatever it is asked, and keeps to the project it
    is addressed to. -/
theorem rest_meets (r : RestRequest) :
    Keeps env db b (AddressedTo r.slug) V (rest env db b r) d := by
  cases r with
  | createProject actor body =>
    rcases body with text | req
    · trivial
    · refine meets_addressed ?_
      rw [rest, Rest.createProject, Rest.withBody]
      rcases Strategy.parse req.configStrategy with _ | strategy
      · trivial
      · exact meets_transact ⟨actor, .project req.slug, rfl, .createProject ⟨req.slug, _, _⟩⟩
          (.creates ⟨req.slug, _, _⟩ rfl rfl rfl)
  | createEnvironment slug actor body =>
    refine meets_addressed (meets_withProject fun _ proj _ hproj hslug => meets_withBody fun req => ?_)
    exact meets_transact
      ⟨actor, .environment proj.id req.slug, rfl, .createEnvironment ⟨proj.id, req.slug, _⟩⟩
      (.within proj hproj hslug rfl rfl)
  | createFlag slug actor body =>
    refine meets_addressed (meets_withProject fun _ proj _ hproj hslug => meets_withBody fun req => ?_)
    exact meets_transact
      ⟨actor, .flag proj.id req.key, rfl, .createFlag ⟨proj.id, req.key, _, _, _, _⟩⟩
      (.within proj hproj hslug rfl rfl)
  | publishFlagVersion fuel slug key actor body =>
    exact meets_addressed (publishFlagVersion_meets fuel slug key actor body)
  | createSegment slug actor body =>
    refine meets_addressed (meets_withProject fun _ proj _ hproj hslug => meets_withBody fun req => ?_)
    rcases normalizePredicate env req.predicate with text | predicate
    · trivial
    · exact meets_transact
        ⟨actor, .segment proj.id req.key, rfl, .createSegment ⟨proj.id, req.key, _, _, _⟩⟩
        (.within proj hproj hslug rfl rfl)
  | updateSegment slug segKey actor body =>
    refine meets_addressed (meets_withProject fun _ proj _ hproj hslug => meets_withBody fun req => ?_)
    rcases normalizePredicate env req.predicate with text | predicate
    · trivial
    · exact meets_transact
        ⟨actor, .update proj.id segKey, rfl, .updateSegment ⟨proj.id, segKey, _, _, _⟩⟩
        (.within proj hproj hslug rfl rfl)
  | compileSnapshot slug actor body => exact meets_addressed (compileSnapshot_meets slug actor body)
  | listProjects | listEnvironments _ | listFlags _ | listSegments _ | getProject _
  | getEnvironment _ _ | getFlag _ _ | listFlagVersions _ _ | getSegment _ _ | listSnapshots _ _
  | getLatestSnapshot _ | getSnapshot _ _ | evaluateFlag _ _ _ | evaluateFlagWithTrace _ _ _ =>
    exact meets_of_reads (reads_all rfl) d

/-- The project that a request is addressed to. -/
def Request.slug (req : Request) : Option String :=
  match req with
  | .rest r => r.slug
  | .connect (.getSnapshot slug _) => some slug
  | .connect c => c.toRest.bind RestRequest.slug

/-- A Connect request is addressed to the project of the REST request that says the same. -/
theorem slug_connect {c : ConnectRequest} {r : RestRequest} (h : c.toRest = some r) :
    Request.slug (.connect c) = r.slug := by
  cases c with
  | getSnapshot slug id =>
    rcases id with text | id
    · cases h
    · cases h
      rfl
  | _ =>
    cases h
    rfl

/-- So does every handler of Connect. -/
theorem serve_addressed (req : Request) :
    Keeps env db b (AddressedTo req.slug) V (serve env db b req) d := by
  cases req with
  | rest r =>
    rw [serve, Keeps, meets_map]
    exact rest_meets r
  | connect c =>
    rw [serve, Keeps, meets_map]
    rcases toRest_cases c with ⟨r, hr⟩ | ⟨slug, text, rfl⟩
    · rw [connect_eq_map hr, meets_map, slug_connect hr]
      exact rest_meets r
    · refine meets_of_reads ?_ d
      intro r
      beta_reduce
      rcases getProjectBySlug slug r with e | proj
      · trivial
      · trivial

theorem serve_meets (req : Request) :
    Keeps env db b (fun _ _ => True) V (serve env db b req) d :=
  meets_imp (fun _ _ _ => trivial) (serve_addressed req)

theorem kept_pool (b : Backend) (h : Whole env db V d) (reqs : Nat → Request) :
    (contractWith env db b (fun _ _ => True) V).Kept (fun _ _ _ => True) (pool env db b reqs d) :=
  ⟨h, fun i => serve_meets (reqs i)⟩

end Meets

/-! ## Whole runs -/

/-- From an empty database every state is whole, and what still runs keeps to the contract. -/
theorem kept_along (env : Env) (db : Medium) (b : Backend) (reqs : Nat → Request) {V : Db → Prop}
    {es : List (Turn ReadFault Fate)} (hv : Along (Pool.next (execute b)) (fun p => V p.store)
      (pool env db b reqs emptyDb) es) :
    Along (Pool.next (execute b))
      ((contractWith env db b (fun _ _ => True) V).Kept fun _ _ _ => True)
      (pool env db b reqs emptyDb) es :=
  along (stable_true _) (kept_pool b (whole_empty env db hv.first) reqs) hv

/-- The states of the database in a run. -/
def Passed (env : Env) (db : Medium) (b : Backend) (reqs : Nat → Request)
    (es : List (Turn ReadFault Fate)) (d : Db) : Prop :=
  Sometime (Pool.next (execute b)) (fun p => p.store = d)
    (pool env db b reqs emptyDb) es

/-- **The audit log tells the history of the tables.**  Let any requests run at once from an empty
    database, over both surfaces, interleaved in any way; reads and transactions may fail.  In every
    state of the run
    * every event of the audit log can be read, and for each of the six tables the events that
      announce one of its rows are, in order and one for each row, descriptions of its rows: the slug
      of the project, the project and name of the environment, flag or segment, the project, flag
      and strategy of the version, the project and number of flags of the snapshot; an event of an
      update names a segment that exists;
    * ids and keys are unique, references resolve, versions are numbered without gaps;
    * every version is the IR of its source, compiled with its strategy after its segments were
      resolved as they were in an earlier state of the run; and every snapshot is the bundle of its
      project in one earlier state, for an environment of the same project if for any. -/
theorem audit_tells_history (env : Env) (db : Medium) (b : Backend) (reqs : Nat → Request)
    (es : List (Turn ReadFault Fate)) :
    Along (Pool.next (execute b)) (fun p => Whole env db (Passed env db b reqs es) p.store)
      (pool env db b reqs emptyDb) es :=
  (kept_along env db b reqs (along_sometime Pool.store fun _ h => h)).imp fun _ h => h.inv

end FalseFlag.Server
