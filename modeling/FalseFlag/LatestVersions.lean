/-
  `ListLatestFlagVersions` (db/queries/snapshots.sql and its SQLite copy, with the tables of
  db/migrations), and the bundle that `compileBundle` makes of its rows.

  Postgres sorts the versions of a project by flag and falling version and keeps the first of each
  flag; SQLite numbers the versions of each flag and keeps number one.  Here a query is any result
  that the standard allows (`FalseFlag.Lib.Sql`), and the tables are any that keep their unique
  constraints, orphaned versions included.

  `latest_versions_agree`: whatever the backends return, it is the same rows: for each flag of the
  project that has a version, the highest; so the bundle has those keys and those IRs.
-/
import FalseFlag.Snapshots
import FalseFlag.Lib.Sql

namespace FalseFlag.Latest

open List JsonTree Fallible Sql

/-! ## The tables -/

/-- A row of `flags`. -/
structure FlagRow where
  id : Nat
  projectId : Nat
  key : String
  deriving DecidableEq

/-- A row of `flag_versions`. -/
structure VersionRow where
  id : Nat
  flagId : Nat
  version : Int
  strategy : String
  compiled : Doc
  publishedAt : Nat
  deriving DecidableEq

/-- The two tables, with their primary keys and unique constraints. -/
structure Tables where
  flags : List FlagRow
  versions : List VersionRow
  flags_pkey : (flags.map FlagRow.id).Nodup
  flags_project_id_key : (flags.map fun f => (f.projectId, f.key)).Nodup
  flag_versions_pkey : (versions.map VersionRow.id).Nodup
  flag_versions_flag_id_version : (versions.map fun v => (v.flagId, v.version)).Nodup

/-- `LatestFlagVersion`, the columns of both queries. -/
structure LatestFlagVersion where
  flagKey : String
  flagId : Nat
  version : Int
  strategy : String
  compiled : Doc
  publishedAt : Nat
  deriving DecidableEq

/-- The columns of a version and its flag. -/
def columns (f : FlagRow) (v : VersionRow) : LatestFlagVersion where
  flagKey := f.key
  flagId := v.flagId
  version := v.version
  strategy := v.strategy
  compiled := v.compiled
  publishedAt := v.publishedAt

namespace Tables

/-- `FROM flag_versions fv INNER JOIN flags f ON f.id = fv.flag_id WHERE f.project_id = $1`. -/
def joined (t : Tables) (projectId : Nat) : List LatestFlagVersion :=
  t.versions.flatMap fun v =>
    (t.flags.filter fun f => f.id = v.flagId ∧ f.projectId = projectId).map fun f => columns f v

/-- `ORDER BY fv.flag_id, fv.version DESC`. -/
def pgOrder (a b : LatestFlagVersion) : Prop :=
  a.flagId < b.flagId ∨ a.flagId = b.flagId ∧ b.version ≤ a.version

/-- What Postgres may return: `SELECT DISTINCT ON (fv.flag_id) …`. -/
def PgListLatest (t : Tables) (projectId : Nat) (rows : List LatestFlagVersion) : Prop :=
  ∃ sorted, OrderedBy pgOrder (t.joined projectId) sorted ∧
    rows = distinctOn LatestFlagVersion.flagId sorted

/-- `ORDER BY fv.version DESC`. -/
def sqliteOrder (a b : LatestFlagVersion) : Prop := b.version ≤ a.version

/-- What SQLite may return: `… ROW_NUMBER() OVER (PARTITION BY fv.flag_id …) AS rn) WHERE rn = 1`. -/
def SqliteListLatest (t : Tables) (projectId : Nat) (rows : List LatestFlagVersion) : Prop :=
  ∃ numbered, RowNumber LatestFlagVersion.flagId sqliteOrder (t.joined projectId) numbered ∧
    rows = numberOne numbered

/-- The highest version of a flag. -/
def Highest (t : Tables) (f : FlagRow) (v : VersionRow) : Prop :=
  v ∈ t.versions ∧ v.flagId = f.id ∧ ∀ w ∈ t.versions, w.flagId = f.id → w.version ≤ v.version

/-- The row is the highest version of a flag of the project. -/
def IsLatest (t : Tables) (projectId : Nat) (row : LatestFlagVersion) : Prop :=
  ∃ f ∈ t.flags, f.projectId = projectId ∧ ∃ v, t.Highest f v ∧ row = columns f v

end Tables

/-- The loop of `compileBundle`. -/
def compileRows (env : Env) (rows : List LatestFlagVersion) :
    Except String (List (String × RulesTree)) :=
  insertEach LatestFlagVersion.flagKey
    (fun lv => (decodeTree lv.compiled).mapError fun _ => "decoding compiled IR for "
      ++ lv.flagKey ++ ": " ++ env.jsonErrorText (.json lv.compiled)) [] rows

/-! ## What the queries return -/

/-- Both queries have a result, on every table. -/
theorem exists_listLatest (t : Tables) (projectId : Nat) :
    (∃ rows, t.PgListLatest projectId rows) ∧ ∃ rows, t.SqliteListLatest projectId rows := by
  constructor
  · obtain ⟨sorted, hsorted⟩ := @exists_orderedBy _ Tables.pgOrder (fun a b => by
      unfold Tables.pgOrder
      omega) (fun a b c => by
      unfold Tables.pgOrder
      omega) (t.joined projectId)
    exact ⟨_, sorted, hsorted, rfl⟩
  · obtain ⟨numbered, hnumbered⟩ := exists_rowNumber LatestFlagVersion.flagId
      (fun a b => Int.le_total b.version a.version)
      (fun _ _ _ hab hbc => Int.le_trans hbc hab) (t.joined projectId)
    exact ⟨_, numbered, hnumbered, rfl⟩

section Queries

variable {t : Tables} {projectId : Nat}

theorem mem_joined {row : LatestFlagVersion} : row ∈ t.joined projectId ↔
    ∃ f ∈ t.flags, f.projectId = projectId ∧ ∃ v ∈ t.versions, v.flagId = f.id ∧
      row = columns f v := by
  simp only [Tables.joined, mem_flatMap, mem_map, mem_filter, decide_eq_true_eq]
  constructor
  · rintro ⟨v, hv, f, ⟨hf, hid, hproject⟩, rfl⟩
    exact ⟨f, hf, hproject, v, hv, hid.symm, rfl⟩
  · rintro ⟨f, hf, hproject, v, hv, hid, rfl⟩
    exact ⟨v, hv, f, ⟨hf, hid.symm, hproject⟩, rfl⟩

theorem flag_eq {f g : FlagRow} (hf : f ∈ t.flags) (hg : g ∈ t.flags) (h : f.id = g.id) : f = g :=
  inj_on_of_nodup_map t.flags_pkey hf hg h

/-- `UNIQUE (flag_id, version)`: the versions of a flag are told apart by their number. -/
theorem uniqueRanks_joined :
    UniqueRanks LatestFlagVersion.flagId LatestFlagVersion.version (t.joined projectId) := by
  intro a ha b hb hid hversion
  obtain ⟨f, hf, -, v, hv, hfv, rfl⟩ := mem_joined.mp ha
  obtain ⟨g, hg, -, w, hw, hgw, rfl⟩ := mem_joined.mp hb
  obtain rfl : v = w :=
    inj_on_of_nodup_map t.flag_versions_flag_id_version hv hw (Prod.ext hid hversion)
  rw [flag_eq hf hg (hfv.symm.trans hgw)]

/-- The top row of a flag is its highest version. -/
theorem isTop_iff {row : LatestFlagVersion} :
    IsTop LatestFlagVersion.flagId LatestFlagVersion.version (t.joined projectId) row ↔
      t.IsLatest projectId row := by
  constructor
  · rintro ⟨hrow, htop⟩
    obtain ⟨f, hf, hproject, v, hv, hid, rfl⟩ := mem_joined.mp hrow
    refine ⟨f, hf, hproject, v, ⟨hv, hid, fun w hw hwid => ?_⟩, rfl⟩
    exact htop _ (mem_joined.mpr ⟨f, hf, hproject, w, hw, hwid, rfl⟩) (hwid.trans hid.symm)
  · rintro ⟨f, hf, hproject, v, ⟨hv, hid, hhighest⟩, rfl⟩
    refine ⟨mem_joined.mpr ⟨f, hf, hproject, v, hv, hid, rfl⟩, fun row hrow hrowid => ?_⟩
    obtain ⟨g, -, -, w, hw, -, rfl⟩ := mem_joined.mp hrow
    exact hhighest w hw (hrowid.trans hid)

/-- What either backend returns. -/
def Returned (t : Tables) (projectId : Nat) (rows : List LatestFlagVersion) : Prop :=
  (∀ row, row ∈ rows ↔ t.IsLatest projectId row) ∧ (rows.map LatestFlagVersion.flagId).Nodup

theorem returned_pg {rows : List LatestFlagVersion} (h : t.PgListLatest projectId rows) :
    Returned t projectId rows := by
  obtain ⟨sorted, hsorted, rfl⟩ := h
  refine ⟨fun row => ?_, nodup_distinctOn _ _⟩
  rw [mem_distinctOn_iff uniqueRanks_joined ?_ hsorted, isTop_iff]
  rintro a b (hlt | ⟨-, hle⟩) hid
  · exact absurd hid (Nat.ne_of_lt hlt)
  · exact hle

theorem returned_sqlite {rows : List LatestFlagVersion} (h : t.SqliteListLatest projectId rows) :
    Returned t projectId rows := by
  obtain ⟨numbered, hnumbered, rfl⟩ := h
  refine ⟨fun row => ?_, nodup_numberOne hnumbered⟩
  rw [mem_rowNumber_iff uniqueRanks_joined hnumbered (fun _ _ hle _ => hle), isTop_iff]

/-- What is returned is the same, up to its order. -/
theorem Returned.perm {rows rows' : List LatestFlagVersion} (h : Returned t projectId rows)
    (h' : Returned t projectId rows') : rows.Perm rows' :=
  (perm_ext_iff_of_nodup h.2.of_map h'.2.of_map).mpr fun row => (h.1 row).trans (h'.1 row).symm

/-! ## The bundle -/

/-- `UNIQUE (project_id, key)`: the rows of a project are told apart by their keys. -/
theorem Returned.unique {rows : List LatestFlagVersion} (h : Returned t projectId rows)
    {a b : LatestFlagVersion} (ha : a ∈ rows) (hb : b ∈ rows) (hkey : a.flagKey = b.flagKey) :
    a = b := by
  obtain ⟨f, hf, hfp, v, hv, rfl⟩ := (h.1 a).mp ha
  obtain ⟨g, hg, hgp, w, hw, rfl⟩ := (h.1 b).mp hb
  obtain rfl : f = g :=
    inj_on_of_nodup_map t.flags_project_id_key hf hg (Prod.ext (hfp.trans hgp.symm) hkey)
  exact inj_on_of_nodup_map h.2 ha hb (hv.2.1.trans hw.2.1.symm)

/-- The bundle has the keys of the flags that have a version, with their highest IRs. -/
theorem Returned.bundle {rows : List LatestFlagVersion} (h : Returned t projectId rows) {env : Env}
    {flags : List (String × RulesTree)} (hflags : compileRows env rows = .ok flags) (key : String)
    (tree : RulesTree) : flags.lookup key = some tree ↔
      ∃ f ∈ t.flags, f.projectId = projectId ∧ f.key = key ∧ ∃ v, t.Highest f v ∧
        decodeTree v.compiled = .ok tree := by
  have hrow : ∀ row ∈ rows, ∃ tree', decodeTree row.compiled = .ok tree' ∧
      flags.lookup row.flagKey = some tree' := by
    intro row hrow
    obtain ⟨tree', htree', hlookup⟩ :=
      insertEach_lookup hflags hrow fun a ha hkey => h.unique ha hrow hkey
    exact ⟨tree', mapError_eq_ok.mp htree', hlookup⟩
  constructor
  · intro hlookup
    -- some row has the key, or nothing would be found
    obtain ⟨row, hmem, rfl⟩ : ∃ row ∈ rows, row.flagKey = key := by
      by_contra hnone
      push Not at hnone
      rw [insertEach_other hflags hnone] at hlookup
      nomatch hlookup
    obtain ⟨tree', htree', hlookup'⟩ := hrow row hmem
    obtain ⟨f, hf, hproject, v, hv, rfl⟩ := (h.1 row).mp hmem
    rw [hlookup] at hlookup'
    injection hlookup' with hlookup'
    exact ⟨f, hf, hproject, rfl, v, hv, hlookup' ▸ htree'⟩
  · rintro ⟨f, hf, hproject, rfl, v, hv, htree⟩
    obtain ⟨tree', htree', hlookup⟩ :=
      hrow (columns f v) ((h.1 _).mpr ⟨f, hf, hproject, v, hv, rfl⟩)
    have htree'' : decodeTree v.compiled = .ok tree' := htree'
    rw [htree] at htree''
    injection htree'' with htree''
    rw [htree'']
    exact hlookup

end Queries

/-- **The two queries agree.**  Postgres and SQLite return the same rows, which are the highest
    versions of the flags of the project, one for each flag that has a version.  A bundle made of
    either has those keys, each with the IR of its highest version, and it is made iff these IRs
    decode. -/
theorem latest_versions_agree (env : Env) (t : Tables) (projectId : Nat)
    (pg sqlite : List LatestFlagVersion) (hpg : t.PgListLatest projectId pg)
    (hsqlite : t.SqliteListLatest projectId sqlite) :
    pg.Perm sqlite ∧
    (∀ row, row ∈ pg ↔ t.IsLatest projectId row) ∧
    (pg.map LatestFlagVersion.flagId).Nodup ∧
    (∀ f ∈ t.flags, f.projectId = projectId → (∃ v ∈ t.versions, v.flagId = f.id) →
      ∃ row ∈ pg, row.flagId = f.id) ∧
    ∀ rows, rows = pg ∨ rows = sqlite →
      ((∃ flags, compileRows env rows = .ok flags) ↔
        ∀ row, t.IsLatest projectId row → ∃ tree, decodeTree row.compiled = .ok tree) ∧
      ∀ flags, compileRows env rows = .ok flags → ∀ key tree, flags.lookup key = some tree ↔
        ∃ f ∈ t.flags, f.projectId = projectId ∧ f.key = key ∧ ∃ v, t.Highest f v ∧
          decodeTree v.compiled = .ok tree := by
  have hpg' := returned_pg hpg
  have hsqlite' := returned_sqlite hsqlite
  refine ⟨hpg'.perm hsqlite', hpg'.1, hpg'.2, ?_, ?_⟩
  · rintro f hf hproject ⟨v, hv, hid⟩
    -- SQLite numbers the rows of every group, so every group has a first
    obtain ⟨numbered, hnumbered, rfl⟩ := hsqlite
    obtain ⟨row, hrow, hrowid⟩ := exists_numberOne hnumbered
      (mem_joined.mpr ⟨f, hf, hproject, v, hv, hid, rfl⟩)
    exact ⟨row, (hpg'.1 row).mpr ((hsqlite'.1 row).mp hrow), hrowid.trans hid⟩
  · intro rows hrows
    have hreturned : Returned t projectId rows := by
      rcases hrows with rfl | rfl
      · exact hpg'
      · exact hsqlite'
    refine ⟨?_, fun flags hflags => hreturned.bundle hflags⟩
    rw [compileRows, insertEach_isOk_iff]
    simp only [mapError_eq_ok, hreturned.1]

/-- A flag with two versions, one with none, and a version of a flag of another project. -/
def smallTables : Tables where
  flags := [⟨1, 7, "checkout"⟩, ⟨2, 7, "search"⟩, ⟨3, 8, "checkout"⟩]
  versions := [⟨1, 1, 1, "json", .null, 0⟩, ⟨2, 3, 1, "cel", .null, 0⟩, ⟨3, 1, 2, "cel", .null, 0⟩]
  flags_pkey := by decide
  flags_project_id_key := by decide
  flag_versions_pkey := by decide
  flag_versions_flag_id_version := by decide

def checkoutRow : LatestFlagVersion := ⟨"checkout", 1, 2, "cel", .null, 0⟩

def oldCheckoutRow : LatestFlagVersion := ⟨"checkout", 1, 1, "json", .null, 0⟩

/-- Both backends return the second version of `checkout`. -/
theorem small_latest_versions : smallTables.PgListLatest 7 [checkoutRow] ∧
    smallTables.SqliteListLatest 7 [checkoutRow] ∧ [checkoutRow].Perm [checkoutRow] := by
  have hpg : smallTables.PgListLatest 7 [checkoutRow] := by
    refine ⟨[checkoutRow, oldCheckoutRow], ⟨by decide +kernel, ?_⟩, by decide +kernel⟩
    exact pairwise_pair.mpr (.inr ⟨rfl, by decide⟩)
  have hsqlite : smallTables.SqliteListLatest 7 [checkoutRow] := by
    refine ⟨[(oldCheckoutRow, 2), (checkoutRow, 1)], ⟨by decide +kernel, fun k => ?_⟩,
      by decide +kernel⟩
    by_cases hk : k = 1
    · subst hk
      refine ⟨[checkoutRow, oldCheckoutRow], ⟨by decide +kernel, ?_⟩, by decide +kernel⟩
      exact pairwise_pair.mpr (show (1 : Int) ≤ 2 by decide)
    · have hnone : (1 = k) = False := eq_false (Ne.symm hk)
      have hrows : smallTables.joined 7 = [oldCheckoutRow, checkoutRow] := by decide +kernel
      refine ⟨[], ⟨?_, List.Pairwise.nil⟩, ?_⟩
      · rw [hrows]
        simp [oldCheckoutRow, checkoutRow, hnone]
      · simp [oldCheckoutRow, checkoutRow, hnone]
  exact ⟨hpg, hsqlite, (latest_versions_agree .plain smallTables 7 _ _ hpg hsqlite).1⟩

end FalseFlag.Latest
