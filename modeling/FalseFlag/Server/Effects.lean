/-
  What a mutation does to the tables (internal/store/pg_tx.go and sqlite_tx.go, with the constraints
  of db/migrations).

  The six tables are seen as one: a row has a table, an id, a key that is unique in its table, and
  references to rows of other tables.  A mutation that succeeds inserts one row with a new id and a
  new key whose references are there, or it is `UpdateSegment`, which changes a segment in place and
  leaves its id, project, key and creation time alone.

  * `Integrity` — ids and keys are unique, references resolve, versions count `1, …, n`: kept by
    every mutation;
  * `Grows` — rows are never removed, nor changed but for segments; the audit log only gets longer.
-/
import FalseFlag.Server.Handlers

namespace FalseFlag.Mutators

open Versioned Fallible
open List hiding map_const

/-! ## Rows of any table -/

inductive Table where
  | projects | environments | flags | segments | versions | snapshots
  deriving DecidableEq

/-- The rows of a table, in the order they were inserted. -/
def Table.rows (s : Store) : Table → List Row
  | .projects => s.projects.map .project
  | .environments => s.environments.map .environment
  | .flags => s.flags.map .flag
  | .segments => s.segments.map .segment
  | .versions => s.versions.flagVersions.rows.map .flagVersion
  | .snapshots => s.versions.snapshots.rows.map .snapshot

namespace Row

def table : Row → Table
  | .project _ => .projects
  | .environment _ => .environments
  | .flag _ => .flags
  | .segment _ => .segments
  | .flagVersion _ => .versions
  | .snapshot _ => .snapshots

def id : Row → Nat
  | .project r => r.id
  | .environment r => r.id
  | .flag r => r.id
  | .segment r => r.id
  | .flagVersion r => r.id
  | .snapshot r => r.id

/-- What is `UNIQUE` in a table. -/
inductive Key where
  | slug (slug : String)
  | named (projectId : Nat) (name : String)
  | numbered (owner version : Nat)

def key : Row → Key
  | .project r => .slug r.slug
  | .environment r => .named r.projectId r.slug
  | .flag r => .named r.projectId r.key
  | .segment r => .named r.projectId r.key
  | .flagVersion r => .numbered r.flagId r.version
  | .snapshot r => .numbered r.projectId r.version

/-- The rows that a row `REFERENCES`. -/
def references : Row → List (Table × Nat)
  | .project _ => []
  | .environment r => [(.projects, r.projectId)]
  | .flag r => [(.projects, r.projectId)]
  | .segment r => [(.projects, r.projectId)]
  | .flagVersion r => [(.flags, r.flagId)]
  | .snapshot r => (.projects, r.projectId) :: r.params.environmentId.toList.map (.environments, ·)

/-- What no mutation changes: all of a row, but for segments. -/
def fixed : Row → Row
  | .segment r => .segment { r with name := "", description := "", predicate := .null, updatedAt := 0 }
  | row => row

theorem fixed_id (r : Row) : r.fixed.id = r.id := by cases r <;> rfl

theorem fixed_key (r : Row) : r.fixed.key = r.key := by cases r <;> rfl

theorem fixed_references (r : Row) : r.fixed.references = r.references := by cases r <;> rfl

/-- Only segments are changed. -/
theorem eq_of_fixed {r r' : Row} (h : r.fixed = r'.fixed) (ht : r.table ≠ .segments) : r = r' := by
  cases r <;> cases r' <;> first | exact h | cases h | exact absurd rfl ht

end Row

variable {s : Store}

theorem table_of_mem {row : Row} : ∀ {table : Table}, row ∈ table.rows s →
    row.table = table := by
  intro table h
  cases table <;> obtain ⟨r, -, rfl⟩ := mem_map.mp h <;> rfl

/-! ## What a mutation has done -/

/-- The row that a mutation inserts; the version is given. -/
inductive Mutation.Makes (g : Given) : Mutation → Row → Prop
  | project (p : CreateProjectParams) :
    Makes g (.createProject p) (.project ⟨g.id, p.slug, p.displayName, p.strategy, g.now, g.now⟩)
  | environment (p : CreateEnvironmentParams) :
    Makes g (.createEnvironment p) (.environment ⟨g.id, p.projectId, p.slug, p.name, g.now⟩)
  | flag (p : CreateFlagParams) :
    Makes g (.createFlag p) (.flag ⟨g.id, p.projectId, p.key, p.name, p.description, p.valueType,
      p.defaultValue, g.now, g.now⟩)
  | segment (p : CreateSegmentParams) :
    Makes g (.createSegment p) (.segment ⟨g.id, p.projectId, p.key, p.name, p.description,
      p.predicate, g.now, g.now⟩)
  | snapshot (p : CompileSnapshotParams) (version : Nat) :
    Makes g (.compileSnapshot p) (.snapshot ⟨g.id, p, version⟩)
  | flagVersion (p : PublishFlagVersionParams) (version : Nat) :
    Makes g (.publishFlagVersion p) (.flagVersion ⟨g.id, p, version⟩)

variable {g : Given} {m : Mutation}

theorem Mutation.Makes.id {row : Row} (h : m.Makes g row) :
    row.id = g.id := by
  cases h <;> rfl

/-- One row is new: so are its id and its key, and what it references is there. -/
structure Inserted (s s' : Store) (row : Row) : Prop where
  rows : ∀ table : Table, table.rows s' = table.rows s ++ if row.table = table then [row] else []
  id : ∀ r ∈ row.table.rows s, r.id ≠ row.id
  key : ∀ r ∈ row.table.rows s, r.key ≠ row.key
  references : ∀ ref ∈ row.references, ∃ r ∈ ref.1.rows s, r.id = ref.2
  flagNumbers : s.versions.flagVersions.Numbered → s'.versions.flagVersions.Numbered
  snapshotNumbers : s.versions.snapshots.Numbered → s'.versions.snapshots.Numbered

/-- A segment is changed in place. -/
structure Updated (p : UpdateSegmentParams) (now : Nat) (s s' : Store) (row : Row) : Prop where
  found : ∃ r, s.segments.find? p.selects = some r ∧ row = .segment (p.apply now r)
  store : s' = { s with segments := s.segments.map fun r => if p.selects r then p.apply now r else r }

section Statements

variable {g : Given} {s : Store}

theorem refuseIf_ok {c : Prop} [Decidable c] {v : Violation} : refuseIf c v = .ok () ↔ ¬ c := by
  unfold refuseIf
  by_cases hc : c
  · rw [if_pos hc]
    exact ⟨fun h => (nomatch h), fun h => absurd hc h⟩
  · rw [if_neg hc]
    exact ⟨fun _ => hc, fun _ => rfl⟩

/-- There is a row with this id. -/
theorem exists_row {β : Type} (f : β → Row) {rows : List β} {id : Nat}
    (h : ¬ ∀ r ∈ rows, (f r).id ≠ id) : ∃ r ∈ rows.map f, r.id = id := by
  push Not at h
  obtain ⟨r, hr, hid⟩ := h
  exact ⟨f r, mem_map_of_mem hr, hid⟩

variable {s' : Store}

theorem new_id {α : Type} {f : α → Row} {rows : List α} {id : Nat}
    (h : ¬ ∃ r ∈ rows, (f r).id = id) : ∀ r ∈ rows.map f, r.id ≠ id :=
  forall_mem_map.mpr fun r hr heq => h ⟨r, hr, heq⟩

theorem insertProject_ok {p : CreateProjectParams} {r : Project}
    (h : insertProject g s p = .ok (s', r)) :
    (Mutation.createProject p).Makes g (.project r) ∧ Inserted s s' (.project r) := by
  unfold insertProject at h
  simp only [seq_eq_ok, refuseIf_ok] at h
  obtain ⟨-, -, hid, hslug, h⟩ := h
  cases h
  refine ⟨.project p, ?_, ?_, ?_, nofun, fun h => h, fun h => h⟩
  · intro table
    cases table <;> first | exact (append_nil _).symm | exact map_append
  · exact new_id hid
  · refine forall_mem_map.mpr fun r hr heq => hslug ⟨r, hr, ?_⟩
    injection heq

theorem insertFlag_ok {p : CreateFlagParams} {r : Flag} (h : insertFlag g s p = .ok (s', r)) :
    (Mutation.createFlag p).Makes g (.flag r) ∧ Inserted s s' (.flag r) := by
  unfold insertFlag at h
  simp only [seq_eq_ok, refuseIf_ok] at h
  obtain ⟨-, -, hid, hkey, hproject, h⟩ := h
  cases h
  refine ⟨.flag p, ?_, ?_, ?_, ?_, fun h => h, fun h => h⟩
  · intro table
    cases table <;> first | exact (append_nil _).symm | exact map_append
  · exact new_id hid
  · refine forall_mem_map.mpr fun r hr heq => hkey ⟨r, hr, ?_⟩
    injection heq with hproject hkey
    exact ⟨hproject, hkey⟩
  · exact forall_mem_singleton.mpr (exists_row .project hproject)

theorem insertEnvironment_ok {p : CreateEnvironmentParams} {r : Environment}
    (h : insertEnvironment g s p = .ok (s', r)) :
    (Mutation.createEnvironment p).Makes g (.environment r) ∧ Inserted s s' (.environment r) := by
  unfold insertEnvironment at h
  simp only [seq_eq_ok, refuseIf_ok] at h
  obtain ⟨-, hid, hkey, hproject, h⟩ := h
  cases h
  refine ⟨.environment p, ?_, ?_, ?_, ?_, fun h => h, fun h => h⟩
  · intro table
    cases table <;> first | exact (append_nil _).symm | exact map_append
  · exact new_id hid
  · refine forall_mem_map.mpr fun r hr heq => hkey ⟨r, hr, ?_⟩
    injection heq with hproject hkey
    exact ⟨hproject, hkey⟩
  · exact forall_mem_singleton.mpr (exists_row .project hproject)

theorem insertSegment_ok {p : CreateSegmentParams} {r : Segment}
    (h : insertSegment g s p = .ok (s', r)) :
    (Mutation.createSegment p).Makes g (.segment r) ∧ Inserted s s' (.segment r) := by
  unfold insertSegment at h
  simp only [seq_eq_ok, refuseIf_ok] at h
  obtain ⟨-, hid, hkey, hproject, h⟩ := h
  cases h
  refine ⟨.segment p, ?_, ?_, ?_, ?_, fun h => h, fun h => h⟩
  · intro table
    cases table <;> first | exact (append_nil _).symm | exact map_append
  · exact new_id hid
  · refine forall_mem_map.mpr fun r hr heq => hkey ⟨r, hr, ?_⟩
    injection heq with hproject hkey
    exact ⟨hproject, hkey⟩
  · exact forall_mem_singleton.mpr (exists_row .project hproject)

theorem updateSegmentRow_ok {p : UpdateSegmentParams} {r : Segment}
    (h : updateSegmentRow g s p = .ok (s', r)) : Updated p g.now s s' (.segment r) := by
  unfold updateSegmentRow at h
  simp only [seq_eq_ok] at h
  obtain ⟨-, h⟩ := h
  rcases hfind : s.segments.find? p.selects with _ | r'
  · rw [hfind] at h
    cases h
  · rw [hfind] at h
    cases h
    exact ⟨⟨r', hfind, rfl⟩, rfl⟩

theorem txCompileSnapshot_ok {b : Backend} {p : CompileSnapshotParams} {r : SnapshotRow}
    (h : txCompileSnapshot b g s p = .ok (s', r)) :
    (Mutation.compileSnapshot p).Makes g (.snapshot r) ∧ Inserted s s' (.snapshot r) := by
  rw [txCompileSnapshot] at h
  rcases hrefused : snapshotRefused g s p with refused | _
  · rw [hrefused] at h
    cases h
  · rw [hrefused] at h
    cases h
    simp only [snapshotRefused, seq_eq_ok, refuseIf_ok] at hrefused
    obtain ⟨-, hid, hproject, henv⟩ := hrefused
    refine ⟨.snapshot p _, ?_, ?_, ?_, ?_, fun h => h, fun h => h.append rfl⟩
    · intro table
      cases table <;> first | exact (append_nil _).symm | exact map_append
    · exact new_id hid
    · refine forall_mem_map.mpr fun r hr heq => ?_
      injection heq with howner hversion
      have hlt := Log.version_lt_next _ ((Log.mem_of _).mpr ⟨hr, howner⟩)
      exact absurd hversion (Nat.ne_of_lt hlt)
    · refine forall_mem_cons.mpr ⟨?_, forall_mem_map.mpr fun e he => ?_⟩
      · exact exists_row .project hproject
      · exact exists_row .environment fun hno => refuseIf_ok.mp henv ⟨e, he, hno⟩

theorem txPublishFlagVersion_ok {b : Backend} {p : PublishFlagVersionParams}
    {r : FlagVersionRow} (h : txPublishFlagVersion b g s p = .ok (s', r)) :
    (Mutation.publishFlagVersion p).Makes g (.flagVersion r) ∧ Inserted s s' (.flagVersion r) := by
  rw [txPublishFlagVersion] at h
  rcases hrefused : flagVersionRefused g s p with refused | _
  · rw [hrefused] at h
    cases h
  · rw [hrefused] at h
    cases h
    simp only [flagVersionRefused, seq_eq_ok, refuseIf_ok] at hrefused
    obtain ⟨-, -, hid, hflag⟩ := hrefused
    refine ⟨.flagVersion p _, ?_, ?_, ?_, ?_, fun h => h.append rfl, fun h => h⟩
    · intro table
      cases table <;> first | exact (append_nil _).symm | exact map_append
    · exact new_id hid
    · refine forall_mem_map.mpr fun r hr heq => ?_
      injection heq with howner hversion
      have hlt := Log.version_lt_next _ ((Log.mem_of _).mpr ⟨hr, howner⟩)
      exact absurd hversion (Nat.ne_of_lt hlt)
    · exact forall_mem_singleton.mpr (exists_row .flag (refuseIf_ok.mp hflag))

end Statements

variable {s' : Store}

/-- **All a mutation that succeeds has done.** -/
theorem tx_ok {b : Backend} {row : Row} (h : m.tx b g s = .ok (s', row)) :
    (m.Makes g row ∧ Inserted s s' row) ∨ ∃ p, m = .updateSegment p ∧ Updated p g.now s s' row := by
  cases m with
  | createProject p =>
    obtain ⟨⟨s1, r⟩, hr, heq⟩ := map_eq_ok.mp h
    cases heq
    exact .inl (insertProject_ok (mapError_eq_ok.mp hr))
  | createFlag p =>
    obtain ⟨⟨s1, r⟩, hr, heq⟩ := map_eq_ok.mp h
    cases heq
    exact .inl (insertFlag_ok (mapError_eq_ok.mp hr))
  | createEnvironment p =>
    obtain ⟨⟨s1, r⟩, hr, heq⟩ := map_eq_ok.mp h
    cases heq
    exact .inl (insertEnvironment_ok (mapError_eq_ok.mp hr))
  | createSegment p =>
    obtain ⟨⟨s1, r⟩, hr, heq⟩ := map_eq_ok.mp h
    cases heq
    exact .inl (insertSegment_ok (mapError_eq_ok.mp hr))
  | updateSegment p =>
    obtain ⟨⟨s1, r⟩, hr, heq⟩ := map_eq_ok.mp h
    cases heq
    exact .inr ⟨p, rfl, updateSegmentRow_ok (mapError_eq_ok.mp hr)⟩
  | compileSnapshot p =>
    obtain ⟨⟨s1, r⟩, hr, heq⟩ := map_eq_ok.mp h
    cases heq
    exact .inl (txCompileSnapshot_ok hr)
  | publishFlagVersion p =>
    obtain ⟨⟨s1, r⟩, hr, heq⟩ := map_eq_ok.mp h
    cases heq
    exact .inl (txPublishFlagVersion_ok hr)

/-! ### Checks, then the effect -/

namespace Mutation

/-- What the error of a mutation is wrapped with. -/
def text : Mutation → String
  | .createProject _ => "store: create project"
  | .createFlag _ => "store: create flag"
  | .createEnvironment _ => "store: create environment"
  | .createSegment _ => "store: create segment"
  | .updateSegment _ => "store: update segment"
  | .compileSnapshot _ => "store: create snapshot"
  | .publishFlagVersion _ => "store: create version"

section Normal

variable (g : Given) (s : Store)

/-- What a mutation fails for. -/
def checks : Mutation → Except Refused Unit
  | .createProject p => do
    accept g (.createProject p)
    refuseIf (p.strategy ∉ ["json", "cel", "typescript"]) .check
    refuseIf (∃ r ∈ s.projects, r.id = g.id) .primaryKey
    refuseIf (∃ r ∈ s.projects, r.slug = p.slug) .unique
  | .createFlag p => do
    accept g (.createFlag p)
    refuseIf (p.valueType ∉ ["boolean", "string", "number", "object"]) .check
    refuseIf (∃ r ∈ s.flags, r.id = g.id) .primaryKey
    refuseIf (∃ r ∈ s.flags, r.projectId = p.projectId ∧ r.key = p.key) .unique
    refuseIf (∀ r ∈ s.projects, r.id ≠ p.projectId) .foreignKey
  | .createEnvironment p => do
    accept g (.createEnvironment p)
    refuseIf (∃ r ∈ s.environments, r.id = g.id) .primaryKey
    refuseIf (∃ r ∈ s.environments, r.projectId = p.projectId ∧ r.slug = p.slug) .unique
    refuseIf (∀ r ∈ s.projects, r.id ≠ p.projectId) .foreignKey
  | .createSegment p => do
    accept g (.createSegment p)
    refuseIf (∃ r ∈ s.segments, r.id = g.id) .primaryKey
    refuseIf (∃ r ∈ s.segments, r.projectId = p.projectId ∧ r.key = p.key) .unique
    refuseIf (∀ r ∈ s.projects, r.id ≠ p.projectId) .foreignKey
  | .updateSegment p => do
    accept g (.updateSegment p)
    match s.segments.find? p.selects with
    | none => .error .noRows
    | some _ => .ok ()
  | .compileSnapshot p => snapshotRefused g s p
  | .publishFlagVersion p => flagVersionRefused g s p

/-- The row that a mutation returns; an update that finds none returns none. -/
def row : Mutation → Row
  | .createProject p => .project ⟨g.id, p.slug, p.displayName, p.strategy, g.now, g.now⟩
  | .createFlag p => .flag ⟨g.id, p.projectId, p.key, p.name, p.description, p.valueType,
      p.defaultValue, g.now, g.now⟩
  | .createEnvironment p => .environment ⟨g.id, p.projectId, p.slug, p.name, g.now⟩
  | .createSegment p =>
    .segment ⟨g.id, p.projectId, p.key, p.name, p.description, p.predicate, g.now, g.now⟩
  | .updateSegment p => .segment (p.apply g.now
      ((s.segments.find? p.selects).getD
        ⟨g.id, p.projectId, p.key, p.name, p.description, p.predicate, g.now, g.now⟩))
  | .compileSnapshot p => .snapshot ⟨g.id, p, s.versions.snapshots.next p.projectId⟩
  | .publishFlagVersion p => .flagVersion ⟨g.id, p, s.versions.flagVersions.next p.flagId⟩

/-- The tables after a mutation. -/
def after : Mutation → Store
  | .createProject p => { s with
      projects := s.projects ++ [⟨g.id, p.slug, p.displayName, p.strategy, g.now, g.now⟩] }
  | .createFlag p => { s with
      flags := s.flags ++ [⟨g.id, p.projectId, p.key, p.name, p.description, p.valueType,
        p.defaultValue, g.now, g.now⟩] }
  | .createEnvironment p => { s with
      environments := s.environments ++ [⟨g.id, p.projectId, p.slug, p.name, g.now⟩] }
  | .createSegment p => { s with
      segments := s.segments ++
        [⟨g.id, p.projectId, p.key, p.name, p.description, p.predicate, g.now, g.now⟩] }
  | .updateSegment p => { s with
      segments := s.segments.map fun r => if p.selects r then p.apply g.now r else r }
  | .compileSnapshot p => { s with versions := { s.versions with
      snapshots := s.versions.snapshots.append
        ⟨g.id, p, s.versions.snapshots.next p.projectId⟩ rfl } }
  | .publishFlagVersion p => { s with versions := { s.versions with
      flagVersions := s.versions.flagVersions.append
        ⟨g.id, p, s.versions.flagVersions.next p.flagId⟩ rfl } }

end Normal

/-- The error of a statement that checks and then acts. -/
theorem wrapErr_checked {β : Type} {x : Except Refused (Store × β)} {c : Except Refused Unit}
    {y : Store × β} (h : x = c.map fun _ => y) (b : Backend) (f : β → Row) (text : String) :
    (wrapErr text b x).map (Prod.map id f) =
      (c.mapError fun r => DbError.wrap text (driverError b r)).map fun _ => (y.1, f y.2) := by
  subst h
  rcases c with r | u <;> rfl

/-- **A mutation checks, then acts.** -/
theorem tx_eq (b : Backend) (g : Given) (s : Store) (m : Mutation) :
    m.tx b g s = ((m.checks g s).mapError fun r => .wrap m.text (driverError b r)).map
      fun _ => (m.after g s, m.row g s) := by
  cases m with
  | createProject p =>
    have h : insertProject g s p = (checks g s (.createProject p)).map fun _ =>
        (after g s (.createProject p), ⟨g.id, p.slug, p.displayName, p.strategy, g.now, g.now⟩) := by
      rw [checks]
      simp only [insertProject, bind_map, map_const]
      rfl
    exact wrapErr_checked h b Row.project "store: create project"
  | createFlag p =>
    have h : insertFlag g s p = (checks g s (.createFlag p)).map fun _ =>
        (after g s (.createFlag p), ⟨g.id, p.projectId, p.key, p.name, p.description, p.valueType,
          p.defaultValue, g.now, g.now⟩) := by
      rw [checks]
      simp only [insertFlag, bind_map, map_const]
      rfl
    exact wrapErr_checked h b Row.flag "store: create flag"
  | createEnvironment p =>
    have h : insertEnvironment g s p = (checks g s (.createEnvironment p)).map fun _ =>
        (after g s (.createEnvironment p), ⟨g.id, p.projectId, p.slug, p.name, g.now⟩) := by
      rw [checks]
      simp only [insertEnvironment, bind_map, map_const]
      rfl
    exact wrapErr_checked h b Row.environment "store: create environment"
  | createSegment p =>
    have h : insertSegment g s p = (checks g s (.createSegment p)).map fun _ =>
        (after g s (.createSegment p), ⟨g.id, p.projectId, p.key, p.name, p.description,
          p.predicate, g.now, g.now⟩) := by
      rw [checks]
      simp only [insertSegment, bind_map, map_const]
      rfl
    exact wrapErr_checked h b Row.segment "store: create segment"
  | updateSegment p =>
    rw [tx, txUpdateSegment, updateSegmentRow, checks, row]
    rcases accept g (.updateSegment p) with r | u
    · rfl
    · rcases s.segments.find? p.selects with _ | r <;> rfl
  | compileSnapshot p =>
    rw [tx, txCompileSnapshot, checks]
    rcases snapshotRefused g s p with r | u <;> rfl
  | publishFlagVersion p =>
    rw [tx, txPublishFlagVersion, checks]
    rcases flagVersionRefused g s p with r | u <;> rfl

end Mutation

/-- A segment that was changed is the segment it was. -/
theorem Updated.fixed {p : UpdateSegmentParams} {now : Nat} {row : Row}
    (h : Updated p now s s' row) (table : Table) :
    (table.rows s').map Row.fixed = (table.rows s).map Row.fixed := by
  rw [h.store]
  cases table with
  | segments =>
    simp only [Table.rows, map_map]
    refine map_congr_left fun r _ => ?_
    show (Row.segment (if p.selects r then p.apply now r else r)).fixed = (Row.segment r).fixed
    split
    · rfl
    · rfl
  | projects => rfl
  | environments => rfl
  | flags => rfl
  | versions => rfl
  | snapshots => rfl

/-! ## Integrity -/

/-- The constraints of the schema, and versions without gaps. -/
structure Integrity (s : Store) : Prop where
  ids : ∀ table : Table, ((table.rows s).map Row.id).Nodup
  keys : ∀ table : Table, ((table.rows s).map Row.key).Nodup
  references : ∀ (table : Table), ∀ row ∈ table.rows s, ∀ ref ∈ row.references,
    ∃ r ∈ ref.1.rows s, r.id = ref.2
  flagNumbers : s.versions.flagVersions.Numbered
  snapshotNumbers : s.versions.snapshots.Numbered

theorem integrity_empty : Integrity emptyStore where
  ids table := by cases table <;> exact nodup_nil
  keys table := by cases table <;> exact nodup_nil
  references table row hrow := by cases table <;> exact absurd hrow not_mem_nil
  flagNumbers := Log.numbered_empty
  snapshotNumbers := Log.numbered_empty

variable {β : Type}

/-- What is read off the part that is never changed. -/
theorem map_eq_of_fixed {f : Row → β} (hf : ∀ r : Row, f r.fixed = f r) {rows rows' : List Row}
    (h : rows'.map Row.fixed = rows.map Row.fixed) : rows'.map f = rows.map f := by
  have hmap : ∀ rs : List Row, rs.map f = (rs.map Row.fixed).map f := by
    intro rs
    rw [map_map]
    exact map_congr_left fun r _ => (hf r).symm
  rw [hmap, hmap rows, h]

/-- One more, different from all there are. -/
theorem nodup_snoc {f : Row → β} {rows : List Row} {row : Row}
    (h : (rows.map f).Nodup) (hnew : ∀ r ∈ rows, f r ≠ f row) : ((rows ++ [row]).map f).Nodup := by
  rw [map_append, nodup_append]
  refine ⟨h, nodup_singleton _, fun a ha b hb hab => ?_⟩
  obtain ⟨r, hr, rfl⟩ := mem_map.mp ha
  exact hnew r hr (hab.trans (mem_singleton.mp hb))

theorem Inserted.mem {row : Row} (h : Inserted s s' row) {table : Table} {r : Row}
    (hr : r ∈ table.rows s) : r ∈ table.rows s' := by
  rw [h.rows]
  exact mem_append_left _ hr

/-- What is in a table was there, or is the new row. -/
theorem Inserted.cases {row : Row} (h : Inserted s s' row) (table : Table) {r : Row}
    (hr : r ∈ table.rows s') : r ∈ table.rows s ∨ r = row := by
  rw [h.rows] at hr
  rcases mem_append.mp hr with hr | hr
  · exact .inl hr
  · split at hr
    · exact .inr (mem_singleton.mp hr)
    · exact absurd hr not_mem_nil

theorem Inserted.nodup {f : Row → β} {row : Row} (h : Inserted s s' row)
    (hs : ∀ table : Table, ((table.rows s).map f).Nodup)
    (hnew : ∀ r ∈ row.table.rows s, f r ≠ f row) (table : Table) :
    ((table.rows s').map f).Nodup := by
  rw [h.rows]
  split
  · rename_i htable
    subst htable
    exact nodup_snoc (hs _) hnew
  · rw [append_nil]
    exact hs table

theorem Integrity.inserted {row : Row} (hs : Integrity s) (h : Inserted s s' row) :
    Integrity s' where
  ids := h.nodup hs.ids h.id
  keys := h.nodup hs.keys h.key
  references table r hr ref href := by
    rcases h.cases table hr with hr | rfl
    · obtain ⟨r', hr', hid⟩ := hs.references table r hr ref href
      exact ⟨r', h.mem hr', hid⟩
    · obtain ⟨r', hr', hid⟩ := h.references ref href
      exact ⟨r', h.mem hr', hid⟩
  flagNumbers := h.flagNumbers hs.flagNumbers
  snapshotNumbers := h.snapshotNumbers hs.snapshotNumbers

/-- A row is still there, up to what an update changes. -/
theorem mem_of_fixed {table : Table}
    (h : (table.rows s).map Row.fixed = (table.rows s').map Row.fixed) {r : Row}
    (hr : r ∈ table.rows s) : ∃ r' ∈ table.rows s', r'.fixed = r.fixed := by
  have hmem := mem_map_of_mem (f := Row.fixed) hr
  rw [h] at hmem
  exact mem_map.mp hmem

theorem Integrity.updated {p : UpdateSegmentParams} {now : Nat} {row : Row}
    (hs : Integrity s) (h : Updated p now s s' row) : Integrity s' where
  ids table := map_eq_of_fixed Row.fixed_id (h.fixed table) ▸ hs.ids table
  keys table := map_eq_of_fixed Row.fixed_key (h.fixed table) ▸ hs.keys table
  references table r hr ref href := by
    obtain ⟨r0, hr0, hfixed⟩ := mem_of_fixed (h.fixed table) hr
    rw [← r.fixed_references, ← hfixed, r0.fixed_references] at href
    obtain ⟨r1, hr1, hid⟩ := hs.references table r0 hr0 ref href
    obtain ⟨r2, hr2, hfixed2⟩ := mem_of_fixed (h.fixed ref.1).symm hr1
    rw [← r1.fixed_id, ← hfixed2, r2.fixed_id] at hid
    exact ⟨r2, hr2, hid⟩
  flagNumbers := by
    rw [h.store]
    exact hs.flagNumbers
  snapshotNumbers := by
    rw [h.store]
    exact hs.snapshotNumbers

/-- Every mutation keeps the tables whole. -/
theorem Integrity.tx {b : Backend} {row : Row}
    (hs : Integrity s) (h : m.tx b g s = .ok (s', row)) : Integrity s' := by
  rcases tx_ok h with ⟨-, hinserted⟩ | ⟨p, -, hupdated⟩
  · exact hs.inserted hinserted
  · exact hs.updated hupdated

/-- A project is known by its slug, -/
theorem Integrity.project_eq (hs : Integrity s) {r r' : Project} (hr : r ∈ s.projects)
    (hr' : r' ∈ s.projects) (h : r.slug = r'.slug) : r = r' := by
  have heq := inj_on_of_nodup_map (hs.keys .projects) (mem_map_of_mem hr)
    (mem_map_of_mem hr') (congrArg Row.Key.slug h)
  cases heq
  rfl

/-- and a flag by its project and key. -/
theorem Integrity.flag_eq (hs : Integrity s) {r r' : Flag} (hr : r ∈ s.flags)
    (hr' : r' ∈ s.flags) (hproject : r.projectId = r'.projectId) (hkey : r.key = r'.key) :
    r = r' := by
  have hkeys : (Row.flag r).key = (Row.flag r').key := by
    rw [Row.key, Row.key, hproject, hkey]
  have heq := inj_on_of_nodup_map (hs.keys .flags) (mem_map_of_mem hr)
    (mem_map_of_mem hr') hkeys
  cases heq
  rfl

/-- A flag is known by its id, -/
theorem Integrity.flag_of_id (hs : Integrity s) {r r' : Flag} (hr : r ∈ s.flags)
    (hr' : r' ∈ s.flags) (h : r.id = r'.id) : r = r' := by
  have heq := inj_on_of_nodup_map (hs.ids .flags) (mem_map_of_mem hr)
    (mem_map_of_mem hr') h
  cases heq
  rfl

/-- and so is a project. -/
theorem Integrity.project_of_id (hs : Integrity s) {r r' : Project}
    (hr : r ∈ s.projects) (hr' : r' ∈ s.projects) (h : r.id = r'.id) : r = r' := by
  have heq := inj_on_of_nodup_map (hs.ids .projects) (mem_map_of_mem hr)
    (mem_map_of_mem hr') h
  cases heq
  rfl

end FalseFlag.Mutators

namespace FalseFlag.Server

open List
open Mutators (Table table_of_mem tx_ok)

/-! ## A transaction -/

/-- A transaction whose mutation is refused leaves everything as it is; -/
theorem execute_refused {b : Backend} {d : Db} {t : Audited} {g : Mutators.Given}
    {r : Mutators.Refused} (h : t.mutation.checks g d.tables = .error r) :
    execute b d t (.ok g) = (d, .error (.wrap t.mutation.text (Mutators.driverError b r))) := by
  rw [execute, Mutators.Mutation.tx_eq, h]
  rfl

/-- one whose mutation passes its checks does it, and appends its event. -/
theorem execute_done {b : Backend} {d : Db} {t : Audited} {g : Mutators.Given}
    (h : t.mutation.checks g d.tables = .ok ()) :
    execute b d t (.ok g) =
      (⟨t.mutation.after g d.tables, d.audit ++ [t.event]⟩, .ok (t.mutation.row g d.tables)) := by
  rw [execute, Mutators.Mutation.tx_eq, h]
  rfl

/-! ## Growth -/

/-- Nothing is removed, and nothing is changed but for segments. -/
structure Grows (d d' : Db) : Prop where
  rows : ∀ table : Table,
    (table.rows d.tables).map Mutators.Row.fixed <+: (table.rows d'.tables).map Mutators.Row.fixed
  audit : d.audit <+: d'.audit

theorem Grows.refl (d : Db) : Grows d d := ⟨fun _ => prefix_rfl, prefix_rfl⟩

theorem Grows.trans {a b c : Db} (h : Grows a b) (h' : Grows b c) : Grows a c :=
  ⟨fun table => (h.rows table).trans (h'.rows table), h.audit.trans h'.audit⟩

/-- A transaction moves on. -/
theorem grows_execute (b : Backend) (d : Db) (t : Audited) (w : Fate) :
    Grows d (execute b d t w).1 := by
  rcases execute_cases b d t w with ⟨g, s, row, -, htx, hexec⟩ | ⟨e, hexec⟩
  · rw [hexec]
    refine ⟨fun table => ?_, prefix_append _ _⟩
    rcases tx_ok htx with ⟨-, h⟩ | ⟨p, -, h⟩
    · show _ <+: (table.rows s).map Mutators.Row.fixed
      rw [h.rows, map_append]
      exact prefix_append _ _
    · show _ <+: (table.rows s).map Mutators.Row.fixed
      rw [h.fixed]
  · rw [hexec]
    exact Grows.refl d

section Lookups

variable {d d' : Db} (h : Grows d d')

include h

/-- A row is there from then on, up to what an update changes. -/
theorem Grows.mem_fixed (table : Table) {r : Mutators.Row} (hr : r ∈ table.rows d.tables) :
    ∃ r' ∈ table.rows d'.tables, r'.fixed = r.fixed :=
  mem_map.mp ((h.rows table).subset (mem_map_of_mem (f := Mutators.Row.fixed) hr))

theorem Grows.mem (table : Table) (ht : table ≠ .segments) {r : Mutators.Row}
    (hr : r ∈ table.rows d.tables) : r ∈ table.rows d'.tables := by
  obtain ⟨r', hr', hfixed⟩ := h.mem_fixed table hr
  rw [← Mutators.Row.eq_of_fixed hfixed (by rw [table_of_mem hr']; exact ht)]
  exact hr'

theorem Grows.project {r : Mutators.Project} (hr : r ∈ d.tables.projects) :
    r ∈ d'.tables.projects := by
  obtain ⟨r', hr', heq⟩ := mem_map.mp (h.mem .projects nofun (mem_map_of_mem hr))
  cases heq
  exact hr'

theorem Grows.environment {r : Mutators.Environment} (hr : r ∈ d.tables.environments) :
    r ∈ d'.tables.environments := by
  obtain ⟨r', hr', heq⟩ :=
    mem_map.mp (h.mem .environments nofun (mem_map_of_mem hr))
  cases heq
  exact hr'

theorem Grows.flag {r : Mutators.Flag} (hr : r ∈ d.tables.flags) : r ∈ d'.tables.flags := by
  obtain ⟨r', hr', heq⟩ := mem_map.mp (h.mem .flags nofun (mem_map_of_mem hr))
  cases heq
  exact hr'

theorem Grows.version {r : FlagVersionRow} (hr : r ∈ d.tables.versions.flagVersions.rows) :
    r ∈ d'.tables.versions.flagVersions.rows := by
  obtain ⟨r', hr', heq⟩ := mem_map.mp (h.mem .versions nofun (mem_map_of_mem hr))
  cases heq
  exact hr'

theorem Grows.snapshot {r : SnapshotRow} (hr : r ∈ d.tables.versions.snapshots.rows) :
    r ∈ d'.tables.versions.snapshots.rows := by
  obtain ⟨r', hr', heq⟩ := mem_map.mp (h.mem .snapshots nofun (mem_map_of_mem hr))
  cases heq
  exact hr'

end Lookups

end FalseFlag.Server
