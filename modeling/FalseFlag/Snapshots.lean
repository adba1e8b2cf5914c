/-
  Snapshots (internal/server/handlers/snapshots.go and its copy in internal/server/rpc;
  `CompileSnapshot` of internal/store/pg_tx.go and sqlite_tx.go; db/queries/snapshots.sql).

  `CompileSnapshot` reads the latest version of every flag of a project (`compileBundle`), and only
  then opens the transaction that numbers the snapshot and inserts it.  Other requests run in
  between, so a `System` has, next to its tables, the compiles that have READ and not yet inserted.
  A bundle remembers the rows it was made of and how many versions of the project were published
  when it was read; the program does not use either.

  * **`snapshots_monotone_iff`** — along a run no later snapshot reverts a flag exactly if compiles
    insert in the order they read (as far as publishes lie between).
-/
import FalseFlag.Flags

namespace FalseFlag

open List JsonTree Json Fallible Runs Versioned FlagVersion

/-! ## The bundle -/

/-- The published versions of a project, in the order they were published. -/
def Store.published (s : Store) (projectId : Nat) : List FlagVersion :=
  s.versions.rows.filter (·.flagId.projectId = projectId)

/-- `ListLatestFlagVersions`. -/
def Store.listLatestFlagVersions (s : Store) (projectId : Nat) : List FlagVersion :=
  (s.flags.filter (·.id.projectId = projectId)).filterMap fun flag => s.versions.latest flag.id

/-- The loop of `compileBundle`: `bundle.Flags[lv.FlagKey] = &tree`. -/
def addFlags (env : Env) (flags : List (String × RulesTree)) :
    List FlagVersion → Except String (List (String × RulesTree))
  | [] => .ok flags
  | lv :: latest =>
    match decodeTree lv.compiled with
    | .error _ => .error ("decoding compiled IR for " ++ lv.flagId.key ++ ": "
        ++ env.jsonErrorText (.json lv.compiled))
    | .ok tree => addFlags env (insertMember lv.flagId.key tree flags) latest

/-- `snapshotBundle`, with the rows it was decoded from and when they were read. -/
structure Bundle (env : Env) where
  rows : List FlagVersion
  seen : Nat
  flags : List (String × RulesTree)
  decoded : addFlags env [] rows = .ok flags

/-- `compileBundle`. -/
def compileBundle (env : Env) (s : Store) (projectId : Nat) : Except String (Bundle env) :=
  match h : addFlags env [] (s.listLatestFlagVersions projectId) with
  | .error err => .error err
  | .ok flags =>
    .ok { rows := s.listLatestFlagVersions projectId, seen := (s.published projectId).length,
          flags, decoded := h }

/-- `json.Marshal(bundle)`. -/
def Bundle.encode {env : Env} (b : Bundle env) : Doc :=
  .obj [("flags", .obj (b.flags.map fun f => (f.1, encodeTree f.2)))]

/-! ## The system -/

/-- A `CompileSnapshot` request that has read its bundle and not yet inserted it. -/
structure PendingCompile (env : Env) where
  projectId : Nat
  environmentId : Option Nat
  bundle : Bundle env

/-- A row of `snapshots`, with the bundle it was made from. -/
structure Snapshot (env : Env) where
  projectId : Nat
  version : Nat
  environmentId : Option Nat
  compiled : Doc
  bundle : Bundle env

/-- The tables, and the compiles under way. -/
structure System (env : Env) where
  store : Store
  snapshots : Log (@Snapshot.projectId env) Snapshot.version
  pending : List (PendingCompile env)

def System.empty (env : Env) : System env := ⟨.empty, .empty, []⟩

/-- The row `tx.CompileSnapshot` inserts. -/
def System.newSnapshot {env : Env} (db : Medium) (sys : System env) (p : PendingCompile env) :
    Snapshot env :=
  { projectId := p.projectId, version := sys.snapshots.next p.projectId,
    environmentId := p.environmentId, compiled := db.pass p.bundle.encode, bundle := p.bundle }

/-- What can happen next.  A compile is two steps. -/
inductive Step where
  | api (req : ApiRequest)
  | compileBundle (projectId : Nat) (environmentId : Option Nat)
  | insertSnapshot (i : Nat)

/-- The system after a step. -/
def System.next {env : Env} (db : Medium) (sys : System env) : Step → System env
  | .api req => { sys with store := sys.store.after env db req }
  | .compileBundle projectId environmentId =>
    match FalseFlag.compileBundle env sys.store projectId with
    | .error _ => sys
    | .ok bundle => { sys with pending := sys.pending ++ [⟨projectId, environmentId, bundle⟩] }
  | .insertSnapshot i =>
    match sys.pending[i]? with
    | none => sys
    | some p =>
      { sys with
        pending := sys.pending.eraseIdx i
        snapshots := sys.snapshots.append (sys.newSnapshot db p) rfl }

section Reads

variable {env : Env} {db : Medium}

/-! ## What a read sees -/

/-- Every version belongs to a flag. -/
def Store.Referenced (s : Store) : Prop := ∀ v ∈ s.versions.rows, ∃ flag ∈ s.flags, flag.id = v.flagId

variable {s : Store}

theorem referenced_after (h : s.Referenced) (req : ApiRequest) :
    (s.after env db req).Referenced := by
  intro v hv
  rcases @after_cases env db s req with
    ⟨new, -, hflags, hversions⟩ |
    ⟨fuel, preq, flag, strategy, c, source, -, hflag, -, -, hafter⟩ | ⟨hflags, hversions⟩
  · obtain ⟨flag, hflag, hid⟩ := h v (hversions ▸ hv)
    exact ⟨flag, hflags ▸ mem_append_left _ hflag, hid⟩
  · rw [hafter] at hv ⊢
    rcases mem_insertVersion.mp hv with hv | rfl
    · exact h v hv
    · exact ⟨flag, (getFlagByKey_mem hflag).1, rfl⟩
  · obtain ⟨flag, hflag, hid⟩ := h v (hversions ▸ hv)
    exact ⟨flag, hflags ▸ hflag, hid⟩

/-- Requests only ever add versions. -/
theorem versions_after (s : Store) (req : ApiRequest) :
    ∃ new, (s.after env db req).versions.rows = s.versions.rows ++ new := by
  rcases @after_cases env db s req with
    ⟨_, -, -, hversions⟩ | ⟨_, _, _, _, _, _, -, -, -, -, hafter⟩ | ⟨-, hversions⟩
  · exact ⟨[], by rw [hversions, append_nil]⟩
  · exact ⟨_, by rw [hafter]; rfl⟩
  · exact ⟨[], by rw [hversions, append_nil]⟩

theorem published_growing (s : Store) (projectId : Nat) :
    Growing flagId version (s.published projectId) :=
  List.Pairwise.sublist filter_sublist s.versions.increasing

variable {projectId : Nat} {v : FlagVersion}

/-- The latest versions are the newest of the project's. -/
theorem mem_listLatestFlagVersions (h : s.Referenced) : v ∈ s.listLatestFlagVersions projectId ↔
      IsNewest flagId version (s.published projectId) v := by
  simp only [Store.listLatestFlagVersions, mem_filterMap, mem_filter, decide_eq_true_eq,
    Log.latest_eq_some_iff, IsNewest, Store.published]
  constructor
  · rintro ⟨flag, ⟨hflag, hproject⟩, ⟨hv, hnewest⟩, hid⟩
    exact ⟨⟨hv, by rw [hid, hproject]⟩, fun a ha => hnewest a ha.1⟩
  · rintro ⟨⟨hv, hproject⟩, hnewest⟩
    obtain ⟨flag, hflag, hid⟩ := h v hv
    refine ⟨flag, ⟨hflag, by rw [hid, hproject]⟩, ⟨hv, fun a ha howner => ?_⟩, hid.symm⟩
    exact hnewest a ⟨ha, by rw [howner, hproject]⟩ howner

/-- What a read saw: the newest rows among the first `seen` of the project. -/
structure Bundle.Read (s : Store) (projectId : Nat) (b : Bundle env) : Prop where
  seen : b.seen ≤ (s.published projectId).length
  rows : ∀ v, v ∈ b.rows ↔
    IsNewest flagId version ((s.published projectId).take b.seen) v

variable {b : Bundle env}

theorem read_compileBundle (h : s.Referenced)
    (hb : compileBundle env s projectId = .ok b) : b.Read s projectId := by
  unfold compileBundle at hb
  split at hb
  · nomatch hb
  · injection hb with hb
    subst hb
    refine ⟨Nat.le_refl _, fun v => ?_⟩
    rw [take_length]
    exact mem_listLatestFlagVersions h

/-- What was read stays what it was. -/
theorem Bundle.Read.after (h : b.Read s projectId)
    (req : ApiRequest) : b.Read (s.after env db req) projectId := by
  obtain ⟨new, hnew⟩ := @versions_after env db s req
  have hpublished : (s.after env db req).published projectId =
      s.published projectId ++ new.filter (·.flagId.projectId = projectId) := by
    rw [Store.published, hnew, filter_append, Store.published]
  refine ⟨?_, fun v => ?_⟩
  · rw [hpublished, length_append]
    exact Nat.le_trans h.seen (Nat.le_add_right _ _)
  · rw [hpublished, take_append_of_le_length h.seen]
    exact h.rows v

/-! ## What a bundle holds -/

/-- The loop of `compileBundle` inserts the trees of the rows. -/
theorem addFlags_eq : ∀ (rows : List FlagVersion) (acc : List (String × RulesTree)),
    addFlags env acc rows = insertEach (fun lv => lv.flagId.key)
      (fun lv => (decodeTree lv.compiled).mapError fun _ => "decoding compiled IR for "
        ++ lv.flagId.key ++ ": " ++ env.jsonErrorText (.json lv.compiled)) acc rows
  | [], _ => rfl
  | lv :: rows, acc => by
    rw [addFlags, insertEach]
    rcases decodeTree lv.compiled with e | tree
    · rfl
    · exact addFlags_eq rows _

/-- A read has one row for each key. -/
theorem Bundle.Read.unique (h : b.Read s projectId)
    {w : FlagVersion} (hv : v ∈ b.rows) (hw : w ∈ b.rows) (hkey : w.flagId.key = v.flagId.key) :
    w = v := by
  obtain ⟨hv, hvnew⟩ := (h.rows v).mp hv
  obtain ⟨hw, hwnew⟩ := (h.rows w).mp hw
  have hproject : ∀ {u}, u ∈ (s.published projectId).take b.seen → u.flagId.projectId = projectId :=
    fun hu => by simpa using (mem_filter.mp (mem_of_mem_take hu)).2
  have howner : w.flagId = v.flagId := by
    rw [FlagId.ext_iff]
    exact ⟨(hproject hw).trans (hproject hv).symm, hkey⟩
  have hversion := Nat.le_antisymm (hvnew w hw howner) (hwnew v hv howner.symm)
  exact (published_growing s projectId).eq (mem_of_mem_take hw) (mem_of_mem_take hv) howner
    hversion

/-- **What a bundle holds** under the key of a row it was made of. -/
theorem Bundle.Read.lookup (h : b.Read s projectId) (hv : v ∈ b.rows) :
    ∃ t, decodeTree v.compiled = .ok t ∧ b.flags.lookup v.flagId.key = some t := by
  have hdecoded := b.decoded
  rw [addFlags_eq] at hdecoded
  obtain ⟨t, ht, hlookup⟩ := insertEach_lookup hdecoded hv fun _ hw hkey => h.unique hv hw hkey
  exact ⟨t, mapError_eq_ok.mp ht, hlookup⟩

/-! ## What a step can do -/

/-- **All a step can do**: change the store, read a bundle, insert a snapshot, or nothing. -/
theorem next_cases (sys : System env) (step : Step) :
    (∃ req, step = .api req ∧
      sys.next db step = { sys with store := sys.store.after env db req }) ∨
    (∃ p, compileBundle env sys.store p.projectId = .ok p.bundle ∧
      (∀ i, step ≠ .insertSnapshot i) ∧ sys.next db step = { sys with pending := sys.pending ++ [p] }) ∨
    (∃ i p, step = .insertSnapshot i ∧ sys.pending[i]? = some p ∧
      sys.next db step =
        { sys with pending := sys.pending.eraseIdx i
                   snapshots := sys.snapshots.append (sys.newSnapshot db p) rfl }) ∨
    ((∀ i p, step = .insertSnapshot i → sys.pending[i]? ≠ some p) ∧ sys.next db step = sys) := by
  cases step with
  | api req => exact .inl ⟨req, rfl, rfl⟩
  | compileBundle projectId environmentId =>
    rw [System.next]
    rcases hb : compileBundle env sys.store projectId with e | b
    · exact .inr (.inr (.inr ⟨fun _ _ h => (nomatch h), rfl⟩))
    · exact .inr (.inl ⟨⟨projectId, environmentId, b⟩, hb, fun _ h => (nomatch h), rfl⟩)
  | insertSnapshot i =>
    rw [System.next]
    rcases hp : sys.pending[i]? with _ | p
    · refine .inr (.inr (.inr ⟨fun j p h => ?_, rfl⟩))
      injection h with h
      subst h
      rw [hp]
      exact fun h => nomatch h
    · exact .inr (.inr (.inl ⟨i, p, rfl, hp, rfl⟩))

variable {sys : System env}

theorem mem_appended {p : PendingCompile env} {a : Snapshot env} :
    a ∈ (sys.snapshots.append (sys.newSnapshot db p) rfl).rows ↔
      a ∈ sys.snapshots.rows ∨ a = sys.newSnapshot db p :=
  Log.mem_rows_append (h := rfl)

/-- Every bundle is what its read saw, and every snapshot holds its bundle. -/
structure System.Recorded (db : Medium) (sys : System env) : Prop where
  referenced : sys.store.Referenced
  persisted : Persisted env db sys.store
  pending : ∀ p ∈ sys.pending, p.bundle.Read sys.store p.projectId
  snapshots : ∀ a ∈ sys.snapshots.rows,
    a.bundle.Read sys.store a.projectId ∧ a.compiled = db.pass a.bundle.encode

theorem recorded_empty : (System.empty env).Recorded db where
  referenced _ hv := absurd hv not_mem_nil
  persisted _ hv := absurd hv not_mem_nil
  pending _ hp := absurd hp not_mem_nil
  snapshots _ ha := absurd ha not_mem_nil

theorem recorded_next (h : sys.Recorded db) (step : Step) :
    (sys.next db step).Recorded db := by
  rcases @next_cases env db sys step with
    ⟨req, -, hnext⟩ | ⟨p, hp, -, hnext⟩ | ⟨i, p, -, hp, hnext⟩ | ⟨-, hnext⟩
  · rw [hnext]
    exact { referenced := referenced_after h.referenced req
            persisted := persisted_after h.persisted req
            pending := fun p hp => (h.pending p hp).after req
            snapshots := fun a ha => ⟨(h.snapshots a ha).1.after req, (h.snapshots a ha).2⟩ }
  · rw [hnext]
    refine { h with pending := fun q hq => ?_ }
    rcases mem_append.mp hq with hq | hq
    · exact h.pending q hq
    · rw [mem_singleton.mp hq]
      exact read_compileBundle h.referenced hp
  · rw [hnext]
    refine { h with pending := fun q hq => h.pending q (mem_of_mem_eraseIdx hq)
                    snapshots := fun a ha => ?_ }
    rcases mem_appended.mp ha with ha | rfl
    · exact h.snapshots a ha
    · exact ⟨h.pending p (mem_of_getElem? hp), rfl⟩
  · rw [hnext]
    exact h

/-- Along every run, each snapshot holds what its read saw. -/
theorem snapshots_recorded (env : Env) (db : Medium) (steps : List Step) :
    Along (System.next db) (System.Recorded db) (.empty env) steps :=
  along_of_invariant (fun _ step h => recorded_next h step) recorded_empty

/-! ## No flag is reverted -/

/-- For snapshots `m < n` of a project, every flag that `m` holds is held by `n`, from the same
    version or a later one. -/
def System.NoneReverted (sys : System env) : Prop :=
  ∀ a ∈ sys.snapshots.rows, ∀ b ∈ sys.snapshots.rows, a.projectId = b.projectId →
    a.version < b.version →
    Covers flagId version (· ∈ a.bundle.rows) (· ∈ b.bundle.rows)

/-- No snapshot of the project was read after a publish that the compile about to insert missed. -/
def InsertsInOrder (sys : System env) : Step → Prop
  | .insertSnapshot i => ∀ p, sys.pending[i]? = some p →
      ∀ a ∈ sys.snapshots.rows, a.projectId = p.projectId → a.bundle.seen ≤ p.bundle.seen
  | _ => True

/-- One read covers another exactly if it is no earlier. -/
theorem Bundle.Read.covers_iff {b' : Bundle env}
    (h : b.Read s projectId) (h' : b'.Read s projectId) :
    Covers flagId version (· ∈ b.rows) (· ∈ b'.rows) ↔ b.seen ≤ b'.seen := by
  have hrows : (· ∈ b.rows) = IsNewest flagId version
      ((s.published projectId).take b.seen) := funext fun v => propext (h.rows v)
  have hrows' : (· ∈ b'.rows) = IsNewest flagId version
      ((s.published projectId).take b'.seen) := funext fun v => propext (h'.rows v)
  rw [hrows, hrows']
  exact (published_growing s projectId).covers_iff h.seen

/-- One step: a snapshot that is inserted reverts nothing iff it is inserted in order. -/
theorem noneReverted_next (hrec : sys.Recorded db) (h : sys.NoneReverted)
    (step : Step) : (sys.next db step).NoneReverted ↔ InsertsInOrder sys step := by
  rcases @next_cases env db sys step with
    ⟨req, rfl, hnext⟩ | ⟨p, -, hstep, hnext⟩ | ⟨i, p, rfl, hp, hnext⟩ | ⟨hstep, hnext⟩
  · rw [hnext]
    exact iff_of_true h trivial
  · rw [hnext]
    refine iff_of_true h ?_
    cases step with
    | insertSnapshot i => exact absurd rfl (hstep i)
    | _ => trivial
  · rw [hnext]
    have hread := hrec.pending p (mem_of_getElem? hp)
    constructor
    · intro hnew q hq a ha hproject
      rw [hp] at hq
      injection hq with hq
      subst hq
      -- the snapshot that is inserted is newer than any other of the project
      have hlt : a.version < (sys.newSnapshot db p).version :=
        sys.snapshots.version_lt_next (sys.snapshots.mem_of.mpr ⟨ha, hproject⟩)
      have hcovers := hnew a (mem_appended.mpr (.inl ha)) (sys.newSnapshot db p)
        (mem_appended.mpr (.inr rfl)) hproject hlt
      exact ((hproject ▸ (hrec.snapshots a ha).1).covers_iff hread).mp hcovers
    · intro horder a ha b hb hproject hlt
      rcases mem_appended.mp ha with ha | rfl <;> rcases mem_appended.mp hb with hb | rfl
      · exact h a ha b hb hproject hlt
      · exact ((hproject ▸ (hrec.snapshots a ha).1).covers_iff hread).mpr (horder p hp a ha hproject)
      · have hold : b.version < (sys.newSnapshot db p).version :=
          sys.snapshots.version_lt_next (sys.snapshots.mem_of.mpr ⟨hb, hproject.symm⟩)
        exact absurd hlt (Nat.lt_asymm hold)
      · exact absurd hlt (Nat.lt_irrefl _)
  · rw [hnext]
    refine iff_of_true h ?_
    cases step with
    | insertSnapshot i => exact fun p hp => absurd hp (hstep i p rfl)
    | _ => trivial

/-- **When snapshots are monotone.**  Along any interleaving of requests and compiles from empty
    tables, no later snapshot reverts a flag of an earlier one exactly if every compile inserts
    its snapshot before any compile that read after a publish it had missed. -/
theorem snapshots_monotone_iff (env : Env) (db : Medium) (steps : List Step) :
    Along (System.next db) System.NoneReverted (.empty env) steps ↔
      StepsMeet (System.next db) InsertsInOrder (.empty env) steps := by
  have hempty : (System.empty env).NoneReverted := fun a ha => absurd ha not_mem_nil
  exact along_iff (fun sys step hsys => recorded_next hsys step)
    (fun sys step hrec hsys => noneReverted_next hrec hsys step) recorded_empty hempty

end Reads

/-- Two compiles of project 1: the first reads, a publish and the whole second compile run, and
    then the first inserts. -/
def overtakenCompile : List Step :=
  [.api createBoolean, .api (publishDefault (.bool false)), .compileBundle 1 none,
   .api (publishDefault (.bool true)), .compileBundle 1 none, .insertSnapshot 1, .insertSnapshot 0]

/-- Snapshot 2 holds version 1 of a flag that snapshot 1 holds at version 2. -/
theorem overtaken_compile_reverts :
    ((overtakenCompile.foldl (System.next .sorted) (.empty .plain)).snapshots.rows.map
      fun a => (a.version, a.bundle.rows.map version)) = [(1, [2]), (2, [1])] ∧
    ¬ Along (System.next .sorted) System.NoneReverted (.empty .plain) overtakenCompile := by
  refine ⟨rfl, fun ⟨_, _, _, _, _, _, _, h⟩ => ?_⟩
  obtain ⟨v, hv, -, hle⟩ := h _ (mem_cons_self) _ (mem_cons_of_mem _ mem_cons_self)
    rfl (by decide) _ mem_cons_self
  rw [mem_singleton.mp hv] at hle
  exact absurd hle (by decide)

end FalseFlag
