/-
  The audit log in the two databases (internal/store/pg_audit.go, sqlite_audit.go, sqlite_convert.go;
  db/queries/audit.sql, db/queries/sqlite/audit.sql).

  Both stores run one query: the events of a project that pass the filters and come before the cursor,
  newest first.  Postgres compares INSTANTS, in whole microseconds, and identifiers as numbers.  SQLite
  compares TEXTS: timestamps in a layout with three digits after the point, identifiers in hexadecimal.

  * **`list_eq`** — whichever backend, the result is the listing of the events that its WHERE clause
    selects, in the order of timestamps and identifiers;
  * **`backends_agree_iff`** — bounds on which the two stores agree on every log: whole milliseconds
    (to the microsecond), in years with four digits or before.
-/
import FalseFlag.Lib.Paging
import FalseFlag.Lib.TimeText
import FalseFlag.Lib.Uuid
import FalseFlag.Transactions
import Mathlib.Data.Prod.Lex

namespace FalseFlag.Audit

open List Calendar TimeText Paging

/-! ## Events

  A `time.Time` is its instant, in nanoseconds since the zero value. -/

/-- `AuditEvent`. -/
structure AuditEvent where
  id : Uuid
  projectId : Option Uuid
  flagId : Option Uuid
  action : String
  actor : String
  payload : Doc
  createdAt : ℤ
  deriving DecidableEq

/-- `ListAuditEventsParams`: a zero value is no filter. -/
structure ListAuditEventsParams where
  projectId : Uuid
  action : String
  actor : String
  fromTs : ℤ
  toTs : ℤ
  cursorTs : ℤ
  cursorId : Uuid
  limit : ℤ

/-- The order of a listing. -/
def AuditEvent.key (e : AuditEvent) : ℤ ×ₗ Uuid := toLex (e.createdAt, e.id)

/-! ## The query -/

/-- A row of `audit_events`, with the column types of a database. -/
structure AuditRow (ι τ : Type) where
  id : ι
  projectId : Option ι
  flagId : Option ι
  action : String
  actor : Option String
  payload : Doc
  createdAt : τ

/-- `ListAuditEventsByProjectParams`. -/
structure QueryParams (ι τ : Type) where
  projectId : ι
  action : Option String
  actor : Option String
  fromTs : Option τ
  toTs : Option τ
  cursorTs : Option τ
  cursorId : Option ι
  limit : ℤ

/-- `$n IS NULL OR …`. -/
def nullOr {α : Type} (arg : Option α) (p : α → Bool) : Bool :=
  match arg with
  | none => true
  | some x => p x

/-- A comparison with a value that may be NULL. -/
def ifKnown {α : Type} (arg : Option α) (p : α → Bool) : Bool :=
  match arg with
  | none => false
  | some x => p x

section Query

variable {ι τ : Type} [LinearOrder ι] [LinearOrder τ]

/-- The filters. -/
def QueryParams.filters (q : QueryParams ι τ) (r : AuditRow ι τ) : Bool :=
  ifKnown r.projectId (· = q.projectId) && nullOr q.action (r.action = ·) &&
    nullOr q.actor (fun actor => ifKnown r.actor (· = actor)) && nullOr q.fromTs (· ≤ r.createdAt) &&
    nullOr q.toTs (r.createdAt < ·)

/-- `(created_at, id) < (cursor_ts, cursor_id)`: the first column that differs decides. -/
def rowBefore (r : AuditRow ι τ) (ts : τ) (id : Option ι) : Bool :=
  if r.createdAt = ts then ifKnown id (r.id < ·) else r.createdAt < ts

/-- The same in SQLite: `created_at < cursor_ts OR (created_at = cursor_ts AND id < cursor_id)`. -/
def textBefore (r : AuditRow ι τ) (ts : τ) (id : Option ι) : Bool :=
  r.createdAt < ts || (r.createdAt = ts && ifKnown id (r.id < ·))

/-- The two are the same. -/
theorem rowBefore_eq : (rowBefore : AuditRow ι τ → τ → Option ι → Bool) = textBefore := by
  funext r ts id
  rw [rowBefore, textBefore]
  by_cases h : r.createdAt = ts
  · rw [if_pos h, decide_eq_true h, Bool.true_and, h, decide_eq_false (lt_irrefl ts), Bool.false_or]
  · rw [if_neg h, decide_eq_false h, Bool.false_and, Bool.or_false]

/-- The WHERE clause; the two databases write the cursor's part differently. -/
def QueryParams.clause (q : QueryParams ι τ) (before : AuditRow ι τ → τ → Option ι → Bool)
    (r : AuditRow ι τ) : Bool :=
  q.filters r && nullOr q.cursorTs fun ts => before r ts q.cursorId

variable {r : AuditRow ι τ}

/-- Clauses that agree on each column select alike. -/
theorem clause_congr {ι' τ' : Type} [LinearOrder ι'] [LinearOrder τ'] {q : QueryParams ι τ}
    {q' : QueryParams ι' τ'} {r' : AuditRow ι' τ'}
    (hproject : ifKnown r.projectId (· = q.projectId) = ifKnown r'.projectId (· = q'.projectId))
    (haction : nullOr q.action (r.action = ·) = nullOr q'.action (r'.action = ·))
    (hactor : nullOr q.actor (fun actor => ifKnown r.actor (· = actor)) =
      nullOr q'.actor (fun actor => ifKnown r'.actor (· = actor)))
    (hfrom : nullOr q.fromTs (· ≤ r.createdAt) = nullOr q'.fromTs (· ≤ r'.createdAt))
    (hto : nullOr q.toTs (r.createdAt < ·) = nullOr q'.toTs (r'.createdAt < ·))
    (hcursor : nullOr q.cursorTs (fun ts => textBefore r ts q.cursorId) =
      nullOr q'.cursorTs (fun ts => textBefore r' ts q'.cursorId)) :
    q.clause textBefore r = q'.clause textBefore r' := by
  rw [QueryParams.clause, QueryParams.clause, QueryParams.filters, QueryParams.filters, hproject,
    haction, hactor, hfrom, hto, hcursor]

theorem textBefore_congr {ι' τ' : Type} [LinearOrder ι'] [LinearOrder τ']
    {r' : AuditRow ι' τ'} {ts : τ} {ts' : τ'} {id : Option ι} {id' : Option ι'}
    (hlt : r.createdAt < ts ↔ r'.createdAt < ts') (heq : r.createdAt = ts ↔ r'.createdAt = ts')
    (hid : ifKnown id (r.id < ·) = ifKnown id' (r'.id < ·)) :
    textBefore r ts id = textBefore r' ts' id' := by
  rw [textBefore, textBefore, decide_eq_decide.mpr hlt, decide_eq_decide.mpr heq, hid]

/-- A query with a lower bound and nothing else. -/
theorem clause_from {q : QueryParams ι τ} {before : AuditRow ι τ → τ → Option ι → Bool} {t : τ}
    (hproject : r.projectId = some q.projectId) (haction : q.action = none)
    (hactor : q.actor = none) (hfrom : q.fromTs = some t) (hto : q.toTs = none)
    (hcursor : q.cursorTs = none) : q.clause before r = true ↔ t ≤ r.createdAt := by
  rw [QueryParams.clause, QueryParams.filters, hproject, haction, hactor, hfrom, hto, hcursor]
  simp only [ifKnown, nullOr, decide_true, Bool.true_and, Bool.and_true, decide_eq_true_iff]

/-- `ORDER BY created_at DESC, id DESC`. -/
def AuditRow.key (r : AuditRow ι τ) : τ ×ₗ ι := toLex (r.createdAt, r.id)

end Query

/-! ## Postgres -/

/-- `timestampFromTime`, as the driver sends it: whole microseconds. -/
def timestampFromTime (t : ℤ) : Option ℤ := if t = 0 then none else some (t / 1000)

/-- `textFromString`, and `sqliteNullableString`, `sqliteStringFromString`. -/
def textFromString (s : String) : Option String := if s = "" then none else some s

/-- `textToString`, and `sqliteStringToString`. -/
def textToString (s : Option String) : String := s.getD ""

/-- `cursorIDParam`. -/
def cursorIDParam (p : ListAuditEventsParams) : Option Uuid :=
  if p.cursorTs = 0 then none else some p.cursorId

/-- `auditFromRow`. -/
def auditFromRow (r : AuditRow Uuid ℤ) : AuditEvent where
  id := r.id
  projectId := r.projectId
  flagId := r.flagId
  action := r.action
  actor := textToString r.actor
  payload := r.payload
  createdAt := r.createdAt * 1000

/-- The row of an event. -/
def toPgRow (e : AuditEvent) : AuditRow Uuid ℤ where
  id := e.id
  projectId := e.projectId
  flagId := e.flagId
  action := e.action
  actor := textFromString e.actor
  payload := e.payload
  createdAt := e.createdAt / 1000

/-- The arguments of the query. -/
def pgParams (p : ListAuditEventsParams) : QueryParams Uuid ℤ where
  projectId := p.projectId
  action := textFromString p.action
  actor := textFromString p.actor
  fromTs := timestampFromTime p.fromTs
  toTs := timestampFromTime p.toTs
  cursorTs := timestampFromTime p.cursorTs
  cursorId := cursorIDParam p
  limit := p.limit

/-- `pgStore.ListAuditEvents`.  A negative LIMIT is an error. -/
def pgListAuditEvents (rows : List (AuditRow Uuid ℤ)) (p : ListAuditEventsParams) :
    Except DbError (List AuditEvent) :=
  let q := pgParams p
  if q.limit < 0 then .error (.wrap "store: list audit events" (.pg "2201W"))
  else .ok (((newestFirst AuditRow.key (rows.filter (q.clause rowBefore))).take q.limit.toNat).map
    auditFromRow)

/-! ## SQLite -/

/-- The two layouts with a blank between date and time. -/
def parseSpaced (cs : List Char) : Option ℤ := do
  let (c, cs) ← readSeconds blanks cs
  if (readFraction cs).2 = [] then some (c.instant + (readFraction cs).1) else none

/-- `sqliteFormatTime`. -/
def sqliteFormatTime (t : ℤ) : List Char := formatMilli t

/-- `sqliteParseTime`: the layouts one after the other; RFC 3339 is in the list twice, and Go reads a
    fraction also where the layout has none. -/
def sqliteParseTime (cs : List Char) : ℤ :=
  (((parseMilli cs).or (parseRFC3339 cs)).or (parseSpaced cs)).getD 0

/-- `sqliteParseUUID`. -/
def sqliteParseUUID (cs : List Char) : Uuid := (Uuid.parse cs).getD 0

/-- `sqliteParseNullUUID`. -/
def sqliteParseNullUUID : Option (List Char) → Option Uuid
  | none => none
  | some cs => if cs = [] then none else Uuid.parse cs

/-- `sqliteNullableTime`. -/
def sqliteNullableTime (t : ℤ) : Option (List Char) :=
  if t = 0 then none else some (sqliteFormatTime t)

/-- `sqliteNullableCursorID`. -/
def sqliteNullableCursorID (p : ListAuditEventsParams) : Option (List Char) :=
  if p.cursorTs = 0 then none else some p.cursorId.text

/-- `sqliteAuditFromRow`. -/
def sqliteAuditFromRow (r : AuditRow (List Char) (List Char)) : AuditEvent where
  id := sqliteParseUUID r.id
  projectId := sqliteParseNullUUID r.projectId
  flagId := sqliteParseNullUUID r.flagId
  action := r.action
  actor := textToString r.actor
  payload := r.payload
  createdAt := sqliteParseTime r.createdAt

/-- The row of an event. -/
def toSqliteRow (e : AuditEvent) : AuditRow (List Char) (List Char) where
  id := e.id.text
  projectId := e.projectId.map Uuid.text
  flagId := e.flagId.map Uuid.text
  action := e.action
  actor := textFromString e.actor
  payload := e.payload
  createdAt := sqliteFormatTime e.createdAt

/-- The arguments of the query. -/
def sqliteParams (p : ListAuditEventsParams) : QueryParams (List Char) (List Char) where
  projectId := p.projectId.text
  action := textFromString p.action
  actor := textFromString p.actor
  fromTs := sqliteNullableTime p.fromTs
  toTs := sqliteNullableTime p.toTs
  cursorTs := sqliteNullableTime p.cursorTs
  cursorId := sqliteNullableCursorID p
  limit := p.limit

/-- `sqliteStore.ListAuditEvents`.  A negative LIMIT is none. -/
def sqliteListAuditEvents (rows : List (AuditRow (List Char) (List Char)))
    (p : ListAuditEventsParams) : Except DbError (List AuditEvent) :=
  let q := sqliteParams p
  let listing := newestFirst AuditRow.key (rows.filter (q.clause textBefore))
  .ok ((if q.limit < 0 then listing else listing.take q.limit.toNat).map sqliteAuditFromRow)

/-! ## Rows and events -/

/-- The timestamps a database can hold: microseconds, or milliseconds in years with four digits. -/
def Precise : Backend → ℤ → Prop
  | .postgres, t => t % 1000 = 0
  | .sqlite, t => t % 1000000 = 0 ∧ FourDigits t

variable {b : Backend} {t : ℤ}

theorem Precise.postgres (h : Precise b t) : Precise .postgres t := by
  cases b with
  | postgres => exact h
  | sqlite =>
    have hmilli : t % 1000000 = 0 := h.1
    show t % 1000 = 0
    omega

theorem textToString_textFromString (s : String) : textToString (textFromString s) = s := by
  rw [textFromString]
  split
  · rename_i h
    rw [h]
    rfl
  · rfl

variable {e : AuditEvent}

theorem auditFromRow_toPgRow (h : Precise .postgres e.createdAt) :
    auditFromRow (toPgRow e) = e := by
  have hcreated : e.createdAt / 1000 * 1000 = e.createdAt := by
    have hmicro : e.createdAt % 1000 = 0 := h
    omega
  simp only [auditFromRow, toPgRow, textToString_textFromString, hcreated]

theorem sqliteParseNullUUID_text (u : Option Uuid) : sqliteParseNullUUID (u.map Uuid.text) = u := by
  rcases u with _ | u
  · rfl
  · have hne : u.text ≠ [] := fun h => absurd (h ▸ u.length_text) (by decide)
    show (if u.text = [] then none else Uuid.parse u.text) = some u
    rw [if_neg hne, Uuid.parse_text]

theorem sqliteParseTime_format (h : Precise .sqlite t) :
    sqliteParseTime (sqliteFormatTime t) = t := by
  have hmilli : t / 1000000 * 1000000 = t := by
    have hmod := h.1
    omega
  rw [sqliteParseTime, sqliteFormatTime, parse_formatMilli h.2, hmilli]
  rfl

theorem sqliteAuditFromRow_toSqliteRow (h : Precise .sqlite e.createdAt) :
    sqliteAuditFromRow (toSqliteRow e) = e := by
  simp only [sqliteAuditFromRow, toSqliteRow, textToString_textFromString, sqliteParseNullUUID_text,
    sqliteParseTime_format h, sqliteParseUUID, Uuid.parse_text, Option.getD_some]

/-- Rows of events are listed as the events are, if their columns compare alike. -/
theorem listing_eq {ι τ : Type} [LinearOrder ι] [LinearOrder τ] {toRow : AuditEvent → AuditRow ι τ}
    {fromRow : AuditRow ι τ → AuditEvent} {log : List AuditEvent}
    (hts : ∀ a ∈ log, ∀ b ∈ log,
      ((toRow a).createdAt < (toRow b).createdAt ↔ a.createdAt < b.createdAt))
    (hid : ∀ a b, (toRow a).id < (toRow b).id ↔ a.id < b.id)
    (hfrom : ∀ e ∈ log, fromRow (toRow e) = e) (selects : AuditRow ι τ → Bool) (n : ℕ) :
    ((newestFirst AuditRow.key ((log.map toRow).filter selects)).take n).map fromRow =
      (newestFirst AuditEvent.key (log.filter fun e => selects (toRow e))).take n := by
  have hkey : ∀ a ∈ log.filter (fun e => selects (toRow e)),
      ∀ b ∈ log.filter (fun e => selects (toRow e)),
        (b.key ≤ a.key ↔ (toRow b).key ≤ (toRow a).key) := by
    intro a ha b hb
    have hab := hts a (mem_of_mem_filter ha) b (mem_of_mem_filter hb)
    have hba := hts b (mem_of_mem_filter hb) a (mem_of_mem_filter ha)
    rw [← not_lt, ← not_lt, not_iff_not, AuditEvent.key, AuditEvent.key, AuditRow.key, AuditRow.key,
      Prod.Lex.toLex_lt_toLex, Prod.Lex.toLex_lt_toLex]
    have heq : (toRow a).createdAt = (toRow b).createdAt ↔ a.createdAt = b.createdAt := by
      rw [le_antisymm_iff, le_antisymm_iff, ← not_lt, ← not_lt, hba, hab, not_lt, not_lt]
    rw [hab, heq, hid]
  have hfilter : (log.map toRow).filter selects =
      (log.filter fun e => selects (toRow e)).map toRow := filter_map
  rw [hfilter, newestFirst_map hkey, ← map_take, map_map]
  have hid : ∀ e ∈ (newestFirst AuditEvent.key (log.filter fun e => selects (toRow e))).take n,
      (fromRow ∘ toRow) e = e := by
    intro e he
    have hmem := (perm_newestFirst AuditEvent.key _).subset (mem_of_mem_take he)
    exact hfrom e (mem_of_mem_filter hmem)
  exact (map_congr_left hid).trans (map_id _)

/-! ## The log -/

/-- An audit log that a database can hold. -/
structure AuditLog (b : Backend) where
  events : List AuditEvent
  distinct : (events.map AuditEvent.id).Nodup
  precise : ∀ e ∈ events, Precise b e.createdAt

/-- `ListAuditEvents` of a backend. -/
def listAuditEvents (b : Backend) (log : List AuditEvent) (p : ListAuditEventsParams) :
    Except DbError (List AuditEvent) :=
  match b with
  | .postgres => pgListAuditEvents (log.map toPgRow) p
  | .sqlite => sqliteListAuditEvents (log.map toSqliteRow) p

/-- The WHERE clause of a backend, on the row of an event. -/
def selects (b : Backend) (p : ListAuditEventsParams) (e : AuditEvent) : Bool :=
  match b with
  | .postgres => (pgParams p).clause rowBefore (toPgRow e)
  | .sqlite => (sqliteParams p).clause textBefore (toSqliteRow e)

variable {s : ℤ}

theorem pgTime_lt_iff (hs : Precise .postgres s) (ht : Precise .postgres t) :
    s / 1000 < t / 1000 ↔ s < t := by
  have hs' : s % 1000 = 0 := hs
  have ht' : t % 1000 = 0 := ht
  omega

theorem sqliteTime_lt_iff (hs : Precise .sqlite s) (ht : Precise .sqlite t) :
    sqliteFormatTime s < sqliteFormatTime t ↔ s < t := by
  have hs' := hs.1
  have ht' := ht.1
  rw [sqliteFormatTime, sqliteFormatTime, formatMilli_lt_iff hs.2 ht.2]
  omega

variable {p : ListAuditEventsParams}

/-- **The result is the listing of what the WHERE clause selects.** -/
theorem list_eq {log : List AuditEvent} (hlog : ∀ e ∈ log, Precise b e.createdAt)
    (hlimit : 0 ≤ p.limit) :
    listAuditEvents b log p =
      .ok ((newestFirst AuditEvent.key (log.filter (selects b p))).take p.limit.toNat) := by
  cases b with
  | postgres =>
    show (if p.limit < 0 then _ else Except.ok _) = _
    rw [if_neg (not_lt.mpr hlimit)]
    exact congrArg Except.ok (listing_eq (fun a ha b hb => pgTime_lt_iff (hlog a ha) (hlog b hb))
      (fun _ _ => Iff.rfl) (fun e he => auditFromRow_toPgRow (hlog e he)) _ _)
  | sqlite =>
    show Except.ok (List.map sqliteAuditFromRow (if p.limit < 0 then _ else _)) = _
    rw [if_neg (not_lt.mpr hlimit)]
    exact congrArg Except.ok (listing_eq
      (fun a ha b hb => sqliteTime_lt_iff (hlog a ha) (hlog b hb)) (fun _ _ => Uuid.text_lt_iff)
      (fun e he => sqliteAuditFromRow_toSqliteRow (hlog e he)) _ _)

/-! ## What the WHERE clause says -/

/-- The filters of a backend, on the row of an event. -/
def filtered (b : Backend) (p : ListAuditEventsParams) (e : AuditEvent) : Bool :=
  match b with
  | .postgres => (pgParams p).filters (toPgRow e)
  | .sqlite => (sqliteParams p).filters (toSqliteRow e)

/-- An event of the project, with the action and the actor that are asked for. -/
def ListAuditEventsParams.wanted (p : ListAuditEventsParams) (e : AuditEvent) : Bool :=
  e.projectId = some p.projectId && (p.action = "" || e.action = p.action) &&
    (p.actor = "" || e.actor = p.actor)

/-- An event matches: the project, and every filter that is not the zero value. -/
def ListAuditEventsParams.matching (p : ListAuditEventsParams) (e : AuditEvent) : Bool :=
  p.wanted e && (p.fromTs = 0 || p.fromTs ≤ e.createdAt) && (p.toTs = 0 || e.createdAt < p.toTs)

theorem nullOr_ite {τ : Type} {c : Prop} [Decidable c] {x : τ} {f : τ → Bool} :
    nullOr (if c then none else some x) f = (decide c || f x) := by
  by_cases h : c
  · rw [if_pos h, decide_eq_true h]
    rfl
  · rw [if_neg h, decide_eq_false h]
    rfl

/-- No actor is NULL in the row, and no filter in the parameters. -/
theorem nullOr_actor (s t : String) :
    nullOr (textFromString s) (fun actor => ifKnown (textFromString t) (· = actor)) =
      (decide (s = "") || decide (t = s)) := by
  have hknown : s ≠ "" → ifKnown (textFromString t) (· = s) = decide (t = s) := by
    intro hs
    by_cases ht : t = ""
    · rw [textFromString, if_pos ht, ht, decide_eq_false hs.symm]
      rfl
    · rw [textFromString, if_neg ht]
      rfl
  rw [textFromString, nullOr_ite]
  by_cases hs : s = ""
  · rw [decide_eq_true hs, Bool.true_or, Bool.true_or]
  · rw [hknown hs]

/-- Identifiers in a column are equal if they are. -/
theorem ifKnown_map {ι : Type} [LinearOrder ι] {f : Uuid → ι} (hf : Function.Injective f)
    (o : Option Uuid) (u : Uuid) : ifKnown (o.map f) (· = f u) = decide (o = some u) := by
  rcases o with _ | v
  · rfl
  · exact decide_eq_decide.mpr (hf.eq_iff.trans Option.some_inj.symm)

section Instants

variable {ι τ : Type} [LinearOrder ι] [LinearOrder τ] {q : QueryParams ι τ} {r : AuditRow ι τ}
  {p : ListAuditEventsParams} {e : AuditEvent}

/-- Filters in terms of the event. -/
theorem filters_iff {lower upper : τ} (hproject : ifKnown r.projectId (· = q.projectId) =
      decide (e.projectId = some p.projectId))
    (haction : nullOr q.action (r.action = ·) = nullOr (textFromString p.action) (e.action = ·))
    (hactor : nullOr q.actor (fun actor => ifKnown r.actor (· = actor)) =
      nullOr (textFromString p.actor) (fun actor => ifKnown (textFromString e.actor) (· = actor)))
    (hfrom : q.fromTs = if p.fromTs = 0 then none else some lower)
    (hto : q.toTs = if p.toTs = 0 then none else some upper) :
    q.filters r = true ↔ p.wanted e ∧ (p.fromTs = 0 ∨ ¬ r.createdAt < lower) ∧
      (p.toTs = 0 ∨ r.createdAt < upper) := by
  rw [QueryParams.filters, hproject, haction, hactor, hfrom, hto, nullOr_actor, textFromString,
    nullOr_ite, nullOr_ite, nullOr_ite, ListAuditEventsParams.wanted]
  simp only [Bool.and_eq_true, Bool.or_eq_true, decide_eq_true_iff, not_lt, and_assoc]

/-- The cursor's part, for a column that compares as the instants do. -/
theorem textBefore_eq {ts : τ} {id : ι} (hlt : r.createdAt < ts ↔ e.createdAt < p.cursorTs)
    (hgt : ts < r.createdAt ↔ p.cursorTs < e.createdAt) (hid : r.id < id ↔ e.id < p.cursorId) :
    textBefore r ts (some id) = decide (e.key < toLex (p.cursorTs, p.cursorId)) := by
  have heq : r.createdAt = ts ↔ e.createdAt = p.cursorTs := by
    rw [le_antisymm_iff, le_antisymm_iff, ← not_lt, ← not_lt, hlt, hgt, not_lt, not_lt]
  rw [textBefore, ifKnown, decide_eq_decide.mpr hlt, decide_eq_decide.mpr heq,
    decide_eq_decide.mpr hid, AuditEvent.key, decide_eq_decide.mpr Prod.Lex.toLex_lt_toLex,
    Bool.decide_or, Bool.decide_and]

end Instants

theorem selects_of_zero (h : p.cursorTs = 0) (e : AuditEvent) : selects b p e = filtered b p e := by
  cases b with
  | postgres =>
    show ((pgParams p).filters _ && nullOr (if p.cursorTs = 0 then none else some _) _) = _
    rw [if_pos h]
    exact Bool.and_true _
  | sqlite =>
    show ((sqliteParams p).filters _ && nullOr (if p.cursorTs = 0 then none else some _) _) = _
    rw [if_pos h]
    exact Bool.and_true _

/-- **A cursor selects, of the events that pass the filters, those with a smaller key.** -/
theorem selects_of_cursor
    (he : Precise b e.createdAt) (hcursor : Precise b p.cursorTs) (h : p.cursorTs ≠ 0) :
    selects b p e = (filtered b p e && decide (e.key < toLex (p.cursorTs, p.cursorId))) := by
  cases b with
  | postgres =>
    show ((pgParams p).filters _ && nullOr (if p.cursorTs = 0 then none else some _)
      fun ts => rowBefore _ ts (if p.cursorTs = 0 then none else some _)) = _
    rw [if_neg h, if_neg h, rowBefore_eq]
    exact congrArg _ (textBefore_eq (pgTime_lt_iff he hcursor) (pgTime_lt_iff hcursor he) Iff.rfl)
  | sqlite =>
    show ((sqliteParams p).filters _ && nullOr (if p.cursorTs = 0 then none else some _)
      fun ts => textBefore _ ts (if p.cursorTs = 0 then none else some _)) = _
    rw [if_neg h, if_neg h]
    exact congrArg _ (textBefore_eq (sqliteTime_lt_iff he hcursor) (sqliteTime_lt_iff hcursor he)
      Uuid.text_lt_iff)

/-! ## Bounds -/

/-- The instants of the API: what an RFC 3339 text can say.  The timestamps of the other API are among
    them, which are of the years from 1 to 9999. -/
def Accepted (t : ℤ) : Prop := ∃ cs, parseRFC3339 cs = some t

theorem accepted_of_fourDigits (h : FourDigits t) : Accepted t :=
  ⟨formatNano t, parse_formatNano h⟩

/-- A bound that both databases read alike: no fraction of a millisecond that a microsecond would
    show, and a year with four digits; or a year before those, of which no event is. -/
def Exact (t : ℤ) : Prop :=
  (ofInstant t).year < 10000 ∧ ((ofInstant t).year < 0 ∨ t % 1000000 < 1000)

instance (t : ℤ) : Decidable (Exact t) := inferInstanceAs (Decidable (_ ∧ _))

/-- A negative year is before all events. -/
theorem lt_of_negative (ht : (ofInstant t).year < 0) (hs : FourDigits s) : t < s := by
  have hstart := (year_lt_iff t 0).mp ht
  have hs0 := mt (year_lt_iff s 0).mpr (not_lt.mpr hs.1)
  omega

/-- An event and an exact bound compare alike in both databases. -/
theorem lt_bound_iff (hs : Precise .sqlite s) (ht : Exact t) :
    sqliteFormatTime s < sqliteFormatTime t ↔ s / 1000 < t / 1000 := by
  have hmilli := hs.1
  rcases lt_or_ge (ofInstant t).year 0 with hneg | hnonneg
  · have hlt := lt_of_negative hneg hs.2
    have htext := formatMilli_lt_of_negative hneg hs.2
    exact ⟨fun h => absurd (lt_trans htext h) (lt_irrefl _), fun h => by omega⟩
  · have hexact : t % 1000000 < 1000 := ht.2.resolve_left (not_lt.mpr hnonneg)
    rw [sqliteFormatTime, sqliteFormatTime, formatMilli_lt_iff hs.2 ⟨hnonneg, ht.1⟩]
    omega

theorem bound_lt_iff (hs : Precise .sqlite s) (ht : Exact t) :
    sqliteFormatTime t < sqliteFormatTime s ↔ t / 1000 < s / 1000 := by
  have hmilli := hs.1
  rcases lt_or_ge (ofInstant t).year 0 with hneg | hnonneg
  · have hlt := lt_of_negative hneg hs.2
    exact ⟨fun _ => by omega, fun _ => formatMilli_lt_of_negative hneg hs.2⟩
  · have hexact : t % 1000000 < 1000 := ht.2.resolve_left (not_lt.mpr hnonneg)
    rw [sqliteFormatTime, sqliteFormatTime, formatMilli_lt_iff ⟨hnonneg, ht.1⟩ hs.2]
    omega

theorem eq_bound_iff (hs : Precise .sqlite s) (ht : Exact t) :
    sqliteFormatTime s = sqliteFormatTime t ↔ s / 1000 = t / 1000 := by
  rw [le_antisymm_iff, le_antisymm_iff, ← not_lt, ← not_lt, bound_lt_iff hs ht, lt_bound_iff hs ht,
    not_lt, not_lt]

/-- A condition on a bound that may be missing. -/
theorem nullOr_bound {f : List Char → Bool} {g : ℤ → Bool}
    (h : f (sqliteFormatTime t) = g (t / 1000)) :
    nullOr (sqliteNullableTime t) f = nullOr (timestampFromTime t) g := by
  rw [sqliteNullableTime, timestampFromTime, nullOr_ite, nullOr_ite, h]

/-- **With exact bounds the WHERE clauses select the same events.** -/
theorem selects_eq_of_exact
    (he : Precise .sqlite e.createdAt) (hfrom : Exact p.fromTs) (hto : Exact p.toTs)
    (hcursor : Exact p.cursorTs) : selects .sqlite p e = selects .postgres p e := by
  rw [selects, selects, rowBefore_eq]
  refine clause_congr ?_ rfl rfl (nullOr_bound ?_) (nullOr_bound ?_) (nullOr_bound ?_)
  · have hproject := ifKnown_map Function.injective_id e.projectId p.projectId
    rw [Option.map_id] at hproject
    exact (ifKnown_map Uuid.text_injective e.projectId p.projectId).trans hproject.symm
  · refine decide_eq_decide.mpr ?_
    rw [← not_lt, ← not_lt]
    exact not_iff_not.mpr (lt_bound_iff he hfrom)
  · exact decide_eq_decide.mpr (lt_bound_iff he hto)
  · refine textBefore_congr (lt_bound_iff he hcursor) (eq_bound_iff he hcursor) ?_
    show ifKnown (sqliteNullableCursorID p) _ = ifKnown (cursorIDParam p) _
    rw [sqliteNullableCursorID, cursorIDParam]
    split
    · rfl
    · exact decide_eq_decide.mpr Uuid.text_lt_iff

/-! ## Events that a bound cuts off -/

/-- An event before a bound that the backend does not see before it: they are in one microsecond, or
    in one millisecond, or the year of the bound has five digits. -/
def Cut : Backend → ℤ → ℤ → Prop
  | .postgres, bound, t => t < bound ∧ bound < t + 1000
  | .sqlite, bound, t => t < bound ∧ bound < t + 1000000 ∨
      (ofInstant bound).year = 10000 ∧ 1000 < (ofInstant t).year

instance : ∀ (b : Backend) (bound t : ℤ), Decidable (Cut b bound t)
  | .postgres, _, _ => inferInstanceAs (Decidable (_ ∧ _))
  | .sqlite, _, _ => inferInstanceAs (Decidable (_ ∨ _))

theorem pgTime_lt_bound_iff (hs : Precise .postgres s) :
    s / 1000 < t / 1000 ↔ s < t ∧ ¬ Cut .postgres t s := by
  have hmicro : s % 1000 = 0 := hs
  rw [Cut]
  omega

theorem sqliteTime_lt_bound_iff (hs : Precise .sqlite s) (ht : (ofInstant t).year ≤ 10000) :
    sqliteFormatTime s < sqliteFormatTime t ↔ s < t ∧ ¬ Cut .sqlite t s := by
  have hmilli := hs.1
  have hyear := hs.2.2
  rw [Cut, sqliteFormatTime, sqliteFormatTime]
  rcases lt_or_ge (ofInstant t).year 0 with hneg | hnonneg
  · have hlt := lt_of_negative hneg hs.2
    have htext := formatMilli_lt_of_negative hneg hs.2
    exact ⟨fun h => absurd (lt_trans htext h) (lt_irrefl _), fun h => by omega⟩
  rcases lt_or_ge (ofInstant t).year 10000 with hfour | hfive
  · rw [formatMilli_lt_iff hs.2 ⟨hnonneg, hfour⟩]
    omega
  · have htop : (ofInstant t).year = 10000 := le_antisymm ht hfive
    have hstart := mt (year_lt_iff t 10000).mpr (not_lt.mpr hfive)
    have hbefore := (year_lt_iff s 10000).mp hyear
    have hnine := mt (year_lt_iff s 1001).mpr
    rw [formatMilli_lt_tenThousand_iff hs.2 htop]
    have hfar : (ofInstant s).year ≤ 1000 → s + 1000000 ≤ t := by
      intro hle
      have hs' := (year_lt_iff s 1001).mp (by omega)
      have hyears : yearStart 1001 < yearStart 10000 := by decide +kernel
      omega
    omega

/-- **What passes the filters**: events that match but for the bounds, which cut some off. -/
theorem filtered_iff (he : Precise b e.createdAt) (hfrom : (ofInstant p.fromTs).year ≤ 10000)
    (hto : (ofInstant p.toTs).year ≤ 10000) :
    filtered b p e = true ↔ p.wanted e ∧
      (p.fromTs = 0 ∨ ¬ (e.createdAt < p.fromTs ∧ ¬ Cut b p.fromTs e.createdAt)) ∧
      (p.toTs = 0 ∨ e.createdAt < p.toTs ∧ ¬ Cut b p.toTs e.createdAt) := by
  cases b with
  | postgres =>
    have hproject := ifKnown_map Function.injective_id e.projectId p.projectId
    rw [Option.map_id] at hproject
    rw [← pgTime_lt_bound_iff he, ← pgTime_lt_bound_iff he]
    exact filters_iff hproject rfl rfl rfl rfl
  | sqlite =>
    rw [← sqliteTime_lt_bound_iff he hfrom, ← sqliteTime_lt_bound_iff he hto]
    exact filters_iff (ifKnown_map Uuid.text_injective e.projectId p.projectId) rfl rfl rfl rfl

/-- What is cut off is before the bound, and the zero time cuts nothing off. -/
theorem Cut.lt {bound : ℤ} (ht : Precise b t) (h : Cut b bound t) :
    t < bound ∧ bound ≠ 0 := by
  cases b with
  | postgres =>
    have hmicro : t % 1000 = 0 := ht
    exact ⟨h.1, fun hzero => by rw [Cut] at h; omega⟩
  | sqlite =>
    have hmilli := ht.1
    have hbefore := (year_lt_iff t 10000).mp ht.2.2
    have hstart := mt (year_lt_iff bound 10000).mpr
    rw [Cut] at h
    refine ⟨by omega, ?_⟩
    rintro rfl
    have hzero : (ofInstant 0).year = 1 := by decide +kernel
    omega

/-- **The filters pass what matches** iff `to` cuts off no event that matches, and `from` none that
    would match without it. -/
theorem filtered_eq_matching_iff (he : Precise b e.createdAt)
    (hfrom : (ofInstant p.fromTs).year ≤ 10000) (hto : (ofInstant p.toTs).year ≤ 10000) :
    filtered b p e = p.matching e ↔ (p.matching e → ¬ Cut b p.toTs e.createdAt) ∧
      ({ p with fromTs := 0 }.matching e → Cut b p.fromTs e.createdAt →
        Cut b p.toTs e.createdAt) := by
  have hlower := @Cut.lt b e.createdAt p.fromTs he
  have hupper := @Cut.lt b e.createdAt p.toTs he
  have hwanted : ({ p with fromTs := 0 } : ListAuditEventsParams).wanted e = p.wanted e := rfl
  rw [Bool.eq_iff_iff, filtered_iff he hfrom hto]
  simp only [ListAuditEventsParams.matching, hwanted, Bool.and_eq_true, Bool.or_eq_true,
    decide_eq_true_iff, true_or, and_true, ← not_lt]
  grind

/-! ## A bound that is not exact -/

/-- An event of a project. -/
def eventAt (t : ℤ) : AuditEvent where
  id := 1
  projectId := some 1
  flagId := none
  action := "create_flag"
  actor := ""
  payload := .null
  createdAt := t

/-- The events of that project from a bound on. -/
def eventsFrom (t : ℤ) : ListAuditEventsParams where
  projectId := 1
  action := ""
  actor := ""
  fromTs := t
  toTs := 0
  cursorTs := 0
  cursorId := 0
  limit := 1

theorem selects_eventsFrom (ht : t ≠ 0) :
    (selects .postgres (eventsFrom t) (eventAt s) = true ↔ t / 1000 ≤ s / 1000) ∧
      (selects .sqlite (eventsFrom t) (eventAt s) = true ↔
        sqliteFormatTime t ≤ sqliteFormatTime s) :=
  ⟨clause_from rfl rfl rfl (if_neg ht) rfl rfl, clause_from rfl rfl rfl (if_neg ht) rfl rfl⟩

/-- A log of one event. -/
def logAt {t : ℤ} (h : Precise .sqlite t) : AuditLog .sqlite where
  events := [eventAt t]
  distinct := nodup_singleton _
  precise := fun e he => by rwa [mem_singleton.mp he]

/-- An event that only one of the databases selects. -/
theorem list_ne (hs : Precise .sqlite s) (ht : t ≠ 0) (hpg : ¬ t / 1000 ≤ s / 1000)
    (hsqlite : sqliteFormatTime t ≤ sqliteFormatTime s) :
    listAuditEvents .postgres [eventAt s] (eventsFrom t) = .ok [] ∧
      listAuditEvents .sqlite [eventAt s] (eventsFrom t) = .ok [eventAt s] := by
  obtain ⟨hselects, hselects'⟩ := @selects_eventsFrom t s ht
  have hprecise : ∀ e ∈ [eventAt s], Precise .sqlite e.createdAt := (logAt hs).precise
  constructor
  · rw [list_eq (fun e he => (hprecise e he).postgres) (show (0 : ℤ) ≤ 1 by omega),
      filter_cons, if_neg (mt hselects.mp hpg)]
    rfl
  · rw [list_eq hprecise (show (0 : ℤ) ≤ 1 by omega), filter_cons, if_pos (hselects'.mpr hsqlite)]
    rfl

/-- The year 9999. -/
def lastYear : ℤ := yearStart 9999 * 86400000000000

theorem precise_lastYear : Precise .sqlite lastYear ∧ (ofInstant lastYear).year = 9999 := by
  have hyear : (ofInstant lastYear).year = 9999 := by decide +kernel
  refine ⟨⟨by decide +kernel, ?_⟩, hyear⟩
  rw [FourDigits, hyear]
  omega

/-- The milliseconds of a bound. -/
theorem precise_toMilli (h : FourDigits t) : Precise .sqlite (t / 1000000 * 1000000) := by
  have hyear : (ofInstant (t / 1000000 * 1000000)).year = (ofInstant t).year := by
    have hmilli := instant_toMilli (ofInstant t)
    rw [instant_ofInstant] at hmilli
    rw [← hmilli, ofInstant_instant]
    rfl
  refine ⟨by omega, ?_⟩
  rw [FourDigits, hyear]
  exact h

/-- **A bound that is not exact tells the databases apart.** -/
theorem exists_list_ne (hyear : (ofInstant t).year ≤ 10000) (ht : ¬ Exact t) :
    ∃ log : AuditLog .sqlite, listAuditEvents .postgres log.events (eventsFrom t) ≠
      listAuditEvents .sqlite log.events (eventsFrom t) := by
  have hzero : t ≠ 0 := by
    rintro rfl
    exact ht (by decide +kernel)
  have hne : ∀ {s : ℤ} (hs : Precise .sqlite s), ¬ t / 1000 ≤ s / 1000 →
      sqliteFormatTime t ≤ sqliteFormatTime s → ∃ log : AuditLog .sqlite,
        listAuditEvents .postgres log.events (eventsFrom t) ≠
          listAuditEvents .sqlite log.events (eventsFrom t) := by
    intro s hs hpg hsqlite
    obtain ⟨h1, h2⟩ := list_ne hs hzero hpg hsqlite
    refine ⟨logAt hs, ?_⟩
    show listAuditEvents .postgres [eventAt s] _ ≠ listAuditEvents .sqlite [eventAt s] _
    rw [h1, h2]
    exact fun h => (nomatch h)
  rcases lt_or_ge (ofInstant t).year 10000 with hlt | hge
  · -- the fraction of a millisecond is cut off by one of them
    have hfraction : 0 ≤ (ofInstant t).year ∧ ¬ t % 1000000 < 1000 := by
      rw [Exact] at ht
      push Not at ht
      obtain ⟨hnonneg, hfraction⟩ := ht hlt
      exact ⟨hnonneg, not_lt.mpr hfraction⟩
    have hprecise := precise_toMilli ⟨hfraction.1, hlt⟩
    refine hne hprecise (by omega) (le_of_eq ?_)
    rw [sqliteFormatTime, sqliteFormatTime, formatMilli_inj ⟨hfraction.1, hlt⟩ hprecise.2]
    omega
  · -- five digits come before the year 9999
    have htop : (ofInstant t).year = 10000 := le_antisymm hyear hge
    obtain ⟨hprecise, hlast⟩ := precise_lastYear
    refine hne hprecise ?_ (not_lt.mp ?_)
    swap
    · rw [sqliteFormatTime, sqliteFormatTime, formatMilli_lt_tenThousand_iff hprecise.2 htop, hlast]
      omega
    have hstart := mt (year_lt_iff t 10000).mpr (not_lt.mpr hge)
    have hbefore := (year_lt_iff lastYear 10000).mp (by rw [hlast]; omega)
    omega

/-- **THE BACKENDS AGREE, WHATEVER THE LOG AND THE FILTERS, IFF EVERY BOUND IS EXACT.** -/
theorem backends_agree_iff (bounds : Set ℤ) (hbounds : ∀ t ∈ bounds, Accepted t) :
    (∀ (p : ListAuditEventsParams) (log : AuditLog .sqlite), (p.fromTs = 0 ∨ p.fromTs ∈ bounds) →
      (p.toTs = 0 ∨ p.toTs ∈ bounds) → (p.cursorTs = 0 ∨ p.cursorTs ∈ bounds) → 0 < p.limit →
        listAuditEvents .postgres log.events p = listAuditEvents .sqlite log.events p) ↔
      ∀ t ∈ bounds, Exact t := by
  constructor
  · intro h t ht
    by_contra hexact
    obtain ⟨cs, hcs⟩ := hbounds t ht
    obtain ⟨log, hne⟩ := exists_list_ne (year_of_parse hcs) hexact
    exact hne (h (eventsFrom t) log (.inr ht) (.inl rfl) (.inl rfl) one_pos)
  · intro h p log hfrom hto hcursor hlimit
    have hexact : ∀ t, t = 0 ∨ t ∈ bounds → Exact t := by
      rintro t (rfl | ht)
      · decide +kernel
      · exact h t ht
    have hselects : log.events.filter (selects .postgres p) = log.events.filter (selects .sqlite p) :=
      filter_congr fun e he => (selects_eq_of_exact (log.precise e he) (hexact _ hfrom)
        (hexact _ hto) (hexact _ hcursor)).symm
    rw [list_eq (fun e he => (log.precise e he).postgres) hlimit.le, list_eq log.precise hlimit.le,
      hselects]

/-- The start of the year 2024. -/
def newYear : ℤ := yearStart 2024 * 86400000000000

theorem precise_newYear : Precise .sqlite newYear := ⟨by decide +kernel, by decide +kernel⟩

/-- Half a millisecond after the new year, SQLite still has the event of the new year. -/
theorem half_millisecond_disagrees :
    parseRFC3339 "2024-01-01T00:00:00.0005Z".toList = some (newYear + 500000) ∧
      Precise .sqlite newYear ∧
      listAuditEvents .postgres [eventAt newYear] (eventsFrom (newYear + 500000)) = .ok [] ∧
      listAuditEvents .sqlite [eventAt newYear] (eventsFrom (newYear + 500000)) =
        .ok [eventAt newYear] := by
  refine ⟨by decide +kernel, precise_newYear, ?_⟩
  exact list_ne precise_newYear (by decide +kernel) (by decide +kernel) (le_of_eq (by decide +kernel))

/-- Bounds at the new year are exact. -/
theorem backends_agree_at_newYear : (∀ t ∈ ({newYear} : Set ℤ), Accepted t) ∧
    ∀ (p : ListAuditEventsParams) (log : AuditLog .sqlite),
      (p.fromTs = 0 ∨ p.fromTs ∈ ({newYear} : Set ℤ)) → (p.toTs = 0 ∨ p.toTs ∈ ({newYear} : Set ℤ)) →
      (p.cursorTs = 0 ∨ p.cursorTs ∈ ({newYear} : Set ℤ)) → 0 < p.limit →
        listAuditEvents .postgres log.events p = listAuditEvents .sqlite log.events p := by
  have haccepted : ∀ t ∈ ({newYear} : Set ℤ), Accepted t := by
    rintro t rfl
    exact accepted_of_fourDigits precise_newYear.2
  refine ⟨haccepted, (backends_agree_iff {newYear} haccepted).mpr ?_⟩
  rintro t rfl
  decide +kernel

end FalseFlag.Audit
