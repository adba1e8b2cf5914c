/-
  Reading the audit log page by page (internal/server/handlers/audit.go).

  The handler asks the store for one row more than the page has, to see whether there is a next page;
  the cursor is the timestamp and the identifier of the page's last event, as JSON in base 64.  A
  client follows the cursors until there is none (`Paging.follow`).

  1. **The cursor** — `decodeAuditCursor_encode`: decoding reads back what was encoded, as far as the
     text of the timestamp can be read back, which is for years with four digits.

  2. **The page** — `respond_eq`: with a limit from 1 on, and below the largest `int32`, the response
     is `Paging.pageOf` of what the store has after the cursor.

  3. **The run** — `pages_list_matching`: a client reads the events that pass the filters, each once,
     newest first.  They are the events that match iff no bound cuts one off (`Cut`).
-/
import FalseFlag.AuditLog
import FalseFlag.Lib.Base64
import FalseFlag.Lib.JsonRead
import FalseFlag.SdkGo

namespace FalseFlag.Audit

open List Calendar TimeText Paging JsonTree Int32

/-! ## The cursor -/

/-- `auditCursor`. -/
structure AuditCursor where
  ts : String
  id : Uuid

/-- Why a cursor is refused. -/
inductive CursorError where
  | base64
  | json
  | time
  deriving DecidableEq

/-- encoding/json on a document whose numbers nobody reads. -/
def cursorCode : Code NumText := goChars.code NumText.code

/-- `json.Marshal` of an `auditCursor`. -/
def AuditCursor.marshal (c : AuditCursor) : Json NumText :=
  .obj [("ts", .str c.ts), ("id", .str (String.ofList c.id.text))]

/-- `encodeAuditCursor`. -/
def encodeAuditCursor (ts : ℤ) (id : Uuid) : String :=
  let c : AuditCursor := ⟨String.ofList (formatNano ts), id⟩
  String.ofList (Base64.encode (toUtf8 (cursorCode.render c.marshal)))

/-- The fields of an `auditCursor`. -/
inductive CursorField where
  | ts | id
  deriving DecidableEq

def cursorFields : List (String × CursorField) := [("ts", .ts), ("id", .id)]

/-- Into a field: `null` leaves it alone. -/
def AuditCursor.set (c : AuditCursor) : CursorField → Json NumText → Option AuditCursor
  | .ts, .str s => some { c with ts := s }
  | .id, .str s => (Uuid.parse s.toList).map fun id => { c with id }
  | _, .null => some c
  | _, _ => none

/-- The members of an object, one after the other. -/
def AuditCursor.setAll (c : AuditCursor) : List (String × Json NumText) → Option AuditCursor
  | [] => some c
  | (name, v) :: ms =>
    match findField cursorFields name with
    | none => c.setAll ms
    | some field => (c.set field v).bind fun c => c.setAll ms

/-- Into an `auditCursor`. -/
def unmarshalCursor : Json NumText → Option AuditCursor
  | .null => some ⟨"", 0⟩
  | .obj ms => AuditCursor.setAll ⟨"", 0⟩ ms
  | _ => none

/-- `parseTime`. -/
def parseTime (s : String) : Option ℤ := if s = "" then some 0 else parseRFC3339 s.toList

/-- `decodeAuditCursor`. -/
def decodeAuditCursor (s : String) : Except CursorError (ℤ × Uuid) :=
  match Base64.decode s.toList with
  | none => .error .base64
  | some bytes =>
    match (read readNumText (ofUtf8 bytes.length bytes)).bind unmarshalCursor with
    | none => .error .json
    | some c =>
      match parseTime c.ts with
      | none => .error .time
      | some ts => .ok (ts, c.id)

theorem knows_cursorCode : Knows readNumText cursorCode goChars :=
  knows_numText _ fun c h => by
    rw [goUni, decide_eq_true (show c.toNat < 0x20 from h)]
    rfl

theorem unmarshal_marshal (c : AuditCursor) : unmarshalCursor c.marshal = some c := by
  have hts : findField cursorFields "ts" = some .ts := by decide +kernel
  have hid : findField cursorFields "id" = some .id := by decide +kernel
  rw [AuditCursor.marshal, unmarshalCursor, AuditCursor.setAll, hts]
  simp only [AuditCursor.set, Option.bind_some]
  rw [AuditCursor.setAll, hid]
  simp only [AuditCursor.set, String.toList_ofList, Uuid.parse_text, Option.map_some, Option.bind_some]
  rfl

/-- **Decoding reads back what was encoded**, but for the text of the timestamp. -/
theorem decodeAuditCursor_encode (ts : ℤ) (id : Uuid) :
    decodeAuditCursor (encodeAuditCursor ts id) =
      match parseRFC3339 (formatNano ts) with
      | none => .error .time
      | some t => .ok (t, id) := by
  have hne : String.ofList (formatNano ts) ≠ "" := by
    intro h
    have hnil := congrArg String.toList h
    rw [String.toList_ofList, formatNano, toSeconds] at hnil
    exact absurd (append_eq_nil_iff.mp hnil).2 (cons_ne_nil _ _)
  rw [decodeAuditCursor, encodeAuditCursor, String.toList_ofList, Base64.decode_encode]
  simp only [ofUtf8_toUtf8 _ le_rfl, read_render knows_cursorCode, Option.bind_some, unmarshal_marshal]
  rw [parseTime, if_neg hne, String.toList_ofList]

theorem decodeAuditCursor_of_fourDigits {ts : ℤ} (h : FourDigits ts) (id : Uuid) :
    decodeAuditCursor (encodeAuditCursor ts id) = .ok (ts, id) := by
  rw [decodeAuditCursor_encode, parse_formatNano h]

/-! ## The handler -/

/-- `openapi.ListAuditEventsParams`. -/
structure Openapi.ListAuditEventsParams where
  action : Option String
  actor : Option String
  fromTs : Option ℤ
  toTs : Option ℤ
  cursor : Option String
  limit : Option Int32

/-- `openapi.AuditEvent`. -/
structure Openapi.AuditEvent where
  action : String
  actor : Option String
  createdAt : ℤ
  flagId : Option Uuid
  id : Uuid
  payload : Doc
  projectId : Option Uuid

/-- What the handler calls. -/
structure AuditStore where
  getProjectBySlug : String → Except DbError Uuid
  listAuditEvents : ListAuditEventsParams → Except DbError (List AuditEvent)

/-- What the handler answers: 503, 404, 500, 400 (`invalid cursor`), 200; or it panics. -/
inductive Response where
  | serviceUnavailable
  | notFound (err : DbError)
  | internalServerError (err : DbError)
  | badRequest (err : CursorError)
  | ok (items : List Openapi.AuditEvent) (nextCursor : Option String)
  | panicked

/-- `notFoundOrError`. -/
def notFoundOrError (err : DbError) : Response :=
  if err.is .notFound then .notFound err else .internalServerError err

/-- `auditEventToAPI`. -/
def auditEventToAPI (env : Env) (a : AuditEvent) : Openapi.AuditEvent where
  action := a.action
  actor := if a.actor ≠ "" then some a.actor else none
  createdAt := a.createdAt
  flagId := a.flagId
  id := a.id
  payload := rawToAny env a.payload
  projectId := a.projectId

/-- The loop over the rows, from index `i` on. -/
def pageItems (env : Env) (limit : Int32) : ℕ → List AuditEvent → List Openapi.AuditEvent
  | _, [] => []
  | i, ev :: rows =>
    if ofNat i ≥ limit then [] else auditEventToAPI env ev :: pageItems env limit (i + 1) rows

/-- `rows[i]`; an index out of range panics. -/
def rowAt (rows : List AuditEvent) (i : Int32) : Option AuditEvent :=
  if i < 0 then none else rows[i.toInt.toNat]?

/-- The response to the rows of the store. -/
def respond (env : Env) (limit : Int32) (rows : List AuditEvent) : Response :=
  let items := pageItems env limit 0 rows
  if ofNat rows.length > limit then
    match rowAt rows (limit - 1) with
    | none => .panicked
    | some last => .ok items (some (encodeAuditCursor last.createdAt last.id))
  else .ok items none

/-- The cursor of a request; an empty one is none. -/
def requestCursor : Option String → Except CursorError (ℤ × Uuid)
  | none => .ok (0, 0)
  | some s => if s ≠ "" then decodeAuditCursor s else .ok (0, 0)

/-- The limit of a request. -/
def Openapi.ListAuditEventsParams.limitOrDefault (params : Openapi.ListAuditEventsParams) : Int32 :=
  params.limit.getD 100

/-- The parameters for the store.  One row more shows whether there is a next page. -/
def storeParams (project : Uuid) (params : Openapi.ListAuditEventsParams) (cursor : ℤ × Uuid) :
    ListAuditEventsParams where
  projectId := project
  action := params.action.getD ""
  actor := params.actor.getD ""
  fromTs := params.fromTs.getD 0
  toTs := params.toTs.getD 0
  cursorTs := cursor.1
  cursorId := cursor.2
  limit := (params.limitOrDefault + 1).toInt

/-- `API.ListAuditEvents`. -/
def API.listAuditEvents (env : Env) (store : Option AuditStore) (slug : String)
    (params : Openapi.ListAuditEventsParams) : Response :=
  match store with
  | none => .serviceUnavailable
  | some store =>
    match store.getProjectBySlug slug with
    | .error err => notFoundOrError err
    | .ok project =>
      match requestCursor params.cursor with
      | .error err => .badRequest err
      | .ok cursor =>
        match store.listAuditEvents (storeParams project params cursor) with
        | .error err => .internalServerError err
        | .ok rows => respond env params.limitOrDefault rows

/-! ## One page -/

/-- The page of a response. -/
def Response.page? : Response → Option (List Openapi.AuditEvent × Option String)
  | .ok items nextCursor => some (items, nextCursor)
  | _ => none

/-- The cursor after an event. -/
def Openapi.AuditEvent.cursor (e : Openapi.AuditEvent) : String := encodeAuditCursor e.createdAt e.id

section Page

variable {env : Env} {limit : Int32}

/-- Small numbers survive the conversion to `int32`. -/
theorem ofNat_ge_iff {i : ℕ} (hi : i < 2 ^ 31) : ofNat i ≥ limit ↔ limit.toInt ≤ i := by
  rw [ge_iff_le, le_iff_toInt_le, toInt_ofNat_of_lt hi]

theorem pageItems_eq : ∀ {rows : List AuditEvent} {i : ℕ}, i + rows.length ≤ 2 ^ 31 →
    pageItems env limit i rows = (rows.take (limit.toInt - i).toNat).map (auditEventToAPI env)
  | [], i, _ => by
    rw [take_nil]
    rfl
  | ev :: rows, i, h => by
    rw [length_cons] at h
    rw [pageItems, pageItems_eq (by omega)]
    by_cases hi : limit.toInt ≤ i
    · rw [if_pos ((ofNat_ge_iff (by omega)).mpr hi), Int.toNat_eq_zero.mpr (by omega)]
      rfl
    · rw [if_neg (mt (ofNat_ge_iff (by omega)).mp hi)]
      have hsucc : (limit.toInt - i).toNat = (limit.toInt - (i + 1 : ℕ)).toNat + 1 := by omega
      rw [hsucc]
      rfl

/-- One row more still fits. -/
theorem toInt_succ (h : limit.toInt + 1 < 2 ^ 31) : (limit + 1).toInt = limit.toInt + 1 := by
  have hle := limit.le_toInt
  rw [toInt_add, toInt_one, Int.bmod_eq_of_le (by omega) (by omega)]

/-- **The page is the next `limit` events**, with the cursor of the last one if more follow. -/
theorem respond_eq (hlimit : 1 ≤ limit.toInt) (hfits : limit.toInt + 1 < 2 ^ 31)
    (rest : List AuditEvent) :
    (respond env limit (rest.take (limit + 1).toInt.toNat)).page? =
      some (pageOf limit.toInt.toNat Openapi.AuditEvent.cursor (rest.map (auditEventToAPI env))) := by
  have hsucc := toInt_succ hfits
  have hpred : (limit - 1).toInt = limit.toInt - 1 := by
    rw [toInt_sub, toInt_one, Int.bmod_eq_of_le (by omega) (by omega)]
  obtain ⟨n, hn⟩ := Int.eq_ofNat_of_zero_le (show 0 ≤ limit.toInt by omega)
  have hrows : (rest.take (limit + 1).toInt.toNat).length = min (n + 1) rest.length := by
    rw [hsucc, hn, length_take]
    rfl
  have hitems : pageItems env limit 0 (rest.take (limit + 1).toInt.toNat) =
      (rest.map (auditEventToAPI env)).take n := by
    rw [pageItems_eq (by omega), hsucc, hn, take_take, map_take]
    congr 1
    omega
  have hmore : ofNat (rest.take (limit + 1).toInt.toNat).length > limit ↔ n < rest.length := by
    rw [gt_iff_lt, lt_iff_toInt_lt, toInt_ofNat_of_lt (by omega), hrows, hn]
    omega
  rw [respond, hitems, pageOf, length_map, hn, Int.toNat_natCast]
  by_cases h : n < rest.length
  · -- the cursor is that of the last row of the page, not of the one that was fetched in addition
    have hrow : rowAt (rest.take (limit + 1).toInt.toNat) (limit - 1) = rest[n - 1]? := by
      have hnonneg : ¬ limit - 1 < 0 := by
        rw [lt_iff_toInt_lt, hpred]
        show ¬ _ < (0 : ℤ)
        omega
      rw [rowAt, if_neg hnonneg, hpred, hsucc, hn, getElem?_take_of_lt (by omega)]
      congr 1
      omega
    rw [if_pos (hmore.mpr h), if_pos h, hrow, getElem?_map,
      getElem?_eq_getElem (show n - 1 < rest.length by omega)]
    rfl
  · rw [if_neg (mt hmore.mp h), if_neg h]
    rfl

end Page

/-! ## All pages -/

/-- The store of a backend. -/
def auditStore (b : Backend) (projects : List (String × Uuid)) (log : List AuditEvent) :
    AuditStore where
  getProjectBySlug slug :=
    match projects.lookup slug with
    | some project => .ok project
    | none => .error .notFound
  listAuditEvents := listAuditEvents b log

/-- A request for the page after a cursor. -/
def request (env : Env) (store : AuditStore) (slug : String) (params : Openapi.ListAuditEventsParams)
    (cursor : Option String) : Option (List Openapi.AuditEvent × Option String) :=
  (API.listAuditEvents env (some store) slug { params with cursor }).page?

/-- Pages that list some events: each of them once, newest first, `limit` on a page. -/
structure Lists (env : Env) (limit : ℤ) (pages : List (List Openapi.AuditEvent))
    (events listing : List AuditEvent) : Prop where
  items : pages.flatten = listing.map (auditEventToAPI env)
  perm : listing.Perm events
  newestFirst : listing.Pairwise fun a b => b.key < a.key
  bounded : ∀ page ∈ pages, (page.length : ℤ) ≤ limit

/-- A client that follows the cursors, with enough requests, reads some events. -/
def ReadsAll (env : Env) (store : AuditStore) (slug : String)
    (params : Openapi.ListAuditEventsParams) (events : List AuditEvent) : Prop :=
  ∃ n pages listing, (∀ m, n ≤ m → follow (request env store slug params) m none = some pages) ∧
    Lists env params.limitOrDefault.toInt pages events listing

/-- The events that pass the filters of a request. -/
def passing (b : Backend) (log : List AuditEvent) (project : Uuid)
    (params : Openapi.ListAuditEventsParams) : List AuditEvent :=
  log.filter (filtered b (storeParams project params (0, 0)))

section Run

variable {env : Env} {b : Backend} {log : AuditLog b} {projects : List (String × Uuid)}
  {slug : String} {project : Uuid} {params : Openapi.ListAuditEventsParams}

/-- No two events of a listing have one key. -/
theorem distinct_passing : Distinct AuditEvent.key (passing b log.events project params) := by
  have hids : ((passing b log.events project params).map AuditEvent.id).Nodup :=
    log.distinct.sublist (filter_sublist.map _)
  refine List.Nodup.of_map (fun k : ℤ ×ₗ Uuid => (ofLex k).2) ?_
  rw [map_map]
  exact hids

/-- The response to a request whose cursor can be read. -/
theorem request_eq (hproject : projects.lookup slug = some project)
    (hlimit : 1 ≤ params.limitOrDefault.toInt) (hfits : params.limitOrDefault.toInt + 1 < 2 ^ 31)
    {c : Option String} {cursor : ℤ × Uuid} (hcursor : requestCursor c = .ok cursor) :
    request env (auditStore b projects log.events) slug params c =
      some (pageOf params.limitOrDefault.toInt.toNat Openapi.AuditEvent.cursor
        ((newestFirst AuditEvent.key
          (log.events.filter (selects b (storeParams project params cursor)))).map
            (auditEventToAPI env))) := by
  have hparams : storeParams project { params with cursor := c } cursor =
    storeParams project params cursor := rfl
  have hnonneg : 0 ≤ (storeParams project params cursor).limit := by
    show 0 ≤ (params.limitOrDefault + 1).toInt
    rw [toInt_succ hfits]
    omega
  rw [request, API.listAuditEvents]
  simp only [auditStore, hproject, hcursor, hparams, list_eq log.precise hnonneg]
  exact respond_eq hlimit hfits _

/-- The zero time is no cursor: the request is for the first page. -/
theorem request_zero (hproject : projects.lookup slug = some project)
    (hlimit : 1 ≤ params.limitOrDefault.toInt) (hfits : params.limitOrDefault.toInt + 1 < 2 ^ 31)
    {c : Option String} {id : Uuid} (hcursor : requestCursor c = .ok (0, id)) :
    request env (auditStore b projects log.events) slug params c =
      some (pageOf params.limitOrDefault.toInt.toNat Openapi.AuditEvent.cursor
        ((newestFirst AuditEvent.key (passing b log.events project params)).map
          (auditEventToAPI env))) := by
  have hselects : selects b (storeParams project params (0, id)) =
      filtered b (storeParams project params (0, 0)) := by
    funext e
    rw [selects_of_zero rfl]
    cases b <;> rfl
  rw [request_eq hproject hlimit hfits hcursor, hselects, passing]

/-- A cursor that was handed out is read back. -/
theorem requestCursor_encode {ts : ℤ} (h : FourDigits ts) (id : Uuid) :
    requestCursor (some (encodeAuditCursor ts id)) = .ok (ts, id) := by
  have hdecode := decodeAuditCursor_of_fourDigits h id
  have hne : encodeAuditCursor ts id ≠ "" := by
    intro hempty
    rw [hempty] at hdecode
    nomatch (show Except.error CursorError.json = Except.ok (ts, id) from hdecode)
  rw [requestCursor, if_pos hne, hdecode]

/-- **After the cursor of an event comes what stands after it in the listing.** -/
theorem request_place (hproject : projects.lookup slug = some project)
    (hlimit : 1 ≤ params.limitOrDefault.toInt) (hfits : params.limitOrDefault.toInt + 1 < 2 ^ 31)
    (hlog : ∀ e ∈ passing b log.events project params, e.createdAt ≠ 0 ∧ FourDigits e.createdAt)
    {c : Option String} {rest : List Openapi.AuditEvent}
    (hplace : Place Openapi.AuditEvent.cursor ((newestFirst AuditEvent.key
      (passing b log.events project params)).map (auditEventToAPI env)) c rest) :
    request env (auditStore b projects log.events) slug params c =
      some (pageOf params.limitOrDefault.toInt.toNat Openapi.AuditEvent.cursor rest) := by
  cases hplace with
  | start => exact request_zero hproject hlimit hfits rfl
  | after h =>
    obtain ⟨pre, l, hsplit, -, hmap⟩ := map_eq_append_iff.mp h
    obtain ⟨x, rest, rfl, rfl, rfl⟩ := map_eq_cons_iff.mp hmap
    have hx : x ∈ newestFirst AuditEvent.key (passing b log.events project params) := by
      rw [hsplit]
      exact mem_append_right _ mem_cons_self
    have hpassing := (perm_newestFirst _ _).subset hx
    have hmem : x ∈ log.events := mem_of_mem_filter hpassing
    obtain ⟨hne, hfour⟩ := hlog x hpassing
    -- the cursor of an event of the listing is read back, and is not the zero time
    have hcursor : requestCursor (some (auditEventToAPI env x).cursor) = .ok (x.createdAt, x.id) :=
      requestCursor_encode hfour x.id
    have hselects : log.events.filter (selects b (storeParams project params (x.createdAt, x.id))) =
        (passing b log.events project params).filter fun y => y.key < x.key := by
      rw [passing, filter_filter]
      refine filter_congr fun y hy => ?_
      rw [selects_of_cursor (log.precise y hy) (log.precise x hmem) hne, Bool.and_comm]
      cases b <;> rfl
    rw [request_eq hproject hlimit hfits hcursor, hselects,
      newestFirst_after distinct_passing hsplit]

/-- **All pages.** -/
theorem exists_pages (hproject : projects.lookup slug = some project)
    (hlimit : 1 ≤ params.limitOrDefault.toInt) (hfits : params.limitOrDefault.toInt + 1 < 2 ^ 31)
    (hlog : ∀ e ∈ passing b log.events project params, e.createdAt ≠ 0 ∧ FourDigits e.createdAt) :
    ReadsAll env (auditStore b projects log.events) slug params
      (passing b log.events project params) := by
  obtain ⟨pages, hfollow, hflatten, hbounded⟩ :=
    follow_eq (show 0 < params.limitOrDefault.toInt.toNat by omega)
      (fun c rest => @request_place env b log projects slug project params hproject hlimit hfits hlog
        c rest) le_rfl .start
  refine ⟨_, pages, _, fun m hm => hfollow m hm, hflatten, perm_newestFirst _ _,
    pairwise_newestFirst distinct_passing, ?_⟩
  intro page hpage
  have hle := hbounded page hpage
  omega

/-- The identifier of an event of the log tells whether it is among those with a property. -/
theorem id_mem_iff {p : AuditEvent → Bool} {listing : List AuditEvent}
    (hperm : listing.Perm (log.events.filter p)) {e : AuditEvent} (he : e ∈ log.events) :
    e.id ∈ listing.map AuditEvent.id ↔ p e = true := by
  rw [(hperm.map _).mem_iff, mem_map]
  constructor
  · rintro ⟨e', he', hid⟩
    obtain ⟨hmem, hp⟩ := mem_filter.mp he'
    rwa [← inj_on_of_nodup_map log.distinct hmem he hid]
  · exact fun hp => ⟨e, mem_filter.mpr ⟨he, hp⟩, rfl⟩

/-- A client reads one selection of the log only. -/
theorem ReadsAll.eq {p q : AuditEvent → Bool}
    (hp : ReadsAll env (auditStore b projects log.events) slug params (log.events.filter p))
    (hq : ReadsAll env (auditStore b projects log.events) slug params (log.events.filter q))
    {e : AuditEvent} (he : e ∈ log.events) : p e = q e := by
  obtain ⟨n, pages, listing, hfollow, hlists⟩ := hp
  obtain ⟨n', pages', listing', hfollow', hlists'⟩ := hq
  have hpages := (hfollow _ (le_max_left n n')).symm.trans (hfollow' _ (le_max_right n n'))
  have hitems : listing.map (auditEventToAPI env) = listing'.map (auditEventToAPI env) := by
    rw [← hlists.items, ← hlists'.items, Option.some_inj.mp hpages]
  have hids : listing.map AuditEvent.id = listing'.map AuditEvent.id := by
    have h := congrArg (List.map Openapi.AuditEvent.id) hitems
    rwa [map_map, map_map] at h
  rw [Bool.eq_iff_iff, ← id_mem_iff hlists.perm he, hids, id_mem_iff hlists'.perm he]

end Run

/-- **A CLIENT THAT FOLLOWS THE CURSORS READS THE EVENTS THAT PASS THE FILTERS**, each once, newest
    first; they are the events that match iff `to` cuts off none that matches and `from` none that
    would match without it; and cursors are read back. -/
theorem pages_list_matching (env : Env) (b : Backend) (log : AuditLog b)
    (projects : List (String × Uuid)) (slug : String) (project : Uuid)
    (hproject : projects.lookup slug = some project) (params : Openapi.ListAuditEventsParams)
    (hbounds : ∀ t, params.fromTs = some t ∨ params.toTs = some t → Accepted t)
    (hlimit : 1 ≤ params.limitOrDefault.toInt) (hfits : params.limitOrDefault.toInt + 1 < 2 ^ 31)
    (hlog : ∀ e ∈ passing b log.events project params, e.createdAt ≠ 0 ∧ FourDigits e.createdAt) :
    ReadsAll env (auditStore b projects log.events) slug params
      (passing b log.events project params) ∧
    (ReadsAll env (auditStore b projects log.events) slug params
        (log.events.filter (storeParams project params (0, 0)).matching) ↔
      ∀ e ∈ log.events,
        ((storeParams project params (0, 0)).matching e →
          ¬ Cut b (params.toTs.getD 0) e.createdAt) ∧
        ((storeParams project { params with fromTs := none } (0, 0)).matching e →
          Cut b (params.fromTs.getD 0) e.createdAt → Cut b (params.toTs.getD 0) e.createdAt)) ∧
    ∀ ts id, FourDigits ts → decodeAuditCursor (encodeAuditCursor ts id) = .ok (ts, id) := by
  have hyear : ∀ o : Option ℤ, (∀ t, o = some t → Accepted t) →
      (ofInstant (o.getD 0)).year ≤ 10000 := by
    rintro (_ | t) ho
    · decide +kernel
    · obtain ⟨cs, hcs⟩ := ho t rfl
      exact year_of_parse hcs
  have hiff := fun e he => @filtered_eq_matching_iff b e (storeParams project params (0, 0))
    (log.precise e he) (hyear params.fromTs fun t ht => hbounds t (.inl ht))
    (hyear params.toTs fun t ht => hbounds t (.inr ht))
  have hread := @exists_pages env _ _ _ _ _ _ hproject hlimit hfits hlog
  refine ⟨hread, ⟨fun hmatching e he => (hiff e he).mp (hread.eq hmatching he), fun h => ?_⟩,
    fun ts id h => decodeAuditCursor_of_fourDigits h id⟩
  have hsame : passing b log.events project params =
      log.events.filter (storeParams project params (0, 0)).matching :=
    filter_congr fun e he => (hiff e he).mpr (h e he)
  rwa [← hsame]

/-- A request with a limit, and an upper bound or none. -/
def plainRequest (limit : Int32) (toTs : Option ℤ) : Openapi.ListAuditEventsParams where
  action := none
  actor := none
  fromTs := none
  toTs
  cursor := none
  limit := some limit

/-- Two events of one time. -/
def pairAt {b : Backend} {t : ℤ} (h : Precise b t) : AuditLog b where
  events := [eventAt t, { eventAt t with id := 2 }]
  distinct := by
    show [(1 : Uuid), 2].Nodup
    decide
  precise := by
    intro e he
    rcases mem_cons.mp he with rfl | he
    · exact h
    · rw [mem_singleton.mp he]
      exact h

theorem createdAt_of_mem_pairAt {b : Backend} {t : ℤ} (h : Precise b t) {e : AuditEvent}
    (he : e ∈ (pairAt h).events) : e.createdAt = t := by
  rcases mem_cons.mp he with rfl | he
  · rfl
  · rw [mem_singleton.mp he]
    rfl

/-- Two events of the new year, on two pages, with an upper bound a second later. -/
theorem pages_list_newYear :
    (∀ e ∈ (pairAt precise_newYear).events, e.createdAt ≠ 0 ∧ FourDigits e.createdAt) ∧
    ReadsAll .plain (auditStore .sqlite [("demo", 1)] (pairAt precise_newYear).events) "demo"
      (plainRequest 1 (some (newYear + 1000000000)))
      ((pairAt precise_newYear).events.filter
        (storeParams 1 (plainRequest 1 (some (newYear + 1000000000))) (0, 0)).matching) := by
  have hlog : ∀ e ∈ (pairAt precise_newYear).events, e.createdAt ≠ 0 ∧ FourDigits e.createdAt := by
    intro e he
    rw [createdAt_of_mem_pairAt precise_newYear he]
    exact ⟨by decide +kernel, precise_newYear.2⟩
  have hbounds : ∀ t, (none : Option ℤ) = some t ∨ some (newYear + 1000000000) = some t →
      Accepted t := by
    rintro t (h | h)
    · cases h
    · cases h
      exact accepted_of_fourDigits (by decide +kernel)
  refine ⟨hlog, (pages_list_matching .plain .sqlite (pairAt precise_newYear) [("demo", 1)] "demo" 1
    rfl (plainRequest 1 (some (newYear + 1000000000))) hbounds (by decide) (by decide)
    fun e he => hlog e (mem_of_mem_filter he)).2.1.mpr fun e he => ?_⟩
  have hnone : ¬ Cut .sqlite (newYear + 1000000000) newYear ∧ ¬ Cut .sqlite 0 newYear := by
    decide +kernel
  rw [createdAt_of_mem_pairAt precise_newYear he]
  exact ⟨fun _ => hnone.1, fun _ h => absurd h hnone.2⟩

/-- **A bound half a millisecond after an event cuts it off in SQLite**, though it matches. -/
theorem paging_fails :
    parseRFC3339 "2024-01-01T00:00:00.0005Z".toList = some (newYear + 500000) ∧
    (storeParams 1 (plainRequest 1 (some (newYear + 500000))) (0, 0)).matching
      (eventAt newYear) = true ∧
    follow (request .plain (auditStore .sqlite [("demo", 1)] (logAt precise_newYear).events) "demo"
      (plainRequest 1 (some (newYear + 500000)))) 1 none = some [[]] := by
  refine ⟨by decide +kernel, by decide +kernel, ?_⟩
  have hout : filtered .sqlite (storeParams 1 (plainRequest 1 (some (newYear + 500000))) (0, 0))
      (eventAt newYear) = false := by decide +kernel
  have hnone : passing .sqlite (logAt precise_newYear).events 1
      (plainRequest 1 (some (newYear + 500000))) = [] := by
    show [eventAt newYear].filter _ = []
    rw [filter_cons, hout]
    rfl
  rw [follow, @request_zero .plain .sqlite (logAt precise_newYear) _ _ 1
    (plainRequest 1 (some (newYear + 500000))) rfl (by decide) (by decide) none 0 rfl, hnone]
  rfl

end FalseFlag.Audit
