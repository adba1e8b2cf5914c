/-
  The limit of `ListAuditEvents` (internal/server/handlers/audit.go), for EVERY `int32`.

  The REST handler takes the limit as it comes (the RPC handler clamps it), asks the store for
  `limit + 1` rows, keeps `limit` of them, and takes the cursor from `rows[limit-1]`.  Three things can
  go wrong, and each has its lemma:
  * `toInt_succ_iff` — `limit + 1` wraps at the largest `int32`;
  * `respond_panics_iff` — the index is out of range when rows remain and the limit is not positive;
  * `length_pageItems` — a page is never too long.
  **`listAuditEvents_safe_iff`** puts them together: a request that reaches the store is safe iff its
  limit can be increased and the rows the store returns suit it (`SuitsLimit`).
-/
import FalseFlag.AuditPages

namespace FalseFlag.Audit

open Calendar TimeText Paging JsonTree Int32

/-! ## The three places -/

section Limit

variable {env : Env} {limit : Int32}

theorem limit_bounds (limit : Int32) : -2 ^ 31 ≤ limit.toInt ∧ limit.toInt < 2 ^ 31 :=
  ⟨limit.le_toInt, limit.toInt_lt⟩

/-- `limit + 1` wraps only at the top. -/
theorem toInt_succ_iff : (limit + 1).toInt = limit.toInt + 1 ↔ limit.toInt ≠ 2 ^ 31 - 1 := by
  have hbounds := limit_bounds limit
  constructor
  · intro h hmax
    have := (limit_bounds (limit + 1)).2
    omega
  · intro h
    exact toInt_succ (by omega)

/-- `limit - 1` wraps only at the bottom. -/
theorem toInt_pred (h : limit.toInt ≠ -2 ^ 31) : (limit - 1).toInt = limit.toInt - 1 := by
  have hbounds := limit_bounds limit
  rw [toInt_sub, toInt_one, Int.bmod_eq_of_le (by omega) (by omega)]

theorem toInt_pred_min (h : limit.toInt = -2 ^ 31) : (limit - 1).toInt = 2 ^ 31 - 1 := by
  rw [toInt_sub, toInt_one, h]
  decide

theorem rowAt_eq_none {rows : List AuditEvent} {i : Int32} :
    rowAt rows i = none ↔ i.toInt < 0 ∨ (rows.length : ℤ) ≤ i.toInt := by
  have hlt : i < 0 ↔ i.toInt < 0 := lt_iff_toInt_lt
  unfold rowAt
  by_cases hi : i < 0
  · rw [if_pos hi]
    exact ⟨fun _ => .inl (hlt.mp hi), fun _ => rfl⟩
  · rw [if_neg hi, List.getElem?_eq_none_iff]
    rw [hlt] at hi
    omega

/-- The handler panics iff it thinks there is a next page, and has no last row. -/
theorem respond_panics_iff {rows : List AuditEvent} :
    respond env limit rows = .panicked ↔
      limit < ofNat rows.length ∧ rowAt rows (limit - 1) = none := by
  unfold respond
  by_cases hmore : ofNat rows.length > limit
  · rw [if_pos hmore]
    rcases rowAt rows (limit - 1) with _ | last
    · exact ⟨fun _ => ⟨hmore, rfl⟩, fun _ => rfl⟩
    · exact ⟨fun h => (nomatch h), fun h => (nomatch h.2)⟩
  · rw [if_neg hmore]
    exact ⟨fun h => (nomatch h), fun h => absurd h.1 hmore⟩

/-- Whatever is sent is the loop's result. -/
theorem respond_items {rows : List AuditEvent} {items : List Openapi.AuditEvent}
    {next : Option String} (h : respond env limit rows = .ok items next) :
    items = pageItems env limit 0 rows := by
  unfold respond at h
  by_cases hmore : ofNat rows.length > limit
  · rw [if_pos hmore] at h
    rcases hlast : rowAt rows (limit - 1) with _ | last
    · rw [hlast] at h
      nomatch h
    · rw [hlast] at h
      injection h with h _
      exact h.symm
  · rw [if_neg hmore] at h
    injection h with h _
    exact h.symm

/-- A limit that is not positive stops the loop at once. -/
theorem pageItems_nonpos (hlimit : limit.toInt ≤ 0) (rows : List AuditEvent) :
    pageItems env limit 0 rows = [] := by
  cases rows with
  | nil => rfl
  | cons ev rows => rw [pageItems, if_pos ((ofNat_ge_iff (by decide)).mpr hlimit)]

/-- A page is never too long. -/
theorem length_pageItems {rows : List AuditEvent} (hrows : (rows.length : ℤ) ≤ limit.toInt + 1 ∨
    limit.toInt ≤ 0) : ((pageItems env limit 0 rows).length : ℤ) ≤ max limit.toInt 0 := by
  have hbounds := limit_bounds limit
  by_cases hlimit : limit.toInt ≤ 0
  · rw [pageItems_nonpos hlimit]
    exact le_max_right _ _
  · rw [pageItems_eq (by omega), List.length_map, List.length_take]
    omega

end Limit

/-! ## Rows that suit a limit -/

/-- The rows do not lead the handler out of range. -/
def SuitsLimit (limit : Int32) (rows : List AuditEvent) : Prop :=
  1 ≤ limit.toInt ∨ (limit.toInt = 0 ∧ rows = []) ∨
    -- below 0 every index is out of range, so the number of rows must have wrapped below the limit;
    -- at the very bottom the INDEX wraps, to the largest `int32`
    (limit.toInt < 0 ∧ (ofNat rows.length ≤ limit ∨
      (limit.toInt = -2 ^ 31 ∧ 2 ^ 31 ≤ rows.length)))

/-- Small numbers of rows are counted right. -/
theorem toInt_length {rows : List AuditEvent} (h : rows.length < 2 ^ 31) :
    (ofNat rows.length).toInt = rows.length :=
  toInt_ofNat_of_lt h

theorem respond_suits_iff {env : Env} {limit : Int32} {rows : List AuditEvent}
    (hmax : limit.toInt ≠ 2 ^ 31 - 1)
    (hrows : 0 ≤ limit.toInt + 1 → (rows.length : ℤ) ≤ limit.toInt + 1) :
    respond env limit rows ≠ .panicked ↔ SuitsLimit limit rows := by
  have hbounds := limit_bounds limit
  rw [Ne, respond_panics_iff, rowAt_eq_none, lt_iff_toInt_lt, SuitsLimit]
  rcases lt_trichotomy limit.toInt 0 with hneg | hzero | hpos
  · rw [le_iff_toInt_le]
    by_cases hmin : limit.toInt = -2 ^ 31
    · rw [toInt_pred_min hmin]
      omega
    · rw [toInt_pred hmin]
      omega
  · have hlen := hrows (by omega)
    rw [toInt_length (by omega), toInt_pred (by omega)]
    rcases rows with _ | ⟨ev, rows⟩
    · simp [hzero]
    · simp only [List.length_cons, reduceCtorEq, and_false, false_or]
      push_cast
      omega
  · have hlen := hrows (by omega)
    rw [toInt_length (by omega), toInt_pred (by omega)]
    omega

/-! ## A request -/

/-- The store returns no more rows than it is asked for, if that is a number of rows. -/
def AuditStore.KeepsLimit (store : AuditStore) : Prop :=
  ∀ p rows, store.listAuditEvents p = .ok rows → 0 ≤ p.limit → (rows.length : ℤ) ≤ p.limit

/-- The stores of both backends do. -/
theorem keepsLimit_auditStore {b : Backend} (log : AuditLog b) (projects : List (String × Uuid)) :
    (auditStore b projects log.events).KeepsLimit := by
  intro p rows h hlimit
  have hlist := list_eq log.precise hlimit
  rw [show (auditStore b projects log.events).listAuditEvents p = listAuditEvents b log.events p from
    rfl, hlist] at h
  injection h with h
  rw [← h, List.length_take]
  omega

/-- What is asked of a request: no index out of range, no sum that wraps, no page that is too long. -/
structure Safe (env : Env) (store : AuditStore) (slug : String)
    (params : Openapi.ListAuditEventsParams) : Prop where
  index : API.listAuditEvents env (some store) slug params ≠ .panicked
  sum : ∀ project cursor, store.getProjectBySlug slug = .ok project →
    requestCursor params.cursor = .ok cursor →
    (storeParams project params cursor).limit = params.limitOrDefault.toInt + 1
  page : ∀ items next, API.listAuditEvents env (some store) slug params = .ok items next →
    (items.length : ℤ) ≤ max params.limitOrDefault.toInt 0

/-- A request that gets to the store is answered with its rows. -/
theorem listAuditEvents_eq {env : Env} {store : AuditStore} {slug : String}
    {params : Openapi.ListAuditEventsParams} {project : Uuid} {cursor : ℤ × Uuid}
    (hproject : store.getProjectBySlug slug = .ok project)
    (hcursor : requestCursor params.cursor = .ok cursor) :
    API.listAuditEvents env (some store) slug params =
      match store.listAuditEvents (storeParams project params cursor) with
      | .error err => .internalServerError err
      | .ok rows => respond env params.limitOrDefault rows := by
  simp only [API.listAuditEvents]
  generalize store.getProjectBySlug slug = found at hproject ⊢
  generalize requestCursor params.cursor = read at hcursor ⊢
  subst hproject hcursor
  rfl

/-- A request that does not is refused. -/
theorem safe_of_refused {env : Env} {store : AuditStore} {slug : String}
    {params : Openapi.ListAuditEventsParams}
    (h : ∀ project cursor, store.getProjectBySlug slug = .ok project →
      requestCursor params.cursor = .ok cursor → False) : Safe env store slug params := by
  have hresponse : API.listAuditEvents env (some store) slug params ≠ .panicked ∧
      ∀ items next, API.listAuditEvents env (some store) slug params ≠ .ok items next := by
    rcases hproject : store.getProjectBySlug slug with err | project
    · simp only [API.listAuditEvents, hproject, notFoundOrError]
      split
      · exact ⟨by simp, by simp⟩
      · exact ⟨by simp, by simp⟩
    · rcases hcursor : requestCursor params.cursor with err | cursor
      · simp only [API.listAuditEvents, hproject, hcursor]
        exact ⟨by simp, by simp⟩
      · exact absurd (h project cursor hproject hcursor) not_false
  exact ⟨hresponse.1, fun project cursor hp hc => (h project cursor hp hc).elim,
    fun items next hok => absurd hok (hresponse.2 items next)⟩

/-- **A request is safe iff, should it reach the store, its limit can be increased by one and the rows
    it gets suit the limit.** -/
theorem listAuditEvents_safe_iff (env : Env) {store : AuditStore} (hstore : store.KeepsLimit)
    (slug : String) (params : Openapi.ListAuditEventsParams) :
    Safe env store slug params ↔
      ∀ project cursor, store.getProjectBySlug slug = .ok project →
        requestCursor params.cursor = .ok cursor →
        params.limitOrDefault.toInt ≠ 2 ^ 31 - 1 ∧
        ∀ rows, store.listAuditEvents (storeParams project params cursor) = .ok rows →
          SuitsLimit params.limitOrDefault rows := by
  -- the bound on the rows, once the sum is right
  have hbound : ∀ {project cursor rows}, params.limitOrDefault.toInt ≠ 2 ^ 31 - 1 →
      store.listAuditEvents (storeParams project params cursor) = .ok rows →
      0 ≤ params.limitOrDefault.toInt + 1 →
      (rows.length : ℤ) ≤ params.limitOrDefault.toInt + 1 := by
    intro project cursor rows hmax hrows hnonneg
    have hsum : (storeParams project params cursor).limit = params.limitOrDefault.toInt + 1 :=
      toInt_succ_iff.mpr hmax
    rw [← hsum] at hnonneg ⊢
    exact hstore _ _ hrows hnonneg
  constructor
  · intro h project cursor hproject hcursor
    have hmax := toInt_succ_iff.mp (h.sum project cursor hproject hcursor)
    refine ⟨hmax, fun rows hrows => ?_⟩
    have hindex := h.index
    rw [listAuditEvents_eq hproject hcursor, hrows] at hindex
    exact (respond_suits_iff hmax (hbound hmax hrows)).mp hindex
  · intro h
    by_cases hreach : ∃ project cursor, store.getProjectBySlug slug = .ok project ∧
        requestCursor params.cursor = .ok cursor
    · obtain ⟨project, cursor, hproject, hcursor⟩ := hreach
      obtain ⟨hmax, hsuits⟩ := h project cursor hproject hcursor
      have heq := @listAuditEvents_eq env store slug params project cursor hproject hcursor
      rcases hrows : store.listAuditEvents (storeParams project params cursor) with err | rows
      · rw [hrows] at heq
        refine ⟨by rw [heq]; nofun, fun _ _ _ _ => toInt_succ_iff.mpr hmax, ?_⟩
        intro items next hok
        rw [heq] at hok
        nomatch hok
      · rw [hrows] at heq
        refine ⟨?_, fun _ _ _ _ => toInt_succ_iff.mpr hmax, ?_⟩
        · rw [heq]
          exact (respond_suits_iff hmax (hbound hmax hrows)).mpr (hsuits rows hrows)
        · intro items next hok
          rw [heq] at hok
          rw [respond_items hok]
          refine length_pageItems ?_
          have := hbound hmax hrows
          omega
    · refine safe_of_refused fun project cursor hproject hcursor => ?_
      exact hreach ⟨project, cursor, hproject, hcursor⟩

/-- The log that holds one event of the new year. -/
def oneEvent : AuditStore := auditStore .sqlite [("demo", 1)] (logAt precise_newYear).events

/-- Ten events may be asked for. -/
theorem ten_is_safe : Safe .plain oneEvent "demo" (plainRequest 10 none) := by
  refine (listAuditEvents_safe_iff .plain (keepsLimit_auditStore _ _) "demo"
    (plainRequest 10 none)).mpr ?_
  intro project cursor _ _
  exact ⟨by decide, fun _ _ => .inl (by decide)⟩

/-- Limit 0 panics if there is an event, a negative limit panics if there is none; and the largest
    limit asks the store for a negative number of rows. -/
theorem limit_unchecked :
    API.listAuditEvents .plain (some oneEvent) "demo" (plainRequest 0 none) = .panicked ∧
    API.listAuditEvents .plain (some (auditStore .sqlite [("demo", 1)] [])) "demo"
      (plainRequest (-1) none) = .panicked ∧
    (storeParams 1 (plainRequest 2147483647 none) (0, 0)).limit = -2147483648 := by
  refine ⟨?_, rfl, rfl⟩
  have hrows : oneEvent.listAuditEvents (storeParams 1 (plainRequest 0 none) (0, 0)) =
      .ok [eventAt newYear] :=
    list_eq (logAt precise_newYear).precise (show (0 : ℤ) ≤ 1 by decide)
  rw [@listAuditEvents_eq .plain oneEvent "demo" (plainRequest 0 none) 1 (0, 0) rfl rfl, hrows]
  rfl

end FalseFlag.Audit
