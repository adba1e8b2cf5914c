/-
  The background polling of the two clients (internal/sdkgo, internal/proxy; client.ts).

  Both read the snapshot once when they are started, and then once per interval.  `Start` returns
  the error of the first poll and has then not spawned the loop; `Proxy.Run` only logs the error,
  so its client never polls again.  `start` of the JavaScript client rejects before
  `scheduleNextPoll`.  In both, everything after the first poll goes by the book
  (`polling_installs_iff`).
-/
import FalseFlag.JsClient
import FalseFlag.Lib.Refresh

namespace FalseFlag

open Refresh

/-! ## Go -/

/-- `pollOnce` on the answer to its request. -/
def goPoll (env : Env) (cached : Option SdkSnapshot) :
    Except String FetchResponse → Except String (Option SdkSnapshot)
  | .error e => .error e
  | .ok resp =>
    if resp.status = 200 then
      match resp.body with
      | none => .error "sdkgo: decoding snapshot: invalid JSON"
      | some body => pollOnce env cached (some body)
    else if resp.status = 404 then pollOnce env cached none
    else .error ("sdkgo: snapshot poll status " ++ toString resp.status ++ ": " ++ resp.head)

/-- The client inside of `Proxy.Run`, after `k` ticks of its interval: `Start`, whose error is
    logged, and `loop`.  Without a positive interval there is no loop. -/
def proxyRun (env : Env) (pollInterval : Int) (r : ℕ → Except String FetchResponse) (k : ℕ) :
    Refresh.State SdkSnapshot :=
  Refresh.run (goPoll env) (decide (0 < pollInterval)) r k

/-- What a poll comes to. -/
def goOutcome (env : Env) : Except String FetchResponse → Refresh.Outcome SdkSnapshot String
  | .error e => .failed e
  | .ok resp =>
    if resp.status = 200 then
      match resp.body with
      | none => .failed "sdkgo: decoding snapshot: invalid JSON"
      | some body =>
        match decodeBody body with
        | .error _ => .failed ("sdkgo: decoding snapshot: " ++ env.jsonErrorText (.json body))
        | .ok b => .fresh ⟨b.version, compileFlags env b.flags⟩
    else if resp.status = 404 then .unchanged
    else .failed ("sdkgo: snapshot poll status " ++ toString resp.status ++ ": " ++ resp.head)

theorem goPoll_eq (env : Env) (cached : Option SdkSnapshot) (r : Except String FetchResponse) :
    goPoll env cached r = (goOutcome env r).read cached := by
  rcases r with e | resp
  · rfl
  · rw [goPoll, goOutcome]
    split
    · rcases resp.body with _ | body
      · rfl
      · show pollOnce env cached (some body) = Refresh.Outcome.read cached (match decodeBody body with
          | .error _ => _ | .ok b => _)
        rw [pollOnce]
        rcases decodeBody body with e | b
        · rfl
        · rfl
    · split
      · rfl
      · rfl

/-! ## JavaScript -/

/-- The client after `start` and `k` firings of its timer.  The timer is set at the end of `start`
    and of each poll, whether it failed or not; without a positive interval it is not. -/
def jsPollRun (opts : ClientOptions) (js : JsEnv) (pollIntervalMs : Int)
    (r : ℕ → Except String FetchResponse) (k : ℕ) : Refresh.State SnapshotInfo :=
  Refresh.run (pollSnapshot opts (compileDoc js)) (decide (0 < pollIntervalMs)) r k

/-- What a poll comes to. -/
def jsOutcome (opts : ClientOptions) (js : JsEnv) :
    Except String FetchResponse → Refresh.Outcome SnapshotInfo String
  | .error e => .failed e
  | .ok resp =>
    if resp.status = 404 then .unchanged
    else if ¬ resp.ok then
      .failed ("FalseFlag SDK: fetch " ++ opts.snapshotUrl ++ " → " ++ toString resp.status)
    else
      match resp.body with
      | none => .failed "SyntaxError"
      | some body =>
        match bodySnapshot (compileDoc js) body with
        | .error e => .failed e
        | .ok s => .fresh s

theorem pollSnapshot_eq (opts : ClientOptions) (js : JsEnv) (snapshot : Option SnapshotInfo)
    (r : Except String FetchResponse) :
    pollSnapshot opts (compileDoc js) snapshot r = (jsOutcome opts js r).read snapshot := by
  rcases r with e | resp
  · rfl
  · rw [pollSnapshot, jsOutcome]
    split
    · rfl
    · split
      · rfl
      · rcases resp.body with _ | body
        · rfl
        · show (bodySnapshot (compileDoc js) body).map some = Refresh.Outcome.read snapshot
            (match bodySnapshot (compileDoc js) body with | .error e => _ | .ok s => _)
          rcases bodySnapshot (compileDoc js) body with e | s
          · rfl
          · rfl

/-! ## Both -/

/-- **When polling installs what it finds.**  After every number of ticks a client holds the last
    snapshot it was sent iff its first poll did not fail, or it never is sent any. -/
theorem polling_installs_iff (env : Env) (opts : ClientOptions) (js : JsEnv) (interval : Int)
    (hinterval : 0 < interval) (r : ℕ → Except String FetchResponse) :
    ((∀ k, (proxyRun env interval r k).held = latest (fun i => goOutcome env (r i)) k) ↔
      ¬ (goOutcome env (r 0)).IsFailed ∨ ∀ k, (goOutcome env (r k)).value? = none) ∧
    ((∀ k, (jsPollRun opts js interval r k).held = latest (fun i => jsOutcome opts js (r i)) k) ↔
      ¬ (jsOutcome opts js (r 0)).IsFailed ∨ ∀ k, (jsOutcome opts js (r k)).value? = none) := by
  have hagain : decide (0 < interval) = true := decide_eq_true hinterval
  constructor
  · unfold proxyRun
    rw [hagain]
    exact run_latest_iff (goPoll_eq env) r
  · unfold jsPollRun
    rw [hagain]
    exact run_latest_iff (pollSnapshot_eq opts js) r

/-- The server is down, then has a snapshot of one flag. -/
def lateServer : ℕ → Except String FetchResponse
  | 0 => .error "connection refused"
  | _ => .ok ⟨200, "", some plainBody⟩

/-- After the second poll neither client holds the snapshot. -/
theorem late_server_missed :
    (∃ s, latest (fun i => goOutcome .plain (lateServer i)) 1 = some s) ∧
    (proxyRun .plain 10 lateServer 1).held = none ∧
    (∃ s, latest (fun i => jsOutcome ⟨"http://localhost", "demo"⟩ .plain (lateServer i)) 1 = some s) ∧
    (jsPollRun ⟨"http://localhost", "demo"⟩ .plain 10 lateServer 1).held = none :=
  ⟨⟨_, rfl⟩, rfl, ⟨_, rfl⟩, rfl⟩

/-- If the server is down later, both keep what they have. -/
theorem early_server_installed :
    (∀ k, (proxyRun .plain 10 (fun i => lateServer (i + 1)) k).held =
      latest (fun i => goOutcome .plain (lateServer (i + 1))) k) ∧
    ∀ k, (jsPollRun ⟨"http://localhost", "demo"⟩ .plain 10 (fun i => lateServer (i + 1)) k).held =
      latest (fun i => jsOutcome ⟨"http://localhost", "demo"⟩ .plain (lateServer (i + 1))) k :=
  have h := polling_installs_iff .plain ⟨"http://localhost", "demo"⟩ .plain 10 (by decide)
    (fun i => lateServer (i + 1))
  ⟨h.1.mpr (.inl (fun h => h)), h.2.mpr (.inl (fun h => h))⟩

end FalseFlag
