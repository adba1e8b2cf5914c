/-
  The conditions of an object over its whole history (`setCondition` of
  internal/operator/controllers/result.go).

  A reconciler calls `setCondition` a few times in each reconcile, for one type after another, and
  the list it leaves is what the next reconcile starts from.

  * `Latest` — how a condition follows from the calls for its type: its text is that of the last
    call, its time that of the first call of the last RUN, the calls at the end that have one
    status;
  * **`setCondition_history`** — the list after any sequence of calls at non-decreasing times.
-/
import FalseFlag.Lib.Upsert
import FalseFlag.Operator.Reconcile

namespace FalseFlag.Operator

open List Upsert

/-! ## Calls -/

/-- One call of `setCondition`: when, and with which condition. -/
structure SetCall where
  now : Int
  cond : Condition
  deriving DecidableEq

/-- The conditions after a sequence of calls, from an empty list. -/
def conditionsAfter (calls : List SetCall) : List Condition :=
  calls.foldl (fun conds call => setCondition call.now call.cond conds) []

/-- What a call leaves where there was no condition of its type. -/
def SetCall.start (call : SetCall) : Condition :=
  { call.cond with lastTransitionTime := call.now }

/-- What a call leaves of the condition `c` of its type. -/
def SetCall.next (call : SetCall) (c : Condition) : Condition :=
  { call.cond with
    lastTransitionTime := if c.status = call.cond.status then c.lastTransitionTime else call.now }

/-- The list of conditions as a table, one entry for each type. -/
def conditionTable : Table String SetCall Condition where
  keyOf := Condition.type
  eventKey call := call.cond.type
  start := SetCall.start
  next := SetCall.next
  keyOf_start _ := rfl
  keyOf_next _ _ := rfl

/-- A call updates the table of conditions in place. -/
theorem setCondition_eq_put (call : SetCall) (conds : List Condition) :
    setCondition call.now call.cond conds = conditionTable.put call conds := by
  induction conds with
  | nil => rfl
  | cons c cs ih =>
    rw [setCondition, Table.put, ih]
    rfl

theorem conditionsAfter_eq_run (calls : List SetCall) :
    conditionsAfter calls = conditionTable.run calls := by
  rw [conditionsAfter, Table.run]
  congr 1
  funext conds call
  exact setCondition_eq_put call conds

/-! ## The condition of one type -/

/-- **How a condition follows from the calls for its type.**  The calls are some earlier ones and
    then a run with the condition's status, which no earlier call could make longer. -/
structure Latest (own : List SetCall) (c : Condition) (earlier run : List SetCall)
    (first last : SetCall) : Prop where
  split : own = earlier ++ run
  head : run.head? = some first
  latest : run.getLast? = some last
  status : c.status = last.cond.status
  reason : c.reason = last.cond.reason
  message : c.message = last.cond.message
  unbroken : ∀ call ∈ run, call.cond.status = c.status
  broken : ∀ call, earlier.getLast? = some call → call.cond.status ≠ c.status
  time : c.lastTransitionTime = first.now

variable {earlier : List SetCall} {call : SetCall} {c : Condition}

/-- A call starts a run of its own. -/
theorem Latest.alone (hc : c = call.start)
    (hbroken : ∀ old, earlier.getLast? = some old → old.cond.status ≠ call.cond.status) :
    Latest (earlier ++ [call]) c earlier [call] call call := by
  subst hc
  refine ⟨rfl, rfl, rfl, rfl, rfl, rfl, ?_, hbroken, rfl⟩
  intro other hother
  rw [mem_singleton.mp hother]
  rfl

variable {first last : SetCall}

/-- The last call of all is the last call of the run. -/
theorem Latest.getLast {own run : List SetCall}
    (h : Latest own c earlier run first last) : own.getLast? = some last := by
  have hne : run ≠ [] := by
    intro hnil
    have := h.head
    rw [hnil] at this
    cases this
  rw [h.split, getLast?_append_of_ne_nil _ hne, h.latest]

/-- A call with the status of the run makes it longer. -/
theorem Latest.continue {own run : List SetCall} (h : Latest own c earlier run first last)
    (hsame : c.status = call.cond.status) :
    Latest (own ++ [call]) (call.next c) earlier (run ++ [call]) first call := by
  have htime : (call.next c).lastTransitionTime = c.lastTransitionTime := if_pos hsame
  refine ⟨?_, ?_, ?_, rfl, rfl, rfl, ?_, ?_, htime.trans h.time⟩
  · rw [h.split, append_assoc]
  · rw [head?_append, h.head]
    rfl
  · rw [getLast?_append]
    rfl
  · intro other hother
    show other.cond.status = call.cond.status
    rcases mem_append.mp hother with hrun | hnew
    · exact (h.unbroken other hrun).trans hsame
    · rw [mem_singleton.mp hnew]
  · intro old hold
    show old.cond.status ≠ call.cond.status
    rw [← hsame]
    exact h.broken old hold

/-- A call with another status ends the run and starts the next one. -/
theorem Latest.break {own run : List SetCall} (h : Latest own c earlier run first last)
    (hother : c.status ≠ call.cond.status) :
    Latest (own ++ [call]) (call.next c) own [call] call call := by
  have hnext : call.next c = call.start := by
    rw [SetCall.next, if_neg hother]
    rfl
  apply Latest.alone hnext
  intro old hold
  have hlast : last = old := Option.some.inj (h.getLast.symm.trans hold)
  rw [← hlast, ← h.status]
  exact hother

/-- Every condition follows from the calls for its type, whatever their number. -/
theorem entry_latest (own : List SetCall) (c : Condition) (hc : conditionTable.entry own = some c) :
    ∃ earlier run first last, Latest own c earlier run first last := by
  induction own using List.reverseRecOn generalizing c with
  | nil => cases hc
  | append_singleton own call ih =>
    rw [entry_concat] at hc
    have hc := (Option.some.inj hc).symm
    rcases hentry : conditionTable.entry own with _ | old
    · -- the first call for this type: nothing was there
      rw [hentry] at hc
      have hnil : own = [] := by
        rcases eq_nil_or_concat own with h | ⟨init, e, h⟩
        · exact h
        · rw [h, concat_eq_append, entry_concat] at hentry
          cases hentry
      exact ⟨own, [call], call, call, Latest.alone hc (by simp [hnil])⟩
    · rw [hentry] at hc
      have hc : c = call.next old := hc
      obtain ⟨earlier, run, first, last, h⟩ := ih old hentry
      rw [hc]
      by_cases hsame : old.status = call.cond.status
      · exact ⟨earlier, run ++ [call], first, call, h.continue hsame⟩
      · exact ⟨own, [call], call, call, h.break hsame⟩

/-- In a run at non-decreasing times the first call is the earliest. -/
theorem Latest.earliest {own run : List SetCall} (h : Latest own c earlier run first last)
    (htimes : own.Pairwise fun a b => a.now ≤ b.now) : ∀ call ∈ run, first.now ≤ call.now := by
  have hrun : run.Pairwise fun a b => a.now ≤ b.now := by
    rw [h.split] at htimes
    exact (pairwise_append.mp htimes).2.1
  have hhead := h.head
  rcases run with _ | ⟨a, rest⟩
  · cases hhead
  · have ha : a = first := Option.some.inj hhead
    intro call hcall
    rcases mem_cons.mp hcall with rfl | hmem
    · rw [ha]
    · rw [← ha]
      exact (pairwise_cons.mp hrun).1 call hmem

/-! ## The whole list -/

theorem types_conditionsAfter (calls : List SetCall) :
    (conditionsAfter calls).map Condition.type = (calls.map (·.cond.type)).eraseDups := by
  rw [conditionsAfter_eq_run]
  exact keys_run (u := conditionTable) calls

/-- **The history of a list of conditions.**  After any sequence of calls at non-decreasing times the
    types are distinct and in the order of their first use, and each condition is the `Latest` of the
    calls for its type: it has the status, the reason and the message of the last of them, and the
    time of the earliest call of the last unbroken run with its status. -/
theorem setCondition_history (calls : List SetCall)
    (htimes : calls.Pairwise fun a b => a.now ≤ b.now) :
    ((conditionsAfter calls).map Condition.type).Nodup ∧
      (conditionsAfter calls).map Condition.type = (calls.map (·.cond.type)).eraseDups ∧
      ∀ c ∈ conditionsAfter calls, ∃ earlier run first last,
        Latest (calls.filter (·.cond.type = c.type)) c earlier run first last ∧
          ∀ call ∈ run, c.lastTransitionTime ≤ call.now := by
  have hnodup : ((conditionsAfter calls).map Condition.type).Nodup := by
    rw [conditionsAfter_eq_run]
    exact nodup_keys_run (u := conditionTable) calls
  refine ⟨hnodup, types_conditionsAfter calls, ?_⟩
  intro c hc
  have hfind : (conditionsAfter calls).find? (conditionTable.keyOf · = c.type) = some c :=
    find_of_mem (u := conditionTable) hnodup hc
  rw [conditionsAfter_eq_run, find_run] at hfind
  obtain ⟨earlier, run, first, last, h⟩ := entry_latest _ c hfind
  refine ⟨earlier, run, first, last, h, ?_⟩
  intro call hcall
  rw [h.time]
  exact h.earliest (htimes.filter _) call hcall

/-- `Synced` fails twice, between them `Ready` is set, then `Synced` is true. -/
def retriedCalls : List SetCall :=
  [⟨1, FalseFlag.Operator.conditionFalse "Synced" "Error" "a"⟩, ⟨2, readyTrue⟩,
    ⟨3, FalseFlag.Operator.conditionFalse "Synced" "Conflict" "b"⟩, ⟨5, syncedTrue⟩]

/-- The second failure keeps the time of the first, the success has its own. -/
theorem setCondition_history_retried :
    (retriedCalls.Pairwise fun a b => a.now ≤ b.now) ∧
      (conditionsAfter (retriedCalls.take 3)).map Condition.lastTransitionTime = [1, 2] ∧
      (conditionsAfter retriedCalls).map Condition.lastTransitionTime = [5, 2] ∧
      ((conditionsAfter retriedCalls).map Condition.type).Nodup ∧
      (conditionsAfter retriedCalls).map Condition.type =
        (retriedCalls.map (·.cond.type)).eraseDups ∧
      ∀ c ∈ conditionsAfter retriedCalls, ∃ earlier run first last,
        Latest (retriedCalls.filter (·.cond.type = c.type)) c earlier run first last ∧
          ∀ call ∈ run, c.lastTransitionTime ≤ call.now :=
  ⟨by decide, by decide, by decide, setCondition_history retriedCalls (by decide)⟩

end FalseFlag.Operator
