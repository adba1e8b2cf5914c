/-
  The poll timer of one JavaScript client (client.ts): `start`, `stop`, `scheduleNextPoll`, and
  what happens while they wait.

  `start` and the callback of the timer both run `pollSnapshot` and then `scheduleNextPoll`.  In
  between they are suspended: on the request, on the body, on the promise.  All they share is
  `stopped`, `pollTimer` and `snapshot`, so two of them at once set two timers, of which `pollTimer`
  knows the later and `stop` clears only that one; and the answers of two requests can arrive in the
  wrong order.

  A caller that wants one timer has to wait.  `timers_safe_iff`: a rule for WHEN `start` MAY BE
  CALLED is safe exactly if it allows it only while no timer is set and no poll is under way.

  The poll interval is positive, as `scheduleNextPoll` sets no timer otherwise.
-/
import FalseFlag.Lib.Runs
import Mathlib.Data.List.Nodup
import Mathlib.Data.List.Count

namespace FalseFlag.Timers

open List Runs

/-! ## The client -/

/-- Who waits for a poll: a call of `start`, or the callback of a timer. -/
inductive Origin where
  | start | timer
  deriving DecidableEq

/-- What the server answered; a request can also fail. -/
inductive Answer where
  | snapshot (version : Nat)
  | notFound
  | failed
  deriving DecidableEq

/-- `pollSnapshot` does not throw. -/
def Answer.ok : Answer → Bool
  | failed => false
  | snapshot _ | notFound => true

/-- The version it installs, if any. -/
def Answer.versions : Answer → List Nat
  | snapshot v => [v]
  | notFound | failed => []

/-- How far a call of `pollSnapshot` has come: the request was sent; it was answered, and the
    answer is on its way; the promise is settled, and who awaits it has not run yet. -/
inductive Phase where
  | requested
  | answered (a : Answer)
  | settled (ok : Bool)
  deriving DecidableEq

/-- A call of `pollSnapshot`. -/
structure Poll where
  id : Nat
  origin : Origin
  phase : Phase
  deriving DecidableEq

/-- The variables of the client, the timers that are set, the polls that are under way, and the
    latest version of the server.  `installed` are the versions the snapshot has had, the current
    one first; `lateFetches` counts the requests that were sent while the client was stopped. -/
structure State where
  stopped : Bool := false
  pollTimer : Option Nat := none
  pending : List Nat := []
  polls : List Poll := []
  clock : Nat := 0
  server : Nat := 0
  installed : List Nat := []
  lateFetches : Nat := 0

namespace State

/-- `pollSnapshot()` up to its first `await`. -/
def fetch (origin : Origin) (s : State) : State :=
  { s with
    polls := ⟨s.clock, origin, .requested⟩ :: s.polls
    clock := s.clock + 1
    lateFetches := s.lateFetches + if s.stopped then 1 else 0 }

/-- `scheduleNextPoll`. -/
def scheduleNextPoll (s : State) : State :=
  if s.stopped then s
  else { s with pending := s.clock :: s.pending, pollTimer := some s.clock, clock := s.clock + 1 }

/-- `stop`. -/
def stop (s : State) : State :=
  { s with
    stopped := true
    pending := match s.pollTimer with
      | some t => s.pending.erase t
      | none => s.pending
    pollTimer := none }

/-- The answer to a request that gets through: 404 as long as there is no snapshot. -/
def latest (s : State) : Answer := if s.server = 0 then .notFound else .snapshot s.server

def poll (s : State) (i : Nat) : Option Poll := s.polls.find? (·.id = i)

end State

/-- A poll gets on. -/
def setPhase (i : Nat) (phase : Phase) (polls : List Poll) : List Poll :=
  polls.map fun p => if p.id = i then { p with phase } else p

inductive Event where
  /-- `start()` is called. -/
  | start
  /-- `stop()` is called. -/
  | stop
  /-- A timer fires. -/
  | fire (t : Nat)
  /-- The server has a new snapshot. -/
  | publish
  /-- The server answers a request, or the request fails on the way. -/
  | answer (i : Nat) (reached : Bool)
  /-- The answer arrives. -/
  | settle (i : Nat)
  /-- `start` or `finally` gets on. -/
  | resume (i : Nat)

/-- One step; an event that cannot happen changes nothing. -/
def next (s : State) : Event → State
  | .start => { s with stopped := false }.fetch .start
  | .stop => s.stop
  | .fire t => if t ∈ s.pending then { s with pending := s.pending.erase t }.fetch .timer else s
  | .publish => { s with server := s.server + 1 }
  | .answer i reached =>
    match s.poll i with
    | some ⟨_, _, .requested⟩ =>
      { s with polls := setPhase i (.answered (if reached then s.latest else .failed)) s.polls }
    | _ => s
  | .settle i =>
    match s.poll i with
    | some ⟨_, _, .answered a⟩ =>
      { s with polls := setPhase i (.settled a.ok) s.polls, installed := a.versions ++ s.installed }
    | _ => s
  | .resume i =>
    match s.poll i with
    | some ⟨_, origin, .settled ok⟩ =>
      -- `start` rejects if the poll did; `finally` runs in any case
      if origin = .timer ∨ ok = true then
        { s with polls := s.polls.filter (·.id ≠ i) }.scheduleNextPoll
      else { s with polls := s.polls.filter (·.id ≠ i) }
    | _ => s

/-- What the client promises: one timer at most, no request while it is stopped, and a version that
    does not go down. -/
structure Safe (s : State) : Prop where
  oneTimer : s.pending.length ≤ 1
  noLateFetch : s.lateFetches = 0
  monotone : s.installed.Pairwise (· ≥ ·)

/-! ## Polls under way -/

/-- The poll can still come to `scheduleNextPoll`: that of a `start` cannot once it has failed. -/
def Poll.live : Poll → Bool
  | ⟨_, .start, .answered .failed⟩ | ⟨_, .start, .settled false⟩ => false
  | _ => true

/-- No timer is set and no poll is under way. -/
def Quiet (s : State) : Prop := s.pending = [] ∧ ∀ p ∈ s.polls, p.live = false

theorem map_id_setPhase (i : Nat) (phase : Phase) (polls : List Poll) :
    (setPhase i phase polls).map (·.id) = polls.map (·.id) := by
  rw [setPhase, map_map]
  refine map_congr_left fun p _ => ?_
  show (if p.id = i then { p with phase } else p).id = p.id
  split
  · rfl
  · rfl

theorem mem_setPhase {i : Nat} {phase : Phase} {polls : List Poll} {p : Poll}
    (h : p ∈ setPhase i phase polls) :
    (p ∈ polls ∧ p.id ≠ i) ∨ ∃ q ∈ polls, q.id = i ∧ p = { q with phase } := by
  obtain ⟨q, hq, rfl⟩ := mem_map.mp h
  split
  · rename_i hi
    exact .inr ⟨q, hq, hi, rfl⟩
  · rename_i hi
    exact .inl ⟨hq, hi⟩

/-- The other polls stay as they are. -/
theorem filter_setPhase (i : Nat) (phase : Phase) (polls : List Poll) :
    (setPhase i phase polls).filter (·.id ≠ i) = polls.filter (·.id ≠ i) := by
  induction polls with
  | nil => rfl
  | cons p polls ih =>
    by_cases hi : p.id = i
    · have hp : setPhase i phase (p :: polls) = { p with phase } :: setPhase i phase polls := by
        rw [setPhase, map_cons, if_pos hi]
        rfl
      rw [hp, filter_cons_of_neg (by simpa using hi), filter_cons_of_neg (by simpa using hi),
        ih]
    · have hp : setPhase i phase (p :: polls) = p :: setPhase i phase polls := by
        rw [setPhase, map_cons, if_neg hi]
        rfl
      rw [hp, filter_cons_of_pos (by simpa using hi), filter_cons_of_pos (by simpa using hi),
        ih]

section Find

variable {s : State} {p q : Poll} {i : Nat}

theorem poll_eq_some (h : s.poll i = some p) : p ∈ s.polls ∧ p.id = i :=
  ⟨mem_of_find?_eq_some h, by simpa using find?_some h⟩

/-- Polls have names of their own. -/
theorem eq_of_id (hids : (s.polls.map (·.id)).Nodup) (hp : p ∈ s.polls) (hq : q ∈ s.polls)
    (h : p.id = q.id) : p = q :=
  inj_on_of_nodup_map hids hp hq h

theorem poll_of_mem (hids : (s.polls.map (·.id)).Nodup) (hp : p ∈ s.polls) :
    s.poll p.id = some p := by
  rcases h : s.poll p.id with _ | q
  · exact absurd (find?_eq_none.mp h p hp) (by simp)
  · obtain ⟨hq, hid⟩ := poll_eq_some h
    rw [eq_of_id hids hq hp hid]

end Find

/-- Two polls under way are one. -/
theorem eq_of_live {polls : List Poll} (h : polls.countP Poll.live ≤ 1) {p q : Poll}
    (hp : p ∈ polls) (hq : q ∈ polls) (hplive : p.live = true) (hqlive : q.live = true) :
    p = q := by
  rw [countP_eq_length_filter] at h
  have hp' := mem_filter.mpr ⟨hp, hplive⟩
  have hq' := mem_filter.mpr ⟨hq, hqlive⟩
  generalize polls.filter Poll.live = live at h hp' hq'
  match live, h with
  | [], _ => exact absurd hp' not_mem_nil
  | [a], _ => rw [mem_singleton.mp hp', mem_singleton.mp hq']

/-! ## One timer or one poll -/

/-- The invariant: there is one timer at most or one poll under way, `pollTimer` knows the timer,
    and what a poll brings is no older than what is there. -/
structure Inv (s : State) : Prop where
  ids : (s.polls.map (·.id)).Nodup
  fresh : ∀ p ∈ s.polls, p.id < s.clock
  one : s.pending.length + s.polls.countP Poll.live ≤ 1
  known : ∀ t ∈ s.pending, s.pollTimer = some t
  stopped : s.stopped = true → s.pending = []
  noLateFetch : s.lateFetches = 0
  monotone : s.installed.Pairwise (· ≥ ·)
  served : ∀ v ∈ s.installed, v ≤ s.server
  newer : ∀ p ∈ s.polls, ∀ v, p.phase = .answered (.snapshot v) →
    v ≤ s.server ∧ ∀ w ∈ s.installed, w ≤ v

theorem Inv.safe {s : State} (h : Inv s) : Safe s where
  oneTimer := by have := h.one; omega
  noLateFetch := h.noLateFetch
  monotone := h.monotone

theorem inv_init : Inv {} where
  ids := nodup_nil
  fresh _ h := absurd h not_mem_nil
  one := Nat.zero_le 1
  known _ h := absurd h not_mem_nil
  stopped h := nomatch h
  noLateFetch := rfl
  monotone := List.Pairwise.nil
  served _ h := absurd h not_mem_nil
  newer _ h := absurd h not_mem_nil

section Steps

variable {s : State}

/-- A request is sent while nothing else is going on. -/
theorem Inv.fetch (h : Inv s) (hquiet : Quiet s) (hrun : s.stopped = false) (origin : Origin) :
    Inv (s.fetch origin) where
  ids := by
    refine nodup_cons.mpr ⟨fun hmem => ?_, h.ids⟩
    obtain ⟨p, hp, hid⟩ := mem_map.mp hmem
    have hlt : p.id < p.id := hid ▸ h.fresh p hp
    omega
  fresh := by
    intro p hp
    show p.id < s.clock + 1
    rcases mem_cons.mp hp with rfl | hp
    · exact Nat.lt_succ_self _
    · exact Nat.lt_succ_of_lt (h.fresh p hp)
  one := by
    have hlive : s.polls.countP Poll.live = 0 :=
      countP_eq_zero.mpr fun p hp => by rw [hquiet.2 p hp]; nofun
    show s.pending.length + (_ :: s.polls).countP Poll.live ≤ 1
    rw [hquiet.1, countP_cons, hlive]
    simp only [length_nil, Nat.zero_add]
    split <;> omega
  known := h.known
  stopped := h.stopped
  noLateFetch := by
    show s.lateFetches + (if s.stopped = true then 1 else 0) = 0
    rw [hrun, h.noLateFetch]
    rfl
  monotone := h.monotone
  served := h.served
  newer := by
    intro p hp v hv
    rcases mem_cons.mp hp with rfl | hp
    · nomatch hv
    · exact h.newer p hp v hv

/-- A timer is set while nothing else is going on. -/
theorem Inv.scheduleNextPoll (h : Inv s) (hquiet : Quiet s) : Inv s.scheduleNextPoll := by
  rw [State.scheduleNextPoll]
  split
  · exact h
  · rename_i hrun
    have hlive : s.polls.countP Poll.live = 0 :=
      countP_eq_zero.mpr fun p hp => by rw [hquiet.2 p hp]; nofun
    exact { h with
      fresh := fun p hp => Nat.lt_succ_of_lt (h.fresh p hp)
      one := by
        show (s.clock :: s.pending).length + s.polls.countP Poll.live ≤ 1
        rw [hquiet.1, hlive]
        exact Nat.le_refl 1
      known := by
        intro t ht
        rw [show (s.clock :: s.pending) = [s.clock] by rw [hquiet.1]] at ht
        rw [mem_singleton.mp ht]
      stopped := fun hs => absurd hs hrun }

/-- `pollTimer` knows the timer, so it is cleared. -/
theorem Inv.stop (h : Inv s) : Inv s.stop := by
  have hpending : s.stop.pending = [] := by
    show (match s.pollTimer with | some t => s.pending.erase t | none => s.pending) = []
    rcases hs : s.pending with _ | ⟨t, ts⟩
    · rcases s.pollTimer with _ | _ <;> rfl
    · have hone := h.one
      rw [hs, length_cons] at hone
      have hts : ts = [] := length_eq_zero_iff.mp (by omega)
      rw [h.known t (by rw [hs]; exact mem_cons_self), hts]
      simp
  exact { h with
    one := by
      have hone := h.one
      show s.stop.pending.length + s.polls.countP Poll.live ≤ 1
      rw [hpending]
      simp only [length_nil]
      omega
    known := fun t ht => by
      have ht' : t ∈ s.stop.pending := ht
      rw [hpending] at ht'
      exact absurd ht' not_mem_nil
    stopped := fun _ => hpending }

/-- A timer that fires is the only one, and there is no poll under way. -/
theorem Inv.fire (h : Inv s) {t : Nat} (ht : t ∈ s.pending) :
    Inv ({ s with pending := s.pending.erase t }.fetch .timer) := by
  obtain ⟨ts, hts⟩ : ∃ ts, s.pending = t :: ts ∧ ts = [] := by
    rcases hs : s.pending with _ | ⟨t', ts⟩
    · rw [hs] at ht
      exact absurd ht not_mem_nil
    · have hone := h.one
      rw [hs, length_cons] at hone
      have hnil : ts = [] := length_eq_zero_iff.mp (by omega)
      rw [hs, hnil] at ht
      rw [mem_singleton.mp ht]
      exact ⟨ts, rfl, hnil⟩
  obtain ⟨hpending, rfl⟩ := hts
  have hlive : s.polls.countP Poll.live = 0 := by
    have hone := h.one
    rw [hpending] at hone
    simp only [length_cons, length_nil] at hone
    omega
  have herase : s.pending.erase t = [] := by rw [hpending]; simp
  have hrun : s.stopped = false := by
    rcases hs : s.stopped with _ | _
    · rfl
    · rw [h.stopped hs] at hpending
      nomatch hpending
  have hinv : Inv { s with pending := s.pending.erase t } := { h with
    one := by rw [herase, hlive]; exact Nat.zero_le 1
    known := by intro t' ht'; rw [herase] at ht'; exact absurd ht' not_mem_nil
    stopped := fun _ => herase }
  refine hinv.fetch ⟨herase, fun p hp => ?_⟩ hrun .timer
  have := countP_eq_zero.mp hlive p hp
  exact Bool.eq_false_iff.mpr this

/-- A poll that gets on keeps the invariant if it was under way before, and brings nothing old. -/
theorem Inv.advance (h : Inv s) {p : Poll} (hp : s.poll p.id = some p) {phase : Phase}
    (hlive : ({ p with phase } : Poll).live = true → p.live = true)
    (hnewer : ∀ v, phase = .answered (.snapshot v) → v ≤ s.server ∧ ∀ w ∈ s.installed, w ≤ v) :
    Inv { s with polls := setPhase p.id phase s.polls } := by
  obtain ⟨hmem, -⟩ := poll_eq_some hp
  exact { h with
    ids := by rw [map_id_setPhase]; exact h.ids
    fresh := by
      intro q hq
      rcases mem_setPhase hq with ⟨hq, -⟩ | ⟨q0, hq0, -, rfl⟩
      · exact h.fresh q hq
      · exact h.fresh q0 hq0
    one := by
      refine Nat.le_trans (Nat.add_le_add_left ?_ _) h.one
      rw [setPhase, countP_map]
      refine countP_mono_left fun q hq hqlive => ?_
      by_cases hid : q.id = p.id
      · have hqp := eq_of_id h.ids hq hmem hid
        rw [Function.comp_apply, if_pos hid, hqp] at hqlive
        rw [hqp]
        exact hlive hqlive
      · rw [Function.comp_apply, if_neg hid] at hqlive
        exact hqlive
    newer := by
      intro q hq v hv
      rcases mem_setPhase hq with ⟨hq, -⟩ | ⟨q0, hq0, -, rfl⟩
      · exact h.newer q hq v hv
      · exact hnewer v hv }

theorem Inv.answer (h : Inv s) (i : Nat) (reached : Bool) : Inv (next s (.answer i reached)) := by
  rw [next]
  split
  · rename_i id origin hpoll
    obtain ⟨-, rfl⟩ := poll_eq_some hpoll
    refine h.advance hpoll (fun _ => by cases origin <;> rfl) fun v hv => ?_
    -- the server answers with its latest version, and nothing newer can be there
    have hv' : v = s.server := by
      injection hv with hv
      rcases reached with _ | _
      · nomatch hv
      · rw [if_pos rfl, State.latest] at hv
        split at hv
        · nomatch hv
        · injection hv with hv
          exact hv.symm
    exact ⟨Nat.le_of_eq hv', fun w hw => hv' ▸ h.served w hw⟩
  · exact h

theorem Inv.settle (h : Inv s) (i : Nat) : Inv (next s (.settle i)) := by
  rw [next]
  split
  · rename_i id origin a hpoll
    obtain ⟨hmem, rfl⟩ := poll_eq_some hpoll
    have hinv : Inv { s with polls := setPhase id (.settled a.ok) s.polls } :=
      h.advance hpoll (by cases origin <;> cases a <;> exact fun h => h) fun v hv => (nomatch hv)
    cases a with
    | notFound => exact hinv
    | failed => exact hinv
    | snapshot v =>
      obtain ⟨hserver, hle⟩ := h.newer _ hmem v rfl
      exact { hinv with
        monotone := pairwise_cons.mpr ⟨hle, h.monotone⟩
        served := forall_mem_cons.mpr ⟨hserver, h.served⟩
        newer := by
          intro q hq w hw
          rcases mem_setPhase hq with ⟨hq, hne⟩ | ⟨q0, -, -, rfl⟩
          · -- another poll with an answer would also be under way
            refine absurd (congrArg Poll.id (eq_of_live (p := q) ?_ hq hmem ?_ ?_)) hne
            · have := h.one
              omega
            · obtain ⟨_, qorigin, qphase⟩ := q
              subst hw
              cases qorigin <;> rfl
            · cases origin <;> rfl
          · nomatch hw }
  · exact h

/-- A poll is over. -/
theorem Inv.remove (h : Inv s) (i : Nat) : Inv { s with polls := s.polls.filter (·.id ≠ i) } := by
  have hsub : (s.polls.filter (·.id ≠ i)).Sublist s.polls := filter_sublist
  exact { h with
    ids := (hsub.map _).nodup h.ids
    fresh := fun p hp => h.fresh p (hsub.subset hp)
    one := Nat.le_trans (Nat.add_le_add_left (hsub.countP_le) _) h.one
    newer := fun p hp => h.newer p (hsub.subset hp) }

theorem Inv.resume (h : Inv s) (i : Nat) : Inv (next s (.resume i)) := by
  rw [next]
  split
  · rename_i id origin ok hpoll
    obtain ⟨hmem, rfl⟩ := poll_eq_some hpoll
    split
    · rename_i hgoes
      -- the poll was the one under way
      have hlive : (⟨id, origin, .settled ok⟩ : Poll).live = true := by
        rcases hgoes with rfl | rfl
        · rfl
        · cases origin <;> rfl
      have hpos : 0 < s.polls.countP Poll.live := countP_pos_iff.mpr ⟨_, hmem, hlive⟩
      have hone := h.one
      refine (h.remove id).scheduleNextPoll ⟨length_eq_zero_iff.mp ?_, fun q hq => ?_⟩
      · show s.pending.length = 0
        omega
      · obtain ⟨hq, hne⟩ := mem_filter.mp hq
        by_contra hqlive
        have heq := eq_of_live (by omega) hq hmem (by simpa using hqlive) hlive
        rw [heq] at hne
        simp at hne
    · exact h.remove id
  · exact h

/-- **A step keeps the invariant**, if `start` is called only when nothing is going on. -/
theorem next_inv (e : Event) (h : Inv s) (hstart : e = .start → Quiet s) : Inv (next s e) := by
  cases e with
  | start =>
    have hinv : Inv { s with stopped := false } := { h with stopped := fun hs => nomatch hs }
    exact hinv.fetch (hstart rfl) rfl .start
  | stop => exact h.stop
  | fire t =>
    rw [next]
    split
    · rename_i ht
      exact h.fire ht
    · exact h
  | publish =>
    exact { h with
      served := fun v hv => Nat.le_succ_of_le (h.served v hv)
      newer := fun p hp v hv => (h.newer p hp v hv).imp_left Nat.le_succ_of_le }
  | answer i reached => exact h.answer i reached
  | settle i => exact h.settle i
  | resume i => exact h.resume i

end Steps

/-! ## A poll under way sets its timer -/

/-- The request gets through, the answer arrives, and who awaits it gets on. -/
def drive (i : Nat) : List Event := [.answer i true, .settle i, .resume i]

/-- Nothing but the phase of the poll `i` has changed. -/
structure OnlyPhase (i : Nat) (s s' : State) : Prop where
  stopped : s'.stopped = s.stopped
  pending : s'.pending = s.pending
  ids : s'.polls.map (·.id) = s.polls.map (·.id)
  others : s'.polls.filter (·.id ≠ i) = s.polls.filter (·.id ≠ i)

theorem OnlyPhase.refl (i : Nat) (s : State) : OnlyPhase i s s := ⟨rfl, rfl, rfl, rfl⟩

section Drive

variable {s : State} {p : Poll}

theorem mem_setPhase_self (hp : p ∈ s.polls) (phase : Phase) :
    { p with phase } ∈ setPhase p.id phase s.polls :=
  mem_map.mpr ⟨p, hp, if_pos rfl⟩

theorem answer_live (hids : (s.polls.map (·.id)).Nodup) (hp : p ∈ s.polls) (hlive : p.live = true) :
    OnlyPhase p.id s (next s (.answer p.id true)) ∧
      ∃ q ∈ (next s (.answer p.id true)).polls, q.id = p.id ∧ q.live = true ∧
        q.phase ≠ .requested := by
  rw [next, poll_of_mem hids hp]
  obtain ⟨i, origin, phase⟩ := p
  cases phase with
  | requested =>
    refine ⟨⟨rfl, rfl, map_id_setPhase _ _ _, filter_setPhase _ _ _⟩, _, mem_setPhase_self hp _, rfl,
      ?_, nofun⟩
    show (⟨i, origin, .answered (if true = true then s.latest else .failed)⟩ : Poll).live = true
    rw [if_pos rfl, State.latest]
    split <;> cases origin <;> rfl
  | answered a => exact ⟨OnlyPhase.refl i s, _, hp, rfl, hlive, nofun⟩
  | settled ok => exact ⟨OnlyPhase.refl i s, _, hp, rfl, hlive, nofun⟩

theorem settle_live (hids : (s.polls.map (·.id)).Nodup) (hp : p ∈ s.polls) (hlive : p.live = true)
    (hphase : p.phase ≠ .requested) :
    OnlyPhase p.id s (next s (.settle p.id)) ∧
      ∃ q ∈ (next s (.settle p.id)).polls, q.id = p.id ∧ q.live = true ∧
        ∃ ok, q.phase = .settled ok := by
  rw [next, poll_of_mem hids hp]
  obtain ⟨i, origin, phase⟩ := p
  cases phase with
  | requested => exact absurd rfl hphase
  | answered a =>
    refine ⟨⟨rfl, rfl, map_id_setPhase _ _ _, filter_setPhase _ _ _⟩, _, mem_setPhase_self hp _, rfl,
      ?_, _, rfl⟩
    cases origin <;> cases a <;> first | rfl | exact hlive
  | settled ok => exact ⟨OnlyPhase.refl i s, _, hp, rfl, hlive, ok, rfl⟩

theorem resume_live (hids : (s.polls.map (·.id)).Nodup) (hp : p ∈ s.polls) (hlive : p.live = true)
    {ok : Bool} (hphase : p.phase = .settled ok) (hrun : s.stopped = false) :
    (next s (.resume p.id)).stopped = false ∧
      (next s (.resume p.id)).pending.length = s.pending.length + 1 ∧
      (next s (.resume p.id)).polls = s.polls.filter (·.id ≠ p.id) := by
  rw [next, poll_of_mem hids hp]
  obtain ⟨i, origin, phase⟩ := p
  subst hphase
  have hgoes : origin = .timer ∨ ok = true := by
    cases origin <;> cases ok
    · nomatch hlive
    · exact .inr rfl
    · exact .inl rfl
    · exact .inl rfl
  simp only [if_pos hgoes, State.scheduleNextPoll, hrun]
  exact ⟨rfl, rfl, rfl⟩

/-- Led to its end, the poll has set a timer, and nothing else has happened. -/
theorem drive_live (hids : (s.polls.map (·.id)).Nodup) (hp : p ∈ s.polls) (hlive : p.live = true)
    (hrun : s.stopped = false) :
    ((drive p.id).foldl next s).stopped = false ∧
      ((drive p.id).foldl next s).pending.length = s.pending.length + 1 ∧
      ((drive p.id).foldl next s).polls = s.polls.filter (·.id ≠ p.id) := by
  obtain ⟨honly1, p1, hp1, hid1, hlive1, hphase1⟩ := answer_live hids hp hlive
  have hids1 := honly1.ids ▸ hids
  obtain ⟨honly2, p2, hp2, hid2, hlive2, ok, hphase2⟩ := settle_live hids1 hp1 hlive1 hphase1
  rw [hid1] at honly2 hp2 hid2
  have hids2 := honly2.ids ▸ hids1
  obtain ⟨hstopped, hpending, hpolls⟩ := resume_live hids2 hp2 hlive2 hphase2
    (by rw [honly2.stopped, honly1.stopped, hrun])
  rw [hid2] at hstopped hpending hpolls
  refine ⟨hstopped, ?_, ?_⟩
  · rw [← honly1.pending, ← honly2.pending]
    exact hpending
  · rw [← honly1.others, ← honly2.others]
    exact hpolls

/-- A `start` beside a timer or a poll leads to two timers. -/
theorem exists_two_timers (h : Inv s) (hbusy : ¬ Quiet s) : ∃ events : List Event,
    (∀ e ∈ events, e ≠ .start) ∧ ¬ Safe (events.foldl next (next s .start)) := by
  have hnostart : ∀ i, ∀ e ∈ drive i, e ≠ .start := by
    intro i e he
    rcases mem_cons.mp he with rfl | he
    · nofun
    · rcases mem_cons.mp he with rfl | he
      · nofun
      · rw [mem_singleton.mp he]
        nofun
  -- the poll of the new `start`
  have hids : ((next s .start).polls.map (·.id)).Nodup := by
    refine nodup_cons.mpr ⟨fun hmem => ?_, h.ids⟩
    obtain ⟨p, hp, hid⟩ := mem_map.mp hmem
    have hlt : p.id < p.id := hid ▸ h.fresh p hp
    omega
  have hmem : (⟨s.clock, .start, .requested⟩ : Poll) ∈ (next s .start).polls := mem_cons_self
  have hrun : (next s .start).stopped = false := rfl
  by_cases hpending : s.pending = []
  · -- a poll is under way: lead both to their end
    obtain ⟨p, hp, hlive⟩ : ∃ p ∈ s.polls, p.live = true := by
      by_contra hnone
      refine hbusy ⟨hpending, fun p hp => Bool.eq_false_iff.mpr fun hlive => hnone ⟨p, hp, hlive⟩⟩
    have hp' : p ∈ (next s .start).polls := mem_cons_of_mem _ hp
    obtain ⟨hrun1, hpending1, hpolls1⟩ := drive_live hids hp' hlive hrun
    have hids1 : ((((drive p.id).foldl next (next s .start)).polls).map (·.id)).Nodup := by
      rw [hpolls1]
      exact (filter_sublist.map _).nodup hids
    have hmem1 : (⟨s.clock, .start, .requested⟩ : Poll) ∈
        ((drive p.id).foldl next (next s .start)).polls := by
      rw [hpolls1]
      refine mem_filter.mpr ⟨hmem, decide_eq_true ?_⟩
      exact Nat.ne_of_gt (h.fresh p hp)
    obtain ⟨-, hpending2, -⟩ := drive_live hids1 hmem1 rfl hrun1
    refine ⟨drive p.id ++ drive s.clock, fun e he => ?_, fun hsafe => ?_⟩
    · rcases mem_append.mp he with he | he
      · exact hnostart _ e he
      · exact hnostart _ e he
    · have hone := hsafe.oneTimer
      rw [foldl_append, hpending2, hpending1] at hone
      omega
  · -- a timer is set: the new poll sets another
    obtain ⟨-, hpending1, -⟩ := drive_live hids hmem rfl hrun
    refine ⟨drive s.clock, hnostart _, fun hsafe => ?_⟩
    have hone := hsafe.oneTimer
    rw [hpending1] at hone
    have hpos : 0 < s.pending.length := length_pos_iff.mpr hpending
    have hsame : (next s .start).pending.length = s.pending.length := rfl
    omega

end Drive

/-! ## When start may be called -/

/-- Every call of `start` is allowed. -/
def StartsIn (allowed : State → Prop) (s : State) (e : Event) : Prop := e = .start → allowed s

theorem stepsMeet_of_no_start {allowed : State → Prop} : ∀ {events : List Event} {s : State},
    (∀ e ∈ events, e ≠ .start) → StepsMeet next (StartsIn allowed) s events
  | [], _, _ => trivial
  | e :: _, _, h =>
    ⟨fun he => absurd he (h e mem_cons_self),
      stepsMeet_of_no_start fun e' he' => h e' (mem_cons_of_mem _ he')⟩

/-- A rule that keeps the client safe from a state on allows `start` only in quiet states. -/
theorem quiet_of_safe {allowed : State → Prop} : ∀ {is : List Event} {s : State}, Inv s →
    (∀ events, StepsMeet next (StartsIn allowed) s events → Along next Safe s events) →
    StepsMeet next (StartsIn allowed) s is → Along next (fun s => allowed s → Quiet s) s is
  | is, s, hinv, hsafe, hmeet => by
    have hquiet : allowed s → Quiet s := by
      intro hallowed
      by_contra hbusy
      obtain ⟨cont, hcont, hunsafe⟩ := exists_two_timers hinv hbusy
      exact hunsafe (hsafe (.start :: cont) ⟨fun _ => hallowed, stepsMeet_of_no_start hcont⟩).last
    match is with
    | [] => exact hquiet
    | e :: _ =>
      refine ⟨hquiet, quiet_of_safe (next_inv e hinv fun he => hquiet (hmeet.1 he)) ?_ hmeet.2⟩
      exact fun events' hmeet' => (hsafe (e :: events') ⟨hmeet.1, hmeet'⟩).2

/-- A rule that allows `start` only in quiet states keeps the client safe. -/
theorem safe_of_quiet {allowed : State → Prop} : ∀ {events : List Event} {s : State}, Inv s →
    Along next (fun s => allowed s → Quiet s) s events →
    StepsMeet next (StartsIn allowed) s events → Along next Safe s events
  | [], _, hinv, _, _ => hinv.safe
  | e :: _, _, hinv, hquiet, hmeet =>
    ⟨hinv.safe, safe_of_quiet (next_inv e hinv fun he => hquiet.1 (hmeet.1 he)) hquiet.2 hmeet.2⟩

/-- **When the client keeps its promises.**  A rule for calling `start` is safe, in every
    interleaving that follows it, iff wherever it leads it allows `start` only while no timer is set
    and no poll is under way. -/
theorem timers_safe_iff (allowed : State → Prop) :
    (∀ events, StepsMeet next (StartsIn allowed) {} events → Along next Safe {} events) ↔
      ∀ events, StepsMeet next (StartsIn allowed) {} events →
        Along next (fun s => allowed s → Quiet s) {} events :=
  ⟨fun hsafe _ hmeet => quiet_of_safe inv_init hsafe hmeet,
    fun hquiet events hmeet => safe_of_quiet inv_init (hquiet events hmeet) hmeet⟩

/-- Two calls of `start` that overlap. -/
def twoStarts : List Event := [.publish, .start, .start]

/-- Both polls come to their end: two timers are set. -/
def twoTimers : List Event := twoStarts ++ drive 0 ++ drive 1

/-- `stop` clears the second, and the first one fires. -/
def lateFetch : List Event := twoTimers ++ [.stop, .fire 2]

/-- The first request is answered before a new snapshot, the second after it, and the second answer
    arrives first. -/
def outOfOrder : List Event :=
  twoStarts ++ [.answer 0 true, .publish, .answer 1 true, .settle 1, .settle 0]

/-- Two calls of `start` break all three promises. -/
theorem two_starts_unsafe : (twoTimers.foldl next {}).pending = [3, 2] ∧
    (lateFetch.foldl next {}).stopped = true ∧ (lateFetch.foldl next {}).lateFetches = 1 ∧
    (outOfOrder.foldl next {}).installed = [1, 2] := by
  decide

end FalseFlag.Timers
