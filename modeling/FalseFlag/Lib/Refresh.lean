/-
  A value that is refreshed again and again.

  A client reads a value once when it starts, then once per tick.  A read gives a fresh value,
  finds nothing new, or fails.  `latest` is what a client should hold: the last fresh value of the
  reads so far.

  `start` and `tick` are the client that stops before it has begun if its FIRST read fails.  It
  holds the latest value at all times exactly if that read did not fail, or no read ever gave a
  value (`run_latest_iff`).
-/
import Mathlib.Data.List.Basic

namespace Refresh

open List

/-- What a read comes to. -/
inductive Outcome (α ε : Type) where
  | fresh (a : α)
  | unchanged
  | failed (e : ε)

namespace Outcome

variable {α ε : Type}

/-- The value of a read. -/
def value? : Outcome α ε → Option α
  | fresh a => some a
  | unchanged | failed _ => none

/-- The read did not come to anything. -/
def IsFailed : Outcome α ε → Prop
  | failed _ => True
  | fresh _ | unchanged => False

/-- What is held after a read: a failure is no different from no news. -/
def install (held : Option α) (o : Outcome α ε) : Option α := o.value?.or held

/-- The read, with its failure. -/
def read (held : Option α) : Outcome α ε → Except ε (Option α)
  | fresh a => .ok (some a)
  | unchanged => .ok held
  | failed e => .error e

end Outcome

open Outcome

variable {α ε ρ : Type}

/-- **The last fresh value** of the reads `0, …, k`. -/
def latest (reads : ℕ → Outcome α ε) (k : ℕ) : Option α :=
  ((List.range (k + 1)).filterMap fun i => (reads i).value?).getLast?

theorem getLast?_filterMap_singleton (f : ℕ → Option α) (i : ℕ) :
    ([i].filterMap f).getLast? = f i := by
  rw [filterMap_cons]
  rcases f i with _ | a
  · rfl
  · rfl

theorem latest_zero (reads : ℕ → Outcome α ε) : latest reads 0 = (reads 0).install none := by
  rw [install, Option.or_none]
  exact getLast?_filterMap_singleton _ 0

theorem latest_succ (reads : ℕ → Outcome α ε) (k : ℕ) :
    latest reads (k + 1) = (reads (k + 1)).install (latest reads k) := by
  rw [latest, range_succ, filterMap_append, getLast?_append, ← latest,
    getLast?_filterMap_singleton, install]

theorem latest_eq_none_iff (reads : ℕ → Outcome α ε) (k : ℕ) :
    latest reads k = none ↔ ∀ i ≤ k, (reads i).value? = none := by
  rw [latest, getLast?_eq_none_iff, filterMap_eq_nil_iff]
  simp only [mem_range, Nat.lt_succ_iff]

/-! ## The client -/

/-- What a client holds, and whether it goes on reading. -/
structure State (α : Type) where
  held : Option α
  running : Bool

section Client

variable (poll : Option α → ρ → Except ε (Option α))

/-- The first read: if it fails there will be no other.  `again` says if there are ticks at all. -/
def start (again : Bool) (r : ρ) : State α :=
  match poll none r with
  | .error _ => ⟨none, false⟩
  | .ok held => ⟨held, again⟩

/-- A tick: a failure is noted, and changes nothing. -/
def tick (s : State α) (r : ρ) : State α :=
  if s.running then
    match poll s.held r with
    | .error _ => s
    | .ok held => { s with held }
  else s

/-- The client after `k` ticks. -/
def run (again : Bool) (r : ℕ → ρ) : ℕ → State α
  | 0 => start poll again (r 0)
  | k + 1 => tick poll (run again r k) (r (k + 1))

variable {poll} {outcome : ρ → Outcome α ε} (hpoll : ∀ held r, poll held r = (outcome r).read held)
include hpoll

/-- A tick of a client that runs. -/
theorem tick_running {s : State α} (hs : s.running = true) (r : ρ) :
    tick poll s r = ⟨(outcome r).install s.held, true⟩ := by
  obtain ⟨held, running⟩ := s
  subst hs
  rw [tick, if_pos rfl, hpoll]
  cases outcome r with
  | fresh a => rfl
  | unchanged => rfl
  | failed e => rfl

/-- A client whose first read failed: nothing ever happens. -/
theorem run_failed {r : ℕ → ρ} (h : (outcome (r 0)).IsFailed) (k : ℕ) :
    run poll true r k = ⟨none, false⟩ := by
  induction k with
  | zero =>
    rw [run, start, hpoll]
    cases ho : outcome (r 0) with
    | fresh a => rw [ho] at h; exact h.elim
    | unchanged => rw [ho] at h; exact h.elim
    | failed e => rfl
  | succ k ih => rw [run, ih]; rfl

/-- A client whose first read did not fail: it runs, and holds the latest value. -/
theorem run_started {r : ℕ → ρ} (h : ¬ (outcome (r 0)).IsFailed) (k : ℕ) :
    run poll true r k = ⟨latest (fun i => outcome (r i)) k, true⟩ := by
  induction k with
  | zero =>
    rw [run, start, hpoll, latest_zero]
    cases ho : outcome (r 0) with
    | fresh a => rfl
    | unchanged => rfl
    | failed e => rw [ho] at h; exact absurd trivial h
  | succ k ih => rw [run, tick_running hpoll (by rw [ih]), ih, latest_succ]

/-- **When a client holds the latest value after every tick.** -/
theorem run_latest_iff (r : ℕ → ρ) :
    (∀ k, (run poll true r k).held = latest (fun i => outcome (r i)) k) ↔
      ¬ (outcome (r 0)).IsFailed ∨ ∀ k, (outcome (r k)).value? = none := by
  by_cases h : (outcome (r 0)).IsFailed
  · constructor
    · intro hall
      refine .inr fun k => ?_
      have hk := hall k
      rw [run_failed hpoll h] at hk
      exact (latest_eq_none_iff _ k).mp hk.symm k (Nat.le_refl k)
    · rintro (hne | hnone) k
      · exact absurd h hne
      · rw [run_failed hpoll h]
        exact ((latest_eq_none_iff _ k).mpr fun i _ => hnone i).symm
  · refine ⟨fun _ => .inl h, fun _ k => ?_⟩
    rw [run_started hpoll h]

end Client

end Refresh
