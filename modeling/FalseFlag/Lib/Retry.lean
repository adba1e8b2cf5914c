/-
  A call that is tried again.

  A try works on something shared and on a variable of the caller, and ends: well, badly, or in a
  panic.  A call tries again if the error is one that passes, at most `maxRetries` times, unless the
  caller gives up while it waits.  The variable is handed from one try to the next, so what a try
  that failed has left in it is overwritten only if a later try gets that far.

  * **`step_kept`** — tries that commit exactly if they end well make a call that does: what a call
    has committed is what its last try did, and the variable is that try's.
-/
import Mathlib.Data.List.Basic

namespace Retry

/-- How something ends. -/
inductive Ending (ε : Type) where
  | ok
  | failed (e : ε)
  | panicked
  deriving DecidableEq

/-- One try: how it ended, the variable of the caller afterwards, and what it has committed. -/
structure Tried (κ ε γ : Type) where
  ending : Ending ε
  captured : κ
  committed : Option γ

/-- A call: the number of the try, the variable, what was committed so far, and how the call ended
    if it has. -/
structure Call (κ ε γ : Type) where
  attempt : ℕ := 0
  captured : κ
  commits : List γ := []
  ended : Option (Ending ε) := none

variable {κ ε γ : Type} (maxRetries : ℕ) (retryable : ε → Bool)

/-- The call after a try; `cancelled` is the error of a caller that gave up before the next one. -/
def Call.step (c : Call κ ε γ) (cancelled : Option ε) (t : Tried κ ε γ) : Call κ ε γ :=
  match c.ended with
  | some _ => c
  | none =>
    let tried := { c with captured := t.captured, commits := c.commits ++ t.committed.toList }
    match t.ending with
    | .ok => { tried with ended := some .ok }
    | .panicked => { tried with ended := some .panicked }
    | .failed e =>
      if c.attempt < maxRetries ∧ retryable e = true then
        match cancelled with
        | some e' => { tried with ended := some (.failed e') }
        | none => { tried with attempt := c.attempt + 1 }
      else { tried with ended := some (.failed e) }

/-- The call after its first `n` tries; `try i` is the `i`-th, given the variable. -/
def Call.run (cancelled : ℕ → Option ε) (tries : ℕ → κ → Tried κ ε γ) (c : Call κ ε γ) :
    ℕ → Call κ ε γ
  | 0 => c
  | n + 1 =>
    let c := c.run cancelled tries n
    c.step maxRetries retryable (cancelled c.attempt) (tries c.attempt c.captured)

variable {maxRetries retryable}

variable {c : Call κ ε γ}

@[simp] theorem step_ended {o : Ending ε} (h : c.ended = some o)
    (cancelled : Option ε) (t : Tried κ ε γ) : c.step maxRetries retryable cancelled t = c := by
  rw [Call.step, h]

/-- What a step can do: the call ends as the try did, it is cancelled, or it goes on. -/
theorem step_cases (h : c.ended = none) (cancelled : Option ε) (t : Tried κ ε γ) :
    ∃ ended attempt, c.step maxRetries retryable cancelled t =
        { attempt, captured := t.captured, commits := c.commits ++ t.committed.toList, ended } ∧
      ((ended = some t.ending ∧ attempt = c.attempt) ∨
        (∃ e e', t.ending = .failed e ∧ ended = some (.failed e') ∧ attempt = c.attempt) ∨
        ∃ e, t.ending = .failed e ∧ ended = none ∧ attempt = c.attempt + 1 ∧
          c.attempt < maxRetries) := by
  rw [Call.step, h]
  rcases ht : t.ending with _ | e | _
  · exact ⟨_, _, rfl, .inl ⟨rfl, rfl⟩⟩
  · simp only
    split
    · rename_i hretry
      rcases cancelled with _ | e'
      · exact ⟨_, _, rfl, .inr (.inr ⟨e, rfl, rfl, rfl, hretry.1⟩)⟩
      · exact ⟨_, _, rfl, .inr (.inl ⟨e, e', rfl, rfl, rfl⟩)⟩
    · exact ⟨_, _, rfl, .inl ⟨rfl, rfl⟩⟩
  · exact ⟨_, _, rfl, .inl ⟨rfl, rfl⟩⟩

variable {cancelled : ℕ → Option ε} {tries : ℕ → κ → Tried κ ε γ}

/-- A call that goes on counts its tries. -/
theorem attempt_of_run {k : κ} :
    ∀ {n : ℕ}, ((Call.run maxRetries retryable cancelled tries { captured := k } n).ended = none) →
      (Call.run maxRetries retryable cancelled tries { captured := k } n).attempt = n ∧
        n ≤ maxRetries
  | 0, _ => ⟨rfl, Nat.zero_le _⟩
  | n + 1, h => by
    rw [Call.run] at h ⊢
    rcases hn : (Call.run maxRetries retryable cancelled tries { captured := k } n).ended with _ | o
    · obtain ⟨hattempt, hle⟩ := attempt_of_run hn
      obtain ⟨ended, attempt, hstep, hcases⟩ := @step_cases _ _ _ maxRetries retryable _ hn
        (cancelled _) (tries _ _)
      rw [hstep] at h ⊢
      simp only at h ⊢
      subst h
      rcases hcases with ⟨hended, -⟩ | ⟨_, _, -, hended, -⟩ | ⟨_, -, -, hattempt', hlt⟩
      · nomatch hended
      · nomatch hended
      · omega
    · rw [step_ended hn] at h
      rw [hn] at h
      nomatch h

/-- **A call is over after `maxRetries + 1` tries.** -/
theorem finished_of_steps (cancelled : ℕ → Option ε) (tries : ℕ → κ → Tried κ ε γ) (k : κ) :
    ∃ o, (Call.run maxRetries retryable cancelled tries { captured := k } (maxRetries + 1)).ended =
      some o := by
  rcases h : (Call.run maxRetries retryable cancelled tries { captured := k }
    (maxRetries + 1)).ended with _ | o
  · have hle := (attempt_of_run h).2
    omega
  · exact ⟨o, rfl⟩

/-- The error of a try that is not tried again. -/
def Final (retryable : ε → Bool) (ending : Ending ε) : Prop :=
  ∀ e, ending = .failed e → retryable e = false

/-- If the first try is not tried again, the call is that try. -/
theorem run_of_final (cancelled : ℕ → Option ε) (tries : ℕ → κ → Tried κ ε γ) (k : κ)
    (h : Final retryable (tries 0 k).ending) : ∀ n : ℕ,
    Call.run maxRetries retryable cancelled tries { captured := k } (n + 1) =
      { captured := (tries 0 k).captured, commits := (tries 0 k).committed.toList,
        ended := some (tries 0 k).ending }
  | 0 => by
    show Call.step maxRetries retryable { captured := k } (cancelled 0) (tries 0 k) = _
    rw [Call.step]
    rcases ht : (tries 0 k).ending with _ | e | _
    · rfl
    · simp only
      rw [if_neg fun hretry => Bool.false_ne_true ((h e ht).symm.trans hretry.2)]
      rfl
    · rfl
  | n + 1 => by
    rw [Call.run, run_of_final cancelled tries k h n]
    exact step_ended rfl _ _

/-! ## What a call has committed -/

/-- A try commits exactly if it ends well; `Q` is about what it commits and leaves in the
    variable. -/
def Atomic (Q : γ → κ → Prop) (t : Tried κ ε γ) : Prop :=
  (t.ending = .ok → ∃ x, t.committed = some x ∧ Q x t.captured) ∧
    (t.ending ≠ .ok → t.committed = none)

/-- A call has committed once if it has ended well, and else nothing. -/
def Kept (Q : γ → κ → Prop) (c : Call κ ε γ) : Prop :=
  (c.ended = some .ok → ∃ x, c.commits = [x] ∧ Q x c.captured) ∧
    (c.ended ≠ some .ok → c.commits = [])

theorem kept_start (Q : γ → κ → Prop) (k : κ) : Kept Q ({ captured := k } : Call κ ε γ) :=
  ⟨fun h => (nomatch h), fun _ => rfl⟩

/-- **One more try.** -/
theorem step_kept {Q : γ → κ → Prop} (h : Kept Q c) (cancelled : Option ε)
    {t : Tried κ ε γ} (ht : Atomic Q t) : Kept Q (c.step maxRetries retryable cancelled t) := by
  rcases hc : c.ended with _ | o
  · have hnil : c.commits = [] := h.2 (by rw [hc]; nofun)
    obtain ⟨ended, attempt, hstep, hcases⟩ := @step_cases _ _ _ maxRetries retryable _ hc cancelled t
    rw [hstep, hnil, List.nil_append]
    rcases hcases with ⟨rfl, -⟩ | ⟨e, e', hfailed, rfl, -⟩ | ⟨e, hfailed, rfl, -, -⟩
    · -- the call ends as the try did
      constructor
      · intro hok
        obtain ⟨x, hx, hQ⟩ := ht.1 (Option.some.inj hok)
        exact ⟨x, by rw [hx]; rfl, hQ⟩
      · intro hne
        have hnone := ht.2 fun hok => hne (congrArg some hok)
        rw [hnone]
        rfl
    · refine ⟨fun h => (nomatch h), fun _ => ?_⟩
      rw [ht.2 (by rw [hfailed]; nofun)]
      rfl
    · refine ⟨fun h => (nomatch h), fun _ => ?_⟩
      rw [ht.2 (by rw [hfailed]; nofun)]
      rfl
  · rw [step_ended hc]
    exact h

theorem run_kept {Q : γ → κ → Prop} (htries : ∀ i k, Atomic Q (tries i k)) (k : κ) : ∀ n : ℕ,
    Kept Q (Call.run maxRetries retryable cancelled tries { captured := k } n)
  | 0 => kept_start Q k
  | n + 1 => step_kept (run_kept htries k n) _ (htries _ _)

/-! ## How a call can end -/

/-- A call whose tries do not panic does not panic. -/
theorem run_not_panicked (htries : ∀ i k, (tries i k).ending ≠ .panicked) (k : κ) : ∀ n : ℕ,
    (Call.run maxRetries retryable cancelled tries { captured := k } n).ended ≠ some .panicked
  | 0 => nofun
  | n + 1 => by
    rw [Call.run]
    rcases hn : (Call.run maxRetries retryable cancelled tries { captured := k } n).ended with _ | o
    · obtain ⟨ended, attempt, hstep, hcases⟩ := @step_cases _ _ _ maxRetries retryable _ hn
        (cancelled _) (tries _ _)
      rw [hstep]
      rcases hcases with ⟨rfl, -⟩ | ⟨_, _, -, rfl, -⟩ | ⟨_, -, rfl, -⟩
      · exact fun h => htries _ _ (Option.some.inj h)
      · nofun
      · nofun
    · rw [step_ended hn]
      exact run_not_panicked htries k n

end Retry
