/-
  Fallible computations.

  `Except ε` with the lemmas a proof about sequenced steps needs: when a sequence succeeds, each of
  its steps did.  Stated as `↔`, so that `rw` and `obtain` take a computation apart without
  unfolding it.
-/

namespace Fallible

open List

variable {ε δ α β γ : Type}

variable {x : Except ε α}

theorem bind_eq_ok {f : α → Except ε β} {b : β} :
    (x >>= f) = .ok b ↔ ∃ a, x = .ok a ∧ f a = .ok b := by
  cases x with
  | error e => exact ⟨fun h => (nomatch h), fun ⟨_, h, _⟩ => (nomatch h)⟩
  | ok a =>
    constructor
    · intro h
      exact ⟨a, rfl, h⟩
    · rintro ⟨a', h, h'⟩
      injection h with h
      exact h ▸ h'

variable {e : ε}

/-- A sequence fails where one of its steps does. -/
theorem bind_eq_error {f : α → Except ε β} :
    (x >>= f) = .error e ↔ x = .error e ∨ ∃ a, x = .ok a ∧ f a = .error e := by
  cases x with
  | error e' =>
    constructor
    · intro h
      injection h with h
      exact .inl (congrArg _ h)
    · rintro (h | ⟨_, h, _⟩)
      · injection h with h
        exact congrArg _ h
      · nomatch h
  | ok a =>
    constructor
    · intro h
      exact .inr ⟨a, rfl, h⟩
    · rintro (h | ⟨_, h, h'⟩)
      · nomatch h
      · injection h with h
        exact h ▸ h'

theorem map_eq_ok {f : α → β} {b : β} :
    x.map f = .ok b ↔ ∃ a, x = .ok a ∧ f a = b := by
  cases x with
  | error e => exact ⟨fun h => (nomatch h), fun ⟨_, h, _⟩ => (nomatch h)⟩
  | ok a =>
    constructor
    · intro h
      injection h with h
      exact ⟨a, rfl, h⟩
    · rintro ⟨a', h, rfl⟩
      injection h with h
      exact h ▸ rfl

theorem mapError_eq_ok {f : ε → δ} {a : α} :
    x.mapError f = .ok a ↔ x = .ok a := by
  cases x with
  | error e => exact ⟨fun h => (nomatch h), fun h => (nomatch h)⟩
  | ok b => exact ⟨fun h => by injection h with h; rw [h], fun h => by injection h with h; rw [h]; rfl⟩

/-- A sequence whose first step yields nothing. -/
theorem seq_eq_ok {x : Except ε Unit} {y : Except ε β} {b : β} :
    (x >>= fun _ => y) = .ok b ↔ x = .ok () ∧ y = .ok b := by
  rw [bind_eq_ok]
  exact ⟨fun ⟨_, h, h'⟩ => ⟨h, h'⟩, fun ⟨h, h'⟩ => ⟨(), h, h'⟩⟩

theorem map_bind (x : Except ε α) (f : α → β) (g : β → Except ε γ) :
    (x.map f >>= g) = x >>= fun a => g (f a) := by
  cases x <;> rfl

theorem bind_map (x : Except ε α) (f : α → Except ε β) (g : β → γ) :
    (x >>= f).map g = x >>= fun a => (f a).map g := by
  cases x <;> rfl

/-- A result that does not depend on what came before. -/
theorem map_const (x : Except ε Unit) (b : β) : (x.map fun _ => b) = x >>= fun _ => .ok b := by
  cases x <;> rfl

theorem ite_error_eq_ok {c : Prop} [Decidable c] {a : α} :
    (if c then .error e else x) = .ok a ↔ ¬ c ∧ x = .ok a := by
  by_cases h : c
  · rw [if_pos h]
    exact ⟨fun h' => (nomatch h'), fun h' => absurd h h'.1⟩
  · rw [if_neg h]
    exact ⟨fun h' => ⟨h, h'⟩, fun h' => h'.2⟩

/-! ## Short-circuit conjunction and disjunction -/

variable {f : α → Except ε Bool}

/-- When no test fails, the conjunction is the conjunction of the results. -/
theorem allM_eq_ok {b : α → Bool} : ∀ {xs : List α},
    (∀ x ∈ xs, f x = .ok (b x)) → xs.allM f = .ok (xs.all b)
  | [], _ => rfl
  | x :: xs, h => by
    rw [List.allM, h x mem_cons_self, all_cons]
    cases hb : b x with
    | false => rfl
    | true => exact allM_eq_ok fun y hy => h y (mem_cons_of_mem _ hy)

/-- When no test fails, the disjunction is the disjunction of the results. -/
theorem anyM_eq_ok {b : α → Bool} : ∀ {xs : List α},
    (∀ x ∈ xs, f x = .ok (b x)) → xs.anyM f = .ok (xs.any b)
  | [], _ => rfl
  | x :: xs, h => by
    rw [List.anyM, h x mem_cons_self, any_cons]
    cases hb : b x with
    | true => rfl
    | false => exact anyM_eq_ok fun y hy => h y (mem_cons_of_mem _ hy)

/-- A conjunction fails with the error of one of its tests, -/
theorem allM_eq_error : ∀ {xs : List α},
    xs.allM f = .error e → ∃ x ∈ xs, f x = .error e
  | [], h => nomatch h
  | x :: xs, h => by
    rw [List.allM] at h
    rcases hx : f x with e' | b
    · rw [hx] at h
      injection h with h
      exact ⟨x, mem_cons_self, by rw [hx, h]⟩
    · rw [hx] at h
      cases b with
      | false => nomatch h
      | true =>
        obtain ⟨y, hy, hfy⟩ := allM_eq_error h
        exact ⟨y, mem_cons_of_mem _ hy, hfy⟩

/-- and so does a disjunction. -/
theorem anyM_eq_error : ∀ {xs : List α},
    xs.anyM f = .error e → ∃ x ∈ xs, f x = .error e
  | [], h => nomatch h
  | x :: xs, h => by
    rw [List.anyM] at h
    rcases hx : f x with e' | b
    · rw [hx] at h
      injection h with h
      exact ⟨x, mem_cons_self, by rw [hx, h]⟩
    · rw [hx] at h
      cases b with
      | true => nomatch h
      | false =>
        obtain ⟨y, hy, hfy⟩ := anyM_eq_error h
        exact ⟨y, mem_cons_of_mem _ hy, hfy⟩

end Fallible
