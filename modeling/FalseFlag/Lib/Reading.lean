/-
  Readers: programs that go through a list of tokens from the left, and can fail.

  A `Reader` keeps what is left of the input.  Two statements say what one does, and each has a rule
  for sequencing:

  * `Takes p w a r` — in front of `r`, the reader takes exactly `w` and yields `a`: what a proof of
    completeness needs;
  * `Triple P p Q E` — on an input with `P` the reader either takes some `w` off it, with `Q`, or
    fails with an error in `E`: what a proof of soundness needs.  As every input has an outcome
    here, a triple whose `E` leaves an error out says that this error does NOT occur.
-/

namespace Reading

variable {τ ε α β : Type}

abbrev Reader (τ ε : Type) := StateT (List τ) (Except ε)

/-! ## Basic readers -/

/-- The next token, left where it is. -/
def head (e : ε) : Reader τ ε τ := fun s =>
  match s with
  | [] => .error e
  | t :: r => .ok (t, t :: r)

/-- Go on by one token. -/
def advance : Reader τ ε Unit := fun s => .ok ((), s.tail)

/-- The next token, taken. -/
def take (e : ε) : Reader τ ε τ := do
  let t ← head e
  advance
  pure t

/-- Take the next token if it is `t`. -/
def accept [DecidableEq τ] (e : ε) (t : τ) : Reader τ ε Bool := do
  if (← head e) = t then
    advance
    pure true
  else pure false

/-! ## What a reader takes -/

def Takes (p : Reader τ ε α) (w : List τ) (a : α) (r : List τ) : Prop := p (w ++ r) = .ok (a, r)

section Takes

variable {p q : Reader τ ε α} {f : α → Reader τ ε β} {v w r : List τ} {a : α} {b : β} {e : ε}
  {t u : τ}

theorem Takes.pure (a : α) (r : List τ) : Takes (pure a : Reader τ ε α) [] a r := rfl

/-- One reader after the other. -/
theorem Takes.bind (hp : Takes p w a (v ++ r)) (hf : Takes (f a) v b r) :
    Takes (p >>= f) (w ++ v) b r := by
  show (p (w ++ v ++ r) >>= fun x => f x.1 x.2) = _
  rw [List.append_assoc, show p (w ++ (v ++ r)) = _ from hp]
  exact hf

/-- A reader that takes something, and nothing after it. -/
theorem Takes.bind_nil (hp : Takes p w a r) (hf : Takes (f a) [] b r) : Takes (p >>= f) w b r := by
  have h := hp.bind (v := []) hf
  rwa [List.append_nil] at h

/-- A token can be looked at, -/
theorem Takes.head_bind {f : τ → Reader τ ε β} (ht : (w ++ r).head? = some t)
    (hf : Takes (f t) w b r) : Takes (head e >>= f) w b r := by
  cases hs : w ++ r with
  | nil =>
    rw [hs] at ht
    nomatch ht
  | cons t' s =>
    rw [hs] at ht
    obtain rfl : t' = t := Option.some.inj ht
    show (head e (w ++ r) >>= fun x => f x.1 x.2) = _
    rw [hs]
    show f t' (t' :: s) = _
    rw [← hs]
    exact hf

theorem Takes.advance_bind (hp : Takes p w a r) : Takes (advance >>= fun _ => p) (t :: w) a r := hp

/-- or taken. -/
theorem Takes.take_bind {f : τ → Reader τ ε β} (hf : Takes (f t) w b r) :
    Takes (take e >>= f) (t :: w) b r := hf

variable [DecidableEq τ]

/-- The token that is asked for is taken; -/
theorem Takes.accept_then (hp : Takes p w a r) :
    Takes (accept e t >>= fun c => if c then p else q) (t :: w) a r := by
  have h : Takes (accept e t) [t] true (w ++ r) := by
    show (if t = t then _ else _ : Reader τ ε Bool) (t :: (w ++ r)) = _
    rw [if_pos rfl]
    rfl
  exact h.bind (by rw [if_pos rfl]; exact hp)

/-- any other is left. -/
theorem Takes.accept_else (ht : (w ++ r).head? = some u) (hne : u ≠ t) (hq : Takes q w a r) :
    Takes (accept e t >>= fun c => if c then p else q) w a r := by
  have h : Takes (accept e t) [] false (w ++ r) :=
    .head_bind ht (by rw [if_neg hne]; exact .pure false _)
  exact h.bind (by rw [if_neg Bool.false_ne_true]; exact hq)

end Takes

/-! ## What holds of a reader's outcomes -/

def Triple (P : List τ → Prop) (p : Reader τ ε α) (Q : α → List τ → Prop) (E : ε → Prop) : Prop :=
  ∀ s, P s → (∃ a w r, s = w ++ r ∧ p s = .ok (a, r) ∧ Q a w) ∨ ∃ e, p s = .error e ∧ E e

section Triple

variable {P P' : List τ → Prop} {p q : Reader τ ε α} {f : α → Reader τ ε β}
  {Q Q' : α → List τ → Prop} {R : β → List τ → Prop} {E : ε → Prop} {e : ε} {t : τ}

theorem Triple.pure {a : α} (h : Q a []) : Triple P (pure a) Q E :=
  fun s _ => .inl ⟨a, [], s, rfl, rfl, h⟩

theorem Triple.throw (h : E e) : Triple P (throw e : Reader τ ε α) Q E :=
  fun _ _ => .inr ⟨e, rfl, h⟩

/-- What the second reader finds is what the first left, of an input with `P`. -/
theorem Triple.bind (hp : Triple P p Q E)
    (hf : ∀ a w, Q a w → Triple (fun r => P (w ++ r)) (f a) (fun b w' => R b (w ++ w')) E) :
    Triple P (p >>= f) R E := by
  intro s hs
  rcases hp s hs with ⟨a, w, r, rfl, hrun, hq⟩ | ⟨e, hrun, he⟩
  · have hbind : (p >>= f) (w ++ r) = f a r := by
      show (p (w ++ r) >>= fun x => f x.1 x.2) = _
      rw [hrun]
      rfl
    rcases hf a w hq r hs with ⟨b, w', r', rfl, hrun', hr⟩ | ⟨e, hrun', he⟩
    · exact .inl ⟨b, w ++ w', r', (List.append_assoc _ _ _).symm, hbind.trans hrun', hr⟩
    · exact .inr ⟨e, hbind.trans hrun', he⟩
  · refine .inr ⟨e, ?_, he⟩
    show (p s >>= fun x => f x.1 x.2) = _
    rw [hrun]
    rfl

/-- The rule of consequence. -/
theorem Triple.mono (h : Triple P p Q E) (hP : ∀ s, P' s → P s) (hQ : ∀ a w, Q a w → Q' a w) :
    Triple P' p Q' E := by
  intro s hs
  rcases h s (hP s hs) with ⟨a, w, r, hsplit, hrun, hq⟩ | h
  · exact .inl ⟨a, w, r, hsplit, hrun, hQ a w hq⟩
  · exact .inr h

/-- The token that is looked at is known after, -/
theorem Triple.head_bind {f : τ → Reader τ ε β} (hP : ∀ s, P s → s ≠ [])
    (hf : ∀ t, Triple (fun s => P s ∧ s.head? = some t) (f t) R E) :
    Triple P (head e >>= f) R E := by
  intro s hs
  cases s with
  | nil => exact absurd rfl (hP [] hs)
  | cons t r => exact hf t (t :: r) ⟨hs, rfl⟩

/-- Over a token that has been looked at. -/
theorem Triple.advance_bind (hp : Triple (fun r => P (t :: r)) p (fun a w => Q a (t :: w)) E) :
    Triple (fun s => P s ∧ s.head? = some t) (advance >>= fun _ => p) Q E := by
  rintro s ⟨hs, ht⟩
  cases s with
  | nil => nomatch ht
  | cons t' r =>
    obtain rfl : t' = t := Option.some.inj ht
    rcases hp r hs with ⟨a, w, r', rfl, hrun, hq⟩ | ⟨e, hrun, he⟩
    · exact .inl ⟨a, t' :: w, r', rfl, hrun, hq⟩
    · exact .inr ⟨e, hrun, he⟩

/-- and one that is taken has been read. -/
theorem Triple.take_bind {f : τ → Reader τ ε β} (hP : ∀ s, P s → s ≠ [])
    (hf : ∀ t, Triple (fun r => P (t :: r)) (f t) (fun b w => R b (t :: w)) E) :
    Triple P (take e >>= f) R E := by
  intro s hs
  cases s with
  | nil => exact absurd rfl (hP [] hs)
  | cons t r =>
    rcases hf t r hs with ⟨a, w, r', rfl, hrun, hq⟩ | ⟨e, hrun, he⟩
    · exact .inl ⟨a, t :: w, r', rfl, hrun, hq⟩
    · exact .inr ⟨e, hrun, he⟩

/-- A choice by the token that comes: each side starts where it does. -/
theorem Triple.accept_ite [DecidableEq τ] (hP : ∀ s, P s → s ≠ [])
    (hp : Triple (fun r => P (t :: r)) p (fun a w => Q a (t :: w)) E) (hq : Triple P q Q E) :
    Triple P (accept e t >>= fun c => if c then p else q) Q E := by
  intro s hs
  cases s with
  | nil => exact absurd rfl (hP [] hs)
  | cons t' r =>
    by_cases heq : t' = t
    · subst heq
      have hrun : (accept e t' >>= fun c => if c then p else q) (t' :: r) = p r := by
        show ((if t' = t' then _ else _ : Reader τ ε Bool) (t' :: r) >>= _) = _
        rw [if_pos rfl]
        rfl
      rcases hp r hs with ⟨a, w, r', rfl, hok, hQ⟩ | ⟨e, herr, he⟩
      · exact .inl ⟨a, t' :: w, r', rfl, hrun.trans hok, hQ⟩
      · exact .inr ⟨e, hrun.trans herr, he⟩
    · have hrun : (accept e t >>= fun c => if c then p else q) (t' :: r) = q (t' :: r) := by
        show ((if t' = t then _ else _ : Reader τ ε Bool) (t' :: r) >>= _) = _
        rw [if_neg heq]
        rfl
      rcases hq (t' :: r) hs with ⟨a, w, r', hsplit, hok, hQ⟩ | ⟨e, herr, he⟩
      · exact .inl ⟨a, w, r', hsplit, hrun.trans hok, hQ⟩
      · exact .inr ⟨e, hrun.trans herr, he⟩

end Triple

end Reading
