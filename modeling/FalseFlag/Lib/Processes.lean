/-
  Requests that share a store.

  A `Process` reads the store, any number of times, and ends with an answer: at once, or by ONE
  transaction whose result is answered.  A read may fail.  A `Pool` is a store and the processes
  that work on it; a turn lets one of them take its next step, so a list of turns is an
  interleaving, and what the environment decides (which reads fail, how a transaction fares) comes
  with the turn.

  * **`serial`** — in an interleaving a process runs one transaction at most, and then answers its
    result; `history` are the transactions, in their order;
  * **`Contract.along`** — rely and guarantee: if every transaction a process can come to is allowed
    in every store that may have become of the one it last read, the invariant holds in every
    interleaving, and the store only ever moves to a later one;
  * **`noninterference`** — if the processes that matter read only what two stores agree on, and the
    others never change that, then leaving the others out changes no answer.
-/
import FalseFlag.Lib.Runs
import Mathlib.Logic.Function.Basic
import Mathlib.Data.List.Basic

namespace Processes

open Function List Runs

/-- A process over the store `σ`: reads fail with a `φ`, transactions are `τ` and their results
    `ρ`, answers are `α`. -/
inductive Process (σ φ τ ρ α : Type) where
  | answer (a : α)
  | read (k : Except φ σ → Process σ φ τ ρ α)
  | transact (t : τ) (k : ρ → α)

variable {σ φ τ ρ α β ω ι : Type}

/-- The process, with its answers translated. -/
def Process.map (f : α → β) : Process σ φ τ ρ α → Process σ φ τ ρ β
  | answer a => answer (f a)
  | read k => read fun r => (k r).map f
  | transact t k => transact t fun r => f (k r)

theorem Process.map_map {γ : Type} (f : α → β) (g : β → γ) (p : Process σ φ τ ρ α) :
    (p.map f).map g = p.map (g ∘ f) := by
  induction p with
  | answer a => rfl
  | read k ih => exact congrArg Process.read (funext ih)
  | transact t k => rfl

theorem Process.map_id (p : Process σ φ τ ρ α) : p.map id = p := by
  induction p with
  | answer a => rfl
  | read k ih => exact congrArg Process.read (funext ih)
  | transact t k => rfl

/-- What a read returns. -/
def seen (fault : Option φ) (s : σ) : Except φ σ :=
  match fault with
  | some f => .error f
  | none => .ok s

/-- The store and the processes. -/
structure Pool (σ φ τ ρ α : Type) where
  store : σ
  procs : Nat → Process σ φ τ ρ α

/-- Whose turn it is; whether its read fails; how its transaction fares. -/
structure Turn (φ ω : Type) where
  who : Nat
  fault : Option φ
  fate : ω

/-- The pool after a turn. -/
def Pool.next (exec : σ → τ → ω → σ × ρ) (p : Pool σ φ τ ρ α) (e : Turn φ ω) : Pool σ φ τ ρ α :=
  match p.procs e.who with
  | .answer _ => p
  | .read k => { p with procs := update p.procs e.who (k (seen e.fault p.store)) }
  | .transact t k =>
    { store := (exec p.store t e.fate).1
      procs := update p.procs e.who (.answer (k (exec p.store t e.fate).2)) }

/-- **All a turn can do**: nothing, for a process that has answered; a read; a transaction. -/
theorem Pool.next_cases (exec : σ → τ → ω → σ × ρ) (p : Pool σ φ τ ρ α) (e : Turn φ ω) :
    (∃ a, p.procs e.who = .answer a ∧ p.next exec e = p) ∨
    (∃ k, p.procs e.who = .read k ∧ p.next exec e =
      { p with procs := update p.procs e.who (k (seen e.fault p.store)) }) ∨
    (∃ t k, p.procs e.who = .transact t k ∧ p.next exec e =
      { store := (exec p.store t e.fate).1
        procs := update p.procs e.who (.answer (k (exec p.store t e.fate).2)) }) := by
  unfold Pool.next
  rcases p.procs e.who with a | k | ⟨t, k⟩
  · exact .inl ⟨a, rfl, rfl⟩
  · exact .inr (.inl ⟨k, rfl, rfl⟩)
  · exact .inr (.inr ⟨t, k, rfl, rfl⟩)

variable {exec : σ → τ → ω → σ × ρ}

/-! ## Translated answers -/

/-- The pool, with the answers translated. -/
def Pool.map (f : α → β) (p : Pool σ φ τ ρ α) : Pool σ φ τ ρ β where
  store := p.store
  procs i := (p.procs i).map f

theorem Pool.next_map (f : α → β) (p : Pool σ φ τ ρ α) (e : Turn φ ω) :
    (p.map f).next exec e = (p.next exec e).map f := by
  have hupdate : ∀ new : Process σ φ τ ρ α,
      update (fun i => (p.procs i).map f) e.who (new.map f) =
        fun i => (update p.procs e.who new i).map f := by
    intro new
    funext i
    exact (apply_update (fun _ proc => proc.map f) p.procs e.who new i).symm
  have hproc : (p.map f).procs e.who = (p.procs e.who).map f := rfl
  rcases Pool.next_cases exec p e with
    ⟨a, ha, hnext⟩ | ⟨k, hk, hnext⟩ | ⟨t, k, hk, hnext⟩
  · rw [hnext, Pool.next, hproc, ha]
    rfl
  · rw [hnext, Pool.next, hproc, hk]
    exact congrArg (Pool.mk p.store) (hupdate _)
  · rw [hnext, Pool.next, hproc, hk]
    exact congrArg (Pool.mk _) (hupdate (.answer _))

/-- A run does not depend on how the answers are told. -/
theorem Pool.run_map (f : α → β) : ∀ (es : List (Turn φ ω)) (p : Pool σ φ τ ρ α),
    es.foldl (Pool.next exec) (p.map f) = (es.foldl (Pool.next exec) p).map f
  | [], _ => rfl
  | e :: es, p => by
    rw [foldl_cons, foldl_cons, p.next_map f e]
    exact Pool.run_map f es _

/-! ## One after another -/

/-- A transaction that was run: by whom, and on which store. -/
structure Commit (σ τ ω : Type) where
  who : Nat
  store : σ
  txn : τ
  fate : ω

/-- The transactions of a run. -/
def history (exec : σ → τ → ω → σ × ρ) (p : Pool σ φ τ ρ α) :
    List (Turn φ ω) → List (Commit σ τ ω)
  | [] => []
  | e :: es =>
    match p.procs e.who with
    | .transact t _ => ⟨e.who, p.store, t, e.fate⟩ :: history exec (p.next exec e) es
    | _ => history exec (p.next exec e) es

/-- A longer run goes on where the shorter one ended. -/
theorem history_append (exec : σ → τ → ω → σ × ρ) (es' : List (Turn φ ω)) :
    ∀ (es : List (Turn φ ω)) (p : Pool σ φ τ ρ α),
      history exec p (es ++ es') =
        history exec p es ++ history exec (es.foldl (Pool.next exec) p) es'
  | [], _ => rfl
  | e :: es, p => by
    rw [cons_append, history, history, history_append exec es' es, foldl_cons]
    rcases p.procs e.who with a | k | ⟨t, k⟩ <;> rfl

/-- `A` holds of all answers a process can give at once, `T` of all transactions it can come to. -/
def Process.All (A : α → Prop) (T : τ → (ρ → α) → Prop) : Process σ φ τ ρ α → Prop
  | .answer a => A a
  | .read k => ∀ r, (k r).All A T
  | .transact t k => T t k

theorem Process.All.imp {A A' : α → Prop} {T T' : τ → (ρ → α) → Prop} (hA : ∀ a, A a → A' a)
    (hT : ∀ t k, T t k → T' t k) {p : Process σ φ τ ρ α} (h : p.All A T) : p.All A' T' := by
  induction p with
  | answer a => exact hA a h
  | read k ih => exact fun r => ih r (h r)
  | transact t k => exact hT t k h

theorem Process.all_map {A : β → Prop} {T : τ → (ρ → β) → Prop} {f : α → β}
    {p : Process σ φ τ ρ α} :
    (p.map f).All A T ↔ p.All (fun a => A (f a)) fun t k => T t fun r => f (k r) := by
  induction p with
  | answer a => exact Iff.rfl
  | read k ih => exact forall_congr' fun r => ih r
  | transact t k => exact Iff.rfl

/-- A process that has answered runs no transaction, and stays as it is. -/
theorem answered_stays {i : Nat} {a : α} : ∀ (es : List (Turn φ ω)) {p : Pool σ φ τ ρ α},
    p.procs i = .answer a → (∀ c ∈ history exec p es, c.who ≠ i) ∧
      (es.foldl (Pool.next exec) p).procs i = .answer a
  | [], _, h => ⟨fun _ hc => absurd hc not_mem_nil, h⟩
  | e :: es, p, h => by
    rw [foldl_cons, history]
    have hother : ∀ new : Process σ φ τ ρ α, e.who ≠ i →
        update p.procs e.who new i = .answer a := by
      intro new hne
      rw [update_of_ne (Ne.symm hne)]
      exact h
    rcases Pool.next_cases exec p e with
      ⟨b, hb, hnext⟩ | ⟨k, hk, hnext⟩ | ⟨t, k, hk, hnext⟩
    · rw [hb, hnext]
      exact answered_stays es h
    · have hne : e.who ≠ i := by
        intro heq
        rw [heq, h] at hk
        cases hk
      rw [hk, hnext]
      exact answered_stays es (hother _ hne)
    · have hne : e.who ≠ i := by
        intro heq
        rw [heq, h] at hk
        cases hk
      obtain ⟨hrest, hend⟩ := answered_stays (p := p.next exec e) es (by rw [hnext]; exact hother _ hne)
      rw [hk]
      exact ⟨forall_mem_cons.mpr ⟨hne, hrest⟩, hend⟩

/-- Without a turn a process stays as it is. -/
theorem untouched {i : Nat} : ∀ (es : List (Turn φ ω)) (p : Pool σ φ τ ρ α),
    (∀ e ∈ es, e.who ≠ i) → (es.foldl (Pool.next exec) p).procs i = p.procs i
  | [], _, _ => rfl
  | e :: es, p, h => by
    obtain ⟨hne, hrest⟩ := forall_mem_cons.mp h
    rw [foldl_cons, untouched es _ hrest]
    rcases Pool.next_cases exec p e with
      ⟨a, -, hnext⟩ | ⟨k, -, hnext⟩ | ⟨t, k, -, hnext⟩
    · rw [hnext]
    · rw [hnext]
      exact update_of_ne (Ne.symm hne) ..
    · rw [hnext]
      exact update_of_ne (Ne.symm hne) ..

/-- Every process runs one transaction at most. -/
theorem history_nodup (exec : σ → τ → ω → σ × ρ) : ∀ (es : List (Turn φ ω)) (p : Pool σ φ τ ρ α),
    ((history exec p es).map Commit.who).Nodup
  | [], _ => nodup_nil
  | e :: es, p => by
    rw [history]
    rcases Pool.next_cases exec p e with
      ⟨b, hb, -⟩ | ⟨k, hk, -⟩ | ⟨t, k, hk, hnext⟩
    · rw [hb]
      exact history_nodup exec es _
    · rw [hk]
      exact history_nodup exec es _
    · rw [hk]
      refine nodup_cons.mpr ⟨fun hmem => ?_, history_nodup exec es _⟩
      obtain ⟨c, hc, hwho⟩ := mem_map.mp hmem
      have hanswer : (p.next exec e).procs e.who = .answer (k (exec p.store t e.fate).2) := by
        rw [hnext]
        exact update_self ..
      exact (answered_stays es hanswer).1 c hc hwho

/-- A log in the store to which some of the transactions append one item each: over a run it gets
    the items of those, in the order in which they were run. -/
theorem history_log (exec : σ → τ → ω → σ × ρ) {L : σ → List β} {P : Commit σ τ ω → Bool}
    {item : τ → β} (hexec : ∀ c : Commit σ τ ω,
      L (exec c.store c.txn c.fate).1 = L c.store ++ if P c then [item c.txn] else []) :
    ∀ (es : List (Turn φ ω)) (p : Pool σ φ τ ρ α),
      L (es.foldl (Pool.next exec) p).store =
        L p.store ++ ((history exec p es).filter P).map fun c => item c.txn
  | [], _ => (append_nil _).symm
  | e :: es, p => by
    rw [foldl_cons, history, history_log exec hexec es]
    rcases Pool.next_cases exec p e with
      ⟨a, ha, hnext⟩ | ⟨k, hk, hnext⟩ | ⟨t, k, hk, hnext⟩
    · rw [ha, hnext]
    · rw [hk, hnext]
    · have hlog : L (p.next exec e).store = L p.store ++
          if P ⟨e.who, p.store, t, e.fate⟩ then [item t] else [] := by
        rw [hnext]
        exact hexec ⟨e.who, p.store, t, e.fate⟩
      rw [hlog, hk, append_assoc]
      congr 1
      by_cases hs : P ⟨e.who, p.store, t, e.fate⟩ = true
      · rw [if_pos hs, filter_cons_of_pos hs]
        rfl
      · rw [if_neg hs, filter_cons_of_neg hs]
        rfl

/-- What every transaction of the run keeps is kept. -/
theorem kept_of_history (exec : σ → τ → ω → σ × ρ) {P : σ → Prop} :
    ∀ (es : List (Turn φ ω)) (p : Pool σ φ τ ρ α),
      (∀ c ∈ history exec p es, P c.store → P (exec c.store c.txn c.fate).1) →
      P p.store → P (es.foldl (Pool.next exec) p).store
  | [], _, _, hp => hp
  | e :: es, p, h, hp => by
    rw [history] at h
    rw [foldl_cons]
    rcases Pool.next_cases exec p e with
      ⟨a, ha, hnext⟩ | ⟨k, hk, hnext⟩ | ⟨t, k, hk, hnext⟩
    · rw [ha] at h
      refine kept_of_history exec es _ h ?_
      rw [hnext]
      exact hp
    · rw [hk] at h
      refine kept_of_history exec es _ h ?_
      rw [hnext]
      exact hp
    · rw [hk] at h
      obtain ⟨hfirst, hrest⟩ := forall_mem_cons.mp h
      refine kept_of_history exec es _ hrest ?_
      rw [hnext]
      exact hfirst hp

/-- Stores only move on: a transaction comes after the start of its run, and before its end. -/
theorem history_between (exec : σ → τ → ω → σ × ρ) {R : σ → σ → Prop} (hrefl : ∀ s, R s s)
    (htrans : ∀ {a b c}, R a b → R b c → R a c) (hexec : ∀ s t w, R s (exec s t w).1) :
    ∀ (es : List (Turn φ ω)) (p : Pool σ φ τ ρ α),
      R p.store (es.foldl (Pool.next exec) p).store ∧ ∀ c ∈ history exec p es,
        R p.store c.store ∧ R (exec c.store c.txn c.fate).1 (es.foldl (Pool.next exec) p).store
  | [], _ => ⟨hrefl _, fun _ hc => absurd hc not_mem_nil⟩
  | e :: es, p => by
    rw [foldl_cons, history]
    obtain ⟨hend, hall⟩ := history_between exec hrefl htrans hexec es (p.next exec e)
    rcases Pool.next_cases exec p e with
      ⟨a, ha, hnext⟩ | ⟨k, hk, hnext⟩ | ⟨t, k, hk, hnext⟩
    · rw [ha]
      rw [hnext] at hend hall ⊢
      exact ⟨hend, hall⟩
    · rw [hk]
      rw [hnext] at hend hall ⊢
      exact ⟨hend, hall⟩
    · have hfirst : R p.store (p.next exec e).store := by
        rw [hnext]
        exact hexec p.store t e.fate
      rw [hk]
      refine ⟨htrans hfirst hend, forall_mem_cons.mpr ⟨⟨hrefl _, ?_⟩, fun c hc => ?_⟩⟩
      · rw [hnext] at hend ⊢
        exact hend
      · exact ⟨htrans hfirst (hall c hc).1, (hall c hc).2⟩

/-- **One after another.**  In every interleaving a process has run its transaction and answered the
    result, or has run none: then it has answered at once, or is still under way. -/
theorem serial (exec : σ → τ → ω → σ × ρ) {A : α → Prop} {T : τ → (ρ → α) → Prop} (i : Nat) :
    ∀ (es : List (Turn φ ω)) (p : Pool σ φ τ ρ α), (p.procs i).All A T →
      (∃ c ∈ history exec p es, c.who = i ∧ ∃ k, T c.txn k ∧
        (es.foldl (Pool.next exec) p).procs i = .answer (k (exec c.store c.txn c.fate).2)) ∨
      (∀ c ∈ history exec p es, c.who ≠ i) ∧ ((es.foldl (Pool.next exec) p).procs i).All A T
  | [], _, h => .inr ⟨fun _ hc => absurd hc not_mem_nil, h⟩
  | e :: es, p, h => by
    rw [foldl_cons, history]
    have hupdate : ∀ new : Process σ φ τ ρ α, (e.who = i → new.All A T) →
        (update p.procs e.who new i).All A T := by
      intro new hnew
      by_cases hi : e.who = i
      · rw [hi, update_self]
        exact hnew hi
      · rw [update_of_ne (Ne.symm hi)]
        exact h
    rcases Pool.next_cases exec p e with
      ⟨b, hb, hnext⟩ | ⟨k, hk, hnext⟩ | ⟨t, k, hk, hnext⟩
    · rw [hb, hnext]
      exact serial exec i es p h
    · rw [hk, hnext]
      refine serial exec i es _ (hupdate _ fun hi => ?_)
      rw [← hi, hk] at h
      exact h _
    · rw [hk]
      by_cases hi : e.who = i
      · rw [← hi, hk] at h
        refine .inl ⟨_, mem_cons_self, hi, k, h, (answered_stays es ?_).2⟩
        rw [hnext, hi]
        exact update_self ..
      · have hnext_i : ((p.next exec e).procs i).All A T := by
          rw [hnext]
          exact hupdate _ fun heq => absurd heq hi
        rcases serial exec i es _ hnext_i with ⟨c, hc, hrest⟩ | ⟨hnone, hall⟩
        · exact .inl ⟨c, mem_cons_of_mem _ hc, hrest⟩
        · exact .inr ⟨forall_mem_cons.mpr ⟨hi, hnone⟩, hall⟩

/-! ## Rely and guarantee -/

/-- What every transaction promises (`keeps`), if it is allowed, in the runs that pass through certain
    stores only. -/
structure Contract (exec : σ → τ → ω → σ × ρ) where
  Inv : σ → Prop
  Later : σ → σ → Prop
  Allowed : σ → τ → Prop
  Passes : σ → Prop
  refl : ∀ s, Later s s
  trans : ∀ {a b c}, Later a b → Later b c → Later a c
  keeps : ∀ {s t} w, Inv s → Allowed s t → Passes (exec s t w).1 →
    Inv (exec s t w).1 ∧ Later s (exec s t w).1

namespace Contract

variable (C : Contract exec) (Ψ : σ → α → Prop)

/-- The process relies on the store moving to later ones only.  Whatever it reads, its transaction
    is allowed when it comes to it, and its answer satisfies `Ψ` in the store it is given in. -/
def Meets : Process σ φ τ ρ α → σ → Prop
  | .answer a, s => Ψ s a
  | .read k, s => ∀ s', C.Inv s' → C.Later s s' → ∀ fault, Meets (k (seen fault s')) s'
  | .transact t k, s => ∀ s', C.Inv s' → C.Later s s' →
      C.Allowed s' t ∧ ∀ w, C.Passes (exec s' t w).1 → Ψ (exec s' t w).1 (k (exec s' t w).2)

variable {C Ψ}

/-- `Ψ` stays true of what was answered. -/
def Stable (C : Contract exec) (Ψ : σ → α → Prop) : Prop := ∀ s s' a, C.Later s s' → Ψ s a → Ψ s' a

variable {p : Process σ φ τ ρ α}

theorem Meets.later (hΨ : C.Stable Ψ) {s s' : σ} (h : C.Meets Ψ p s)
    (hlater : C.Later s s') : C.Meets Ψ p s' := by
  cases p with
  | answer a => exact hΨ s s' a hlater h
  | read k => exact fun s'' hinv hlater' => h s'' hinv (C.trans hlater hlater')
  | transact t k => exact fun s'' hinv hlater' => h s'' hinv (C.trans hlater hlater')

theorem Meets.imp {Ψ' : σ → α → Prop} (h : ∀ s a, Ψ s a → Ψ' s a) :
    ∀ {s : σ}, C.Meets Ψ p s → C.Meets Ψ' p s := by
  induction p with
  | answer a => exact h _ a
  | read k ih => exact fun hp s' hinv hlater fault => ih _ (hp s' hinv hlater fault)
  | transact t k =>
    intro s hp s' hinv hlater
    obtain ⟨hallowed, hanswer⟩ := hp s' hinv hlater
    exact ⟨hallowed, fun w hw => h _ _ (hanswer w hw)⟩

/-- A process that keeps to a contract keeps to one that allows more. -/
theorem Meets.weaken {C' : Contract exec} (hallowed : ∀ s t, C.Allowed s t → C'.Allowed s t)
    (hinv : ∀ s, C'.Inv s → C.Inv s) (hlater : ∀ s s', C'.Later s s' → C.Later s s')
    (hpasses : ∀ s, C'.Passes s → C.Passes s) :
    ∀ {s : σ}, C.Meets Ψ p s → C'.Meets Ψ p s := by
  induction p with
  | answer a => exact id
  | read k ih =>
    exact fun hp s' hi hl fault => ih _ (hp s' (hinv s' hi) (hlater _ s' hl) fault)
  | transact t k =>
    intro s hp s' hi hl
    obtain ⟨ha, hanswer⟩ := hp s' (hinv s' hi) (hlater _ s' hl)
    exact ⟨hallowed s' t ha, fun w hw => hanswer w (hpasses _ hw)⟩

/-- A process whose answers are translated. -/
theorem meets_map {Ψ : σ → β → Prop} {f : α → β} :
    ∀ {s : σ}, C.Meets Ψ (p.map f) s ↔ C.Meets (fun s a => Ψ s (f a)) p s := by
  induction p with
  | answer a => exact Iff.rfl
  | read k ih =>
    intro s
    exact forall_congr' fun s' => forall_congr' fun _ => forall_congr' fun _ =>
      forall_congr' fun fault => ih _
  | transact t k => exact Iff.rfl

/-- A process that only reads keeps to every contract. -/
theorem meets_of_reads (h : p.All (fun _ => True) fun _ _ => False) :
    ∀ s : σ, C.Meets (fun _ _ => True) p s := by
  induction p with
  | answer a => exact fun _ => trivial
  | read k ih => exact fun _ s' _ _ fault => ih _ (h _) s'
  | transact t k => exact absurd h id

/-- The invariant holds and every process keeps to the contract, each with its own promise on what
    it answers. -/
structure Kept (C : Contract exec) (Ψ : Nat → σ → α → Prop) (p : Pool σ φ τ ρ α) : Prop where
  inv : C.Inv p.store
  procs : ∀ i, C.Meets (Ψ i) (p.procs i) p.store

section Kept

variable {Ψ : Nat → σ → α → Prop}

variable {p : Pool σ φ τ ρ α}

/-- One turn keeps the contract, and moves the store to a later one. -/
theorem Kept.next (hΨ : ∀ i, C.Stable (Ψ i)) (h : C.Kept Ψ p)
    {e : Turn φ ω} (he : C.Passes (p.next exec e).store) :
    C.Kept Ψ (p.next exec e) ∧ C.Later p.store (p.next exec e).store := by
  rcases Pool.next_cases exec p e with
    ⟨a, -, hnext⟩ | ⟨k, hk, hnext⟩ | ⟨t, k, hk, hnext⟩
  · rw [hnext]
    exact ⟨h, C.refl _⟩
  · have hproc := h.procs e.who
    rw [hk] at hproc
    rw [hnext]
    refine ⟨⟨h.inv, ?_⟩, C.refl _⟩
    rw [forall_update_iff p.procs fun i proc => C.Meets (Ψ i) proc p.store]
    exact ⟨hproc p.store h.inv (C.refl _) e.fault, fun i _ => h.procs i⟩
  · have hproc := h.procs e.who
    rw [hk] at hproc
    obtain ⟨hallowed, hanswer⟩ := hproc p.store h.inv (C.refl _)
    rw [hnext] at he ⊢
    obtain ⟨hinv, hlater⟩ := C.keeps e.fate h.inv hallowed he
    refine ⟨⟨hinv, ?_⟩, hlater⟩
    rw [forall_update_iff p.procs fun i proc => C.Meets (Ψ i) proc _]
    exact ⟨hanswer e.fate he, fun i _ => (h.procs i).later (hΨ i) hlater⟩

/-- **Rely and guarantee.**  In every interleaving the invariant holds and the processes keep to the
    contract. -/
theorem along (hΨ : ∀ i, C.Stable (Ψ i)) (h : C.Kept Ψ p) {es : List (Turn φ ω)}
    (hpasses : Along (Pool.next exec) (fun p => C.Passes p.store) p es) :
    Along (Pool.next exec) (C.Kept Ψ) p es :=
  along_of_along (fun _ _ hp he => (hp.next hΨ he).1) h hpasses

/-- Process `i` comes with a promise of its own. -/
theorem Kept.promise (h : C.Kept Ψ p) {i : Nat} {Φ : σ → α → Prop}
    (hi : C.Meets Φ (p.procs i) p.store) : C.Kept (fun j s a => j = i → Φ s a) p where
  inv := h.inv
  procs j := by
    by_cases hj : j = i
    · subst hj
      exact hi.imp fun _ _ ha _ => ha
    · exact (h.procs j).imp fun _ _ _ heq => absurd heq hj

/-- What a process has answered keeps its promise. -/
theorem Kept.answered (h : C.Kept Ψ p) {i : Nat} {a : α}
    (hi : p.procs i = .answer a) : Ψ i p.store a := by
  have hproc := h.procs i
  rw [hi] at hproc
  exact hproc

end Kept

end Contract

/-! ## What is drawn -/

/-- What the transactions of a turn draw, and what a store has taken in. -/
structure Draws (exec : σ → τ → ω → σ × ρ) (ι : Type) where
  draws : ω → ι → Prop
  used : σ → ι → Prop
  grows : ∀ s t w x, used (exec s t w).1 x → used s x ∨ draws w x

/-- Nothing the turn draws has been taken in. -/
def Draws.Fresh (D : Draws exec ι) (s : σ) (w : ω) : Prop := ∀ x, D.draws w x → ¬ D.used s x

/-- After a turn only what it draws is taken in on top. -/
theorem Draws.used_next (D : Draws exec ι) {p : Pool σ φ τ ρ α} {e : Turn φ ω} {x : ι}
    (h : D.used (p.next exec e).store x) : D.used p.store x ∨ D.draws e.fate x := by
  rcases Pool.next_cases exec p e with
    ⟨a, -, hnext⟩ | ⟨k, -, hnext⟩ | ⟨t, k, -, hnext⟩
  · rw [hnext] at h
    exact .inl h
  · rw [hnext] at h
    exact .inl h
  · rw [hnext] at h
    exact D.grows p.store t e.fate x h

/-- Turns that draw different things. -/
def Draws.Distinct (D : Draws exec ι) (es : List (Turn φ ω)) : Prop :=
  es.Pairwise fun e e' => ∀ x, D.draws e.fate x → ¬ D.draws e'.fate x

/-! ## Noninterference -/

section Noninterference

variable (C : Contract exec) (Agree : σ → σ → Prop) (Fresh : σ → ω → Prop)

/-- The process sees only what two stores agree on: in stores that agree it reads the same, and its
    transaction has the same result and leaves stores that agree. -/
def Blind : Process σ φ τ ρ α → σ → Prop
  | .answer _, _ => True
  | .read k, s => ∀ s1 s2, C.Inv s1 → C.Inv s2 → C.Later s s1 → Agree s1 s2 → ∀ fault,
      k (seen fault s1) = k (seen fault s2) ∧ Blind (k (seen fault s1)) s1
  | .transact t k, s => ∀ s1 s2 w, C.Inv s1 → C.Inv s2 → C.Later s s1 → Agree s1 s2 →
      Fresh s1 w → Fresh s2 w →
      Agree (exec s1 t w).1 (exec s2 t w).1 ∧ k (exec s1 t w).2 = k (exec s2 t w).2

/-- The process leaves what stores agree on as it is. -/
def Silent : Process σ φ τ ρ α → σ → Prop
  | .answer _, _ => True
  | .read k, s => ∀ s', C.Inv s' → C.Later s s' → ∀ fault, Silent (k (seen fault s')) s'
  | .transact t _, s => ∀ s1 s2 w, C.Inv s1 → C.Inv s2 → C.Later s s1 → Agree s1 s2 → Fresh s1 w →
      Agree (exec s1 t w).1 s2

/-- In stores that agree the process reads the same. -/
def ReadsAlike : Process σ φ τ ρ α → σ → Prop
  | .answer _, _ => True
  | .read k, s => ∀ s1 s2, C.Inv s1 → C.Inv s2 → C.Later s s1 → Agree s1 s2 → ∀ fault,
      k (seen fault s1) = k (seen fault s2) ∧ ReadsAlike (k (seen fault s1)) s1
  | .transact _ _, _ => True

variable {C Agree Fresh}

variable {p : Process σ φ τ ρ α}

theorem ReadsAlike.map {f : α → β} : ∀ {s : σ},
    ReadsAlike C Agree p s → ReadsAlike C Agree (p.map f) s := by
  induction p with
  | answer a => exact fun _ => trivial
  | read k ih =>
    intro s h s1 s2 h1 h2 hlater hagree fault
    obtain ⟨hread, hrest⟩ := h s1 s2 h1 h2 hlater hagree fault
    exact ⟨congrArg (Process.map f) hread, ih _ hrest⟩
  | transact t k => exact fun _ => trivial

/-- A process that reads alike is blind, if the transactions it may run are. -/
theorem blind_of_readsAlike (C C' : Contract exec) {Ψ : σ → α → Prop}
    (hinv : ∀ s, C.Inv s → C'.Inv s) (hlater : ∀ s s', C.Later s s' → C'.Later s s')
    (hallowed : ∀ s1 s2 t w, C.Inv s1 → C.Inv s2 → C'.Allowed s1 t → Agree s1 s2 → Fresh s1 w →
      Fresh s2 w → Agree (exec s1 t w).1 (exec s2 t w).1 ∧ (exec s1 t w).2 = (exec s2 t w).2) :
    ∀ {s : σ}, ReadsAlike C Agree p s → C'.Meets Ψ p s → Blind C Agree Fresh p s := by
  induction p with
  | answer a => exact fun _ _ => trivial
  | read k ih =>
    intro s hreads hmeets s1 s2 h1 h2 hl hagree fault
    obtain ⟨hread, hrest⟩ := hreads s1 s2 h1 h2 hl hagree fault
    exact ⟨hread, ih _ hrest (hmeets s1 (hinv s1 h1) (hlater s s1 hl) fault)⟩
  | transact t k =>
    intro s _ hmeets s1 s2 w h1 h2 hl hagree hfresh1 hfresh2
    obtain ⟨ht, -⟩ := hmeets s1 (hinv s1 h1) (hlater s s1 hl)
    obtain ⟨hstores, hresult⟩ := hallowed s1 s2 t w h1 h2 ht hagree hfresh1 hfresh2
    exact ⟨hstores, by rw [hresult]⟩

/-- A process is silent, if the transactions it may run are. -/
theorem silent_of_meets (C C' : Contract exec) {Ψ : σ → α → Prop}
    (hinv : ∀ s, C.Inv s → C'.Inv s) (hlater : ∀ s s', C.Later s s' → C'.Later s s')
    (hallowed : ∀ s1 s2 t w, C.Inv s1 → C.Inv s2 → C'.Allowed s1 t → Agree s1 s2 → Fresh s1 w →
      Agree (exec s1 t w).1 s2) : ∀ {s : σ}, C'.Meets Ψ p s → Silent C Agree Fresh p s := by
  induction p with
  | answer a => exact fun _ => trivial
  | read k ih =>
    exact fun hmeets s' h' hl fault => ih _ (hmeets s' (hinv s' h') (hlater _ s' hl) fault)
  | transact t k =>
    exact fun hmeets s1 s2 w h1 h2 hl hagree hfresh =>
      hallowed s1 s2 t w h1 h2 (hmeets s1 (hinv s1 h1) (hlater _ s1 hl)).1 hagree hfresh

theorem Blind.later {s s' : σ} (h : Blind C Agree Fresh p s)
    (hlater : C.Later s s') : Blind C Agree Fresh p s' := by
  cases p with
  | answer a => trivial
  | read k => exact fun s1 s2 h1 h2 hl => h s1 s2 h1 h2 (C.trans hlater hl)
  | transact t k => exact fun s1 s2 w h1 h2 hl => h s1 s2 w h1 h2 (C.trans hlater hl)

theorem Silent.later {s s' : σ} (h : Silent C Agree Fresh p s)
    (hlater : C.Later s s') : Silent C Agree Fresh p s' := by
  cases p with
  | answer a => trivial
  | read k => exact fun s1 h1 hl => h s1 h1 (C.trans hlater hl)
  | transact t k => exact fun s1 s2 w h1 h2 hl => h s1 s2 w h1 h2 (C.trans hlater hl)

/-- Two pools that those who matter (`low`) cannot tell apart. -/
structure Alike (C : Contract exec) (Agree : σ → σ → Prop) (Fresh : σ → ω → Prop)
    (low : Nat → Prop) (p q : Pool σ φ τ ρ α) : Prop where
  left : C.Kept (fun _ _ _ => True) p
  right : C.Kept (fun _ _ _ => True) q
  stores : Agree p.store q.store
  same : ∀ i, low i → p.procs i = q.procs i
  blind : ∀ i, low i → Blind C Agree Fresh (p.procs i) p.store
  silent : ∀ i, ¬ low i → Silent C Agree Fresh (p.procs i) p.store

variable {low : Nat → Prop}

theorem stable_true (C : Contract exec) (i : Nat) :
    C.Stable ((fun (_ : Nat) (_ : σ) (_ : α) => True) i) :=
  fun _ _ _ _ _ => trivial

/-- What is true of the new process and of the others is true of all. -/
theorem forall_update {procs : Nat → Process σ φ τ ρ α} {j : Nat} {new : Process σ φ τ ρ α}
    (P : Nat → Process σ φ τ ρ α → Prop) (hnew : P j new) (hold : ∀ i, i ≠ j → P i (procs i)) :
    ∀ i, P i (update procs j new i) :=
  (forall_update_iff procs P).mpr ⟨hnew, hold⟩

/-- The same process, in place of the same one. -/
theorem same_update {f g : Nat → Process σ φ τ ρ α} (h : ∀ i, low i → f i = g i) (j : Nat)
    {new new' : Process σ φ τ ρ α} (hnew : new = new') :
    ∀ i, low i → update f j new i = update g j new' i := by
  intro i hi
  subst hnew
  by_cases hij : i = j
  · subst hij
    rw [update_self, update_self]
  · rw [update_of_ne hij, update_of_ne hij]
    exact h i hi

/-- A turn of a process that matters, taken in both. -/
theorem Alike.next_low {p q : Pool σ φ τ ρ α} (h : Alike C Agree Fresh low p q) {e : Turn φ ω}
    (he : low e.who) (hp : Fresh p.store e.fate) (hq : Fresh q.store e.fate)
    (hpasses : ∀ s, C.Passes s) :
    Alike C Agree Fresh low (p.next exec e) (q.next exec e) := by
  obtain ⟨hleft, hlater⟩ := h.left.next (stable_true C) (hpasses _)
  obtain ⟨hright, -⟩ := h.right.next (stable_true C) (hpasses _)
  have hblind := h.blind e.who he
  rcases Pool.next_cases exec p e with
    ⟨a, ha, hnext⟩ | ⟨k, hk, hnext⟩ | ⟨t, k, hk, hnext⟩
  · have hnext' : q.next exec e = q := by
      rw [Pool.next, ← h.same _ he, ha]
    rw [hnext, hnext']
    exact h
  · rw [hk] at hblind
    obtain ⟨hread, hblind⟩ := hblind p.store q.store h.left.inv h.right.inv (C.refl _) h.stores e.fault
    have hnext' : q.next exec e =
        { q with procs := update q.procs e.who (k (seen e.fault q.store)) } := by
      rw [Pool.next, ← h.same _ he, hk]
    rw [hnext] at hleft ⊢
    rw [hnext'] at hright ⊢
    exact { left := hleft
            right := hright
            stores := h.stores
            same := same_update h.same e.who hread
            blind := forall_update (fun i proc => low i → Blind C Agree Fresh proc _)
              (fun _ => hblind) fun i _ => h.blind i
            silent := forall_update (fun i proc => ¬ low i → Silent C Agree Fresh proc _)
              (fun hi => absurd he hi) fun i _ => h.silent i }
  · rw [hk] at hblind
    obtain ⟨hagree, hresult⟩ :=
      hblind p.store q.store e.fate h.left.inv h.right.inv (C.refl _) h.stores hp hq
    have hnext' : q.next exec e =
        { store := (exec q.store t e.fate).1
          procs := update q.procs e.who (.answer (k (exec q.store t e.fate).2)) } := by
      rw [Pool.next, ← h.same _ he, hk]
    rw [hnext] at hleft hlater ⊢
    rw [hnext'] at hright ⊢
    exact { left := hleft
            right := hright
            stores := hagree
            same := same_update h.same e.who (by rw [hresult])
            blind := forall_update (fun i proc => low i → Blind C Agree Fresh proc _)
              (fun _ => trivial) fun i _ hi => (h.blind i hi).later hlater
            silent := forall_update (fun i proc => ¬ low i → Silent C Agree Fresh proc _)
              (fun hi => absurd he hi) fun i _ hi =>
              (h.silent i hi).later hlater }

/-- A turn of a process that does not, taken in one. -/
theorem Alike.next_high {p q : Pool σ φ τ ρ α} (h : Alike C Agree Fresh low p q) {e : Turn φ ω}
    (he : ¬ low e.who) (hp : Fresh p.store e.fate) (hpasses : ∀ s, C.Passes s) :
    Alike C Agree Fresh low (p.next exec e) q := by
  obtain ⟨hleft, hlater⟩ := h.left.next (stable_true C) (hpasses _)
  have hsilent := h.silent e.who he
  rcases Pool.next_cases exec p e with
    ⟨a, -, hnext⟩ | ⟨k, hk, hnext⟩ | ⟨t, k, hk, hnext⟩
  · rw [hnext]
    exact h
  · rw [hk] at hsilent
    rw [hnext] at hleft ⊢
    exact { left := hleft
            right := h.right
            stores := h.stores
            same := forall_update (fun i proc => low i → proc = q.procs i) (fun hi => absurd hi he)
              fun i _ => h.same i
            blind := forall_update (fun i proc => low i → Blind C Agree Fresh proc _)
              (fun hi => absurd hi he) fun i _ => h.blind i
            silent := forall_update (fun i proc => ¬ low i → Silent C Agree Fresh proc _)
              (fun _ => hsilent p.store h.left.inv (C.refl _) e.fault)
              fun i _ => h.silent i }
  · rw [hk] at hsilent
    rw [hnext] at hleft hlater ⊢
    exact { left := hleft
            right := h.right
            stores := hsilent p.store q.store e.fate h.left.inv h.right.inv (C.refl _) h.stores hp
            same := forall_update (fun i proc => low i → proc = q.procs i) (fun hi => absurd hi he)
              fun i _ => h.same i
            blind := forall_update (fun i proc => low i → Blind C Agree Fresh proc _)
              (fun hi => absurd hi he) fun i _ hi => (h.blind i hi).later hlater
            silent := forall_update (fun i proc => ¬ low i → Silent C Agree Fresh proc _)
              (fun _ => trivial) fun i _ hi => (h.silent i hi).later hlater }

/-- **Noninterference.**  Let a run be given whose turns draw different things, none of them in the
    stores.  Leaving out the turns of the processes that do not matter changes nothing for those
    that do: they end where they end in the whole run. -/
theorem noninterference [DecidablePred low] (D : Draws exec ι)
    (hpasses : ∀ s, C.Passes s) : ∀ (es : List (Turn φ ω))
    {p q : Pool σ φ τ ρ α}, Alike C Agree D.Fresh low p q → D.Distinct es →
    (∀ e ∈ es, D.Fresh p.store e.fate ∧ D.Fresh q.store e.fate) →
    Alike C Agree D.Fresh low (es.foldl (Pool.next exec) p)
      ((es.filter fun e => low e.who).foldl (Pool.next exec) q)
  | [], _, _, h, _, _ => h
  | e :: es, p, q, h, hdistinct, hfresh => by
    obtain ⟨hfirst, hrest⟩ := pairwise_cons.mp hdistinct
    obtain ⟨⟨hp, hq⟩, hfresh⟩ := forall_mem_cons.mp hfresh
    -- what the rest draws is still fresh after the first turn
    have hkeep : ∀ r : Pool σ φ τ ρ α, (∀ e' ∈ es, D.Fresh r.store e'.fate) →
        ∀ e' ∈ es, D.Fresh (r.next exec e).store e'.fate := by
      intro r hr e' he' x hx hused
      rcases D.used_next hused with hused | hdrawn
      · exact hr e' he' x hx hused
      · exact hfirst e' he' x hdrawn hx
    rw [foldl_cons]
    by_cases hlow : low e.who
    · rw [filter_cons_of_pos (by simpa using hlow), foldl_cons]
      refine noninterference D hpasses es (h.next_low hlow hp hq hpasses) hrest fun e' he' => ⟨?_, ?_⟩
      · exact hkeep p (fun e' he' => (hfresh e' he').1) e' he'
      · exact hkeep q (fun e' he' => (hfresh e' he').2) e' he'
    · rw [filter_cons_of_neg (by simpa using hlow)]
      refine noninterference D hpasses es (h.next_high hlow hp hpasses) hrest fun e' he' => ⟨?_, ?_⟩
      · exact hkeep p (fun e' he' => (hfresh e' he').1) e' he'
      · exact (hfresh e' he').2

end Noninterference

end Processes
