/-
  References between named definitions.

  `E a b` says that the definition of `a` mentions `b`.  Expanding definitions terminates when the
  relation is well founded (read from the mentioning to the mentioned name).  Giving ONE name `k` a
  new definition keeps that, exactly when no name mentioned by the new definition leads back to `k`
  through the old ones (`expands_redefine_iff`); the old definition of `k` plays no part, since
  a path back to `k` ends the first time it meets `k`.
-/
import Mathlib.Logic.Relation
import Mathlib.Order.WellFounded
import Mathlib.Order.Preorder.Finite

namespace References

open Relation

variable {α : Type} {E E' : α → α → Prop} {k : α}

/-- Expanding names terminates. -/
def Expands (E : α → α → Prop) : Prop := WellFounded fun b a => E a b

/-- A path to `k` survives a new definition of `k`: up to its end it only uses other names. -/
theorem path_redefine (hother : ∀ a, a ≠ k → ∀ b, E' a b ↔ E a b) {a : α}
    (h : ReflTransGen E a k) : ReflTransGen E' a k := by
  induction h using ReflTransGen.head_induction_on with
  | refl => exact .refl
  | @head a b hab _ ih =>
    by_cases ha : a = k
    · rw [ha]
    · exact .head ((hother a ha b).mpr hab) ih

/-- A name that does not lead to `k` is expanded as before. -/
theorem acc_of_not_path (hE : Expands E) (hother : ∀ a, a ≠ k → ∀ b, E' a b ↔ E a b) (a : α) :
    ¬ ReflTransGen E a k → Acc (fun b a => E' a b) a := by
  induction a using hE.induction with
  | _ a ih =>
    intro hno
    have ha : a ≠ k := by
      rintro rfl
      exact hno .refl
    refine Acc.intro a fun b hab => ?_
    have hab' := (hother a ha b).mp hab
    exact ih b hab' fun hb => hno (.head hab' hb)

/-- **One new definition.** -/
theorem expands_redefine_iff (hE : Expands E) (hother : ∀ a, a ≠ k → ∀ b, E' a b ↔ E a b) :
    Expands E' ↔ ∀ r, E' k r → ¬ ReflTransGen E r k := by
  constructor
  · intro hE' r hr hpath
    have hcycle : TransGen (fun b a => E' a b) k k := by
      have h : TransGen E' k k := TransGen.head' hr (path_redefine hother hpath)
      exact transGen_swap.mpr h
    exact (WellFounded.transGen hE').irrefl.irrefl k hcycle
  · intro hno
    have hk : Acc (fun b a => E' a b) k :=
      Acc.intro k fun r hr => acc_of_not_path hE hother r (hno r hr)
    refine ⟨fun a => ?_⟩
    induction a using hE.induction with
    | _ a ih =>
      by_cases ha : a = k
      · exact ha ▸ hk
      · exact Acc.intro a fun b hab => ih b ((hother a ha b).mp hab)

/-- A chain of mentions leads from its start to every later name. -/
theorem transGen_of_chain {f : Nat → α} (hf : ∀ n, E (f n) (f (n + 1))) {m : Nat} :
    ∀ {n : Nat}, m < n → TransGen E (f m) (f n)
  | 0, h => absurd h (Nat.not_lt_zero m)
  | n + 1, h => by
    rcases Nat.lt_succ_iff_lt_or_eq.mp h with h | rfl
    · exact .tail (transGen_of_chain hf h) (hf n)
    · exact .single (hf m)

/-- Finitely many definitions without a cycle expand. -/
theorem expands_of_acyclic (hfin : {a | ∃ b, E a b}.Finite) (hacyclic : ∀ a, ¬ TransGen E a a) :
    Expands E := by
  rw [Expands, wellFounded_iff_isEmpty_descending_chain]
  refine ⟨fun ⟨f, hf⟩ => ?_⟩
  -- an endless chain stays among finitely many names, so it meets one twice
  have hmem : ∀ n, f n ∈ {a | ∃ b, E a b} := fun n => ⟨f (n + 1), hf n⟩
  obtain ⟨m, n, hmn, heq⟩ := Set.Finite.exists_lt_map_eq_of_forall_mem hmem hfin
  have hcycle := transGen_of_chain hf hmn
  rw [← heq] at hcycle
  exact hacyclic (f m) hcycle

end References
