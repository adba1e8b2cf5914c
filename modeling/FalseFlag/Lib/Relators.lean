/-
  Relations lifted to lists and options.

  `List.Forall₂ R` relates lists element by element and `Option.Rel R` relates optional values.
  The lemmas here are the ones a development about related trees keeps needing: how the lifted
  relations weaken and compose when the hypothesis on the elements is known only FOR THE ELEMENTS
  AT HAND (as an induction hypothesis is), and how to take them apart.
-/
import Mathlib.Data.List.Forall2
import Mathlib.Data.Option.Basic

namespace Relators

open List Option

variable {α β γ : Type} {R : α → β → Prop} {S : β → γ → Prop}

/-! ## Optional values -/

/-- What follows from `R` is related, too. -/
theorem rel_imp {T : α → β → Prop} {a : Option α} {b : Option β} (h : Rel R a b)
    (himp : ∀ x y, a = some x → R x y → T x y) : Rel T a b := by
  cases h with
  | none => exact .none
  | some h => exact .some (himp _ _ rfl h)

/-- Something is related to something, -/
theorem rel_some {a : α} {o : Option β} (h : Rel R (some a) o) :
    ∃ b, o = some b ∧ R a b := by
  cases h with
  | some h => exact ⟨_, rfl, h⟩

/-- nothing to nothing. -/
theorem rel_none {o : Option β} (h : Rel R none o) : o = none := by
  cases h
  rfl

theorem rel_eq {a b : Option α} (h : Rel Eq a b) : a = b := by
  cases h with
  | none => rfl
  | some h => rw [h]

/-- Two steps make one. -/
theorem rel_trans {T : α → γ → Prop} {a : Option α} {b : Option β} {c : Option γ}
    (hT : ∀ x y z, a = some x → R x y → S y z → T x z) (hab : Rel R a b)
    (hbc : Rel S b c) : Rel T a c := by
  cases hab with
  | none =>
    cases hbc
    exact .none
  | some hxy =>
    cases hbc with
    | some hyz => exact .some (hT _ _ _ rfl hxy hyz)

/-! ## Lists -/

/-- A list and its image. -/
theorem forall₂_map_right {f : α → β} : ∀ {as : List α}, (∀ a ∈ as, R a (f a)) →
    Forall₂ R as (as.map f)
  | [], _ => .nil
  | _ :: _, h =>
    .cons (h _ mem_cons_self) (forall₂_map_right fun b hb => h b (mem_cons_of_mem _ hb))

/-- What follows from `R`, item by item. -/
theorem forall₂_imp {T : α → β → Prop} : ∀ {as : List α} {bs : List β},
    (∀ a ∈ as, ∀ b, R a b → T a b) → Forall₂ R as bs → Forall₂ T as bs
  | [], _, _, .nil => .nil
  | _ :: _, _, h, .cons hab habs =>
    .cons (h _ mem_cons_self _ hab)
      (forall₂_imp (fun a ha => h a (mem_cons_of_mem _ ha)) habs)

theorem forall₂_imp_mem {T : α → β → Prop} : ∀ {as : List α} {bs : List β},
    (∀ a ∈ as, ∀ b ∈ bs, R a b → T a b) → Forall₂ R as bs → Forall₂ T as bs
  | [], _, _, .nil => .nil
  | _ :: _, _ :: _, h, .cons hab habs =>
    .cons (h _ mem_cons_self _ mem_cons_self hab)
      (forall₂_imp_mem
        (fun a ha b hb => h a (mem_cons_of_mem _ ha) b (mem_cons_of_mem _ hb)) habs)

/-- Two steps make one, item by item. -/
theorem forall₂_trans {T : α → γ → Prop} : ∀ {as : List α} {bs : List β} {cs : List γ},
    (∀ a ∈ as, ∀ b c, R a b → S b c → T a c) → Forall₂ R as bs → Forall₂ S bs cs →
    Forall₂ T as cs
  | [], _, _, _, .nil, .nil => .nil
  | _ :: _, _, _, h, .cons hab habs, .cons hbc hbcs =>
    .cons (h _ mem_cons_self _ _ hab hbc)
      (forall₂_trans (fun a ha => h a (mem_cons_of_mem _ ha)) habs hbcs)

/-- Every item has a partner. -/
theorem exists_of_forall₂ : ∀ {as : List α} {bs : List β}, Forall₂ R as bs →
    ∀ a ∈ as, ∃ b ∈ bs, R a b
  | [], _, _, a, ha => absurd ha not_mem_nil
  | _ :: _, _ :: _, .cons h hs, a, ha => by
    rcases mem_cons.mp ha with rfl | ha
    · exact ⟨_, mem_cons_self, h⟩
    · obtain ⟨b, hb, hab⟩ := exists_of_forall₂ hs a ha
      exact ⟨b, mem_cons_of_mem _ hb, hab⟩

end Relators
