/-
  Listing rows page by page.

  A listing is in falling order of a key.  A page is its next `limit` rows, and the cursor of the last
  of them where more follow; the next page starts after the row of the cursor, BY THE KEY and not by
  counting.  If no two rows have one key, what comes after a row by its key is what stands after it
  in the listing (`newestFirst_after`), and a client that follows the cursors reads the listing
  (`follow_eq`): it ends, no row is missed and none comes twice.
-/
import Mathlib.Data.List.Sort

namespace Paging

open List

/-! ## Rows in falling order -/

section Order

variable {ρ K : Type} [LinearOrder K] (key : ρ → K)

/-- The rows in falling order of their keys. -/
def newestFirst (rows : List ρ) : List ρ := rows.insertionSort fun a b => key b ≤ key a

/-- No two rows have one key. -/
def Distinct (rows : List ρ) : Prop := (rows.map key).Nodup

theorem perm_newestFirst (rows : List ρ) : (newestFirst key rows).Perm rows :=
  perm_insertionSort _ rows

variable {key}

/-- The keys of a listing fall. -/
theorem pairwise_newestFirst {rows : List ρ} (h : Distinct key rows) :
    (newestFirst key rows).Pairwise fun a b => key b < key a := by
  have hle : (newestFirst key rows).Pairwise fun a b => key b ≤ key a :=
    @pairwise_insertionSort ρ (fun a b => key b ≤ key a) _ ⟨fun a b => le_total _ _⟩
      ⟨fun a b c hab hbc => le_trans hbc hab⟩ rows
  have hne : (newestFirst key rows).Pairwise fun a b => key a ≠ key b := by
    have hnodup := ((perm_newestFirst key rows).map key).nodup_iff.mpr h
    rw [List.Nodup, pairwise_map] at hnodup
    exact hnodup
  exact (hle.and hne).imp fun h => lt_of_le_of_ne h.1 h.2.symm

/-- There is one way to arrange rows by keys that fall. -/
theorem newestFirst_eq {rows listing : List ρ} (hperm : listing.Perm rows)
    (hfall : listing.Pairwise fun a b => key b < key a) : newestFirst key rows = listing := by
  have hdistinct : Distinct key rows := by
    rw [Distinct, ← (hperm.map key).nodup_iff, List.Nodup, pairwise_map]
    exact hfall.imp fun h => h.ne'
  refine List.Perm.eq_of_pairwise ?_ (pairwise_newestFirst hdistinct) hfall
    ((perm_newestFirst key rows).trans hperm.symm)
  intro a b _ _ hab hba
  exact absurd (lt_trans hab hba) (lt_irrefl _)

/-- Rows that are written in another form are listed in the same order, if the keys compare alike. -/
theorem newestFirst_map {σ L : Type} [LinearOrder L] {key' : σ → L} {f : ρ → σ} {rows : List ρ}
    (h : ∀ a ∈ rows, ∀ b ∈ rows, (key b ≤ key a ↔ key' (f b) ≤ key' (f a))) :
    newestFirst key' (rows.map f) = (newestFirst key rows).map f :=
  (map_insertionSort _ _ f rows h).symm

/-- **What comes after a row by its key is what stands after it.** -/
theorem newestFirst_after {rows pre rest : List ρ} {x : ρ} (h : Distinct key rows)
    (hsplit : newestFirst key rows = pre ++ x :: rest) :
    newestFirst key (rows.filter fun y => key y < key x) = rest := by
  have hfall := pairwise_newestFirst h
  rw [hsplit, pairwise_append, pairwise_cons] at hfall
  obtain ⟨-, ⟨hx, hrest⟩, hpre⟩ := hfall
  refine newestFirst_eq ?_ hrest
  have hperm := (perm_newestFirst key rows).filter fun y => decide (key y < key x)
  rw [hsplit, filter_append, filter_cons] at hperm
  have hnone : pre.filter (fun y => decide (key y < key x)) = [] := by
    rw [filter_eq_nil_iff]
    intro y hy hlt
    exact absurd (hpre y hy x mem_cons_self) (not_lt_of_gt (of_decide_eq_true hlt))
  have hall : rest.filter (fun y => decide (key y < key x)) = rest := by
    rw [filter_eq_self]
    exact fun y hy => decide_eq_true (hx y hy)
  rw [hnone, hall, if_neg (by rw [decide_eq_true_iff]; exact lt_irrefl _), nil_append] at hperm
  exact hperm

end Order

/-! ## Following the cursors -/

variable {ρ C : Type}

/-- The pages from a cursor on; none if a request fails, or if `n` requests are not enough. -/
def follow (page : Option C → Option (List ρ × Option C)) : ℕ → Option C → Option (List (List ρ))
  | 0, _ => none
  | n + 1, c =>
    match page c with
    | none => none
    | some (items, none) => some [items]
    | some (items, some c) => (follow page n (some c)).map fun pages => items :: pages

/-- A place in a listing: its beginning, or after the row of a cursor. -/
inductive Place (cursor : ρ → C) (listing : List ρ) : Option C → List ρ → Prop where
  | start : Place cursor listing none listing
  | after {pre : List ρ} {x : ρ} {rest : List ρ} (h : listing = pre ++ x :: rest) :
      Place cursor listing (some (cursor x)) rest

/-- The next page, if `rest` is left. -/
def pageOf (limit : ℕ) (cursor : ρ → C) (rest : List ρ) : List ρ × Option C :=
  (rest.take limit, if limit < rest.length then rest[limit - 1]?.map cursor else none)

/-- After a page that is not the last one comes the rest. -/
theorem place_next {limit : ℕ} (hlimit : 0 < limit) {cursor : ρ → C} {listing rest : List ρ}
    {c : Option C} (hplace : Place cursor listing c rest) (hmore : limit < rest.length) :
    ∃ x, rest[limit - 1]? = some x ∧ Place cursor listing (some (cursor x)) (rest.drop limit) := by
  have hlt : limit - 1 < rest.length := by omega
  have hsplit : rest = rest.take (limit - 1) ++ rest[limit - 1] :: rest.drop limit := by
    have hdrop := drop_eq_getElem_cons hlt
    rw [Nat.sub_add_cancel hlimit] at hdrop
    rw [← hdrop, take_append_drop]
  refine ⟨rest[limit - 1], getElem?_eq_getElem hlt, ?_⟩
  cases hplace with
  | start => exact .after hsplit
  | @after pre x _ h =>
    have hsplit' : listing = (pre ++ x :: rest.take (limit - 1)) ++ rest[limit - 1] ::
        rest.drop limit := by
      rw [h, append_assoc, cons_append, ← hsplit]
    exact .after hsplit'

/-- **A client that follows the cursors reads the listing.**  By induction on what is left. -/
theorem follow_eq {limit : ℕ} (hlimit : 0 < limit) {cursor : ρ → C} {listing : List ρ}
    {page : Option C → Option (List ρ × Option C)}
    (hpage : ∀ c rest, Place cursor listing c rest → page c = some (pageOf limit cursor rest)) :
    ∀ {k : ℕ} {c : Option C} {rest : List ρ}, rest.length ≤ k → Place cursor listing c rest →
      ∃ pages, (∀ n, k < n → follow page n c = some pages) ∧ pages.flatten = rest ∧
        ∀ items ∈ pages, items.length ≤ limit := by
  intro k
  induction k using Nat.strong_induction_on with
  | _ k ih =>
    intro c rest hk hplace
    by_cases hmore : limit < rest.length
    · obtain ⟨x, hx, hnext⟩ := place_next hlimit hplace hmore
      obtain ⟨pages, hfollow, hflatten, hlength⟩ := ih (rest.drop limit).length
        (by rw [length_drop]; omega) le_rfl hnext
      refine ⟨rest.take limit :: pages, ?_, ?_, ?_⟩
      · intro n hn
        obtain ⟨n, rfl⟩ := Nat.exists_eq_add_of_lt (Nat.lt_of_le_of_lt (Nat.zero_le _) hn)
        rw [follow, hpage c rest hplace, pageOf, if_pos hmore, hx]
        show (follow page (0 + n) (some (cursor x))).map _ = _
        rw [hfollow _ (by rw [length_drop]; omega)]
        rfl
      · rw [flatten_cons, hflatten, take_append_drop]
      · intro items hitems
        rcases mem_cons.mp hitems with rfl | hitems
        · exact length_take_le _ _
        · exact hlength items hitems
    · refine ⟨[rest], ?_, flatten_singleton, ?_⟩
      · intro n hn
        obtain ⟨n, rfl⟩ := Nat.exists_eq_add_of_lt (Nat.lt_of_le_of_lt (Nat.zero_le _) hn)
        rw [follow, hpage c rest hplace, pageOf, if_neg hmore, take_of_length_le (by omega)]
      · intro items hitems
        rw [mem_singleton.mp hitems]
        omega

end Paging
