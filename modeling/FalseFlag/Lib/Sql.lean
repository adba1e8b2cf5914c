/-
  Queries that keep one row of each group.

  Rows are lists, and their order means nothing unless a query gives them one.  `ORDER BY` allows
  every arrangement that respects the order (`OrderedBy`), so queries are RELATIONS between the rows
  and a result: whatever is proved holds however ties are broken.

  There are two ways to ask for the top row of each group:
  * sort, then keep the first of each (`DISTINCT ON`): `mem_distinctOn_iff`;
  * number the rows of each group, then keep number one (`ROW_NUMBER`): `mem_rowNumber_iff`.
  If no group has two rows of one rank, both give the top rows, one for each group.
-/
import Mathlib.Data.List.Nodup
import Mathlib.Data.List.Perm.Basic
import Mathlib.Order.Lattice
import Mathlib.Data.List.Sort
import Mathlib.Logic.Function.Basic

namespace Sql

open List

variable {ρ κ τ : Type}

/-- `ORDER BY`: the rows, arranged so that no row stands before one it should come after. -/
def OrderedBy (le : ρ → ρ → Prop) (rows sorted : List ρ) : Prop :=
  sorted.Perm rows ∧ sorted.Pairwise le

/-- There is always one, for an order in which any two rows compare. -/
theorem exists_orderedBy {le : ρ → ρ → Prop} (htotal : ∀ a b, le a b ∨ le b a)
    (htrans : ∀ a b c, le a b → le b c → le a c) (rows : List ρ) :
    ∃ sorted, OrderedBy le rows sorted := by
  classical
  have : Std.Total le := ⟨htotal⟩
  have : IsTrans ρ le := ⟨htrans⟩
  exact ⟨rows.insertionSort le, perm_insertionSort le rows, pairwise_insertionSort le rows⟩

/-- The row is the top one of its group. -/
def IsTop [LE τ] (group : ρ → κ) (rank : ρ → τ) (rows : List ρ) (r : ρ) : Prop :=
  r ∈ rows ∧ ∀ a ∈ rows, group a = group r → rank a ≤ rank r

/-- Rows of one group and one rank are one. -/
def UniqueRanks (group : ρ → κ) (rank : ρ → τ) (rows : List ρ) : Prop :=
  ∀ a ∈ rows, ∀ b ∈ rows, group a = group b → rank a = rank b → a = b

section Top

variable [LinearOrder τ] {group : ρ → κ} {rank : ρ → τ} {rows : List ρ}

/-- A group has one top row. -/
theorem IsTop.unique (hunique : UniqueRanks group rank rows) {a b : ρ}
    (ha : IsTop group rank rows a) (hb : IsTop group rank rows b) (h : group a = group b) : a = b :=
  hunique a ha.1 b hb.1 h (le_antisymm (hb.2 a ha.1 h) (ha.2 b hb.1 h.symm))

/-- The first row of an arrangement by falling rank is the top row. -/
theorem isTop_of_first (rest : List ρ) {r : ρ} (hr : r ∈ rows)
    (hrest : ∀ a ∈ rows, group a = group r → a = r ∨ a ∈ rest)
    (hfalling : ∀ a ∈ rest, group a = group r → rank a ≤ rank r) : IsTop group rank rows r := by
  refine ⟨hr, fun a ha hgroup => ?_⟩
  rcases hrest a ha hgroup with rfl | ha
  · exact le_refl _
  · exact hfalling a ha hgroup

end Top

variable [DecidableEq κ]

/-! ## DISTINCT ON -/

/-- `DISTINCT ON (group)`: of the rows of a group the first is kept. -/
def distinctOn (group : ρ → κ) : List ρ → List ρ
  | [] => []
  | r :: rows => r :: (distinctOn group rows).filter (group · ≠ group r)

/-- A row is kept if no row of its group stands before it. -/
theorem mem_distinctOn {group : ρ → κ} {r : ρ} : ∀ {rows : List ρ}, r ∈ distinctOn group rows ↔
    ∃ before after, rows = before ++ r :: after ∧ ∀ a ∈ before, group a ≠ group r
  | [] => by
    refine ⟨fun h => absurd h not_mem_nil, ?_⟩
    rintro ⟨before, after, h, -⟩
    simp at h
  | r0 :: rows => by
    rw [distinctOn, mem_cons, mem_filter, mem_distinctOn]
    constructor
    · rintro (rfl | ⟨⟨before, after, rfl, hbefore⟩, hne⟩)
      · exact ⟨[], rows, rfl, fun a ha => absurd ha not_mem_nil⟩
      · refine ⟨r0 :: before, after, rfl, fun a ha => ?_⟩
        rcases mem_cons.mp ha with rfl | ha
        · exact fun h => of_decide_eq_true hne h.symm
        · exact hbefore a ha
    · rintro ⟨before, after, h, hbefore⟩
      rcases before with _ | ⟨b, before⟩
      · injection h with h _
        exact .inl h.symm
      · injection h with hb h
        subst hb h
        obtain ⟨hb, hbefore⟩ := forall_mem_cons.mp hbefore
        exact .inr ⟨⟨before, after, rfl, hbefore⟩, decide_eq_true (Ne.symm hb)⟩

/-- Each group has one row. -/
theorem nodup_distinctOn (group : ρ → κ) : ∀ rows : List ρ,
    ((distinctOn group rows).map group).Nodup
  | [] => nodup_nil
  | r :: rows => by
    rw [distinctOn, map_cons, nodup_cons]
    constructor
    · intro h
      obtain ⟨a, ha, hgroup⟩ := mem_map.mp h
      exact of_decide_eq_true (mem_filter.mp ha).2 hgroup
    · exact (filter_sublist.map _).nodup (nodup_distinctOn group rows)

section Falling

variable [LinearOrder τ] {group : ρ → κ} {rank : ρ → τ} {rows : List ρ}

/-- **Sort, then keep the first of each group**: the top rows, if within a group the order is by
    falling rank. -/
theorem mem_distinctOn_iff (hunique : UniqueRanks group rank rows) {le : ρ → ρ → Prop}
    (hle : ∀ a b, le a b → group a = group b → rank b ≤ rank a) {sorted : List ρ}
    (hsorted : OrderedBy le rows sorted) {r : ρ} :
    r ∈ distinctOn group sorted ↔ IsTop group rank rows r := by
  obtain ⟨hperm, hpairs⟩ := hsorted
  have htop : ∀ {r : ρ}, r ∈ distinctOn group sorted → IsTop group rank rows r := by
    intro r h
    obtain ⟨before, after, rfl, hbefore⟩ := mem_distinctOn.mp h
    refine isTop_of_first after (hperm.mem_iff.mp (by simp)) (fun a ha hgroup => ?_)
      (fun a ha hgroup => ?_)
    · -- a row of the group does not stand before `r`
      rcases mem_append.mp (hperm.mem_iff.mpr ha) with ha | ha
      · exact absurd hgroup (hbefore a ha)
      · exact mem_cons.mp ha
    · exact hle r a ((pairwise_cons.mp (pairwise_append.mp hpairs).2.1).1 a ha) hgroup.symm
  refine ⟨htop, fun h => ?_⟩
  -- the first row of the group is also a top row
  have hfirst : ∃ before f after, sorted = before ++ f :: after ∧ group f = group r ∧
      ∀ a ∈ before, group a ≠ group r := by
    have hmem : r ∈ sorted := hperm.mem_iff.mpr h.1
    clear hperm hpairs htop
    induction sorted with
    | nil => exact absurd hmem not_mem_nil
    | cons s sorted ih =>
      by_cases hs : group s = group r
      · exact ⟨[], s, sorted, rfl, hs, fun a ha => absurd ha not_mem_nil⟩
      · have hmem' : r ∈ sorted := (mem_cons.mp hmem).resolve_left fun heq => hs (heq ▸ rfl)
        obtain ⟨before, f, after, rfl, hf, hbefore⟩ := ih hmem'
        exact ⟨s :: before, f, after, rfl, hf, forall_mem_cons.mpr ⟨hs, hbefore⟩⟩
  obtain ⟨before, f, after, hsplit, hf, hbefore⟩ := hfirst
  have hmem : f ∈ distinctOn group sorted :=
    mem_distinctOn.mpr ⟨before, after, hsplit, fun a ha => hf ▸ hbefore a ha⟩
  rw [h.unique hunique (htop hmem) hf.symm]
  exact hmem

end Falling

/-! ## ROW_NUMBER -/

/-- `ROW_NUMBER() OVER (PARTITION BY group ORDER BY le)`: the rows of each group are numbered from
    one in an order that `le` allows. -/
def RowNumber (group : ρ → κ) (le : ρ → ρ → Prop) (rows : List ρ) (numbered : List (ρ × ℕ)) : Prop :=
  (numbered.map Prod.fst).Perm rows ∧ ∀ k, ∃ sorted,
    OrderedBy le (rows.filter (group · = k)) sorted ∧
      (numbered.filter (group ·.1 = k)).Perm (sorted.zipIdx 1)

/-- The rows in their order, each with its number, where `c` rows of a group stand before. -/
def number (group : ρ → κ) : (κ → ℕ) → List ρ → List (ρ × ℕ)
  | _, [] => []
  | c, r :: rows =>
    (r, c (group r) + 1) :: number group (Function.update c (group r) (c (group r) + 1)) rows

theorem map_number (group : ρ → κ) : ∀ (rows : List ρ) (c : κ → ℕ),
    (number group c rows).map Prod.fst = rows
  | [], _ => rfl
  | r :: rows, _ => congrArg (r :: ·) (map_number group rows _)

/-- Each group is numbered on its own. -/
theorem filter_number (group : ρ → κ) (k : κ) : ∀ (rows : List ρ) (c : κ → ℕ),
    (number group c rows).filter (group ·.1 = k) = (rows.filter (group · = k)).zipIdx (c k + 1)
  | [], _ => rfl
  | r :: rows, c => by
    rw [number]
    by_cases hk : group r = k
    · subst hk
      rw [filter_cons_of_pos (by simp), filter_cons_of_pos (by simp), filter_number group _ rows,
        Function.update_self, zipIdx_cons]
    · rw [filter_cons_of_neg (by simpa using hk), filter_cons_of_neg (by simpa using hk),
        filter_number group k rows, Function.update_of_ne (Ne.symm hk)]

/-- Rows can always be numbered. -/
theorem exists_rowNumber (group : ρ → κ) {le : ρ → ρ → Prop} (htotal : ∀ a b, le a b ∨ le b a)
    (htrans : ∀ a b c, le a b → le b c → le a c) (rows : List ρ) :
    ∃ numbered, RowNumber group le rows numbered := by
  obtain ⟨sorted, hperm, hpairs⟩ := exists_orderedBy htotal htrans rows
  refine ⟨number group (fun _ => 0) sorted, by rwa [map_number], fun k => ?_⟩
  exact ⟨sorted.filter (group · = k), ⟨hperm.filter _, hpairs.filter _⟩, by rw [filter_number]⟩

/-- `WHERE rn = 1`. -/
def numberOne (numbered : List (ρ × ℕ)) : List ρ := (numbered.filter (·.2 = 1)).map Prod.fst

theorem mem_numberOne {numbered : List (ρ × ℕ)} {r : ρ} :
    r ∈ numberOne numbered ↔ (r, 1) ∈ numbered := by
  simp [numberOne]

section Numbers

variable [LinearOrder τ] {group : ρ → κ} {rank : ρ → τ} {rows : List ρ} {le : ρ → ρ → Prop}
  {numbered : List (ρ × ℕ)}

/-- Every group that has rows has a number one: the first of its arrangement. -/
theorem exists_numberOne (h : RowNumber group le rows numbered) {r : ρ} (hr : r ∈ rows) :
    ∃ f ∈ numberOne numbered, group f = group r := by
  obtain ⟨sorted, hsorted, hperm⟩ := h.2 (group r)
  have hmem : r ∈ sorted := hsorted.1.mem_iff.mpr (mem_filter.mpr ⟨hr, decide_eq_true rfl⟩)
  rcases sorted with _ | ⟨f, rest⟩
  · exact absurd hmem not_mem_nil
  · have hf : (f, 1) ∈ numbered.filter (group ·.1 = group r) :=
      hperm.mem_iff.mpr (by rw [zipIdx_cons]; exact mem_cons_self)
    obtain ⟨hf, hgroup⟩ := mem_filter.mp hf
    exact ⟨f, mem_numberOne.mpr hf, of_decide_eq_true hgroup⟩

/-- Number one of a group is the top row, if the order is by falling rank. -/
theorem isTop_of_numberOne (h : RowNumber group le rows numbered)
    (hle : ∀ a b, le a b → group a = group b → rank b ≤ rank a) {r : ρ}
    (hr : r ∈ numberOne numbered) : IsTop group rank rows r := by
  have hr := mem_numberOne.mp hr
  have hrows : r ∈ rows := h.1.mem_iff.mp (mem_map.mpr ⟨_, hr, rfl⟩)
  obtain ⟨sorted, ⟨hsorted, hpairs⟩, hperm⟩ := h.2 (group r)
  have hmem : (r, 1) ∈ sorted.zipIdx 1 :=
    hperm.mem_iff.mp (mem_filter.mpr ⟨hr, decide_eq_true rfl⟩)
  rcases sorted with _ | ⟨f, rest⟩
  · exact absurd hmem not_mem_nil
  · have hfirst : r = f := by
      rw [zipIdx_cons, mem_cons] at hmem
      rcases hmem with hmem | hmem
      · exact congrArg Prod.fst hmem
      · have hlater := le_snd_of_mem_zipIdx hmem
        omega
    subst hfirst
    refine isTop_of_first rest hrows (fun a ha hgroup => ?_) (fun a ha hgroup => ?_)
    · exact mem_cons.mp (hsorted.mem_iff.mpr (mem_filter.mpr ⟨ha, decide_eq_true hgroup⟩))
    · exact hle r a ((pairwise_cons.mp hpairs).1 a ha) hgroup.symm

/-- **Number the rows of each group, then keep number one**: the top rows. -/
theorem mem_rowNumber_iff (hunique : UniqueRanks group rank rows)
    (h : RowNumber group le rows numbered)
    (hle : ∀ a b, le a b → group a = group b → rank b ≤ rank a) {r : ρ} :
    r ∈ numberOne numbered ↔ IsTop group rank rows r := by
  refine ⟨isTop_of_numberOne h hle, fun hr => ?_⟩
  obtain ⟨f, hf, hgroup⟩ := exists_numberOne h hr.1
  rw [hr.unique hunique (isTop_of_numberOne h hle hf) hgroup.symm]
  exact hf

/-- Each group has one row. -/
theorem nodup_numberOne (h : RowNumber group le rows numbered) :
    ((numberOne numbered).map group).Nodup := by
  rw [nodup_iff_count_le_one]
  intro k
  obtain ⟨sorted, -, hperm⟩ := h.2 k
  -- the rows of the group with number one, counted in the arrangement of the group
  have hcount : ((numberOne numbered).map group).count k =
      ((sorted.zipIdx 1).map Prod.snd).count 1 := by
    rw [count_eq_countP, count_eq_countP, countP_map, countP_map, numberOne,
      countP_map, ← hperm.countP_eq, countP_filter, countP_filter]
    refine countP_congr fun x _ => ?_
    simp [and_comm]
  rw [hcount]
  refine nodup_iff_count_le_one.mp ?_ 1
  rw [zipIdx_map_snd]
  exact nodup_range' 1

end Numbers

end Sql
