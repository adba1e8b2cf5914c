/-
  Numbered rows.

  A table that numbers the rows of each owner `1, 2, 3, …` in the order they are inserted: the next
  number is `MAX(version) + 1`, the latest row is the one with the greatest number, and nothing is
  ever changed or removed.  A `Log` is such a table; that numbers grow with time is part of it.

  * `latest_spec` — the latest row is there, and is as new as any;
  * `Log.Numbered` — the numbers of an owner are `1, …, n`, which inserting keeps;
  * **`covers_iff`** — a read of the newest rows holds everything another read held, at the same
    number or a later one, exactly if it was taken no earlier.
-/
import Mathlib.Data.List.Basic

namespace Versioned

open List

variable {ρ ρ' κ : Type}

/-- The row with the greatest number. -/
def newest (version : ρ → Nat) : List ρ → Option ρ
  | [] => none
  | r :: rs =>
    match newest version rs with
    | none => some r
    | some b => if version b < version r then some r else some b

/-- The greatest number, or 0. -/
def greatest : List Nat → Nat
  | [] => 0
  | n :: ns => max n (greatest ns)

theorem le_greatest {n : Nat} : ∀ {ns : List Nat}, n ∈ ns → n ≤ greatest ns
  | [], h => absurd h not_mem_nil
  | m :: ns, h => by
    rw [greatest]
    rcases mem_cons.mp h with rfl | h
    · exact Nat.le_max_left _ _
    · exact Nat.le_trans (le_greatest h) (Nat.le_max_right _ _)

theorem newest_eq_none {version : ρ → Nat} : ∀ {rs : List ρ}, newest version rs = none ↔ rs = []
  | [] => by simp [newest]
  | r :: rs => by
    rw [newest]
    rcases newest version rs with _ | b
    · simp
    · simp only [reduceCtorEq, iff_false]
      split <;> simp

/-- The newest row is there and is as new as any. -/
theorem newest_spec {version : ρ → Nat} : ∀ {rs : List ρ} {r : ρ}, newest version rs = some r →
    r ∈ rs ∧ ∀ a ∈ rs, version a ≤ version r
  | [], _, h => nomatch h
  | r0 :: rs, r, h => by
    rw [newest] at h
    rcases hb : newest version rs with _ | b
    · rw [hb] at h
      injection h with h
      rw [newest_eq_none.mp hb, h]
      exact ⟨mem_singleton_self _, fun a ha => (mem_singleton.mp ha) ▸ Nat.le_refl _⟩
    · rw [hb] at h
      obtain ⟨hmem, hle⟩ := newest_spec hb
      simp only at h
      split at h
      · rename_i hlt
        injection h with h
        subst h
        refine ⟨mem_cons_self, fun a ha => ?_⟩
        rcases mem_cons.mp ha with rfl | ha
        · exact Nat.le_refl _
        · exact Nat.le_trans (hle a ha) (Nat.le_of_lt hlt)
      · rename_i hlt
        injection h with h
        subst h
        refine ⟨mem_cons_of_mem _ hmem, fun a ha => ?_⟩
        rcases mem_cons.mp ha with rfl | ha
        · exact Nat.not_lt.mp hlt
        · exact hle a ha

/-- Rows that are related, numbers included, have newest rows that are. -/
theorem newest_rel {R : ρ → ρ' → Prop} {version : ρ → Nat} {version' : ρ' → Nat}
    (hR : ∀ a b, R a b → version a = version' b) {as : List ρ} {bs : List ρ'}
    (h : Forall₂ R as bs) : Option.Rel R (newest version as) (newest version' bs) := by
  induction h with
  | nil => exact .none
  | @cons a b as bs hab _ ih =>
    rw [newest, newest]
    generalize newest version as = o, newest version' bs = o' at ih
    cases ih with
    | none => exact .some hab
    | some hnew =>
      simp only [hR _ _ hab, hR _ _ hnew]
      split
      · exact .some hab
      · exact .some hnew

/-! ## Growing numbers -/

section Growing

variable {owner : ρ → κ} {version : ρ → Nat}

/-- The numbers of each owner grow. -/
def Growing (owner : ρ → κ) (version : ρ → Nat) (rows : List ρ) : Prop :=
  rows.Pairwise fun a b => owner a = owner b → version a < version b

/-- `r` is the newest row of its owner. -/
def IsNewest (owner : ρ → κ) (version : ρ → Nat) (rows : List ρ) (r : ρ) : Prop :=
  r ∈ rows ∧ ∀ a ∈ rows, owner a = owner r → version a ≤ version r

/-- The last row is the newest of its owner, and newer than all before it. -/
theorem Growing.last {rows : List ρ} {r : ρ} (h : Growing owner version (rows ++ [r])) :
    IsNewest owner version (rows ++ [r]) r ∧ ∀ a ∈ rows, owner a = owner r → version a < version r := by
  have hlt : ∀ a ∈ rows, owner a = owner r → version a < version r := fun a ha =>
    (pairwise_append.mp h).2.2 a ha r (mem_singleton_self r)
  refine ⟨⟨mem_append_right _ (mem_singleton_self r), fun a ha hao => ?_⟩, hlt⟩
  rcases mem_append.mp ha with ha | ha
  · exact Nat.le_of_lt (hlt a ha hao)
  · exact mem_singleton.mp ha ▸ Nat.le_refl _

/-- A row is known by its owner and its number. -/
theorem Growing.eq {rows : List ρ} (h : Growing owner version rows) {a b : ρ} (ha : a ∈ rows)
    (hb : b ∈ rows) (howner : owner a = owner b) (hversion : version a = version b) : a = b := by
  induction rows with
  | nil => exact absurd ha not_mem_nil
  | cons r rows ih =>
    obtain ⟨hr, hrows⟩ := pairwise_cons.mp h
    rcases mem_cons.mp ha with rfl | ha' <;> rcases mem_cons.mp hb with rfl | hb'
    · rfl
    · have := hr b hb' howner
      omega
    · have := hr a ha' howner.symm
      omega
    · exact ih hrows ha' hb'

end Growing

variable [DecidableEq κ]

/-! ## The table -/

/-- Rows in the order they were inserted. -/
structure Log (owner : ρ → κ) (version : ρ → Nat) where
  rows : List ρ
  increasing : Growing owner version rows

namespace Log

variable {owner : ρ → κ} {version : ρ → Nat} (l : Log owner version)

def empty : Log owner version := ⟨[], List.Pairwise.nil⟩

/-- The rows of an owner. -/
def of (k : κ) : List ρ := l.rows.filter (owner · = k)

/-- `COALESCE(MAX(version), 0) + 1`. -/
def next (k : κ) : Nat := greatest ((l.of k).map version) + 1

/-- `ORDER BY version DESC LIMIT 1`. -/
def latest (k : κ) : Option ρ := newest version (l.of k)

theorem mem_of {k : κ} {r : ρ} : r ∈ l.of k ↔ r ∈ l.rows ∧ owner r = k := by
  simp [of]

theorem version_lt_next {k : κ} {r : ρ} (hr : r ∈ l.of k) : version r < l.next k :=
  Nat.lt_succ_of_le (le_greatest (mem_map_of_mem hr))

/-- Insert a row with the next number. -/
def append (r : ρ) (h : version r = l.next (owner r)) : Log owner version where
  rows := l.rows ++ [r]
  increasing := by
    rw [Growing, pairwise_append]
    refine ⟨l.increasing, pairwise_singleton _ _, ?_⟩
    intro a ha b hb hab
    rw [mem_singleton.mp hb] at hab ⊢
    rw [h]
    exact l.version_lt_next (l.mem_of.mpr ⟨ha, hab⟩)

variable {l} {r : ρ} {h : version r = l.next (owner r)}

@[simp] theorem mem_rows_append {a : ρ} : a ∈ (l.append r h).rows ↔ a ∈ l.rows ∨ a = r := by
  simp [append]

/-- A new row is the last one of its owner. -/
theorem of_append (k : κ) : (l.append r h).of k = l.of k ++ [r].filter (owner · = k) := by
  simp [of, append]

/-- No row of an owner comes twice. -/
theorem nodup_of (k : κ) : (l.of k).Nodup := by
  refine (List.Pairwise.filter _ l.increasing).imp_of_mem fun {a b} ha hb hab heq => ?_
  have howner : owner a = owner b := congrArg owner heq
  exact absurd (heq ▸ hab howner) (Nat.lt_irrefl _)

/-- The latest row of an owner is one of its rows, and as new as any. -/
theorem latest_spec {k : κ} (hr : l.latest k = some r) :
    r ∈ l.rows ∧ owner r = k ∧ ∀ a ∈ l.rows, owner a = k → version a ≤ version r := by
  obtain ⟨hmem, hle⟩ := newest_spec hr
  obtain ⟨hrows, howner⟩ := l.mem_of.mp hmem
  exact ⟨hrows, howner, fun a ha hak => hle a (l.mem_of.mpr ⟨ha, hak⟩)⟩

theorem latest_eq_none {k : κ} (hk : l.latest k = none) {a : ρ} (ha : a ∈ l.rows) :
    owner a ≠ k := by
  intro hak
  have hnil : l.of k = [] := newest_eq_none.mp hk
  have hmem := l.mem_of.mpr ⟨ha, hak⟩
  rw [hnil] at hmem
  exact not_mem_nil hmem

end Log

/-! ## Numbers without gaps -/

theorem greatest_range' (n : Nat) : greatest (List.range' 1 n) = n := by
  have hgreatest : ∀ n k : Nat, 0 < n → greatest (List.range' k n) = k + n - 1 := by
    intro n
    induction n with
    | zero => exact fun k h => absurd h (Nat.lt_irrefl 0)
    | succ n ih =>
      intro k _
      rw [range'_succ, greatest]
      rcases Nat.eq_zero_or_pos n with rfl | hn
      · simp [greatest]
      · rw [ih (k + 1) hn]
        omega
  rcases Nat.eq_zero_or_pos n with rfl | hn
  · rfl
  · rw [hgreatest n 1 hn]
    omega

namespace Log

variable {owner : ρ → κ} {version : ρ → Nat}

/-- The numbers of each owner are `1, …, n`, in the order the rows were inserted. -/
def Numbered (l : Log owner version) : Prop :=
  ∀ k, (l.of k).map version = List.range' 1 (l.of k).length

variable {l : Log owner version}

theorem numbered_empty : (empty : Log owner version).Numbered := fun _ => rfl

theorem Numbered.next (h : l.Numbered) (k : κ) : l.next k = (l.of k).length + 1 := by
  rw [Log.next, h k, greatest_range']

/-- Inserting keeps the numbers without gaps. -/
theorem Numbered.append (h : l.Numbered) {r : ρ} (hr : version r = l.next (owner r)) :
    (l.append r hr).Numbered := by
  intro k
  rw [of_append]
  by_cases hk : owner r = k
  · subst hk
    have hfilter : [r].filter (owner · = owner r) = [r] := by simp
    rw [hfilter, map_append, h, length_append, map_singleton, hr, h.next,
      length_singleton, range'_concat, Nat.one_mul, Nat.add_comm 1]
  · have hfilter : [r].filter (owner · = k) = [] := by simp [hk]
    rw [hfilter, append_nil]
    exact h k

/-- The latest row of an owner is the row with number `n`. -/
theorem Numbered.latest_iff (h : l.Numbered) {k : κ} {r : ρ} :
    l.latest k = some r ↔ r ∈ l.of k ∧ version r = (l.of k).length := by
  have hbound : ∀ a ∈ l.of k, version a ≤ (l.of k).length := by
    intro a ha
    have hmem : version a ∈ (l.of k).map version := mem_map_of_mem ha
    rw [h k, mem_range'_1] at hmem
    omega
  constructor
  · intro hr
    obtain ⟨hmem, hle⟩ := newest_spec hr
    refine ⟨hmem, Nat.le_antisymm (hbound r hmem) ?_⟩
    -- the row with number `n` is there
    have hn : (l.of k).length ∈ (l.of k).map version := by
      have hpos := length_pos_of_mem hmem
      rw [h k, mem_range'_1]
      omega
    obtain ⟨a, ha, hversion⟩ := mem_map.mp hn
    rw [← hversion]
    exact hle a ha
  · rintro ⟨hmem, hversion⟩
    rcases hr : l.latest k with _ | r'
    · rw [newest_eq_none.mp hr] at hmem
      exact absurd hmem not_mem_nil
    · obtain ⟨hmem', hle⟩ := newest_spec hr
      have hsame : version r' = version r :=
        Nat.le_antisymm (hversion ▸ hbound r' hmem') (hle r hmem)
      obtain ⟨hrows, howner⟩ := l.mem_of.mp hmem
      obtain ⟨hrows', howner'⟩ := l.mem_of.mp hmem'
      rw [Growing.eq l.increasing hrows' hrows (howner'.trans howner.symm) hsame]

end Log

/-! ## Reading the newest rows -/

section Reads

variable (owner : ρ → κ) (version : ρ → Nat)

/-- Each of `rs` is among `rs'`, in the same state or a later one. -/
def Covers (rs rs' : ρ → Prop) : Prop :=
  ∀ r, rs r → ∃ r', rs' r' ∧ owner r' = owner r ∧ version r ≤ version r'

variable {owner version}

/-- Every row has a newest one of its owner. -/
theorem exists_isNewest {rows : List ρ} {r : ρ} (hr : r ∈ rows) :
    ∃ r', IsNewest owner version rows r' ∧ owner r' = owner r ∧ version r ≤ version r' := by
  have hmem : r ∈ rows.filter (owner · = owner r) := by simp [hr]
  rcases hnew : newest version (rows.filter (owner · = owner r)) with _ | r'
  · rw [newest_eq_none.mp hnew] at hmem
    exact absurd hmem not_mem_nil
  · obtain ⟨hr', hle⟩ := newest_spec hnew
    simp only [mem_filter, decide_eq_true_eq] at hr' hle
    exact ⟨r', ⟨hr'.1, fun a ha hao => hle a ⟨ha, hao.trans hr'.2⟩⟩, hr'.2, hle r ⟨hr, rfl⟩⟩

/-- **A read of the first `m` rows covers one of the first `n` exactly if it is no earlier.** -/
theorem Growing.covers_iff {rows : List ρ} (h : Growing owner version rows) {n m : Nat}
    (hn : n ≤ rows.length) :
    Covers owner version (IsNewest owner version (rows.take n)) (IsNewest owner version (rows.take m)) ↔
      n ≤ m := by
  constructor
  · intro hcovers
    by_contra hlt
    -- the row at `n - 1` is the newest of its owner in the one read, and too new for the other
    obtain ⟨k, rfl⟩ : ∃ k, n = k + 1 := ⟨n - 1, by omega⟩
    have htake : rows.take (k + 1) = rows.take k ++ [rows[k]] :=
      (take_append_getElem hn).symm
    have hgrowing : Growing owner version (rows.take k ++ [rows[k]]) :=
      htake ▸ h.sublist (take_sublist _ _)
    obtain ⟨hnewest, hall⟩ := hgrowing.last
    obtain ⟨r', hr', howner, hle⟩ := hcovers rows[k] (htake ▸ hnewest)
    have hmem : r' ∈ rows.take k := (take_subset_take_left rows (by omega)) hr'.1
    exact absurd (hall r' hmem howner) (Nat.not_lt.mpr hle)
  · intro hle r hr
    exact exists_isNewest (take_subset_take_left rows hle hr.1)

end Reads

namespace Log

variable {owner : ρ → κ} {version : ρ → Nat} {l : Log owner version}

/-- The latest row of an owner is the newest of its rows. -/
theorem latest_eq_some_iff {k : κ} {r : ρ} :
    l.latest k = some r ↔ IsNewest owner version l.rows r ∧ owner r = k := by
  constructor
  · intro h
    obtain ⟨hr, rfl, hle⟩ := latest_spec h
    exact ⟨⟨hr, hle⟩, rfl⟩
  · rintro ⟨⟨hr, hle⟩, rfl⟩
    rcases h : l.latest (owner r) with _ | r'
    · exact absurd rfl (latest_eq_none h hr)
    · obtain ⟨hr', howner, hle'⟩ := latest_spec h
      have hversion := Nat.le_antisymm (hle r' hr' howner) (hle' r hr rfl)
      rw [Growing.eq l.increasing hr' hr howner hversion]

end Log

end Versioned
