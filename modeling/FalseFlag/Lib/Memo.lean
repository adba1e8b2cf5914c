/-
  A table that is filled on the way.

  `add` computes the entry of a key unless the table has one; `addAll` does so for a list of keys,
  and stops at the first failure.  The table stays `Sound` (an entry is what its key computes to),
  so a key that is met twice costs nothing and changes nothing: `addAll_iff` says that the whole
  fill succeeds iff every key computes, `addAll_lookup` what is found afterwards.
-/
import FalseFlag.Lib.Fallible

namespace Memo

open List Fallible

variable {κ α ε : Type} [BEq κ] (compute : κ → Except ε α)

/-- The entry of a key, unless it is there. -/
def add (table : List (κ × α)) (k : κ) : Except ε (List (κ × α)) :=
  match table.lookup k with
  | some _ => .ok table
  | none => (compute k).map fun v => (k, v) :: table

/-- The entries of a list of keys. -/
def addAll (table : List (κ × α)) (ks : List κ) : Except ε (List (κ × α)) :=
  ks.foldlM (add compute) table

/-- Every entry is what its key computes to. -/
def Sound (table : List (κ × α)) : Prop :=
  ∀ k v, table.lookup k = some v → compute k = .ok v

variable {compute}

theorem addAll_append (table : List (κ × α)) (ks ls : List κ) :
    addAll compute table (ks ++ ls) =
      addAll compute table ks >>= fun table => addAll compute table ls :=
  foldlM_append

/-- The loop succeeds when every key computes. -/
theorem addAll_ok : ∀ {ks : List κ} (table : List (κ × α)), (∀ k ∈ ks, ∃ v, compute k = .ok v) →
    ∃ table', addAll compute table ks = .ok table'
  | [], table, _ => ⟨table, rfl⟩
  | k :: ks, table, h => by
    obtain ⟨v, hv⟩ := h k mem_cons_self
    obtain ⟨table1, h1⟩ : ∃ table1, add compute table k = .ok table1 := by
      unfold add
      rcases table.lookup k with _ | _
      · rw [hv]
        exact ⟨_, rfl⟩
      · exact ⟨_, rfl⟩
    obtain ⟨table2, h2⟩ := addAll_ok table1 fun k' hk' => h k' (mem_cons_of_mem _ hk')
    exact ⟨table2, bind_eq_ok.mpr ⟨table1, h1, h2⟩⟩

variable [LawfulBEq κ]

/-- One step: the key has an entry, the table stays sound and keeps what it has. -/
theorem add_spec {table table' : List (κ × α)} {k : κ} (hsound : Sound compute table)
    (h : add compute table k = .ok table') :
    Sound compute table' ∧ (∃ v, table'.lookup k = some v) ∧
      ∀ k' v, table.lookup k' = some v → table'.lookup k' = some v := by
  unfold add at h
  rcases hk : table.lookup k with _ | v0
  · rw [hk] at h
    obtain ⟨v, hv, rfl⟩ := map_eq_ok.mp h
    refine ⟨?_, ⟨v, lookup_cons_self⟩, ?_⟩
    · intro k' v' hk'
      by_cases heq : k' = k
      · subst heq
        rw [lookup_cons_self] at hk'
        injection hk' with hk'
        rw [hv, hk']
      · rw [lookup_cons, beq_eq_false_iff_ne.mpr heq] at hk'
        exact hsound k' v' hk'
    · intro k' v' hk'
      have heq : k' ≠ k := by
        rintro rfl
        rw [hk] at hk'
        nomatch hk'
      rw [lookup_cons, beq_eq_false_iff_ne.mpr heq]
      exact hk'
  · rw [hk] at h
    injection h with h
    subst h
    exact ⟨hsound, ⟨v0, hk⟩, fun _ _ h => h⟩

/-- The whole loop. -/
theorem addAll_spec : ∀ {ks : List κ} {table table' : List (κ × α)}, Sound compute table →
    addAll compute table ks = .ok table' →
    Sound compute table' ∧ (∀ k ∈ ks, ∃ v, table'.lookup k = some v) ∧
      ∀ k' v, table.lookup k' = some v → table'.lookup k' = some v
  | [], table, table', hsound, h => by
    injection h with h
    subst h
    exact ⟨hsound, fun k hk => absurd hk not_mem_nil, fun _ _ h => h⟩
  | k :: ks, table, table', hsound, h => by
    have h' : (add compute table k >>= fun table => addAll compute table ks) = .ok table' := h
    obtain ⟨table1, h1, h2⟩ := bind_eq_ok.mp h'
    obtain ⟨hsound1, ⟨v, hv⟩, hkeep1⟩ := add_spec hsound h1
    obtain ⟨hsound2, hall, hkeep2⟩ := addAll_spec hsound1 h2
    refine ⟨hsound2, ?_, fun k' v' hk' => hkeep2 k' v' (hkeep1 k' v' hk')⟩
    intro k' hk'
    rcases mem_cons.mp hk' with rfl | hk'
    · exact ⟨v, hkeep2 _ _ hv⟩
    · exact hall k' hk'

/-- **What is found afterwards**: every key, with the value it computes to. -/
theorem addAll_lookup {ks : List κ} {table : List (κ × α)} (h : addAll compute [] ks = .ok table)
    {k : κ} (hk : k ∈ ks) : ∃ v, table.lookup k = some v ∧ compute k = .ok v := by
  have hnil : Sound compute [] := fun k v hk => (nomatch hk)
  obtain ⟨hsound, hall, -⟩ := addAll_spec hnil h
  obtain ⟨v, hv⟩ := hall k hk
  exact ⟨v, hv, hsound k v hv⟩

/-- **The table can be filled iff every key computes.** -/
theorem addAll_iff {ks : List κ} :
    (∃ table, addAll compute [] ks = .ok table) ↔ ∀ k ∈ ks, ∃ v, compute k = .ok v := by
  constructor
  · rintro ⟨table, h⟩ k hk
    obtain ⟨v, -, hv⟩ := addAll_lookup h hk
    exact ⟨v, hv⟩
  · exact fun h => addAll_ok [] h

end Memo
