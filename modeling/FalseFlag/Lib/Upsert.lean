/-
  Tables that are updated in place: one entry per key, a new key at the end.

  A `Table` says how an event starts the entry of its key and how it changes that entry.  Putting
  an event looks for the entry with its key, changes it where it stands, or appends a new one.
  * **`keys_run`** — after a run from the empty table, the keys are those of the events in the order
    of their FIRST use, each once (`nodup_keys_run`);
  * **`find_run`** — the entry of a key is what its OWN events make, all others left out.
-/
import Mathlib.Data.List.Induction

namespace Upsert

open List

/-- Entries `α` with a key, and the events `ε` that make and change them. -/
structure Table (κ ε α : Type) where
  keyOf : α → κ
  eventKey : ε → κ
  start : ε → α
  next : ε → α → α
  keyOf_start : ∀ e, keyOf (start e) = eventKey e
  keyOf_next : ∀ e a, keyOf (next e a) = eventKey e

section Tables

variable {κ ε α : Type} (u : Table κ ε α)

/-- What one event makes of an entry that may be there. -/
def Table.meet (e : ε) : Option α → α
  | none => u.start e
  | some a => u.next e a

/-- What events of one key make. -/
def Table.entry (es : List ε) : Option α := es.foldl (fun a e => some (u.meet e a)) none

variable {u} in
theorem entry_concat (es : List ε) (e : ε) :
    u.entry (es ++ [e]) = some (u.meet e (u.entry es)) := by
  rw [Table.entry, foldl_append]
  rfl

variable [DecidableEq κ]

/-- Put one event into a table. -/
def Table.put (e : ε) : List α → List α
  | [] => [u.start e]
  | a :: as => if u.keyOf a = u.eventKey e then u.next e a :: as else a :: Table.put e as

/-- The table after a run. -/
def Table.run (es : List ε) : List α := es.foldl (fun as e => u.put e as) []

variable {u}

/-! ## Keys -/

/-- Putting an event keeps the keys, or appends its own. -/
theorem map_keyOf_put (e : ε) (as : List α) :
    (u.put e as).map u.keyOf = if u.eventKey e ∈ as.map u.keyOf then as.map u.keyOf
      else as.map u.keyOf ++ [u.eventKey e] := by
  induction as with
  | nil => simp [Table.put, u.keyOf_start]
  | cons a as ih =>
    by_cases h : u.keyOf a = u.eventKey e
    · rw [Table.put, if_pos h, if_pos (by simp [h])]
      simp [u.keyOf_next, h]
    · rw [Table.put, if_neg h, map_cons, ih]
      have hmem : u.eventKey e ∈ (a :: as).map u.keyOf ↔ u.eventKey e ∈ as.map u.keyOf := by
        rw [map_cons, mem_cons, or_iff_right (Ne.symm h)]
      by_cases hin : u.eventKey e ∈ as.map u.keyOf
      · rw [if_pos hin, if_pos (hmem.mpr hin), map_cons]
      · rw [if_neg hin, if_neg (mt hmem.mp hin), map_cons, cons_append]

theorem run_concat (es : List ε) (e : ε) : u.run (es ++ [e]) = u.put e (u.run es) := by
  rw [Table.run, foldl_append]
  rfl

/-- One more key in a list without repetitions. -/
theorem eraseDups_concat (ks : List κ) (k : κ) :
    (ks ++ [k]).eraseDups = if k ∈ ks then ks.eraseDups else ks.eraseDups ++ [k] := by
  rw [eraseDups_append]
  by_cases h : k ∈ ks
  · rw [if_pos h]
    simp [List.removeAll, h]
  · rw [if_neg h]
    simp [List.removeAll, h, eraseDups_cons]

/-- **The keys are in the order of their first use.** -/
theorem keys_run (es : List ε) : (u.run es).map u.keyOf = (es.map u.eventKey).eraseDups := by
  induction es using List.reverseRecOn with
  | nil => rfl
  | append_singleton es e ih =>
    rw [run_concat, map_keyOf_put, ih, map_append, map_singleton, eraseDups_concat]
    exact if_congr mem_eraseDups rfl rfl

/-- No key is used twice: putting an event keeps that. -/
theorem nodup_keys_run (es : List ε) : ((u.run es).map u.keyOf).Nodup := by
  induction es using List.reverseRecOn with
  | nil => exact nodup_nil
  | append_singleton es e ih =>
    rw [run_concat, map_keyOf_put]
    by_cases h : u.eventKey e ∈ (u.run es).map u.keyOf
    · rw [if_pos h]
      exact ih
    · rw [if_neg h]
      exact nodup_append.mpr ⟨ih, pairwise_singleton _ _, by
        intro k hk l hl
        rw [mem_singleton.mp hl]
        rintro rfl
        exact h hk⟩

/-! ## Entries -/

/-- Putting an event changes the entry of its key, and no other. -/
theorem find_put (e : ε) (k : κ) (as : List α) :
    (u.put e as).find? (u.keyOf · = k) =
      if u.eventKey e = k then some (u.meet e (as.find? (u.keyOf · = k)))
      else as.find? (u.keyOf · = k) := by
  induction as with
  | nil =>
    by_cases h : u.eventKey e = k
    · simp [Table.put, Table.meet, u.keyOf_start, h]
    · simp [Table.put, u.keyOf_start, h]
  | cons a as ih =>
    by_cases ha : u.keyOf a = u.eventKey e
    · rw [Table.put, if_pos ha]
      by_cases h : u.eventKey e = k
      · simp [Table.meet, u.keyOf_next, ha, h]
      · simp [u.keyOf_next, ha, h]
    · rw [Table.put, if_neg ha]
      by_cases hk : u.keyOf a = k
      · -- the first entry has the key asked for, so the event has another
        have hne : ¬ u.eventKey e = k := fun h => ha (hk.trans h.symm)
        simp [hk, hne]
      · have hskip : ∀ bs : List α, (a :: bs).find? (u.keyOf · = k) = bs.find? (u.keyOf · = k) := by
          intro bs
          rw [find?_cons_of_neg]
          simpa using hk
        rw [hskip, hskip, ih]

/-- **The entry of a key comes from its own events.** -/
theorem find_run (es : List ε) (k : κ) :
    (u.run es).find? (u.keyOf · = k) = u.entry (es.filter (u.eventKey · = k)) := by
  induction es using List.reverseRecOn with
  | nil => rfl
  | append_singleton es e ih =>
    rw [run_concat, find_put, ih, filter_append]
    by_cases h : u.eventKey e = k
    · have hfilter : [e].filter (u.eventKey · = k) = [e] := by simp [h]
      rw [if_pos h, hfilter, entry_concat]
    · have hfilter : [e].filter (u.eventKey · = k) = [] := by simp [h]
      rw [if_neg h, hfilter, append_nil]

/-- What stands in a table without repeated keys is what is found under its key. -/
theorem find_of_mem {as : List α} (hnodup : (as.map u.keyOf).Nodup) {a : α} (ha : a ∈ as) :
    as.find? (u.keyOf · = u.keyOf a) = some a := by
  induction as with
  | nil => cases ha
  | cons b bs ih =>
    rw [map_cons, nodup_cons] at hnodup
    rcases mem_cons.mp ha with rfl | hmem
    · rw [find?_cons_of_pos]
      simp
    · have hne : ¬ u.keyOf b = u.keyOf a := by
        intro h
        exact hnodup.1 (h ▸ mem_map_of_mem hmem)
      rw [find?_cons_of_neg (by simpa using hne)]
      exact ih hnodup.2 hmem

end Tables

end Upsert
