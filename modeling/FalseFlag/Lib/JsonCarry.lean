/-
  JSON documents that are passed on.

  A store or a wire that "preserves JSON values" does not preserve documents: it sorts members,
  drops all but the last of repeated names and spells numbers its own way.  `Carries R d d'` says
  what is left: the same tree, numbers related by `R`, and in every object each name ONCE, with
  what was last written for it.

  * `carries_norm` — reading a document as a value is one such way to pass it on;
  * `carries_mapNum` — so is printing a value;
  * `Carries.trans` — they compose;
  * `Carries.norm_eq` — and the value read in the end is the value read at the start, as long as the
    numbers are.
-/
import FalseFlag.Lib.JsonTree
import FalseFlag.Lib.Relators

namespace JsonTree

open List Relators Strings
open Prod (fst)

/-! ## Objects in increasing order -/

theorem lt_or_eq_or_gt (a b : String) : a < b ∨ a = b ∨ b < a := by
  by_cases hab : a < b
  · exact .inl hab
  · by_cases hba : b < a
    · exact .inr (.inr hba)
    · exact .inr (.inl (String.le_antisymm (String.not_lt.mp hba) (String.not_lt.mp hab)))

theorem ne_of_lt {a b : String} (h : a < b) : a ≠ b := by
  rintro rfl
  exact String.lt_irrefl a h

/-- Names in increasing order. -/
def Increasing {α : Type} (ms : List (String × α)) : Prop := (ms.map fst).Pairwise (· < ·)

variable {α : Type}

theorem increasing_nil : Increasing ([] : List (String × α)) := List.Pairwise.nil

theorem mem_map_insertMember {k k' : String} {v : α} : ∀ {ms : List (String × α)},
    k' ∈ (insertMember k v ms).map fst → k' = k ∨ k' ∈ ms.map fst
  | [], h => .inl (mem_singleton.mp h)
  | (k1, v1) :: ms, h => by
    rw [insertMember] at h
    split at h
    · exact mem_cons.mp h
    · split at h
      · rcases mem_cons.mp h with h | h
        · exact .inl h
        · exact .inr (mem_cons_of_mem _ h)
      · rcases mem_cons.mp h with h | h
        · exact .inr (h ▸ mem_cons_self)
        · exact (mem_map_insertMember h).imp id (mem_cons_of_mem _)

theorem increasing_insertMember {k : String} {v : α} : ∀ {ms : List (String × α)},
    Increasing ms → Increasing (insertMember k v ms)
  | [], _ => pairwise_singleton _ _
  | (k1, v1) :: ms, h => by
    obtain ⟨hlt, htail⟩ := pairwise_cons.mp h
    rw [insertMember]
    split
    · rename_i hk
      refine pairwise_cons.mpr ⟨fun k' hk' => ?_, h⟩
      rcases mem_cons.mp hk' with rfl | hk'
      · exact hk
      · exact String.lt_trans hk (hlt k' hk')
    · split
      · rename_i hk
        exact pairwise_cons.mpr ⟨hk ▸ hlt, htail⟩
      · rename_i hk hne
        refine pairwise_cons.mpr ⟨fun k' hk' => ?_, increasing_insertMember htail⟩
        rcases mem_map_insertMember hk' with rfl | hk'
        · exact ((lt_or_eq_or_gt k' k1).resolve_left hk).resolve_left hne
        · exact hlt k' hk'

/-- Setting names one after the other, in a map. -/
def setMembers {α : Type} (acc : List (String × α)) (ms : List (String × α)) :
    List (String × α) :=
  ms.foldl (fun acc m => insertMember m.1 m.2 acc) acc

theorem increasing_setMembers : ∀ {ms acc : List (String × α)}, Increasing acc →
    Increasing (setMembers acc ms)
  | [], _, h => h
  | _ :: ms, _, h => @increasing_setMembers ms _ (increasing_insertMember h)

theorem lookup_setMembers (k : String) : ∀ (ms acc : List (String × α)),
    (setMembers acc ms).lookup k = (ms.reverse.lookup k).or (acc.lookup k)
  | [], acc => by simp [setMembers]
  | (k1, v1) :: ms, acc => by
    have ih := lookup_setMembers k ms (insertMember k1 v1 acc)
    rw [lookup_insertMember] at ih
    show (setMembers (insertMember k1 v1 acc) ms).lookup k = _
    rw [ih, reverse_cons, lookup_append]
    rcases ms.reverse.lookup k with _ | v
    · by_cases h : k = k1
      · simp [h]
      · simp [lookup_cons, h, beq_eq_false_iff_ne.mpr h]
    · simp

theorem Increasing.nodup {ms : List (String × α)} (h : Increasing ms) :
    (ms.map fst).Nodup :=
  List.Pairwise.imp (fun hlt => ne_of_lt hlt) h

theorem lookup_eq_none_of_lt {k : String} {ms : List (String × α)}
    (h : ∀ k' ∈ ms.map fst, k < k') : ms.lookup k = none := by
  rw [lookup_eq_none_iff]
  intro m hm
  exact bne_iff_ne.mpr (ne_of_lt (h m.1 (mem_map_of_mem hm)))

/-- **Two objects in increasing order that hold the same under every name are equal.** -/
theorem Increasing.ext : ∀ {ms ns : List (String × α)}, Increasing ms → Increasing ns →
    (∀ k, ms.lookup k = ns.lookup k) → ms = ns
  | [], [], _, _, _ => rfl
  | [], (k, v) :: ns, _, _, h => by
    have hk := h k
    simp at hk
  | (k, v) :: ms, [], _, _, h => by
    have hk := h k
    simp at hk
  | (k, v) :: ms, (l, w) :: ns, hms, hns, h => by
    obtain ⟨hk, hms'⟩ := pairwise_cons.mp hms
    obtain ⟨hl, hns'⟩ := pairwise_cons.mp hns
    -- the least names agree: each is found on the other side
    have hkl : k = l := by
      rcases lt_or_eq_or_gt k l with hlt | heq | hlt
      · have hnone : ((l, w) :: ns).lookup k = none :=
          lookup_eq_none_of_lt fun k' hk' => by
            rcases mem_cons.mp hk' with rfl | hk'
            · exact hlt
            · exact String.lt_trans hlt (hl k' hk')
        have hfound := h k
        rw [hnone, lookup_cons_self] at hfound
        nomatch hfound
      · exact heq
      · have hnone : ((k, v) :: ms).lookup l = none :=
          lookup_eq_none_of_lt fun k' hk' => by
            rcases mem_cons.mp hk' with rfl | hk'
            · exact hlt
            · exact String.lt_trans hlt (hk k' hk')
        have hfound := h l
        rw [hnone, lookup_cons_self] at hfound
        nomatch hfound
    subst hkl
    have hvw := h k
    rw [lookup_cons_self, lookup_cons_self] at hvw
    injection hvw with hvw
    subst hvw
    refine congrArg _ (Increasing.ext hms' hns' fun k' => ?_)
    by_cases hk' : k' = k
    · subst hk'
      rw [lookup_eq_none_of_lt hk, lookup_eq_none_of_lt hl]
    · have h' := h k'
      rwa [lookup_cons, beq_eq_false_iff_ne.mpr hk', lookup_cons,
        beq_eq_false_iff_ne.mpr hk'] at h'

namespace Json

variable {N M L : Type}

theorem increasing_normMembers (f : N → M) : ∀ (ms : List (String × Json N))
    {acc : List (String × Json M)}, Increasing acc → Increasing (normMembers f acc ms)
  | [], _, h => by rwa [normMembers]
  | (k, v) :: ms, _, h => by
    rw [normMembers]
    exact increasing_normMembers f ms (increasing_insertMember h)

section Lookup

variable {κ α : Type} [DecidableEq κ]

variable {ms : List (κ × α)}

/-- Without repeats, the last occurrence is the first. -/
theorem lookup_reverse_of_nodup (h : (ms.map fst).Nodup) (k : κ) :
    ms.reverse.lookup k = ms.lookup k := by
  induction ms with
  | nil => rfl
  | cons m ms ih =>
    obtain ⟨l, v⟩ := m
    obtain ⟨hl, hms⟩ := nodup_cons.mp h
    rw [reverse_cons, lookup_append, ih hms]
    by_cases hk : k = l
    · subst hk
      have hnone : ms.lookup k = none := by
        rw [lookup_eq_none_iff]
        intro m hm
        refine bne_iff_ne.mpr fun heq => hl ?_
        exact mem_map.mpr ⟨m, hm, heq.symm⟩
      simp [hnone]
    · simp [lookup_cons, beq_eq_false_iff_ne.mpr hk]

theorem mem_of_lookup {k : κ} {v : α} : ∀ {ms : List (κ × α)},
    ms.lookup k = some v → (k, v) ∈ ms
  | [], h => nomatch h
  | (l, w) :: ms, h => by
    by_cases hk : k = l
    · subst hk
      rw [lookup_cons_self] at h
      injection h with h
      exact h ▸ mem_cons_self
    · rw [lookup_cons, beq_eq_false_iff_ne.mpr hk] at h
      exact mem_cons_of_mem _ (mem_of_lookup h)

theorem lookup_of_mem {m : κ × α} : ∀ {ms : List (κ × α)},
    (ms.map fst).Nodup → m ∈ ms → ms.lookup m.1 = some m.2
  | [], _, hm => absurd hm not_mem_nil
  | (l, w) :: ms, h, hm => by
    obtain ⟨hl, hms⟩ := nodup_cons.mp h
    rcases mem_cons.mp hm with rfl | hm
    · exact lookup_cons_self
    · have hne : m.1 ≠ l := fun heq => hl (mem_map.mpr ⟨m, hm, heq⟩)
      rw [lookup_cons, beq_eq_false_iff_ne.mpr hne]
      exact lookup_of_mem hms hm

theorem lookup_eq_some_iff (h : (ms.map fst).Nodup) {k : κ} {v : α} :
    ms.lookup k = some v ↔ (k, v) ∈ ms :=
  ⟨mem_of_lookup, fun hm => lookup_of_mem h hm⟩

/-- The order of the members does not matter. -/
theorem lookup_perm {ns : List (κ × α)} (h : ms.Perm ns) (hms : (ms.map fst).Nodup) (k : κ) :
    ms.lookup k = ns.lookup k := by
  have hns : (ns.map fst).Nodup := (h.map fst).nodup_iff.mp hms
  ext v
  rw [lookup_eq_some_iff hms, lookup_eq_some_iff hns, h.mem_iff]

end Lookup

/-! ## Printing a value -/

variable {S T : Type} [DecidableEq S]

theorem names_mapMembers (f : N → M) (ms : List (String × Json N)) :
    (replaceMembers (fun n => .num (f n)) id ms).map fst = ms.map fst := by
  rw [replaceMembers_eq_map, map_map]
  rfl

/-- A member is found under its new name, if no other name became that. -/
theorem lookup_replaceMembers [DecidableEq T] (f : N → Json M T) (t : S → T) {k : S} :
    ∀ {ms : List (S × Json N S)}, (∀ m ∈ ms, t m.1 = t k → m.1 = k) →
      (replaceMembers f t ms).lookup (t k) = (ms.lookup k).map (replace f t)
  | [], _ => rfl
  | (l, v) :: ms, h => by
    obtain ⟨hl, hms⟩ := forall_mem_cons.mp h
    rw [replaceMembers, lookup_cons_ite, lookup_cons_ite, lookup_replaceMembers f t hms]
    by_cases hk : k = l
    · rw [if_pos hk, if_pos (by rw [hk])]
      rfl
    · rw [if_neg hk, if_neg fun h => hk (hl h.symm).symm]

theorem lookup_mapMembers (f : N → M) (k : String) (ms : List (String × Json N)) :
    (replaceMembers (fun n => .num (f n)) id ms).lookup k = (ms.lookup k).map (mapNum f) :=
  lookup_replaceMembers _ id fun _ _ h => h

/-! ## Passing a document on -/

/-- `d'` is what `d` is passed on as, if numbers are passed on by `R`. -/
inductive Carries (R : N → M → Prop) : Json N S → Json M S → Prop
  | null : Carries R .null .null
  | bool (b : Bool) : Carries R (.bool b) (.bool b)
  | num {n : N} {m : M} : R n m → Carries R (.num n) (.num m)
  | str (s : S) : Carries R (.str s) (.str s)
  | arr {xs : List (Json N S)} {ys : List (Json M S)} : Forall₂ (Carries R) xs ys →
      Carries R (.arr xs) (.arr ys)
  | obj {ms : List (S × Json N S)} {ns : List (S × Json M S)} :
      (ns.map fst).Nodup →
      (∀ k, Option.Rel (Carries R) (ms.reverse.lookup k) (ns.lookup k)) →
      Carries R (.obj ms) (.obj ns)

variable {R : N → M → Prop}

theorem Carries.mono {R' : N → M → Prop} (hR : ∀ n m, R n m → R' n m) (a : Json N S) :
    ∀ {b : Json M S}, Carries R a b → Carries R' a b := by
  induction a with
  | null =>
    rintro b ⟨⟩
    exact .null
  | bool x =>
    rintro b ⟨⟩
    exact .bool x
  | num n =>
    rintro b ⟨⟩
    rename_i m hnm
    exact .num (hR n m hnm)
  | str s =>
    rintro b ⟨⟩
    exact .str s
  | arr items ih =>
    rintro b (_ | _ | _ | _ | hab | _)
    exact .arr (forall₂_imp (fun x hx y h => ih x hx h) hab)
  | obj members ih =>
    rintro b (_ | _ | _ | _ | _ | ⟨hns, hab⟩)
    refine .obj hns fun k => rel_imp (hab k) fun v w hv hvw => ?_
    exact ih (k, v) (mem_reverse.mp (mem_of_lookup hv)) hvw

/-- Reading a document as a value passes it on. -/
theorem carries_norm (f : N → M) (d : Json N) : Carries (fun n m => m = f n) d (d.norm f) := by
  induction d with
  | null => exact .null
  | bool b => exact .bool b
  | num n => exact .num rfl
  | str s => exact .str s
  | arr items ih =>
    rw [norm, normItems_eq_map]
    exact .arr (forall₂_map_right ih)
  | obj members ih =>
    rw [norm]
    refine .obj (increasing_normMembers f members increasing_nil).nodup fun k => ?_
    rw [lookup_normMembers]
    rcases hk : members.reverse.lookup k with _ | v
    · exact .none
    · exact .some (ih (k, v) (mem_reverse.mp (mem_of_lookup hk)))

/-- A member that arrived was the last of its name. -/
theorem exists_member {R : Json N S → Json M S → Prop} {members : List (S × Json N S)}
    {ns : List (S × Json M S)} (hns : (ns.map fst).Nodup)
    (hab : ∀ k, Option.Rel R (members.reverse.lookup k) (ns.lookup k)) {m : S × Json M S}
    (hm : m ∈ ns) : ∃ v, (m.1, v) ∈ members ∧ R v m.2 := by
  have hm' := hab m.1
  rw [lookup_of_mem hns hm] at hm'
  rcases hv : members.reverse.lookup m.1 with _ | v
  · rw [hv] at hm'
    cases hm'
  · rw [hv] at hm'
    cases hm' with
    | some hvm => exact ⟨v, mem_reverse.mp (mem_of_lookup hv), hvm⟩

/-- What is passed on has each name once. -/
theorem Carries.noDup (a : Json N S) :
    ∀ {b : Json M S}, Carries R a b → NoDup b := by
  induction a with
  | null =>
    rintro b ⟨⟩
    exact .null
  | bool x =>
    rintro b ⟨⟩
    exact .bool x
  | num n =>
    rintro b ⟨⟩
    exact .num _
  | str s =>
    rintro b ⟨⟩
    exact .str s
  | arr items ih =>
    rintro b (_ | _ | _ | _ | hab | _)
    refine .arr fun y hy => ?_
    obtain ⟨x, hx, hxy⟩ := exists_of_forall₂ hab.flip y hy
    exact ih x hx hxy
  | obj members ih =>
    rintro b (_ | _ | _ | _ | _ | @⟨_, ns, hns, hab⟩)
    refine .obj hns fun m hm => ?_
    obtain ⟨v, hmem, hvm⟩ := exists_member hns hab hm
    exact ih (m.1, v) hmem hvm

/-- A value has each name once. -/
theorem noDup_norm (f : N → M) (d : Json N) : NoDup (d.norm f) := (carries_norm f d).noDup d

/-- Printing a value passes it on. -/
theorem carries_mapNum (f : N → M) {v : Json N} (h : NoDup v) :
    Carries (fun n m => m = f n) v (v.mapNum f) := by
  induction v with
  | null => exact .null
  | bool b => exact .bool b
  | num n => exact .num rfl
  | str s => exact .str s
  | arr items ih =>
    cases h with
    | arr h =>
      rw [mapNum, replace, replaceItems_eq_map]
      exact .arr (forall₂_map_right fun x hx => ih x hx (h x hx))
  | obj members ih =>
    cases h with
    | obj hnodup h =>
      rw [mapNum, replace]
      refine .obj (by rwa [names_mapMembers]) fun k => ?_
      rw [lookup_mapMembers, lookup_reverse_of_nodup hnodup]
      rcases hk : members.lookup k with _ | w
      · exact .none
      · exact .some (ih (k, w) (mem_of_lookup hk) (h (k, w) (mem_of_lookup hk)))

/-- **Passing on twice is passing on.** -/
theorem Carries.trans {S : M → L → Prop} (a : Json N) : ∀ {b : Json M}
    {c : Json L}, Carries R a b → Carries S b c → Carries (fun n l => ∃ m, R n m ∧ S m l) a c := by
  induction a with
  | null =>
    rintro b c ⟨⟩ ⟨⟩
    exact .null
  | bool x =>
    rintro b c ⟨⟩ ⟨⟩
    exact .bool x
  | num n =>
    rintro b c ⟨⟩ ⟨⟩
    rename_i m hnm l hml
    exact .num ⟨m, hnm, hml⟩
  | str s =>
    rintro b c ⟨⟩ ⟨⟩
    exact .str s
  | arr items ih =>
    rintro b c (_ | _ | _ | _ | hab | _) hbc
    cases hbc with
    | arr hbc =>
      exact .arr (forall₂_trans (R := Carries R) (S := Carries S) (fun x hx _ _ h h' => ih x hx h h')
        hab hbc)
  | obj members ih =>
    rintro b c (_ | _ | _ | _ | _ | ⟨hns, hab⟩) hbc
    cases hbc with
    | obj hls hbc =>
      refine .obj hls fun k => rel_trans (fun v b c hv h h' => ?_) (hab k)
        (lookup_reverse_of_nodup hns k ▸ hbc k)
      exact ih (k, v) (mem_reverse.mp (mem_of_lookup hv)) h h'

/-- What is passed on as a tree of texts is passed on as one text by text: no two names that were
    read are one text. -/
theorem Carries.text [Strings S] (d : Json N S) : ∀ {b : Json M S},
    Carries R d b → b.Textual → Carries R d.text b.text := by
  induction d with
  | null =>
    rintro b ⟨⟩ -
    exact .null
  | bool x =>
    rintro b ⟨⟩ -
    exact .bool x
  | num n =>
    rintro b ⟨⟩ -
    rename_i hnm
    exact .num hnm
  | str s =>
    rintro b ⟨⟩ -
    exact .str _
  | arr items ih =>
    rintro b (_ | _ | _ | _ | @⟨_, ys, hab⟩ | _) hb
    rw [textual_arr] at hb
    rw [Json.text, replace, replaceItems_eq_map, Json.text, replace, replaceItems_eq_map]
    refine .arr (forall₂_map_left_iff.mpr (forall₂_map_right_iff.mpr ?_))
    exact forall₂_imp_mem (fun x hx y hy h => ih x hx h (hb y hy)) hab
  | obj members ih =>
    rintro b (_ | _ | _ | _ | _ | @⟨_, ns, hns, hab⟩) hb
    rw [textual_obj] at hb
    have hname : ∀ m ∈ members, ofText (Strings.text m.1) = m.1 := by
      intro m hm
      rcases hv : members.reverse.lookup m.1 with _ | v
      · exact absurd rfl (bne_iff_ne.mp (lookup_eq_none_iff.mp hv m (mem_reverse.mpr hm)))
      · have hrel := hab m.1
        rw [hv] at hrel
        obtain ⟨w, hw, -⟩ := rel_some hrel
        exact (hb _ (mem_of_lookup hw)).1
    rw [Json.text, replace, Json.text, replace]
    refine .obj ?_ fun k => ?_
    · rw [replaceMembers_eq_map, map_map]
      have hinj : ∀ x ∈ ns.map fst, ∀ y ∈ ns.map fst,
          Strings.text x = Strings.text y → x = y := by
        intro x hx y hy hxy
        obtain ⟨n, hn, rfl⟩ := mem_map.mp hx
        obtain ⟨n', hn', rfl⟩ := mem_map.mp hy
        rw [← (hb n hn).1, hxy, (hb n' hn').1]
      have hmap := hns.map_on hinj
      rwa [map_map] at hmap
    · -- the text `k` is read from one name only
      have hk := hab (ofText k)
      have htext : k = Strings.text (ofText k : S) := (text_ofText k).symm
      have hreverse : (replaceMembers .num Strings.text members).reverse =
          replaceMembers (.num : N → Json N) Strings.text members.reverse := by
        rw [replaceMembers_eq_map, replaceMembers_eq_map, map_reverse]
      rw [htext, hreverse, lookup_replaceMembers, lookup_replaceMembers]
      · rcases hv : members.reverse.lookup (ofText k) with _ | v
        · rw [hv] at hk
          rw [rel_none hk]
          exact .none
        · rw [hv] at hk
          obtain ⟨w, hw, hvw⟩ := rel_some hk
          rw [hw]
          exact .some (ih _ (mem_reverse.mp (mem_of_lookup hv)) hvw (hb _ (mem_of_lookup hw)).2)
      · intro n hn h
        rw [← (hb n hn).1, h, text_ofText]
      · intro m hm h
        rw [← hname m (mem_reverse.mp hm), h, text_ofText]

/-- **The value that is read in the end.** -/
theorem Carries.norm_eq {f : N → L} {g : M → L} (hR : ∀ n m, R n m → g m = f n)
    (a : Json N) : ∀ {b : Json M}, Carries R a b → b.norm g = a.norm f := by
  induction a with
  | null =>
    rintro b ⟨⟩
    rfl
  | bool x =>
    rintro b ⟨⟩
    rfl
  | num n =>
    rintro b ⟨⟩
    rename_i m hnm
    rw [norm, norm, hR n m hnm]
  | str s =>
    rintro b ⟨⟩
    rfl
  | arr items ih =>
    rintro b (_ | _ | _ | _ | @⟨_, ys, hab⟩ | _)
    have heq : Forall₂ Eq (items.map (norm f)) (ys.map (norm g)) := by
      rw [forall₂_map_left_iff, forall₂_map_right_iff]
      exact forall₂_imp (fun x hx y h => (ih x hx h).symm) hab
    rw [forall₂_eq_eq_eq] at heq
    rw [norm, norm, normItems_eq_map, normItems_eq_map, heq]
  | obj members ih =>
    rintro b (_ | _ | _ | _ | _ | @⟨_, ns, hns, hab⟩)
    rw [norm, norm]
    refine congrArg _ (Increasing.ext (increasing_normMembers g _ increasing_nil)
      (increasing_normMembers f _ increasing_nil) fun k => ?_)
    rw [lookup_normMembers, lookup_normMembers, lookup_reverse_of_nodup hns]
    have hk := hab k
    rcases hv : members.reverse.lookup k with _ | v
    · rw [hv] at hk
      rw [rel_none hk]
      rfl
    · rw [hv] at hk
      obtain ⟨w, hw, hvw⟩ := rel_some hk
      rw [hw, Option.map_some, Option.map_some,
        ih (k, v) (mem_reverse.mp (mem_of_lookup hv)) hvw]

/-- A canonical form is its own. -/
theorem norm_norm (f : N → M) (d : Json N) : (d.norm f).norm id = d.norm f :=
  Carries.norm_eq (fun _ _ h => h) d (carries_norm f d)

end Json

end JsonTree
