/-
  When two JSON values are THE SAME.

  An object is written as a list of members, and is meant as a map.  `Same` compares what is meant:
  arrays item by item, objects name by name.  `SameOrder` looks at the writing only: wherever the
  two values both have an object, the names are listed in one order.

  * `same_iff_norm` — `Same` is equality of canonical forms;
  * **`Same.eq_iff`** — two values that are the same are EQUAL, as they are written, iff they are in
    the same order throughout.
-/
import FalseFlag.Lib.JsonCarry

namespace JsonTree

open List Relators Prod

namespace Json

variable {N S : Type}

/-- The same JSON value: objects are maps, all else is compared as it is. -/
inductive Same [DecidableEq S] : Json N S → Json N S → Prop
  | null : Same .null .null
  | bool (b : Bool) : Same (.bool b) (.bool b)
  | num (n : N) : Same (.num n) (.num n)
  | str (s : S) : Same (.str s) (.str s)
  | arr {xs ys : List (Json N S)} : Forall₂ Same xs ys → Same (.arr xs) (.arr ys)
  | obj {ms ns : List (S × Json N S)} :
      (∀ k, Option.Rel Same (ms.lookup k) (ns.lookup k)) → Same (.obj ms) (.obj ns)

/-- Objects at the same place list the same names in the same order. -/
inductive SameOrder : Json N S → Json N S → Prop
  | null (b : Json N S) : SameOrder .null b
  | bool (x : Bool) (b : Json N S) : SameOrder (.bool x) b
  | num (n : N) (b : Json N S) : SameOrder (.num n) b
  | str (s : S) (b : Json N S) : SameOrder (.str s) b
  | arr {xs ys : List (Json N S)} : Forall₂ SameOrder xs ys → SameOrder (.arr xs) (.arr ys)
  | obj {ms ns : List (S × Json N S)} : ms.map fst = ns.map fst →
      Forall₂ SameOrder (ms.map snd) (ns.map snd) → SameOrder (.obj ms) (.obj ns)

theorem NoDup.item {xs : List (Json N S)} (h : NoDup (.arr xs)) {x : Json N S} (hx : x ∈ xs) :
    NoDup x := by
  cases h with
  | arr h => exact h x hx

theorem NoDup.names {ms : List (S × Json N S)} (h : NoDup (.obj ms)) :
    (ms.map fst).Nodup := by
  cases h with
  | obj h _ => exact h

theorem NoDup.member {ms : List (S × Json N S)} (h : NoDup (.obj ms)) {m : S × Json N S}
    (hm : m ∈ ms) : NoDup m.2 := by
  cases h with
  | obj _ h => exact h m hm

theorem same_refl [DecidableEq S] (a : Json N S) : Same a a := by
  induction a with
  | null => exact .null
  | bool x => exact .bool x
  | num n => exact .num n
  | str s => exact .str s
  | arr xs ih => exact .arr (forall₂_same.mpr ih)
  | obj ms ih =>
    refine .obj fun k => ?_
    rcases hv : ms.lookup k with _ | v
    · exact .none
    · exact .some (ih _ (mem_of_lookup hv))

/-- The order of members does not matter. -/
theorem same_of_perm [DecidableEq S] {ms ns : List (S × Json N S)} (h : ms.Perm ns)
    (hms : (ms.map fst).Nodup) : Same (.obj ms) (.obj ns) := by
  cases same_refl (.obj ns) with
  | obj hns => exact .obj fun k => (lookup_perm h hms k).symm ▸ hns k

/-! ## Canonical forms -/

/-- A value is passed on as any value that is the same. -/
theorem Same.carries (a : Json N) : ∀ {b : Json N}, a.NoDup → b.NoDup → Same a b →
    Carries Eq a b := by
  induction a with
  | null =>
    rintro b - - ⟨⟩
    exact .null
  | bool x =>
    rintro b - - ⟨⟩
    exact .bool x
  | num n =>
    rintro b - - ⟨⟩
    exact .num rfl
  | str s =>
    rintro b - - ⟨⟩
    exact .str s
  | arr items ih =>
    rintro b ha hb (_ | _ | _ | _ | @⟨_, ys, hab⟩ | _)
    exact .arr (forall₂_imp_mem (fun x hx y hy h => ih x hx (ha.item hx) (hb.item hy) h) hab)
  | obj members ih =>
    rintro b ha hb (_ | _ | _ | _ | _ | @⟨_, ns, hab⟩)
    refine .obj hb.names fun k => ?_
    rw [lookup_reverse_of_nodup ha.names]
    have hk := hab k
    rcases hv : members.lookup k with _ | v
    · rw [hv] at hk
      rw [rel_none hk]
      exact .none
    · rw [hv] at hk
      obtain ⟨w, hw, hvw⟩ := rel_some hk
      rw [hw]
      have hvm := mem_of_lookup hv
      have hwm := mem_of_lookup hw
      exact .some (ih _ hvm (ha.member hvm) (hb.member hwm) hvw)

theorem same_of_norm_eq (a : Json N) : ∀ {b : Json N}, a.NoDup → b.NoDup →
    a.norm id = b.norm id → Same a b := by
  induction a with
  | null =>
    rintro b - - h
    cases b <;> cases h
    exact .null
  | bool x =>
    rintro b - - h
    cases b <;> cases h
    exact .bool x
  | num n =>
    rintro b - - h
    cases b <;> cases h
    exact .num n
  | str s =>
    rintro b - - h
    cases b <;> cases h
    exact .str s
  | arr xs ih =>
    rintro b ha hb h
    cases b with
    | arr ys =>
      rw [norm, norm, normItems_eq_map, normItems_eq_map] at h
      injection h with h
      rw [← forall₂_eq_eq_eq, forall₂_map_left_iff, forall₂_map_right_iff] at h
      exact .arr (forall₂_imp_mem (fun x hx y hy h => ih x hx (ha.item hx) (hb.item hy) h) h)
    | null | bool _ | num _ | str _ | obj _ => cases h
  | obj ms ih =>
    rintro b ha hb h
    cases b with
    | obj ns =>
      rw [norm, norm] at h
      injection h with h
      refine .obj fun k => ?_
      -- what the canonical forms hold under a name is what the objects do
      have hk := congrArg (·.lookup k) h
      simp only [lookup_normMembers, lookup_reverse_of_nodup ha.names,
        lookup_reverse_of_nodup hb.names, lookup_nil, Option.or_none] at hk
      rcases hv : ms.lookup k with _ | v <;> rcases hw : ns.lookup k with _ | w
      · exact .none
      · rw [hv, hw] at hk
        cases hk
      · rw [hv, hw] at hk
        cases hk
      · rw [hv, hw] at hk
        injection hk with hk
        have hvm := mem_of_lookup hv
        have hwm := mem_of_lookup hw
        exact .some (ih _ hvm (ha.member hvm) (hb.member hwm) hk)
    | null | bool _ | num _ | str _ | arr _ => cases h

/-- Values are the same iff their canonical forms are equal. -/
theorem same_iff_norm {a b : Json N} (ha : a.NoDup) (hb : b.NoDup) :
    Same a b ↔ a.norm id = b.norm id := by
  constructor
  · intro h
    exact (Carries.norm_eq (fun _ _ hnm => hnm.symm) a (h.carries a ha hb)).symm
  · exact same_of_norm_eq a ha hb

/-! ## Order -/

theorem sameOrder_refl (a : Json N S) : SameOrder a a := by
  induction a with
  | null => exact .null _
  | bool x => exact .bool x _
  | num n => exact .num n _
  | str s => exact .str s _
  | arr xs ih => exact .arr (forall₂_same.mpr ih)
  | obj ms ih =>
    refine .obj rfl (forall₂_same.mpr ?_)
    intro v hv
    obtain ⟨m, hm, rfl⟩ := mem_map.mp hv
    exact ih m hm

/-- Lists of members with the same names, in one order, are equal if the values are. -/
theorem members_eq {R : Json N S → Json N S → Prop} : ∀ {ms ns : List (S × Json N S)},
    ms.map fst = ns.map fst → Forall₂ R (ms.map snd) (ns.map snd) →
    (∀ k v w, (k, v) ∈ ms → (k, w) ∈ ns → R v w → v = w) → ms = ns
  | [], [], _, _, _ => rfl
  | (k, v) :: ms, (k', w) :: ns, hnames, hvalues, h => by
    rw [map_cons, map_cons, cons_eq_cons] at hnames
    obtain ⟨rfl, hrest⟩ := hnames
    obtain ⟨hvw, hvalues⟩ := forall₂_cons.mp hvalues
    have heq := h k v w mem_cons_self mem_cons_self hvw
    have htail : ms = ns := members_eq hrest hvalues fun k v w hv hw =>
      h k v w (mem_cons_of_mem _ hv) (mem_cons_of_mem _ hw)
    rw [heq, htail]

/-- Members that both objects have under one name are the same. -/
theorem Same.member [DecidableEq S] {ms ns : List (S × Json N S)} (hms : (ms.map fst).Nodup)
    (hns : (ns.map fst).Nodup) (h : Same (.obj ms) (.obj ns)) {k : S} {v w : Json N S}
    (hv : (k, v) ∈ ms) (hw : (k, w) ∈ ns) : Same v w := by
  cases h with
  | obj h =>
    have hk := h k
    rw [show ms.lookup k = some v from lookup_of_mem hms hv,
      show ns.lookup k = some w from lookup_of_mem hns hw] at hk
    cases hk with
    | some hk => exact hk

theorem Same.eq_of_sameOrder [DecidableEq S] (a : Json N S) :
    ∀ {b : Json N S}, a.NoDup → b.NoDup → Same a b →
    SameOrder a b → a = b := by
  induction a with
  | null =>
    rintro b - - ⟨⟩ -
    rfl
  | bool x =>
    rintro b - - ⟨⟩ -
    rfl
  | num n =>
    rintro b - - ⟨⟩ -
    rfl
  | str s =>
    rintro b - - ⟨⟩ -
    rfl
  | arr xs ih =>
    rintro b ha hb h ho
    cases h with
    | @arr _ ys h =>
      cases ho with
      | arr ho =>
        have hboth : Forall₂ (fun x y => Same x y ∧ SameOrder x y) xs ys :=
          Forall₂.mp (fun _ _ h h' => ⟨h, h'⟩) h ho
        have heq : Forall₂ Eq xs ys :=
          forall₂_imp_mem (fun x hx y hy h => ih x hx (ha.item hx) (hb.item hy) h.1 h.2) hboth
        rw [forall₂_eq_eq_eq] at heq
        rw [heq]
  | obj ms ih =>
    rintro b ha hb h ho
    cases ho with
    | @obj _ ns hnames hvalues =>
      refine congrArg _ (members_eq hnames hvalues fun k v w hv hw ho => ?_)
      exact ih _ hv (ha.member hv) (hb.member hw) (h.member ha.names hb.names hv hw) ho

/-- **Values that are the same are equal as they are written iff they are in the same order.** -/
theorem Same.eq_iff [DecidableEq S] {a b : Json N S} (ha : a.NoDup) (hb : b.NoDup) (h : Same a b) :
    a = b ↔ SameOrder a b := by
  constructor
  · rintro rfl
    exact sameOrder_refl a
  · exact h.eq_of_sameOrder a ha hb

end Json

end JsonTree
