/-
  Reading a record from named members.

  A decoder of records walks the members in the order they come, finds the field a name stands for
  and stores the value there.  The order of the members is the writer's business: a store that
  sorts them, or a writer that leaves out empty fields, must give the reader the same record.
  `Record.decode_eq` says so once for every record type: if no name comes twice, each name is the
  name of a field, the fields that are missing already hold what they should and the ones that are
  there store what they should, then the result is the expected record, WHATEVER the order.
-/
import Mathlib.Data.List.Nodup
import Mathlib.Data.Option.Basic

/-- A record type `S` with fields `φ`, as a decoder sees it: `field` finds the field of a name,
    `set` stores a value (which may depend on what the field held before), and storing into one
    field leaves the others alone. -/
structure Record (S φ V E : Type) where
  Content : φ → Type
  get : (f : φ) → S → Content f
  ext : ∀ {s t : S}, (∀ f, get f s = get f t) → s = t
  field : String → Option φ
  name : φ → String
  field_name : ∀ f, field (name f) = some f
  set : φ → S → V → Except E S
  set_other : ∀ {f g : φ} {s s' : S} {v : V}, set f s v = .ok s' → g ≠ f → get g s' = get g s

namespace Record

open List

variable {S φ V E : Type} (r : Record S φ V E)

/-- Store the members one after the other; names of no field are skipped. -/
def decode (cur : S) : List (String × V) → Except E S
  | [] => .ok cur
  | (name, v) :: ms =>
    match r.field name with
    | none => decode cur ms
    | some f => do
      let s ← r.set f cur v
      decode s ms

theorem name_injective : Function.Injective r.name := by
  intro f g h
  have hf := r.field_name f
  rw [h, r.field_name g] at hf
  injection hf with hf
  exact hf.symm

/-- Field `f` goes from what it is in `cur` to what it is in `p` when the member found for it, if
    any, is `o`. -/
def Reads (cur p : S) (f : φ) (o : Option V) : Prop :=
  (o = none → r.get f cur = r.get f p) ∧
  (∀ v, o = some v → ∀ s, r.get f s = r.get f cur →
    ∃ s', r.set f s v = .ok s' ∧ r.get f s' = r.get f p)

theorem Reads.intro {cur p : S} {f : φ} {o : Option V}
    (h : (o = none ∧ r.get f cur = r.get f p) ∨
      ∃ v, o = some v ∧ ∀ s, r.get f s = r.get f cur →
        ∃ s', r.set f s v = .ok s' ∧ r.get f s' = r.get f p) : r.Reads cur p f o := by
  rcases h with ⟨rfl, h⟩ | ⟨v, rfl, h⟩
  · exact ⟨fun _ => h, fun w hw => nomatch hw⟩
  · refine ⟨fun hv => (nomatch hv), fun w hw => ?_⟩
    injection hw with hw
    exact hw ▸ h

/-- **Members in any order.**  If every field reads `p`'s content then `decode` gives `p`. -/
theorem decode_eq (p : S) : ∀ (ms : List (String × V)) (cur : S),
    (ms.map Prod.fst).Nodup →
    (∀ m ∈ ms, ∃ f, m.1 = r.name f) →
    (∀ f, r.Reads cur p f (ms.lookup (r.name f))) →
    r.decode cur ms = .ok p
  | [], cur, _, _, hreads => by
    rw [decode, r.ext fun f => (hreads f).1 rfl]
  | (name, v) :: ms, cur, hnodup, hnames, hreads => by
    obtain ⟨f, hf⟩ := hnames (name, v) mem_cons_self
    have hf' : name = r.name f := hf
    subst hf'
    rw [map_cons, nodup_cons] at hnodup
    obtain ⟨s, hset, hget⟩ := (hreads f).2 v (by simp) cur rfl
    have hnone : ms.lookup (r.name f) = none := by
      rw [lookup_eq_none_iff]
      intro m hm
      rw [bne_iff_ne]
      intro h
      exact hnodup.1 (mem_map.mpr ⟨m, hm, h.symm⟩)
    simp only [decode, r.field_name f, hset]
    refine decode_eq p ms s hnodup.2 (fun m hm => hnames m (mem_cons_of_mem _ hm)) ?_
    intro g
    by_cases hgf : g = f
    · -- `f` has been read and does not come again
      subst hgf
      rw [hnone]
      exact ⟨fun _ => hget, fun w hw => nomatch hw⟩
    · -- any other field is where it was, and so is its member
      have hne : r.name g ≠ r.name f := fun h => hgf (r.name_injective h)
      have hg := hreads g
      rw [lookup_cons, beq_eq_false_iff_ne.mpr hne] at hg
      unfold Reads
      rw [r.set_other hset hgf]
      exact hg

/-- A decoder that succeeds has stored every member that names a field. -/
theorem set_of_decode {name : String} {v : V} {f : φ} (hf : r.field name = some f) :
    ∀ {ms : List (String × V)} {cur s : S}, r.decode cur ms = .ok s → (name, v) ∈ ms →
    ∃ s1 s2, r.set f s1 v = .ok s2
  | [], _, _, _, hmem => absurd hmem not_mem_nil
  | (name', w) :: ms, cur, s, h, hmem => by
    rw [decode] at h
    rcases mem_cons.mp hmem with heq | hmem
    · obtain ⟨rfl, rfl⟩ := Prod.mk.inj heq
      rw [hf] at h
      rcases hset : r.set f cur v with e | s'
      · simp only [hset] at h
        nomatch h
      · exact ⟨cur, s', hset⟩
    · rcases hf' : r.field name' with _ | g
      · simp only [hf'] at h
        exact set_of_decode hf h hmem
      · simp only [hf'] at h
        rcases hset : r.set g cur w with e | s'
        · rw [hset] at h
          nomatch h
        · rw [hset] at h
          exact set_of_decode hf h hmem

/-- What every store keeps, the decoder keeps. -/
theorem decode_invariant {I : S → Prop} {P : V → Prop}
    (hset : ∀ f s v s', I s → P v → r.set f s v = .ok s' → I s') :
    ∀ {ms : List (String × V)} {cur s : S}, r.decode cur ms = .ok s → I cur →
      (∀ m ∈ ms, P m.2) → I s
  | [], cur, s, h, hcur, _ => by
    injection h with h
    exact h ▸ hcur
  | (name, v) :: ms, cur, s, h, hcur, hms => by
    have hms' : ∀ m ∈ ms, P m.2 := fun m hm => hms m (mem_cons_of_mem _ hm)
    rw [decode] at h
    rcases hf : r.field name with _ | f
    · simp only [hf] at h
      exact decode_invariant hset h hcur hms'
    · simp only [hf] at h
      rcases hs : r.set f cur v with e | s'
      · rw [hs] at h
        nomatch h
      · rw [hs] at h
        exact decode_invariant hset h (hset f cur v s' hcur (hms _ mem_cons_self) hs) hms'

/-! ## The members a writer emits -/

/-- The members of the fields `fs`; `m f` is the value written for `f`, if it is not left out. -/
def members (m : φ → Option V) : List φ → List (String × V)
  | [] => []
  | f :: fs =>
    match m f with
    | none => members m fs
    | some v => (r.name f, v) :: members m fs

theorem mem_members {m : φ → Option V} {name : String} {v : V} : ∀ {fs : List φ},
    (name, v) ∈ r.members m fs → ∃ f ∈ fs, name = r.name f
  | [], h => absurd h not_mem_nil
  | f :: fs, h => by
    rw [members] at h
    split at h
    · obtain ⟨g, hg, hname⟩ := mem_members h
      exact ⟨g, mem_cons_of_mem _ hg, hname⟩
    · rcases mem_cons.mp h with h | h
      · exact ⟨f, mem_cons_self, (Prod.mk.inj h).1⟩
      · obtain ⟨g, hg, hname⟩ := mem_members h
        exact ⟨g, mem_cons_of_mem _ hg, hname⟩

/-- No name is written twice. -/
theorem nodup_members (m : φ → Option V) : ∀ {fs : List φ}, fs.Nodup →
    ((r.members m fs).map Prod.fst).Nodup
  | [], _ => nodup_nil
  | f :: fs, h => by
    rw [nodup_cons] at h
    rw [members]
    split
    · exact nodup_members m h.2
    · rw [map_cons, nodup_cons]
      refine ⟨fun hmem => ?_, nodup_members m h.2⟩
      obtain ⟨x, hx, hname⟩ := mem_map.mp hmem
      obtain ⟨g, hg, hgname⟩ := @mem_members _ _ _ _ r _ x.1 x.2 _ hx
      have hgf : g = f := r.name_injective (hgname.symm.trans hname)
      exact h.1 (hgf ▸ hg)

/-- What is found under the name of a field that is not in `fs`. -/
theorem lookup_members_of_not_mem (m : φ → Option V) {fs : List φ} {f : φ} (hf : f ∉ fs) :
    (r.members m fs).lookup (r.name f) = none := by
  rw [lookup_eq_none_iff]
  intro x hx
  rw [bne_iff_ne]
  intro h
  obtain ⟨g, hg, hname⟩ := @mem_members _ _ _ _ r _ x.1 x.2 _ hx
  have hfg : f = g := r.name_injective (h.trans hname)
  exact hf (hfg ▸ hg)

/-- What is found under the name of a written field. -/
theorem lookup_members (m : φ → Option V) : ∀ {fs : List φ} {f : φ}, fs.Nodup → f ∈ fs →
    (r.members m fs).lookup (r.name f) = m f
  | [], _, _, hf => absurd hf not_mem_nil
  | g :: fs, f, hnodup, hf => by
    rw [nodup_cons] at hnodup
    rw [members]
    rcases mem_cons.mp hf with hfg | hf
    · subst hfg
      rcases hm : m f with _ | v
      · exact r.lookup_members_of_not_mem m hnodup.1
      · simp
    · have hne : r.name f ≠ r.name g := by
        intro h
        exact hnodup.1 (r.name_injective h ▸ hf)
      split
      · exact lookup_members m hnodup.2 hf
      · rw [lookup_cons, beq_eq_false_iff_ne.mpr hne]
        exact lookup_members m hnodup.2 hf

/-- Reading what a writer emitted. -/
theorem decode_written {m : φ → Option V} {fs : List φ} (hnodup : fs.Nodup) (hall : ∀ f, f ∈ fs)
    {cur p : S} (hreads : ∀ f, r.Reads cur p f (m f)) : r.decode cur (r.members m fs) = .ok p := by
  refine r.decode_eq p _ cur (r.nodup_members m hnodup) ?_ fun f => ?_
  · rintro ⟨name, v⟩ hmem
    obtain ⟨f, -, hf⟩ := r.mem_members hmem
    exact ⟨f, hf⟩
  · rw [r.lookup_members m hnodup (hall f)]
    exact hreads f

/-- **Reading what a writer emitted**, after a transport that keeps what is found under each name
    up to `R`. -/
theorem decode_members {R : V → V → Prop} {m : φ → Option V} {fs : List φ} {cur p : S}
    {ns : List (String × V)} (hns : (ns.map Prod.fst).Nodup)
    (hrel : ∀ name, Option.Rel R ((r.members m fs).lookup name) (ns.lookup name))
    (hreads : ∀ f, r.Reads cur p f (ns.lookup (r.name f))) :
    r.decode cur ns = .ok p := by
  refine r.decode_eq p ns cur hns ?_ hreads
  rintro ⟨name, v⟩ hmem
  -- a name that was not written would not be found in `ns` either
  by_contra hno
  have hnone : (r.members m fs).lookup name = none := by
    rw [lookup_eq_none_iff]
    rintro ⟨name', w⟩ hw
    rw [bne_iff_ne]
    intro h
    obtain ⟨f, -, hf⟩ := r.mem_members hw
    exact hno ⟨f, h.trans hf⟩
  have hrel' := hrel name
  rw [hnone] at hrel'
  have hns' : ns.lookup name = none := by
    generalize ns.lookup name = o at hrel'
    cases hrel'
    rfl
  rw [lookup_eq_none_iff] at hns'
  exact absurd rfl (bne_iff_ne.mp (hns' (name, v) hmem))

end Record
