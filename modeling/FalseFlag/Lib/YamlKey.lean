/-
  YAML keys, backwards: how a key that was read can have been written.

  The lemmas of `Yaml.piece` say what a reader makes of a text; here the result is given, and the
  text is wanted.
  * a string is read from a text in quotes, or from a plain scalar that starts with it (`flow_str`);
  * text in quotes is LONGER than what it says, and has its first colon no earlier
    (`readQuoted_length`), so no text says itself in quotes: a key that is read where it was written
    was written plain (`plain_of_key`);
  * **`plainKey_of_piece`** — then it is a `PlainKey`: the conditions that `piece_plainKey` asks for
    are also necessary, and nothing was cut off in front of it.
-/
import FalseFlag.Lib.JsonCarry
import FalseFlag.Lib.YamlScalar

namespace Yaml

open List JsonTree

/-! ## Quotes -/

/-- What is read as a number is digits. -/
theorem digits_front {base : ℕ} {value : Char → Option ℕ} {w acc n : ℕ} {cs r : List Char}
    (h : Digits.read base value w acc cs = some (n, r)) :
    ∃ front, cs = front ++ r ∧ ∀ c ∈ front, (value c).isSome = true := by
  induction w generalizing acc cs with
  | zero =>
    injection h with h
    injection h with _ h
    exact ⟨[], h, fun _ h => by cases h⟩
  | succ w ih =>
    cases cs with
    | nil => cases h
    | cons c cs =>
      rw [Digits.read] at h
      rcases hc : value c with _ | d
      · rw [hc] at h
        cases h
      · rw [hc] at h
        obtain ⟨front, rfl, hfront⟩ := ih h
        exact ⟨c :: front, rfl, forall_mem_cons.mpr ⟨by rw [hc]; rfl, hfront⟩⟩

/-- What an escape is written with: no colon. -/
theorem readEscape_front {e c : Char} {cs r : List Char} (h : readEscape (e :: cs) = some (c, r)) :
    ∃ front, e :: cs = front ++ r ∧ ':' ∉ front := by
  have he : ':' ≠ e := by
    rintro rfl
    cases h
  rw [readEscape] at h
  rcases hwidth : hexEscapes.lookup e with _ | w
  · rw [hwidth] at h
    obtain ⟨n, -, hn⟩ := Option.map_eq_some_iff.mp h
    injection hn with _ hr
    exact ⟨[e], by rw [← hr]; rfl, by simpa using he⟩
  · rw [hwidth] at h
    simp only at h
    rcases hread : Digits.read 16 Digits.hex? w 0 cs with _ | ⟨n, r'⟩
    · rw [hread] at h
      cases h
    · rw [hread] at h
      simp only at h
      split at h
      · injection h with h
        injection h with _ hr
        obtain ⟨front, hfront, hdigits⟩ := digits_front hread
        refine ⟨e :: front, by rw [← hr, hfront]; rfl, ?_⟩
        rw [mem_cons, not_or]
        exact ⟨he, fun hmem => absurd (hdigits _ hmem) (by decide)⟩
      · cases h

/-- A character of a quoted scalar takes something away, and a colon only if it is one. -/
theorem readQuotedChar_front {cs r : List Char} {c : Char} (h : readQuotedChar cs = some (c, r)) :
    ∃ d front, cs = d :: front ++ r ∧ (':' ∈ d :: front → c = ':') := by
  cases cs with
  | nil => cases h
  | cons d cs =>
    rw [readQuotedChar] at h
    split at h
    · rename_i hd
      cases cs with
      | nil => cases h
      | cons e cs =>
        obtain ⟨front, hfront, hcolon⟩ := readEscape_front h
        refine ⟨d, front, by rw [hfront]; rfl, ?_⟩
        intro hmem
        rcases mem_cons.mp hmem with hmem | hmem
        · rw [hd] at hmem
          exact absurd hmem (by decide)
        · exact absurd hmem hcolon
    · split at h
      · cases h
      · injection h with h
        injection h with hc hr
        refine ⟨d, [], by rw [hr]; rfl, ?_⟩
        intro hmem
        rw [← hc, mem_singleton.mp hmem]

theorem eq_of_expect {c : Char} {cs r : List Char} (h : Digits.expect c cs = some r) :
    cs = c :: r := by
  cases cs with
  | nil => cases h
  | cons d cs =>
    rw [Digits.expect] at h
    split at h
    · rename_i hd
      injection h with h
      rw [hd, h]
    · cases h

/-- **Text in quotes is at least as long as what it says**, up to the first colon too. -/
theorem readQuoted_length {n : ℕ} {cs s r : List Char} (h : readQuoted n cs = some (s, r)) :
    ∃ body, cs = body ++ '"' :: r ∧ s.length ≤ body.length ∧ s.idxOf ':' ≤ body.idxOf ':' := by
  induction n generalizing cs s with
  | zero => cases h
  | succ n ih =>
    rw [readQuoted] at h
    rcases hquote : Digits.expect '"' cs with _ | r'
    · rw [hquote] at h
      simp only at h
      rcases hchar : readQuotedChar cs with _ | ⟨c, r'⟩
      · rw [hchar] at h
        cases h
      · rw [hchar] at h
        obtain ⟨⟨s', r''⟩, hrest, heq⟩ := Option.map_eq_some_iff.mp h
        injection heq with hs hr
        have hr' : r'' = r := hr
        rw [hr'] at hrest
        obtain ⟨body, hbody, hlen, hindex⟩ := ih hrest
        obtain ⟨d, front, hcs, hcolon⟩ := readQuotedChar_front hchar
        refine ⟨d :: front ++ body, ?_, ?_, ?_⟩
        · rw [hcs, hbody, append_assoc]
        · rw [← hs]
          simp only [length_cons, length_append]
          omega
        · rw [← hs]
          by_cases hmem : ':' ∈ d :: front
          · rw [hcolon hmem, idxOf_cons_self]
            exact Nat.zero_le _
          · rw [idxOf_append_of_notMem hmem, length_cons]
            have hcons : (c :: s').idxOf ':' ≤ s'.idxOf ':' + 1 := by
              rw [idxOf_cons]
              cases c == ':'
              · exact Nat.le_refl _
              · exact Nat.zero_le _
            exact hcons.trans (by omega)
    · rw [hquote] at h
      injection h with h
      injection h with hs hr
      refine ⟨[], ?_, ?_, ?_⟩
      · rw [eq_of_expect hquote, hr]
        rfl
      · rw [← hs]
      · rw [← hs]

/-! ## Plain scalars -/

theorem plainSplit_append (afterWhite : Bool) (cs : List Char) :
    (plainSplit afterWhite cs).1 ++ (plainSplit afterWhite cs).2 = cs := by
  induction cs generalizing afterWhite with
  | nil => rfl
  | cons c cs ih =>
    rw [plainSplit]
    split
    · rfl
    · rw [cons_append, ih]

/-- What is taken in front of a colon has no end inside. -/
theorem unbroken_of_plainSplit {afterWhite : Bool} {p r : List Char}
    (h : plainSplit afterWhite (p ++ ':' :: r) = (p, ':' :: r)) : unbroken afterWhite p = true := by
  induction p generalizing afterWhite with
  | nil => rfl
  | cons c p ih =>
    rw [cons_append, plainSplit] at h
    split at h
    · cases h
    · rename_i hgo
      injection h with hp hr
      injection hp with _ hp
      have hrest := ih (Prod.ext hp hr)
      have hcolon : (c == ':' && p.head?.any isWhite) = false := by
        by_contra hyes
        rw [Bool.not_eq_false, Bool.and_eq_true, beq_iff_eq] at hyes
        apply hgo
        left
        refine ⟨hyes.1, ?_⟩
        cases p with
        | nil => cases hyes.2
        | cons d p => exact hyes.2
      have hhash : (c == '#' && afterWhite) = false := by
        by_contra hyes
        rw [Bool.not_eq_false, Bool.and_eq_true, beq_iff_eq] at hyes
        exact hgo (.inr hyes)
      rw [unbroken, hcolon, hhash, hrest]
      rfl

/-- A plain scalar that means a string means itself. -/
theorem resolve_eq_str {p : List Char} {s : String} (h : resolve p = .str s) : s.toList = p := by
  have hwords : ∀ m ∈ words, m.2 ≠ .str s := by
    have hnot : (words.all fun m => decide (m.2 ≠ .str s)) = true := rfl
    intro m hm
    exact of_decide_eq_true (all_eq_true.mp hnot m hm)
  rw [resolve] at h
  split at h
  · cases h
  · cases h
  · rcases hlookup : words.lookup (String.ofList p) with _ | v
    · rw [hlookup] at h
      injection h with h
      rw [← h, String.toList_ofList]
    · rw [hlookup] at h
      exact absurd h (hwords _ (Json.mem_of_lookup hlookup))

/-! ## Strings -/

/-- **How a string is written**: in quotes, or plain. -/
theorem flow_str {cs rest : List Char} {s : String} (h : flow cs = .ok (.scalar (.str s), rest)) :
    (∃ body, cs = '"' :: (body ++ '"' :: rest) ∧ s.toList.length ≤ body.length ∧
      s.toList.idxOf ':' ≤ body.idxOf ':') ∨
    (∃ c r p, cs = c :: r ∧ plainStart c r.head? = true ∧ plainSplit false cs = (p, rest) ∧
      (∀ d ∈ p, isNs d = true ∨ isWhite d = true) ∧ resolve (p.rdropWhile isWhite) = .str s) := by
  cases cs with
  | nil => cases h
  | cons c r =>
    rw [flow] at h
    split at h
    · rename_i hc
      left
      rcases hread : readQuoted (r.length + 1) r with _ | ⟨s', rest'⟩
      · rw [hread] at h
        cases h
      · rw [hread] at h
        injection h with h
        injection h with hs hrest
        injection hs with hs
        injection hs with hs
        rw [hrest] at hread
        obtain ⟨body, hbody, hlen⟩ := readQuoted_length hread
        refine ⟨body, by rw [hc, hbody], ?_⟩
        rw [← hs, String.toList_ofList]
        exact hlen
    · -- no brackets, and not the colon after a key that is not there
      right
      iterate 3
        split at h
        · cases h
      split at h
      · rename_i hstart
        simp only at h
        split at h
        · rename_i hall
          injection h with h
          injection h with hs hrest
          injection hs with hs
          refine ⟨c, r, _, rfl, hstart, Prod.ext rfl hrest, ?_, hs⟩
          intro d hd
          have hd' := all_eq_true.mp hall d hd
          rwa [Bool.or_eq_true] at hd'
        · cases h
      · cases h

/-- **How a key is written**: a scalar, and a colon that ends it. -/
theorem flow_of_piece_key {cs after : List Char} {k : Scalar} (h : piece cs = .ok (.key k after)) :
    ∃ rest r, flow cs = .ok (.scalar k, rest) ∧ rest.dropWhile isWhite = ':' :: r ∧
      cs.length ≤ 1024 + (r.length + 1) := by
  rw [piece] at h
  split at h
  · cases h
  · split at h
    · cases h
    · rename_i y rest hflow
      split at h
      · cases h
      · rename_i c r hrest
        split at h
        · rename_i hcolon
          split at h
          · rename_i k'
            split at h
            · rename_i hlen
              injection h with h
              injection h with hk _
              refine ⟨rest, r, ?_, ?_, hlen⟩
              · rw [hflow, hk]
              · rw [hrest, hcolon.1]
            · cases h
          · cases h
        · split at h
          · cases h
          · cases h

/-! ## Keys -/

/-- The first colon of a key with a colon behind it is that of the key, or the one behind. -/
theorem idxOf_key (k tail : List Char) : (k ++ ':' :: tail).idxOf ':' = k.idxOf ':' := by
  by_cases hmem : ':' ∈ k
  · rw [idxOf_append_of_mem hmem]
  · rw [idxOf_append_of_notMem hmem, idxOf_cons_self, idxOf_of_notMem hmem]
    rfl

theorem idxOf_le_append (c : Char) (a b : List Char) : a.idxOf c ≤ (a ++ b).idxOf c := by
  by_cases hmem : c ∈ a
  · rw [idxOf_append_of_mem hmem]
  · rw [idxOf_append_of_notMem hmem, idxOf_of_notMem hmem]
    exact Nat.le_add_right _ _

section Key

variable {k : String} {front back tail after : List Char} (hk : k.toList = front ++ back)
  (hfront : ':' ∉ front) (h : piece (back ++ ':' :: tail) = .ok (.key (.str k) after))

include hk hfront h

/-- **A key that is read where it was written was written plain**, even if some of it was cut off in
    front.  In quotes, the colon after the key would have to stand further back than it does. -/
theorem plain_of_key :
    ∃ c r p rest r', back ++ ':' :: tail = c :: r ∧ plainStart c r.head? = true ∧
      plainSplit false (back ++ ':' :: tail) = (p, rest) ∧
      (∀ d ∈ p, isNs d = true ∨ isWhite d = true) ∧ p.rdropWhile isWhite = k.toList ∧
      resolve k.toList = .str k ∧ rest.dropWhile isWhite = ':' :: r' ∧
      (back ++ ':' :: tail).length ≤ 1024 + (r'.length + 1) := by
  obtain ⟨rest, r', hflow, hcolon, hlen⟩ := flow_of_piece_key h
  rcases flow_str hflow with ⟨body, ht, -, hbody⟩ | ⟨c, r, p, ht, hstart, hsplit, hchars, hresolve⟩
  · exfalso
    have hquoted := congrArg (List.idxOf ':') ht
    rw [idxOf_key, idxOf_cons_ne _ (by decide)] at hquoted
    have hle := idxOf_le_append ':' body ('"' :: rest)
    rw [hk, idxOf_append_of_notMem hfront] at hbody
    omega
  · have hword := resolve_eq_str hresolve
    rw [← hword] at hresolve
    exact ⟨c, r, p, rest, r', ht, hstart, hsplit, hchars, hword.symm, hresolve, hcolon, hlen⟩

/-- Such a key is in front of its line. -/
theorem prefix_of_key : k.toList <+: back ++ ':' :: tail ∧ k.toList ≠ [] := by
  obtain ⟨c, r, p, rest, r', -, -, hsplit, -, hp, hresolve, -, -⟩ := plain_of_key hk hfront h
  constructor
  · have hpre : p <+: back ++ ':' :: tail := ⟨rest, by
      have := plainSplit_append false (back ++ ':' :: tail)
      rwa [hsplit] at this⟩
    rw [← hp]
    exact ( rdropWhile_prefix isWhite p).trans hpre
  · intro hnil
    have hnull : resolve [] = .null := by decide
    rw [hnil, hnull] at hresolve
    cases hresolve

/-- Nothing was cut off in front, if what was cut off is not what the line starts with. -/
theorem front_eq_nil (hcut : ∀ c ∈ front, ∀ d ∈ (back ++ ':' :: tail).head?, c ≠ d) :
    front = [] := by
  obtain ⟨⟨more, hmore⟩, -⟩ := prefix_of_key hk hfront h
  cases front with
  | nil => rfl
  | cons c front =>
    rw [hk] at hmore
    exact absurd rfl (hcut c (mem_cons_self ..) c (by rw [← hmore]; rfl))

end Key

/-- A plain scalar that says the text up to a colon is this text: there is no white space between
    them. -/
theorem eq_of_rdropWhile {k p rest tail : List Char} (hk : p.rdropWhile isWhite = k)
    (hwhole : p ++ rest = k ++ ':' :: tail) : p = k ∧ rest = ':' :: tail := by
  have hp : p = k ++ p.rtakeWhile isWhite := by
    rw [← hk]
    exact (rdropWhile_append_rtakeWhile).symm
  have hnone : p.rtakeWhile isWhite = [] := by
    rw [hp, append_assoc] at hwhole
    have hrest := append_cancel_left hwhole
    rcases hw : p.rtakeWhile isWhite with _ | ⟨d, ds⟩
    · rfl
    · have hwhite : isWhite d = true :=
        mem_rtakeWhile_imp (by rw [hw]; exact mem_cons_self ..)
      rw [hw] at hrest
      injection hrest with hd _
      rw [hd] at hwhite
      exact absurd hwhite (by decide)
  rw [hnone, append_nil] at hp
  rw [hp] at hwhole
  exact ⟨hp, append_cancel_left hwhole⟩

/-- **The conditions on a key are necessary.** -/
theorem plainKey_of_piece {k : String} {after tail : List Char}
    (h : piece (k.toList ++ ':' :: tail) = .ok (.key (.str k) after)) : PlainKey k.toList := by
  obtain ⟨c, r, p, rest, r', ht, hstart, hsplit, hchars, hk, hresolve, hcolon, hlen⟩ :=
    plain_of_key (nil_append _).symm not_mem_nil h
  have hwhole : p ++ rest = k.toList ++ ':' :: tail := by
    have := plainSplit_append false (k.toList ++ ':' :: tail)
    rwa [hsplit] at this
  obtain ⟨rfl, rfl⟩ := eq_of_rdropWhile hk hwhole
  have hr' : r' = tail := by
    rw [dropWhile_cons_of_neg (by decide)] at hcolon
    injection hcolon with _ hr'
    exact hr'.symm
  have hstart' : ∃ d ds, k.toList = d :: ds ∧ plainStart d (ds ++ [':']).head? = true := by
    obtain ⟨-, hne⟩ := prefix_of_key (nil_append _).symm not_mem_nil h
    obtain ⟨d, ds, hkey⟩ := exists_cons_of_ne_nil hne
    refine ⟨d, ds, hkey, ?_⟩
    rw [hkey] at ht
    injection ht with hd hr
    have hr : ds ++ ':' :: tail = r := hr
    have hhead : (ds ++ ':' :: tail).head? = (ds ++ [':']).head? := by
      cases ds <;> rfl
    rw [hd, ← hhead, hr]
    exact hstart
  have hlast : ∀ d ∈ k.toList.getLast?, isWhite d = false := by
    intro d hd
    obtain ⟨hne, rfl⟩ := mem_getLast?_eq_getLast hd
    exact Bool.eq_false_of_not_eq_true (rdropWhile_eq_self_iff.mp hk hne)
  have hshort : k.toList.length ≤ 1024 := by
    rw [hr', length_append, length_cons] at hlen
    omega
  refine ⟨⟨hstart', hchars, hlast, unbroken_of_plainSplit hsplit, hshort⟩, ?_⟩
  rw [String.ofList_toList]
  exact hresolve

/-- A key is no longer than the text it is read from. -/
theorem length_le_of_piece {k : String} {t after : List Char}
    (h : piece t = .ok (.key (.str k) after)) : k.toList.length ≤ t.length := by
  obtain ⟨rest, r', hflow, -, -⟩ := flow_of_piece_key h
  rcases flow_str hflow with ⟨body, ht, hbody, -⟩ | ⟨c, r, p, -, -, hsplit, -, hresolve⟩
  · rw [ht]
    simp only [length_cons, length_append]
    omega
  · rw [resolve_eq_str hresolve]
    have hp : p <+: t := ⟨rest, by
      have := plainSplit_append false t
      rwa [hsplit] at this⟩
    exact (( rdropWhile_prefix isWhite p).trans hp).length_le

end Yaml
