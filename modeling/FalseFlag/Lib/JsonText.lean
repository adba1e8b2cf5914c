/-
  JSON trees as text, and why comparing texts compares trees.

  Serialising both sides and comparing the strings is a common way to decide equality of JSON
  values.  It is right exactly when serialisation is injective, and the reason it is injective is
  that every piece of the output says where it ends: a string ends at the first quote that is not
  escaped, a number at the first character that cannot be in a number, an array or an object at
  its own bracket.  `Code N S` packs what is assumed of the two spellings that differ between
  serialisers (numbers and strings); `render` is the rest of the grammar, and
  `Code.render_injective` is the result.

  The proof is by cancellation, not by a parser: `render v ++ r = render w ++ r'` forces `v = w`
  and `r = r'` as soon as neither `r` nor `r'` starts with a character of a number
  (`render_cancel`).
-/
import FalseFlag.Lib.JsonTree

namespace JsonTree

open List

/-! ## Delimited texts -/

/-- The characters a JSON number may contain. -/
def isNumChar (c : Char) : Bool :=
  c.isDigit || c == '-' || c == '+' || c == '.' || c == 'e' || c == 'E'

/-- `r` does not start with a character of a number (or is empty). -/
def Delim (r : List Char) : Prop :=
  ∀ c t, r = c :: t → isNumChar c = false

theorem Delim.nil : Delim [] := by
  intro c t h
  nomatch h

theorem Delim.cons {c : Char} {t : List Char} (h : isNumChar c = false) : Delim (c :: t) := by
  intro c' t' h'
  injection h' with hc _
  rw [← hc]
  exact h

/-- Two runs of number characters followed by delimited texts can be told apart. -/
theorem numRun_cancel : ∀ {a b r r' : List Char}, (∀ c ∈ a, isNumChar c = true) →
    (∀ c ∈ b, isNumChar c = true) → Delim r → Delim r' → a ++ r = b ++ r' → a = b ∧ r = r'
  | [], [], _, _, _, _, _, _, h => ⟨rfl, h⟩
  | [], c :: b, r, r', _, hb, hr, _, h => by
    have hc := hr c (b ++ r') h
    rw [hb c mem_cons_self] at hc
    nomatch hc
  | c :: a, [], r, r', ha, _, _, hr', h => by
    have hc := hr' c (a ++ r) h.symm
    rw [ha c mem_cons_self] at hc
    nomatch hc
  | c :: a, d :: b, r, r', ha, hb, hr, hr', h => by
    injection h with hcd htl
    obtain ⟨hab, hrr⟩ := numRun_cancel (fun x hx => ha x (mem_cons_of_mem c hx))
      (fun x hx => hb x (mem_cons_of_mem d hx)) hr hr' htl
    exact ⟨by rw [hcd, hab], hrr⟩

/-! ## The two spellings a serialiser chooses -/

/-- How a serialiser spells numbers: injectively, in the characters of numbers. -/
structure NumCode (N : Type) where
  num : N → List Char
  num_injective : Function.Injective num
  num_ne_nil : ∀ n, num n ≠ []
  num_chars : ∀ n, ∀ c ∈ num n, isNumChar c = true

/-- How a serialiser spells the characters of a string: a prefix code whose words never start with
    the closing quote. -/
structure CharCode where
  esc : Char → List Char
  esc_cancel : ∀ {c c' : Char} {r r' : List Char}, esc c ++ r = esc c' ++ r' → c = c' ∧ r = r'
  esc_head : ∀ (c : Char) (r r' : List Char), esc c ++ r ≠ '"' :: r'

/-- The spellings of a serialiser: of its numbers, and of its strings with their quotes. -/
structure Code (N : Type) (S : Type := String) extends NumCode N where
  quote : S → List Char
  quote_head : ∀ s, ∃ t, quote s = '"' :: t
  quote_cancel : ∀ {s t : S} {r r' : List Char}, quote s ++ r = quote t ++ r' → s = t ∧ r = r'

/-! ## Backslash escapes

  The short escapes are those of the JSON grammar; which further characters are written as `\uXXXX`
  is the serialiser's choice `uni`.  The code is a prefix code because it can be read back:
  `unescape` undoes one word, whatever follows it. -/

/-- The letter of a short escape. -/
def shortEscape (c : Char) : Option Char :=
  if c = '"' then some '"'
  else if c = '\\' then some '\\'
  else if c = '\x08' then some 'b'
  else if c = '\x0c' then some 'f'
  else if c = '\n' then some 'n'
  else if c = '\r' then some 'r'
  else if c = '\t' then some 't'
  else none

/-- The lower-case hexadecimal digit of `d < 16`. -/
def hexDigit (d : Nat) : Char :=
  if d < 10 then Char.ofNat (48 + d) else Char.ofNat (87 + d)

/-- The value of a hexadecimal digit. -/
def hexValue (c : Char) : Nat :=
  if c.toNat < 58 then c.toNat - 48 else c.toNat - 87

theorem hexValue_hexDigit : ∀ d, d < 16 → hexValue (hexDigit d) = d := by decide

/-- One character of a string as it is written. -/
def backslash (uni : Char → Bool) (c : Char) : List Char :=
  match shortEscape c with
  | some letter => ['\\', letter]
  | none =>
    if uni c then
      ['\\', 'u', hexDigit (c.toNat / 4096), hexDigit (c.toNat / 256 % 16),
        hexDigit (c.toNat / 16 % 16), hexDigit (c.toNat % 16)]
    else [c]

/-- Read one character of a string back. -/
def unescape : List Char → Option (Char × List Char)
  | '\\' :: '"' :: r => some ('"', r)
  | '\\' :: '\\' :: r => some ('\\', r)
  | '\\' :: 'b' :: r => some ('\x08', r)
  | '\\' :: 'f' :: r => some ('\x0c', r)
  | '\\' :: 'n' :: r => some ('\n', r)
  | '\\' :: 'r' :: r => some ('\r', r)
  | '\\' :: 't' :: r => some ('\t', r)
  | '\\' :: 'u' :: a :: b :: c :: d :: r =>
    some (Char.ofNat (4096 * hexValue a + 256 * hexValue b + 16 * hexValue c + hexValue d), r)
  | c :: r => some (c, r)
  | [] => none

theorem unescape_plain {c : Char} (h : c ≠ '\\') (r : List Char) :
    unescape (c :: r) = some (c, r) := by
  rw [unescape.eq_def]
  split <;> simp_all

theorem unescape_unicode {n : Nat} (h : n < 65536) (r : List Char) :
    unescape ('\\' :: 'u' :: hexDigit (n / 4096) :: hexDigit (n / 256 % 16) ::
      hexDigit (n / 16 % 16) :: hexDigit (n % 16) :: r) = some (Char.ofNat n, r) := by
  have hn : 4096 * (n / 4096) + 256 * (n / 256 % 16) + 16 * (n / 16 % 16) + n % 16 = n := by omega
  rw [unescape, hexValue_hexDigit _ (by omega), hexValue_hexDigit _ (by omega),
    hexValue_hexDigit _ (by omega), hexValue_hexDigit _ (by omega), hn]

/-- Reading back inverts writing, for a choice `uni` inside the basic plane. -/
theorem unescape_backslash {uni : Char → Bool} (huni : ∀ c, uni c = true → c.toNat < 65536)
    (c : Char) (r : List Char) : unescape (backslash uni c ++ r) = some (c, r) := by
  unfold backslash
  split
  · rename_i letter hshort
    unfold shortEscape at hshort
    repeat' split at hshort
    all_goals first | (injection hshort with hl; subst_vars; rfl) | nomatch hshort
  · rename_i hshort
    split
    · rename_i hu
      rw [cons_append, cons_append, cons_append, cons_append,
        cons_append, cons_append, nil_append, unescape_unicode (huni c hu),
        Char.ofNat_toNat]
    · refine unescape_plain ?_ r
      rintro rfl
      exact absurd hshort (by decide)

/-- The escapes of a JSON serialiser that also writes the characters of `uni` as `\uXXXX`. -/
def CharCode.ofUni (uni : Char → Bool) (huni : ∀ c, uni c = true → c.toNat < 65536) : CharCode where
  esc := backslash uni
  esc_cancel := by
    intro c c' r r' h
    have hc := unescape_backslash huni c r
    rw [h, unescape_backslash huni c' r'] at hc
    injection hc with hc
    injection hc with hcc hrr
    exact ⟨hcc.symm, hrr.symm⟩
  esc_head := by
    intro c r r' h
    have hc := unescape_backslash huni c r
    rw [h, unescape_plain (by decide)] at hc
    injection hc with hc
    injection hc with hcq _
    subst hcq
    injection h with hq _
    exact absurd hq (by decide)

namespace CharCode

variable (k : CharCode)

/-- The characters of a string, escaped, up to and including the closing quote. -/
def body : List Char → List Char
  | [] => ['"']
  | c :: cs => k.esc c ++ body cs

/-- A string with its quotes. -/
def quote (s : String) : List Char := '"' :: k.body s.toList

theorem body_cancel : ∀ {cs ds r r' : List Char},
    k.body cs ++ r = k.body ds ++ r' → cs = ds ∧ r = r'
  | [], [], _, _, h => ⟨rfl, by injection h⟩
  | [], d :: ds, r, r', h => by
    rw [body, body, append_assoc] at h
    exact absurd h.symm (k.esc_head d _ r)
  | c :: cs, [], r, r', h => by
    rw [body, body, append_assoc] at h
    exact absurd h (k.esc_head c _ r')
  | c :: cs, d :: ds, r, r', h => by
    rw [body, body, append_assoc, append_assoc] at h
    obtain ⟨hcd, htl⟩ := k.esc_cancel h
    obtain ⟨hcs, hr⟩ := body_cancel htl
    exact ⟨by rw [hcd, hcs], hr⟩

/-- A serialiser that spells strings character by character. -/
def code {N : Type} (num : NumCode N) : Code N where
  toNumCode := num
  quote := k.quote
  quote_head _ := ⟨_, rfl⟩
  quote_cancel {s t} r r' h := by
    injection h with _ hbody
    obtain ⟨hst, hr⟩ := k.body_cancel hbody
    exact ⟨String.toList_inj.mp hst, hr⟩

end CharCode

namespace Code

variable {N S : Type} (k : Code N S)

theorem num_cancel {n m : N} {r r' : List Char} (hr : Delim r) (hr' : Delim r')
    (h : k.num n ++ r = k.num m ++ r') : n = m ∧ r = r' := by
  obtain ⟨hnm, hrr⟩ := numRun_cancel (k.num_chars n) (k.num_chars m) hr hr' h
  exact ⟨k.num_injective hnm, hrr⟩

/-! ## Rendering -/

mutual

/-- The compact text of a tree: no whitespace, members in the order they stand. -/
def render : Json N S → List Char
  | .null => "null".toList
  | .bool true => "true".toList
  | .bool false => "false".toList
  | .num n => k.num n
  | .str s => k.quote s
  | .arr [] => "[]".toList
  | .arr (x :: xs) => '[' :: (render x ++ renderItems xs)
  | .obj [] => "{}".toList
  | .obj ((name, x) :: ms) => '{' :: (k.quote name ++ (':' :: (render x ++ renderMembers ms)))
  termination_by structural j => j

/-- The items of an array after the first, up to and including the closing bracket. -/
def renderItems : List (Json N S) → List Char
  | [] => [']']
  | x :: xs => ',' :: (render x ++ renderItems xs)
  termination_by structural js => js

/-- The members of an object after the first, up to and including the closing brace. -/
def renderMembers : List (S × Json N S) → List Char
  | [] => ['}']
  | (name, x) :: ms => ',' :: (k.quote name ++ (':' :: (render x ++ renderMembers ms)))
  termination_by structural ms => ms

end

theorem delim_renderItems (xs : List (Json N S)) (r : List Char) :
    Delim (k.renderItems xs ++ r) := by
  cases xs <;> exact Delim.cons (by decide)

theorem delim_renderMembers (ms : List (S × Json N S)) (r : List Char) :
    Delim (k.renderMembers ms ++ r) := by
  cases ms <;> exact Delim.cons (by decide)

/-- The kind of a tree, as its first character shows it. -/
def headClass : Json N S → Option Char
  | .null => some 'n'
  | .bool true => some 't'
  | .bool false => some 'f'
  | .num _ => none
  | .str _ => some '"'
  | .arr _ => some '['
  | .obj _ => some '{'

/-- A rendering starts with the character of its kind, a number with a character of numbers. -/
theorem render_head (v : Json N S) : ∃ c t, k.render v = c :: t ∧
    (headClass v = some c ∧ isNumChar c = false ∨ headClass v = none ∧ isNumChar c = true) := by
  cases v with
  | null => exact ⟨'n', _, rfl, Or.inl ⟨rfl, by decide⟩⟩
  | bool b =>
    cases b with
    | false => exact ⟨'f', _, rfl, Or.inl ⟨rfl, by decide⟩⟩
    | true => exact ⟨'t', _, rfl, Or.inl ⟨rfl, by decide⟩⟩
  | num n =>
    rcases hn : k.num n with _ | ⟨c, t⟩
    · exact absurd hn (k.num_ne_nil n)
    · refine ⟨c, t, by rw [render, hn], Or.inr ⟨rfl, ?_⟩⟩
      exact k.num_chars n c (by rw [hn]; exact mem_cons_self)
  | str s =>
    obtain ⟨t, ht⟩ := k.quote_head s
    exact ⟨'"', t, ht, Or.inl ⟨rfl, by decide⟩⟩
  | arr items =>
    cases items with
    | nil => exact ⟨'[', _, rfl, Or.inl ⟨rfl, by decide⟩⟩
    | cons x xs => exact ⟨'[', _, rfl, Or.inl ⟨rfl, by decide⟩⟩
  | obj members =>
    cases members with
    | nil => exact ⟨'{', _, rfl, Or.inl ⟨rfl, by decide⟩⟩
    | cons m ms => exact ⟨'{', _, rfl, Or.inl ⟨rfl, by decide⟩⟩

/-- Renderings that agree, whatever follows them, are renderings of trees of one kind. -/
theorem headClass_eq {v w : Json N S} {r r' : List Char} (h : k.render v ++ r = k.render w ++ r') :
    headClass v = headClass w := by
  obtain ⟨c, t, hv, hcv⟩ := k.render_head v
  obtain ⟨d, u, hw, hcw⟩ := k.render_head w
  rw [hv, hw] at h
  injection h with hcd _
  subst hcd
  rcases hcv with ⟨hv, hn⟩ | ⟨hv, hn⟩
  · rcases hcw with ⟨hw, -⟩ | ⟨-, hn'⟩
    · rw [hv, hw]
    · rw [hn] at hn'
      nomatch hn'
  · rcases hcw with ⟨-, hn'⟩ | ⟨hw, -⟩
    · rw [hn] at hn'
      nomatch hn'
    · rw [hv, hw]

/-- `v` can be read off the front of any text it starts, if a delimiter follows it. -/
def Cancels (v : Json N S) : Prop :=
  ∀ (w : Json N S) (r r' : List Char), Delim r → Delim r' →
    k.render v ++ r = k.render w ++ r' → v = w ∧ r = r'

theorem renderItems_cancel : ∀ {xs ys : List (Json N S)} {r r' : List Char},
    (∀ x ∈ xs, k.Cancels x) → k.renderItems xs ++ r = k.renderItems ys ++ r' → xs = ys ∧ r = r'
  | [], [], _, _, _, h => ⟨rfl, by injection h⟩
  | [], _ :: _, _, _, _, h => by
    injection h with hc _
    exact absurd hc (by decide)
  | _ :: _, [], _, _, _, h => by
    injection h with hc _
    exact absurd hc (by decide)
  | x :: xs, y :: ys, r, r', hx, h => by
    rw [renderItems, renderItems, cons_append, cons_append, append_assoc,
      append_assoc] at h
    injection h with _ htl
    obtain ⟨hxy, hrest⟩ := hx x mem_cons_self y _ _ (k.delim_renderItems xs r)
      (k.delim_renderItems ys r') htl
    obtain ⟨hxs, hr⟩ := renderItems_cancel (fun z hz => hx z (mem_cons_of_mem x hz)) hrest
    exact ⟨by rw [hxy, hxs], hr⟩

/-- One member: the name, the colon, then the value. -/
theorem member_cancel {name name' : S} {x y : Json N S} {r r' : List Char} (hx : k.Cancels x)
    (hr : Delim r) (hr' : Delim r')
    (h : k.quote name ++ (':' :: (k.render x ++ r)) = k.quote name' ++ (':' :: (k.render y ++ r'))) :
    name = name' ∧ x = y ∧ r = r' := by
  obtain ⟨hname, hval⟩ := k.quote_cancel h
  injection hval with _ hval
  exact ⟨hname, hx y _ _ hr hr' hval⟩

theorem renderMembers_cancel : ∀ {ms ns : List (S × Json N S)} {r r' : List Char},
    (∀ m ∈ ms, k.Cancels m.2) → k.renderMembers ms ++ r = k.renderMembers ns ++ r' →
      ms = ns ∧ r = r'
  | [], [], _, _, _, h => ⟨rfl, by injection h⟩
  | [], _ :: _, _, _, _, h => by
    injection h with hc _
    exact absurd hc (by decide)
  | _ :: _, [], _, _, _, h => by
    injection h with hc _
    exact absurd hc (by decide)
  | (name, x) :: ms, (name', y) :: ns, r, r', hx, h => by
    simp only [renderMembers, cons_append, append_assoc] at h
    injection h with _ htl
    obtain ⟨hname, hxy, hrest⟩ := k.member_cancel (hx _ mem_cons_self)
      (k.delim_renderMembers ms r) (k.delim_renderMembers ns r') htl
    obtain ⟨hms, hr⟩ := renderMembers_cancel (fun m hm => hx m (mem_cons_of_mem _ hm)) hrest
    have hxy' : x = y := hxy
    exact ⟨by rw [hname, hxy', hms], hr⟩

/-- An array's text does not close where another's first item stands. -/
theorem nil_ne_cons_item {x : Json N S} {r r' : List Char} : ']' :: r ≠ k.render x ++ r' := by
  obtain ⟨c, t, hx, hc⟩ := k.render_head x
  rw [hx]
  intro h
  injection h with hcd _
  subst hcd
  rcases hc with ⟨hc, -⟩ | ⟨-, hn⟩
  · rcases x with _ | (_ | _) | _ | _ | _ | _ <;> exact absurd hc (by simp [headClass])
  · exact absurd hn (by decide)

/-- An object's text does not close where another's first name stands. -/
theorem nil_ne_cons_member {name : S} {r r' : List Char} : '}' :: r ≠ k.quote name ++ r' := by
  obtain ⟨t, ht⟩ := k.quote_head name
  rw [ht]
  intro h
  injection h with hc _
  exact absurd hc (by decide)

/-- **Cancellation.**  By induction on the first tree; `headClass_eq` leaves only the second trees
    of the same kind. -/
theorem render_cancel (v : Json N S) : k.Cancels v := by
  induction v with
  | null =>
    intro w r r' _ _ h
    have hk := k.headClass_eq h
    obtain rfl : w = .null := by
      rcases w with _ | (_ | _) | _ | _ | _ | _ <;> simp [headClass] at hk ⊢
    exact ⟨rfl, append_cancel_left h⟩
  | bool b =>
    intro w r r' _ _ h
    have hk := k.headClass_eq h
    obtain rfl : w = .bool b := by
      cases b <;> rcases w with _ | (_ | _) | _ | _ | _ | _ <;> simp [headClass] at hk ⊢
    exact ⟨rfl, append_cancel_left h⟩
  | num n =>
    intro w r r' hr hr' h
    have hk := k.headClass_eq h
    obtain ⟨m, rfl⟩ : ∃ m, w = .num m := by
      rcases w with _ | (_ | _) | _ | _ | _ | _ <;> simp [headClass] at hk ⊢
    obtain ⟨hnm, hrr⟩ := k.num_cancel hr hr' h
    exact ⟨by rw [hnm], hrr⟩
  | str s =>
    intro w r r' _ _ h
    have hk := k.headClass_eq h
    obtain ⟨t, rfl⟩ : ∃ t, w = .str t := by
      rcases w with _ | (_ | _) | _ | _ | _ | _ <;> simp [headClass] at hk ⊢
    obtain ⟨hst, hrr⟩ := k.quote_cancel h
    exact ⟨by rw [hst], hrr⟩
  | arr items ih =>
    intro w r r' _ _ h
    have hk := k.headClass_eq h
    obtain ⟨items', rfl⟩ : ∃ items', w = .arr items' := by
      rcases w with _ | (_ | _) | _ | _ | _ | _ <;> simp [headClass] at hk ⊢
    rcases items with _ | ⟨x, xs⟩ <;> rcases items' with _ | ⟨y, ys⟩
    · exact ⟨rfl, append_cancel_left h⟩
    · rw [render, render, cons_append, append_assoc] at h
      injection h with _ h
      exact absurd h k.nil_ne_cons_item
    · rw [render, render, cons_append, append_assoc] at h
      injection h with _ h
      exact absurd h.symm k.nil_ne_cons_item
    · rw [render, render, cons_append, cons_append, append_assoc,
        append_assoc] at h
      injection h with _ htl
      obtain ⟨hxy, hrest⟩ := ih x mem_cons_self y _ _ (k.delim_renderItems xs r)
        (k.delim_renderItems ys r') htl
      obtain ⟨hxs, hr⟩ := k.renderItems_cancel
        (fun z hz => ih z (mem_cons_of_mem x hz)) hrest
      exact ⟨by rw [hxy, hxs], hr⟩
  | obj members ih =>
    intro w r r' _ _ h
    have hk := k.headClass_eq h
    obtain ⟨members', rfl⟩ : ∃ members', w = .obj members' := by
      rcases w with _ | (_ | _) | _ | _ | _ | _ <;> simp [headClass] at hk ⊢
    rcases members with _ | ⟨⟨name, x⟩, ms⟩ <;> rcases members' with _ | ⟨⟨name', y⟩, ns⟩
    · exact ⟨rfl, append_cancel_left h⟩
    · rw [render, render, cons_append, append_assoc] at h
      injection h with _ h
      exact absurd h k.nil_ne_cons_member
    · rw [render, render, cons_append, append_assoc] at h
      injection h with _ h
      exact absurd h.symm k.nil_ne_cons_member
    · simp only [render, cons_append, append_assoc] at h
      injection h with _ htl
      obtain ⟨hname, hxy, hrest⟩ := k.member_cancel (ih _ mem_cons_self)
        (k.delim_renderMembers ms r) (k.delim_renderMembers ns r') htl
      obtain ⟨hms, hr⟩ := k.renderMembers_cancel
        (fun m hm => ih m (mem_cons_of_mem _ hm)) hrest
      have hxy' : x = y := hxy
      exact ⟨by rw [hname, hxy', hms], hr⟩

/-- Equal texts come from equal trees. -/
theorem render_injective : Function.Injective k.render := by
  intro v w h
  exact (k.render_cancel v w [] [] Delim.nil Delim.nil (by rw [h])).1

end Code

end JsonTree
