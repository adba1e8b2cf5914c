/-
  YAML on one line: scalars, and what can stand on a line of a block collection.

  This is the part of YAML 1.2.2 that a line can say on its own, with the core schema: plain and
  double-quoted scalars, empty flow collections, an implicit key and what follows it, a dash.  What
  is not read here (anchors, aliases, tags, block scalars, single quotes, other flow collections,
  explicit keys, comments after content, scalars over several lines) is reported as `beyond`, and is
  NOT called invalid: the verdict `invalid` is kept for what no YAML reader accepts.

  A plain scalar ends before `: ` and before ` #`; what it means depends on how it looks (`resolve`).
  * **`piece_plainText`** — a key without quotes reads back as what it looks like.
-/
import FalseFlag.Lib.Decimal
import FalseFlag.Lib.JsonRead
import Mathlib.Data.List.DropRight

namespace Yaml

open List JsonTree

/-! ## Nodes -/

/-- Scalars, in the core schema. -/
inductive Scalar where
  | null
  | bool (b : Bool)
  | num (q : ℚ)
  | inf (negative : Bool)
  | nan
  | str (s : String)
  deriving DecidableEq

inductive Node where
  | scalar (s : Scalar)
  | seq (items : List Node)
  | map (members : List (Scalar × Node))

/-- Why a text gives no node: it is no YAML, or it has something in it that is not read here. -/
inductive Verdict where
  | invalid
  | beyond
  deriving DecidableEq

/-! ## Characters -/

def isWhite (c : Char) : Bool := c == ' ' || c == '\t'

/-- `ns-char`: printable, no line break, no white space, no byte order mark. -/
def isNs (c : Char) : Bool :=
  (0x21 ≤ c.toNat && c.toNat ≤ 0x7E) || c.toNat == 0x85 ||
    (0xA0 ≤ c.toNat && c.toNat ≤ 0xFFFD && c.toNat != 0xFEFF) || 0x10000 ≤ c.toNat

/-- `c-indicator`. -/
def isIndicator (c : Char) : Bool := "-?:,[]\x7b\x7d#&*!|>\x27\"%@\x60".toList.contains c

/-- White space or the end of the line is next. -/
def ends (r : List Char) : Bool := r.head?.all isWhite

/-! ### Ranges of characters -/

variable {c : Char}

/-- A character is not another one with a number out of its range. -/
theorem ne_of_range {d : Char} {low high : ℕ} (hc : low ≤ c.toNat ∧ c.toNat ≤ high)
    (hd : d.toNat < low ∨ high < d.toNat) : c ≠ d := by
  rintro rfl
  omega

theorem digit_range (h : c.isDigit = true) : 48 ≤ c.toNat ∧ c.toNat ≤ 57 := by
  rw [Char.isDigit, Bool.and_eq_true, decide_eq_true_eq, decide_eq_true_eq] at h
  exact h

theorem isNs_of_range (h : 0x21 ≤ c.toNat ∧ c.toNat ≤ 0x7E) : isNs c = true := by
  simp [isNs, h.1, h.2]

theorem isIndicator_of_range {low high : ℕ} (hc : low ≤ c.toNat ∧ c.toNat ≤ high)
    (h : ("-?:,[]\x7b\x7d#&*!|>\x27\"%@\x60".toList.all fun d =>
      d.toNat < low || high < d.toNat) = true) : isIndicator c = false := by
  by_contra hmem
  rw [Bool.not_eq_false, isIndicator, contains_iff_mem] at hmem
  have hout := all_eq_true.mp h c hmem
  rw [Bool.or_eq_true, decide_eq_true_eq, decide_eq_true_eq] at hout
  exact ne_of_range hc hout rfl

theorem isWhite_of_isNs (h : isNs c = true) : isWhite c = false := by
  by_contra hwhite
  rw [Bool.not_eq_false, isWhite, Bool.or_eq_true, beq_iff_eq, beq_iff_eq] at hwhite
  rcases hwhite with rfl | rfl
  · exact absurd h (by decide)
  · exact absurd h (by decide)

/-! ## Plain scalars -/

/-- `ns-plain-first`: `c` can start a plain scalar before `next`. -/
def plainStart (c : Char) (next : Option Char) : Bool :=
  isNs c && (!isIndicator c || ((c == '-' || c == '?' || c == ':') && next.any isNs))

/-- Up to `: ` or ` #`, and the rest. -/
def plainSplit : Bool → List Char → List Char × List Char
  | _, [] => ([], [])
  | afterWhite, c :: r =>
    if c = ':' ∧ ends r ∨ c = '#' ∧ afterWhite then ([], c :: r)
    else (c :: (plainSplit (isWhite c) r).1, (plainSplit (isWhite c) r).2)

/-- Digits in some base, at least one. -/
def radix? (base : ℕ) (digit : Char → Option ℕ) (cs : List Char) : Option ℕ :=
  if cs = [] then none else cs.foldlM (fun n c => (digit c).map (base * n + ·)) 0

/-- The integers `0o…` and `0x…`. -/
def prefixed? : List Char → Option ℕ
  | '0' :: 'o' :: cs => radix? 8 (fun c => (Digits.decimal? c).filter (· < 8)) cs
  | '0' :: 'x' :: cs => radix? 16 Digits.hex? cs
  | _ => none

/-- The words of the core schema. -/
def words : List (String × Scalar) :=
  [("null", .null), ("Null", .null), ("NULL", .null), ("~", .null), ("", .null),
   ("true", .bool true), ("True", .bool true), ("TRUE", .bool true),
   ("false", .bool false), ("False", .bool false), ("FALSE", .bool false),
   (".inf", .inf false), (".Inf", .inf false), (".INF", .inf false),
   ("+.inf", .inf false), ("+.Inf", .inf false), ("+.INF", .inf false),
   ("-.inf", .inf true), ("-.Inf", .inf true), ("-.INF", .inf true),
   (".nan", .nan), (".NaN", .nan), (".NAN", .nan)]

/-- What a plain scalar means: a number, a word of the schema, or a string. -/
def resolve (p : List Char) : Scalar :=
  match Decimal.read p, prefixed? p with
  | some q, _ => .num q
  | none, some n => .num n
  | none, none => (words.lookup (String.ofList p)).getD (.str (String.ofList p))

/-! ## Double-quoted scalars -/

/-- The escapes of one letter. -/
def escapes : List (Char × ℕ) :=
  [('0', 0x00), ('a', 0x07), ('b', 0x08), ('t', 0x09), ('\t', 0x09), ('n', 0x0A), ('v', 0x0B),
   ('f', 0x0C), ('r', 0x0D), ('e', 0x1B), (' ', 0x20), ('"', 0x22), ('/', 0x2F), ('\\', 0x5C),
   ('N', 0x85), ('_', 0xA0), ('L', 0x2028), ('P', 0x2029)]

/-- The escapes in hexadecimal, and how many digits they have. -/
def hexEscapes : List (Char × ℕ) := [('x', 2), ('u', 4), ('U', 8)]

/-- What stands after a backslash. -/
def readEscape : List Char → Option (Char × List Char)
  | [] => none
  | e :: r =>
    match hexEscapes.lookup e with
    | some w =>
      match Digits.read 16 Digits.hex? w 0 r with
      | some (n, r) => if n.isValidChar then some (Char.ofNat n, r) else none
      | none => none
    | none => (escapes.lookup e).map fun n => (Char.ofNat n, r)

/-- One character of a quoted scalar. -/
def readQuotedChar : List Char → Option (Char × List Char)
  | [] => none
  | c :: r =>
    if c = '\\' then readEscape r
    else if c.toNat < 0x20 ∧ c ≠ '\t' then none
    else some (c, r)

/-- The characters up to the closing quote; every step takes one, so the length is enough fuel. -/
def readQuoted : ℕ → List Char → Option (List Char × List Char)
  | 0, _ => none
  | n + 1, cs =>
    match Digits.expect '"' cs with
    | some r => some ([], r)
    | none =>
      match readQuotedChar cs with
      | none => none
      | some (c, r) => (readQuoted n r).map fun (s, r) => (c :: s, r)

/-! ## What a line says -/

/-- A node at the start of a text, and the rest. -/
def flow : List Char → Except Verdict (Node × List Char)
  | [] => .ok (.scalar .null, [])
  | c :: r =>
    if c = '"' then
      match readQuoted (r.length + 1) r with
      | some (s, rest) => .ok (.scalar (.str (String.ofList s)), rest)
      | none => .error .beyond
    else if c = '[' ∧ r.head? = some ']' then .ok (.seq [], r.tail)
    else if c = '\x7b' ∧ r.head? = some '\x7d' then .ok (.map [], r.tail)
    -- a key that is not there
    else if c = ':' ∧ ends r then .ok (.scalar .null, c :: r)
    else if plainStart c r.head? then
      let (p, rest) := plainSplit false (c :: r)
      if p.all fun c => isNs c || isWhite c then
        .ok (.scalar (resolve (p.rdropWhile isWhite)), rest)
      else .error .invalid
    else .error .beyond

/-- What the text of a line can be: an entry of a sequence, an entry of a mapping, or a node. -/
inductive Piece where
  | dash (rest : List Char)
  | key (k : Scalar) (after : List Char)
  | alone (x : Node)

/-- A dash before white space, and what follows it. -/
def dash? : List Char → Option (List Char)
  | [] => none
  | c :: r => if c = '-' ∧ ends r then some r else none

/-- What the text of a line is.  An implicit key has at most 1024 characters. -/
def piece (cs : List Char) : Except Verdict Piece :=
  match dash? cs with
  | some r => .ok (.dash r)
  | none =>
    match flow cs with
    | .error e => .error e
    | .ok (x, rest) =>
      match rest.dropWhile isWhite with
      | [] => .ok (.alone x)
      | c :: r =>
        if c = ':' ∧ ends r then
          match x with
          | .scalar k =>
            if cs.length ≤ 1024 + (r.length + 1) then .ok (.key k (r.dropWhile isWhite))
            else .error .invalid
          | _ => .error .beyond
        else if c = '#' then .error .beyond
        else .error .invalid

/-! ## Keys that can be written as they are -/

/-- Nothing inside a text ends a plain scalar. -/
def unbroken : Bool → List Char → Bool
  | _, [] => true
  | afterWhite, c :: r =>
    !(c == ':' && r.head?.any isWhite) && !(c == '#' && afterWhite) && unbroken (isWhite c) r

/-- A text that is taken as one scalar when it is written as a key without quotes. -/
structure PlainText (k : List Char) : Prop where
  start : ∃ c r, k = c :: r ∧ plainStart c (r ++ [':']).head? = true
  chars : ∀ c ∈ k, isNs c = true ∨ isWhite c = true
  last : ∀ c ∈ k.getLast?, isWhite c = false
  unbroken : unbroken false k = true
  short : k.length ≤ 1024

/-- A key that reads back as itself: it also is no number and no word of the schema. -/
structure PlainKey (k : List Char) : Prop extends PlainText k where
  word : resolve k = .str (String.ofList k)

/-- The characters of a key are looked at one by one. -/
theorem chars_of_all {k : List Char} (h : k.all (fun c => isNs c || isWhite c) = true) :
    ∀ c ∈ k, isNs c = true ∨ isWhite c = true := by
  intro c hc
  exact (Bool.or_eq_true _ _).mp (all_eq_true.mp h c hc)

variable {r : List Char}

/-- What a plain scalar takes, in front of a text that ends it. -/
theorem plainSplit_key (p : List Char) (afterWhite : Bool) (hr : ends r = true)
    (h : unbroken afterWhite p = true) :
    plainSplit afterWhite (p ++ ':' :: r) = (p, ':' :: r) := by
  induction p generalizing afterWhite with
  | nil =>
    show plainSplit afterWhite (':' :: r) = _
    rw [plainSplit, if_pos (.inl ⟨rfl, hr⟩)]
  | cons c p ih =>
    rw [Yaml.unbroken, Bool.and_eq_true, Bool.and_eq_true] at h
    obtain ⟨⟨hcolon, hhash⟩, hrest⟩ := h
    have hgo : ¬ (c = ':' ∧ ends (p ++ ':' :: r) = true ∨ c = '#' ∧ afterWhite = true) := by
      rintro (⟨rfl, hends⟩ | ⟨rfl, hwhite⟩)
      · -- a colon inside: what follows it is in the key, or is the colon after the key
        cases p with
        | nil =>
          have hcolon' : isWhite ':' = true := hends
          exact absurd hcolon' (by decide)
        | cons d p => simp_all [ends]
      · rw [hwhite] at hhash
        exact absurd hhash (by decide)
    rw [cons_append, plainSplit, if_neg hgo, ih (isWhite c) hrest]

/-- What a plain scalar takes when nothing in it looks like an end. -/
theorem plainSplit_all (p : List Char) (afterWhite : Bool)
    (h : ∀ c ∈ p, c ≠ ':' ∧ c ≠ '#') : plainSplit afterWhite p = (p, []) := by
  induction p generalizing afterWhite with
  | nil => rfl
  | cons c p ih =>
    obtain ⟨hc, hp⟩ := forall_mem_cons.mp h
    have hgo : ¬ (c = ':' ∧ ends p = true ∨ c = '#' ∧ afterWhite = true) := by
      rintro (⟨heq, -⟩ | ⟨heq, -⟩)
      · exact hc.1 heq
      · exact hc.2 heq
    rw [plainSplit, if_neg hgo, ih (isWhite c) hp]

/-- A text that starts a plain scalar is not taken for anything else. -/
theorem plainStart_ne {next : Option Char} (h : plainStart c next = true) :
    c ≠ '"' ∧ c ≠ '[' ∧ c ≠ '\x7b' := by
  have hno : ∀ d : Char, isIndicator d = true → (d == '-' || d == '?' || d == ':') = false →
      c ≠ d := by
    rintro d hind hspecial rfl
    rw [plainStart, hind, hspecial] at h
    simp at h
  exact ⟨hno '"' (by decide) (by decide), hno '[' (by decide) (by decide),
    hno '\x7b' (by decide) (by decide)⟩

/-- A dash or a colon that starts a plain scalar has no white space after it. -/
theorem plainStart_next (h : plainStart c r.head? = true)
    (hc : c = '-' ∨ c = ':') : ends r = false := by
  have hind : isIndicator c = true := by
    rcases hc with rfl | rfl <;> decide
  rw [plainStart, hind] at h
  simp only [Bool.not_true, Bool.false_or, Bool.and_eq_true] at h
  obtain ⟨-, -, hnext⟩ := h
  cases r with
  | nil => cases hnext
  | cons d r =>
    have hns : isNs d = true := hnext
    exact isWhite_of_isNs hns

/-- **A plain scalar**, in front of what ends it. -/
theorem flow_plain {p rest : List Char} (hstart : plainStart c r.head? = true)
    (hsplit : plainSplit false (c :: r) = (p, rest))
    (hchars : ∀ d ∈ p, isNs d = true ∨ isWhite d = true)
    (hlast : ∀ d ∈ p.getLast?, isWhite d = false) :
    flow (c :: r) = .ok (.scalar (resolve p), rest) := by
  obtain ⟨hquote, hbracket, hbrace⟩ := plainStart_ne hstart
  have hcolon : ¬ (c = ':' ∧ ends r = true) := by
    rintro ⟨hc, hends⟩
    rw [plainStart_next hstart (.inr hc)] at hends
    cases hends
  have hall : (p.all fun d => isNs d || isWhite d) = true := by
    rw [all_eq_true]
    intro d hd
    rw [Bool.or_eq_true]
    exact hchars d hd
  have htrim : p.rdropWhile isWhite = p := by
    rw [rdropWhile_eq_self_iff]
    intro hne hwhite
    have := hlast (p.getLast hne) (getLast?_eq_some_getLast hne)
    rw [this] at hwhite
    cases hwhite
  rw [flow, if_neg hquote, if_neg (fun h => hbracket h.1), if_neg (fun h => hbrace h.1),
    if_neg hcolon, if_pos hstart, hsplit]
  simp only
  rw [if_pos hall, htrim]

theorem dash_plain (hstart : plainStart c r.head? = true) :
    dash? (c :: r) = none := by
  rw [dash?, if_neg]
  rintro ⟨hc, hends⟩
  rw [plainStart_next hstart (.inl hc)] at hends
  cases hends

/-- **A key without quotes** is what it looks like, whatever follows its colon. -/
theorem piece_plainText {k : List Char} (hk : PlainText k) (hr : ends r = true) :
    piece (k ++ ':' :: r) = .ok (.key (resolve k) (r.dropWhile isWhite)) := by
  obtain ⟨c, k', hck, hstart⟩ := hk.start
  have hhead : (k' ++ ':' :: r).head? = (k' ++ [':']).head? := by
    cases k' <;> rfl
  rw [← hhead] at hstart
  have hsplit : plainSplit false (c :: (k' ++ ':' :: r)) = (k, ':' :: r) := by
    have := plainSplit_key k false hr hk.unbroken
    rwa [hck, cons_append, ← hck] at this
  have hflow := flow_plain hstart hsplit hk.chars hk.last
  have hcolon : (':' :: r).dropWhile isWhite = ':' :: r := dropWhile_cons_of_neg (by decide)
  have hshort : (c :: (k' ++ ':' :: r)).length ≤ 1024 + (r.length + 1) := by
    have hlen := hk.short
    rw [hck] at hlen
    simp only [length_cons, length_append] at hlen ⊢
    omega
  have htext : k ++ ':' :: r = c :: (k' ++ ':' :: r) := by rw [hck, cons_append]
  rw [htext, piece, dash_plain hstart, hflow]
  simp only [hcolon, hr, hshort, and_self, if_true]

theorem piece_plainKey {k : List Char} (hk : PlainKey k) (hr : ends r = true) :
    piece (k ++ ':' :: r) = .ok (.key (.str (String.ofList k)) (r.dropWhile isWhite)) := by
  rw [piece_plainText hk.toPlainText hr, hk.word]

theorem piece_dash (t : List Char) : piece ('-' :: ' ' :: t) = .ok (.dash (' ' :: t)) := rfl

/-- A node on its own is no entry of a sequence. -/
theorem dash_of_alone {cs : List Char} {x : Node} (h : piece cs = .ok (.alone x)) :
    dash? cs = none := by
  rcases hdash : dash? cs with _ | r
  · rfl
  · rw [piece, hdash] at h
    cases h

/-! ## Values -/

/-- The characters of a number are among the printable ones of ASCII, and end no plain scalar. -/
theorem numChar_range (h : isNumChar c = true) :
    43 ≤ c.toNat ∧ c.toNat ≤ 101 ∧ c ≠ ':' := by
  rw [isNumChar] at h
  simp only [Bool.or_eq_true, beq_iff_eq] at h
  rcases h with ((((h | rfl) | rfl) | rfl) | rfl) | rfl
  · have hrange := digit_range h
    exact ⟨by omega, by omega, ne_of_range hrange (by decide)⟩
  all_goals decide

/-- A number in the notation of `Decimal.read`, if its characters are those of numbers. -/
theorem piece_number {t : List Char} {q : ℚ} (hread : Decimal.read t = some q)
    (hchars : ∀ c ∈ t, isNumChar c = true)
    (hstart : ∃ c r, t = c :: r ∧ plainStart c r.head? = true) :
    piece t = .ok (.alone (.scalar (.num q))) := by
  obtain ⟨c, r, rfl, hstart⟩ := hstart
  have hns : ∀ d ∈ c :: r, isNs d = true ∧ isWhite d = false ∧ d ≠ ':' ∧ d ≠ '#' := by
    intro d hd
    obtain ⟨hlow, hhigh, hcolon⟩ := numChar_range (hchars d hd)
    have hne : ∀ e : Char, e.toNat < 43 ∨ 101 < e.toNat → d ≠ e :=
      fun e he => ne_of_range ⟨hlow, hhigh⟩ he
    refine ⟨?_, ?_, hcolon, hne '#' (by decide)⟩
    · exact isNs_of_range ⟨by omega, by omega⟩
    · simp [isWhite, hne ' ' (by decide), hne '\t' (by decide)]
  have hsplit := plainSplit_all (c :: r) false fun d hd => (hns d hd).2.2
  have hflow := flow_plain hstart hsplit (fun d hd => .inl (hns d hd).1)
    (fun d hd => (hns d (mem_of_getLast? hd)).2.1)
  have hresolve : resolve (c :: r) = .num q := by
    rw [resolve, hread]
  rw [piece, dash_plain hstart, hflow, hresolve]
  rfl

/-- A digit starts a plain scalar, and so does a minus before a digit. -/
theorem plainStart_digit (h : c.isDigit = true) (next : Option Char) :
    plainStart c next = true := by
  have hrange := digit_range h
  rw [plainStart, isNs_of_range ⟨by omega, by omega⟩, isIndicator_of_range hrange (by decide)]
  rfl

theorem plainStart_minus {d : Char} (h : d.isDigit = true) : plainStart '-' (some d) = true := by
  have hd := plainStart_digit h none
  rw [plainStart, Bool.and_eq_true] at hd
  rw [plainStart, Option.any_some, hd.1]
  rfl

/-- Strings whose characters are written by a prefix code that the reader knows. -/
theorem readQuoted_flatMap {esc : Char → List Char}
    (hesc : ∀ c r, readQuotedChar (esc c ++ r) = some (c, r))
    (hhead : ∀ c r r', esc c ++ r ≠ '"' :: r') (rest : List Char) (s : List Char) {n : ℕ}
    (hn : s.length < n) : readQuoted n (s.flatMap esc ++ '"' :: rest) = some (s, rest) := by
  induction s generalizing n with
  | nil =>
    obtain ⟨n, rfl⟩ : ∃ m, n = m + 1 := ⟨n - 1, by simp at hn; omega⟩
    rw [flatMap_nil, nil_append, readQuoted, Digits.expect_self]
  | cons c s ih =>
    rw [length_cons] at hn
    obtain ⟨n, rfl⟩ : ∃ m, n = m + 1 := ⟨n - 1, by omega⟩
    have hquote : Digits.expect '"' (esc c ++ (s.flatMap esc ++ '"' :: rest)) = none := by
      have hne := hhead c (s.flatMap esc ++ '"' :: rest)
      rcases he : esc c ++ (s.flatMap esc ++ '"' :: rest) with _ | ⟨d, t⟩
      · rfl
      · rw [he] at hne
        apply expect_ne
        rintro rfl
        exact hne t rfl
    rw [flatMap_cons, append_assoc, readQuoted, hquote, hesc]
    simp only
    rw [ih (by omega)]
    rfl

/-- **A string in quotes.** -/
theorem piece_quoted {esc : Char → List Char}
    (hesc : ∀ c r, readQuotedChar (esc c ++ r) = some (c, r))
    (hhead : ∀ c r r', esc c ++ r ≠ '"' :: r') (s : String) :
    piece ('"' :: (s.toList.flatMap esc ++ ['"'])) = .ok (.alone (.scalar (.str s))) := by
  have hlen : s.toList.length < (s.toList.flatMap esc ++ ['"']).length + 1 := by
    have hle : ∀ cs : List Char, cs.length ≤ (cs.flatMap esc).length := by
      intro cs
      induction cs with
      | nil => exact Nat.le_refl _
      | cons c cs ih =>
        have hne : 0 < (esc c).length := by
          rw [length_pos_iff]
          intro hnil
          exact hhead c ['"'] [] (by rw [hnil]; rfl)
        rw [flatMap_cons, length_append, length_cons]
        omega
    have := hle s.toList
    rw [length_append]
    omega
  have hread := readQuoted_flatMap hesc hhead [] s.toList hlen
  have hflow : flow ('"' :: (s.toList.flatMap esc ++ ['"'])) = .ok (.scalar (.str s), []) := by
    rw [flow, if_pos rfl, hread]
    simp only [String.ofList_toList]
  rw [piece, dash?, if_neg (fun h => absurd h.1 (by decide)), hflow]
  rfl

/-- The escapes of JSON are escapes of YAML. -/
theorem readQuotedChar_backslash {uni : Char → Bool} (huni : ∀ c, uni c = true → c.toNat < 65536)
    (hcontrol : ∀ c : Char, c.toNat < 32 → uni c = true) (c : Char) (r : List Char) :
    readQuotedChar (backslash uni c ++ r) = some (c, r) := by
  unfold backslash
  split
  · rename_i letter hshort
    unfold shortEscape at hshort
    repeat' split at hshort
    all_goals first | (injection hshort with hl; subst_vars; rfl) | cases hshort
  · rename_i hshort
    split
    · rename_i hu
      have hvalid : c.toNat.isValidChar := c.valid
      have hwidth : hexEscapes.lookup 'u' = some 4 := rfl
      have hunit := codeUnit_hexDigits (huni c hu) r
      rw [codeUnit] at hunit
      show readEscape ('u' :: hexDigit (c.toNat / 4096) :: hexDigit (c.toNat / 256 % 16) ::
        hexDigit (c.toNat / 16 % 16) :: hexDigit (c.toNat % 16) :: r) = _
      rw [readEscape]
      simp only [hwidth, hunit, hvalid, if_true, Char.ofNat_toNat]
    · rename_i hu
      have hslash : c ≠ '\\' := by
        rintro rfl
        exact absurd hshort (by decide)
      show readQuotedChar (c :: r) = _
      rw [readQuotedChar, if_neg hslash, if_neg fun h => hu (hcontrol c h.1)]

end Yaml
