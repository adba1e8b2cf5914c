/-
  What the parser of cel-lite accepts.

  The parser reads what the grammar derives (`Tree.parses`, by induction on the derivation) and
  nothing else (`sound`, by induction on the fuel, one step for each method).  The second is a
  triple: on an input that ends in `eof`, with `Room` for all calls, a method reads a phrase or
  reports a syntax error, so that it neither runs out of fuel nor reads past the end.

  * **`parse_iff_derives`** — the parser returns the syntax tree of the derivation of its tokens, if
    there is one, and throws a syntax error if there is none;
  * `compileCEL_eq_ok_iff` — `compileCEL` returns the syntax tree of the derivation of the tokens of
    the pieces of its source.
-/
import FalseFlag.CelLite.CelGrammar

namespace FalseFlag.CelLite

open List Reading Triple CelLite.Symbol

/-! ## Completeness -/

/-- The calls that a method can need, besides five for each token. -/
def Symbol.need : Symbol → ℕ
  | .or => 5
  | .and => 4
  | .not => 3
  | .rel => 2
  | _ => 1

/-- The method of a symbol reads `w`, in front of `r`, as `v`. -/
def Symbol.Parses (n : ℕ) (w r : List Token) : (s : Symbol) → s.Value → Prop
  | .or, e => Takes (parseOr n) w e r
  | .ors, es => ∀ left, Takes (orLoop n left) w (es.foldl (.binary .or) left) r
  | .and, e => Takes (parseAnd n) w e r
  | .ands, es => ∀ left, Takes (andLoop n left) w (es.foldl (.binary .and) left) r
  | .not, e => Takes (parseNot n) w e r
  | .rel, e => Takes (parseRel n) w e r
  | .primary, e => Takes (parsePrimary n) w e r
  | .items, es => ∀ items, Takes (itemsLoop n items) w (items ++ es) r

theorem takes_expectPunct (value : Punct) (r : List Token) :
    Takes (expectPunct value) [.punct value] () r :=
  .accept_then (.pure () r)

/-- A loop ends where its separator does not come. -/
theorem takes_end {α : Type} {p : Reader Token ParseError α} {e : ParseError} {k : ℕ} {sep : Punct}
    {r : List Token} (hr : Stops k r) (hsep : k < (Token.punct sep).rank) (a : α) :
    Takes (accept e (.punct sep) >>= fun c => if c then p else pure a) [] a r := by
  obtain ⟨t, ht, hrank⟩ := hr
  refine .accept_else ht ?_ (.pure a r)
  rintro rfl
  omega

theorem takes_pathLoop : ∀ {tail : List JsString} {n : ℕ} (parts : List JsString) {r : List Token},
    tail.length < n → Stops 4 r → Takes (pathLoop n parts) (segments tail) (parts ++ tail) r
  | [], n + 1, parts, r, _, hr => by
    rw [append_nil]
    exact takes_end hr (by decide) parts
  | part :: tail, n + 1, parts, r, hn, hr => by
    have ih := takes_pathLoop (parts ++ [part]) (Nat.lt_of_succ_lt_succ hn) hr
    rw [append_assoc, singleton_append] at ih
    exact .accept_then (.take_bind ih)

/-- **What the grammar derives, the parser reads**, where nothing comes that continues it. -/
theorem Tree.parses : ∀ {s : Symbol} (t : Tree s) {n : ℕ} {r : List Token}, Stops s.level r →
    5 * t.yield.length + s.need ≤ n + 1 → s.Parses (n + 1) t.yield r t.value := by
  intro s t
  induction t with
  | or head tail ihHead ihTail =>
    intro n r hr hn
    have hn : 5 * (head.yield ++ tail.yield).length + 5 ≤ n + 1 := hn
    rw [length_append] at hn
    obtain ⟨m, rfl⟩ : ∃ m, n = m + 1 := ⟨n - 1, by omega⟩
    show Takes (parseOr (m + 2)) _ _ _
    rw [parseOr]
    exact Takes.bind (ihHead (stops_ors hr) (show _ + 4 ≤ _ by omega))
      (ihTail hr (show _ + 1 ≤ _ by omega) _)
  | orsNil =>
    intro n r hr hn left
    rw [orLoop]
    exact takes_end hr (by decide) left
  | orsCons operand tail ihOperand ihTail =>
    intro n r hr hn left
    have hn : 5 * ((operand.yield ++ tail.yield).length + 1) + 1 ≤ n + 1 := hn
    rw [length_append] at hn
    obtain ⟨m, rfl⟩ : ∃ m, n = m + 1 := ⟨n - 1, by omega⟩
    rw [orLoop]
    exact .accept_then (Takes.bind (ihOperand (stops_ors hr) (show _ + 4 ≤ _ by omega))
      (ihTail hr (show _ + 1 ≤ _ by omega) _))
  | and head tail ihHead ihTail =>
    intro n r hr hn
    have hn : 5 * (head.yield ++ tail.yield).length + 4 ≤ n + 1 := hn
    rw [length_append] at hn
    obtain ⟨m, rfl⟩ : ∃ m, n = m + 1 := ⟨n - 1, by omega⟩
    show Takes (parseAnd (m + 2)) _ _ _
    rw [parseAnd]
    exact Takes.bind (ihHead (stops_ands hr) (show _ + 3 ≤ _ by omega))
      (ihTail hr (show _ + 1 ≤ _ by omega) _)
  | andsNil =>
    intro n r hr hn left
    rw [andLoop]
    exact takes_end hr (by decide) left
  | andsCons operand tail ihOperand ihTail =>
    intro n r hr hn left
    have hn : 5 * ((operand.yield ++ tail.yield).length + 1) + 1 ≤ n + 1 := hn
    rw [length_append] at hn
    obtain ⟨m, rfl⟩ : ∃ m, n = m + 1 := ⟨n - 1, by omega⟩
    rw [andLoop]
    exact .accept_then (Takes.bind (ihOperand (stops_ands hr) (show _ + 3 ≤ _ by omega))
      (ihTail hr (show _ + 1 ≤ _ by omega) _))
  | not operand ih =>
    intro n r hr hn
    have hn : 5 * (operand.yield.length + 1) + 3 ≤ n + 1 := hn
    obtain ⟨m, rfl⟩ : ∃ m, n = m + 1 := ⟨n - 1, by omega⟩
    show Takes (parseNot (m + 2)) _ _ _
    rw [parseNot]
    exact .accept_then (Takes.bind_nil (ih hr (show _ + 3 ≤ _ by omega)) (.pure _ r))
  | rel operand ih =>
    intro n r hr hn
    have hn : 5 * operand.yield.length + 3 ≤ n + 1 := hn
    obtain ⟨m, rfl⟩ : ∃ m, n = m + 1 := ⟨n - 1, by omega⟩
    obtain ⟨tok, w, hyield, hopens⟩ := operand.head_rel
    show Takes (parseNot (m + 2)) operand.yield _ _
    rw [parseNot]
    refine .accept_else (u := tok) (by rw [hyield]; rfl) ?_ (ih hr (show _ + 2 ≤ _ by omega))
    rintro rfl
    nomatch hopens
  | primary operand ih =>
    intro n r hr hn
    have hn : 5 * operand.yield.length + 2 ≤ n + 1 := hn
    obtain ⟨m, rfl⟩ : ∃ m, n = m + 1 := ⟨n - 1, by omega⟩
    have hoperand := ih (hr.mono (Nat.le_succ 3)) (show _ + 1 ≤ m + 1 by omega)
    obtain ⟨t, ht, hrank⟩ := hr
    show Takes (parseRel (m + 2)) _ _ _
    rw [parseRel]
    refine Takes.bind_nil hoperand (.head_bind (t := t) ht ?_)
    rw [relOp?_of_rank hrank]
    exact .pure _ r
  | compare left op right ihLeft ihRight =>
    intro n r hr hn
    have hn : 5 * (left.yield ++ op.token :: right.yield).length + 2 ≤ n + 1 := hn
    rw [length_append, length_cons] at hn
    obtain ⟨m, rfl⟩ : ∃ m, n = m + 1 := ⟨n - 1, by omega⟩
    show Takes (parseRel (m + 2)) _ _ _
    rw [parseRel]
    refine Takes.bind (ihLeft (stops_token op _) (show _ + 1 ≤ _ by omega)) (.head_bind (t := op.token) rfl ?_)
    rw [relOp?_token]
    exact .advance_bind (Takes.bind_nil (ihRight (hr.mono (Nat.le_succ 3))
      (show _ + 1 ≤ _ by omega)) (.pure _ r))
  | paren inner ih =>
    intro n r hr hn
    have hn : 5 * ((inner.yield ++ [Token.punct .rparen]).length + 1) + 1 ≤ n + 1 := hn
    rw [length_append] at hn
    obtain ⟨m, rfl⟩ : ∃ m, n = m + 1 := ⟨n - 1, by omega⟩
    show Takes (parsePrimary (m + 2)) _ _ _
    rw [parsePrimary]
    refine .head_bind (t := .punct .lparen) rfl ?_
    show Takes (advance >>= fun _ => _) (_ :: _) _ _
    exact .advance_bind (Takes.bind (ih (stops_close .rparen rfl r) (show _ + 5 ≤ _ by omega))
      ((takes_expectPunct .rparen r).bind_nil (.pure _ r)))
  | empty =>
    intro n r hr hn
    show Takes (parsePrimary (n + 1)) _ _ _
    rw [parsePrimary]
    refine .head_bind (t := .punct .lbracket) rfl ?_
    show Takes (advance >>= fun _ => _) (_ :: _) _ _
    exact .advance_bind (.accept_then (.pure _ r))
  | list head tail ihHead ihTail =>
    intro n r hr hn
    have hn : 5 * ((head.yield ++ (tail.yield ++ [Token.punct .rbracket])).length + 1) + 1 ≤ n + 1 := hn
    rw [length_append, length_append] at hn
    obtain ⟨m, rfl⟩ : ∃ m, n = m + 1 := ⟨n - 1, by omega⟩
    obtain ⟨tok, w, hyield, hopens⟩ := head.head_or
    show Takes (parsePrimary (m + 2)) _ _ _
    rw [parsePrimary]
    refine .head_bind (t := .punct .lbracket) rfl ?_
    show Takes (advance >>= fun _ => _) (_ :: _) _ _
    refine .advance_bind (.accept_else (u := tok) ?_ ?_
      (Takes.bind (ihHead (stops_list tail r) (show _ + 5 ≤ _ by omega)) ?_))
    · rw [hyield]
      rfl
    · rintro rfl
      rcases hopens with hopens | hopens <;> nomatch hopens
    · exact Takes.bind (ihTail (stops_close .rbracket rfl r) (show _ + 1 ≤ _ by omega) [head.value])
        ((takes_expectPunct .rbracket r).bind_nil (.pure _ r))
  | literal value =>
    intro n r hr hn
    show Takes (parsePrimary (n + 1)) _ _ _
    rw [parsePrimary]
    refine .head_bind (t := value.token) rfl ?_
    cases value <;> exact .advance_bind (.pure _ r)
  | path head tail =>
    intro n r hr hn
    have hn : 5 * ((segments tail).length + 1) + 1 ≤ n + 1 := hn
    rw [length_segments] at hn
    show Takes (parsePrimary (n + 1)) _ _ _
    rw [parsePrimary]
    refine .head_bind (t := .ident head) rfl ?_
    show Takes (advance >>= fun _ => _) (_ :: _) _ _
    exact .advance_bind ((takes_pathLoop [head] (by omega) hr).bind_nil (.pure _ r))
  | itemsNil =>
    intro n r hr hn items
    rw [itemsLoop, show items ++ (itemsNil.value : List Ast) = items from append_nil items]
    exact takes_end hr (by decide) items
  | itemsCons item tail ihItem ihTail =>
    intro n r hr hn items
    have hn : 5 * ((item.yield ++ tail.yield).length + 1) + 1 ≤ n + 1 := hn
    rw [length_append] at hn
    obtain ⟨m, rfl⟩ : ∃ m, n = m + 1 := ⟨n - 1, by omega⟩
    have ih := ihTail hr (show _ + 1 ≤ m + 1 by omega) (items ++ [item.value])
    rw [append_assoc, singleton_append] at ih
    rw [itemsLoop]
    exact .accept_then (Takes.bind (ihItem (stops_items hr) (show _ + 5 ≤ _ by omega)) ih)

/-! ## Soundness -/

/-- Errors about what is written, not about how it is read. -/
def ParseError.Syntactic : ParseError → Prop
  | .peekPastEnd | .nextPastEnd | .outOfFuel => False
  | _ => True

/-- The input ends in a single `eof`, and there is fuel for it. -/
def Room (k n : ℕ) (s : List Token) : Prop :=
  (∃ w, s = w ++ [.eof] ∧ .eof ∉ w) ∧ 5 * s.length + k ≤ n

theorem Room.ne_nil {k n : ℕ} (s : List Token) (h : Room k n s) : s ≠ [] := by
  obtain ⟨⟨w, rfl, -⟩, -⟩ := h
  exact append_ne_nil_of_right_ne_nil w (cons_ne_nil _ _)

/-- A call of a method that needs less. -/
theorem Room.call {k m n : ℕ} {s : List Token} (hk : m < k) (h : Room k (n + 1) s) : Room m n s :=
  ⟨h.1, by have := h.2; omega⟩

/-- A call after something has been read. -/
theorem Room.after {k m n : ℕ} {w r : List Token} (h : Room k (n + 1) (w ++ r)) (hw : w ≠ [])
    (heof : .eof ∉ w) (hm : m ≤ k + 4) : Room m n r := by
  obtain ⟨⟨v, hv, hv'⟩, hlen⟩ := h
  have hpos := length_pos_of_ne_nil hw
  rw [length_append] at hlen
  refine ⟨?_, by omega⟩
  rcases append_eq_append_iff.mp hv with ⟨u, rfl, rfl⟩ | ⟨u, rfl, hu⟩
  · exact ⟨u, rfl, fun h => hv' (mem_append_right _ h)⟩
  · cases u with
    | nil => exact ⟨[], hu.symm, not_mem_nil⟩
    | cons t u =>
      obtain ⟨rfl, -⟩ := List.cons.inj hu
      exact absurd (mem_append_right _ mem_cons_self) heof

/-- A call after a punctuation, and what was read after it. -/
theorem Room.after_punct {k m n : ℕ} {p : Punct} {w r : List Token}
    (h : Room k (n + 1) (.punct p :: (w ++ r))) (heof : .eof ∉ w) (hm : m ≤ k + 4) : Room m n r :=
  Room.after (w := .punct p :: w) h (cons_ne_nil _ _)
    (not_mem_cons_of_ne_of_not_mem nofun heof) hm

/-- The method of a symbol reads what the grammar derives, or reports a syntax error. -/
def Symbol.Sound (n : ℕ) : Symbol → Prop
  | .or => Triple (Room 5 n) (parseOr n)
      (fun e w => ∃ t : Tree .or, t.yield = w ∧ t.value = e) ParseError.Syntactic
  | .ors => ∀ left, Triple (Room 1 n) (orLoop n left)
      (fun e w => ∃ t : Tree .ors, t.yield = w ∧ t.value.foldl (.binary .or) left = e)
      ParseError.Syntactic
  | .and => Triple (Room 4 n) (parseAnd n)
      (fun e w => ∃ t : Tree .and, t.yield = w ∧ t.value = e) ParseError.Syntactic
  | .ands => ∀ left, Triple (Room 1 n) (andLoop n left)
      (fun e w => ∃ t : Tree .ands, t.yield = w ∧ t.value.foldl (.binary .and) left = e)
      ParseError.Syntactic
  | .not => Triple (Room 3 n) (parseNot n)
      (fun e w => ∃ t : Tree .not, t.yield = w ∧ t.value = e) ParseError.Syntactic
  | .rel => Triple (Room 2 n) (parseRel n)
      (fun e w => ∃ t : Tree .rel, t.yield = w ∧ t.value = e) ParseError.Syntactic
  | .primary => Triple (Room 1 n) (parsePrimary n)
      (fun e w => ∃ t : Tree .primary, t.yield = w ∧ t.value = e) ParseError.Syntactic
  | .items => ∀ items, Triple (Room 1 n) (itemsLoop n items)
      (fun es w => ∃ t : Tree .items, t.yield = w ∧ items ++ (t.value : List Ast) = es)
      ParseError.Syntactic

/-- Nothing is left of no fuel. -/
theorem sound_zero (s : Symbol) : s.Sound 0 := by
  have hroom : ∀ {k : ℕ} {s : List Token}, ¬ Room (k + 1) 0 s := fun h => absurd h.2 (by omega)
  cases s with
  | or | and | not | rel | primary => exact fun _ h => absurd h hroom
  | ors | ands | items => exact fun _ _ h => absurd h hroom

section Step

variable {n : ℕ}

theorem sound_or (hand : and.Sound n) (hors : ors.Sound n) :
    or.Sound (n + 1) := by
  show Triple _ (parseOr (n + 1)) _ _
  rw [parseOr]
  refine bind (mono hand (fun _ h => h.call (by decide)) fun _ _ h => h) ?_
  rintro _ _ ⟨head, rfl, rfl⟩
  refine mono (hors _) (fun _ h => h.after head.and_ne_nil head.eof_not_mem (by decide)) ?_
  rintro _ _ ⟨tail, rfl, rfl⟩
  exact ⟨.or head tail, rfl, rfl⟩

theorem sound_ors (hand : and.Sound n) (hors : ors.Sound n) :
    ors.Sound (n + 1) := by
  intro left
  rw [orLoop]
  refine .accept_ite Room.ne_nil ?_ (.pure ⟨.orsNil, rfl, rfl⟩)
  refine bind (mono hand
    (fun _ h => Room.after_punct (w := []) h not_mem_nil (by decide)) fun _ _ h => h) ?_
  rintro _ _ ⟨operand, rfl, rfl⟩
  refine mono (hors _) (fun _ h => h.after_punct operand.eof_not_mem (by decide)) ?_
  rintro _ _ ⟨tail, rfl, rfl⟩
  exact ⟨.orsCons operand tail, rfl, rfl⟩

theorem sound_and (hnot : not.Sound n) (hands : ands.Sound n) :
    and.Sound (n + 1) := by
  show Triple _ (parseAnd (n + 1)) _ _
  rw [parseAnd]
  refine bind (mono hnot (fun _ h => h.call (by decide)) fun _ _ h => h) ?_
  rintro _ _ ⟨head, rfl, rfl⟩
  refine mono (hands _) (fun _ h => h.after head.not_ne_nil head.eof_not_mem (by decide)) ?_
  rintro _ _ ⟨tail, rfl, rfl⟩
  exact ⟨.and head tail, rfl, rfl⟩

theorem sound_ands (hnot : not.Sound n) (hands : ands.Sound n) :
    ands.Sound (n + 1) := by
  intro left
  rw [andLoop]
  refine .accept_ite Room.ne_nil ?_ (.pure ⟨.andsNil, rfl, rfl⟩)
  refine bind (mono hnot
    (fun _ h => Room.after_punct (w := []) h not_mem_nil (by decide)) fun _ _ h => h) ?_
  rintro _ _ ⟨operand, rfl, rfl⟩
  refine mono (hands _) (fun _ h => h.after_punct operand.eof_not_mem (by decide)) ?_
  rintro _ _ ⟨tail, rfl, rfl⟩
  exact ⟨.andsCons operand tail, rfl, rfl⟩

theorem sound_not (hnot : not.Sound n) (hrel : rel.Sound n) :
    not.Sound (n + 1) := by
  show Triple _ (parseNot (n + 1)) _ _
  rw [parseNot]
  refine .accept_ite Room.ne_nil ?_ ?_
  · refine bind (mono hnot
      (fun _ h => Room.after_punct (w := []) h not_mem_nil (by decide)) fun _ _ h => h) ?_
    rintro _ _ ⟨operand, rfl, rfl⟩
    exact .pure ⟨.not operand, by rw [append_nil]; rfl, rfl⟩
  · refine mono hrel (fun _ h => h.call (by decide)) ?_
    rintro _ _ ⟨operand, rfl, rfl⟩
    exact ⟨.rel operand, rfl, rfl⟩

theorem sound_rel (hprimary : primary.Sound n) : rel.Sound (n + 1) := by
  show Triple _ (parseRel (n + 1)) _ _
  rw [parseRel]
  refine bind (mono hprimary (fun _ h => h.call (by decide)) fun _ _ h => h) ?_
  rintro _ _ ⟨left, rfl, rfl⟩
  refine .head_bind ?_ fun t => ?_
  · intro r h
    exact (Room.after (m := 1) h left.primary_ne_nil left.eof_not_mem (by decide)).ne_nil
  · cases hop : relOp? t with
    | none => exact .pure ⟨.primary left, by rw [append_nil]; rfl, rfl⟩
    | some op =>
      obtain rfl := token_of_relOp? hop
      refine .advance_bind (bind (mono hprimary (fun r h => ?_) fun _ _ h => h) ?_)
      · rw [← singleton_append, ← append_assoc] at h
        refine h.after (append_ne_nil_of_right_ne_nil _ (cons_ne_nil _ _)) ?_ (by decide)
        exact not_mem_append left.eof_not_mem
          (not_mem_cons_of_ne_of_not_mem op.eof_ne not_mem_nil)
      · rintro _ _ ⟨right, rfl, rfl⟩
        exact .pure ⟨.compare left op right, by rw [append_nil]; rfl, rfl⟩

theorem sound_items (hor : or.Sound n) (hitems : items.Sound n) :
    items.Sound (n + 1) := by
  intro items
  rw [itemsLoop]
  refine .accept_ite Room.ne_nil ?_ (.pure ⟨.itemsNil, rfl, append_nil _⟩)
  refine bind (mono hor
    (fun _ h => Room.after_punct (w := []) h not_mem_nil (by decide)) fun _ _ h => h) ?_
  rintro _ _ ⟨item, rfl, rfl⟩
  refine mono (hitems _) (fun _ h => h.after_punct item.eof_not_mem (by decide)) ?_
  rintro _ _ ⟨tail, rfl, rfl⟩
  exact ⟨.itemsCons item tail, rfl, (append_assoc items [item.value] tail.value).symm⟩

theorem sound_expectPunct {P : List Token → Prop} {value : Punct} (hP : ∀ s, P s → s ≠ []) :
    Triple P (expectPunct value) (fun _ w => w = [.punct value]) ParseError.Syntactic :=
  .accept_ite hP (.pure rfl) (.head_bind hP fun _ => .throw trivial)

theorem sound_pathLoop : ∀ {n : ℕ} (parts : List JsString), Triple (Room 1 n) (pathLoop n parts)
    (fun ps w => ∃ tail, segments tail = w ∧ parts ++ tail = ps) ParseError.Syntactic
  | 0, _ => fun _ h => absurd h.2 (by omega)
  | n + 1, parts => by
    rw [pathLoop]
    refine .accept_ite Room.ne_nil (.take_bind ?_ fun seg => ?_) (.pure ⟨[], rfl, append_nil _⟩)
    · exact fun r h => (Room.after_punct (m := 1) (w := []) h not_mem_nil (by decide)).ne_nil
    · cases seg with
      | ident value =>
        refine (sound_pathLoop (parts ++ [value])).mono (fun r h => ?_) ?_
        · exact Room.after_punct (w := [.ident value]) h (eof_not_mem_ident value) (by decide)
        · rintro _ _ ⟨tail, rfl, rfl⟩
          exact ⟨value :: tail, rfl, (append_assoc parts [value] tail).symm⟩
      | string _ | number _ | bool _ | null | punct _ | eof => exact .throw trivial

theorem sound_primary (hor : or.Sound n) (hitems : items.Sound n) :
    primary.Sound (n + 1) := by
  show Triple _ (parsePrimary (n + 1)) _ _
  rw [parsePrimary]
  refine .head_bind Room.ne_nil fun t => ?_
  split
  · refine .advance_bind (bind (mono hor
      (fun _ h => Room.after_punct (w := []) h not_mem_nil (by decide)) fun _ _ h => h) ?_)
    rintro _ _ ⟨inner, rfl, rfl⟩
    refine bind (sound_expectPunct fun r h =>
      (Room.after_punct (m := 1) h inner.eof_not_mem (by decide)).ne_nil) ?_
    rintro _ _ rfl
    exact .pure ⟨.paren inner, rfl, rfl⟩
  · refine .advance_bind (.accept_ite ?_ (.pure ⟨.empty, rfl, rfl⟩) ?_)
    · exact fun r h => (Room.after_punct (m := 1) (w := []) h not_mem_nil (by decide)).ne_nil
    · refine bind (mono hor
        (fun _ h => Room.after_punct (w := []) h not_mem_nil (by decide)) fun _ _ h => h) ?_
      rintro _ _ ⟨head, rfl, rfl⟩
      refine bind (mono (hitems _)
        (fun _ h => h.after_punct head.eof_not_mem (by decide)) fun _ _ h => h) ?_
      rintro _ _ ⟨tail, rfl, rfl⟩
      refine bind (sound_expectPunct fun r h => ?_) ?_
      · rw [← append_assoc] at h
        exact (Room.after_punct (m := 1) h
          (not_mem_append head.eof_not_mem tail.eof_not_mem) (by decide)).ne_nil
      · rintro _ _ rfl
        exact .pure ⟨.list head tail, rfl, rfl⟩
  · rename_i value
    exact .advance_bind (.pure ⟨.literal (.string value), rfl, rfl⟩)
  · rename_i value
    exact .advance_bind (.pure ⟨.literal (.number value), rfl, rfl⟩)
  · rename_i value
    exact .advance_bind (.pure ⟨.literal (.bool value), rfl, rfl⟩)
  · exact .advance_bind (.pure ⟨.literal .null, rfl, rfl⟩)
  · rename_i value
    refine .advance_bind (bind (mono (sound_pathLoop [value]) (fun r h => ?_)
      fun _ _ h => h) ?_)
    · exact Room.after (w := [.ident value]) h (cons_ne_nil _ _) (eof_not_mem_ident value)
        (by decide)
    · rintro _ _ ⟨tail, rfl, rfl⟩
      exact .pure ⟨.path value tail, by rw [append_nil]; rfl, rfl⟩
  · exact .throw trivial

end Step

/-- **What the parser reads, the grammar derives**, and what it throws is a syntax error. -/
theorem sound (n : ℕ) : ∀ s : Symbol, s.Sound n := by
  induction n with
  | zero => exact sound_zero
  | succ n ih =>
    intro s
    cases s with
    | or => exact sound_or (ih .and) (ih .ors)
    | ors => exact sound_ors (ih .and) (ih .ors)
    | and => exact sound_and (ih .not) (ih .ands)
    | ands => exact sound_ands (ih .not) (ih .ands)
    | not => exact sound_not (ih .not) (ih .rel)
    | rel => exact sound_rel (ih .primary)
    | primary => exact sound_primary (ih .or) (ih .items)
    | items => exact sound_items (ih .or) (ih .items)

/-! ## The whole input -/

/-- `parse`, after the expression has been read. -/
theorem parse_of_run {fuel : ℕ} {tokens r : List Token} {t : Token} {e : Ast}
    (h : parseOr fuel tokens = .ok (e, t :: r)) :
    parse fuel tokens =
      if t = .eof then .ok e else .error (.trailing (tokens.length - (t :: r).length)) := by
  rw [parse, h]
  rfl

/-- The parser returns the tree of a derivation, or throws a syntax error. -/
theorem parse_outcome {w : List Token} (hw : .eof ∉ w) {fuel : ℕ}
    (hfuel : parseFuel (w ++ [.eof]) ≤ fuel) :
    (∃ t : Tree .or, t.yield = w ∧ parse fuel (w ++ [.eof]) = .ok t.value) ∨
      ∃ err, parse fuel (w ++ [.eof]) = .error err ∧ err.Syntactic := by
  have hroom : Room 5 fuel (w ++ [.eof]) := ⟨⟨w, rfl, hw⟩, hfuel⟩
  rcases sound fuel .or _ hroom with ⟨_, _, r, hsplit, hrun, t, rfl, rfl⟩ | ⟨err, hrun, herr⟩
  · obtain ⟨m, rfl⟩ : ∃ m, fuel = m + 1 := ⟨fuel - 1, by have := hroom.2; omega⟩
    rw [hsplit] at hroom
    obtain ⟨⟨v, rfl, hv⟩, -⟩ := Room.after (m := 0) hroom t.or_ne_nil t.eof_not_mem (by omega)
    cases v with
    | nil =>
      exact .inl ⟨t, (append_cancel_right hsplit).symm, (parse_of_run hrun).trans (if_pos rfl)⟩
    | cons tok v =>
      have htok : tok ≠ .eof := fun h => hv (h ▸ mem_cons_self)
      exact .inr ⟨_, (parse_of_run hrun).trans (if_neg htok), trivial⟩
  · refine .inr ⟨err, ?_, herr⟩
    rw [parse, hrun]
    rfl

/-- The parser returns the tree of every derivation. -/
theorem parse_of_derives (t : Tree .or) {fuel : ℕ} (hfuel : parseFuel (t.yield ++ [.eof]) ≤ fuel) :
    parse fuel (t.yield ++ [.eof]) = .ok t.value := by
  have hlen : 5 * (t.yield ++ [Token.eof]).length + 5 ≤ fuel := hfuel
  rw [length_append] at hlen
  obtain ⟨m, rfl⟩ : ∃ m, fuel = m + 1 := ⟨fuel - 1, by omega⟩
  have hrun : parseOr (m + 1) (t.yield ++ [.eof]) = .ok (t.value, [.eof]) :=
    t.parses stops_eof (show _ + 5 ≤ m + 1 by omega)
  exact (parse_of_run hrun).trans (if_pos rfl)

/-- **The parser returns what the grammar derives.** -/
theorem parse_iff_derives {w : List Token} (hw : .eof ∉ w) {fuel : ℕ}
    (hfuel : parseFuel (w ++ [.eof]) ≤ fuel) :
    (∀ e, parse fuel (w ++ [.eof]) = .ok e ↔ ∃ t : Tree .or, t.yield = w ∧ t.value = e) ∧
      (∀ t t' : Tree .or, t.yield = w → t'.yield = w → t = t') ∧
      ((¬ ∃ t : Tree .or, t.yield = w) →
        ∃ err, parse fuel (w ++ [.eof]) = .error err) ∧
      ∀ err, parse fuel (w ++ [.eof]) = .error err → err.Syntactic := by
  refine ⟨fun e => ⟨fun h => ?_, ?_⟩, fun t t' h h' => Tree.unique (h.trans h'.symm), fun hnone => ?_,
    fun err h => ?_⟩
  · rcases parse_outcome hw hfuel with ⟨t, hyield, ht⟩ | ⟨err, herr, -⟩
    · exact ⟨t, hyield, Except.ok.inj (ht.symm.trans h)⟩
    · nomatch herr.symm.trans h
  · rintro ⟨t, rfl, rfl⟩
    exact parse_of_derives t hfuel
  · rcases parse_outcome hw hfuel with ⟨t, hyield, -⟩ | ⟨err, herr, -⟩
    · exact absurd ⟨t, hyield⟩ hnone
    · exact ⟨err, herr⟩
  · rcases parse_outcome hw hfuel with ⟨t, -, ht⟩ | ⟨err', herr, hsyntax⟩
    · nomatch ht.symm.trans h
    · rw [Except.error.inj (h.symm.trans herr)]
      exact hsyntax

/-- `!a == b || c` -/
def bangTokens : List Token :=
  [.punct .bang, .ident (units "a"), .punct .eq, .ident (units "b"), .punct .or, .ident (units "c")]

theorem bangTokens_derives : Token.eof ∉ bangTokens ∧
    parseFuel (bangTokens ++ [.eof]) ≤ 40 ∧
    ∃ e, parse 40 (bangTokens ++ [.eof]) = .ok e ∧ ∃ t : Tree .or, t.yield = bangTokens ∧ t.value = e := by
  have heof : Token.eof ∉ bangTokens := by decide
  have hfuel : parseFuel (bangTokens ++ [.eof]) ≤ 40 := by decide
  refine ⟨heof, hfuel, _, rfl, ?_⟩
  exact ((parse_iff_derives heof hfuel).1 _).mp rfl

/-! ## From the source -/

/-- What `compileCEL` throws. -/
inductive CompileError where
  | lexer (e : LexError)
  | parser (e : ParseError)

/-- `compileCEL`: the syntax tree of the program. -/
def compileCEL (source : JsString) : Except CompileError Ast := do
  let tokens ← (tokenize source).mapError .lexer
  (parse (parseFuel tokens) tokens).mapError .parser

theorem wordToken_ne_eof (word : JsString) : wordToken word ≠ .eof := by
  unfold wordToken
  repeat' split
  all_goals exact nofun

/-- No piece is read as the end. -/
theorem eof_not_mem_tokens (ps : List Piece) : .eof ∉ ps.filterMap Piece.token := by
  intro h
  obtain ⟨p, -, hp⟩ := mem_filterMap.mp h
  cases p with
  | word text => exact wordToken_ne_eof text (Option.some.inj hp)
  | space _ | quoted _ _ | run _ | punct _ => nomatch hp

/-- **`compileCEL` returns what the grammar derives** from the pieces of the source. -/
theorem compileCEL_eq_ok_iff {source : JsString} {e : Ast} :
    compileCEL source = .ok e ↔ ∃ (ps : List Piece) (t : Tree .or), Splits source ps ∧
      t.yield = ps.filterMap Piece.token ∧ t.value = e := by
  rw [compileCEL, Fallible.bind_eq_ok]
  constructor
  · rintro ⟨tokens, htokens, hparse⟩
    obtain ⟨ps, hps, rfl⟩ := tokenize_eq_ok_iff.mp (Fallible.mapError_eq_ok.mp htokens)
    rw [Fallible.mapError_eq_ok] at hparse
    rcases parse_outcome (eof_not_mem_tokens ps) (Nat.le_refl _) with ⟨t, hyield, ht⟩ | ⟨_, herr, -⟩
    · exact ⟨ps, t, hps, hyield, Except.ok.inj (ht.symm.trans hparse)⟩
    · nomatch herr.symm.trans hparse
  · rintro ⟨ps, t, hps, hyield, rfl⟩
    refine ⟨t.yield ++ [.eof], Fallible.mapError_eq_ok.mpr ?_, Fallible.mapError_eq_ok.mpr ?_⟩
    · exact tokenize_eq_ok_iff.mpr ⟨ps, hps, by rw [hyield]⟩
    · exact parse_of_derives t (Nat.le_refl _)

end FalseFlag.CelLite
