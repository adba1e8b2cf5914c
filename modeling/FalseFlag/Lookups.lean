/-
  One path, two walks: `lookup` of internal/eval/predicates.go and `lookup` of
  sdk-js/src/evaluator.ts.

  Go steps through maps and asks whether the key is there.  JavaScript reads a property of anything
  that is an object, so it also steps into arrays, and finds what objects and arrays INHERIT.  And
  the strings of JavaScript are code units: where half of a surrogate pair stands alone Go has read
  U+FFFD, so that two keys of the context can be one to Go, and a string that is found is another
  there.  Where the two agree is followed along the path:
  * `objectChain`, `arrayChain` — paths that lead somewhere from an object, or an array, by names
    that are not its own;
  * `agrees` — the context and the path let the two walks end alike;
  * **`lookups_agree_iff`** — the two lookups agree iff `agrees` says so.
-/
import FalseFlag.JsEvaluator
import FalseFlag.Lib.Utf16

namespace FalseFlag

open JsonTree Json Ecma
open List hiding replace
open Strings (ofText split)

/-! ## Names that are not an object's own -/

/-- A name that every object inherits. -/
def objectName (name : String) : Bool := name = "__proto__" || name ∈ objectMethods

/-- A name that every array has, its elements apart. -/
def arrayName (name : String) : Bool :=
  name = "length" || name ∈ arrayMethods || objectName name

/-- The path leads somewhere from an object that has no member of its first name: to an inherited
    member, or through `__proto__` to a member of `Object.prototype`, whose own prototype is null. -/
def objectChain : List String → Bool
  | [name] => objectName name
  | ["__proto__", name] => objectName name
  | _ => false

/-- The path leads somewhere from an array, not through an element. -/
def arrayChain : List String → Bool
  | [name] => arrayName name
  | ["__proto__", name] => arrayName name
  | ["__proto__", "__proto__", name] => objectName name
  | _ => false

section Walks

variable {S : Type} [Strings S] [DecidableEq S]

/-- What the path leads to in JavaScript is something, from a value that was parsed. -/
def finds : Json ℚ S → List S → Bool
  | _, [] => true
  | .obj members, part :: parts =>
    match members.lookup part with
    | some v => finds v parts
    | none => objectChain ((part :: parts).map Strings.text)
  | .arr items, part :: parts =>
    match index? part with
    | some i =>
      match items[i]? with
      | some v => finds v parts
      | none => false
    | none => arrayChain ((part :: parts).map Strings.text)
  | _, _ :: _ => false

/-- The member that Go reads under a key: the last whose name is read as the key. -/
def lastRead (ms : List (S × Doc S)) (key : String) : Option (S × Doc S) :=
  ms.reverse.find? fun m => Strings.text m.1 = key

/-- **Where the walks end alike.**  At its end the path is at a value without unpaired surrogates.
    On the way, where Go steps into a member, JavaScript steps into the same one, or they go on into
    different ones and find the same; and where Go stops, JavaScript finds nothing. -/
def agrees : Doc S → List S → Prop
  | d, [] => (parseDoc d).Textual
  | .obj ms, part :: parts =>
    match lastRead ms (Strings.text part) with
    | none => objectChain ((part :: parts).map Strings.text) = false
    | some (name, d) =>
      if name = part then agrees d parts
      else Found (walkPath (getProperty (.data (parseDoc (.obj ms))) part) parts)
        (lookupParts (Doc.value d.text) (parts.map Strings.text))
  | d, part :: parts => finds (parseDoc d) (part :: parts) = false

/-! ## JavaScript -/

/-- Only objects have properties: the loop gives up at anything else. -/
theorem walkPath_stop {v : Ecma.Value ℚ S} (hv : v.isNull = true ∨ v.typeOf ≠ .object) (part : S)
    (parts : List S) : walkPath v (part :: parts) = .undefined := by
  rw [walkPath, if_pos hv]

theorem walkPath_step {v : Ecma.Value ℚ S} (hnull : v.isNull = false) (hobj : v.typeOf = .object)
    (part : S) (parts : List S) :
    walkPath v (part :: parts) = walkPath (getProperty v part) parts := by
  rw [walkPath, if_neg]
  rintro (h | h)
  · rw [hnull] at h
    cases h
  · exact h hobj

/-- A function or a scalar is found, and nothing in it. -/
theorem walkPath_end (v : Ecma.Value ℚ S) (hv : v.isNull = true ∨ v.typeOf ≠ .object)
    (hdef : v ≠ .undefined) (parts : List S) :
    walkPath v parts ≠ .undefined ↔ parts = [] := by
  cases parts with
  | nil => exact ⟨fun _ => rfl, fun _ => hdef⟩
  | cons part parts =>
    rw [walkPath_stop hv]
    exact ⟨fun h => absurd rfl h, fun h => absurd h (cons_ne_nil _ _)⟩

theorem walkPath_function (proto name : String) (parts : List S) :
    walkPath (.function proto name) parts ≠ .undefined ↔ parts = [] :=
  walkPath_end (.function proto name) (.inr (by rw [Ecma.Value.typeOf]; decide)) nofun parts

theorem walkPath_num (q : ℚ) (parts : List S) :
    walkPath (.data (.num q)) parts ≠ .undefined ↔ parts = [] :=
  walkPath_end (.data (.num q)) (.inr (by rw [Ecma.Value.typeOf]; decide)) nofun parts

theorem walkPath_null (parts : List S) :
    walkPath (.data .null) parts ≠ .undefined ↔ parts = [] :=
  walkPath_end (.data .null) (.inl rfl) nofun parts

theorem walkPath_undefined (parts : List S) : walkPath .undefined parts = .undefined := by
  cases parts with
  | nil => rfl
  | cons part parts => exact walkPath_stop (.inr (by rw [Ecma.Value.typeOf]; decide)) _ _

/-- Below an inherited name: `__proto__` leads to the prototype, a method is the end. -/
theorem walkPath_objectInherited (proto : Ecma.Value ℚ S) (name : String) (parts : List S) :
    walkPath (objectInherited proto name) parts ≠ .undefined ↔
      (name = "__proto__" ∧ walkPath proto parts ≠ .undefined) ∨
      (name ∈ objectMethods ∧ parts = []) := by
  have hproto : "__proto__" ∉ objectMethods := by decide
  unfold objectInherited
  by_cases hname : name = "__proto__"
  · rw [if_pos hname]
    constructor
    · exact fun h => .inl ⟨hname, h⟩
    · rintro (⟨-, h⟩ | ⟨h, -⟩)
      · exact h
      · exact absurd (hname ▸ h) hproto
  · rw [if_neg hname]
    by_cases hmethod : name ∈ objectMethods
    · rw [if_pos hmethod, walkPath_function]
      exact ⟨fun h => .inr ⟨hmethod, h⟩, fun h => h.elim (fun h => absurd h.1 hname) And.right⟩
    · rw [if_neg hmethod, walkPath_undefined]
      constructor
      · intro h
        exact absurd rfl h
      · rintro (⟨h, -⟩ | ⟨h, -⟩)
        · exact absurd h hname
        · exact absurd h hmethod

/-- From `Object.prototype`, whose prototype is null. -/
theorem walkPath_objectPrototype (parts : List S) :
    walkPath .objectPrototype parts ≠ .undefined ↔
      parts = [] ∨ ∃ name, parts = [name] ∧ objectName (Strings.text name) = true := by
  rcases parts with _ | ⟨name, parts⟩
  · exact ⟨fun _ => .inl rfl, fun _ => nofun⟩
  · rw [walkPath_step rfl rfl, getProperty, walkPath_objectInherited, walkPath_null,
      ← or_and_right]
    simp [objectName, and_comm]

/-- From an object without the member. -/
theorem walkPath_missing (part : String) (parts : List S) :
    walkPath (objectInherited .objectPrototype part) parts ≠ .undefined ↔
      objectChain (part :: parts.map Strings.text) = true := by
  rw [walkPath_objectInherited, walkPath_objectPrototype]
  rcases parts with _ | ⟨name, _ | ⟨name', parts⟩⟩
  · simp [objectChain, objectName]
  · by_cases hpart : part = "__proto__"
    · subst hpart
      simp [objectChain]
    · simp [objectChain, hpart]
  · simp [objectChain]

/-- Names that every array has are no indices. -/
theorem arrayIndex?_arrayName {name : String} (h : arrayName name = true) :
    arrayIndex? name = none := by
  have hall : ∀ n ∈ "length" :: "__proto__" :: (arrayMethods ++ objectMethods),
      arrayIndex? n = none := by decide
  refine hall name ?_
  simpa [arrayName, objectName, or_assoc, or_left_comm] using h

/-- From an array, by a name that is no index. -/
theorem walkPath_arrayProperty {name : String} (hname : arrayIndex? name = none)
    (proto : Ecma.Value ℚ S) (items : List (Ecma.Value ℚ S)) (parts : List S) :
    walkPath (arrayProperty proto items name) parts ≠ .undefined ↔
      (name = "__proto__" ∧ walkPath proto parts ≠ .undefined) ∨
      (arrayName name = true ∧ name ≠ "__proto__" ∧ parts = []) := by
  have hproto : "__proto__" ∉ arrayMethods := by decide
  have hproto' : "__proto__" ∉ objectMethods := by decide
  unfold arrayProperty
  rw [hname]
  show walkPath (if name = "length" then .data (.num items.length)
    else if name ∈ arrayMethods then .function "Array" name else objectInherited proto name) parts ≠
      .undefined ↔ _
  by_cases hlength : name = "length"
  · rw [if_pos hlength, walkPath_num]
    subst hlength
    simp [arrayName]
  rw [if_neg hlength]
  by_cases hmethod : name ∈ arrayMethods
  · have hne : name ≠ "__proto__" := fun h => hproto (h ▸ hmethod)
    rw [if_pos hmethod, walkPath_function]
    simp [arrayName, hmethod, hne]
  · rw [if_neg hmethod, walkPath_objectInherited]
    have hobject : name ∈ objectMethods → name ≠ "__proto__" := fun h h' => hproto' (h' ▸ h)
    simp only [arrayName, objectName, hlength, hmethod, decide_false, Bool.false_or, Bool.or_eq_true,
      decide_eq_true_eq]
    constructor
    · rintro (h | ⟨h, hparts⟩)
      · exact .inl h
      · exact .inr ⟨.inr h, hobject h, hparts⟩
    · rintro (h | ⟨h | h, hne, hparts⟩)
      · exact .inl h
      · exact absurd h hne
      · exact .inr ⟨h, hparts⟩

/-- From `Array.prototype`, which is an array without elements. -/
theorem walkPath_arrayPrototype (parts : List S) :
    walkPath .arrayPrototype parts ≠ .undefined ↔
      parts = [] ∨ (∃ name, parts = [name] ∧ arrayName (Strings.text name) = true) ∨
        ∃ proto name, parts = [proto, name] ∧ Strings.text proto = "__proto__" ∧
          objectName (Strings.text name) = true := by
  rcases parts with _ | ⟨part, parts⟩
  · exact ⟨fun _ => .inl rfl, fun _ h => by cases h⟩
  · rw [walkPath_step rfl rfl, getProperty]
    simp only [reduceCtorEq, List.cons.injEq, false_or, and_assoc, exists_eq_left', exists_and_left]
    generalize Strings.text part = name
    rcases hindex : arrayIndex? name with _ | i
    · rw [walkPath_arrayProperty hindex, walkPath_objectPrototype]
      by_cases hname : name = "__proto__"
      · subst hname
        have harray : arrayName "__proto__" = true := rfl
        rcases parts with _ | ⟨part', parts⟩ <;> simp [harray]
      · rcases parts with _ | ⟨part', parts⟩ <;> simp [hname]
    · have hno : ¬ arrayName name = true := by
        intro h
        rw [arrayIndex?_arrayName h] at hindex
        cases hindex
      have hproto : name ≠ "__proto__" := by
        rintro rfl
        exact hno rfl
      unfold arrayProperty
      rw [hindex]
      show walkPath .undefined parts ≠ .undefined ↔ _
      rw [walkPath_undefined]
      rcases parts with _ | ⟨part', parts⟩ <;> simp [hno, hproto]

/-- From an array, by a name that is no index. -/
theorem walkPath_array {part : String} (hpart : arrayIndex? part = none)
    (items : List (Ecma.Value ℚ S)) (parts : List S) :
    walkPath (arrayProperty .arrayPrototype items part) parts ≠ .undefined ↔
      arrayChain (part :: parts.map Strings.text) = true := by
  rw [walkPath_arrayProperty hpart, walkPath_arrayPrototype]
  by_cases h : part = "__proto__"
  · subst h
    rcases parts with _ | ⟨name, _ | ⟨name', _ | ⟨name'', parts⟩⟩⟩
    · simp [arrayChain, arrayName, objectName]
    · simp [arrayChain]
    · by_cases h' : Strings.text name = "__proto__" <;> simp [arrayChain, h']
    · simp [arrayChain]
  · rcases parts with _ | ⟨name, _ | ⟨name', _ | ⟨name'', parts⟩⟩⟩ <;> simp [arrayChain, h]

/-- **What JavaScript finds in a parsed value.** -/
theorem walkPath_data : ∀ (parts : List S) (a : Json ℚ S),
    walkPath (.data a) parts ≠ .undefined ↔ finds a parts = true
  | [], a => by simp [walkPath, finds]
  | part :: parts, a => by
    cases a with
    | null => simp [walkPath_null, finds]
    | num q => simp [walkPath_num, finds]
    | bool b =>
      rw [walkPath_stop (.inr (by rw [Ecma.Value.typeOf]; decide))]
      simp [finds]
    | str s =>
      rw [walkPath_stop (.inr (by rw [Ecma.Value.typeOf]; decide))]
      simp [finds]
    | obj members =>
      rw [walkPath_step rfl rfl, getProperty, finds]
      rcases members.lookup part with _ | v
      · exact walkPath_missing _ parts
      · exact walkPath_data parts v
    | arr items =>
      rw [walkPath_step rfl rfl, getProperty, finds]
      rcases hindex : index? part with _ | i
      · exact walkPath_array hindex _ parts
      · have hindex' : arrayIndex? (Strings.text part) = some i := hindex
        unfold arrayProperty
        rw [hindex']
        show walkPath ((items.map Ecma.Value.data)[i]?.getD .undefined) parts ≠ .undefined ↔
          (match items[i]? with
            | some v => finds v parts
            | none => false) = true
        rw [getElem?_map]
        rcases items[i]? with _ | v
        · simp [walkPath_undefined]
        · exact walkPath_data parts v

/-! ## Where the lookups agree -/

omit [DecidableEq S] in
/-- What Go has under a key. -/
theorem lookup_value (ms : List (S × Doc S)) (key : String) :
    (normMembers JNum.float64 [] (replaceMembers .num Strings.text ms)).lookup key =
      (lastRead ms key).map fun m => Doc.value m.2.text := by
  have hfind : ∀ ms : List (S × Doc S), (replaceMembers .num Strings.text ms).lookup key =
      (ms.find? fun m => Strings.text m.1 = key).map fun m => m.2.text := by
    intro ms
    induction ms with
    | nil => rfl
    | cons m ms ih =>
      rw [replaceMembers, lookup_cons_ite, find?_cons, ih]
      by_cases hm : Strings.text m.1 = key
      · rw [if_pos hm.symm, decide_eq_true hm]
        rfl
      · rw [if_neg (Ne.symm hm), decide_eq_false hm]
  rw [lookup_normMembers, lookup_nil, Option.or_none, replaceMembers_eq_map, ← map_reverse,
    ← replaceMembers_eq_map, hfind, Option.map_map]
  rfl

/-- What JavaScript has as a member of its own. -/
theorem lookup_parsed (ms : List (S × Doc S)) (name : S) :
    (ownOrder (parseMembers JNum.float64 [] ms)).lookup name =
      (ms.reverse.lookup name).map parseDoc := by
  have hnodup := nodup_parseMembers JNum.float64 ms (show (([] : List (S × Json ℚ S)).map _).Nodup
    from nodup_nil)
  rw [lookup_perm (perm_ownOrder _) (((perm_ownOrder _).map _).nodup_iff.mpr hnodup),
    lookup_parseMembers, lookup_nil, Option.or_none]

/-- A member that is read by its own name is the one of that name. -/
theorem lookup_of_lastRead {ms : List (S × Doc S)} {name : S} {o : Option (S × Doc S)}
    (h : lastRead ms (Strings.text name) = o) :
    (o = none → ms.reverse.lookup name = none) ∧
      ∀ d, o = some (name, d) → ms.reverse.lookup name = some d := by
  subst h
  unfold lastRead
  induction ms.reverse with
  | nil => exact ⟨fun _ => rfl, fun d h => by cases h⟩
  | cons m ms ih =>
    rw [find?_cons, lookup_cons_ite]
    by_cases hname : name = m.1
    · rw [if_pos hname, decide_eq_true (by rw [hname])]
      refine ⟨fun h => (by cases h), fun d h => ?_⟩
      rw [Option.some.inj h]
    · rw [if_neg hname]
      by_cases htext : Strings.text m.1 = Strings.text name
      · rw [decide_eq_true htext]
        refine ⟨fun h => (by cases h), fun d h => ?_⟩
        exact absurd (congrArg Prod.fst (Option.some.inj h)).symm hname
      · rw [decide_eq_false htext]
        exact ih

/-- **The walks end alike iff `agrees` says so.**  Induction on the path. -/
theorem walks_agree_iff : ∀ (parts : List S) (d : Doc S),
    Found (walkPath (.data (parseDoc d)) parts)
      (lookupParts (Doc.value d.text) (parts.map Strings.text)) ↔ agrees d parts
  | [], d => by
    have hagrees : agrees d [] = (parseDoc d).Textual := by cases d <;> rfl
    rw [hagrees, ← shows_parse]
    exact found_some.trans ⟨fun ⟨b, hb, h⟩ => by cases hb; exact h, fun h => ⟨_, rfl, h⟩⟩
  | part :: parts, d => by
    have hstop : lookupParts (Doc.value d.text) ((part :: parts).map Strings.text) = none →
        (Found (walkPath (.data (parseDoc d)) (part :: parts))
          (lookupParts (Doc.value d.text) ((part :: parts).map Strings.text)) ↔
          finds (parseDoc d) (part :: parts) = false) := by
      intro h
      rw [h, found_none, ← not_iff_not, ← ne_eq, walkPath_data, Bool.not_eq_false]
    cases d with
    | null | bool _ | num _ | str _ | arr _ => exact hstop rfl
    | obj ms =>
      have hgo : lookupParts (Doc.value (Json.obj ms).text) ((part :: parts).map Strings.text) =
          ((lastRead ms (Strings.text part)).map fun m => Doc.value m.2.text).bind
            (lookupParts · (parts.map Strings.text)) := by
        rw [Json.text, replace, Doc.value, Json.norm, map_cons, lookupParts, lookup_value]
        rcases lastRead ms (Strings.text part) with _ | m <;> rfl
      have hparse : parseDoc (.obj ms) = .obj (ownOrder (parseMembers JNum.float64 [] ms)) := by
        rw [parseDoc, parse]
      rw [agrees]
      rcases hread : lastRead ms (Strings.text part) with _ | ⟨name, d⟩
      · -- neither has the member
        rw [hread] at hgo
        rw [hstop hgo, hparse, finds, lookup_parsed, (lookup_of_lastRead hread).1 rfl]
        rfl
      · rw [hread] at hgo
        rw [hgo]
        show _ ↔ ite (name = part) _ _
        by_cases hname : name = part
        · subst hname
          rw [if_pos rfl, walkPath_step rfl rfl, hparse, getProperty, lookup_parsed,
            (lookup_of_lastRead hread).2 d rfl]
          exact walks_agree_iff parts d
        · rw [if_neg hname, walkPath_step rfl rfl]
          rfl

end Walks

/-- **The two lookups agree**, on hits, misses and values, iff the path is empty or `agrees`. -/
theorem lookups_agree_iff (ctx : List (List UInt16 × Doc (List UInt16))) (path : List UInt16) :
    Found (jsLookup (jsContext ctx) path) (lookup (goContext ctx) (Strings.text path)) ↔
      path = [] ∨ agrees (.obj ctx) (split path) := by
  by_cases hpath : path = []
  · subst hpath
    exact iff_of_true (found_none.mpr rfl) (.inl rfl)
  · have htext : Strings.text path ≠ "" := fun h => hpath (Strings.ofText_empty h)
    have hgo : lookup (goContext ctx) (Strings.text path) =
        lookupParts (Doc.value (Json.obj ctx).text) ((split path).map Strings.text) := by
      rw [lookup, if_neg htext, Strings.text_split]
      rfl
    have hjs : jsLookup (jsContext ctx) path = walkPath (.data (parseDoc (.obj ctx))) (split path) :=
      if_neg hpath
    rw [hgo, hjs, walks_agree_iff]
    exact (or_iff_right hpath).symm

/-- `{"tags": ["a", "b"], "\ud800": true}`. -/
def tagsContext : List (List UInt16 × Doc (List UInt16)) :=
  [(ofText "tags", .arr [.str (ofText "a"), .str (ofText "b")]), ([0xD800], .bool true)]

/-- Go finds none of the first three; JavaScript finds the first tag, the number of tags and a
    function.  Only Go finds the fourth. -/
theorem lookups_differ :
    lookup (goContext tagsContext) "tags.0" = none ∧
    jsLookup (jsContext tagsContext) (ofText "tags.0") = .data (.str (ofText "a")) ∧
    lookup (goContext tagsContext) "tags.length" = none ∧
    jsLookup (jsContext tagsContext) (ofText "tags.length") = .data (.num 2) ∧
    lookup (goContext tagsContext) "constructor" = none ∧
    jsLookup (jsContext tagsContext) (ofText "constructor") = .function "Object" "constructor" ∧
    lookup (goContext tagsContext) "�" = some (.bool true) ∧
    jsLookup (jsContext tagsContext) (ofText "�") = .undefined := by
  refine ⟨rfl, rfl, rfl, rfl, rfl, rfl, rfl, rfl⟩

end FalseFlag
