/-
  Rollout buckets of arbitrary strings (internal/eval/rollout.go against js/packages/sdk-js/src/
  rollout.ts).

  A JavaScript string is a list of code units, and not every one is a text: a JSON string may hold
  half of a surrogate pair.  Go's decoder puts U+FFFD in its place when it reads the string,
  JavaScript keeps it and `TextEncoder` puts U+FFFD there when the string is hashed.  Here a string
  starts as a JSON literal, read by both:
  * `jsRolloutBucketUnits`, `jsInBucketUnits` — rollout.ts on code units;
  * `goString` — what encoding/json makes of the literal;
  * **`rollout_same_bucket`** — same bucket, same gate, for every string there is.
-/
import FalseFlag.JsEvaluator
import FalseFlag.Lib.Utf16

namespace FalseFlag

open JsonTree Utf16 String

/-! ## rollout.ts on code units -/

/-- `encoder.encode(s)`: the UTF-8 bytes of the scalar values. -/
def encodeText (s : List UInt16) : List UInt8 := toUtf8 (scalars s)

/-- `rolloutBucket`: the bytes of the salt, a colon and the bytes of the value are set one after the
    other into one array. -/
def jsRolloutBucketUnits (salt attrValue : List UInt16) : Nat :=
  fnv1a64 (encodeText salt ++ [0x3a] ++ encodeText attrValue) % 10000

/-- `inBucket`. -/
def jsInBucketUnits (salt attrValue : List UInt16) (percent : ℚ) : Bool :=
  if percent ≤ 0 then false
  else if 100 ≤ percent then true
  else decide ((jsRolloutBucketUnits salt attrValue : ℚ) < percent * 100)

/-! ## The string of a literal -/

/-- `JSON.parse` of a string literal. -/
def jsString (literal : List Char) : Option (List UInt16) := unitsLiteral literal

/-- `json.Unmarshal` of a string literal. -/
def goString (literal : List Char) : Option String := (stringLiteral literal).map ofList

theorem goString_of_jsString {literal : List Char} {us : List UInt16}
    (h : jsString literal = some us) : goString literal = some (ofList (scalars us)) := by
  rw [goString, stringLiteral_of_units h]
  rfl

theorem utf8_ofList (cs : List Char) : utf8 (ofList cs) = toUtf8 cs := by
  show (cs.flatMap utf8EncodeChar).toByteArray.data.toList = _
  simp [toUtf8]

/-! ## The same bucket -/

/-- On code units JavaScript computes what it computes on the string of their scalar values. -/
theorem jsRolloutBucketUnits_eq (salt attrValue : List UInt16) :
    jsRolloutBucketUnits salt attrValue =
      jsRolloutBucket (ofList (scalars salt)) (ofList (scalars attrValue)) := by
  have hcolon : utf8 ":" = [0x3a] := by decide
  rw [jsRolloutBucketUnits, jsRolloutBucket, hcolon, utf8_ofList, utf8_ofList]
  rfl

theorem jsInBucketUnits_eq (salt attrValue : List UInt16) (percent : ℚ) :
    jsInBucketUnits salt attrValue percent =
      jsInBucket (ofList (scalars salt)) (ofList (scalars attrValue)) percent := by
  rw [jsInBucketUnits, jsInBucket, jsRolloutBucketUnits_eq]

theorem rolloutBucket_lt (salt attrValue : String) : rolloutBucket salt attrValue < 10000 := by
  rw [rolloutBucket, UInt64.toNat_mod]
  exact Nat.mod_lt _ (by decide)

/-- **Go and JavaScript put every value into the same bucket**, and let it through the same gate.
    Salt and value are arbitrary strings of code units.  Each can be written as a JSON literal, and
    whatever literals they are written as, both SDKs read them and agree. -/
theorem rollout_same_bucket (salt attrValue : List UInt16) (percent : Int64) :
    (∃ saltText valueText, jsString saltText = some salt ∧ jsString valueText = some attrValue) ∧
    ∀ saltText valueText, jsString saltText = some salt → jsString valueText = some attrValue →
      ∃ s v, goString saltText = some s ∧ goString valueText = some v ∧
        jsRolloutBucketUnits salt attrValue = rolloutBucket s v ∧
        rolloutBucket s v < 10000 ∧
        jsInBucketUnits salt attrValue (JNum.int percent.toInt).float64 = inBucket s v percent := by
  refine ⟨⟨escaped salt, escaped attrValue, unitsLiteral_escaped salt,
    unitsLiteral_escaped attrValue⟩, ?_⟩
  intro saltText valueText hsalt hvalue
  refine ⟨_, _, goString_of_jsString hsalt, goString_of_jsString hvalue, ?_, rolloutBucket_lt _ _, ?_⟩
  · rw [jsRolloutBucketUnits_eq, jsRolloutBucket_eq]
  · rw [jsInBucketUnits_eq, jsInBucket_eq]

/-- A lone high surrogate and U+FFFD are one salt to both. -/
example : jsRolloutBucketUnits [0xD83D] [0x61] = jsRolloutBucketUnits [0xFFFD] [0x61] := by
  decide +kernel

end FalseFlag
