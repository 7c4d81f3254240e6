/-!
# JSON values

An object keeps its members as they were written, repeated keys included; looking a key up takes the last of them.  A number
that is an integer between `-2 ^ 63` and `2 ^ 64` is kept as such, any other number as the bits of a double.  These are the
values of the `serde_json` package as its `Number` and `Map` are documented without optional features.
-/
namespace CallPlan

inductive Json.Number where
  | integer (value : Int)
  | double (bits : UInt64)
deriving DecidableEq

inductive Json where
  | null
  | bool (value : Bool)
  | number (value : Json.Number)
  | string (value : String)
  | array (items : List Json)
  | object (members : List (String × Json))

namespace Json

def text? : Json → Option String
  | .string s => some s
  | _         => none

def bool? : Json → Option Bool
  | .bool b => some b
  | _       => none

def items? : Json → Option (List Json)
  | .array items => some items
  | _            => none

def isText (j : Json) : Bool := j.text?.isSome

/-- The value of the last member with a key. -/
def lastValue? (key : String) : List (String × Json) → Option Json
  | []          => none
  | (k, v) :: l =>
    match lastValue? key l with
    | some w => some w
    | none   => if k = key then some v else none

theorem mem_of_lastValue? {key : String} {v : Json} :
    ∀ {l : List (String × Json)}, lastValue? key l = some v → ∃ k, (k, v) ∈ l
  | [],          h => by cases h
  | (k, w) :: l, h => by
    unfold lastValue? at h
    split at h
    · rename_i h'
      cases h
      obtain ⟨k', hk⟩ := mem_of_lastValue? h'
      exact ⟨k', by simp [hk]⟩
    · split at h <;> cases h
      exact ⟨k, by simp⟩

end Json
end CallPlan
