import CallPlan.Json.Schema
/-!
# Records among values

A record with declared fields in a value that was read before: an object, in which other members are passed over and the last of
equal keys counts, or a list of the fields in their declared order, of which trailing ones may be missing.  The members of an
object are looked at in the order of their keys, the items of a list as they come.  Reading from a value is documented by
`serde_json` as `from_value`, and the treatment of fields by the readers that `serde` derives.
-/
namespace CallPlan
namespace Json

/-- A result, or the fault of a value that was read before. -/
abbrev Decoded (α : Type) := Except Fault α

def refuse {α : Type} (r : Reason) : Decoded α := .error ⟨r, none⟩

/-- The declared fields in order, each with its value if it has one. -/
def fields? (names : List String) : Json → Option (List (Option Json))
  | .object ms => some (names.map (lastValue? · ms))
  | .array js  => some ((js.map some ++ List.replicate names.length none).take names.length)
  | _          => none

def isObject : Json → Bool
  | .object _ => true
  | _         => false

/-- The fault of a record without the field at a position. -/
def lacks {α : Type} (title : String) (names : List String) (index : Nat) (j : Json) : Decoded α :=
  if j.isObject then refuse (.missingField (names.getD index ""))
  else refuse (.invalidLength index (recordSize title names.length))

/-- Refuses a list with more items than a record has fields. -/
def checkSurplus (names : List String) : Json → Decoded Unit
  | .array js => if names.length < js.length then refuse (.invalidLength js.length "fewer elements in array") else .ok ()
  | _         => .ok ()

def textOf (j : Json) : Decoded String :=
  match j with
  | .string s => .ok s
  | _         => refuse (wrongType j "a string")

/-- A text that may be missing. -/
def textOr (default : String) : Option Json → Decoded String
  | none   => .ok default
  | some j => j.textOf

/-- A list. -/
def itemsOf (j : Json) : Decoded (List Json) :=
  match j with
  | .array js => .ok js
  | _         => refuse (wrongType j "a sequence")

/-- A list that may be missing, and is then empty. -/
def itemsOrNone : Option Json → Decoded (List Json)
  | none   => .ok []
  | some j => j.itemsOf

theorem sizeOf_lt_of_mem_fields? {names : List String} {j v : Json} {fields : List (Option Json)}
    (h : fields? names j = some fields) (hv : some v ∈ fields) : sizeOf v < sizeOf j := by
  unfold fields? at h
  split at h
  · cases h
    obtain ⟨name, _, hl⟩ := List.mem_map.1 hv
    obtain ⟨k, hk⟩ := mem_of_lastValue? hl
    have h1 := List.sizeOf_lt_of_mem hk
    simp only [Json.object.sizeOf_spec, Prod.mk.sizeOf_spec] at h1 ⊢
    omega
  · cases h
    rcases List.mem_append.1 (List.mem_of_mem_take hv) with hv | hv
    · obtain ⟨w, hw, he⟩ := List.mem_map.1 hv
      cases he
      have h1 := List.sizeOf_lt_of_mem hw
      simp only [Json.array.sizeOf_spec]
      omega
    · cases List.eq_of_mem_replicate hv
  · cases h

theorem sizeOf_lt_of_mem_items {names : List String} {j i : Json} {fields : List (Option Json)} {f : Option Json}
    {js : List Json} (h : fields? names j = some fields) (hf : f ∈ fields) (hj : itemsOrNone f = .ok js)
    (hi : i ∈ js) : sizeOf i < sizeOf j := by
  unfold itemsOrNone at hj
  split at hj
  · cases hj; cases hi
  · rename_i v
    have h1 := sizeOf_lt_of_mem_fields? h hf
    unfold itemsOf at hj
    split at hj <;> cases hj
    have h2 := List.sizeOf_lt_of_mem hi
    simp only [Json.array.sizeOf_spec] at h1
    omega

end Json
end CallPlan
