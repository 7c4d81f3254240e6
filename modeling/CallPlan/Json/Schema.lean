import CallPlan.Json.Printer
import CallPlan.Json.Reader
/-!
# Reading values of a known shape

Readers that know what they look for: a text, a flag, a list, an object with any keys, a record with declared fields.  They
notice a wrong shape where it stands, before anything behind it is looked at.  A record is written as an object without other
and without repeated members, or as a list of the fields in their declared order, of which trailing ones may be missing.  That
is what the `serde` package documents for the readers that it derives: which fields may be missing, repeated or unknown, and
how a wrong shape is described.
-/
namespace CallPlan
namespace Json

/-- What a value is, as messages name it. -/
def description : Json → String
  | .null              => "null"
  | .bool true         => "boolean `true`"
  | .bool false        => "boolean `false`"
  | .number n@(.integer _) => "integer " ++ named (String.ofList n.chars)
  | .number n@(.double _)  => "floating point " ++ named (String.ofList n.chars)
  | .string s          => "string " ++ Text.quotedText s
  | .array _           => "sequence"
  | .object _          => "map"

/-- A value is not of the kind that was looked for. -/
def wrongType (j : Json) (expected : String) : Reason := .invalidType j.description expected

/-- The kind of a record, as messages name it. -/
def recordKind (title : String) : String := "struct " ++ title

/-- A record of a kind with its number of fields, as messages name it. -/
def recordSize (title : String) (count : Nat) : String :=
  recordKind title ++ " with " ++ Text.decimalString count ++ " elements"

namespace Read
variable {α σ : Type}

/-- The fault of a value of another kind.  Lists and objects are not read for it. -/
def otherKind (expected : String) : Read α := do
  match ← peek? with
  | some '['    => failHere (wrongType (.array []) expected)
  | some '\x7b' => failHere (wrongType (.object []) expected)
  | _           => do
    let j ← valueWith none
    failHere (wrongType j expected)

def text : Read String := do
  match ← next? with
  | none     => failAhead .endInValue
  | some '"' => string
  | some _   => otherKind "a string"

/-- A text, or null for none. -/
def textOrNull : Read (Option String) := do
  match ← next? with
  | some 'n' => do { skip; word "ull".toList; return none }
  | _        => return some (← text)

def flag : Read Bool := do
  match ← next? with
  | none     => failAhead .endInValue
  | some 't' => do { skip; word "rue".toList; return true }
  | some 'f' => do { skip; word "alse".toList; return false }
  | some _   => otherKind "a boolean"

def list (item : Read α) : Read (List α) := do
  match ← next? with
  | none     => failAhead .endInValue
  | some '[' => enclosed endList (items item)
  | some _   => otherKind "a sequence"

/-- An object with any keys. -/
def table (value : Read α) : Read (List (String × α)) := do
  match ← next? with
  | none        => failAhead .endInValue
  | some '\x7b' => enclosed endObject (members value)
  | some _      => otherKind "a map"

/-! ## Records -/

/-- A declared field of a record. -/
structure Field (σ : Type) where
  name : String
  /-- Whether the record is complete without it. -/
  isOptional : Bool
  /-- Reads the value and puts it into the record. -/
  read : σ → Read σ

/-- The members of a record up to its end, at most so many; `seen` are the fields that came before. -/
def fieldsFrom (fields : List (Field σ)) : Nat → Bool → List String → σ → Read σ
  | 0,         _,     _,    _ => failAhead .endInObject
  | steps + 1, first, seen, s => do
    if ← hasMember first then
      let key ← string
      match fields.find? (·.name = key) with
      | none   => fail (.unknownField key (fields.map Field.name))
      | some f =>
        if seen.contains key then fail (.repeatedField key)
        else do
          colon
          let s' ← f.read s
          fieldsFrom fields steps false (key :: seen) s'
    else
      match fields.find? fun f => !f.isOptional && !seen.contains f.name with
      | some f => fail (.missingField f.name)
      | none   => return s

/-- The fields of a record from a position on, written as items of a list. -/
def fieldsInOrder (size : String) (index : Nat) (first : Bool) : List (Field σ) → σ → Read σ
  | [],      s => return s
  | f :: fs, s => do
    if ← hasItem first then
      let s' ← f.read s
      fieldsInOrder size (index + 1) false fs s'
    else if f.isOptional then fieldsInOrder size (index + 1) first fs s
    else fail (.invalidLength index size)

/-- A record, filled into a blank one. -/
def record (title : String) (fields : List (Field σ)) (blank : σ) : Read σ := do
  match ← next? with
  | none        => failAhead .endInValue
  | some '\x7b' => enclosed endObject fun c => fieldsFrom fields (c.rest.length + 1) true [] blank c
  | some '['    => enclosed endList (fieldsInOrder (recordSize title fields.length) 0 true fields blank)
  | some _      => otherKind (recordKind title)

end Read
end Json
end CallPlan
