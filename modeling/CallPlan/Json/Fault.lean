import CallPlan.Text.Numeral
import CallPlan.Text.Split
/-!
# What is wrong with a JSON text

A fault is a reason and the place where it was noticed.  A text can be no JSON at all, or JSON of another shape than the one
that was asked for; a value that was read before and is looked at again has no place.  Reasons and their wording are those that
the `serde_json` package documents for its `Error`, and for a wrong shape those of `serde::de::Error`.
-/
namespace CallPlan
namespace Json

/-- A place in a text: the line, counted from one, and the number of bytes in front of it on that line. -/
structure Position where
  line : Nat := 1
  column : Nat := 0
deriving DecidableEq

inductive Reason where
  | endInValue
  | endInList
  | endInObject
  | endInString
  | expectedValue
  /-- A letter starts none of the three words. -/
  | expectedWord
  | expectedColon
  | expectedCommaOrBracket
  | expectedCommaOrBrace
  | keyIsNoString
  | invalidNumber
  | numberOutOfRange
  | invalidEscape
  | controlCharacter
  /-- A surrogate without its partner. -/
  | loneSurrogate
  /-- A first surrogate with no escape behind it. -/
  | unpairedSurrogate
  | trailingComma
  | trailingCharacters
  | tooDeep
  | invalidType (found expected : String)
  | invalidLength (length : Nat) (expected : String)
  | unknownField (name : String) (known : List String)
  | repeatedField (name : String)
  | missingField (name : String)
  /-- A value of the right shape that is refused for what it says. -/
  | refused (text : String)
deriving DecidableEq

structure Fault where
  reason : Reason
  position : Option Position
deriving DecidableEq

/-- A name between back quotes. -/
def named (name : String) : String := "`" ++ name ++ "`"

/-- A choice between names. -/
def oneOf : List String → String
  | [a]    => named a
  | [a, b] => named a ++ " or " ++ named b
  | names  => "one of " ++ String.ofList (Text.joinWith ", ".toList (names.map fun n => (named n).toList))

def Reason.message : Reason → String
  | .endInValue             => "EOF while parsing a value"
  | .endInList              => "EOF while parsing a list"
  | .endInObject            => "EOF while parsing an object"
  | .endInString            => "EOF while parsing a string"
  | .expectedValue          => "expected value"
  | .expectedWord           => "expected ident"
  | .expectedColon          => "expected `:`"
  | .expectedCommaOrBracket => "expected `,` or `]`"
  | .expectedCommaOrBrace   => "expected `,` or `\x7d`"
  | .keyIsNoString          => "key must be a string"
  | .invalidNumber          => "invalid number"
  | .numberOutOfRange       => "number out of range"
  | .invalidEscape          => "invalid escape"
  | .controlCharacter       => "control character (\\u0000-\\u001F) found while parsing a string"
  | .loneSurrogate          => "lone leading surrogate in hex escape"
  | .unpairedSurrogate      => "unexpected end of hex escape"
  | .trailingComma          => "trailing comma"
  | .trailingCharacters     => "trailing characters"
  | .tooDeep                => "recursion limit exceeded"
  | .invalidType f e        => "invalid type: " ++ f ++ ", expected " ++ e
  | .invalidLength n e      => "invalid length " ++ Text.decimalString n ++ ", expected " ++ e
  | .unknownField n known   => "unknown field " ++ named n ++ ", expected " ++ oneOf known
  | .repeatedField n        => "duplicate field " ++ named n
  | .missingField n         => "missing field " ++ named n
  | .refused t              => t

namespace Fault

def message (f : Fault) : String :=
  match f.position with
  | none   => f.reason.message
  | some p =>
    f.reason.message ++ " at line " ++ Text.decimalString p.line ++ " column " ++ Text.decimalString p.column

/-- The fault with a place, if it has none yet. -/
def placedAt (p : Position) (f : Fault) : Fault :=
  match f.position with
  | none   => { f with position := some p }
  | some _ => f

end Fault
end Json
end CallPlan
