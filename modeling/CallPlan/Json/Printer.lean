import CallPlan.Json.Double
import CallPlan.Json.Value
import CallPlan.Text.Quoted
import CallPlan.Text.Split
/-!
# Writing JSON

A value is written without blanks, the members of an object in the order of their keys, and of members with one key only the
last.  In strings only the quote, the backslash and the controls are escaped.  Lists of texts can also be written over
several lines.  The two forms are those that `serde_json` documents as `to_string` and `to_string_pretty`, with sorted keys as its
`Map` has them without the feature `preserve_order`.
-/
namespace CallPlan
namespace Json

/-- How a character stands in a string. -/
def escapeChar (c : Char) : List Char :=
  let n := c.toNat
  if c = '"' then ['\\', '"']
  else if c = '\\' then ['\\', '\\']
  else if n = 0x08 then ['\\', 'b']
  else if n = 0x09 then ['\\', 't']
  else if n = 0x0A then ['\\', 'n']
  else if n = 0x0C then ['\\', 'f']
  else if n = 0x0D then ['\\', 'r']
  else if n < 0x20 then ['\\', 'u', '0', '0', Text.hexLetter (n / 16), Text.hexLetter (n % 16)]
  else [c]

def quoted (s : String) : List Char := '"' :: s.toList.flatMap escapeChar ++ ['"']

def Number.chars : Number → List Char
  | .integer (.ofNat n)   => Text.decimal n
  | .integer (.negSucc n) => '-' :: Text.decimal (n + 1)
  | .double bits          => Double.chars Double.jsonFormat bits

/-- A written member put into members in ascending order of keys.  Of two with one key the one that was there stays. -/
def insertMember (k : String) (v : List Char) : List (String × List Char) → List (String × List Char)
  | []           => [(k, v)]
  | (k', v') :: l =>
    if k < k' then (k, v) :: (k', v') :: l
    else if k = k' then (k', v') :: l
    else (k', v') :: insertMember k v l

def memberChars (m : String × List Char) : List Char := quoted m.1 ++ ':' :: m.2

mutual
/-- The text of a value. -/
def chars : Json → List Char
  | .null       => "null".toList
  | .bool true  => "true".toList
  | .bool false => "false".toList
  | .number n   => n.chars
  | .string s   => quoted s
  | .array js   => '[' :: Text.joinWith [','] (itemsChars js) ++ [']']
  | .object ms  => '\x7b' :: Text.joinWith [','] ((sortedMembers ms).map memberChars) ++ ['\x7d']

def itemsChars : List Json → List (List Char)
  | []      => []
  | j :: js => j.chars :: itemsChars js

/-- The written members in ascending order of keys, later ones winning. -/
def sortedMembers : List (String × Json) → List (String × List Char)
  | []           => []
  | (k, v) :: ms => insertMember k v.chars (sortedMembers ms)
end

def render (j : Json) : String := String.ofList j.chars

/-! ## Over several lines -/

/-- A list of texts, one to a line, inside an object. -/
def textLines (items : List String) : List Char :=
  if items.isEmpty then ['[', ']']
  else
    '[' :: Text.joinWith [','] (items.map fun s => '\n' :: List.replicate 4 ' ' ++ quoted s)
      ++ '\n' :: List.replicate 2 ' ' ++ [']']

/-- An object of lists of texts, two blanks a level, with a newline at the end. -/
def textListsDocument (members : List (String × List String)) : String :=
  String.ofList
    ('\x7b'
      :: Text.joinWith [',']
        (members.map fun (k, items) => '\n' :: List.replicate 2 ' ' ++ quoted k ++ [':', ' '] ++ textLines items)
      ++ ['\n', '\x7d', '\n'])

end Json
end CallPlan
