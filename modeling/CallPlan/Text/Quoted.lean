import CallPlan.Text.Shapeless
/-!
# Quoted characters

A character that a message points at is shown between single quotes, a text between double quotes.  What would not show is
escaped: the quote, the backslash, the common controls by letter, and by number every other character that has no shape of its
own.
-/
namespace CallPlan
namespace Text

def hexLetter (n : Nat) : Char := if n < 10 then Char.ofNat (48 + n) else Char.ofNat (87 + n)

/-- How a character stands between quotes of a kind. -/
def quotedChar (quote c : Char) : List Char :=
  let n := c.toNat
  if n = 0 then ['\\', '0']
  else if c = '\t' then ['\\', 't']
  else if c = '\n' then ['\\', 'n']
  else if c = '\r' then ['\\', 'r']
  else if c = quote then ['\\', quote]
  else if c = '\\' then ['\\', '\\']
  else if isShapeless c then ['\\', 'u', '\x7b'] ++ Nat.toDigits 16 n ++ ['\x7d']
  else [c]

/-- The character of the same number as a byte, between single quotes. -/
def quotedByte (b : UInt8) : String := String.ofList ('\'' :: quotedChar '\'' (Char.ofNat b.toNat) ++ ['\''])

/-- A text between double quotes. -/
def quotedText (s : String) : String := String.ofList ('"' :: s.toList.flatMap (quotedChar '"') ++ ['"'])

end Text
end CallPlan
