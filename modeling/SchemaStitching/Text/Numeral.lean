/-! Decimal numerals: what may stand for a line or a column in the text of a location. -/

namespace SchemaStitching.Text

/-- The number that a non-empty sequence of ASCII digits denotes; leading zeros are allowed. -/
def digits? : List Char → Option Nat
  | [] => none
  | text => if text.all Char.isDigit then some (Nat.ofDigitChars 10 text 0) else none

/-- The number that a sequence of digits denotes, after at most one plus sign. -/
def numeral? : List Char → Option Nat
  | '+' :: text => digits? text
  | text => digits? text

/-- The 32-bit word that a numeral denotes; a numeral too large for one denotes none. -/
def word32? (text : List Char) : Option UInt32 := do
  let n ← numeral? text
  if h : n < UInt32.size then some (UInt32.ofNatLT n h) else none

end SchemaStitching.Text
