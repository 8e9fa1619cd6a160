/-! Cuts in text at a number of UTF-8 bytes.  A cut exists only where a character starts or the text
ends. -/

namespace SchemaStitching.Text

/-- The first `n` bytes of the text and the rest of it, unless byte `n` lies past the end or inside
a character. -/
def cut? : Nat → List Char → Option (List Char × List Char)
  | 0, text => some ([], text)
  | _ + 1, [] => none
  | n, c :: text =>
    if c.utf8Size ≤ n then
      (cut? (n - c.utf8Size) text).map fun (front, rest) => (c :: front, rest)
    else none

end SchemaStitching.Text
