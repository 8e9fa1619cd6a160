/-! The lines of a text: how a comment of several lines is taken apart. -/

namespace SchemaStitching.Text

/-- A line without the one carriage return that ends it, if there is one. -/
def withoutReturn (line : List Char) : List Char :=
  if line.getLast? = some '\r' then line.dropLast else line

/-- The lines of a text.  A line feed ends a line, and a carriage return just before it belongs to
the ending.  Text after the last line feed is a line of its own, unless it is empty; it keeps every
carriage return. -/
def linesOf (text : List Char) : List (List Char) :=
  let pieces := text.splitOn '\n'
  let last := pieces.getLastD []
  pieces.dropLast.map withoutReturn ++ if last.isEmpty then [] else [last]

/-- The lines of a string. -/
def lines (text : String) : List String :=
  (linesOf text.toList).map String.ofList

end SchemaStitching.Text
