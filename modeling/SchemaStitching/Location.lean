import SchemaStitching.Span
import SchemaStitching.Text.Numeral

/-! Positions in source documents, their text form `name:line:column`, and their order. -/

namespace SchemaStitching

/-- A position in a source document.  Lines and columns count from 1, columns in UTF-8 bytes. -/
structure Location where
  line : UInt32
  column : UInt32
  /-- The name of the document, such as `issues.stitch`. -/
  sourceName : Option String := none
  /-- The bytes that the construct at this position covers. -/
  span : Option Span := none
  deriving DecidableEq, Hashable

namespace Location

/-- A location that nothing else determines is the start of a document. -/
instance : Inhabited Location where
  default := { line := 1, column := 1 }

/-- The location in the source document of the given name. -/
def inSource (location : Location) (name : String) : Location :=
  { location with sourceName := some name }

/-- The location of a construct that covers the given span. -/
def covering (location : Location) (span : Span) : Location :=
  { location with span := some span }

/-- `name:line:column`, or `line:column` for a location without a name. -/
instance : ToString Location where
  toString location :=
    let position := toString location.line ++ ":" ++ toString location.column
    match location.sourceName with
    | some name => name ++ ":" ++ position
    | none => position

/-- The location that a text denotes.  The line and the column are what the last two colons set off,
so that a name may hold colons; a name must not be empty. -/
def parse? (text : String) : Option Location :=
  match (text.toList.splitOn ':').reverse with
  | [] | [_] => none
  | [column, line] => do
    return { line := ← Text.word32? line, column := ← Text.word32? column }
  | column :: line :: nameParts =>
    let name := [':'].intercalate nameParts.reverse
    if name.isEmpty then none
    else do
      return {
        line := ← Text.word32? line
        column := ← Text.word32? column
        sourceName := some (String.ofList name) }

/-- Locations are ordered by document name, line, column, and span.  One without a name or a span
comes before those with one. -/
instance : Ord Location where
  compare := compareLex (compareOn sourceName) <| compareLex (compareOn line) <|
    compareLex (compareOn column) (compareOn span)

/-- How two locations compare, if they can be compared. -/
def partialCompare (a b : Location) : Option Ordering :=
  some (compare a b)

instance : LT Location where
  lt a b := (partialCompare a b).any Ordering.isLT

instance : LE Location where
  le a b := (partialCompare a b).any Ordering.isLE

instance : DecidableLT Location :=
  fun a b => inferInstanceAs (Decidable ((partialCompare a b).any Ordering.isLT))

instance : DecidableLE Location :=
  fun a b => inferInstanceAs (Decidable ((partialCompare a b).any Ordering.isLE))

/-- The later of two locations. -/
instance : Max Location where
  max a b := if (compare a b).isGT then a else b

/-- The locations in order; equal ones keep their places. -/
def sort (locations : List Location) : List Location :=
  locations.mergeSort fun a b => (compare a b).isLE

end Location

end SchemaStitching
