import SchemaStitching.Location

/-! Where a node comes from: its location and the comments attached to it.  Provenance serves
messages and layout, and plays no part in whether two nodes are equal. -/

namespace SchemaStitching

/-- A comment of the source document. -/
structure Comment where
  /-- The text after the leading `#`. -/
  content : String
  location : Location
  deriving DecidableEq, Hashable

/-- The location of a node and its comments, in the order in which they were attached. -/
structure Provenance where
  location : Location := default
  comments : List Comment := []
  deriving DecidableEq, Hashable, Inhabited

/-- The provenance of a node without comments, given its line and column. -/
def Provenance.ofPosition (line column : UInt32) : Provenance :=
  { location := { line, column } }

end SchemaStitching
