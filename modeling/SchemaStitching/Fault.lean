import SchemaStitching.Location

/-! The reasons for which a value cannot be built. -/

namespace SchemaStitching

/-- A rule that the parts given for a value break. -/
inductive Fault where
  /-- A transformation is given neither a mapping nor a hydration. -/
  | noPayload (location : Location)
  /-- A transformation is given both a mapping and a hydration. -/
  | twoPayloads (location : Location)
  /-- A path has no segments. -/
  | emptyPath
  /-- A segment of the path, here joined with dots, is empty. -/
  | emptySegment (path : String)
  /-- A segment holds a dot. -/
  | dottedSegment (segment : String)
  /-- The call of a top-level field is to be batched in groups of none. -/
  | zeroBatchSize (service field : String)
  deriving DecidableEq

/-- Who is at fault. -/
inductive Fault.Category where
  /-- The caller gave a malformed node. -/
  | invalidNode
  /-- The reader of the document came up with an impossible node. -/
  | internalError
  deriving DecidableEq

/-- The number of a category in reports. -/
def Fault.Category.code : Fault.Category → Nat
  | .invalidNode => 2
  | .internalError => 10

instance : ToString Fault.Category where
  toString category := toString category.code

namespace Fault

/-- Only a reader of documents fills slots, so only it can leave both empty or fill both. -/
def category : Fault → Category
  | .noPayload _ | .twoPayloads _ => .internalError
  | .emptyPath | .emptySegment _ | .dottedSegment _ | .zeroBatchSize .. => .invalidNode

/-- The text that reports a fault. -/
def message : Fault → String
  | .noPayload location =>
    "field transformation at " ++ toString location ++ " has no mapping or hydration"
  | .twoPayloads location =>
    "field transformation at " ++ toString location ++ " has both a mapping and a hydration"
  | .emptyPath => "field mapping input path must not be empty"
  | .emptySegment path => "path '" ++ path ++ "' contains an empty segment"
  | .dottedSegment segment => "path segment '" ++ segment ++ "' must not contain '.'"
  | .zeroBatchSize service field =>
    "hydration from " ++ service ++ "." ++ field ++ " has batch size 0"

end Fault

end SchemaStitching
