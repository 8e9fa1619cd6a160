import SchemaStitching.Path

/-! Mappings: a field that is a value of its service's object under a new name. -/

namespace SchemaStitching

/-- The renaming of a field. -/
structure Mapping where
  /-- Where the service's object has the value. -/
  path : Path
  deriving DecidableEq, Hashable

namespace Mapping

/-- A mapping from a field at the top level of the service's object. -/
def ofName (name : String) : Except Fault Mapping :=
  (Path.ofName name).map Mapping.mk

/-- A mapping from the value at the end of a path. -/
def ofSegments (segments : List String) : Except Fault Mapping :=
  (Path.ofSegments segments).map Mapping.mk

/-- A mapping from the value at the end of a dotted path. -/
def parse (text : String) : Except Fault Mapping :=
  (Path.parse text).map Mapping.mk

instance : ToString Mapping where
  toString mapping := mapping.path.dotted

end Mapping

end SchemaStitching
