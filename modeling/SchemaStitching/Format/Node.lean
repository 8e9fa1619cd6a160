import SchemaStitching.Format.Document
import SchemaStitching.Format.Reading
import SchemaStitching.Format.Writing
import SchemaStitching.Node

/-! The JSON forms of nodes of any kind. -/

namespace SchemaStitching

namespace Node

/-- The JSON form of a node, which does not tell its kind. -/
def write : Node → Json
  | .document d => Document.format.write d
  | .service s => Service.format.write s
  | .objectType t => ObjectType.format.write t
  | .field f => Field.format.write f
  | .transformation x => Transformation.format.write x

/-- The node of the given kind that a JSON value is the form of. -/
def read (kind : NodeKind) (j : Json) : Except ReadFault Node :=
  match kind with
  | .document => .document <$> Document.format.read j
  | .service => .service <$> Service.format.read j
  | .objectType => .objectType <$> ObjectType.format.read j
  | .field => .field <$> Field.format.read j
  | .transformation => .transformation <$> Transformation.format.read j

end Node

end SchemaStitching
