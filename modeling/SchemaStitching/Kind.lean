/-! The kinds of nodes and of transformations, and the names by which reports and files call
them. -/

namespace SchemaStitching

/-- The kinds of nodes in a document. -/
inductive NodeKind where
  | document
  | service
  | objectType
  | field
  | transformation
  deriving DecidableEq

def NodeKind.name : NodeKind → String
  | .document => "stitching_dsl"
  | .service => "service_definition"
  | .objectType => "object_type_definition"
  | .field => "field_definition"
  | .transformation => "field_transformation"

def NodeKind.ofName? : String → Option NodeKind
  | "stitching_dsl" => some .document
  | "service_definition" => some .service
  | "object_type_definition" => some .objectType
  | "field_definition" => some .field
  | "field_transformation" => some .transformation
  | _ => none

theorem NodeKind.ofName?_name (kind : NodeKind) : ofName? kind.name = some kind := by
  cases kind <;> rfl

/-- The two kinds of transformations. -/
inductive TransformationKind where
  | mapping
  | hydration
  deriving DecidableEq, Hashable

def TransformationKind.name : TransformationKind → String
  | .mapping => "mapping"
  | .hydration => "hydration"

def TransformationKind.ofName? : String → Option TransformationKind
  | "mapping" => some .mapping
  | "hydration" => some .hydration
  | _ => none

theorem TransformationKind.ofName?_name (kind : TransformationKind) :
    ofName? kind.name = some kind := by
  cases kind <;> rfl

instance : ToString TransformationKind where
  toString := TransformationKind.name

end SchemaStitching
