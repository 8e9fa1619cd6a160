import SchemaStitching.Transformation

/-! Stitching documents: services, the object types that they contribute to the schema, and the
fields of these.  Two definitions are equal, by `==`, if they agree in everything but provenance. -/

namespace SchemaStitching

/-- A field of an object type. -/
structure Field where
  name : String
  /-- The type of the field as it is written, such as `[Comment!]!`. -/
  typeRef : String
  transformation : Option Transformation := none
  provenance : Provenance := default

/-- An object type and its fields. -/
structure ObjectType where
  name : String
  fields : List Field
  provenance : Provenance := default

/-- A service and the object types that it contributes. -/
structure Service where
  name : String
  types : List ObjectType
  provenance : Provenance := default

/-- A whole document. -/
structure Document where
  services : List Service := []
  provenance : Provenance := default
  deriving Inhabited

namespace Field

/-- The field with the given transformation in place of any that it has. -/
def annotate (field : Field) (transformation : Transformation) : Field :=
  { field with transformation := some transformation }

instance : BEq Field where
  beq a b := a.name == b.name && a.typeRef == b.typeRef && a.transformation == b.transformation

theorem beq_iff {a b : Field} : a == b ↔
    a.name = b.name ∧ a.typeRef = b.typeRef ∧ a.transformation == b.transformation := by
  rw [← and_assoc, ← beq_iff_eq (a := a.name), ← beq_iff_eq (a := a.typeRef), ← Bool.and_eq_true,
    ← Bool.and_eq_true]
  rfl

end Field

namespace ObjectType

/-- The first field of the given name. -/
def field? (type : ObjectType) (name : String) : Option Field :=
  type.fields.find? (·.name == name)

theorem name_of_field? {type : ObjectType} {name : String} {field : Field}
    (h : type.field? name = some field) : field.name = name :=
  eq_of_beq (List.find?_some (p := fun other : Field => other.name == name) h)

instance : BEq ObjectType where
  beq a b := a.name == b.name && a.fields == b.fields

theorem beq_iff {a b : ObjectType} : a == b ↔ a.name = b.name ∧ a.fields == b.fields := by
  rw [← beq_iff_eq (a := a.name), ← Bool.and_eq_true]
  rfl

end ObjectType

namespace Service

/-- The first object type of the given name. -/
def objectType? (service : Service) (name : String) : Option ObjectType :=
  service.types.find? (·.name == name)

theorem name_of_objectType? {service : Service} {name : String} {type : ObjectType}
    (h : service.objectType? name = some type) : type.name = name :=
  eq_of_beq (List.find?_some (p := fun other : ObjectType => other.name == name) h)

instance : BEq Service where
  beq a b := a.name == b.name && a.types == b.types

theorem beq_iff {a b : Service} : a == b ↔ a.name = b.name ∧ a.types == b.types := by
  rw [← beq_iff_eq (a := a.name), ← Bool.and_eq_true]
  rfl

end Service

namespace Document

/-- The first service of the given name. -/
def service? (document : Document) (name : String) : Option Service :=
  document.services.find? (·.name == name)

theorem name_of_service? {document : Document} {name : String} {service : Service}
    (h : document.service? name = some service) : service.name = name :=
  eq_of_beq (List.find?_some (p := fun other : Service => other.name == name) h)

/-- The transformations of all fields, in the order of the document. -/
def transformations (document : Document) : List Transformation :=
  ((document.services.flatMap Service.types).flatMap ObjectType.fields).filterMap
    Field.transformation

instance : BEq Document where
  beq a b := a.services == b.services

theorem beq_iff {a b : Document} : a == b ↔ a.services == b.services :=
  Iff.rfl

end Document

end SchemaStitching
