import SchemaStitching.Document
import SchemaStitching.Format.Transformation

/-! The formats of documents and of the definitions in them. -/

namespace SchemaStitching

def Field.format : Format Field :=
  .built
    (.record (.required "name" .text <| .required "type_ref" .text <|
      .optional "transformation" Transformation.format <|
      .required "metadata" Provenance.format .none))
    (fun (name, typeRef, transformation, provenance, ()) =>
      { name, typeRef, transformation, provenance })
    (fun field => (field.name, field.typeRef, field.transformation, field.provenance, ()))
    (fun _ => rfl)

def ObjectType.format : Format ObjectType :=
  .built
    (.record (.required "name" .text <| .required "fields" (.list Field.format) <|
      .required "metadata" Provenance.format .none))
    (fun (name, fields, provenance, ()) => { name, fields, provenance })
    (fun type => (type.name, type.fields, type.provenance, ()))
    (fun _ => rfl)

def Service.format : Format Service :=
  .built
    (.record (.required "name" .text <| .required "types" (.list ObjectType.format) <|
      .required "metadata" Provenance.format .none))
    (fun (name, types, provenance, ()) => { name, types, provenance })
    (fun service => (service.name, service.types, service.provenance, ()))
    (fun _ => rfl)

def Document.format : Format Document :=
  .built
    (.record (.required "services" (.list Service.format) <|
      .required "metadata" Provenance.format .none))
    (fun (services, provenance, ()) => { services, provenance })
    (fun document => (document.services, document.provenance, ()))
    (fun _ => rfl)

end SchemaStitching
