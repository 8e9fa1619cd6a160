import SchemaStitching.Format.Provenance
import SchemaStitching.Survey

/-! The formats of what a survey finds. -/

namespace SchemaStitching

def TransformationKind.format : Format TransformationKind :=
  .named TransformationKind.name TransformationKind.ofName? TransformationKind.ofName?_name

def TransformedField.format : Format TransformedField :=
  .built
    (.record (.required "service" .text <| .required "type_name" .text <|
      .required "field" .text <| .required "kind" TransformationKind.format <|
      .required "target" .text <| .required "location" Location.format .none))
    (fun (service, typeName, field, kind, target, location, ()) =>
      { service, typeName, field, kind, target, location })
    (fun found => (found.service, found.typeName, found.field, found.kind, found.target,
      found.location, ()))
    (fun _ => rfl)

end SchemaStitching
