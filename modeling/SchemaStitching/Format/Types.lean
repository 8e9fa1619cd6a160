import SchemaStitching.Format.Document
import SchemaStitching.Format.Survey

/-! The types that have a JSON form, each with its format. -/

namespace SchemaStitching

/-- The types that have a JSON form. -/
inductive JsonType where
  | span | location | comment | provenance | mapping | origin | source | argument | hydration
  | payload | transformation | field | objectType | service | document | transformationKind
  | transformedField
  deriving DecidableEq

namespace JsonType

def Value : JsonType → Type
  | span => Span
  | location => Location
  | comment => Comment
  | provenance => Provenance
  | mapping => Mapping
  | origin => Origin
  | source => Source
  | argument => Argument
  | hydration => Hydration
  | payload => Payload
  | transformation => Transformation
  | field => Field
  | objectType => ObjectType
  | service => Service
  | document => Document
  | transformationKind => TransformationKind
  | transformedField => TransformedField

def format : (t : JsonType) → Format t.Value
  | span => Span.format
  | location => Location.format
  | comment => Comment.format
  | provenance => Provenance.format
  | mapping => Mapping.format
  | origin => Origin.format
  | source => Source.format
  | argument => Argument.format
  | hydration => Hydration.format
  | payload => Payload.format
  | transformation => Transformation.format
  | field => Field.format
  | objectType => ObjectType.format
  | service => Service.format
  | document => Document.format
  | transformationKind => TransformationKind.format
  | transformedField => TransformedField.format

end JsonType

end SchemaStitching
