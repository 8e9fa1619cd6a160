import SchemaStitching.Format.Provenance
import SchemaStitching.Transformation

/-! The formats of transformations and of what they are made of.  Reading enforces the rules for
paths and batch sizes. -/

namespace SchemaStitching

def Mapping.format : Format Mapping :=
  .checked (.record (.required "input_path" (.list .text) .none))
    (fun (segments, ()) => Mapping.ofSegments segments)
    (fun mapping => (mapping.path.segments, ()))
    (fun mapping => by simp [Mapping.ofSegments, Path.ofSegments_segments, Except.map])

def Origin.name : Origin → String
  | .objectField => "object_field"
  | .fieldArgument => "field_argument"
  | .context => "context"

def Origin.ofName? : String → Option Origin
  | "object_field" => some .objectField
  | "field_argument" => some .fieldArgument
  | "context" => some .context
  | _ => none

def Origin.format : Format Origin :=
  .named Origin.name Origin.ofName? fun origin => by cases origin <;> rfl

def Source.format : Format Source :=
  .checked (.record (.required "kind" Origin.format <| .required "path" (.list .text) .none))
    (fun (origin, segments, ()) => Source.ofSegments origin segments)
    (fun source => (source.origin, source.path.segments, ()))
    (fun source => by simp [Source.ofSegments, Path.ofSegments_segments, Except.map])

def Argument.format : Format Argument :=
  .built (.record (.required "name" .text <| .required "source" Source.format .none))
    (fun (name, source, ()) => { name, source })
    (fun argument => (argument.name, argument.source, ()))
    (fun _ => rfl)

/-- The hydration with its call batched as asked for, if anything is asked for. -/
def Hydration.batchBy? (hydration : Hydration) : Option UInt32 → Except Fault Hydration
  | some count => hydration.batchBy count
  | none => .ok hydration

def Hydration.format : Format Hydration :=
  .checked
    (.record (.required "service_name" .text <| .required "top_level_field" .text <|
      .list "arguments" Argument.format true <| .optional "object_identifier" .text <|
      .optional "batch_size" .word32 .none))
    (fun (service, field, arguments, identifier, batchSize, ()) =>
      Hydration.batchBy? { service, field, arguments, identifier }
        batchSize)
    (fun hydration => (hydration.service, hydration.field, hydration.arguments,
      hydration.identifier, hydration.batchSize.map BatchSize.count, ()))
    (fun ⟨_, _, _, _, batchSize⟩ => by
      cases batchSize with
      | none => rfl
      | some size => simp [Hydration.batchBy?, Hydration.batchBy, size.count_ne_zero])

def Payload.format : Format Payload :=
  .built
    (.union TransformationKind.mapping.name Mapping.format
      TransformationKind.hydration.name Hydration.format (by decide))
    (fun | .inl definition => .mapping definition | .inr definition => .hydration definition)
    (fun | .mapping definition => .inl definition | .hydration definition => .inr definition)
    (fun payload => by cases payload <;> rfl)

def Transformation.format : Format Transformation :=
  .built
    (.record (.required "transformation" Payload.format <|
      .required "metadata" Provenance.format .none))
    (fun (payload, provenance, ()) => { payload, provenance })
    (fun transformation => (transformation.payload, transformation.provenance, ()))
    (fun _ => rfl)

end SchemaStitching
