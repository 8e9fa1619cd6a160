import SchemaStitching.Walk

/-! Surveys: lists of the transformed fields of a document, each with the service and the object
type that enclose it.  A survey is the state of a visitor, so that it can also be taken of single
nodes, and of several one after the other. -/

namespace SchemaStitching

/-- What a survey says of a transformed field. -/
structure TransformedField where
  /-- The service that declares the field. -/
  service : String
  /-- The object type that declares the field. -/
  typeName : String
  field : String
  kind : TransformationKind
  /-- The path of a mapping, or what a hydration calls. -/
  target : String
  /-- The location of the transformation. -/
  location : Location
  deriving DecidableEq

/-- A survey under way: what it has found, where it is, and what it is after. -/
structure Survey where
  /-- The transformed fields found so far, in the order of the walk. -/
  found : List TransformedField := []
  /-- The name of the service that the walk is in. -/
  service : Option String := none
  /-- The name of the object type that the walk is in. -/
  typeName : Option String := none
  /-- The name of the transformed field that the walk is in. -/
  field : Option String := none
  /-- If given, only hydrations that call this service are recorded. -/
  called : Option String := none
  /-- The events recorded so far. -/
  log : List Event := []
  deriving Inhabited

namespace Survey

/-- Whether a transformation with the given payload belongs in the survey. -/
def covers (survey : Survey) (payload : Payload) : Bool :=
  match survey.called, payload with
  | none, _ => true
  | some service, .hydration hydration => hydration.service == service
  | some _, .mapping _ => false

/-- The survey after a transformation, which belongs to the nodes that the walk is in. -/
def record (survey : Survey) (transformation : Transformation) : Survey :=
  let payload := transformation.payload
  if survey.covers payload then
    { survey with
      found := survey.found ++ [{
        service := survey.service.getD ""
        typeName := survey.typeName.getD ""
        field := survey.field.getD ""
        kind := payload.kind
        target := payload.target
        location := transformation.provenance.location }]
      log := survey.log ++
        [.transformationFound (survey.field.getD "") payload.kind payload.target] }
  else survey

/-- The visitor that takes a survey. -/
def visitor : Visitor Survey where
  visitService service survey := (.descend, { survey with service := some service.name })
  leaveService _ survey := { survey with service := none }
  visitObjectType type survey := (.descend, { survey with typeName := some type.name })
  leaveObjectType _ survey := { survey with typeName := none }
  visitField field survey :=
    if field.transformation.isSome then (.descend, { survey with field := some field.name })
    else (.skipChildren, survey)
  leaveField _ survey := { survey with field := none }
  visitTransformation transformation survey := (.descend, survey.record transformation)

/-- What a survey finds in a whole document, with the events on the way and the one that closes
the survey, which depends on how many fields it found. -/
def complete (survey : Survey) (document : Document) (closing : Nat → Event) :
    Logged (List TransformedField) :=
  let run := visitor.walkDocument document survey
  { value := run.state.found
    log := run.state.log ++ run.log ++ [closing run.state.found.length] }

end Survey

namespace Document

/-- The transformed fields of a document, in its order. -/
def transformedFields (document : Document) : Logged (List TransformedField) :=
  Survey.complete {} document .transformationsCollected

/-- The fields of a document that are hydrated by calls of the given service, in its order. -/
def fieldsHydratedBy (document : Document) (service : String) : Logged (List TransformedField) :=
  Survey.complete { called := some service } document (.hydrationsCollected service)

end Document

end SchemaStitching
