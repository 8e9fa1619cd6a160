import SchemaStitching.Kind
import SchemaStitching.Location

/-! Events: what building, walking and surveying a document report besides their results. -/

namespace SchemaStitching

/-- Something worth recording. -/
inductive Event where
  /-- The transformation at a location was given no payload. -/
  | payloadMissing (location : Location)
  /-- The transformation at a location was given two payloads. -/
  | payloadsConflict (location : Location)
  /-- The visitor stopped a walk at a node. -/
  | walkStopped (kind : NodeKind) (name : String)
  /-- A survey recorded the transformation of a field. -/
  | transformationFound (field : String) (kind : TransformationKind) (target : String)
  /-- A survey of all transformations recorded so many. -/
  | transformationsCollected (count : Nat)
  /-- A survey of the hydrations that call a service recorded so many. -/
  | hydrationsCollected (service : String) (count : Nat)
  deriving DecidableEq

namespace Event

/-- How important an event is. -/
inductive Level where
  | debug
  | trace
  deriving DecidableEq

def Level.name : Level → String
  | .debug => "DEBUG"
  | .trace => "TRACE"

def level : Event → Level
  | .walkStopped .. | .transformationFound .. => .trace
  | .payloadMissing _ | .payloadsConflict _ | .transformationsCollected _
  | .hydrationsCollected .. => .debug

/-- The text of an event, which does not depend on its details. -/
def message : Event → String
  | .payloadMissing _ => "transformation without payload"
  | .payloadsConflict _ => "transformation with two payloads"
  | .walkStopped .. => "walk stopped by visitor"
  | .transformationFound .. => "field transformation"
  | .transformationsCollected _ => "collected field transformations"
  | .hydrationsCollected .. => "collected hydrations"

/-- The details of an event, by name. -/
def details : Event → List (String × String)
  | .payloadMissing location | .payloadsConflict location => [("location", toString location)]
  | .walkStopped kind name => [("node", kind.name), ("node_name", name)]
  | .transformationFound field kind target =>
    [("field", field), ("kind", kind.name), ("target", target)]
  | .transformationsCollected count => [("count", toString count)]
  | .hydrationsCollected service count => [("service", service), ("count", toString count)]

end Event

/-- A result and the events recorded on the way to it, in order. -/
structure Logged (α : Type) where
  value : α
  log : List Event := []

end SchemaStitching
