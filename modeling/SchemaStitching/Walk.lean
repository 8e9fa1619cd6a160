import SchemaStitching.Visitor

/-! Walks through the tree of nodes, depth first and in the order of the document.  A walk visits a
node before those below it and leaves it after them.  A visitor that stops it ends it at once: no
node is left any more, and one event records where it stopped. -/

namespace SchemaStitching

/-- The call of a callback. -/
inductive Callback where
  | visit (node : Node)
  | leave (node : Node)

/-- What a walk, or a part of one, comes to. -/
structure Run (σ : Type) where
  /-- The state that the callbacks leave behind. -/
  state : σ
  /-- The callbacks in the order of their calls. -/
  callbacks : List Callback := []
  /-- The events that the walk itself records. -/
  log : List Event := []
  /-- `stop` if the visitor stopped the walk, and `descend` otherwise. -/
  verdict : Verdict := .descend

namespace Run

variable {σ α : Type}

/-- The run that goes on with `next`, unless it has been stopped. -/
def andThen (run : Run σ) (next : σ → Run σ) : Run σ :=
  if run.verdict = .stop then run
  else
    let rest := next run.state
    { rest with callbacks := run.callbacks ++ rest.callbacks, log := run.log ++ rest.log }

/-- The run that takes one step for each item, until one is stopped. -/
def each (step : α → σ → Run σ) : List α → σ → Run σ
  | [], state => { state }
  | item :: items, state => (step item state).andThen (each step items)

end Run

namespace Visitor

variable {σ : Type}

/-- The run that leaves a node. -/
def departure (visitor : Visitor σ) (node : Node) (state : σ) : Run σ :=
  { state := visitor.leave node state, callbacks := [.leave node] }

/-- The run that visits a node, walks below it if the visitor wants that, and leaves it; or stops
at it. -/
def enclose (visitor : Visitor σ) (node : Node) (below : σ → Run σ) (state : σ) : Run σ :=
  let visited := visitor.visit node state
  let arrival : Run σ := { state := visited.2, callbacks := [.visit node] }
  match visited.1 with
  | .stop => { arrival with log := [.walkStopped node.kind node.name], verdict := .stop }
  | .skipChildren => arrival.andThen (visitor.departure node)
  | .descend => (arrival.andThen below).andThen (visitor.departure node)

/-- Nothing lies below a transformation: its payload is no node. -/
def walkTransformation (visitor : Visitor σ) (transformation : Transformation) : σ → Run σ :=
  visitor.enclose (.transformation transformation) fun state => { state }

def walkField (visitor : Visitor σ) (field : Field) : σ → Run σ :=
  visitor.enclose (.field field) (Run.each visitor.walkTransformation field.transformation.toList)

def walkObjectType (visitor : Visitor σ) (type : ObjectType) : σ → Run σ :=
  visitor.enclose (.objectType type) (Run.each visitor.walkField type.fields)

def walkService (visitor : Visitor σ) (service : Service) : σ → Run σ :=
  visitor.enclose (.service service) (Run.each visitor.walkObjectType service.types)

def walkDocument (visitor : Visitor σ) (document : Document) : σ → Run σ :=
  visitor.enclose (.document document) (Run.each visitor.walkService document.services)

/-- The walk that starts at a node of any kind. -/
def walk (visitor : Visitor σ) : Node → σ → Run σ
  | .document document => visitor.walkDocument document
  | .service service => visitor.walkService service
  | .objectType type => visitor.walkObjectType type
  | .field field => visitor.walkField field
  | .transformation transformation => visitor.walkTransformation transformation

end Visitor

end SchemaStitching
