import SchemaStitching.Node

/-! Visitors: what is done on the way through a tree of nodes.  A visitor has two callbacks for each
kind of node, one before what lies below the node and one after it. -/

namespace SchemaStitching

/-- How a walk goes on after it has visited a node. -/
inductive Verdict where
  /-- With the nodes below. -/
  | descend
  /-- With what comes after the nodes below. -/
  | skipChildren
  /-- Not at all. -/
  | stop
  deriving DecidableEq, Inhabited

/-- Callbacks that read and change a state of type `σ`.  One that is not given changes nothing and
lets the walk go on. -/
structure Visitor (σ : Type) where
  visitDocument : Document → σ → Verdict × σ := fun _ state => (.descend, state)
  leaveDocument : Document → σ → σ := fun _ state => state
  visitService : Service → σ → Verdict × σ := fun _ state => (.descend, state)
  leaveService : Service → σ → σ := fun _ state => state
  visitObjectType : ObjectType → σ → Verdict × σ := fun _ state => (.descend, state)
  leaveObjectType : ObjectType → σ → σ := fun _ state => state
  visitField : Field → σ → Verdict × σ := fun _ state => (.descend, state)
  leaveField : Field → σ → σ := fun _ state => state
  visitTransformation : Transformation → σ → Verdict × σ := fun _ state => (.descend, state)
  leaveTransformation : Transformation → σ → σ := fun _ state => state

namespace Visitor

variable {σ : Type}

/-- The callback that is called before what lies below a node. -/
def visit (visitor : Visitor σ) : Node → σ → Verdict × σ
  | .document document => visitor.visitDocument document
  | .service service => visitor.visitService service
  | .objectType type => visitor.visitObjectType type
  | .field field => visitor.visitField field
  | .transformation transformation => visitor.visitTransformation transformation

/-- The callback that is called after what lies below a node. -/
def leave (visitor : Visitor σ) : Node → σ → σ
  | .document document => visitor.leaveDocument document
  | .service service => visitor.leaveService service
  | .objectType type => visitor.leaveObjectType type
  | .field field => visitor.leaveField field
  | .transformation transformation => visitor.leaveTransformation transformation

/-- The visitor that treats all kinds of nodes by the same two callbacks. -/
def uniform (visit : Node → σ → Verdict × σ) (leave : Node → σ → σ) : Visitor σ where
  visitDocument document := visit (.document document)
  leaveDocument document := leave (.document document)
  visitService service := visit (.service service)
  leaveService service := leave (.service service)
  visitObjectType type := visit (.objectType type)
  leaveObjectType type := leave (.objectType type)
  visitField field := visit (.field field)
  leaveField field := leave (.field field)
  visitTransformation transformation := visit (.transformation transformation)
  leaveTransformation transformation := leave (.transformation transformation)

end Visitor

end SchemaStitching
