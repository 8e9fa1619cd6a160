import SchemaStitching.Document

/-! The nodes of a document, whatever their kind, and the tree that they form: a document has
services, a service object types, an object type fields, and a field at most one transformation. -/

namespace SchemaStitching

/-- A node of any kind. -/
inductive Node where
  | document (document : Document)
  | service (service : Service)
  | objectType (type : ObjectType)
  | field (field : Field)
  | transformation (transformation : Transformation)

namespace Node

def kind : Node → NodeKind
  | .document _ => .document
  | .service _ => .service
  | .objectType _ => .objectType
  | .field _ => .field
  | .transformation _ => .transformation

theorem eq_transformation_of_kind : {node : Node} → node.kind = .transformation →
    ∃ x, node = .transformation x
  | .transformation x, _ => ⟨x, rfl⟩

/-- What a node is called in reports: its name, or the kind of a transformation.  A document has
no name. -/
def name : Node → String
  | .document _ => ""
  | .service s => s.name
  | .objectType t => t.name
  | .field f => f.name
  | .transformation x => x.kind.name

def provenance : Node → Provenance
  | .document d => d.provenance
  | .service s => s.provenance
  | .objectType t => t.provenance
  | .field f => f.provenance
  | .transformation x => x.provenance

/-- The nodes directly below a node, in the order of the document. -/
def children : Node → List Node
  | .document d => d.services.map .service
  | .service s => s.types.map .objectType
  | .objectType t => t.fields.map .field
  | .field f => f.transformation.toList.map .transformation
  | .transformation _ => []

/-- Nodes are equal, by `==`, if they are of one kind and equal apart from provenance. -/
instance : BEq Node where
  beq
    | .document a, .document b => a == b
    | .service a, .service b => a == b
    | .objectType a, .objectType b => a == b
    | .field a, .field b => a == b
    | .transformation a, .transformation b => a == b
    | _, _ => false

theorem kind_eq_of_beq {a b : Node} (h : a == b) : a.kind = b.kind := by
  cases a <;> cases b <;> first | rfl | exact absurd h Bool.false_ne_true

/-- How many levels of nodes there can be below a node. -/
def height : Node → Nat
  | .document _ => 4
  | .service _ => 3
  | .objectType _ => 2
  | .field _ => 1
  | .transformation _ => 0

theorem height_lt_of_mem_children {node child : Node} (mem : child ∈ node.children) :
    child.height < node.height := by
  cases node <;> simp only [children, List.mem_map, List.not_mem_nil] at mem
  all_goals
    obtain ⟨_, _, rfl⟩ := mem
    simp [height]

/-- The number of nodes in the tree below a node, with the node itself. -/
def size (node : Node) : Nat :=
  node.children.attach.foldr (fun child total => size child.val + total) 1
termination_by node.height
decreasing_by exact height_lt_of_mem_children child.property

theorem size_eq (node : Node) :
    node.size = node.children.foldr (fun child total => child.size + total) 1 := by
  rw [size]
  exact List.foldr_attach (f := fun (child : Node) total => child.size + total)

/-- The node that a path of child indices leads to. -/
def descend? : Node → List Nat → Option Node
  | node, [] => some node
  | node, index :: path => do
    let child ← node.children[index]?
    child.descend? path

end Node

end SchemaStitching
