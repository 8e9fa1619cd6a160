import SchemaStitching.Proofs.Surveys

/-! Surveys of several nodes.  A survey that has walked one node is ready to walk another, of any
kind and from any document.  Between walks it is in no node, and so nothing that it tells of a later
node comes from an earlier one.  Of what encloses the node that a walk starts at, a survey knows
nothing, and the names it gives are empty. -/

namespace SchemaStitching

/-- The transformations of the tree below a node where they stand.  The names of what encloses the
node itself are empty. -/
def Node.placements : Node → List Placement
  | .document d => d.placements
  | .service s => s.placements
  | .objectType t => t.placements ""
  | .field f => (f.placement? "" "").toList
  | .transformation x => [{ service := "", typeName := "", field := "", transformation := x }]

namespace Survey

/-- The survey that has walked the given nodes, one after the other. -/
def ofWalks (nodes : List Node) : Survey :=
  nodes.foldl (fun survey node => (visitor.walk node survey).state) {}

/-- The survey is in no node. -/
structure Outside (survey : Survey) : Prop where
  service : survey.service = none
  typeName : survey.typeName = none
  field : survey.field = none

theorem Outside.add {survey : Survey} (h : survey.Outside) (placements : List Placement) :
    (survey.add placements).Outside :=
  ⟨h.service, h.typeName, h.field⟩

theorem Outside.walk_reaches {survey : Survey} (h : survey.Outside) (node : Node) :
    (visitor.walk node survey).Reaches (survey.add node.placements) := by
  have hs : survey.service.getD "" = "" := by rw [h.service]; rfl
  have ht : survey.typeName.getD "" = "" := by rw [h.typeName]; rfl
  have hf : survey.field.getD "" = "" := by rw [h.field]; rfl
  cases node with
  | document document => exact walkDocument_reaches survey document h.service h.typeName h.field
  | service service => exact walkService_reaches survey service h.service h.typeName h.field
  | objectType type =>
    have hr := walkObjectType_reaches survey type h.typeName h.field
    rwa [hs] at hr
  | field field =>
    have hr := walkField_reaches survey field h.field
    rwa [hs, ht] at hr
  | transformation transformation =>
    have hr := walkTransformation_reaches survey transformation
    rwa [place, hs, ht, hf] at hr

theorem Outside.foldl_walk {survey : Survey} (h : survey.Outside) (nodes : List Node) :
    nodes.foldl (fun survey node => (visitor.walk node survey).state) survey =
      survey.add (nodes.flatMap Node.placements) := by
  induction nodes generalizing survey with
  | nil => simp
  | cons node nodes ih =>
    rw [List.foldl_cons, (h.walk_reaches node).state, ih (h.add _), add_add, List.flatMap_cons]

theorem ofWalks_eq_add (nodes : List Node) :
    ofWalks nodes = add {} (nodes.flatMap Node.placements) :=
  Outside.foldl_walk ⟨rfl, rfl, rfl⟩ nodes

theorem ofWalks_found (nodes : List Node) :
    (ofWalks nodes).found = (nodes.flatMap Node.placements).map Placement.describe := by
  simp [ofWalks_eq_add, add, covers]

/-- A survey of nodes that are walked one after the other finds what surveys of the single nodes
find, in the order of the walks.  What a walk adds depends on its node alone: it tells of the
transformed fields of the node, and names nothing above it. -/
theorem ofWalks_found_eq_flatMap (nodes : List Node) :
    (ofWalks nodes).found = nodes.flatMap (fun node => (ofWalks [node]).found) ∧
    (ofWalks nodes).Outside ∧
    ∀ node,
      (ofWalks [node]).found = node.placements.map Placement.describe ∧
      (ofWalks (nodes ++ [node])).found =
        (ofWalks nodes).found ++ node.placements.map Placement.describe := by
  refine ⟨?_, ?_, fun node => ⟨?_, ?_⟩⟩
  · simp only [ofWalks_found, List.flatMap_singleton, List.map_flatMap]
  · rw [ofWalks_eq_add]
    exact Outside.add ⟨rfl, rfl, rfl⟩ _
  · rw [ofWalks_found, List.flatMap_singleton]
  · simp only [ofWalks_found, List.flatMap_append, List.flatMap_singleton, List.map_append]

end Survey

end SchemaStitching
