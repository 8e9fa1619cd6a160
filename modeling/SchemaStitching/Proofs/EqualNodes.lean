import SchemaStitching.Proofs.Clauses
import SchemaStitching.Proofs.CodeLines
import SchemaStitching.Proofs.HydratedFields

/-! Equality and provenance.  `withoutProvenance` puts the default in place of the provenance of a
node and of all nodes below it.  Two nodes are equal, by `==`, if and only if this makes them
identical.  Children, sizes and surveys commute with `withoutProvenance`, and lookups go by names
only, so none of these tells equal nodes apart, but for the locations that surveys report. -/

namespace SchemaStitching

def Transformation.withoutProvenance (transformation : Transformation) : Transformation :=
  { transformation with provenance := default }

def Field.withoutProvenance (field : Field) : Field :=
  { field with
    transformation := field.transformation.map Transformation.withoutProvenance
    provenance := default }

def ObjectType.withoutProvenance (type : ObjectType) : ObjectType :=
  { type with fields := type.fields.map Field.withoutProvenance, provenance := default }

def Service.withoutProvenance (service : Service) : Service :=
  { service with types := service.types.map ObjectType.withoutProvenance, provenance := default }

def Document.withoutProvenance (document : Document) : Document :=
  { services := document.services.map Service.withoutProvenance, provenance := default }

/-- The node with the default in place of all provenance, its own and that of all nodes below it. -/
def Node.withoutProvenance : Node → Node
  | .document d => .document d.withoutProvenance
  | .service s => .service s.withoutProvenance
  | .objectType t => .objectType t.withoutProvenance
  | .field f => .field f.withoutProvenance
  | .transformation x => .transformation x.withoutProvenance

/-! ### Equal nodes are identical without provenance -/

section lifting

variable {α β : Type} [BEq α] {f : α → β}

theorem list_beq_iff_map_eq (h : ∀ {a b : α}, a == b ↔ f a = f b) {as bs : List α} :
    as == bs ↔ as.map f = bs.map f :=
  ⟨map_eq_map_of_beq h.mp, Text.beq_of_map_eq_map fun _ _ _ _ => h.mpr⟩

theorem option_beq_iff_map_eq (h : ∀ {a b : α}, a == b ↔ f a = f b) {a b : Option α} :
    a == b ↔ a.map f = b.map f := by
  cases a <;> cases b <;> simp [h]

/-- Equal lists have equal first items of a kind, if what `f` takes away does not matter to it. -/
theorem find?_beq {f : α → α} (h : ∀ {a b : α}, a == b ↔ f a = f b) {p : α → Bool}
    (hp : ∀ a, p (f a) = p a) {as bs : List α} (hl : as == bs) : as.find? p == bs.find? p := by
  have hf (items : List α) : (items.find? p).map f = (items.map f).find? p := by
    rw [List.find?_map]
    exact congrArg (fun q => (items.find? q).map f) (funext fun a => (hp a).symm)
  rw [option_beq_iff_map_eq h, hf, hf, (list_beq_iff_map_eq h).mp hl]

end lifting

theorem Transformation.beq_iff_withoutProvenance_eq {a b : Transformation} :
    a == b ↔ a.withoutProvenance = b.withoutProvenance := by
  rw [beq_iff]
  simp [withoutProvenance]

theorem Field.beq_iff_withoutProvenance_eq {a b : Field} :
    a == b ↔ a.withoutProvenance = b.withoutProvenance := by
  rw [beq_iff, option_beq_iff_map_eq Transformation.beq_iff_withoutProvenance_eq]
  simp [withoutProvenance]

theorem ObjectType.beq_iff_withoutProvenance_eq {a b : ObjectType} :
    a == b ↔ a.withoutProvenance = b.withoutProvenance := by
  rw [beq_iff, list_beq_iff_map_eq Field.beq_iff_withoutProvenance_eq]
  simp [withoutProvenance]

theorem Service.beq_iff_withoutProvenance_eq {a b : Service} :
    a == b ↔ a.withoutProvenance = b.withoutProvenance := by
  rw [beq_iff, list_beq_iff_map_eq ObjectType.beq_iff_withoutProvenance_eq]
  simp [withoutProvenance]

theorem Document.beq_iff_withoutProvenance_eq {a b : Document} :
    a == b ↔ a.withoutProvenance = b.withoutProvenance := by
  rw [beq_iff, list_beq_iff_map_eq Service.beq_iff_withoutProvenance_eq]
  simp [withoutProvenance]

theorem Node.beq_iff_withoutProvenance_eq {a b : Node} :
    a == b ↔ a.withoutProvenance = b.withoutProvenance := by
  cases a <;> cases b <;> try exact iff_of_false Bool.false_ne_true nofun
  case document.document =>
    rw [withoutProvenance, withoutProvenance, document.injEq]
    exact Document.beq_iff_withoutProvenance_eq
  case service.service =>
    rw [withoutProvenance, withoutProvenance, service.injEq]
    exact Service.beq_iff_withoutProvenance_eq
  case objectType.objectType =>
    rw [withoutProvenance, withoutProvenance, objectType.injEq]
    exact ObjectType.beq_iff_withoutProvenance_eq
  case field.field =>
    rw [withoutProvenance, withoutProvenance, field.injEq]
    exact Field.beq_iff_withoutProvenance_eq
  case transformation.transformation =>
    rw [withoutProvenance, withoutProvenance, transformation.injEq]
    exact Transformation.beq_iff_withoutProvenance_eq

theorem Node.equivalence_beq : Equivalence fun a b : Node => a == b where
  refl _ := beq_iff_withoutProvenance_eq.mpr rfl
  symm h := beq_iff_withoutProvenance_eq.mpr (beq_iff_withoutProvenance_eq.mp h).symm
  trans h k := beq_iff_withoutProvenance_eq.mpr
    ((beq_iff_withoutProvenance_eq.mp h).trans (beq_iff_withoutProvenance_eq.mp k))

/-! ### Children and sizes -/

namespace Node

theorem children_withoutProvenance (node : Node) :
    node.withoutProvenance.children = node.children.map withoutProvenance := by
  cases node with
  | document d => simp [withoutProvenance, children, Document.withoutProvenance, Function.comp_def]
  | service s => simp [withoutProvenance, children, Service.withoutProvenance, Function.comp_def]
  | objectType t =>
    simp [withoutProvenance, children, ObjectType.withoutProvenance, Function.comp_def]
  | field f =>
    cases ht : f.transformation <;> simp [withoutProvenance, children, Field.withoutProvenance, ht]
  | transformation x => rfl

theorem size_withoutProvenance (node : Node) : node.withoutProvenance.size = node.size := by
  induction node using induction_on_children with
  | step node ih =>
    rw [size_eq, size_eq node, children_withoutProvenance, List.foldr_map]
    exact List.foldr_ext _ _ _ fun child hc total => by rw [ih child hc]

theorem size_eq_of_beq {a b : Node} (h : a == b) : a.size = b.size := by
  rw [← size_withoutProvenance a, beq_iff_withoutProvenance_eq.mp h, size_withoutProvenance]

theorem children_beq {a b : Node} (h : a == b) :
    List.Forall₂ (fun c d => c == d) a.children b.children := by
  have hc : a.children.map withoutProvenance = b.children.map withoutProvenance := by
    rw [← children_withoutProvenance, ← children_withoutProvenance,
      beq_iff_withoutProvenance_eq.mp h]
  rw [← List.forall₂_eq_eq_eq, List.forall₂_map_left_iff, List.forall₂_map_right_iff] at hc
  exact hc.imp fun _ _ => beq_iff_withoutProvenance_eq.mpr

end Node

/-! ### Lookups -/

theorem Document.service?_beq {a b : Document} (h : a == b) (name : String) :
    a.service? name == b.service? name :=
  find?_beq Service.beq_iff_withoutProvenance_eq (fun _ => rfl) (beq_iff.mp h)

theorem Service.objectType?_beq {a b : Service} (h : a == b) (name : String) :
    a.objectType? name == b.objectType? name :=
  find?_beq ObjectType.beq_iff_withoutProvenance_eq (fun _ => rfl) (beq_iff.mp h).2

theorem ObjectType.field?_beq {a b : ObjectType} (h : a == b) (name : String) :
    a.field? name == b.field? name :=
  find?_beq Field.beq_iff_withoutProvenance_eq (fun _ => rfl) (beq_iff.mp h).2

/-! ### Surveys -/

/-- What a survey says of a field, with the default in place of the location. -/
def TransformedField.withoutLocation (found : TransformedField) : TransformedField :=
  { found with location := default }

def Placement.withoutProvenance (placement : Placement) : Placement :=
  { placement with transformation := placement.transformation.withoutProvenance }

theorem Placement.describe_withoutProvenance (placement : Placement) :
    placement.withoutProvenance.describe = placement.describe.withoutLocation :=
  rfl

namespace Document

theorem placements_withoutProvenance (document : Document) :
    document.withoutProvenance.placements =
      document.placements.map Placement.withoutProvenance := by
  have hf (service typeName : String) (field : Field) :
      field.withoutProvenance.placement? service typeName =
        (field.placement? service typeName).map Placement.withoutProvenance := by
    cases ht : field.transformation <;> simp [Field.placement?, Field.withoutProvenance, ht,
      Placement.withoutProvenance]
  simp [placements, Service.placements, ObjectType.placements, withoutProvenance,
    Service.withoutProvenance, ObjectType.withoutProvenance, List.flatMap_map, List.map_flatMap,
    List.map_filterMap, List.filterMap_map, hf]

theorem transformedFields_withoutProvenance (document : Document) :
    document.withoutProvenance.transformedFields.value =
      document.transformedFields.value.map TransformedField.withoutLocation := by
  simp [transformedFields_value, placements_withoutProvenance, Function.comp_def,
    Placement.describe_withoutProvenance]

theorem fieldsHydratedBy_withoutProvenance (document : Document) (service : String) :
    (document.withoutProvenance.fieldsHydratedBy service).value =
      (document.fieldsHydratedBy service).value.map TransformedField.withoutLocation := by
  have hp (placement : Placement) :
      placement.withoutProvenance.transformation.payload = placement.transformation.payload := rfl
  simp [fieldsHydratedBy_value, placements_withoutProvenance, List.filter_map, Function.comp_def,
    Placement.describe_withoutProvenance, hp]

end Document

/-- Two nodes are equal if and only if they are identical when the default stands in place of all
provenance.  This is an equivalence, and equal nodes differ in nothing but provenance: they have
equal children and the same size, a name that leads nowhere from one of them leads nowhere from the
other, one that leads to a node leads to an equal one, and surveys of equal documents find the same
fields, but for the locations of their transformations. -/
theorem Node.beq_ignores_provenance :
    (∀ a b : Node, a == b ↔ a.withoutProvenance = b.withoutProvenance) ∧
    (Equivalence fun a b : Node => a == b) ∧
    (∀ a b : Node, a == b →
      List.Forall₂ (fun c d => c == d) a.children b.children ∧ a.size = b.size) ∧
    (∀ a b : Document, a == b → ∀ name, a.service? name == b.service? name) ∧
    (∀ a b : Service, a == b → ∀ name, a.objectType? name == b.objectType? name) ∧
    (∀ a b : ObjectType, a == b → ∀ name, a.field? name == b.field? name) ∧
    ∀ a b : Document, a == b →
      a.transformedFields.value.map TransformedField.withoutLocation =
        b.transformedFields.value.map TransformedField.withoutLocation ∧
      ∀ service, (a.fieldsHydratedBy service).value.map TransformedField.withoutLocation =
        (b.fieldsHydratedBy service).value.map TransformedField.withoutLocation := by
  refine ⟨fun a b => beq_iff_withoutProvenance_eq, equivalence_beq,
    fun a b h => ⟨children_beq h, size_eq_of_beq h⟩, fun a b => Document.service?_beq,
    fun a b => Service.objectType?_beq, fun a b => ObjectType.field?_beq, fun a b h => ?_⟩
  have hab := Document.beq_iff_withoutProvenance_eq.mp h
  constructor
  · rw [← Document.transformedFields_withoutProvenance, hab,
      Document.transformedFields_withoutProvenance]
  · intro service
    rw [← Document.fieldsHydratedBy_withoutProvenance, hab,
      Document.fieldsHydratedBy_withoutProvenance]

/-- Two documents whose nodes stand in different places, with a comment in one of them. -/
theorem Node.beq_ignores_provenance_moved :
    let field (inner : Provenance) : Field := {
      name := "f"
      typeRef := "U"
      transformation := some ⟨.hydration { service := "A", field := "b" }, inner⟩ }
    let type (own inner : Provenance) : ObjectType :=
      { name := "T", fields := [field inner], provenance := own }
    let service (own inner : Provenance) : Service :=
      { name := "S", types := [type own inner], provenance := inner }
    let document (own inner : Provenance) : Document :=
      { services := [service own inner], provenance := own }
    let here := Provenance.ofPosition 2 3
    let there : Provenance := { comments := [⟨" moved", default⟩] }
    let a := document here there
    let b := document there here
    (Node.document a == .document b) = true ∧
    List.Forall₂ (fun c d => c == d) (Node.document a).children (Node.document b).children ∧
    (Node.document a).size = (Node.document b).size ∧
    (a == b) = true ∧ (a.service? "S" == b.service? "S") = true ∧
    (service here there == service there here) = true ∧
    ((service here there).objectType? "T" == (service there here).objectType? "T") = true ∧
    (type here there == type there here) = true ∧
    ((type here there).field? "f" == (type there here).field? "f") = true ∧
    a.transformedFields.value ≠ b.transformedFields.value ∧
    a.transformedFields.value.map TransformedField.withoutLocation =
      b.transformedFields.value.map TransformedField.withoutLocation ∧
    (a.fieldsHydratedBy "A").value.map TransformedField.withoutLocation =
      (b.fieldsHydratedBy "A").value.map TransformedField.withoutLocation := by
  intro field type service document here there a b
  have hn : Node.document a == .document b := by decide
  have hd : a == b := hn
  have hs : service here there == service there here := by decide
  have ht : type here there == type there here := by decide
  have hne : a.transformedFields.value ≠ b.transformedFields.value := by
    rw [Document.transformedFields_value, Document.transformedFields_value]
    decide
  obtain ⟨-, -, hnode, hdocument, hservice, htype, hsurvey⟩ := Node.beq_ignores_provenance
  obtain ⟨hchildren, hsize⟩ := hnode _ _ hn
  obtain ⟨hfields, hcalls⟩ := hsurvey a b hd
  exact ⟨hn, hchildren, hsize, hd, hdocument a b hd "S", hs, hservice _ _ hs "T", ht,
    htype _ _ ht "f", hne, hfields, hcalls "A"⟩

end SchemaStitching
