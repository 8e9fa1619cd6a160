import Mathlib.Data.List.Forall2
import SchemaStitching.Proofs.Traversal
import SchemaStitching.Survey

/-! What surveys find.  A placement is a transformation with the names of what encloses it, and the
placements of a document are listed by going through its services, their types and their fields.  A
survey walks instead and keeps the names in three slots.  If the slots of the levels that a walk
enters are empty before it, they are empty after it, and all that the walk has changed is `found`
and `log`: the survey has told of the placements, in their order. -/

namespace SchemaStitching

/-- A transformation and the names of the definitions that enclose it. -/
structure Placement where
  service : String
  typeName : String
  field : String
  transformation : Transformation

/-- What a survey has to say of a placement. -/
def Placement.describe (placement : Placement) : TransformedField where
  service := placement.service
  typeName := placement.typeName
  field := placement.field
  kind :=
    match placement.transformation.payload with
    | .mapping _ => .mapping
    | .hydration _ => .hydration
  target :=
    match placement.transformation.payload with
    | .mapping definition => definition.path.dotted
    | .hydration definition => definition.target
  location := placement.transformation.provenance.location

/-- The event by which a survey tells of a placement. -/
def Placement.event (placement : Placement) : Event :=
  .transformationFound placement.field placement.describe.kind placement.describe.target

def Field.placement? (service typeName : String) (field : Field) : Option Placement :=
  field.transformation.map fun transformation =>
    { service, typeName, field := field.name, transformation }

def ObjectType.placements (service : String) (type : ObjectType) : List Placement :=
  type.fields.filterMap fun field => field.placement? service type.name

def Service.placements (service : Service) : List Placement :=
  service.types.flatMap fun type => type.placements service.name

/-- The transformations of a document where they stand, in its order. -/
def Document.placements (document : Document) : List Placement :=
  document.services.flatMap Service.placements

theorem Document.placements_map_transformation (document : Document) :
    document.placements.map Placement.transformation = document.transformations := by
  have hf (service typeName : String) (field : Field) :
      (field.placement? service typeName).map Placement.transformation = field.transformation := by
    simp [Field.placement?, Function.comp_def]
  simp only [placements, Service.placements, ObjectType.placements, transformations,
    List.map_flatMap, List.map_filterMap, hf, List.flatMap_assoc, List.filterMap_flatMap]

namespace Run

variable {σ α : Type}

/-- The run goes on to the end, where the state is the given one, and records nothing. -/
structure Reaches (run : Run σ) (state : σ) : Prop where
  verdict : run.verdict = .descend
  state : run.state = state
  log : run.log = []

theorem Reaches.andThen {run : Run σ} {next : σ → Run σ} {middle state : σ}
    (hr : run.Reaches middle) (hn : (next middle).Reaches state) :
    (run.andThen next).Reaches state := by
  rw [andThen_of_ne_stop (by simp [hr.verdict]), hr.state]
  exact ⟨hn.verdict, hn.state, by simp [hr.log, hn.log]⟩

end Run

theorem Visitor.enclose_reaches {σ : Type} {visitor : Visitor σ} {node : Node} {below : σ → Run σ}
    {state visited final : σ} (hv : visitor.visit node state = (.descend, visited))
    (hb : (below visited).Reaches final) :
    (visitor.enclose node below state).Reaches (visitor.leave node final) := by
  rw [enclose_of_descend hv (by simp [hb.verdict])]
  exact ⟨rfl, congrArg _ hb.state, hb.log⟩

namespace Survey

/-- The transformation where it stands according to the slots of the survey. -/
def place (survey : Survey) (transformation : Transformation) : Placement where
  service := survey.service.getD ""
  typeName := survey.typeName.getD ""
  field := survey.field.getD ""
  transformation := transformation

/-- The survey after placements, of which it tells those that it covers. -/
def add (survey : Survey) (placements : List Placement) : Survey :=
  let covered := placements.filter fun placement => survey.covers placement.transformation.payload
  { survey with
    found := survey.found ++ covered.map Placement.describe
    log := survey.log ++ covered.map Placement.event }

@[simp] theorem add_nil (survey : Survey) : survey.add [] = survey := by
  simp [add]

theorem add_add (survey : Survey) (first rest : List Placement) :
    (survey.add first).add rest = survey.add (first ++ rest) := by
  have hc (payload : Payload) : (survey.add first).covers payload = survey.covers payload := rfl
  simp only [add] at hc ⊢
  simp [hc]

/-- If each step adds the placements of its item, the steps one after the other add those of all
items, in order. -/
theorem each_reaches {α : Type} (survey : Survey) (step : α → Survey → Run Survey)
    (placements : α → List Placement) (items : List α)
    (h : ∀ item found, (step item (survey.add found)).Reaches
      ((survey.add found).add (placements item))) :
    (Run.each step items survey).Reaches (survey.add (items.flatMap placements)) := by
  -- Each step starts from a survey that the steps before it have added to.
  have hg (found : List Placement) : (Run.each step items (survey.add found)).Reaches
      (survey.add (found ++ items.flatMap placements)) := by
    induction items generalizing found with
    | nil => exact ⟨rfl, by simp [Run.each], rfl⟩
    | cons item items ih =>
      rw [List.flatMap_cons, ← List.append_assoc]
      refine .andThen (h item found) ?_
      rw [add_add]
      exact ih (found ++ placements item)
  simpa using hg []

theorem record_eq_add (survey : Survey) (transformation : Transformation) :
    survey.record transformation = survey.add [survey.place transformation] := by
  obtain ⟨payload, provenance⟩ := transformation
  by_cases hc : survey.covers payload
  · cases payload <;> simp [record, add, place, hc, Placement.describe, Placement.event,
      Payload.kind, Payload.target]
  · simp [record, add, place, hc]

theorem walkTransformation_reaches (survey : Survey) (transformation : Transformation) :
    (visitor.walkTransformation transformation survey).Reaches
      (survey.add [survey.place transformation]) := by
  rw [← record_eq_add]
  exact Visitor.enclose_reaches rfl ⟨rfl, rfl, rfl⟩

/-- A walk that fills a slot at a node, and empties it when it leaves the node, adds what it adds
below the node. -/
theorem enclose_reaches_add {survey entered : Survey} {node : Node} {below : Survey → Run Survey}
    {placements : List Placement} (hv : visitor.visit node survey = (.descend, entered))
    (hb : (below entered).Reaches (entered.add placements))
    (hl : visitor.leave node (entered.add placements) = survey.add placements) :
    (visitor.enclose node below survey).Reaches (survey.add placements) := by
  rw [← hl]
  exact Visitor.enclose_reaches hv hb

/-- A field without a transformation is skipped, and its name never enters the slot. -/
theorem walkField_reaches (survey : Survey) (field : Field) (hf : survey.field = none) :
    (visitor.walkField field survey).Reaches (survey.add
      (field.placement? (survey.service.getD "") (survey.typeName.getD "")).toList) := by
  rw [Visitor.walkField]
  cases ht : field.transformation with
  | none =>
    have hv : visitor.visit (.field field) survey = (.skipChildren, survey) := by
      simp [Visitor.visit, visitor, ht]
    have hl : visitor.leave (.field field) survey = survey := by
      cases survey
      cases hf
      rfl
    rw [Visitor.enclose_of_skipChildren hv, hl]
    exact ⟨rfl, by simp [Field.placement?, ht], rfl⟩
  | some transformation =>
    have hv : visitor.visit (.field field) survey =
        (.descend, { survey with field := some field.name }) := by
      simp [Visitor.visit, visitor, ht]
    rw [Field.placement?, ht]
    refine enclose_reaches_add hv ?_ ?_
    · exact each_reaches _ visitor.walkTransformation
        (fun transformation => [place { survey with field := some field.name } transformation])
        [transformation] fun transformation found => walkTransformation_reaches _ transformation
    · cases survey
      cases hf
      rfl

theorem walkObjectType_reaches (survey : Survey) (type : ObjectType)
    (ht : survey.typeName = none) (hf : survey.field = none) :
    (visitor.walkObjectType type survey).Reaches
      (survey.add (type.placements (survey.service.getD ""))) := by
  rw [Visitor.walkObjectType, ObjectType.placements, List.filterMap_eq_flatMap_toList]
  refine enclose_reaches_add rfl ?_ ?_
  · exact each_reaches _ visitor.walkField
      (fun field => (field.placement? (survey.service.getD "") type.name).toList) type.fields
      fun field found => walkField_reaches _ field hf
  · cases survey
    cases ht
    rfl

theorem walkService_reaches (survey : Survey) (service : Service) (hs : survey.service = none)
    (ht : survey.typeName = none) (hf : survey.field = none) :
    (visitor.walkService service survey).Reaches (survey.add service.placements) := by
  rw [Visitor.walkService]
  refine enclose_reaches_add rfl ?_ ?_
  · exact each_reaches _ visitor.walkObjectType (fun type => type.placements service.name)
      service.types fun type found => walkObjectType_reaches _ type ht hf
  · cases survey
    cases hs
    rfl

theorem walkDocument_reaches (survey : Survey) (document : Document) (hs : survey.service = none)
    (ht : survey.typeName = none) (hf : survey.field = none) :
    (visitor.walkDocument document survey).Reaches (survey.add document.placements) := by
  rw [Visitor.walkDocument]
  refine enclose_reaches_add rfl ?_ rfl
  exact each_reaches survey visitor.walkService Service.placements document.services
    fun service found => walkService_reaches _ service hs ht hf

end Survey

namespace Document

theorem transformedFields_value (document : Document) :
    document.transformedFields.value = document.placements.map Placement.describe := by
  have hr := Survey.walkDocument_reaches {} document rfl rfl rfl
  calc document.transformedFields.value
      = (Survey.visitor.walkDocument document {}).state.found := rfl
    _ = (Survey.add {} document.placements).found := by rw [hr.state]
    _ = document.placements.map Placement.describe := by simp [Survey.add, Survey.covers]

/-- A survey of a document tells of every transformed field once, in the order of the document, with
the names of the service, the object type and the field that enclose the transformation.  What it
finds describes the transformations of the document one by one. -/
theorem transformedFields_in_order (document : Document) :
    (document.transformedFields.value = document.services.flatMap fun service =>
      service.types.flatMap fun type =>
        type.fields.filterMap fun field =>
          field.transformation.map fun transformation => Placement.describe {
            service := service.name
            typeName := type.name
            field := field.name
            transformation }) ∧
    List.Forall₂
      (fun found transformation => found = Placement.describe {
        service := found.service
        typeName := found.typeName
        field := found.field
        transformation })
      document.transformedFields.value document.transformations := by
  rw [transformedFields_value]
  constructor
  · simp [placements, Service.placements, ObjectType.placements, Field.placement?, List.map_flatMap,
      List.map_filterMap, Function.comp_def]
  · rw [← placements_map_transformation, List.forall₂_map_left_iff, List.forall₂_map_right_iff,
      List.forall₂_same]
    exact fun placement _ => rfl

end Document

end SchemaStitching
