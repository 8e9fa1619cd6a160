import Mathlib.Data.List.Nodup
import SchemaStitching.Proofs.Surveys

/-! Lookups and surveys.  A transformation can be reached by looking up its service, its type and
its field, each as the first of its name, or by going through what a survey finds.  What is looked
up is the first that the survey finds under the same names, since nothing of these names comes
before the first service, type and field that have them.  If names are unique, everything that the
survey finds is looked up by its names, and under names of its own. -/

namespace SchemaStitching

section lists

variable {α β κ τ : Type}

/-- The first item found below the first of its kind comes first of all, if nothing that passes is
below items of other kinds. -/
theorem find?_flatMap_of_find? {items : List α} {below : α → List β} {p : α → Bool} {q : β → Bool}
    {first : α} {found : β} (hf : items.find? p = some first)
    (hb : (below first).find? q = some found)
    (hq : ∀ item ∈ items, ∀ b ∈ below item, q b → p item) :
    (items.flatMap below).find? q = some found := by
  obtain ⟨-, before, after, rfl, hn⟩ := List.find?_eq_some_iff_append.mp hf
  rw [List.find?_flatMap, List.findSome?_eq_some_iff]
  refine ⟨before, first, after, rfl, hb, fun item hi => List.find?_eq_none.mpr fun b hb hqb => ?_⟩
  -- Whatever passes below an item before `first` would make that item the first of its kind.
  have hp : p item := hq item (List.mem_append_left _ hi) b hb hqb
  simpa [hp] using hn item hi

theorem find?_eq_some_of_nodup [BEq κ] [LawfulBEq κ] {key : α → κ} {items : List α} {item : α}
    (hn : (items.map key).Nodup) (hi : item ∈ items) :
    items.find? (fun other => key other == key item) = some item := by
  induction items with
  | nil => contradiction
  | cons other items ih =>
    rw [List.map_cons, List.nodup_cons] at hn
    rcases List.mem_cons.mp hi with rfl | hi
    · exact List.find?_cons_of_pos (beq_self_eq_true _)
    · have hne : key other ≠ key item := fun he => hn.1 (he ▸ List.mem_map_of_mem hi)
      rw [List.find?_cons_of_neg (by simpa using hne)]
      exact ih hn.2 hi

/-- Tags that name the item above have no duplicates, if neither the items above nor the tags below
one of them do. -/
theorem nodup_map_flatMap {items : List α} {below : α → List β} {key : α → κ} {tag : β → τ}
    (owner : τ → κ) (hk : (items.map key).Nodup)
    (ho : ∀ item ∈ items, ∀ b ∈ below item, owner (tag b) = key item)
    (hb : ∀ item ∈ items, ((below item).map tag).Nodup) :
    ((items.flatMap below).map tag).Nodup := by
  rw [List.map_flatMap, List.nodup_flatMap]
  refine ⟨hb, (List.pairwise_map.mp hk).imp_of_mem fun {a b} ha hb hne t hta htb => ?_⟩
  obtain ⟨x, hx, rfl⟩ := List.mem_map.mp hta
  obtain ⟨y, hy, he⟩ := List.mem_map.mp htb
  exact hne (by rw [← ho a ha x hx, ← he, ho b hb y hy])

end lists

/-- The names of the service, the type and the field. -/
def TransformedField.names (found : TransformedField) : String × String × String :=
  (found.service, found.typeName, found.field)

def Placement.names (placement : Placement) : String × String × String :=
  (placement.service, placement.typeName, placement.field)

/-- The transformation of the first field of a name, in the first type of a name, in the first
service of a name. -/
def Document.transformation? (document : Document) (service typeName field : String) :
    Option Transformation := do
  let service ← document.service? service
  let type ← service.objectType? typeName
  let field ← type.field? field
  field.transformation

/-- No two services of a document have the same name, nor two types of a service, nor two fields of
a type. -/
structure Document.HasUniqueNames (document : Document) : Prop where
  services : (document.services.map Service.name).Nodup
  types : ∀ service ∈ document.services, (service.types.map ObjectType.name).Nodup
  fields : ∀ service ∈ document.services, ∀ type ∈ service.types,
    (type.fields.map Field.name).Nodup

/-! ### Lookups find the first placement -/

theorem ObjectType.mem_placements {type : ObjectType} {service : String} {placement : Placement} :
    placement ∈ type.placements service ↔ ∃ field ∈ type.fields, ∃ transformation,
      field.transformation = some transformation ∧
        ⟨service, type.name, field.name, transformation⟩ = placement := by
  simp [placements, Field.placement?]

theorem Service.mem_placements {service : Service} {placement : Placement} :
    placement ∈ service.placements ↔
      ∃ type ∈ service.types, placement ∈ type.placements service.name :=
  List.mem_flatMap

theorem Document.mem_placements {document : Document} {placement : Placement} :
    placement ∈ document.placements ↔
      ∃ service ∈ document.services, placement ∈ service.placements :=
  List.mem_flatMap

theorem Document.transformation?_eq_some_iff {document : Document} {service typeName field : String}
    {x : Transformation} : document.transformation? service typeName field = some x ↔
      ∃ s, document.service? service = some s ∧ ∃ t, s.objectType? typeName = some t ∧
        ∃ f, t.field? field = some f ∧ f.transformation = some x := by
  simp only [transformation?, Option.bind_eq_bind, Option.bind_eq_some_iff]

theorem ObjectType.find?_placements {type : ObjectType} {name : String} {field : Field}
    {x : Transformation} (service : String) (hf : type.field? name = some field)
    (hx : field.transformation = some x) :
    (type.placements service).find?
        (fun placement => placement.names = (service, type.name, name)) =
      some ⟨service, type.name, name, x⟩ := by
  have hn : field.name = name := name_of_field? hf
  rw [placements, List.filterMap_eq_flatMap_toList]
  refine find?_flatMap_of_find? hf ?_ fun other _ placement hp hq => ?_
  · simp [Field.placement?, hx, hn, Placement.names]
  · obtain ⟨_, -, rfl⟩ := Option.map_eq_some_iff.mp (Option.mem_toList.mp hp)
    simp_all [Placement.names]

theorem Service.find?_placements {service : Service} {typeName name : String} {type : ObjectType}
    {field : Field} {x : Transformation} (ht : service.objectType? typeName = some type)
    (hf : type.field? name = some field) (hx : field.transformation = some x) :
    service.placements.find? (fun placement => placement.names = (service.name, typeName, name)) =
      some ⟨service.name, typeName, name, x⟩ := by
  have hn : type.name = typeName := name_of_objectType? ht
  refine find?_flatMap_of_find? ht ?_ fun other _ placement hp hq => ?_
  · rw [← hn]
    exact ObjectType.find?_placements service.name hf hx
  · obtain ⟨_, -, _, -, rfl⟩ := ObjectType.mem_placements.mp hp
    simp_all [Placement.names]

/-- The transformation that is looked up is that of the first placement with the same names. -/
theorem Document.find?_placements {document : Document} {service typeName field : String}
    {x : Transformation} (h : document.transformation? service typeName field = some x) :
    document.placements.find? (fun placement => placement.names = (service, typeName, field)) =
      some ⟨service, typeName, field, x⟩ := by
  obtain ⟨s, hs, t, ht, f, hf, hx⟩ := transformation?_eq_some_iff.mp h
  have hn : s.name = service := name_of_service? hs
  refine find?_flatMap_of_find? hs ?_ fun other _ placement hp hq => ?_
  · rw [← hn]
    exact Service.find?_placements ht hf hx
  · obtain ⟨_, -, hp⟩ := Service.mem_placements.mp hp
    obtain ⟨_, -, _, -, rfl⟩ := ObjectType.mem_placements.mp hp
    simp_all [Placement.names]

/-! ### Unique names -/

theorem Document.HasUniqueNames.transformation?_of_mem {document : Document}
    (h : document.HasUniqueNames) {placement : Placement} (hp : placement ∈ document.placements) :
    document.transformation? placement.service placement.typeName placement.field =
      some placement.transformation := by
  obtain ⟨service, hs, hp⟩ := mem_placements.mp hp
  obtain ⟨type, ht, hp⟩ := Service.mem_placements.mp hp
  obtain ⟨field, hf, x, hx, rfl⟩ := ObjectType.mem_placements.mp hp
  rw [transformation?_eq_some_iff]
  exact ⟨service, find?_eq_some_of_nodup h.services hs, type,
    find?_eq_some_of_nodup (h.types service hs) ht, field,
    find?_eq_some_of_nodup (h.fields service hs type ht) hf, hx⟩

theorem ObjectType.nodup_names_placements {type : ObjectType}
    (h : (type.fields.map Field.name).Nodup) (service : String) :
    ((type.placements service).map Placement.names).Nodup := by
  rw [placements, List.filterMap_eq_flatMap_toList]
  refine nodup_map_flatMap (fun names => names.2.2) h (fun field _ placement hp => ?_)
    fun field _ => ?_
  · obtain ⟨_, -, rfl⟩ := Option.map_eq_some_iff.mp (Option.mem_toList.mp hp)
    rfl
  · cases hx : field.transformation <;> simp [Field.placement?, hx]

theorem Service.nodup_names_placements {service : Service}
    (ht : (service.types.map ObjectType.name).Nodup)
    (hf : ∀ type ∈ service.types, (type.fields.map Field.name).Nodup) :
    (service.placements.map Placement.names).Nodup := by
  refine nodup_map_flatMap (fun names => names.2.1) ht (fun type _ placement hp => ?_)
    fun type h => ObjectType.nodup_names_placements (hf type h) service.name
  obtain ⟨_, -, _, -, rfl⟩ := ObjectType.mem_placements.mp hp
  rfl

theorem Document.HasUniqueNames.nodup_names_placements {document : Document}
    (h : document.HasUniqueNames) : (document.placements.map Placement.names).Nodup := by
  refine nodup_map_flatMap Prod.fst h.services (fun service _ placement hp => ?_)
    fun service hs => Service.nodup_names_placements (h.types service hs) (h.fields service hs)
  obtain ⟨_, -, hp⟩ := Service.mem_placements.mp hp
  obtain ⟨_, -, _, -, rfl⟩ := ObjectType.mem_placements.mp hp
  rfl

/-- If names lead to a transformation, the first that a survey finds under these names is that
transformation.  If names are unique, the names of whatever the survey finds lead to the
transformation that it tells of, and it finds no two under the same names. -/
theorem Document.transformation?_agrees_with_survey (document : Document) :
    (∀ service typeName field x, document.transformation? service typeName field = some x →
      document.transformedFields.value.find?
        (fun found => found.names = (service, typeName, field)) =
          some (Placement.describe { service, typeName, field, transformation := x })) ∧
    (document.HasUniqueNames →
      (∀ found ∈ document.transformedFields.value, ∃ x,
        document.transformation? found.service found.typeName found.field = some x ∧
          found = Placement.describe {
            service := found.service
            typeName := found.typeName
            field := found.field
            transformation := x }) ∧
      (document.transformedFields.value.map TransformedField.names).Nodup) := by
  rw [transformedFields_value]
  refine ⟨fun service typeName field x h => ?_, fun h => ⟨fun found hf => ?_, ?_⟩⟩
  · have hp : (fun found : TransformedField =>
        decide (found.names = (service, typeName, field))) ∘ Placement.describe =
          fun placement => decide (placement.names = (service, typeName, field)) := rfl
    rw [List.find?_map, hp, find?_placements h]
    rfl
  · obtain ⟨placement, hp, rfl⟩ := List.mem_map.mp hf
    exact ⟨placement.transformation, h.transformation?_of_mem hp, rfl⟩
  · rw [List.map_map]
    exact h.nodup_names_placements

/-- A document in which services, types and fields of one name hide others, and one of which the
names are unique. -/
theorem Document.transformation?_agrees_with_survey_hidden :
    let transformation (name : String) (h : IsSegment name) : Transformation :=
      ⟨.mapping ⟨⟨[name], List.cons_ne_nil _ _, List.forall_mem_singleton.mpr h⟩⟩, default⟩
    let a : Transformation := transformation "a" (by decide)
    let b : Transformation := transformation "b" (by decide)
    let field (name : String) (x : Option Transformation) : Field :=
      { name, typeRef := "ID", transformation := x }
    let repeated : Document := { services := [
      { name := "R", types := [{ name := "T", fields := [field "f" b] }] },
      { name := "S", types := [
        { name := "T", fields := [field "f" a, field "f" b] },
        { name := "T", fields := [field "f" b] }] },
      { name := "S", types := [{ name := "T", fields := [field "f" b] }] }] }
    let unique : Document := { services := [
      { name := "R", types := [{ name := "T", fields := [field "f" b] }] },
      { name := "S", types := [
        { name := "T", fields := [field "f" a, field "g" none] },
        { name := "U", fields := [field "f" b] }] }] }
    repeated.transformation? "S" "T" "f" = some a ∧
    repeated.transformedFields.value.find? (fun found => found.names = ("S", "T", "f")) =
      some ⟨"S", "T", "f", .mapping, "a", default⟩ ∧
    unique.HasUniqueNames ∧
    unique.transformedFields.value.map TransformedField.names =
      [("R", "T", "f"), ("S", "T", "f"), ("S", "U", "f")] ∧
    (∀ found ∈ unique.transformedFields.value,
      (unique.transformation? found.service found.typeName found.field).isSome) ∧
    (unique.transformedFields.value.map TransformedField.names).Nodup := by
  intro transformation a b field repeated unique
  have hx : repeated.transformation? "S" "T" "f" = some a := rfl
  have hu : unique.HasUniqueNames := ⟨by decide, by decide, by decide⟩
  obtain ⟨hfound, hdistinct⟩ := unique.transformation?_agrees_with_survey.2 hu
  refine ⟨hx, repeated.transformation?_agrees_with_survey.1 _ _ _ _ hx, hu, ?_, fun found hf => ?_,
    hdistinct⟩
  · rw [transformedFields_value]
    rfl
  · obtain ⟨x, hx, -⟩ := hfound found hf
    exact Option.isSome_of_mem hx

end SchemaStitching
