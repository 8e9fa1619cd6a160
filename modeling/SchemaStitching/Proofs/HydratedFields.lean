import Mathlib.Data.List.Nodup
import SchemaStitching.Proofs.Surveys

/-! Surveys of the hydrations that call one service.  Such a survey finds what the survey of all
transformed fields finds at the indices of these hydrations, in the same order.  Surveys of
different services share no index, and surveys of all services that are called leave out no
hydration.  What decides is the name of the called service.  The text of a target does not tell it,
as names may hold dots. -/

namespace SchemaStitching

/-- The service that a payload calls. -/
def Payload.calledService? : Payload → Option String
  | .mapping _ => none
  | .hydration definition => some definition.service

theorem Payload.calledService?_eq_some {payload : Payload} {service : String} :
    payload.calledService? = some service ↔
      ∃ definition, payload = .hydration definition ∧ definition.service = service := by
  cases payload <;> simp [calledService?]

/-- The indices of the hydrations that call a service, among all transformations of a document. -/
def Document.callIndices (document : Document) (service : String) : List Nat :=
  (List.range document.transformations.length).filter fun index =>
    document.transformations[index]?.any (·.payload.calledService? = some service)

theorem Document.mem_callIndices {document : Document} {service : String} {index : Nat}
    {x : Transformation} (hx : document.transformations[index]? = some x) :
    index ∈ document.callIndices service ↔ x.payload.calledService? = some service := by
  obtain ⟨hlt, -⟩ := List.getElem?_eq_some_iff.mp hx
  rw [callIndices, List.mem_filter, List.mem_range, hx, Option.any_some, decide_eq_true_iff]
  exact and_iff_right hlt

section lists

variable {α β γ : Type}

/-- The items that pass are those at the indices of the items that pass. -/
theorem map_getElem?_filter_range (items : List α) (f : α → β) (g : α → γ) (passes : γ → Bool) :
    ((List.range (items.map g).length).filter fun index => (items.map g)[index]?.any passes).map
      (fun index => (items.map f)[index]?) =
        ((items.filter fun item => passes (g item)).map f).map some := by
  induction items with
  | nil => rfl
  | cons item items ih =>
    simp only [List.map_cons, List.length_cons, List.range_succ_eq_map, List.filter_cons,
      List.filter_map, List.getElem?_cons_zero, Option.any_some]
    have ht : (fun index => (g item :: items.map g)[index]?.any passes) ∘ Nat.succ =
        fun index => (items.map g)[index]?.any passes := rfl
    rw [ht]
    split <;> simpa [Function.comp_def] using ih

/-- Items sorted out by distinct keys, of which none is missing, are all still there. -/
theorem flatMap_filter_perm [DecidableEq γ] {keys : List γ} {items : List α} {key : α → γ}
    (hk : keys.Nodup) (h : ∀ item ∈ items, key item ∈ keys) :
    (keys.flatMap fun k => items.filter fun item => key item = k).Perm items := by
  induction keys generalizing items with
  | nil =>
    have hn : items = [] := List.eq_nil_iff_forall_not_mem.mpr fun item hi =>
      List.not_mem_nil (h item hi)
    rw [hn]
    rfl
  | cons k keys ih =>
    obtain ⟨hn, hk⟩ := List.nodup_cons.mp hk
    -- What the first key leaves is sorted out by the others as the whole is.
    have hr : (keys.flatMap fun k' => items.filter fun item => key item = k') =
        keys.flatMap fun k' =>
          (items.filter fun item => !decide (key item = k)).filter fun item => key item = k' := by
      refine List.flatMap_congr fun k' hk' => ?_
      rw [List.filter_filter]
      refine List.filter_congr fun item _ => ?_
      have hne : k' ≠ k := fun he => hn (he ▸ hk')
      by_cases he : key item = k' <;> simp [he, hne]
    rw [List.flatMap_cons, hr]
    refine (List.Perm.append_left _ (ih hk fun item hi => ?_)).trans
      (List.filter_append_perm _ items)
    obtain ⟨hi, hne⟩ := List.mem_filter.mp hi
    exact (List.mem_cons.mp (h item hi)).resolve_left (by simpa using hne)

end lists

namespace Document

theorem fieldsHydratedBy_value (document : Document) (service : String) :
    (document.fieldsHydratedBy service).value = (document.placements.filter fun placement =>
      placement.transformation.payload.calledService? = some service).map Placement.describe := by
  have hc (payload : Payload) : ({ called := some service } : Survey).covers payload =
      decide (payload.calledService? = some service) := by
    cases payload with
    | mapping definition => rfl
    | hydration definition => simp [Survey.covers, Payload.calledService?, Bool.beq_eq_decide_eq]
  have hr := Survey.walkDocument_reaches { called := some service } document rfl rfl rfl
  calc (document.fieldsHydratedBy service).value
      = (Survey.visitor.walkDocument document { called := some service }).state.found := rfl
    _ = (Survey.add { called := some service } document.placements).found := by rw [hr.state]
    _ = _ := by simp [Survey.add, hc]

/-- The surveys of distinct services that miss none that is called find all hydrations, each as
often as there are fields hydrated in that way. -/
theorem flatMap_fieldsHydratedBy_perm (document : Document) {services : List String}
    (hn : services.Nodup)
    (hs : ∀ x ∈ document.transformations, ∀ service, x.payload.calledService? = some service →
      service ∈ services) :
    (services.flatMap fun service => (document.fieldsHydratedBy service).value).Perm
      (document.transformedFields.value.filter fun found => found.kind = .hydration) := by
  let called (placement : Placement) := placement.transformation.payload.calledService?
  let hydrations := document.placements.filter fun placement => (called placement).isSome
  have hall : (document.transformedFields.value.filter fun found => found.kind = .hydration) =
      hydrations.map Placement.describe := by
    rw [transformedFields_value, List.filter_map]
    refine congrArg _ (List.filter_congr fun placement _ => ?_)
    cases hp : placement.transformation.payload <;>
      simp [Placement.describe, called, Payload.calledService?, hp]
  have heach (service : String) : (document.fieldsHydratedBy service).value =
      (hydrations.filter fun placement => called placement = some service).map
        Placement.describe := by
    rw [fieldsHydratedBy_value, List.filter_filter]
    refine congrArg _ (List.filter_congr fun placement _ => ?_)
    by_cases hc : called placement = some service <;> simp [called, hc] at hc ⊢
  have hcovered : ∀ placement ∈ hydrations, called placement ∈ services.map some := by
    intro placement hp
    obtain ⟨hp, hc⟩ := List.mem_filter.mp hp
    obtain ⟨service, hc⟩ := Option.isSome_iff_exists.mp hc
    have hx : placement.transformation ∈ document.transformations := by
      rw [← placements_map_transformation]
      exact List.mem_map_of_mem hp
    rw [hc]
    exact List.mem_map_of_mem (hs _ hx service hc)
  have hp := flatMap_filter_perm (hn.map fun _ _ => Option.some.inj) hcovered
  simp only [hall, heach, ← List.map_flatMap]
  rw [List.flatMap_map] at hp
  exact hp.map _

/-- Two documents may have the same transformed fields and differ in the services that they call:
the first calls `c` of `a.b`, the second `b.c` of `a`. -/
theorem exists_eq_transformedFields_ne_fieldsHydratedBy :
    ∃ (first second : Document) (service : String),
    first.transformedFields.value = second.transformedFields.value ∧
    (first.fieldsHydratedBy service).value ≠ (second.fieldsHydratedBy service).value := by
  let calling (service field : String) : Document := {
    services := [{ name := "S", types := [{ name := "T", fields := [{
      name := "f"
      typeRef := "U"
      transformation := some ⟨.hydration { service, field }, default⟩ }] }] }] }
  refine ⟨calling "a.b" "c", calling "a" "b.c", "a", ?_, ?_⟩
  · rw [transformedFields_value, transformedFields_value]
    decide
  · rw [fieldsHydratedBy_value, fieldsHydratedBy_value]
    decide

/-- A survey of the calls of a service finds what the survey of all transformed fields finds at the
indices of the hydrations that call it.  Surveys of distinct services that miss none that is called
find each hydration once in all: its index is that of one of the services, and that of a mapping
is none's.  The services are not to be told from the transformed fields. -/
theorem fieldsHydratedBy_partition (document : Document) :
    (∀ service, (document.fieldsHydratedBy service).value.map some =
      (document.callIndices service).map fun index =>
        document.transformedFields.value[index]?) ∧
    (∀ services : List String, services.Nodup →
      (∀ x ∈ document.transformations, ∀ definition, x.payload = .hydration definition →
        definition.service ∈ services) →
      (services.flatMap fun service => (document.fieldsHydratedBy service).value).Perm
        (document.transformedFields.value.filter fun found => found.kind = .hydration) ∧
      ∀ index x, document.transformations[index]? = some x →
        (x.kind = .hydration →
          ∃! service, service ∈ services ∧ index ∈ document.callIndices service) ∧
        (x.kind = .mapping → ∀ service, index ∉ document.callIndices service)) ∧
    ∃ (first second : Document) (service : String),
      first.transformedFields.value = second.transformedFields.value ∧
      (first.fieldsHydratedBy service).value ≠ (second.fieldsHydratedBy service).value := by
  refine ⟨fun service => ?_, fun services hn hs => ⟨?_, fun index x hx => ⟨fun hk => ?_, ?_⟩⟩,
    exists_eq_transformedFields_ne_fieldsHydratedBy⟩
  · rw [fieldsHydratedBy_value, transformedFields_value, callIndices,
      ← placements_map_transformation, map_getElem?_filter_range]
  · refine document.flatMap_fieldsHydratedBy_perm hn fun x hx service hc => ?_
    obtain ⟨definition, hp, rfl⟩ := Payload.calledService?_eq_some.mp hc
    exact hs x hx definition hp
  · obtain ⟨_ | definition, provenance⟩ := x
    · contradiction
    have hmem : definition.service ∈ services := hs _ (List.mem_of_getElem? hx) definition rfl
    refine ⟨definition.service, ⟨hmem, (mem_callIndices hx).mpr rfl⟩, ?_⟩
    rintro service ⟨-, hi⟩
    exact (Option.some.inj ((mem_callIndices hx).mp hi)).symm
  · intro hk service hi
    obtain ⟨definition, hp, -⟩ := Payload.calledService?_eq_some.mp ((mem_callIndices hx).mp hi)
    simp [Transformation.kind, Payload.kind, hp] at hk

/-- Two calls with the same target, one of `b.c` of `A` and one of `c` of `A.b`, with a mapping
between them. -/
theorem fieldsHydratedBy_partition_same_target :
    let field (payload : Payload) : Field :=
      { name := "f", typeRef := "U", transformation := some ⟨payload, default⟩ }
    let first : Hydration := { service := "A", field := "b.c" }
    let mapping : Mapping := ⟨⟨["id"], by decide, by decide⟩⟩
    let last : Hydration := { service := "A.b", field := "c" }
    let document : Document := { services := [{ name := "S", types := [{ name := "T", fields :=
      [field (.hydration first), field (.mapping mapping), field (.hydration last)] }] }] }
    let services := ["A.b", "A"]
    services.Nodup ∧
    (∀ x ∈ document.transformations, ∀ definition, x.payload = .hydration definition →
      definition.service ∈ services) ∧
    (document.fieldsHydratedBy "A.b").value.map some = [document.transformedFields.value[2]?] ∧
    (services.flatMap fun service => (document.fieldsHydratedBy service).value).Perm
      (document.transformedFields.value.filter fun found => found.kind = .hydration) ∧
    (∃! service, service ∈ services ∧ 0 ∈ document.callIndices service) ∧
    ∀ service, 1 ∉ document.callIndices service := by
  intro field first mapping last document services
  have hn : services.Nodup := by decide
  have hs : ∀ x ∈ document.transformations, ∀ definition, x.payload = .hydration definition →
      definition.service ∈ services := by
    simp [document, field, Document.transformations, first, last, services]
  have hi : document.callIndices "A.b" = [2] := by decide
  obtain ⟨hv, hp, -⟩ := document.fieldsHydratedBy_partition
  obtain ⟨hperm, hone⟩ := hp services hn hs
  refine ⟨hn, hs, ?_, hperm, (hone 0 _ rfl).1 rfl, (hone 1 _ rfl).2 rfl⟩
  rw [hv, hi]
  rfl

end Document

end SchemaStitching
