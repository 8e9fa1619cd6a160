import SchemaStitching.Proofs.HydratedFields

/-! What surveys report.  A survey records one event for each transformed field that it records, and
nothing else that a walk does to it adds to either list, whatever node the walk starts at and
whatever the survey holds by then.  As the visitor of a survey never stops a walk, the walk has no
event of its own.  So the log of a survey tells of its results one by one, and closes with their
number. -/

namespace SchemaStitching

/-- An event as it is reported: its level, its text, and its details by name. -/
def Event.report (event : Event) : String × String × List (String × String) :=
  (event.level.name, event.message, event.details)

/-- The event by which a survey tells of a transformed field. -/
def TransformedField.event (found : TransformedField) : Event :=
  .transformationFound found.field found.kind found.target

namespace Run

variable {σ α : Type} {related : σ → σ → Prop} [IsPreorder σ related]

/-- The run goes on to the end without an event of its own, and relates the state before it to the
state after it. -/
structure Keeps (related : σ → σ → Prop) (state : σ) (run : Run σ) : Prop where
  verdict : run.verdict = .descend
  log : run.log = []
  related : related state run.state

theorem Keeps.andThen {state : σ} {run : Run σ} {next : σ → Run σ}
    (hr : run.Keeps related state) (hn : (next run.state).Keeps related run.state) :
    (run.andThen next).Keeps related state := by
  rw [andThen_of_ne_stop (by simp [hr.verdict])]
  exact ⟨hn.verdict, by simp [hr.log, hn.log], trans_of related hr.related hn.related⟩

theorem keeps_each {step : α → σ → Run σ} {items : List α}
    (h : ∀ item ∈ items, ∀ state, (step item state).Keeps related state)
    (state : σ) : (each step items state).Keeps related state := by
  induction items generalizing state with
  | nil => exact ⟨rfl, rfl, refl_of related state⟩
  | cons item items ih =>
    rw [List.forall_mem_cons] at h
    exact (h.1 state).andThen (ih h.2 _)

end Run

/-- If no visit stops a walk, and every visit and every departure relates the state before it to the
state after it, then so does the walk of any node. -/
theorem Visitor.walk_keeps {σ : Type} {visitor : Visitor σ} {related : σ → σ → Prop}
    [IsPreorder σ related]
    (hs : ∀ node state, (visitor.visit node state).1 ≠ .stop)
    (hv : ∀ node state, related state (visitor.visit node state).2)
    (hl : ∀ node state, related state (visitor.leave node state)) (node : Node) (state : σ) :
    (visitor.walk node state).Keeps related state := by
  induction node using Node.induction_on_children generalizing state with
  | step node ih =>
    have hb := Run.keeps_each ih (visitor.visit node state).2
    rw [walk_eq_enclose]
    cases h : (visitor.visit node state).1 with
    | stop => exact absurd h (hs node state)
    | skipChildren =>
      rw [enclose_of_skipChildren (Prod.ext h rfl)]
      exact ⟨rfl, rfl, trans_of related (hv node state) (hl node _)⟩
    | descend =>
      rw [enclose_of_descend (Prod.ext h rfl) (by simp [hb.verdict])]
      exact ⟨rfl, hb.log,
        trans_of related (hv node state) (trans_of related hb.related (hl node _))⟩

namespace Survey

/-- The second survey has recorded more transformed fields than the first, and of each of them one
event, in the same order. -/
def TellsMore (before after : Survey) : Prop :=
  ∃ added, after.found = before.found ++ added ∧
    after.log = before.log ++ added.map TransformedField.event

instance : IsPreorder Survey TellsMore where
  refl survey := ⟨[], by simp⟩
  trans a b c := by
    rintro ⟨first, hf, hl⟩ ⟨rest, hf', hl'⟩
    refine ⟨first ++ rest, ?_, ?_⟩
    · rw [hf', hf, List.append_assoc]
    · rw [hl', hl, List.map_append, List.append_assoc]

theorem tellsMore_record (survey : Survey) (transformation : Transformation) :
    survey.TellsMore (survey.record transformation) := by
  rw [record]
  split
  · exact ⟨_, rfl, rfl⟩
  · exact refl_of TellsMore survey

theorem tellsMore_visit (node : Node) (survey : Survey) :
    survey.TellsMore (visitor.visit node survey).2 := by
  cases node with
  | document | service | objectType => exact ⟨[], by simp [Visitor.visit, visitor]⟩
  | field field =>
    simp only [Visitor.visit, visitor]
    split <;> exact ⟨[], by simp⟩
  | transformation transformation => exact survey.tellsMore_record transformation

theorem tellsMore_leave (node : Node) (survey : Survey) :
    survey.TellsMore (visitor.leave node survey) := by
  cases node <;> exact ⟨[], by simp [Visitor.leave, visitor]⟩

theorem visit_ne_stop (node : Node) (survey : Survey) :
    (visitor.visit node survey).1 ≠ .stop := by
  cases node with
  | field field =>
    simp only [Visitor.visit, visitor]
    split <;> simp
  | _ => simp [Visitor.visit, visitor]

/-- A walk adds as many events to a survey as transformed fields, each telling of its field, and has
none of its own. -/
theorem walk_tellsMore (node : Node) (survey : Survey) :
    (visitor.walk node survey).Keeps TellsMore survey :=
  Visitor.walk_keeps visit_ne_stop tellsMore_visit tellsMore_leave node survey

/-- The log of a survey of a whole document, which starts with nothing recorded. -/
theorem complete_log (called : Option String) (document : Document) (closing : Nat → Event) :
    (complete { called } document closing).log =
      (complete { called } document closing).value.map TransformedField.event ++
        [closing (complete { called } document closing).value.length] := by
  obtain ⟨-, hlog, added, hf, hl⟩ := walk_tellsMore (.document document) { called }
  simp only [Visitor.walk, List.nil_append] at hlog hf hl
  simp only [complete, hlog, hf, hl, List.append_nil]

end Survey

namespace Document

theorem transformedFields_log (document : Document) :
    document.transformedFields.log = document.transformedFields.value.map TransformedField.event ++
      [.transformationsCollected document.transformedFields.value.length] :=
  Survey.complete_log none document _

theorem fieldsHydratedBy_log (document : Document) (service : String) :
    (document.fieldsHydratedBy service).log =
      (document.fieldsHydratedBy service).value.map TransformedField.event ++
        [.hydrationsCollected service (document.fieldsHydratedBy service).value.length] :=
  Survey.complete_log (some service) document _

theorem length_transformedFields (document : Document) :
    document.transformedFields.value.length = document.transformations.length := by
  rw [transformedFields_value, ← placements_map_transformation, List.length_map, List.length_map]

/-- What a survey of the calls of a service reports before it closes is what the survey of all
transformed fields reports at the indices of these calls. -/
theorem dropLast_fieldsHydratedBy_log (document : Document) (service : String) :
    (document.fieldsHydratedBy service).log.dropLast.map some =
      (document.callIndices service).map fun index => document.transformedFields.log[index]? := by
  let event (placement : Placement) := placement.describe.event
  have hall : document.transformedFields.log = document.placements.map event ++
      [.transformationsCollected document.transformedFields.value.length] := by
    rw [transformedFields_log, transformedFields_value, List.map_map]
    rfl
  have hone : (document.fieldsHydratedBy service).log.dropLast =
      (document.placements.filter fun placement =>
        placement.transformation.payload.calledService? = some service).map event := by
    rw [fieldsHydratedBy_log, List.dropLast_concat, fieldsHydratedBy_value, List.map_map]
    rfl
  have hindex : ∀ index ∈ document.callIndices service,
      document.transformedFields.log[index]? = (document.placements.map event)[index]? := by
    intro index hi
    have hlt : index < document.transformations.length :=
      List.mem_range.mp (List.mem_filter.mp hi).1
    rw [hall, List.getElem?_append_left]
    rwa [List.length_map, ← List.length_map Placement.transformation,
      placements_map_transformation]
  rw [hone, List.map_congr_left hindex, callIndices, ← placements_map_transformation,
    map_getElem?_filter_range]

/-- A survey of a document reports each transformed field that it finds, in the order of its results
and with the field, the kind and the target of the result, and then closes with their number.  A
transformation that a survey leaves out is not reported: a survey of the calls of a service reports
only at the indices of these calls, and the survey of all transformed fields leaves none out.  No
survey reports that it was stopped. -/
theorem surveys_report_each_found (document : Document) :
    (document.transformedFields.log.map Event.report =
        document.transformedFields.value.map (fun found => ("TRACE", "field transformation",
          [("field", found.field), ("kind", found.kind.name), ("target", found.target)])) ++
        [("DEBUG", "collected field transformations",
          [("count", toString document.transformedFields.value.length)])] ∧
      document.transformedFields.value.length = document.transformations.length) ∧
    (∀ service,
      (document.fieldsHydratedBy service).log.map Event.report =
        (document.fieldsHydratedBy service).value.map (fun found =>
          ("TRACE", "field transformation",
            [("field", found.field), ("kind", found.kind.name), ("target", found.target)])) ++
        [("DEBUG", "collected hydrations", [("service", service),
          ("count", toString (document.fieldsHydratedBy service).value.length)])] ∧
      (document.fieldsHydratedBy service).log.dropLast.map some =
        (document.callIndices service).map fun index => document.transformedFields.log[index]?) ∧
    ∀ kind name, Event.walkStopped kind name ∉ document.transformedFields.log ∧
      ∀ service, Event.walkStopped kind name ∉ (document.fieldsHydratedBy service).log := by
  have hreport : Event.report ∘ TransformedField.event = fun found : TransformedField =>
      ("TRACE", "field transformation",
        [("field", found.field), ("kind", found.kind.name), ("target", found.target)]) := rfl
  refine ⟨⟨?_, document.length_transformedFields⟩,
    fun service => ⟨?_, document.dropLast_fieldsHydratedBy_log service⟩,
    fun kind name => ⟨?_, fun service => ?_⟩⟩
  · rw [transformedFields_log, List.map_append, List.map_map, hreport]
    rfl
  · rw [fieldsHydratedBy_log, List.map_append, List.map_map, hreport]
    rfl
  · rw [transformedFields_log]
    simp [TransformedField.event]
  · rw [fieldsHydratedBy_log]
    simp [TransformedField.event]

/-- The names of a called service and of its field may hold dots, and the target does not tell where
one ends. -/
example :
    let field (name : String) (payload : Payload) : Field :=
      { name, typeRef := "U", transformation := some ⟨payload, default⟩ }
    let document : Document := { services := [{ name := "S", types := [{ name := "T", fields :=
      [field "f" (.hydration { service := "A", field := "b.c" }), { name := "g", typeRef := "U" },
        field "h" (.hydration { service := "A.b", field := "c" })] }] }] }
    (document.fieldsHydratedBy "A.b").log.map Event.report = [
      ("TRACE", "field transformation",
        [("field", "h"), ("kind", "hydration"), ("target", "A.b.c")]),
      ("DEBUG", "collected hydrations", [("service", "A.b"), ("count", "1")])] := by
  decide

end Document

end SchemaStitching
