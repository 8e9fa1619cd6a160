import Mathlib.Data.List.Basic
import Mathlib.Data.Option.Basic
import SchemaStitching.Hydration

/-! Hydrations that are built in steps.  A step that is refused leaves no trace, and the next one
goes on from the hydration before it.  Arguments add up, an identifier or a batch size gives way to
a later one, and no step touches what the other kinds of steps change.  `Extends` says so of one
step and of many, and what it says determines the hydration that is built: it depends on the steps
of each kind that were taken, and not on how the kinds are mixed. -/

namespace SchemaStitching

theorem BatchSize.count_injective : Function.Injective count := by
  rintro ⟨_, _⟩ ⟨_, _⟩ rfl
  rfl

namespace Hydration

/-- A call of one of the functions that extend a hydration. -/
inductive Step where
  | addArgument (argument : Argument)
  | identifyBy (identifier : String)
  | batchBy (count : UInt32)
  deriving DecidableEq

namespace Step

/-- The argument that a step adds. -/
def argument? : Step → Option Argument
  | addArgument argument => some argument
  | identifyBy _ | batchBy _ => none

/-- The field by which a step has results matched. -/
def identifier? : Step → Option String
  | identifyBy identifier => some identifier
  | addArgument _ | batchBy _ => none

/-- The number of objects that a step has share one call. -/
def count? : Step → Option UInt32
  | batchBy count => some count
  | addArgument _ | identifyBy _ => none

end Step

/-- The hydration that a step makes of another one, unless the step is refused. -/
def take (hydration : Hydration) : Step → Except Fault Hydration
  | .addArgument argument => .ok (hydration.addArgument argument)
  | .identifyBy identifier => .ok (hydration.identifyBy identifier)
  | .batchBy count => hydration.batchBy count

/-- The hydration from which building goes on after a step: the one before it, if the step is
refused. -/
def after (hydration : Hydration) (step : Step) : Hydration :=
  match hydration.take step with
  | .ok next => next
  | .error _ => hydration

/-- The hydration that is built by steps, one after the other. -/
def build (hydration : Hydration) (steps : List Step) : Hydration :=
  steps.foldl after hydration

/-- The steps that are not refused when all are tried one after the other. -/
def taken (hydration : Hydration) : List Step → List Step
  | [] => []
  | step :: steps =>
    match hydration.take step with
    | .ok next => step :: next.taken steps
    | .error _ => hydration.taken steps

/-! ### What is refused -/

theorem batchBy_zero (hydration : Hydration) :
    hydration.batchBy 0 = .error (.zeroBatchSize hydration.service hydration.field) :=
  rfl

theorem batchBy_of_ne_zero (hydration : Hydration) {count : UInt32} (h : count ≠ 0) :
    hydration.batchBy count = .ok { hydration with batchSize := some ⟨count, h⟩ } :=
  dif_pos h

theorem take_eq_error_iff {hydration : Hydration} {step : Step} {fault : Fault} :
    hydration.take step = .error fault ↔
      step = .batchBy 0 ∧ fault = .zeroBatchSize hydration.service hydration.field := by
  cases step with
  | addArgument argument => simp [take]
  | identifyBy identifier => simp [take]
  | batchBy count =>
    by_cases hc : count = 0
    · simp [take, hc, batchBy_zero, eq_comm]
    · simp [take, hc, batchBy_of_ne_zero]

theorem exists_take_eq_ok {step : Step} (h : step ≠ .batchBy 0) (hydration : Hydration) :
    ∃ next, hydration.take step = .ok next := by
  cases ht : hydration.take step with
  | ok next => exact ⟨next, rfl⟩
  | error fault => exact absurd (take_eq_error_iff.mp ht).1 h

theorem taken_eq_filter (hydration : Hydration) (steps : List Step) :
    hydration.taken steps = steps.filter (· ≠ .batchBy 0) := by
  induction steps generalizing hydration with
  | nil => rfl
  | cons step steps ih =>
    by_cases hs : step = .batchBy 0
    · have ht : hydration.take step = .error (.zeroBatchSize hydration.service hydration.field) :=
        take_eq_error_iff.mpr ⟨hs, rfl⟩
      rw [taken, ht, List.filter_cons_of_neg (by simpa using hs)]
      exact ih hydration
    · obtain ⟨next, ht⟩ := exists_take_eq_ok hs hydration
      rw [taken, ht, List.filter_cons_of_pos (by simpa using hs)]
      exact congrArg _ (ih next)

/-! ### What is built -/

/-- `final` is `start` with the arguments that the steps add after its own, with the last identifier
and the last batch size other than zero that they give in place of its own, and without any other
change. -/
structure Extends (start : Hydration) (steps : List Step) (final : Hydration) : Prop where
  service : final.service = start.service
  field : final.field = start.field
  arguments : final.arguments = start.arguments ++ steps.filterMap Step.argument?
  identifier : final.identifier = (steps.filterMap Step.identifier?).getLast?.or start.identifier
  batchSize : final.batchSize.map BatchSize.count =
    ((steps.filterMap Step.count?).filter (· ≠ 0)).getLast?.or
      (start.batchSize.map BatchSize.count)

namespace Extends

variable {start middle final other : Hydration} {steps more : List Step}

theorem refl (start : Hydration) : start.Extends [] start :=
  ⟨rfl, rfl, (List.append_nil _).symm, rfl, rfl⟩

theorem trans (h : start.Extends steps middle) (h' : middle.Extends more final) :
    start.Extends (steps ++ more) final where
  service := h'.service.trans h.service
  field := h'.field.trans h.field
  arguments := by
    rw [h'.arguments, h.arguments, List.append_assoc, List.filterMap_append]
  identifier := by
    rw [h'.identifier, h.identifier, ← Option.or_assoc, List.filterMap_append,
      List.getLast?_append]
  batchSize := by
    rw [h'.batchSize, h.batchSize, ← Option.or_assoc, List.filterMap_append, List.filter_append,
      List.getLast?_append]

/-- Hydrations that are built by the same steps of each kind are equal. -/
theorem unique (h : start.Extends steps final) (h' : start.Extends more other)
    (ha : more.filterMap Step.argument? = steps.filterMap Step.argument?)
    (hi : more.filterMap Step.identifier? = steps.filterMap Step.identifier?)
    (hc : (more.filterMap Step.count?).filter (· ≠ 0) =
      (steps.filterMap Step.count?).filter (· ≠ 0)) : other = final := by
  have hb : other.batchSize = final.batchSize :=
    Option.map_injective BatchSize.count_injective (by rw [h.batchSize, h'.batchSize, hc])
  have harguments : other.arguments = final.arguments := by rw [h.arguments, h'.arguments, ha]
  have hidentifier : other.identifier = final.identifier := by
    rw [h.identifier, h'.identifier, hi]
  have hservice : other.service = final.service := h'.service.trans h.service.symm
  have hfield : other.field = final.field := h'.field.trans h.field.symm
  cases other
  cases final
  simp_all

end Extends

theorem after_extends (hydration : Hydration) (step : Step) :
    hydration.Extends [step] (hydration.after step) := by
  cases step with
  | addArgument argument => exact ⟨rfl, rfl, rfl, rfl, rfl⟩
  | identifyBy identifier => exact ⟨rfl, rfl, (List.append_nil _).symm, rfl, rfl⟩
  | batchBy count =>
    by_cases hc : count = 0
    · subst hc
      exact ⟨rfl, rfl, (List.append_nil _).symm, rfl, rfl⟩
    · have ha : hydration.after (.batchBy count) =
          { hydration with batchSize := some ⟨count, hc⟩ } := by
        rw [after, take, batchBy_of_ne_zero hydration hc]
      rw [ha]
      exact ⟨rfl, rfl, (List.append_nil _).symm, rfl, by simp [Step.count?, hc]⟩

theorem build_extends (hydration : Hydration) (steps : List Step) :
    hydration.Extends steps (hydration.build steps) := by
  induction steps generalizing hydration with
  | nil => exact .refl hydration
  | cons step steps ih => exact (hydration.after_extends step).trans (ih _)

/-- The steps that are refused change none of the lists on which the hydration depends. -/
theorem filterMap_taken {α : Type} {view : Step → Option α} (h : view (.batchBy 0) = none)
    (hydration : Hydration) (steps : List Step) :
    (hydration.taken steps).filterMap view = steps.filterMap view := by
  rw [taken_eq_filter, List.filterMap_filter]
  refine List.filterMap_congr fun step _ => ?_
  by_cases hs : step = .batchBy 0
  · simp [hs, h]
  · simp [hs]

/-! ### What is asked of a hydration -/

theorem argument?_eq_some_iff {hydration : Hydration} {name : String} {found : Argument} :
    hydration.argument? name = some found ↔
      ∃ before after, hydration.arguments = before ++ found :: after ∧ found.name = name ∧
        ∀ earlier ∈ before, earlier.name ≠ name := by
  rw [argument?, List.find?_eq_some_iff_append]
  constructor
  · rintro ⟨hn, before, after, ha, hb⟩
    exact ⟨before, after, ha, eq_of_beq hn, fun earlier he => by simpa using hb earlier he⟩
  · rintro ⟨before, after, ha, hn, hb⟩
    exact ⟨beq_iff_eq.mpr hn, before, after, ha, fun earlier he => by simpa using hb earlier he⟩

theorem objectPaths_eq_filterMap (hydration : Hydration) :
    hydration.objectPaths = hydration.arguments.filterMap fun argument =>
      if argument.source.origin = .objectField then some argument.source.path else none := by
  rw [objectPaths, ← List.filterMap_eq_map, List.filterMap_filter]
  refine List.filterMap_congr fun argument _ => ?_
  by_cases ho : argument.source.origin = .objectField <;> simp [ho]

/-- Whatever steps are tried, a step is refused if and only if it asks for batches of none, with a
fault that names what `start` calls, and the steps that are taken extend `start`.  Other steps of
which the same are taken, kind by kind, build the same hydration.  At the end, as after the steps
up to any other point, an argument is looked up as the first of its name among those of `start` and
those added, and the paths to fetch from the hydrated object are read off the same arguments. -/
theorem build_determined_by_taken (start : Hydration) (steps : List Step) :
    let final := start.build steps
    let arguments := start.arguments ++ steps.filterMap Step.argument?
    start.Extends steps final ∧
    (∀ before step after, steps = before ++ step :: after → ∀ fault,
      (start.build before).take step = .error fault ↔
        step = .batchBy 0 ∧ fault = .zeroBatchSize start.service start.field) ∧
    (∀ others,
      (start.taken others).filterMap Step.argument? =
        (start.taken steps).filterMap Step.argument? →
      (start.taken others).filterMap Step.identifier? =
        (start.taken steps).filterMap Step.identifier? →
      (start.taken others).filterMap Step.count? = (start.taken steps).filterMap Step.count? →
      start.build others = final) ∧
    (∀ name found, final.argument? name = some found ↔
      ∃ before after, arguments = before ++ found :: after ∧ found.name = name ∧
        ∀ earlier ∈ before, earlier.name ≠ name) ∧
    final.objectPaths = arguments.filterMap fun argument =>
      if argument.source.origin = .objectField then some argument.source.path else none := by
  intro final arguments
  have he : start.Extends steps final := start.build_extends steps
  refine ⟨he, fun before step after _ fault => ?_, fun others ha hi hc => ?_, fun name found => ?_,
    ?_⟩
  · have hb := start.build_extends before
    rw [take_eq_error_iff, hb.service, hb.field]
  · rw [filterMap_taken rfl, filterMap_taken rfl] at ha hi
    have hcounts (steps : List Step) : ((start.taken steps).filterMap Step.count?).filter (· ≠ 0) =
        (steps.filterMap Step.count?).filter (· ≠ 0) := by
      rw [List.filter_filterMap, List.filter_filterMap]
      exact filterMap_taken rfl start steps
    refine he.unique (start.build_extends others) ha hi ?_
    rw [← hcounts others, hc, hcounts steps]
  · rw [argument?_eq_some_iff, he.arguments]
  · rw [objectPaths_eq_filterMap, he.arguments]

/-- A hydration with an argument and a batch size of its own, built on by steps of all kinds, some
of them refused, and by the same steps in another order without the refused ones. -/
theorem build_determined_by_taken_interleaved :
    let path (name : String) (h : IsSegment name) : Path :=
      ⟨[name], List.cons_ne_nil _ _, List.forall_mem_singleton.mpr h⟩
    let own : Argument := ⟨"id", ⟨.objectField, path "key" (by decide)⟩⟩
    let added : Argument := ⟨"id", ⟨.objectField, path "id" (by decide)⟩⟩
    let tenant : Argument := ⟨"tenant", ⟨.context, path "tenant" (by decide)⟩⟩
    let start : Hydration := {
      service := "Users"
      field := "by_id"
      arguments := [own]
      batchSize := some ⟨7, by decide⟩ }
    let steps : List Step := [.batchBy 0, .addArgument added, .batchBy 20, .identifyBy "key",
      .addArgument tenant, .batchBy 0, .addArgument added, .identifyBy "id"]
    let others : List Step := [.identifyBy "key", .identifyBy "id", .addArgument added,
      .addArgument tenant, .addArgument added, .batchBy 20]
    let final : Hydration := {
      service := "Users"
      field := "by_id"
      arguments := [own, added, tenant, added]
      identifier := some "id"
      batchSize := some ⟨20, by decide⟩ }
    start.build steps = final ∧ start.build others = final ∧
    (start.build [.batchBy 0, .addArgument added, .batchBy 20, .identifyBy "key",
      .addArgument tenant]).take (.batchBy 0) = .error (.zeroBatchSize "Users" "by_id") ∧
    final.argument? "id" = some own ∧
    final.objectPaths.map (·.segments) = [["key"], ["id"], ["id"]] := by
  intro path own added tenant start steps others final
  have hf : start.build steps = final := by decide
  obtain ⟨-, hrefused, hsame, hfirst, hpaths⟩ := build_determined_by_taken start steps
  rw [hf] at hsame hfirst hpaths
  refine ⟨hf, hsame others rfl rfl rfl, ?_, ?_, ?_⟩
  · exact (hrefused [_, _, _, _, _] (.batchBy 0) [_, _] rfl _).mpr ⟨rfl, rfl⟩
  · exact (hfirst "id" own).mpr ⟨[], [added, tenant, added], rfl, rfl, nofun⟩
  · rw [hpaths]
    rfl

end Hydration

end SchemaStitching
