import SchemaStitching.Proofs.Brackets

/-! Walks of visitors that decide by the node alone.  The callbacks of such a walk come from those
of a walk that descends everywhere, in two steps.  `Callback.prune` deletes what lies between the
visit of a node whose children are skipped and the departure that closes it, and `Callback.cut` ends
the rest at the first visit that is answered `stop`.  Pruning works on callbacks, and follows the
tree because they are balanced. -/

namespace SchemaStitching

namespace Callback

/-- The callbacks without those strictly between the visit of a node whose children the rule skips
and the departure that closes it.  At depth 0 no node around is skipped.  Otherwise `depth` counts
the open nodes from the skipped one inwards. -/
def prune (rule : Node → Verdict) : (depth : Nat) → List Callback → List Callback
  | _, [] => []
  | 0, .visit node :: rest =>
    .visit node :: prune rule (if rule node = .skipChildren then 1 else 0) rest
  | 0, .leave node :: rest => .leave node :: prune rule 0 rest
  | depth + 1, .visit _ :: rest => prune rule (depth + 2) rest
  | 1, .leave node :: rest => .leave node :: prune rule 0 rest
  | depth + 2, .leave _ :: rest => prune rule (depth + 1) rest

/-- The callbacks up to the first visit of a node at which the rule stops. -/
def cut (rule : Node → Verdict) : List Callback → List Callback
  | [] => []
  | .visit node :: rest => .visit node :: if rule node = .stop then [] else cut rule rest
  | .leave node :: rest => .leave node :: cut rule rest

/-- Whether the rule stops at one of the nodes visited. -/
def Stops (rule : Node → Verdict) (callbacks : List Callback) : Prop :=
  ∃ node, .visit node ∈ callbacks ∧ rule node = .stop

variable {rule rule' : Node → Verdict} {first rest inner : List Callback}

theorem Balanced.prune_skipped (h : Balanced inner) (depth : Nat) (rest : List Callback) :
    prune rule (depth + 1) (inner ++ rest) = prune rule (depth + 1) rest := by
  induction h generalizing depth rest with
  | nil => rfl
  | enclose node _ _ ihi ihr =>
    simp only [List.cons_append, List.append_assoc, prune]
    rw [ihi (depth + 1), prune, ihr]

theorem Balanced.prune_append (h : Balanced first) (rest : List Callback) :
    prune rule 0 (first ++ rest) = prune rule 0 first ++ prune rule 0 rest := by
  induction h generalizing rest with
  | nil => rfl
  | enclose node hi _ ihi ihr =>
    simp only [List.cons_append, List.append_assoc, prune]
    by_cases hs : rule node = .skipChildren
    · simp only [if_pos hs, hi.prune_skipped, prune, ihr, List.cons_append]
    · simp only [if_neg hs, ihi, prune, ihr, List.cons_append, List.append_assoc]

/-- A node whose children are skipped keeps its own callbacks and those after it. -/
theorem Balanced.prune_enclose (h : Balanced inner) (node : Node) (rest : List Callback) :
    prune rule 0 (.visit node :: inner ++ .leave node :: rest) =
      .visit node :: (if rule node = .skipChildren then [] else prune rule 0 inner) ++
        .leave node :: prune rule 0 rest := by
  rw [List.cons_append, prune]
  by_cases hs : rule node = .skipChildren
  · rw [if_pos hs, if_pos hs, h.prune_skipped]
    rfl
  · rw [if_neg hs, if_neg hs, h.prune_append]
    rfl

theorem Balanced.pruned (h : Balanced inner) : Balanced (prune rule 0 inner) := by
  induction h with
  | nil => exact .nil
  | enclose node hi _ ihi ihr =>
    rw [hi.prune_enclose]
    refine .enclose node ?_ ihr
    split
    · exact .nil
    · exact ihi

theorem Balanced.flatMap {α : Type} {items : List α} {callbacks : α → List Callback}
    (h : ∀ item ∈ items, Balanced (callbacks item)) : Balanced (items.flatMap callbacks) := by
  induction items with
  | nil => exact .nil
  | cons item items ih =>
    rw [List.forall_mem_cons] at h
    exact h.1.append (ih h.2)

theorem prune_flatMap {α : Type} {items : List α} {callbacks : α → List Callback}
    (h : ∀ item ∈ items, Balanced (callbacks item)) :
    prune rule 0 (items.flatMap callbacks) =
      items.flatMap fun item => prune rule 0 (callbacks item) := by
  induction items with
  | nil => rfl
  | cons item items ih =>
    rw [List.forall_mem_cons] at h
    rw [List.flatMap_cons, List.flatMap_cons, h.1.prune_append, ih h.2]

/-- Pruning depends on the rule only at the nodes that are still visited afterwards. -/
theorem prune_congr {depth : Nat} {callbacks : List Callback}
    (h : ∀ node, .visit node ∈ prune rule depth callbacks → rule' node = rule node) :
    prune rule' depth callbacks = prune rule depth callbacks := by
  fun_induction prune rule depth callbacks with
  | case1 => rfl
  | case2 node rest ih =>
    rw [prune, h node List.mem_cons_self]
    exact congrArg _ (ih fun other ho => h other (List.mem_cons_of_mem _ ho))
  | case3 node rest ih | case5 node rest ih =>
    rw [prune]
    exact congrArg _ (ih fun other ho => h other (List.mem_cons_of_mem _ ho))
  | case4 depth node rest ih | case6 depth node rest ih =>
    rw [prune]
    exact ih h

theorem cut_congr {callbacks : List Callback}
    (h : ∀ node, .visit node ∈ callbacks → rule' node = rule node) :
    cut rule' callbacks = cut rule callbacks := by
  induction callbacks with
  | nil => rfl
  | cons callback rest ih =>
    have hr := ih fun node hn => h node (List.mem_cons_of_mem _ hn)
    cases callback with
    | visit node => rw [cut, cut, hr, h node List.mem_cons_self]
    | leave node => rw [cut, cut, hr]

theorem prune_descend (callbacks : List Callback) :
    prune (fun _ => .descend) 0 callbacks = callbacks := by
  induction callbacks with
  | nil => rfl
  | cons callback rest ih => cases callback <;> exact congrArg _ ih

theorem cut_descend (callbacks : List Callback) :
    cut (fun _ => .descend) callbacks = callbacks := by
  induction callbacks with
  | nil => rfl
  | cons callback rest ih => cases callback <;> exact congrArg _ ih

theorem stops_append : Stops rule (first ++ rest) ↔ Stops rule first ∨ Stops rule rest := by
  simp only [Stops, List.mem_append, or_and_right, exists_or]

theorem cut_append_of_stops (h : Stops rule first) : cut rule (first ++ rest) = cut rule first := by
  induction first with
  | nil => simp [Stops] at h
  | cons callback first ih =>
    cases callback with
    | visit node =>
      by_cases hs : rule node = .stop
      · simp [cut, hs]
      · have hf : Stops rule first := by simpa [Stops, or_and_right, exists_or, hs] using h
        simp [cut, hs, ih hf]
    | leave node =>
      have hf : Stops rule first := by simpa [Stops] using h
      simp [cut, ih hf]

theorem cut_append_of_not_stops (h : ¬Stops rule first) :
    cut rule (first ++ rest) = cut rule first ++ cut rule rest := by
  induction first with
  | nil => rfl
  | cons callback first ih =>
    cases callback with
    | visit node =>
      have hf : rule node ≠ .stop ∧ ¬Stops rule first := by
        simpa [Stops, or_and_right, exists_or, not_or] using h
      simp [cut, hf.1, ih hf.2]
    | leave node =>
      have hf : ¬Stops rule first := by simpa [Stops] using h
      simp [cut, ih hf]

end Callback

open Callback

/-- The callbacks of a walk that descends everywhere. -/
def Node.tour (node : Node) : List Callback :=
  .visit node :: node.children.attach.flatMap (fun child => tour child.val) ++ [.leave node]
termination_by node.height
decreasing_by exact height_lt_of_mem_children child.property

theorem Node.tour_eq (node : Node) :
    node.tour = .visit node :: node.children.flatMap tour ++ [.leave node] := by
  rw [tour]
  simp

theorem Node.balanced_tour (node : Node) : Balanced node.tour := by
  induction node using Node.induction_on_children with
  | step node ih =>
    rw [tour_eq]
    exact .enclose node (.flatMap ih) .nil

/-- Pruning a tour deletes the tours of the children of skipped nodes, and nothing else. -/
theorem Node.prune_tour (rule : Node → Verdict) (node : Node) :
    prune rule 0 node.tour = .visit node :: (if rule node = .skipChildren then [] else
      node.children.flatMap fun child => prune rule 0 child.tour) ++ [.leave node] := by
  have hb : ∀ child ∈ node.children, Balanced child.tour := fun child _ => child.balanced_tour
  rw [tour_eq, (Balanced.flatMap hb).prune_enclose, prune_flatMap hb]
  rfl

namespace Run

variable {σ : Type} {rule : Node → Verdict}

/-- The run makes the given callbacks up to the first visit at which the rule stops, and is stopped
exactly if there is such a visit. -/
structure Follows (run : Run σ) (rule : Node → Verdict) (given : List Callback) : Prop where
  callbacks : run.callbacks = cut rule given
  verdict : run.verdict = .stop ↔ Stops rule given

theorem Follows.andThen {run : Run σ} {next : σ → Run σ} {first rest : List Callback}
    (hr : run.Follows rule first) (hn : ∀ state, (next state).Follows rule rest) :
    (run.andThen next).Follows rule (first ++ rest) := by
  by_cases hs : Stops rule first
  · have hv : run.verdict = .stop := hr.verdict.mpr hs
    rw [andThen_of_stop hv]
    exact ⟨by rw [cut_append_of_stops hs, hr.callbacks], by simp [hv, stops_append, hs]⟩
  · have hv : run.verdict ≠ .stop := fun hv => hs (hr.verdict.mp hv)
    rw [andThen_of_ne_stop hv]
    constructor
    · rw [cut_append_of_not_stops hs, hr.callbacks, (hn run.state).callbacks]
    · rw [stops_append, or_iff_right hs]
      exact (hn run.state).verdict

theorem each_follows {α : Type} {step : α → σ → Run σ} {items : List α}
    {callbacks : α → List Callback}
    (h : ∀ item ∈ items, ∀ state, (step item state).Follows rule (callbacks item)) (state : σ) :
    (each step items state).Follows rule (items.flatMap callbacks) := by
  induction items generalizing state with
  | nil => exact ⟨rfl, by simp [each, Stops]⟩
  | cons item items ih =>
    rw [List.forall_mem_cons] at h
    rw [each, List.flatMap_cons]
    exact (h.1 state).andThen (ih h.2)

end Run

namespace Visitor

variable {σ τ : Type} {rule : Node → Verdict}

theorem departure_follows (visitor : Visitor σ) (rule : Node → Verdict) (node : Node) (state : σ) :
    (visitor.departure node state).Follows rule [.leave node] :=
  ⟨rfl, by simp [departure, Stops]⟩

theorem enclose_follows {visitor : Visitor σ} {node : Node} {below : σ → Run σ}
    {inner : List Callback} (hv : ∀ node state, (visitor.visit node state).1 = rule node)
    (hb : ∀ state, (below state).Follows rule inner) (state : σ) :
    (visitor.enclose node below state).Follows rule (.visit node ::
      (if rule node = .skipChildren then [] else inner) ++ [.leave node]) := by
  have ha (hs : rule node ≠ .stop) : Run.Follows
      { state := (visitor.visit node state).2, callbacks := [.visit node] } rule [.visit node] :=
    ⟨by simp [cut], by simp [Stops, hs]⟩
  have hd := visitor.departure_follows rule node
  rw [enclose, hv]
  cases hr : rule node with
  | stop => exact ⟨by simp [cut, hr], by simp [Stops, hr]⟩
  | skipChildren => exact (ha (by simp [hr])).andThen hd
  | descend => exact ((ha (by simp [hr])).andThen hb).andThen hd

theorem walk_follows {visitor : Visitor σ}
    (hv : ∀ node state, (visitor.visit node state).1 = rule node) (node : Node) (state : σ) :
    (visitor.walk node state).Follows rule (prune rule 0 node.tour) := by
  induction node using Node.induction_on_children generalizing state with
  | step node ih =>
    rw [walk_eq_enclose, Node.prune_tour]
    exact enclose_follows hv (Run.each_follows ih) state

theorem walk_callbacks_eq_tour {visitor : Visitor σ}
    (hv : ∀ node state, (visitor.visit node state).1 = .descend) (node : Node) (state : σ) :
    (visitor.walk node state).callbacks = node.tour := by
  rw [(walk_follows hv node state).callbacks, prune_descend, cut_descend]

/-- The walk of a visitor that decides by the node makes the callbacks of a walk that descends
everywhere, pruned and then cut, and it is stopped exactly if pruning leaves a visit at which the
visitor stops.  A skipped node keeps its own callbacks and takes none from its siblings.  What the
visitor would answer at the nodes that pruning takes away makes no difference. -/
theorem walk_callbacks_eq_cut_prune {visitor : Visitor σ} {full : Visitor τ}
    (hv : ∀ node state, (visitor.visit node state).1 = rule node)
    (hf : ∀ node state, (full.visit node state).1 = .descend) (node : Node) (state : σ)
    (start : τ) :
    let run := visitor.walk node state
    let remaining := prune rule 0 (full.walk node start).callbacks
    run.callbacks = cut rule remaining ∧
    (run.verdict = .stop ↔ ∃ last, .visit last ∈ remaining ∧ rule last = .stop) ∧
    Balanced remaining ∧
    remaining = .visit node :: (if rule node = .skipChildren then [] else
      node.children.flatMap fun child => prune rule 0 (full.walk child start).callbacks) ++
        [.leave node] ∧
    ∀ (rule' : Node → Verdict) (visitor' : Visitor σ),
      (∀ node state, (visitor'.visit node state).1 = rule' node) →
      (∀ other, .visit other ∈ remaining → rule' other = rule other) →
      (visitor'.walk node state).callbacks = run.callbacks := by
  intro run remaining
  have ht : remaining = prune rule 0 node.tour := by
    rw [← walk_callbacks_eq_tour hf node start]
  have hw := walk_follows hv node state
  rw [ht]
  refine ⟨hw.callbacks, hw.verdict, ?_, ?_, fun rule' visitor' hv' ha => ?_⟩
  · exact node.balanced_tour.pruned
  · simp only [walk_callbacks_eq_tour hf]
    exact node.prune_tour rule
  · rw [(walk_follows hv' node state).callbacks, prune_congr ha, cut_congr ha, hw.callbacks]

/-- A visitor that skips the type `old`, and with it a field at which it would stop, and then stops
at a field of the next type. -/
theorem walk_callbacks_eq_cut_prune_stop_after_skip :
    let plain (name : String) : Field := { name, typeRef := "U" }
    let skipped : ObjectType := { name := "old", fields := [plain "end"] }
    let walked : ObjectType := { name := "new", fields := [plain "id", plain "end", plain "on"] }
    let service : Node := .service { name := "S", types := [skipped, walked] }
    let rule (node : Node) : Verdict :=
      if node.name = "old" then .skipChildren else if node.name = "end" then .stop else .descend
    let visitor : Visitor Nat := .uniform (fun node count => (rule node, count + 1)) fun _ => id
    let full : Visitor Unit := {}
    (∀ node state, (visitor.visit node state).1 = rule node) ∧
    (∀ node state, (full.visit node state).1 = .descend) ∧
    (visitor.walk service 0).callbacks = [.visit service, .visit (.objectType skipped),
      .leave (.objectType skipped), .visit (.objectType walked), .visit (.field (plain "id")),
      .leave (.field (plain "id")), .visit (.field (plain "end"))] ∧
    (visitor.walk service 0).verdict = .stop := by
  intro plain skipped walked service rule visitor full
  have hv (node : Node) (state : Nat) : (visitor.visit node state).1 = rule node := by
    cases node <;> rfl
  have hf (node : Node) (state : Unit) : (full.visit node state).1 = .descend := by
    cases node <;> rfl
  obtain ⟨hc, hs, -⟩ := walk_callbacks_eq_cut_prune hv hf service 0 ()
  have hr : prune rule 0 (full.walk service ()).callbacks = [.visit service,
      .visit (.objectType skipped), .leave (.objectType skipped), .visit (.objectType walked),
      .visit (.field (plain "id")), .leave (.field (plain "id")), .visit (.field (plain "end")),
      .leave (.field (plain "end")), .visit (.field (plain "on")), .leave (.field (plain "on")),
      .leave (.objectType walked), .leave service] := rfl
  refine ⟨hv, hf, hc.trans ?_, hs.mpr ⟨.field (plain "end"), by simp [hr], rfl⟩⟩
  rw [hr]
  rfl

end Visitor

end SchemaStitching
