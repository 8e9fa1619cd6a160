import Mathlib.Data.List.Infix
import SchemaStitching.Proofs.Traversal

/-! The callbacks of a walk are brackets around nodes.  A walk that is not stopped closes every one
that it opens, in the order of nesting.  A walk that is stopped ends with the visit that stopped it
and leaves open exactly the nodes on the way to it.  `Visitor.Completes` and `Visitor.StopsAt` say
so of a part of a walk, and pass from parts to the whole. -/

namespace SchemaStitching

namespace Callback

/-- Callbacks in which every visit of a node is closed by one departure from that node, with
brackets of their own in between. -/
inductive Balanced : List Callback → Prop
  | nil : Balanced []
  | enclose (node : Node) {inner rest : List Callback} :
      Balanced inner → Balanced rest → Balanced (.visit node :: inner ++ .leave node :: rest)

/-- Callbacks that visit the given nodes, the outermost first, without leaving them again.  What
else they visit they leave. -/
inductive Unclosed : List Node → List Callback → Prop
  | balanced {callbacks : List Callback} : Balanced callbacks → Unclosed [] callbacks
  | visit (node : Node) {opened : List Node} {before rest : List Callback} :
      Balanced before → Unclosed opened rest →
        Unclosed (node :: opened) (before ++ .visit node :: rest)

theorem Balanced.append {first rest : List Callback} (hf : Balanced first) (hr : Balanced rest) :
    Balanced (first ++ rest) := by
  induction hf with
  | nil => exact hr
  | enclose node hi _ _ ih =>
    rw [List.append_assoc, List.cons_append]
    exact .enclose node hi ih

theorem Balanced.append_unclosed {first rest : List Callback} {opened : List Node}
    (hf : Balanced first) (hr : Unclosed opened rest) : Unclosed opened (first ++ rest) := by
  cases hr with
  | balanced hr => exact .balanced (hf.append hr)
  | visit node hb hr =>
    rw [← List.append_assoc]
    exact .visit node (hf.append hb) hr

/-- The open nodes after a callback, the innermost first. -/
def nest : List Node → Callback → List Node
  | stack, .visit node => node :: stack
  | stack, .leave _ => stack.tail

theorem Balanced.foldl_nest {callbacks : List Callback} (h : Balanced callbacks)
    (stack : List Node) : callbacks.foldl nest stack = stack := by
  induction h generalizing stack with
  | nil => rfl
  | enclose node _ _ ihi ihr => simp [nest, ihi, ihr]

theorem Unclosed.foldl_nest {opened : List Node} {callbacks : List Callback}
    (h : Unclosed opened callbacks) (stack : List Node) :
    callbacks.foldl nest stack = opened.reverse ++ stack := by
  induction h generalizing stack with
  | balanced hb => exact hb.foldl_nest stack
  | visit node hb _ ih => simp [hb.foldl_nest, nest, ih]

/-- Callbacks leave only one list of nodes open. -/
theorem Unclosed.unique {opened opened' : List Node} {callbacks : List Callback}
    (h : Unclosed opened callbacks) (h' : Unclosed opened' callbacks) : opened = opened' := by
  have hr : opened.reverse ++ [] = opened'.reverse ++ [] :=
    (h.foldl_nest []).symm.trans (h'.foldl_nest [])
  simpa using hr

end Callback

open Callback

/-- The event is a trace that the visitor stopped a walk at the node. -/
structure Event.ReportsStop (event : Event) (node : Node) : Prop where
  level : event.level.name = "TRACE"
  message : event.message = "walk stopped by visitor"
  details : event.details = [("node",
    match node with
    | .document _ => "stitching_dsl"
    | .service _ => "service_definition"
    | .objectType _ => "object_type_definition"
    | .field _ => "field_definition"
    | .transformation _ => "field_transformation"), ("node_name",
    match node with
    | .document _ => ""
    | .service s => s.name
    | .objectType t => t.name
    | .field f => f.name
    | .transformation x =>
      match x.payload with
      | .mapping _ => "mapping"
      | .hydration _ => "hydration")]

theorem Event.ReportsStop.walkStopped (node : Node) :
    (Event.walkStopped node.kind node.name).ReportsStop node := by
  refine ⟨rfl, rfl, ?_⟩
  cases node with
  | transformation x => rcases x with ⟨_ | _, _⟩ <;> rfl
  | _ => rfl

/-- The path of child indices leads from the node down to `last`, and the nodes on the way, both
ends among them, are the given ones. -/
structure Node.Passes (node : Node) (path : List Nat) (nodes : List Node) (last : Node) : Prop where
  last : node.descend? path = some last
  nodes : path.inits.map node.descend? = nodes.map some

theorem Node.Passes.below {node child last : Node} {index : Nat} {path : List Nat}
    {nodes : List Node} (hc : node.children[index]? = some child)
    (h : child.Passes path nodes last) : node.Passes (index :: path) (node :: nodes) last := by
  have hd (rest : List Nat) : node.descend? (index :: rest) = child.descend? rest := by
    simp [descend?, hc]
  constructor
  · rw [hd, h.last]
  · simpa [Function.comp_def, descend?, hc] using h.nodes

namespace Visitor

variable {σ : Type}

/-- The state after a callback. -/
def call (visitor : Visitor σ) (state : σ) : Callback → σ
  | .visit node => (visitor.visit node state).2
  | .leave node => visitor.leave node state

/-- The state after callbacks that are called one after the other. -/
def replay (visitor : Visitor σ) (callbacks : List Callback) (state : σ) : σ :=
  callbacks.foldl visitor.call state

/-- The answers of the visits among callbacks that are called one after the other. -/
def answers (visitor : Visitor σ) : List Callback → σ → List Verdict
  | [], _ => []
  | .visit node :: callbacks, state =>
    (visitor.visit node state).1 :: visitor.answers callbacks (visitor.visit node state).2
  | .leave node :: callbacks, state => visitor.answers callbacks (visitor.leave node state)

theorem replay_append (visitor : Visitor σ) (first rest : List Callback) (state : σ) :
    visitor.replay (first ++ rest) state = visitor.replay rest (visitor.replay first state) :=
  List.foldl_append

theorem answers_append (visitor : Visitor σ) (first rest : List Callback) (state : σ) :
    visitor.answers (first ++ rest) state =
      visitor.answers first state ++ visitor.answers rest (visitor.replay first state) := by
  induction first generalizing state with
  | nil => rfl
  | cons callback first ih =>
    cases callback with
    | visit node => exact congrArg _ (ih _)
    | leave node => exact ih _

/-- The run from `state` has not been stopped: it ran the callbacks that it lists, of which none
answered `stop`, they are balanced, and nothing was recorded. -/
structure Completes (visitor : Visitor σ) (state : σ) (run : Run σ) : Prop where
  verdict : run.verdict = .descend
  replay : visitor.replay run.callbacks state = run.state
  answers : .stop ∉ visitor.answers run.callbacks state
  balanced : Balanced run.callbacks
  log : run.log = []

/-- The run from `state` has been stopped by the visit of `last`, which is its last callback and the
only one to answer `stop`.  The nodes that are still open are `opened`, and the one event that was
recorded names `last`. -/
structure StopsAt (visitor : Visitor σ) (state : σ) (run : Run σ) (opened : List Node)
    (last : Node) : Prop where
  verdict : run.verdict = .stop
  lastVisit : ∃ before, run.callbacks = before ++ [.visit last] ∧
    visitor.visit last (visitor.replay before state) = (.stop, run.state) ∧
    .stop ∉ visitor.answers before state
  unclosed : Unclosed opened run.callbacks
  log : run.log = [.walkStopped last.kind last.name]

theorem StopsAt.answers {visitor : Visitor σ} {state : σ} {run : Run σ} {opened : List Node}
    {last : Node} (h : visitor.StopsAt state run opened last) :
    .stop ∈ visitor.answers run.callbacks state := by
  obtain ⟨before, hc, hv, -⟩ := h.lastVisit
  simp [hc, answers_append, Visitor.answers, hv]

theorem StopsAt.replay {visitor : Visitor σ} {state : σ} {run : Run σ} {opened : List Node}
    {last : Node} (h : visitor.StopsAt state run opened last) :
    visitor.replay run.callbacks state = run.state := by
  obtain ⟨before, hc, hv, -⟩ := h.lastVisit
  rw [hc, replay_append]
  exact congrArg Prod.snd hv

theorem Completes.andThen {visitor : Visitor σ} {state : σ} {run : Run σ} {next : σ → Run σ}
    (hr : visitor.Completes state run) (hn : visitor.Completes run.state (next run.state)) :
    visitor.Completes state (run.andThen next) := by
  have hv : run.verdict ≠ .stop := by simp [hr.verdict]
  rw [Run.andThen_of_ne_stop hv]
  constructor
  · exact hn.verdict
  · rw [replay_append, hr.replay]
    exact hn.replay
  · rw [answers_append, hr.replay, List.mem_append]
    exact fun h => h.elim hr.answers hn.answers
  · exact hr.balanced.append hn.balanced
  · simp [hr.log, hn.log]

theorem Completes.andThen_stopsAt {visitor : Visitor σ} {state : σ} {run : Run σ}
    {next : σ → Run σ} {opened : List Node} {last : Node} (hr : visitor.Completes state run)
    (hn : visitor.StopsAt run.state (next run.state) opened last) :
    visitor.StopsAt state (run.andThen next) opened last := by
  have hv : run.verdict ≠ .stop := by simp [hr.verdict]
  obtain ⟨before, hc, hs, ha⟩ := hn.lastVisit
  rw [Run.andThen_of_ne_stop hv]
  constructor
  · exact hn.verdict
  · refine ⟨run.callbacks ++ before, by simp [hc], ?_, ?_⟩
    · rw [replay_append, hr.replay]
      exact hs
    · rw [answers_append, hr.replay, List.mem_append]
      exact fun h => h.elim hr.answers ha
  · exact hr.balanced.append_unclosed hn.unclosed
  · simp [hr.log, hn.log]

/-- The run from `state` through the tree below `node` completes, from the visit of the node to the
departure from it, or it stops at a node of the tree and leaves open the nodes on the way there. -/
def Ends (visitor : Visitor σ) (node : Node) (state : σ) (run : Run σ) : Prop :=
  (visitor.Completes state run ∧
    ∃ inner, Balanced inner ∧ run.callbacks = .visit node :: inner ++ [.leave node]) ∨
  ∃ path opened last, node.Passes path opened last ∧ visitor.StopsAt state run opened last

/-- The runs of nodes one after the other complete, or one of them stops. -/
theorem each_ends {visitor : Visitor σ} {nodes : List Node}
    (h : ∀ node ∈ nodes, ∀ state, visitor.Ends node state (visitor.walk node state)) (state : σ) :
    visitor.Completes state (Run.each visitor.walk nodes state) ∨
    ∃ (index : Nat) (child : Node), nodes[index]? = some child ∧
      ∃ path opened last, child.Passes path opened last ∧
        visitor.StopsAt state (Run.each visitor.walk nodes state) opened last := by
  induction nodes generalizing state with
  | nil => exact .inl ⟨rfl, rfl, List.not_mem_nil, .nil, rfl⟩
  | cons node nodes ih =>
    rw [Run.each]
    obtain ⟨hc, -⟩ | ⟨path, opened, last, hp, hs⟩ := h node List.mem_cons_self state
    · obtain hr | ⟨index, child, hi, path, opened, last, hp, hs⟩ :=
        ih (fun other mem => h other (List.mem_cons_of_mem _ mem)) (visitor.walk node state).state
      · exact .inl (hc.andThen hr)
      · exact .inr ⟨index + 1, child, hi, path, opened, last, hp, hc.andThen_stopsAt hs⟩
    · refine .inr ⟨0, node, rfl, path, opened, last, hp, ?_⟩
      rw [Run.andThen_of_stop hs.verdict]
      exact hs

/-- A node around a run that completes: it is visited before the run and left after it. -/
theorem Completes.around {visitor : Visitor σ} {node : Node} {state : σ} {below : Run σ}
    (hv : (visitor.visit node state).1 ≠ .stop)
    (hb : visitor.Completes (visitor.visit node state).2 below) :
    visitor.Completes state {
      state := visitor.leave node below.state
      callbacks := .visit node :: below.callbacks ++ [.leave node]
      log := below.log } := by
  constructor
  · rfl
  · rw [List.cons_append, Visitor.replay, List.foldl_cons, List.foldl_append]
    exact congrArg (visitor.leave node) hb.replay
  · rw [List.cons_append, Visitor.answers, answers_append, Visitor.answers, Visitor.answers,
      List.append_nil, List.mem_cons]
    exact fun h => h.elim (fun h => hv h.symm) hb.answers
  · exact .enclose node hb.balanced .nil
  · exact hb.log

/-- A node around a run that stops: it is visited before the run, and stays open. -/
theorem StopsAt.around {visitor : Visitor σ} {node last : Node} {state : σ} {below : Run σ}
    {opened : List Node} (hv : (visitor.visit node state).1 ≠ .stop)
    (hb : visitor.StopsAt (visitor.visit node state).2 below opened last) :
    visitor.StopsAt state { below with callbacks := .visit node :: below.callbacks }
      (node :: opened) last := by
  obtain ⟨before, hc, hs, ha⟩ := hb.lastVisit
  constructor
  · exact hb.verdict
  · refine ⟨.visit node :: before, by rw [hc]; rfl, hs, ?_⟩
    rw [Visitor.answers, List.mem_cons]
    exact fun h => h.elim (fun h => hv h.symm) ha
  · exact .visit node .nil hb.unclosed
  · exact hb.log

theorem enclose_ends {visitor : Visitor σ} {node : Node}
    (h : ∀ child ∈ node.children, ∀ state, visitor.Ends child state (visitor.walk child state))
    (state : σ) :
    visitor.Ends node state (visitor.enclose node (Run.each visitor.walk node.children) state) := by
  cases hv : visitor.visit node state with
  | mk verdict visited =>
  cases verdict with
  | stop =>
    rw [enclose_of_stop hv]
    refine .inr ⟨[], [node], node, ⟨rfl, rfl⟩, rfl, ⟨[], rfl, hv, List.not_mem_nil⟩, ?_, rfl⟩
    exact .visit node .nil (.balanced .nil)
  | skipChildren =>
    have hs : (visitor.visit node state).1 ≠ .stop := by simp [hv]
    have hb : visitor.Completes (visitor.visit node state).2 { state := visited } :=
      ⟨rfl, by rw [hv]; rfl, List.not_mem_nil, .nil, rfl⟩
    rw [enclose_of_skipChildren hv]
    exact .inl ⟨Completes.around hs hb, [], .nil, rfl⟩
  | descend =>
    have hs : (visitor.visit node state).1 ≠ .stop := by simp [hv]
    obtain hb | ⟨index, child, hi, path, opened, last, hp, hb⟩ := each_ends h visited
    · rw [enclose_of_descend hv (by simp [hb.verdict])]
      exact .inl ⟨Completes.around hs (by rwa [hv]), _, hb.balanced, rfl⟩
    · rw [enclose_of_descend_of_stop hv hb.verdict]
      exact .inr ⟨index :: path, node :: opened, last, hp.below hi, StopsAt.around hs (by rwa [hv])⟩

theorem walk_ends (visitor : Visitor σ) (node : Node) (state : σ) :
    visitor.Ends node state (visitor.walk node state) := by
  induction node using Node.induction_on_children generalizing state with
  | step node ih =>
    rw [walk_eq_enclose]
    exact enclose_ends ih state

/-- A walk is stopped if and only if the visitor answers `stop` to one of its visits, and goes on to
its end otherwise.  A walk to the end lies between the visit of its node and the departure from it,
closes every node that it visits, and records nothing.  A walk that is stopped ends with the visit
that was answered `stop`; the nodes visited and not left are those on the way from the start to the
node of this visit; and one event tells of it. -/
theorem walk_closes_or_stops (visitor : Visitor σ) (node : Node) (state : σ) :
    let run := visitor.walk node state
    visitor.replay run.callbacks state = run.state ∧
    (run.verdict = .stop ↔ .stop ∈ visitor.answers run.callbacks state) ∧
    (run.verdict = .descend ↔ .stop ∉ visitor.answers run.callbacks state) ∧
    (run.verdict = .descend → Balanced run.callbacks ∧ run.log = [] ∧
      ∃ inner, Balanced inner ∧ run.callbacks = .visit node :: inner ++ [.leave node]) ∧
    (run.verdict = .stop → ∃ before path opened last event,
      run.callbacks = before ++ [.visit last] ∧
      visitor.visit last (visitor.replay before state) = (.stop, run.state) ∧
      .stop ∉ visitor.answers before state ∧
      node.Passes path opened last ∧ (∀ nodes, Unclosed nodes run.callbacks ↔ nodes = opened) ∧
      run.log = [event] ∧ event.ReportsStop last) := by
  intro run
  obtain ⟨hc, hi⟩ | ⟨path, opened, last, hp, hs⟩ := visitor.walk_ends node state
  · refine ⟨hc.replay, ?_, ?_, fun _ => ⟨hc.balanced, hc.log, hi⟩, fun h => ?_⟩
    · simp [run, hc.verdict, hc.answers]
    · simp [run, hc.verdict, hc.answers]
    · simp [run, hc.verdict] at h
  · refine ⟨hs.replay, ?_, ?_, fun h => ?_, fun _ => ?_⟩
    · simp [run, hs.verdict, hs.answers]
    · simp [run, hs.verdict, hs.answers]
    · simp [run, hs.verdict] at h
    · obtain ⟨before, hb, hv, ha⟩ := hs.lastVisit
      refine ⟨before, path, opened, last, _, hb, hv, ha, hp, fun nodes => ?_, hs.log,
        .walkStopped last⟩
      exact ⟨fun h => h.unique hs.unclosed, fun h => h ▸ hs.unclosed⟩

end Visitor

end SchemaStitching
