import SchemaStitching.Walk

/-! Walks follow the tree of nodes.  `walk` has a function for each kind of node, and each of these
reaches below the node in its own way.  `traverse` knows only `Node.children`: it visits a node,
traverses its children one after the other until one of them stops it, and leaves the node.  Both
make the same runs, for every visitor. -/

namespace SchemaStitching

/-- What passes from the children of a node to the node holds of every node. -/
theorem Node.induction_on_children {motive : Node → Prop}
    (step : ∀ node, (∀ child ∈ node.children, motive child) → motive node) (node : Node) :
    motive node :=
  step node fun child _ => induction_on_children step child
termination_by node.height
decreasing_by exact height_lt_of_mem_children ‹_›

namespace Run

variable {σ α β : Type}

theorem andThen_of_stop {run : Run σ} (h : run.verdict = .stop) (next : σ → Run σ) :
    run.andThen next = run :=
  if_pos h

theorem andThen_of_ne_stop {run : Run σ} (h : run.verdict ≠ .stop) (next : σ → Run σ) :
    run.andThen next = {
      next run.state with
      callbacks := run.callbacks ++ (next run.state).callbacks
      log := run.log ++ (next run.state).log } :=
  if_neg h

theorem each_map (step : β → σ → Run σ) (f : α → β) (items : List α) :
    each step (items.map f) = each (fun item => step (f item)) items := by
  induction items with
  | nil => rfl
  | cons item items ih =>
    funext state
    simp only [List.map_cons, each, ih]

end Run

namespace Visitor

variable {σ : Type}

/-- Whatever the kind of a node, a walk encloses the walks of its children. -/
theorem walk_eq_enclose (visitor : Visitor σ) (node : Node) :
    visitor.walk node = visitor.enclose node (Run.each visitor.walk node.children) := by
  cases node <;> simp only [walk, Node.children, Run.each_map] <;> rfl

section enclose

variable {visitor : Visitor σ} {node : Node} {below : σ → Run σ} {state visited : σ}

theorem enclose_of_stop (h : visitor.visit node state = (.stop, visited)) :
    visitor.enclose node below state = {
      state := visited
      callbacks := [.visit node]
      log := [.walkStopped node.kind node.name]
      verdict := .stop } := by
  rw [enclose, h]

theorem enclose_of_skipChildren (h : visitor.visit node state = (.skipChildren, visited)) :
    visitor.enclose node below state = {
      state := visitor.leave node visited
      callbacks := [.visit node, .leave node] } := by
  rw [enclose, h]
  rfl

theorem enclose_of_descend_of_stop (h : visitor.visit node state = (.descend, visited))
    (hb : (below visited).verdict = .stop) :
    visitor.enclose node below state =
      { below visited with callbacks := .visit node :: (below visited).callbacks } := by
  simp [enclose, h, Run.andThen, hb]

theorem enclose_of_descend (h : visitor.visit node state = (.descend, visited))
    (hb : (below visited).verdict ≠ .stop) :
    visitor.enclose node below state = {
      state := visitor.leave node (below visited).state
      callbacks := .visit node :: (below visited).callbacks ++ [.leave node]
      log := (below visited).log } := by
  simp [enclose, h, Run.andThen, hb, departure]

end enclose

mutual

/-- The run that visits a node, traverses its children if the visitor wants that, and leaves the
node, unless the visitor stops it before. -/
def traverse (visitor : Visitor σ) (node : Node) (state : σ) : Run σ :=
  match visitor.visit node state with
  | (.stop, state) => {
      state
      callbacks := [.visit node]
      log := [.walkStopped node.kind node.name]
      verdict := .stop }
  | (.skipChildren, state) => {
      state := visitor.leave node state
      callbacks := [.visit node, .leave node] }
  | (.descend, state) =>
    let below := visitor.traverseAll node.children.attach state
    match below.verdict with
    | .stop => { below with callbacks := .visit node :: below.callbacks }
    | _ => {
        state := visitor.leave node below.state
        callbacks := .visit node :: below.callbacks ++ [.leave node]
        log := below.log }
termination_by (node.height, node.children.length + 1)
decreasing_by decreasing_tactic

/-- The run that traverses children of a node one after the other, until one is stopped. -/
def traverseAll (visitor : Visitor σ) {node : Node}
    (children : List { child // child ∈ node.children }) (state : σ) : Run σ :=
  match children with
  | [] => { state }
  | child :: children =>
    let first := visitor.traverse child.val state
    match first.verdict with
    | .stop => first
    | _ =>
      let rest := visitor.traverseAll children first.state
      { rest with callbacks := first.callbacks ++ rest.callbacks, log := first.log ++ rest.log }
termination_by (node.height, children.length)
decreasing_by
  · exact Prod.Lex.left _ _ (Node.height_lt_of_mem_children child.property)
  · decreasing_tactic

end

theorem traverseAll_eq_each (visitor : Visitor σ) {node : Node}
    (children : List { child // child ∈ node.children })
    (h : ∀ child ∈ node.children, visitor.walk child = visitor.traverse child) :
    visitor.traverseAll children = Run.each visitor.walk (children.map Subtype.val) := by
  funext state
  induction children generalizing state with
  | nil => rw [traverseAll]; rfl
  | cons child children ih =>
    rw [traverseAll, List.map_cons, Run.each, h child.val child.property]
    dsimp only
    split
    · rename_i hs
      rw [Run.andThen_of_stop hs]
    · rename_i hs
      rw [Run.andThen_of_ne_stop hs, ih]

/-- One node at a time: a walk that encloses the walks of the children is a traversal, if the walks
of the children are. -/
theorem enclose_eq_traverse (visitor : Visitor σ) (node : Node)
    (h : ∀ child ∈ node.children, visitor.walk child = visitor.traverse child) :
    visitor.enclose node (Run.each visitor.walk node.children) = visitor.traverse node := by
  funext state
  rw [traverse, traverseAll_eq_each visitor _ h, List.attach_map_subtype_val]
  cases hv : visitor.visit node state with
  | mk verdict visited =>
  cases verdict with
  | stop => rw [enclose_of_stop hv]
  | skipChildren => rw [enclose_of_skipChildren hv]
  | descend =>
    dsimp only
    split
    · rename_i hs
      rw [enclose_of_descend_of_stop hv hs]
    · rename_i hs
      rw [enclose_of_descend hv hs]

/-- A walk is a traversal of the tree that the children of nodes form: it ends in the same state
after the same callbacks with the same events and the same verdict, from a node of any kind and by
the walk of its kind. -/
theorem walk_eq_traverse (visitor : Visitor σ) :
    (∀ node, visitor.walk node = visitor.traverse node) ∧
    (∀ document, visitor.walkDocument document = visitor.traverse (.document document)) ∧
    (∀ service, visitor.walkService service = visitor.traverse (.service service)) ∧
    (∀ type, visitor.walkObjectType type = visitor.traverse (.objectType type)) ∧
    (∀ field, visitor.walkField field = visitor.traverse (.field field)) ∧
    ∀ transformation, visitor.walkTransformation transformation =
      visitor.traverse (.transformation transformation) := by
  have h (node : Node) : visitor.walk node = visitor.traverse node := by
    induction node using Node.induction_on_children with
    | step node ih => rw [walk_eq_enclose, enclose_eq_traverse visitor node ih]
  exact ⟨h, fun d => h (.document d), fun s => h (.service s), fun t => h (.objectType t),
    fun f => h (.field f), fun x => h (.transformation x)⟩

end Visitor

end SchemaStitching
