import Mathlib.Algebra.BigOperators.Group.List.Basic
import Mathlib.Data.Set.Card
import SchemaStitching.Proofs.Pruning
import SchemaStitching.Proofs.Surveys

/-! The places where callbacks happen.  A path of child indices tells a node from others with the
same content.  The itinerary of a node lists the callbacks of a walk that descends everywhere, each
with the path to its node.  It visits every path that leads to a node, in lexicographic order, and
leaves each path when it is done with all that extend it, so that there are as many visits,
departures and paths as nodes. -/

namespace SchemaStitching

section lists

variable {α β : Type}

theorem map_zipIdx (f : α → β) (items : List α) :
    (items.zipIdx.map fun item => f item.1) = items.map f := by
  conv_rhs => rw [← List.zipIdx_map_fst 0 items, List.map_map]
  rfl

/-- Where indices do not matter, items may be gone through without them. -/
theorem flatMap_zipIdx (f : α → List β) (items : List α) :
    (items.zipIdx.flatMap fun item => f item.1) = items.flatMap f := by
  rw [List.flatMap_def, map_zipIdx, List.flatMap_def]

theorem zipIdx_pairwise_lt (items : List α) : items.zipIdx.Pairwise fun a b => a.2 < b.2 := by
  rw [← List.pairwise_map (f := Prod.snd) (R := (· < ·)), List.zipIdx_map_snd]
  exact List.pairwise_lt_range'

theorem sum_map_one_add (items : List α) (f : α → Nat) :
    (items.map fun item => 1 + f item).sum = items.length + (items.map f).sum := by
  simp [List.sum_map_add]

end lists

namespace Callback

/-- The node of a callback. -/
def node : Callback → Node
  | visit node | leave node => node

def isVisit : Callback → Bool
  | visit _ => true
  | leave _ => false

end Callback

/-- A callback and the path of child indices to its node. -/
structure Turn where
  path : List Nat
  callback : Callback

namespace Turn

/-- The turn as it is seen from the parent of the node where its path starts, of which that node is
the child of the given index. -/
def below (index : Nat) (turn : Turn) : Turn :=
  { turn with path := index :: turn.path }

/-- The paths that are visited, in order. -/
def visits (turns : List Turn) : List (List Nat) :=
  (turns.filter fun turn => turn.callback.isVisit).map path

/-- The paths that are left, in order. -/
def departures (turns : List Turn) : List (List Nat) :=
  (turns.filter fun turn => !turn.callback.isVisit).map path

end Turn

namespace Node

/-- The turns of a walk that descends everywhere. -/
def itinerary (node : Node) : List Turn :=
  ⟨[], .visit node⟩ :: node.children.attach.zipIdx.flatMap (fun child =>
    (itinerary child.1.val).map (Turn.below child.2)) ++ [⟨[], .leave node⟩]
termination_by node.height
decreasing_by exact height_lt_of_mem_children child.1.property

theorem itinerary_eq (node : Node) : node.itinerary =
    ⟨[], .visit node⟩ :: node.children.zipIdx.flatMap (fun child =>
      child.1.itinerary.map (Turn.below child.2)) ++ [⟨[], .leave node⟩] := by
  have hc : node.children.zipIdx = node.children.attach.zipIdx.map (Prod.map Subtype.val id) := by
    rw [← List.zipIdx_map, List.attach_map_subtype_val]
  rw [itinerary, hc, List.flatMap_map]
  rfl

theorem visits_itinerary (node : Node) : Turn.visits node.itinerary =
    [] :: node.children.zipIdx.flatMap fun child =>
      (Turn.visits child.1.itinerary).map (child.2 :: ·) := by
  rw [itinerary_eq]
  simp [Turn.visits, Callback.isVisit, List.filter_flatMap, List.map_flatMap, List.filter_map,
    Function.comp_def, Turn.below]

theorem departures_itinerary (node : Node) : Turn.departures node.itinerary =
    node.children.zipIdx.flatMap (fun child =>
      (Turn.departures child.1.itinerary).map (child.2 :: ·)) ++ [[]] := by
  rw [itinerary_eq]
  simp [Turn.departures, Callback.isVisit, List.filter_flatMap, List.map_flatMap, List.filter_map,
    Function.comp_def, Turn.below]

theorem itinerary_map_callback (node : Node) : node.itinerary.map Turn.callback = node.tour := by
  induction node using induction_on_children with
  | step node ih =>
    have hb (child : Node × Nat) : (child.1.itinerary.map (Turn.below child.2)).map Turn.callback =
        child.1.itinerary.map Turn.callback := by
      simp [Function.comp_def, Turn.below]
    have hc : (node.children.flatMap fun child => child.itinerary.map Turn.callback) =
        node.children.flatMap tour :=
      List.flatMap_congr ih
    rw [itinerary_eq, tour_eq, List.map_append, List.map_cons, List.map_flatMap, ← hc]
    simp only [hb]
    rw [flatMap_zipIdx fun child : Node => child.itinerary.map Turn.callback]
    rfl

/-- Every turn is at the end of its path. -/
theorem descend?_of_mem_itinerary {node : Node} {turn : Turn} (h : turn ∈ node.itinerary) :
    node.descend? turn.path = some turn.callback.node := by
  induction node using induction_on_children generalizing turn with
  | step node ih =>
    rw [itinerary_eq] at h
    simp only [List.mem_append, List.mem_cons, List.mem_flatMap, List.mem_map, List.not_mem_nil,
      or_false] at h
    rcases h with (rfl | ⟨⟨child, index⟩, hc, below, hb, rfl⟩) | rfl
    · rfl
    · rw [List.mem_zipIdx_iff_getElem?] at hc
      have hd := ih child (List.mem_of_getElem? hc) hb
      simpa [Turn.below, descend?, hc] using hd
    · rfl

/-- The paths that are visited are those that lead to a node. -/
theorem mem_visits_itinerary_iff {node : Node} {path : List Nat} :
    path ∈ Turn.visits node.itinerary ↔ (node.descend? path).isSome := by
  induction path generalizing node with
  | nil =>
    rw [visits_itinerary]
    simp [descend?]
  | cons index path ih =>
    rw [visits_itinerary]
    cases hc : node.children[index]? with
    | none => simp [descend?, hc, List.mem_zipIdx_iff_getElem?]
    | some child => simp [descend?, hc, List.mem_zipIdx_iff_getElem?, ih]

theorem visits_pairwise_lt (node : Node) : (Turn.visits node.itinerary).Pairwise (· < ·) := by
  induction node using induction_on_children with
  | step node ih =>
    rw [visits_itinerary, List.pairwise_cons, List.pairwise_flatMap]
    refine ⟨fun path hp => ?_, fun ⟨child, index⟩ hc => ?_,
      (zipIdx_pairwise_lt node.children).imp fun hlt path hp path' hp' => ?_⟩
    · obtain ⟨child, -, hp⟩ := List.mem_flatMap.mp hp
      obtain ⟨rest, -, rfl⟩ := List.mem_map.mp hp
      exact List.nil_lt_cons _ _
    · rw [List.mem_zipIdx_iff_getElem?] at hc
      rw [List.pairwise_map]
      exact (ih child (List.mem_of_getElem? hc)).imp fun h =>
        List.cons_lt_cons_iff.mpr (.inr ⟨rfl, h⟩)
    · obtain ⟨rest, -, rfl⟩ := List.mem_map.mp hp
      obtain ⟨rest', -, rfl⟩ := List.mem_map.mp hp'
      exact List.cons_lt_cons_iff.mpr (.inl hlt)

theorem departures_perm_visits (node : Node) :
    (Turn.departures node.itinerary).Perm (Turn.visits node.itinerary) := by
  induction node using induction_on_children with
  | step node ih =>
    rw [departures_itinerary, visits_itinerary]
    refine (List.perm_append_singleton _ _).trans (.cons _ (.flatMap (.refl _) fun child hc => ?_))
    rw [List.mem_zipIdx_iff_getElem?] at hc
    exact (ih child.1 (List.mem_of_getElem? hc)).map _

/-- After a path has been left, there is no turn at it or at a path that extends it. -/
theorem itinerary_pairwise (node : Node) : node.itinerary.Pairwise fun earlier later =>
    earlier.callback.isVisit = false → ¬earlier.path <+: later.path := by
  induction node using induction_on_children with
  | step node ih =>
    rw [itinerary_eq, List.pairwise_append, List.pairwise_cons, List.pairwise_flatMap]
    refine ⟨⟨fun later _ hv => ?_, fun ⟨child, index⟩ hc => ?_,
      (zipIdx_pairwise_lt node.children).imp fun hlt earlier he later hl _ => ?_⟩,
      List.pairwise_singleton _ _, fun earlier he later hl hv => ?_⟩
    · contradiction
    -- Two turns below the same child.
    · rw [List.mem_zipIdx_iff_getElem?] at hc
      rw [List.pairwise_map]
      refine (ih child (List.mem_of_getElem? hc)).imp fun h hv => ?_
      simpa [Turn.below] using h hv
    -- Turns below different children.
    · obtain ⟨earlier, -, rfl⟩ := List.mem_map.mp he
      obtain ⟨later, -, rfl⟩ := List.mem_map.mp hl
      simp [Turn.below, hlt.ne]
    -- The empty path, which is left last, extends no other.
    · rw [List.mem_singleton.mp hl]
      simp only [List.mem_cons, List.mem_flatMap, List.mem_map] at he
      rcases he with rfl | ⟨child, -, earlier, -, rfl⟩
      · contradiction
      · simp [Turn.below]

/-! ### Numbers of nodes -/

theorem size_eq_sum (node : Node) : node.size = 1 + (node.children.map size).sum := by
  have hf (nodes : List Node) :
      nodes.foldr (fun child total => child.size + total) 1 = 1 + (nodes.map size).sum := by
    induction nodes with
    | nil => rfl
    | cons child nodes ih =>
      rw [List.foldr_cons, ih, List.map_cons, List.sum_cons, Nat.add_left_comm]
  rw [size_eq, hf]

theorem length_visits (node : Node) : (Turn.visits node.itinerary).length = node.size := by
  induction node using induction_on_children with
  | step node ih =>
    have hc : node.children.zipIdx.map (fun child => (Turn.visits child.1.itinerary).length) =
        node.children.map size := by
      rw [map_zipIdx fun child : Node => (Turn.visits child.itinerary).length]
      exact List.map_congr_left ih
    rw [visits_itinerary, size_eq_sum, List.length_cons, List.length_flatMap, Nat.add_comm]
    simp only [List.length_map, hc]

/-- There are as many paths that lead to a node as there are nodes. -/
theorem ncard_descend?_isSome (node : Node) :
    {path | (node.descend? path).isSome}.ncard = node.size := by
  have hs : {path | (node.descend? path).isSome} =
      ((Turn.visits node.itinerary).toFinset : Set (List Nat)) := by
    ext path
    simp [mem_visits_itinerary_iff]
  have hn : (Turn.visits node.itinerary).Nodup := node.visits_pairwise_lt.nodup
  rw [hs, Set.ncard_coe_finset, List.toFinset_card_of_nodup hn, length_visits]

theorem size_field (field : Field) :
    (Node.field field).size = 1 + field.transformation.toList.length := by
  have hx (x : Transformation) : (Node.transformation x).size = 1 := by
    rw [size_eq]
    rfl
  cases ht : field.transformation <;> simp [size_eq_sum (.field field), children, ht, hx]

theorem size_objectType (type : ObjectType) : (Node.objectType type).size =
    1 + type.fields.length + (type.fields.filterMap Field.transformation).length := by
  have hs : size ∘ field = fun field => 1 + field.transformation.toList.length := funext size_field
  rw [size_eq_sum, children, List.map_map, hs, sum_map_one_add, List.filterMap_eq_flatMap_toList,
    List.length_flatMap, Nat.add_assoc]

theorem size_service (service : Service) : (Node.service service).size =
    1 + service.types.length + (service.types.flatMap ObjectType.fields).length +
      ((service.types.flatMap ObjectType.fields).filterMap Field.transformation).length := by
  have hs : size ∘ objectType = fun type => 1 + (type.fields.length +
      (type.fields.filterMap Field.transformation).length) :=
    funext fun type => (size_objectType type).trans (Nat.add_assoc ..)
  rw [size_eq_sum, children, List.map_map, hs, sum_map_one_add, List.sum_map_add,
    List.filterMap_flatMap, List.length_flatMap, List.length_flatMap]
  omega

theorem size_document (document : Document) :
    let types := document.services.flatMap Service.types
    let fields := types.flatMap ObjectType.fields
    (Node.document document).size = 1 + document.services.length + types.length + fields.length +
      document.transformations.length := by
  intro types fields
  have hs : size ∘ service = fun service => 1 + (service.types.length +
      (service.types.flatMap ObjectType.fields).length +
      ((service.types.flatMap ObjectType.fields).filterMap Field.transformation).length) :=
    funext fun service => (size_service service).trans (by omega)
  rw [size_eq_sum, children, List.map_map, hs, sum_map_one_add, List.sum_map_add, List.sum_map_add,
    Document.transformations]
  simp only [types, fields, List.length_flatMap, List.filterMap_flatMap, List.flatMap_assoc]
  omega

end Node

namespace Visitor

variable {σ : Type}

/-- A walk that descends everywhere makes the callbacks of the itinerary of its node, each at the
node to which its path leads.  It visits each path that leads to a node once, in lexicographic
order, and leaves each once, after all that happens at the paths that extend it.  The number of its
visits, that of its departures and that of the paths are all the size of the node.  That of a
document counts the document, its services, their types, the fields of these, and the
transformations of the document. -/
theorem walk_visits_each_path {visitor : Visitor σ}
    (hv : ∀ node state, (visitor.visit node state).1 = .descend) (node : Node) (state : σ) :
    let run := visitor.walk node state
    let turns := node.itinerary
    run.callbacks = turns.map Turn.callback ∧
    (∀ turn ∈ turns, node.descend? turn.path = some turn.callback.node) ∧
    (∀ path, path ∈ Turn.visits turns ↔ (node.descend? path).isSome) ∧
    (Turn.visits turns).Pairwise (· < ·) ∧
    (Turn.departures turns).Perm (Turn.visits turns) ∧
    (turns.Pairwise fun earlier later =>
      earlier.callback.isVisit = false → ¬earlier.path <+: later.path) ∧
    run.callbacks.countP (fun callback => callback.isVisit) = node.size ∧
    run.callbacks.countP (fun callback => !callback.isVisit) = node.size ∧
    {path | (node.descend? path).isSome}.ncard = node.size ∧
    ∀ document, node = .document document →
      node.size = 1 + document.services.length +
        (document.services.flatMap Service.types).length +
        ((document.services.flatMap Service.types).flatMap ObjectType.fields).length +
        document.transformations.length := by
  intro run turns
  have hc : run.callbacks = turns.map Turn.callback := by
    rw [Node.itinerary_map_callback]
    exact walk_callbacks_eq_tour hv node state
  have hd : (Turn.departures turns).length = node.size :=
    node.departures_perm_visits.length_eq.trans node.length_visits
  refine ⟨hc, fun turn => Node.descend?_of_mem_itinerary, fun path => Node.mem_visits_itinerary_iff,
    node.visits_pairwise_lt, node.departures_perm_visits, node.itinerary_pairwise, ?_, ?_,
    node.ncard_descend?_isSome, ?_⟩
  · rw [hc, List.countP_map, List.countP_eq_length_filter, ← node.length_visits, Turn.visits,
      List.length_map]
    rfl
  · rw [hc, List.countP_map, List.countP_eq_length_filter, ← hd, Turn.departures, List.length_map]
    rfl
  · rintro document rfl
    exact Node.size_document document

/-- A document in which the same service stands twice, so that only paths tell its nodes apart. -/
theorem walk_visits_each_path_twins :
    let mapping : Mapping := ⟨⟨["key"], by decide, by decide⟩⟩
    let plain : Field := { name := "id", typeRef := "ID" }
    let mapped : Field := { plain with transformation := some ⟨.mapping mapping, default⟩ }
    let service : Service :=
      { name := "S", types := [{ name := "T", fields := [plain, mapped] }] }
    let document : Document := { services := [service, service] }
    let visitor : Visitor Nat := .uniform (fun _ count => (.descend, count + 1)) fun _ => id
    let run := visitor.walk (.document document) 0
    let turns := (Node.document document).itinerary
    (∀ node state, (visitor.visit node state).1 = .descend) ∧
    run.callbacks.countP (fun callback => callback.isVisit) = 11 ∧
    run.callbacks.countP (fun callback => !callback.isVisit) = 11 ∧
    {path | ((Node.document document).descend? path).isSome}.ncard = 11 ∧
    [1, 0, 1, 0] ∈ Turn.visits turns ∧ [1, 0, 0, 0] ∉ Turn.visits turns := by
  intro mapping plain mapped service document visitor run turns
  have hv (node : Node) (state : Nat) : (visitor.visit node state).1 = .descend := by
    cases node <;> rfl
  obtain ⟨-, -, hpaths, -, -, -, hvisits, hdepartures, hnumber, hsize⟩ :=
    walk_visits_each_path hv (.document document) 0
  have hs : (Node.document document).size = 11 := hsize document rfl
  rw [hs] at hvisits hdepartures hnumber
  exact ⟨hv, hvisits, hdepartures, hnumber, (hpaths _).mpr rfl, mt (hpaths _).mp (by decide)⟩

end Visitor

end SchemaStitching
