import Mathlib.Data.List.Perm.Basic
import Mathlib.Data.List.Sort
import SchemaStitching.Format.Reading
import SchemaStitching.Format.Types

/-! The sites of a JSON value and the leaves of what is read from it: the places where a path, a
batch size or the bounds of a span stand.  Paths and batch sizes have to keep a rule, and bounds may
be any.  A scan lists the sites of a JSON value without reading anything, in two orders: that of the
declaration of members, in which the leaves of values are listed as well, and that in which reading
comes to the sites.  Reading takes the members of an object in the order of their names, and the
batch size of a hydration after everything else that the hydration holds. -/

namespace SchemaStitching

/-- A path, a batch size or the bounds of a span, as they are given. -/
inductive Site where
  | path (segments : List String)
  /-- How many objects are to share a call of the field of the service. -/
  | batch (service field : String) (count : Nat)
  | bounds (start stop : Int)
  deriving DecidableEq

namespace Site

/-- Whether a path has segments, none of which is empty or holds a dot, and a batch size is not
zero.  Nothing is asked of bounds. -/
def Lawful : Site → Prop
  | path segments => segments ≠ [] ∧ ∀ segment ∈ segments, segment ≠ "" ∧ '.' ∉ segment.toList
  | batch _ _ count => count ≠ 0
  | bounds _ _ => True

instance : DecidablePred Lawful
  | path segments => inferInstanceAs (Decidable (segments ≠ [] ∧ ∀ segment ∈ segments, _ ∧ _))
  | batch _ _ count => inferInstanceAs (Decidable (count ≠ 0))
  | bounds _ _ => inferInstanceAs (Decidable True)

/-- What is wrong with a site by itself. -/
def fault? : Site → Option Fault
  | path segments =>
    match Path.ofSegments segments with
    | .ok _ => none
    | .error fault => some fault
  | batch service field count => if count = 0 then some (.zeroBatchSize service field) else none
  | bounds _ _ => none

def bounds? : Site → Option (Int × Int)
  | bounds start stop => some (start, stop)
  | path _ | batch .. => none

end Site

/-- A member of a record, found by its name in an object and by its place in an array. -/
def Json.part? (name : String) (place : Nat) : Json → Option Json
  | .object given => member? given name
  | .array items => items[place]?
  | _ => none

def Json.text? : Json → Option String
  | .string s => some s
  | _ => none

/-- A way to find the sites of JSON values, which lists the same sites in two orders. -/
@[ext]
structure Scan where
  /-- The sites in the order in which reading comes to them. -/
  reading : Json → List Site
  /-- The sites in the order in which the members of records are declared. -/
  declaration : Json → List Site
  perm : ∀ j, (reading j).Perm (declaration j)

namespace Scan

/-- Sites that are found in one order only. -/
def leaf (sites : Json → List Site) : Scan := ⟨sites, sites, fun _ => .refl _⟩

def nothing : Scan := .leaf fun _ => []

/-- A path, given as a list of its segments. -/
def path : Scan := .leaf fun
  | .array items => [.path (items.filterMap Json.text?)]
  | _ => []

instance : Append Scan where
  append first rest := {
    reading j := first.reading j ++ rest.reading j
    declaration j := first.declaration j ++ rest.declaration j
    perm j := (first.perm j).append (rest.perm j) }

def itemSites (item : Json → List Site) : Json → List Site
  | .array items => items.flatMap item
  | _ => []

def list (item : Scan) : Scan where
  reading := itemSites item.reading
  declaration := itemSites item.declaration
  perm j := by
    cases j with
    | array items => exact .flatMap_left items fun j _ => item.perm j
    | null | bool | int | decimal | string | object => exact .refl []

def partSites (name : String) (place : Nat) (sites : Json → List Site) (j : Json) : List Site :=
  ((j.part? name place).map sites).getD []

def part (name : String) (place : Nat) (scan : Scan) : Scan where
  reading := partSites name place scan.reading
  declaration := partSites name place scan.declaration
  perm j := by
    unfold partSites
    cases j.part? name place with
    | none => exact .refl []
    | some part => exact scan.perm part

/-- The members of a record from the given place on, each with its sites in one of the orders. -/
def memberSites (order : Scan → Json → List Site) (j : Json) :
    List (String × Scan) → Nat → List (String × List Site)
  | [], _ => []
  | (name, scan) :: rest, place =>
    (name, partSites name place (order scan) j) :: memberSites order j rest (place + 1)

theorem perm_memberSites (j : Json) (members : List (String × Scan)) (place : Nat) :
    ((memberSites reading j members place).flatMap Prod.snd).Perm
      ((memberSites declaration j members place).flatMap Prod.snd) := by
  induction members generalizing place with
  | nil => exact .refl []
  | cons member members ih => exact ((part member.1 place member.2).perm j).append (ih (place + 1))

/-- The order of members by their names. -/
def ByName {α : Type} (a b : String × α) : Prop := a.1 ≤ b.1

instance {α : Type} : DecidableRel (ByName (α := α)) :=
  fun a b => inferInstanceAs (Decidable (a.1 ≤ b.1))

/-- A record with the given members, in the order of their declaration. -/
def record (members : List (String × Scan)) : Scan where
  reading
    | .object given =>
      ((memberSites reading (.object given) members 0).insertionSort ByName).flatMap Prod.snd
    | j => (memberSites reading j members 0).flatMap Prod.snd
  declaration j := (memberSites declaration j members 0).flatMap Prod.snd
  perm j := by
    cases j with
    | object given =>
      exact ((List.perm_insertionSort ByName _).flatMap_right Prod.snd).trans (perm_memberSites ..)
    | null | bool | int | decimal | string | array => exact perm_memberSites ..

/-- The sites of the content of a union.  The tag says where they are to be looked for. -/
def contentSites (left : String) (leftContent : Json → List Site) (right : String)
    (rightContent : Json → List Site) (j : Json) : List Site :=
  match (j.part? Format.tagName 0).bind (Json.name? .lenient), j.part? Format.contentName 1 with
  | some tag, some content =>
    if tag = left then leftContent content
    else if tag = right then rightContent content
    else []
  | _, _ => []

def union (left : String) (leftContent : Scan) (right : String) (rightContent : Scan) : Scan where
  reading := contentSites left leftContent.reading right rightContent.reading
  declaration := contentSites left leftContent.declaration right rightContent.declaration
  perm j := by
    unfold contentSites
    split
    · rename_i content _ _
      split
      · exact leftContent.perm content
      split
      · exact rightContent.perm content
      · exact .refl []
    · exact .refl []

end Scan

/-! ### The types that have a JSON form -/

def Span.boundsSites (j : Json) : List Site :=
  match j.part? "start" 0, j.part? "end" 1 with
  | some (.int start), some (.int stop) => [.bounds start stop]
  | _, _ => []

def Span.scan : Scan := .leaf boundsSites

def Location.scan : Scan :=
  .record [("line", .nothing), ("column", .nothing), ("source_name", .nothing), ("span", Span.scan)]

def Comment.scan : Scan := .record [("content", .nothing), ("location", Location.scan)]

def Provenance.scan : Scan :=
  .record [("location", Location.scan), ("comments", .list Comment.scan)]

def Mapping.scan : Scan := .part "input_path" 0 .path

def Source.scan : Scan := .part "path" 1 .path

def Argument.scan : Scan := .record [("name", .nothing), ("source", Source.scan)]

def Hydration.batchSites (j : Json) : List Site :=
  match j.part? "service_name" 0, j.part? "top_level_field" 1, j.part? "batch_size" 4 with
  | some (.string service), some (.string field), some (.int count) =>
    [.batch service field count.toNat]
  | _, _, _ => []

/-- The batch size is checked when all arguments have been read. -/
def Hydration.scan : Scan :=
  .record [("service_name", .nothing), ("top_level_field", .nothing),
    ("arguments", .list Argument.scan), ("object_identifier", .nothing),
    ("batch_size", .nothing)] ++ .leaf batchSites

def Payload.scan : Scan := .union "mapping" Mapping.scan "hydration" Hydration.scan

def Transformation.scan : Scan :=
  .record [("transformation", Payload.scan), ("metadata", Provenance.scan)]

def Field.scan : Scan :=
  .record [("name", .nothing), ("type_ref", .nothing), ("transformation", Transformation.scan),
    ("metadata", Provenance.scan)]

def ObjectType.scan : Scan :=
  .record [("name", .nothing), ("fields", .list Field.scan), ("metadata", Provenance.scan)]

def Service.scan : Scan :=
  .record [("name", .nothing), ("types", .list ObjectType.scan), ("metadata", Provenance.scan)]

def Document.scan : Scan :=
  .record [("services", .list Service.scan), ("metadata", Provenance.scan)]

def TransformedField.scan : Scan :=
  .record [("service", .nothing), ("type_name", .nothing), ("field", .nothing),
    ("kind", .nothing), ("target", .nothing), ("location", Location.scan)]

def JsonType.scan : JsonType → Scan
  | span => Span.scan
  | location => Location.scan
  | comment => Comment.scan
  | provenance => Provenance.scan
  | mapping => Mapping.scan
  | source => Source.scan
  | argument => Argument.scan
  | hydration => Hydration.scan
  | payload => Payload.scan
  | transformation => Transformation.scan
  | field => Field.scan
  | objectType => ObjectType.scan
  | service => Service.scan
  | document => Document.scan
  | transformedField => TransformedField.scan
  | origin | transformationKind => .nothing

/-! ### The leaves of values -/

/-- A path, a batch size or a span in a value. -/
inductive Leaf where
  | path (path : Path)
  | batch (service field : String) (size : BatchSize)
  | span (span : Span)

namespace Leaf

/-- The leaf as it is given. -/
def site : Leaf → Site
  | path p => .path p.segments
  | batch service field size => .batch service field size.count.toNat
  | span s => .bounds s.start.toNat s.stop.toNat

def span? : Leaf → Option Span
  | span s => some s
  | path _ | batch .. => none

end Leaf

def Location.leaves (location : Location) : List Leaf := location.span.toList.map .span

def Comment.leaves (comment : Comment) : List Leaf := comment.location.leaves

def Provenance.leaves (provenance : Provenance) : List Leaf :=
  provenance.location.leaves ++ provenance.comments.flatMap Comment.leaves

def Mapping.leaves (mapping : Mapping) : List Leaf := [.path mapping.path]

def Source.leaves (source : Source) : List Leaf := [.path source.path]

def Argument.leaves (argument : Argument) : List Leaf := argument.source.leaves

def Hydration.batchLeaves (hydration : Hydration) : List Leaf :=
  hydration.batchSize.toList.map (.batch hydration.service hydration.field)

def Hydration.leaves (hydration : Hydration) : List Leaf :=
  hydration.arguments.flatMap Argument.leaves ++ hydration.batchLeaves

def Payload.leaves : Payload → List Leaf
  | .mapping definition => definition.leaves
  | .hydration definition => definition.leaves

def Transformation.leaves (transformation : Transformation) : List Leaf :=
  transformation.payload.leaves ++ transformation.provenance.leaves

def Field.leaves (field : Field) : List Leaf :=
  field.transformation.toList.flatMap Transformation.leaves ++ field.provenance.leaves

def ObjectType.leaves (type : ObjectType) : List Leaf :=
  type.fields.flatMap Field.leaves ++ type.provenance.leaves

def Service.leaves (service : Service) : List Leaf :=
  service.types.flatMap ObjectType.leaves ++ service.provenance.leaves

def Document.leaves (document : Document) : List Leaf :=
  document.services.flatMap Service.leaves ++ document.provenance.leaves

def TransformedField.leaves (found : TransformedField) : List Leaf := found.location.leaves

namespace JsonType

/-- The paths, batch sizes and spans in a value, at any depth. -/
def leaves : (t : JsonType) → t.Value → List Leaf
  | span, (s : Span) => [.span s]
  | location, (l : Location) => l.leaves
  | comment, (c : Comment) => c.leaves
  | provenance, (p : Provenance) => p.leaves
  | mapping, (m : Mapping) => m.leaves
  | source, (s : Source) => s.leaves
  | argument, (a : Argument) => a.leaves
  | hydration, (h : Hydration) => h.leaves
  | payload, (p : Payload) => p.leaves
  | transformation, (x : Transformation) => x.leaves
  | field, (f : Field) => f.leaves
  | objectType, (o : ObjectType) => o.leaves
  | service, (s : Service) => s.leaves
  | document, (d : Document) => d.leaves
  | transformedField, (f : TransformedField) => f.leaves
  | origin, _ | transformationKind, _ => []

/-- The paths, batch sizes and bounds in a value, at any depth. -/
def sites (t : JsonType) (v : t.Value) : List Site := (t.leaves v).map Leaf.site

/-- The spans in a value, at any depth. -/
def spans (t : JsonType) (v : t.Value) : List Span := (t.leaves v).filterMap Leaf.span?

/-- The bounds of spans in a JSON value that is read as a value of the type. -/
def boundsIn (t : JsonType) (j : Json) : List (Int × Int) :=
  (t.scan.declaration j).filterMap Site.bounds?

end JsonType

/-! ### Lawful sites -/

theorem Path.segments_of_ofSegments {segments : List String} {path : Path}
    (h : ofSegments segments = .ok path) : path.segments = segments := by
  unfold ofSegments at h
  split at h
  · contradiction
  split at h
  · contradiction
  split at h
  · contradiction
  · rw [← Except.ok.inj h]

theorem Path.lawful (path : Path) : (Site.path path.segments).Lawful :=
  ⟨path.segments_ne_nil, path.isSegment_of_mem⟩

/-- A site by itself is faultless exactly if it keeps its rule. -/
theorem Site.fault?_eq_none_iff {site : Site} : site.fault? = none ↔ site.Lawful := by
  cases site with
  | path segments =>
    constructor
    · intro h
      rw [fault?] at h
      split at h
      · rename_i path hp
        exact Path.segments_of_ofSegments hp ▸ path.lawful
      · contradiction
    · intro h
      have hp : Path.ofSegments segments = .ok ⟨segments, h.1, h.2⟩ :=
        Path.ofSegments_segments ⟨segments, h.1, h.2⟩
      rw [fault?, hp]
  | batch service field count => simp [fault?, Lawful]
  | bounds start stop => exact iff_of_true rfl trivial

end SchemaStitching
