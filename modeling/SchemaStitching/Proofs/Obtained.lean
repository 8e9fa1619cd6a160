import SchemaStitching.Proofs.FirstFault
import SchemaStitching.Proofs.LocationTexts

/-! The values that the library gives out.  A value is obtained by calls of the functions that build
values, by taking other values apart, and by reading JSON, in any order and any number, with some
spans to start from.  `Obtained` keeps account of all paths and batch sizes that the calls were
given on the way, and of the bounds that were read.  All paths and batch sizes among these turn out
to be lawful, whether the value still has them or not, and the value has no others: no call lets an
unlawful one pass, and none mends one.  The spans in the value are those to start from, or have
bounds that were read. -/

namespace SchemaStitching

/-! ### The parts of values -/

/-- Whether the second value is a part of the first. -/
inductive JsonType.Part : {t u : JsonType} → t.Value → u.Value → Prop where
  | span {location : Location} {s : Span} (h : location.span = some s) :
    Part (t := .location) (u := .span) location s
  | commentLocation (comment : Comment) :
    Part (t := .comment) (u := .location) comment comment.location
  | provenanceLocation (provenance : Provenance) :
    Part (t := .provenance) (u := .location) provenance provenance.location
  | comment {provenance : Provenance} {c : Comment} (h : c ∈ provenance.comments) :
    Part (t := .provenance) (u := .comment) provenance c
  | argumentSource (argument : Argument) :
    Part (t := .argument) (u := .source) argument argument.source
  | argument {hydration : Hydration} {a : Argument} (h : a ∈ hydration.arguments) :
    Part (t := .hydration) (u := .argument) hydration a
  | mapping (m : Mapping) : Part (t := .payload) (u := .mapping) (Payload.mapping m) m
  | hydration (h : Hydration) : Part (t := .payload) (u := .hydration) (Payload.hydration h) h
  | payload (x : Transformation) : Part (t := .transformation) (u := .payload) x x.payload
  | transformationProvenance (x : Transformation) :
    Part (t := .transformation) (u := .provenance) x x.provenance
  | transformation {field : Field} {x : Transformation} (h : field.transformation = some x) :
    Part (t := .field) (u := .transformation) field x
  | fieldProvenance (field : Field) : Part (t := .field) (u := .provenance) field field.provenance
  | field {type : ObjectType} {f : Field} (h : f ∈ type.fields) :
    Part (t := .objectType) (u := .field) type f
  | objectTypeProvenance (type : ObjectType) :
    Part (t := .objectType) (u := .provenance) type type.provenance
  | objectType {service : Service} {o : ObjectType} (h : o ∈ service.types) :
    Part (t := .service) (u := .objectType) service o
  | serviceProvenance (service : Service) :
    Part (t := .service) (u := .provenance) service service.provenance
  | service {document : Document} {s : Service} (h : s ∈ document.services) :
    Part (t := .document) (u := .service) document s
  | documentProvenance (document : Document) :
    Part (t := .document) (u := .provenance) document document.provenance
  | foundLocation (found : TransformedField) :
    Part (t := .transformedField) (u := .location) found found.location

theorem JsonType.Part.leaves_subset {t u : JsonType} {v : t.Value} {w : u.Value} (h : Part v w) :
    u.leaves w ⊆ t.leaves v := by
  have list {α : Type} {leaves : α → List Leaf} {as : List α} {a : α} (ha : a ∈ as) :
      leaves a ⊆ as.flatMap leaves :=
    fun _ hl => List.mem_flatMap_of_mem ha hl
  cases h with
  | span h =>
    intro leaf hl
    rw [List.mem_singleton.mp hl]
    exact List.mem_map_of_mem (Option.mem_toList.mpr h)
  | commentLocation | argumentSource | mapping | hydration | foundLocation =>
    exact List.Subset.refl _
  | provenanceLocation | payload => exact List.subset_append_left ..
  | transformationProvenance | fieldProvenance | objectTypeProvenance | serviceProvenance
  | documentProvenance => exact List.subset_append_right ..
  | comment h => exact List.subset_append_of_subset_right _ (list h)
  | transformation h =>
    exact List.subset_append_of_subset_left _ (list (Option.mem_toList.mpr h))
  | argument h | field h | objectType h | service h =>
    exact List.subset_append_of_subset_left _ (list h)

/-! ### Obtaining values -/

/-- The segments of the path that a text denotes. -/
def Site.ofText (text : String) : Site :=
  .path ((text.toList.splitOn '.').map String.ofList)

/-- Whether a value of a type is obtained from the initial spans by calls that are given the
sites. -/
inductive Obtained (initial : Span → Prop) : (t : JsonType) → List Site → t.Value → Prop where
  | read {t : JsonType} {j : Json} {v : t.Value} (h : t.format.read j = .ok v) :
    Obtained initial t (t.scan.reading j) v
  | part {t u : JsonType} {given : List Site} {v : t.Value} {w : u.Value}
    (h : Obtained initial t given v) (hw : t.Part v w) : Obtained initial u given w
  | span {span : Span} (h : initial span) : Obtained initial .span [] span
  | position (line column : UInt32) :
    Obtained initial .location [] ({ line, column } : Location)
  | locationParse {text : String} {location : Location}
    (h : Location.parse? text = some location) : Obtained initial .location [] location
  | inSource (name : String) {given : List Site} {location : Location}
    (h : Obtained initial .location given location) :
    Obtained initial .location given (location.inSource name)
  | covering {given more : List Site} {location : Location} {span : Span}
    (h : Obtained initial .location given location) (hs : Obtained initial .span more span) :
    Obtained initial .location (given ++ more) (location.covering span)
  | comment (content : String) {given : List Site} {location : Location}
    (h : Obtained initial .location given location) :
    Obtained initial .comment given (⟨content, location⟩ : Comment)
  | provenance {given : List Site} {location : Location} (comments : List (List Site × Comment))
    (h : Obtained initial .location given location)
    (hc : ∀ comment ∈ comments, Obtained initial .comment comment.1 comment.2) :
    Obtained initial .provenance (given ++ comments.flatMap Prod.fst)
      (⟨location, comments.map Prod.snd⟩ : Provenance)
  | origin (v : Origin) : Obtained initial .origin [] v
  | transformationKind (v : TransformationKind) : Obtained initial .transformationKind [] v
  | mappingOfName {name : String} {v : Mapping} (h : Mapping.ofName name = .ok v) :
    Obtained initial .mapping [.path [name]] v
  | mappingOfSegments {segments : List String} {v : Mapping}
    (h : Mapping.ofSegments segments = .ok v) : Obtained initial .mapping [.path segments] v
  | mappingParse {text : String} {v : Mapping} (h : Mapping.parse text = .ok v) :
    Obtained initial .mapping [.ofText text] v
  | sourceOfSegments {origin : Origin} {segments : List String} {v : Source}
    (h : Source.ofSegments origin segments = .ok v) : Obtained initial .source [.path segments] v
  | objectField {text : String} {v : Source} (h : Source.objectField text = .ok v) :
    Obtained initial .source [.ofText text] v
  | fieldArgument {name : String} {v : Source} (h : Source.fieldArgument name = .ok v) :
    Obtained initial .source [.path [name]] v
  | context {name : String} {v : Source} (h : Source.context name = .ok v) :
    Obtained initial .source [.path [name]] v
  | argument (name : String) {given : List Site} {source : Source}
    (h : Obtained initial .source given source) :
    Obtained initial .argument given (⟨name, source⟩ : Argument)
  | hydration (service field : String) :
    Obtained initial .hydration [] ({ service, field } : Hydration)
  | addArgument {given more : List Site} {hydration : Hydration} {argument : Argument}
    (h : Obtained initial .hydration given hydration)
    (ha : Obtained initial .argument more argument) :
    Obtained initial .hydration (given ++ more) (hydration.addArgument argument)
  | identifyBy (identifier : String) {given : List Site} {hydration : Hydration}
    (h : Obtained initial .hydration given hydration) :
    Obtained initial .hydration given (hydration.identifyBy identifier)
  | batchBy {given : List Site} {hydration : Hydration} {count : UInt32} {v : Hydration}
    (h : Obtained initial .hydration given hydration) (hb : hydration.batchBy count = .ok v) :
    Obtained initial .hydration
      (given ++ [.batch hydration.service hydration.field count.toNat]) v
  | mappingPayload {given : List Site} {mapping : Mapping}
    (h : Obtained initial .mapping given mapping) :
    Obtained initial .payload given (.mapping mapping : Payload)
  | hydrationPayload {given : List Site} {hydration : Hydration}
    (h : Obtained initial .hydration given hydration) :
    Obtained initial .payload given (.hydration hydration : Payload)
  | transformation {given more : List Site} {payload : Payload} {provenance : Provenance}
    (h : Obtained initial .payload given payload)
    (hp : Obtained initial .provenance more provenance) :
    Obtained initial .transformation (given ++ more) (⟨payload, provenance⟩ : Transformation)
  | ofSlots {mapping : Option (List Site × Mapping)} {hydration : Option (List Site × Hydration)}
    {more : List Site} {provenance : Provenance} {v : Transformation}
    (hm : ∀ m ∈ mapping, Obtained initial .mapping m.1 m.2)
    (hh : ∀ h ∈ hydration, Obtained initial .hydration h.1 h.2)
    (hp : Obtained initial .provenance more provenance)
    (hv : (Transformation.ofSlots (mapping.map Prod.snd) (hydration.map Prod.snd)
      provenance).value = .ok v) :
    Obtained initial .transformation
      (mapping.toList.flatMap Prod.fst ++ hydration.toList.flatMap Prod.fst ++ more) v
  | field (name typeRef : String) {given : List Site} {provenance : Provenance}
    (hp : Obtained initial .provenance given provenance) :
    Obtained initial .field given ({ name, typeRef, provenance } : Field)
  | annotate {given more : List Site} {field : Field} {transformation : Transformation}
    (h : Obtained initial .field given field)
    (hx : Obtained initial .transformation more transformation) :
    Obtained initial .field (given ++ more) (field.annotate transformation)
  | objectType (name : String) (fields : List (List Site × Field)) {given : List Site}
    {provenance : Provenance} (h : ∀ field ∈ fields, Obtained initial .field field.1 field.2)
    (hp : Obtained initial .provenance given provenance) :
    Obtained initial .objectType (fields.flatMap Prod.fst ++ given)
      (⟨name, fields.map Prod.snd, provenance⟩ : ObjectType)
  | service (name : String) (types : List (List Site × ObjectType)) {given : List Site}
    {provenance : Provenance} (h : ∀ type ∈ types, Obtained initial .objectType type.1 type.2)
    (hp : Obtained initial .provenance given provenance) :
    Obtained initial .service (types.flatMap Prod.fst ++ given)
      (⟨name, types.map Prod.snd, provenance⟩ : Service)
  | document (services : List (List Site × Service)) {given : List Site}
    {provenance : Provenance}
    (h : ∀ service ∈ services, Obtained initial .service service.1 service.2)
    (hp : Obtained initial .provenance given provenance) :
    Obtained initial .document (services.flatMap Prod.fst ++ given)
      (⟨services.map Prod.snd, provenance⟩ : Document)
  | found (service typeName field : String) (kind : TransformationKind) (target : String)
    {given : List Site} {location : Location} (h : Obtained initial .location given location) :
    Obtained initial .transformedField given
      (⟨service, typeName, field, kind, target, location⟩ : TransformedField)

/-! ### Accounts -/

/-- Whether leaves are among the lawful sites that were given, but for initial spans. -/
structure Leaf.Accounted (initial : Span → Prop) (given : List Site) (leaves : List Leaf) :
    Prop where
  lawful : ∀ site ∈ given, site.Lawful
  accounted : ∀ leaf ∈ leaves, leaf.site ∈ given ∨ ∃ span, leaf = .span span ∧ initial span

namespace Leaf.Accounted

variable {initial : Span → Prop} {given more : List Site} {leaves others : List Leaf}

theorem nil : Accounted initial [] [] :=
  ⟨List.forall_mem_nil _, List.forall_mem_nil _⟩

theorem mono (h : Accounted initial given leaves) (hs : others ⊆ leaves) :
    Accounted initial given others :=
  ⟨h.lawful, fun leaf hl => h.accounted leaf (hs hl)⟩

theorem append (h : Accounted initial given leaves) (h' : Accounted initial more others) :
    Accounted initial (given ++ more) (leaves ++ others) := by
  refine ⟨List.forall_mem_append.mpr ⟨h.lawful, h'.lawful⟩, List.forall_mem_append.mpr ⟨?_, ?_⟩⟩
  · exact fun leaf hl => (h.accounted leaf hl).imp_left (List.mem_append_left more)
  · exact fun leaf hl => (h'.accounted leaf hl).imp_left (List.mem_append_right given)

theorem flatMap {α : Type} {leavesOf : α → List Leaf} {items : List (List Site × α)}
    (h : ∀ item ∈ items, Accounted initial item.1 (leavesOf item.2)) :
    Accounted initial (items.flatMap Prod.fst) ((items.map Prod.snd).flatMap leavesOf) := by
  induction items with
  | nil => exact nil
  | cons item items ih =>
    rw [List.forall_mem_cons] at h
    exact h.1.append (ih h.2)

theorem path {path : Path} {segments : List String} (h : path.segments = segments) :
    Accounted initial [.path segments] [.path path] := by
  rw [← h]
  exact ⟨List.forall_mem_singleton.mpr path.lawful,
    List.forall_mem_singleton.mpr (.inl (List.mem_singleton_self _))⟩

/-- What has been read has the sites that the scan finds. -/
theorem read {t : JsonType} {j : Json} {v : t.Value} (h : t.format.read j = .ok v) :
    Accounted initial (t.scan.reading j) (t.leaves v) := by
  obtain ⟨hl, hs⟩ := JsonType.sites_of_read h
  refine ⟨hl, fun leaf hm => .inl ?_⟩
  have hd : leaf.site ∈ t.scan.declaration j := hs ▸ List.mem_map_of_mem hm
  exact (t.scan.perm j).mem_iff.mpr hd

end Leaf.Accounted

/-! ### What the builders of paths keep -/

theorem Path.segments_of_ofName {name : String} {path : Path} (h : ofName name = .ok path) :
    path.segments = [name] := by
  rw [ofName] at h
  split at h
  · contradiction
  · exact segments_of_ofSegments h

theorem Path.segments_of_parse {text : String} {path : Path} (h : parse text = .ok path) :
    path.segments = (text.toList.splitOn '.').map String.ofList := by
  rw [parse] at h
  split at h
  · contradiction
  · exact segments_of_ofSegments h

/-! ### What the builders of hydrations add -/

theorem Hydration.leaves_addArgument (hydration : Hydration) (argument : Argument) :
    (hydration.addArgument argument).leaves ⊆ hydration.leaves ++ argument.leaves := by
  intro leaf
  simp only [leaves, addArgument, batchLeaves, List.flatMap_append, List.flatMap_singleton,
    List.mem_append]
  rintro ((h | h) | h)
  · exact .inl (.inl h)
  · exact .inr h
  · exact .inl (.inr h)

theorem Hydration.leaves_of_batchBy {hydration built : Hydration} {count : UInt32}
    (h : hydration.batchBy count = .ok built) :
    ∃ size : BatchSize, size.count = count ∧
      built.leaves ⊆ hydration.leaves ++ [.batch hydration.service hydration.field size] := by
  rw [batchBy] at h
  split at h
  · rename_i hc
    rw [← Except.ok.inj h]
    refine ⟨⟨count, hc⟩, rfl, List.append_subset.mpr ⟨?_, ?_⟩⟩
    · exact List.subset_append_of_subset_left _ (List.subset_append_left ..)
    · exact List.subset_append_right ..
  · contradiction

theorem Leaf.Accounted.batch {initial : Span → Prop} (service field : String) (size : BatchSize) :
    Accounted initial [.batch service field size.count.toNat] [.batch service field size] :=
  ⟨List.forall_mem_singleton.mpr fun hn => size.count_ne_zero (UInt32.toNat_inj.mp hn),
    List.forall_mem_singleton.mpr (.inl (List.mem_singleton_self _))⟩

/-! ### What is obtained -/

namespace Obtained

variable {initial : Span → Prop} {t : JsonType} {given : List Site} {v : t.Value}

theorem accounted (h : Obtained initial t given v) : Leaf.Accounted initial given (t.leaves v) := by
  induction h with
  | read h => exact .read h
  | part h hw ih => exact ih.mono hw.leaves_subset
  | @span span h =>
    exact ⟨List.forall_mem_nil _, List.forall_mem_singleton.mpr (.inr ⟨span, rfl, h⟩)⟩
  | position line column => exact .nil
  | @locationParse text location h =>
    obtain ⟨spelling, -, denotes⟩ := Location.exists_spelling_of_parse? h
    have hl : location.leaves = [] := by rw [Location.leaves, denotes.span]; rfl
    show Leaf.Accounted initial [] location.leaves
    rw [hl]
    exact .nil
  | inSource name h ih => exact ih
  | covering h hs ih ihs =>
    -- The location has this span alone, whatever it had before.
    exact (ih.append ihs).mono (List.subset_append_right ..)
  | comment content h ih => exact ih
  | provenance comments h hc ih ihc => exact ih.append (.flatMap ihc)
  | origin | transformationKind => exact .nil
  | mappingOfName h =>
    obtain ⟨path, hp, rfl⟩ := map_eq_ok.mp h
    exact .path (Path.segments_of_ofName hp)
  | mappingOfSegments h =>
    obtain ⟨path, hp, rfl⟩ := map_eq_ok.mp h
    exact .path (Path.segments_of_ofSegments hp)
  | mappingParse h =>
    obtain ⟨path, hp, rfl⟩ := map_eq_ok.mp h
    exact .path (Path.segments_of_parse hp)
  | sourceOfSegments h =>
    obtain ⟨path, hp, rfl⟩ := map_eq_ok.mp h
    exact .path (Path.segments_of_ofSegments hp)
  | objectField h =>
    obtain ⟨path, hp, rfl⟩ := map_eq_ok.mp h
    exact .path (Path.segments_of_parse hp)
  | fieldArgument h | context h =>
    obtain ⟨path, hp, rfl⟩ := map_eq_ok.mp h
    exact .path (Path.segments_of_ofName hp)
  | argument name h ih => exact ih
  | hydration service field => exact .nil
  | @addArgument given more hydration argument h ha ih iha =>
    exact (ih.append iha).mono (hydration.leaves_addArgument argument)
  | identifyBy identifier h ih => exact ih
  | @batchBy given hydration count v h hb ih =>
    obtain ⟨size, rfl, hl⟩ := Hydration.leaves_of_batchBy hb
    exact (ih.append (.batch hydration.service hydration.field size)).mono hl
  | mappingPayload h ih => exact ih
  | hydrationPayload h ih => exact ih
  | transformation h hp ih ihp => exact ih.append ihp
  | @ofSlots mapping hydration more provenance v hm hh hp hv ihm ihh ihp =>
    match mapping, hydration with
    | some m, none =>
      rw [← Except.ok.inj hv]
      show Leaf.Accounted initial (m.1 ++ [] ++ [] ++ more) (m.2.leaves ++ provenance.leaves)
      rw [List.append_nil, List.append_nil]
      exact (ihm m rfl).append ihp
    | none, some h =>
      rw [← Except.ok.inj hv]
      show Leaf.Accounted initial (h.1 ++ [] ++ more) (h.2.leaves ++ provenance.leaves)
      rw [List.append_nil]
      exact (ihh h rfl).append ihp
  | field name typeRef hp ihp => exact ihp
  | @annotate given more field transformation h hx ih ihx =>
    -- A transformation that the field had is gone, but its sites have been given.
    refine (ih.append ihx).mono (List.append_subset.mpr ⟨?_, ?_⟩)
    · show [transformation].flatMap Transformation.leaves ⊆ _
      rw [List.flatMap_singleton]
      exact List.subset_append_right ..
    · exact List.subset_append_of_subset_left _ (List.subset_append_right ..)
  | objectType name fields h hp ih ihp => exact (Leaf.Accounted.flatMap ih).append ihp
  | service name types h hp ih ihp => exact (Leaf.Accounted.flatMap ih).append ihp
  | document services h hp ih ihp => exact (Leaf.Accounted.flatMap ih).append ihp
  | found service typeName field kind target h ih => exact ih

/-- Locations are obtained from their spans, without any sites. -/
theorem ofLocation (location : Location) (h : ∀ span ∈ location.span, initial span) :
    Obtained initial .location [] location := by
  obtain ⟨line, column, name, span⟩ := location
  have named : Obtained initial .location [] (⟨line, column, name, none⟩ : Location) := by
    cases name with
    | none => exact .position line column
    | some name => exact (Obtained.position line column).inSource name
  cases span with
  | none => exact named
  | some span => exact named.covering (.span (h span rfl))

/-- Provenance is obtained from the spans in it, without any sites. -/
theorem ofProvenance (provenance : Provenance)
    (hl : ∀ span ∈ provenance.location.span, initial span)
    (hc : ∀ comment ∈ provenance.comments, ∀ span ∈ comment.location.span, initial span) :
    Obtained initial .provenance [] provenance := by
  obtain ⟨location, comments⟩ := provenance
  let free : List (List Site × Comment) := comments.map fun comment => ([], comment)
  have hg : free.flatMap Prod.fst = [] := by simp [free]
  have hs : free.map Prod.snd = comments := by simp [free, Function.comp_def]
  have h : Obtained initial .provenance ([] ++ free.flatMap Prod.fst)
      (⟨location, free.map Prod.snd⟩ : Provenance) := by
    refine .provenance free (ofLocation location hl) fun c hm => ?_
    obtain ⟨comment, hm', rfl⟩ := List.mem_map.mp hm
    exact .comment comment.content (ofLocation comment.location (hc comment hm'))
  rw [hg, hs] at h
  exact h

/-- Every path in a value that is obtained, at any depth, has segments, none of them empty or with a
dot, and every batch size in it is at least one.  The same is true of all paths and batch sizes that
were given to obtain it. -/
theorem sites_lawful (h : Obtained initial t given v) :
    (∀ site ∈ t.sites v, site.Lawful) ∧ ∀ site ∈ given, site.Lawful := by
  have ha := h.accounted
  refine ⟨fun site hs => ?_, ha.lawful⟩
  obtain ⟨leaf, hl, rfl⟩ := List.mem_map.mp hs
  rcases ha.accounted leaf hl with hg | ⟨span, rfl, -⟩
  · exact ha.lawful _ hg
  · exact trivial

/-- A field whose first transformation is parsed from a text and whose second one is read from JSON
and then batched. -/
theorem sites_lawful_annotated :
    let source : Source := ⟨.context, ⟨["tenant"], by decide, by decide⟩⟩
    let hydration : Hydration := { service := "S", field := "f", arguments := [⟨"x", source⟩] }
    let batched : Hydration := { hydration with batchSize := some ⟨20, by decide⟩ }
    let plain : Field := { name := "n", typeRef := "T" }
    let field : Field := { plain with transformation := some ⟨.hydration batched, default⟩ }
    let given : List Site := [.path ["author", "id"], .path ["tenant"], .batch "S" "f" 20]
    Obtained (fun _ => True) .field given field ∧
    (∀ site ∈ JsonType.field.sites field, site.Lawful) ∧ ∀ site ∈ given, site.Lawful := by
  intro source hydration batched plain field given
  let mapping : Mapping := ⟨⟨["author", "id"], by decide, by decide⟩⟩
  let j : Json := .array [.string "S", .string "f",
    .array [.array [.string "x", .array [.string "context", .array [.string "tenant"]]]]]
  have hd : Obtained (fun _ => True) .provenance [] (default : Provenance) :=
    ofProvenance default (fun _ _ => trivial) fun _ _ _ _ => trivial
  have hm : Obtained (fun _ => True) .mapping [.path ["author", "id"]] mapping := by
    have hp : Mapping.parse "author.id" = .ok mapping := by rfl
    exact .mappingParse hp
  have hh : Obtained (fun _ => True) .hydration [.path ["tenant"], .batch "S" "f" 20] batched := by
    have hr : Hydration.format.read j = .ok hydration := by rfl
    have hb : hydration.batchBy 20 = .ok batched := by rfl
    exact .batchBy (.read (t := .hydration) hr) hb
  have hp : Obtained (fun _ => True) .field [] plain := .field "n" "T" hd
  have hx : Obtained (fun _ => True) .transformation _ ⟨.mapping mapping, default⟩ :=
    .transformation (.mappingPayload hm) hd
  have hy : Obtained (fun _ => True) .transformation _ ⟨.hydration batched, default⟩ :=
    .transformation (.hydrationPayload hh) hd
  have hf : Obtained (fun _ => True) .field given field := (hp.annotate hx).annotate hy
  exact ⟨hf, Obtained.sites_lawful hf⟩

end Obtained

end SchemaStitching
