import SchemaStitching.Proofs.Shapes

/-! What the rules say of paths.  Segments are refused if there are none, else if one is empty, else
for the first with a dot.  All ways to build a mapping or a source go by these rules alone: from
segments, from JSON that gives them, from a name, and from a text. -/

namespace SchemaStitching

namespace Path

/-- What is wrong with segments that make no path. -/
inductive Refused : List String → Fault → Prop
  | emptyPath : Refused [] .emptyPath
  | emptySegment {segments : List String} (h : "" ∈ segments) :
    Refused segments (.emptySegment (join segments))
  | dottedSegment {before after : List String} {segment : String}
    (hn : "" ∉ before ++ segment :: after) (hb : ∀ prior ∈ before, '.' ∉ prior.toList)
    (hs : '.' ∈ segment.toList) : Refused (before ++ segment :: after) (.dottedSegment segment)

theorem refused_of_ofSegments {segments : List String} {fault : Fault}
    (h : ofSegments segments = .error fault) : Refused segments fault := by
  unfold ofSegments at h
  split at h
  · rename_i hn
    rw [hn, ← Except.error.inj h]
    exact .emptyPath
  split at h
  · rename_i he
    rw [← Except.error.inj h]
    exact .emptySegment he
  split at h
  · rename_i hn segment hf
    obtain ⟨hs, before, after, rfl, hb⟩ := List.find?_eq_some_iff_append.mp hf
    rw [← Except.error.inj h]
    exact .dottedSegment hn (by simpa using hb) (of_decide_eq_true hs)
  · contradiction

theorem ofSegments_of_refused {segments : List String} {fault : Fault}
    (h : Refused segments fault) : ofSegments segments = .error fault := by
  cases h with
  | emptyPath => rfl
  | emptySegment h => rw [ofSegments, dif_neg (List.ne_nil_of_mem h), dif_pos h]
  | @dottedSegment before after segment hn hb hs =>
    have hf : (before ++ segment :: after).find? (fun segment => '.' ∈ segment.toList) =
        some segment :=
      List.find?_eq_some_iff_append.mpr
        ⟨decide_eq_true hs, before, after, rfl, by simpa using hb⟩
    rw [ofSegments, dif_neg (by simp), dif_neg hn]
    split
    · rename_i found hfound
      rw [Option.some.inj (hfound.symm.trans hf)]
    · rename_i hnone
      rw [hf] at hnone
      contradiction

theorem ofSegments_eq_error_iff {segments : List String} {fault : Fault} :
    ofSegments segments = .error fault ↔ Refused segments fault :=
  ⟨refused_of_ofSegments, ofSegments_of_refused⟩

theorem ofSegments_eq_ok_iff {segments : List String} {path : Path} :
    ofSegments segments = .ok path ↔ path.segments = segments :=
  ⟨segments_of_ofSegments, fun h => h ▸ ofSegments_segments path⟩

/-! ### Names -/

theorem isSegment_of_ofName {name : String} {path : Path} (h : ofName name = .ok path) :
    IsSegment name := by
  rw [ofName] at h
  split at h
  · contradiction
  · apply path.isSegment_of_mem
    rw [segments_of_ofSegments h]
    exact List.mem_singleton_self name

/-- The text of a name without a dot is the name. -/
theorem parse_eq_ofName {name : String} (h : '.' ∉ name.toList) : parse name = ofName name := by
  rw [parse, ofName, List.splitOn_eq_singleton h, List.map_singleton, String.ofList_toList]

theorem ofName_eq_ok_iff {name : String} {path : Path} :
    ofName name = .ok path ↔ IsSegment name ∧ parse name = .ok path := by
  constructor
  · intro h
    have hs := isSegment_of_ofName h
    exact ⟨hs, (parse_eq_ofName hs.2).trans h⟩
  · rintro ⟨hs, hp⟩
    rw [← parse_eq_ofName hs.2, hp]

theorem refused_singleton_iff {name : String} (hn : name ≠ "") {fault : Fault} :
    Refused [name] fault ↔ '.' ∈ name.toList ∧ fault = .dottedSegment name := by
  have he : "" ∉ [name] := fun h => hn (List.mem_singleton.mp h).symm
  constructor
  · intro h
    generalize hs : [name] = segments at h
    cases h with
    | emptyPath => contradiction
    | emptySegment h => exact absurd (hs ▸ h) he
    | @dottedSegment before after segment _ _ hd =>
      have hm : segment ∈ [name] := by simp [hs]
      rw [List.mem_singleton.mp hm] at hd ⊢
      exact ⟨hd, rfl⟩
  · rintro ⟨hd, rfl⟩
    exact @Refused.dottedSegment [] [] name he nofun hd

theorem ofName_eq_error_iff {name : String} {fault : Fault} : ofName name = .error fault ↔
    name = "" ∧ fault = .emptyPath ∨ '.' ∈ name.toList ∧ fault = .dottedSegment name := by
  by_cases hn : name = ""
  · rw [hn]
    simp [ofName, eq_comm]
  · rw [ofName, if_neg hn, ofSegments_eq_error_iff, refused_singleton_iff hn]
    simp [hn]

end Path

/-- Whether a JSON value gives a mapping whose path is to have the segments. -/
structure Mapping.GivenBy (segments : List String) (j : Json) : Prop where
  isRecord : j.isRecord 1
  path : j.part? "input_path" 0 = some (.array (segments.map .string))

/-- Whether a JSON value gives a source from the origin whose path is to have the segments. -/
structure Source.GivenBy (leniency : Leniency) (origin : Origin) (segments : List String)
    (j : Json) : Prop where
  isRecord : j.isRecord 2
  origin : (j.part? "kind" 0).bind (Json.name? leniency) = some origin.name
  path : j.part? "path" 1 = some (.array (segments.map .string))

theorem Json.partReads_segments {leniency : Leniency} {part : Option Json}
    {segments : List String} (h : part = some (.array (segments.map .string))) :
    PartReads ((Format.list .text).readAs leniency) none part segments := by
  have hw : (Format.list .text).write segments = .array (segments.map .string) := rfl
  rw [h, ← hw]
  exact (Format.list .text).readAs_write rfl leniency segments

theorem Format.readAs_checked {α β : Type} {plain : Format α} {build : α → Except Fault β}
    {parts : β → α} {build_parts : ∀ b, build (parts b) = .ok b} {leniency : Leniency} {j : Json}
    {a : α} (h : plain.readAs leniency j = .ok a) :
    (Format.checked plain build parts build_parts).readAs leniency j =
      (build a).mapError ReadFault.rule := by
  rw [readAs, h]
  simp only [bind, Except.bind]
  cases build a <;> rfl

theorem Mapping.readAs_of_givenBy {segments : List String} {j : Json} (h : GivenBy segments j)
    (leniency : Leniency) :
    Mapping.format.readAs leniency j = (ofSegments segments).mapError ReadFault.rule := by
  have hp : (Format.record (.required "input_path" (.list .text) .none)).readAs leniency j =
      .ok (segments, ()) :=
    Format.readAs_record_iff.mpr ⟨h.isRecord, Json.partReads_segments h.path, trivial⟩
  exact Format.readAs_checked hp

theorem Source.readAs_of_givenBy {leniency : Leniency} {origin : Origin} {segments : List String}
    {j : Json} (h : GivenBy leniency origin segments j) :
    Source.format.readAs leniency j = (ofSegments origin segments).mapError ReadFault.rule := by
  have ho : Json.PartReads (Origin.format.readAs leniency) none (j.part? "kind" 0) origin := by
    obtain ⟨part, hp, hn⟩ := Option.bind_eq_some_iff.mp h.origin
    rw [hp, Json.PartReads, Origin.format, Format.readAs, hn]
    cases origin <;> rfl
  have hp : (Format.record (.required "kind" Origin.format <|
      .required "path" (.list .text) .none)).readAs leniency j = .ok (origin, segments, ()) :=
    Format.readAs_record_iff.mpr ⟨h.isRecord, ho, Json.partReads_segments h.path, trivial⟩
  exact Format.readAs_checked hp

/-! ### All ways in -/

namespace Path

/-- Whether a mapping and a source whose path is to have the segments come to the same outcome,
built or read from JSON. -/
structure SegmentsGive (origin : Origin) (segments : List String)
    (outcome : Except Fault Path) : Prop where
  mapping : Mapping.ofSegments segments = outcome.map Mapping.mk
  source : Source.ofSegments origin segments = outcome.map (Source.mk origin)
  readMapping : ∀ leniency j, Mapping.GivenBy segments j →
    Mapping.format.readAs leniency j = (outcome.map Mapping.mk).mapError ReadFault.rule
  readSource : ∀ leniency j, Source.GivenBy leniency origin segments j →
    Source.format.readAs leniency j = (outcome.map (Source.mk origin)).mapError ReadFault.rule

/-- Whether all that is built from a single name comes to the same outcome. -/
structure NameGives (name : String) (outcome : Except Fault Path) : Prop where
  mapping : Mapping.ofName name = outcome.map Mapping.mk
  fieldArgument : Source.fieldArgument name = outcome.map (Source.mk .fieldArgument)
  context : Source.context name = outcome.map (Source.mk .context)

/-- Whether all that is built from a text comes to the same outcome. -/
structure TextGives (text : String) (outcome : Except Fault Path) : Prop where
  mapping : Mapping.parse text = outcome.map Mapping.mk
  objectField : Source.objectField text = outcome.map (Source.mk .objectField)

variable {origin : Origin} {segments : List String} {name text : String}
  {outcome : Except Fault Path}

theorem eq_of_map_mapping_eq {other : Except Fault Path}
    (h : outcome.map Mapping.mk = other.map Mapping.mk) : outcome = other := by
  cases outcome <;> cases other <;> simp_all [Except.map]

theorem segmentsGive_iff :
    SegmentsGive origin segments outcome ↔ ofSegments segments = outcome := by
  constructor
  · intro h
    exact eq_of_map_mapping_eq h.mapping
  · rintro rfl
    exact ⟨rfl, rfl, fun leniency j hj => Mapping.readAs_of_givenBy hj leniency,
      fun leniency j hj => Source.readAs_of_givenBy hj⟩

theorem nameGives_iff : NameGives name outcome ↔ ofName name = outcome := by
  constructor
  · intro h
    exact eq_of_map_mapping_eq h.mapping
  · rintro rfl
    exact ⟨rfl, rfl, rfl⟩

theorem textGives_iff : TextGives text outcome ↔ parse text = outcome := by
  constructor
  · intro h
    exact eq_of_map_mapping_eq h.mapping
  · rintro rfl
    exact ⟨rfl, rfl⟩

/-- Whatever takes segments for a path comes to the same: the path with these segments, or what is
wrong with them, in the order of the rules.  Whatever takes a text comes to the same, and so does
whatever takes a name, which is either what the name comes to as a text, if it is a segment, or a
fault that tells whether the name is empty or has a dot. -/
theorem entries_agree :
    (∀ origin segments,
      (∃ outcome, SegmentsGive origin segments outcome) ∧
      (∀ path, SegmentsGive origin segments (.ok path) ↔ path.segments = segments) ∧
      ∀ fault, SegmentsGive origin segments (.error fault) ↔ Refused segments fault) ∧
    (∀ text, ∃ outcome, TextGives text outcome) ∧
    ∀ name,
      (∃ outcome, NameGives name outcome) ∧
      (∀ path, NameGives name (.ok path) ↔
        name ≠ "" ∧ '.' ∉ name.toList ∧ TextGives name (.ok path)) ∧
      ∀ fault, NameGives name (.error fault) ↔
        name = "" ∧ fault = .emptyPath ∨ '.' ∈ name.toList ∧ fault = .dottedSegment name := by
  simp only [segmentsGive_iff, nameGives_iff, textGives_iff]
  refine ⟨fun origin segments => ⟨⟨_, rfl⟩, fun path => ofSegments_eq_ok_iff,
    fun fault => ofSegments_eq_error_iff⟩, fun text => ⟨_, rfl⟩, fun name => ⟨⟨_, rfl⟩,
    fun path => ?_, fun fault => ofName_eq_error_iff⟩⟩
  rw [ofName_eq_ok_iff, IsSegment, and_assoc]

/-- Segments with two faults, given by an array and by an object with an unknown member, and a name
with a dot, which is a path of two segments as a text. -/
theorem entries_agree_mixed_faults :
    let segments := ["a.b", "", "c.d"]
    let items : Json := .array [.string "a.b", .string "", .string "c.d"]
    let mapping : Json := .array [items]
    let source : Json := .object [("path", items), ("note", .int 1),
      ("kind", .object [("context", .null)])]
    let fault : Fault := .emptySegment "a.b..c.d"
    Refused segments fault ∧ Mapping.ofSegments segments = .error fault ∧
    Source.ofSegments .context segments = .error fault ∧
    Mapping.GivenBy segments mapping ∧ Mapping.format.read mapping = .error (.rule fault) ∧
    Source.GivenBy .strict .context segments source ∧
    Source.format.read source = .error (.rule fault) ∧
    Source.context "a.b" = .error (.dottedSegment "a.b") ∧
    (∃ mapping, Mapping.parse "a.b" = .ok mapping ∧ mapping.path.segments = ["a", "b"]) := by
  intro segments items mapping source fault
  have hr : Refused segments fault := @Refused.emptySegment segments (by decide)
  have hm : Mapping.GivenBy segments mapping := ⟨by decide, by decide⟩
  have hs : Source.GivenBy .strict .context segments source := ⟨by decide, by decide, by decide⟩
  obtain ⟨hsegments, -, hname⟩ := entries_agree
  have hg := ((hsegments .context segments).2.2 fault).mpr hr
  have hd := ((hname "a.b").2.2 (.dottedSegment "a.b")).mpr (.inr ⟨by decide, rfl⟩)
  exact ⟨hr, hg.mapping, hg.source, hm, hg.readMapping .strict mapping hm, hs,
    hg.readSource .strict source hs, hd.context, ⟨⟨["a", "b"], by decide, by decide⟩⟩, rfl, rfl⟩

end Path

end SchemaStitching
