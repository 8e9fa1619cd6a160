import SchemaStitching.Proofs.PathVerdicts
import SchemaStitching.Proofs.Scanning

/-! What is wrong with a value that cannot be read.  A value of the right shape for a type is read
exactly if its paths and batch sizes are lawful, and otherwise the first of them that is not is
reported.  This is shown of each type by going through its format, together with the fact that a
value that is read has the paths and batch sizes of its JSON form. -/

namespace SchemaStitching

theorem Scan.eq_nothing {scan : Scan} (h : ∀ j, scan.reading j = []) : scan = nothing := by
  refine Scan.ext (funext h) (funext fun j => ?_)
  have hp := scan.perm j
  rw [h] at hp
  exact hp.nil_eq.symm

theorem Scan.list_nothing : list nothing = nothing := by
  refine eq_nothing fun j => ?_
  cases j with
  | array items => exact List.flatMap_eq_nil_iff.mpr fun _ _ => rfl
  | null | bool | int | decimal | string | object => rfl

theorem Scan.memberSites_eq_nil {members : List (String × Scan)}
    (h : ∀ member ∈ members, member.2 = nothing) (j : Json) (place : Nat) :
    ∀ part ∈ memberSites reading j members place, part.2 = [] := by
  induction members generalizing place with
  | nil => exact List.forall_mem_nil _
  | cons member members ih =>
    rw [List.forall_mem_cons] at h
    rw [memberSites, List.forall_mem_cons]
    refine ⟨?_, ih h.2 (place + 1)⟩
    rw [h.1, partSites]
    cases j.part? member.1 place <;> rfl

theorem Scan.record_eq_nothing {members : List (String × Scan)}
    (h : ∀ member ∈ members, member.2 = nothing) : record members = nothing := by
  refine eq_nothing fun j => ?_
  cases j with
  | object given =>
    refine List.flatMap_eq_nil_iff.mpr fun part hp => ?_
    exact memberSites_eq_nil h _ _ part ((List.mem_insertionSort _).mp hp)
  | null | bool | int | decimal | string | array =>
    exact List.flatMap_eq_nil_iff.mpr (memberSites_eq_nil h _ _)

theorem Format.ScannedBy.congr {α : Type} {format : Format α} {scan : Scan}
    {sites sites' : α → List Site} (h : format.ScannedBy scan sites)
    (hs : ∀ a, sites' a = sites a) : format.ScannedBy scan sites' := by
  rw [funext hs]
  exact h

/-- A record that has no sites. -/
theorem Format.ScannedBy.siteless {α : Type} {members : Members α} {scans : List (String × Scan)}
    {sites : α → List Site} (h : members.ScannedBy scans sites)
    (hm : ∀ scan ∈ scans, scan.2 = .nothing) (hs : ∀ a, sites a = []) :
    (Format.record members).ScannedBy .nothing fun _ => [] := by
  rw [← Scan.record_eq_nothing hm]
  exact (Format.ScannedBy.record h).congr fun a => (hs a).symm

/-- A format with one site, which is checked when the plain value has been read. -/
theorem Format.ScannedBy.checkedSite {α β : Type} {plain : Format α} {build : α → Except Fault β}
    {parts : β → α} {build_parts : ∀ b, build (parts b) = .ok b} {own : Scan}
    {sites : β → List Site} (site : α → Site) (h : plain.ScannedBy .nothing fun _ => [])
    (hj : ∀ {leniency j a}, plain.readAs leniency j = .ok a → own.reading j = [site a])
    (hb : ∀ a, match (site a).fault? with
      | none => ∃ b, build a = .ok b ∧ sites b = [site a]
      | some fault => build a = .error fault) :
    (Format.checked plain build parts build_parts).ScannedBy own sites := by
  have hc : (Format.checked plain build parts build_parts).ScannedBy (.nothing ++ own) sites := by
    refine checked h fun {l j a} ha => ?_
    have hd := own.perm j
    rw [hj ha, List.singleton_perm] at hd
    rw [hj ha, List.findSome?_singleton, ← hd]
    exact hb a
  exact hc

/-! ### Spans and provenance -/

theorem Json.eq_int_of_natBelow? {bound : Nat} {j : Json} {n : { n : Nat // n < bound }}
    (h : j.natBelow? bound = some n) : j = .int n.val := by
  match j, h with
  | .int (.ofNat m), h =>
    rw [natBelow?] at h
    split at h
    · rw [← Option.some.inj h]
      rfl
    · contradiction

theorem Json.PartReads.eq_word64 {leniency : Leniency} {part : Option Json} {n : UInt64}
    (h : PartReads (Format.word64.readAs leniency) none part n) :
    part = some (.int n.toNat) := by
  match part, h with
  | some j, h =>
    rw [PartReads, Format.readAs] at h
    split at h
    · rename_i m hm
      rw [← Except.ok.inj h, eq_int_of_natBelow? hm, UInt64.toNat_ofNatLT]
    · contradiction

theorem Span.scanned : Span.format.ScannedBy Span.scan fun span => [Leaf.site (.span span)] := by
  refine .checkedSite (fun (start, stop, _) => .bounds start.toNat stop.toNat)
    (.siteless (.required .word64 <| .required .word64 .none) (by simp) (by simp))
    (fun {l j a} ha => ?_) fun a => ⟨_, rfl, rfl⟩
  obtain ⟨start, stop, _⟩ := a
  obtain ⟨hstart, hstop, -⟩ := (Format.readAs_record_iff.mp ha).2
  show boundsSites j = _
  rw [boundsSites, hstart.eq_word64, hstop.eq_word64]

theorem Location.scanned :
    Location.format.ScannedBy Location.scan fun location => location.leaves.map Leaf.site :=
  .built (.record (.required .word32 <| .required .word32 <| .optional .text rfl <|
    .optional Span.scanned rfl .none))
    fun (_, _, name, span, _) => by cases name <;> cases span <;> rfl

theorem Comment.scanned :
    Comment.format.ScannedBy Comment.scan fun comment => comment.leaves.map Leaf.site :=
  .built (.record (.required .text <| .required Location.scanned .none)) (by simp [Comment.leaves])

theorem Provenance.scanned :
    Provenance.format.ScannedBy Provenance.scan fun p => p.leaves.map Leaf.site :=
  .built (.record (.required Location.scanned <| .list Comment.scanned .none))
    (by simp [Provenance.leaves, List.map_flatMap])

theorem TransformedField.scanned :
    TransformedField.format.ScannedBy TransformedField.scan fun found =>
      found.leaves.map Leaf.site :=
  .built (.record (.required .text <| .required .text <| .required .text <| .required .named <|
    .required .text <| .required Location.scanned .none)) (by simp [TransformedField.leaves])

/-! ### Paths and batch sizes -/

theorem Json.filterMap_text?_of_mapM {leniency : Leniency} {items : List Json}
    {segments : List String} (h : items.mapM (Format.text.readAs leniency) = .ok segments) :
    items.filterMap text? = segments := by
  induction items generalizing segments with
  | nil => exact Except.ok.inj h
  | cons item items ih =>
    rw [List.mapM_cons] at h
    obtain ⟨segment, hs, h⟩ := bind_eq_ok.mp h
    obtain ⟨rest, hr, he⟩ := bind_eq_ok.mp h
    cases item with
    | string s =>
      have hi : (Json.string s).text? = some s := rfl
      rw [List.filterMap_cons_some hi, ih hr, ← Except.ok.inj he, ← Except.ok.inj hs]
    | null | bool | int | decimal | array | object => contradiction

/-- What is read as a list of texts is scanned as a path. -/
theorem Scan.path_of_readAs {leniency : Leniency} {j : Json} {segments : List String}
    (h : (Format.list .text).readAs leniency j = .ok segments) :
    path.reading j = [.path segments] := by
  rw [Format.readAs] at h
  cases j with
  | array items =>
    show [Site.path (items.filterMap Json.text?)] = _
    rw [Json.filterMap_text?_of_mapM h]
  | null | bool | int | decimal | string | object => contradiction

theorem Scan.part_path {leniency : Leniency} {name : String} {place : Nat} {j : Json}
    {segments : List String}
    (h : Json.PartReads ((Format.list .text).readAs leniency) none (j.part? name place) segments) :
    (part name place path).reading j = [.path segments] := by
  show partSites name place path.reading j = _
  rw [partSites]
  cases hj : j.part? name place with
  | none =>
    rw [hj] at h
    exact absurd (Eq.symm h) (Option.some_ne_none segments)
  | some part =>
    rw [hj] at h
    exact path_of_readAs h

/-- A format whose one rule is that of a path. -/
theorem Format.ScannedBy.checkedPath {α β : Type} {plain : Format α} {build : α → Except Fault β}
    {parts : β → α} {build_parts : ∀ b, build (parts b) = .ok b} {own : Scan}
    {leaves : β → List Leaf} {segments : α → List String} {make : α → Path → β}
    (h : plain.ScannedBy .nothing fun _ => [])
    (hb : ∀ a, build a = (Path.ofSegments (segments a)).map (make a))
    (hl : ∀ a path, leaves (make a path) = [.path path])
    (hj : ∀ {leniency j a}, plain.readAs leniency j = .ok a →
      own.reading j = [.path (segments a)]) :
    (Format.checked plain build parts build_parts).ScannedBy own fun b =>
      (leaves b).map Leaf.site := by
  refine checkedSite (fun a => .path (segments a)) h hj fun a => ?_
  rw [Site.fault?, hb]
  cases hp : Path.ofSegments (segments a) with
  | ok path =>
    refine ⟨make a path, rfl, ?_⟩
    rw [hl, ← Path.segments_of_ofSegments hp]
    rfl
  | error fault => rfl

theorem Mapping.scanned :
    Mapping.format.ScannedBy Mapping.scan fun mapping => mapping.leaves.map Leaf.site := by
  have h : (Format.record (.required "input_path" (.list .text) .none)).ScannedBy .nothing
      fun _ => [] :=
    .siteless (.required (.list .text) .none) (by simp [Scan.list_nothing]) (by simp)
  exact .checkedPath h (fun _ => rfl) (fun _ _ => rfl)
    fun ha => Scan.part_path (Format.readAs_record_iff.mp ha).2.1

theorem Source.scanned :
    Source.format.ScannedBy Source.scan fun source => source.leaves.map Leaf.site := by
  have h : (Format.record (.required "kind" Origin.format <|
      .required "path" (.list .text) .none)).ScannedBy .nothing fun _ => [] :=
    .siteless (.required .named <| .required (.list .text) .none) (by simp [Scan.list_nothing])
      (by simp)
  exact .checkedPath h (fun _ => rfl) (fun _ _ => rfl)
    fun ha => Scan.part_path (Format.readAs_record_iff.mp ha).2.2.1

theorem Argument.scanned :
    Argument.format.ScannedBy Argument.scan fun argument => argument.leaves.map Leaf.site :=
  .built (.record (.required .text <| .required Source.scanned .none)) (by simp [Argument.leaves])

theorem Json.PartReads.eq_string {leniency : Leniency} {part : Option Json} {s : String}
    (h : PartReads (Format.text.readAs leniency) none part s) : part = some (.string s) := by
  match part, h with
  | some (.string _), h => rw [← Except.ok.inj h]

/-- A number that may be missing or `null`. -/
theorem Json.PartReads.eq_int {leniency : Leniency} {part : Option Json} {n? : Option UInt32}
    (h : PartReads (readNullable (Format.word32.readAs leniency)) (some none) part n?) :
    (n? = none ∧ (part = none ∨ part = some .null)) ∨
      ∃ n : UInt32, n? = some n ∧ part = some (.int n.toNat) := by
  cases part with
  | none => exact .inl ⟨(Option.some.inj h).symm, .inl rfl⟩
  | some j =>
    cases j with
    | null => exact .inl ⟨(Except.ok.inj h).symm, .inr rfl⟩
    | int value =>
      have hv : some <$> Format.word32.readAs leniency (.int value) = .ok n? := h
      obtain ⟨n, hn, rfl⟩ := map_eq_ok.mp hv
      rw [Format.readAs] at hn
      cases value with
      | ofNat value =>
        by_cases hb : value < UInt32.size
        · rw [show natBelow? UInt32.size (.int (.ofNat value)) = some ⟨value, hb⟩ from
            natBelow?_int hb] at hn
          exact .inr ⟨n, rfl, by simp [← Except.ok.inj hn]⟩
        · rw [natBelow?, dif_neg hb] at hn
          contradiction
      | negSucc value => contradiction
    | bool | decimal | string | array | object => contradiction

theorem Hydration.batchSites_of_readFrom {leniency : Leniency} {j : Json} {service field : String}
    {batchSize : Option UInt32}
    (hs : Json.PartReads (Format.text.readAs leniency) none (j.part? "service_name" 0) service)
    (hf : Json.PartReads (Format.text.readAs leniency) none (j.part? "top_level_field" 1) field)
    (hb : Json.PartReads (Json.readNullable (Format.word32.readAs leniency)) (some none)
      (j.part? "batch_size" 4) batchSize) :
    batchSites j = batchSize.toList.map fun count => .batch service field count.toNat := by
  rw [batchSites, hs.eq_string, hf.eq_string]
  rcases hb.eq_int with ⟨rfl, hp | hp⟩ | ⟨count, rfl, hp⟩ <;> rw [hp] <;> rfl

theorem Hydration.scanned :
    Hydration.format.ScannedBy Hydration.scan fun hydration => hydration.leaves.map Leaf.site := by
  have hp : (Format.record (.required "service_name" .text <| .required "top_level_field" .text <|
      .list "arguments" Argument.format true <| .optional "object_identifier" .text <|
      .optional "batch_size" .word32 .none)).ScannedBy
      (.record [("service_name", .nothing), ("top_level_field", .nothing),
        ("arguments", .list Argument.scan), ("object_identifier", .nothing),
        ("batch_size", .nothing)])
      fun a => (a.2.2.1.flatMap Argument.leaves).map Leaf.site :=
    (Format.ScannedBy.record (.required .text <| .required .text <| .list Argument.scanned <|
      .optional .text rfl <| .optional .word32 rfl .none)).congr (by simp [List.map_flatMap])
  refine Format.ScannedBy.checked hp fun {l j a} h => ?_
  obtain ⟨service, field, arguments, identifier, batchSize, ⟨⟩⟩ := a
  obtain ⟨hservice, hfield, -, -, hsize, -⟩ := (Format.readAs_record_iff.mp h).2
  simp only [Scan.leaf, batchSites_of_readFrom hservice hfield hsize]
  cases batchSize with
  | none => exact ⟨_, rfl, List.map_append⟩
  | some count =>
    by_cases hc : count = 0
    · subst hc
      rfl
    · have hn : count.toNat ≠ 0 := fun hn => hc (UInt32.toNat_inj.mp hn)
      have hb : batchBy? { service, field, arguments, identifier } (some count) =
          .ok { service, field, arguments, identifier, batchSize := some ⟨count, hc⟩ } :=
        dif_pos hc
      simp only [Option.toList_some, List.map_cons, List.map_nil, List.findSome?_singleton,
        Site.fault?, if_neg hn]
      exact ⟨_, hb, List.map_append⟩

theorem Payload.scanned :
    Payload.format.ScannedBy Payload.scan fun payload => payload.leaves.map Leaf.site :=
  .built (.union Mapping.scanned Hydration.scanned) fun
    | .inl _ => rfl
    | .inr _ => rfl

/-! ### Documents -/

theorem Transformation.scanned :
    Transformation.format.ScannedBy Transformation.scan fun x => x.leaves.map Leaf.site :=
  .built (.record (.required Payload.scanned <| .required Provenance.scanned .none))
    (by simp [Transformation.leaves])

theorem Field.scanned : Field.format.ScannedBy Field.scan fun field => field.leaves.map Leaf.site :=
  .built (.record (.required .text <| .required .text <| .optional Transformation.scanned rfl <|
    .required Provenance.scanned .none)) (by simp [Field.leaves, List.map_flatMap])

theorem ObjectType.scanned :
    ObjectType.format.ScannedBy ObjectType.scan fun type => type.leaves.map Leaf.site :=
  .built (.record (.required .text <| .required (.list Field.scanned) <|
    .required Provenance.scanned .none)) (by simp [ObjectType.leaves, List.map_flatMap])

theorem Service.scanned :
    Service.format.ScannedBy Service.scan fun service => service.leaves.map Leaf.site :=
  .built (.record (.required .text <| .required (.list ObjectType.scanned) <|
    .required Provenance.scanned .none)) (by simp [Service.leaves, List.map_flatMap])

theorem Document.scanned :
    Document.format.ScannedBy Document.scan fun document => document.leaves.map Leaf.site :=
  .built (.record (.required (.list Service.scanned) <| .required Provenance.scanned .none))
    (by simp [Document.leaves, List.map_flatMap])

/-- Reading a value of any type comes to the sites that the scan of the type finds. -/
theorem JsonType.scanned (t : JsonType) : t.format.ScannedBy t.scan t.sites := by
  cases t with
  | span => exact Span.scanned
  | location => exact Location.scanned
  | comment => exact Comment.scanned
  | provenance => exact Provenance.scanned
  | mapping => exact Mapping.scanned
  | origin => exact .named
  | source => exact Source.scanned
  | argument => exact Argument.scanned
  | hydration => exact Hydration.scanned
  | payload => exact Payload.scanned
  | transformation => exact Transformation.scanned
  | field => exact Field.scanned
  | objectType => exact ObjectType.scanned
  | service => exact Service.scanned
  | document => exact Document.scanned
  | transformationKind => exact .named
  | transformedField => exact TransformedField.scanned

/-- What has been read has lawful paths and batch sizes, and the sites of the JSON value. -/
theorem JsonType.sites_of_read {t : JsonType} {j : Json} {v : t.Value}
    (h : t.format.read j = .ok v) :
    (∀ site ∈ t.scan.reading j, site.Lawful) ∧ t.sites v = t.scan.declaration j := by
  have hr : ReadsExactly t.scan t.sites j (t.format.read j) :=
    t.scanned .strict j (t.format.fits_of_readAs h)
  rw [h] at hr
  exact hr.of_ok

/-! ### What is reported -/

/-- The texts that report what is wrong with a site: that a path has no segments, that one of them
is empty, or which of them is the first with a dot, and that a batch size is zero. -/
inductive Site.Complaint : Site → String → Prop
  | noSegments : Complaint (.path []) "field mapping input path must not be empty"
  | emptySegment {segments : List String} (h : "" ∈ segments) :
    Complaint (.path segments)
      ("path '" ++ ".".intercalate segments ++ "' contains an empty segment")
  | dottedSegment {before after : List String} {segment : String}
    (hn : "" ∉ before ++ segment :: after) (hb : ∀ prior ∈ before, '.' ∉ prior.toList)
    (hs : '.' ∈ segment.toList) :
    Complaint (.path (before ++ segment :: after))
      ("path segment '" ++ segment ++ "' must not contain '.'")
  | noObjects (service field : String) :
    Complaint (.batch service field 0)
      ("hydration from " ++ service ++ "." ++ field ++ " has batch size 0")

theorem Site.complaint_of_fault {site : Site} {fault : Fault} (h : site.fault? = some fault) :
    site.Complaint fault.message := by
  cases site with
  | path segments =>
    rw [fault?] at h
    split at h
    · contradiction
    · rename_i refused hr
      rw [← Option.some.inj h]
      cases Path.refused_of_ofSegments hr with
      | emptyPath => exact .noSegments
      | emptySegment he => exact .emptySegment he
      | dottedSegment hn hb hs => exact .dottedSegment hn hb hs
  | batch service field count =>
    rw [fault?] at h
    split at h
    · rename_i hc
      rw [hc, ← Option.some.inj h]
      exact .noObjects service field
    · contradiction
  | bounds start stop => contradiction

/-- If a value of the right shape for a type cannot be read, the text of the report says what is
wrong with the first of its sites that is not lawful, in the order of reading. -/
theorem JsonType.complaint_of_read (t : JsonType) {j : Json} {fault : ReadFault}
    (h : t.format.fits .strict j) (hr : t.format.read j = .error fault) :
    ∃ before site after broken, t.scan.reading j = before ++ site :: after ∧
      (∀ prior ∈ before, prior.Lawful) ∧ fault = .rule broken ∧ site.Complaint broken.message := by
  have hs : ReadsExactly t.scan t.sites j (t.format.read j) := t.scanned .strict j h
  rw [hr] at hs
  obtain ⟨before, site, after, broken, hs, hb, hf, he⟩ := hs.of_error
  exact ⟨before, site, after, broken, hs, hb, he, Site.complaint_of_fault hf⟩

/-- A value of the right shape for a type can be read exactly if all its paths and batch sizes are
lawful.  Otherwise what is wrong with the first that is not, in the order of reading, is
reported. -/
theorem JsonType.read_eq_of_fits (t : JsonType) {j : Json} (h : t.format.fits .strict j) :
    ((∃ v, t.format.read j = .ok v) ↔ ∀ site ∈ t.scan.reading j, site.Lawful) ∧
    ∀ before site after, t.scan.reading j = before ++ site :: after →
      (∀ prior ∈ before, prior.Lawful) → ¬site.Lawful →
      ∃ fault, site.fault? = some fault ∧ t.format.read j = .error (.rule fault) := by
  have hr : ReadsExactly t.scan t.sites j (t.format.read j) := t.scanned .strict j h
  refine ⟨⟨fun ⟨v, hv⟩ => ?_, hr.exists_ok⟩, fun before site after hs => ?_⟩
  · rw [hv] at hr
    exact hr.of_ok.1
  · rw [ReadsExactly, hs] at hr
    exact hr.eq_error

/-- A field given by an object whose transformation is given by an array.  The hydration has a batch
size of zero and two arguments, the second with a dot in its path. -/
theorem JsonType.read_eq_of_fits_competing :
    let source (segment : String) : Json :=
      .object [("path", .array [.string "a", .string segment]), ("kind", .string "context")]
    let argument (segment : String) : Json := .array [.string "x", source segment]
    let hydration : Json := .object [("batch_size", .int 0), ("top_level_field", .string "f"),
      ("service_name", .string "S"), ("arguments", .array [argument "b", argument "c.d"])]
    let provenance : Json := .array [.array [.int 1, .int 1]]
    let j : Json := .object [("type_ref", .string "T"), ("metadata", provenance),
      ("transformation", .array [.array [.string "hydration", hydration], provenance]),
      ("name", .string "n")]
    JsonType.field.format.fits .strict j ∧
    JsonType.field.scan.reading j = [.path ["a", "b"], .path ["a", "c.d"], .batch "S" "f" 0] ∧
    JsonType.field.format.read j = .error (.rule (.dottedSegment "c.d")) := by
  intro source argument hydration provenance j
  have hf : JsonType.field.format.fits .strict j := by decide
  have hs : JsonType.field.scan.reading j =
      [.path ["a", "b"]] ++ .path ["a", "c.d"] :: [.batch "S" "f" 0] := by decide
  have hd : (Site.path ["a", "c.d"]).fault? = some (.dottedSegment "c.d") := by decide
  obtain ⟨fault, he, hr⟩ := (JsonType.field.read_eq_of_fits hf).2 _ _ _ hs (by decide) (by decide)
  rw [← Option.some.inj (hd.symm.trans he)] at hr
  exact ⟨hf, hs, hr⟩

end SchemaStitching
