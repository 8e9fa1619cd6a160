import SchemaStitching.Proofs.Clauses
import SchemaStitching.Proofs.PathVerdicts

/-! The texts of paths.  The dots of a text cut it into pieces, and joining the pieces gives the
text back.  No piece holds a dot, so a text denotes a path exactly if none of its pieces is empty,
and the pieces of the text of a path are its segments.  So paths and such texts stand for each
other, and the text of a source tells its origin and its path. -/

namespace SchemaStitching

namespace Path

/-- The pieces into which dots cut a text. -/
def pieces (text : String) : List String :=
  (text.toList.splitOn '.').map String.ofList

theorem pieces_ne_nil (text : String) : pieces text ≠ [] := by
  simp [pieces, List.splitOn_ne_nil]

theorem dot_notMem_of_mem_pieces {text piece : String} (h : piece ∈ pieces text) :
    '.' ∉ piece.toList := by
  obtain ⟨chars, hc, rfl⟩ := List.mem_map.mp h
  rw [String.toList_ofList]
  exact Text.notMem_of_mem_splitOn hc

theorem join_pieces (text : String) : join (pieces text) = text := by
  apply String.toList_injective
  have hp : (pieces text).map String.toList = text.toList.splitOn '.' := by
    simp [pieces, Function.comp_def]
  rw [join, String.toList_intercalate, hp]
  exact List.intercalate_splitOn '.'

theorem pieces_dotted (path : Path) : pieces path.dotted = path.segments := by
  have hs : ∀ chars ∈ path.segments.map String.toList, '.' ∉ chars := by
    rw [List.forall_mem_map]
    exact fun segment mem => (path.isSegment_of_mem segment mem).2
  have hn : path.segments.map String.toList ≠ [] := by simp [path.segments_ne_nil]
  rw [pieces, dotted_toList, List.splitOn_intercalate '.' hs hn]
  simp [Function.comp_def]

theorem empty_notMem_segments (path : Path) : "" ∉ path.segments :=
  fun h => (path.isSegment_of_mem "" h).1 rfl

theorem dotted_ne_empty (path : Path) : path.dotted ≠ "" := by
  intro h
  have hp : path.segments = [""] := by rw [← pieces_dotted, h]; rfl
  exact path.empty_notMem_segments (by simp [hp])

theorem parse_of_ne_empty {text : String} (h : text ≠ "") :
    parse text = ofSegments (pieces text) := by
  rw [parse, if_neg h, pieces]

theorem parse_eq_ok_iff {text : String} {path : Path} :
    parse text = .ok path ↔ path.dotted = text := by
  constructor
  · intro h
    have hn : text ≠ "" := by
      rintro rfl
      contradiction
    rw [parse_of_ne_empty hn, ofSegments_eq_ok_iff] at h
    rw [dotted, h, join_pieces]
  · rintro rfl
    rw [parse_of_ne_empty path.dotted_ne_empty, ofSegments_eq_ok_iff, pieces_dotted]

/-- No piece of a text holds a dot, so that only an empty one can be wrong. -/
theorem refused_pieces_iff {text : String} {fault : Fault} :
    Refused (pieces text) fault ↔ "" ∈ pieces text ∧ fault = .emptySegment text := by
  constructor
  · intro h
    generalize hs : pieces text = segments at h
    cases h with
    | emptyPath => exact absurd hs (pieces_ne_nil text)
    | emptySegment h => exact ⟨h, by rw [← hs, join_pieces]⟩
    | @dottedSegment before after segment _ _ hd =>
      have hm : segment ∈ pieces text := by simp [hs]
      exact absurd hd (dot_notMem_of_mem_pieces hm)
  · rintro ⟨h, rfl⟩
    have hr := Refused.emptySegment h
    rwa [join_pieces] at hr

theorem parse_eq_error_iff {text : String} {fault : Fault} : parse text = .error fault ↔
    text = "" ∧ fault = .emptyPath ∨
      text ≠ "" ∧ "" ∈ pieces text ∧ fault = .emptySegment text := by
  by_cases hn : text = ""
  · rw [hn]
    simp [parse, eq_comm]
  · rw [parse_of_ne_empty hn, ofSegments_eq_error_iff, refused_pieces_iff]
    simp [hn]

theorem exists_parse_eq_ok_iff {text : String} :
    (∃ path, parse text = .ok path) ↔ text ≠ "" ∧ "" ∉ pieces text := by
  constructor
  · rintro ⟨path, h⟩
    rw [parse_eq_ok_iff] at h
    rw [← h, pieces_dotted]
    exact ⟨path.dotted_ne_empty, path.empty_notMem_segments⟩
  · rintro ⟨hn, he⟩
    cases h : parse text with
    | ok path => exact ⟨path, rfl⟩
    | error fault =>
      rcases parse_eq_error_iff.mp h with ⟨hn', -⟩ | ⟨-, he', -⟩
      · exact absurd hn' hn
      · exact absurd he' he

/-- A piece of a text is empty if there is a dot at the start or at the end, or two in a row. -/
theorem empty_mem_pieces_iff {text : String} (h : text ≠ "") : "" ∈ pieces text ↔
    ['.'] <+: text.toList ∨ ['.'] <:+ text.toList ∨ ['.', '.'] <:+: text.toList := by
  have hp : "" ∈ pieces text ↔ [] ∈ text.toList.splitOn '.' := by
    simp [pieces, String.ofList_eq_empty_iff]
  rw [hp, Text.nil_mem_splitOn_iff_tail, Text.nil_mem_tail_splitOn_iff]
  simp [h]

end Path

namespace Mapping

variable {text : String}

theorem parse_eq_ok_iff {mapping : Mapping} :
    parse text = .ok mapping ↔ mapping.path.dotted = text := by
  constructor
  · intro h
    obtain ⟨path, hp, rfl⟩ := map_eq_ok.mp h
    exact Path.parse_eq_ok_iff.mp hp
  · intro h
    exact map_eq_ok.mpr ⟨mapping.path, Path.parse_eq_ok_iff.mpr h, rfl⟩

theorem exists_parse_eq_ok_iff :
    (∃ mapping, parse text = .ok mapping) ↔ ∃ path, Path.parse text = .ok path := by
  constructor
  · rintro ⟨mapping, h⟩
    obtain ⟨path, hp, -⟩ := map_eq_ok.mp h
    exact ⟨path, hp⟩
  · rintro ⟨path, hp⟩
    exact ⟨⟨path⟩, map_eq_ok.mpr ⟨path, hp, rfl⟩⟩

/-- A mapping is parsed from the text that it is printed as, and from no other.  The texts of
mappings are those that are not empty, have no dot at the start or at the end, and no two in a row.
An empty text is refused as such, and any other text as a whole, for an empty piece. -/
theorem parse_inverts_dotted :
    (∀ text,
      (∀ mapping, parse text = .ok mapping ↔ mapping.path.dotted = text) ∧
      ((∃ mapping, parse text = .ok mapping) ↔ text ≠ "" ∧ ¬['.'] <+: text.toList ∧
        ¬['.'] <:+ text.toList ∧ ¬['.', '.'] <:+: text.toList) ∧
      ∀ fault, parse text = .error fault ↔ text = "" ∧ fault = .emptyPath ∨
        text ≠ "" ∧ "" ∈ Path.pieces text ∧ fault = .emptySegment text) ∧
    ∀ a b : Mapping, toString a = toString b ↔ a = b := by
  refine ⟨fun text => ⟨fun mapping => parse_eq_ok_iff, ?_, fun fault => ?_⟩, fun a b => ?_⟩
  · rw [exists_parse_eq_ok_iff, Path.exists_parse_eq_ok_iff]
    refine and_congr_right fun hn => ?_
    rw [Path.empty_mem_pieces_iff hn, not_or, not_or]
  · exact map_eq_error.trans Path.parse_eq_error_iff
  · refine ⟨fun h => ?_, congrArg toString⟩
    have ha : parse (toString a) = .ok a := parse_eq_ok_iff.mpr rfl
    have hb : parse (toString a) = .ok b := parse_eq_ok_iff.mpr h.symm
    exact Except.ok.inj (ha.symm.trans hb)

end Mapping

namespace Source

theorem objectField_eq_ok_iff {text : String} {source : Source} :
    objectField text = .ok source ↔ source.origin = .objectField ∧ source.path.dotted = text := by
  constructor
  · intro h
    obtain ⟨path, hp, rfl⟩ := map_eq_ok.mp h
    exact ⟨rfl, Path.parse_eq_ok_iff.mp hp⟩
  · rintro ⟨ho, hd⟩
    exact map_eq_ok.mpr ⟨source.path, Path.parse_eq_ok_iff.mpr hd, by rw [← ho]⟩

/-- No other variable begins the text of a source from the hydrated object. -/
theorem toString_eq_append_iff {text : String} {source : Source} :
    toString source = "$source." ++ text ↔ objectField text = .ok source := by
  have hv : "$source." ++ text = Origin.objectField.variableName ++ "." ++ text := by rfl
  rw [hv, objectField_eq_ok_iff]
  constructor
  · exact Origin.variableName_append_inj
  · rintro ⟨ho, rfl⟩
    rw [← ho]
    rfl

/-- The text of a source tells its origin and its path, and a source from the hydrated object is
built from what its text has after the name of that object. -/
theorem toString_determines (source : Source) :
    (∀ other : Source, toString source = toString other ↔
      source.origin = other.origin ∧ source.path.segments = other.path.segments) ∧
    (∀ text, toString source = "$source." ++ text ↔ objectField text = .ok source) ∧
    (source.origin = .objectField ↔
      ∃ text, toString source = "$source." ++ text ∧ objectField text = .ok source) := by
  refine ⟨fun other => ⟨fun h => ?_, ?_⟩, fun text => toString_eq_append_iff,
    ⟨fun ho => ?_, ?_⟩⟩
  · rw [toString_injective h]
    exact ⟨rfl, rfl⟩
  · rintro ⟨ho, hs⟩
    show source.origin.variableName ++ "." ++ Path.join source.path.segments = _
    rw [ho, hs]
    rfl
  · have hp : objectField source.path.dotted = .ok source := objectField_eq_ok_iff.mpr ⟨ho, rfl⟩
    exact ⟨source.path.dotted, toString_eq_append_iff.mpr hp, hp⟩
  · rintro ⟨text, -, hp⟩
    exact (objectField_eq_ok_iff.mp hp).1

end Source

end SchemaStitching
