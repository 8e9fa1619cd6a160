import SchemaStitching.Fault

/-! Dotted paths into the objects of a service.  Every way to build a path enforces the same rules,
so that two paths with the same text are equal. -/

namespace SchemaStitching

/-- Whether a string can be a segment of a path: it is not empty and holds no dot. -/
def IsSegment (segment : String) : Prop :=
  segment ≠ "" ∧ '.' ∉ segment.toList

instance : DecidablePred IsSegment :=
  fun segment => inferInstanceAs (Decidable (segment ≠ "" ∧ '.' ∉ segment.toList))

/-- The names that lead to a value, from the outermost object inwards. -/
structure Path where
  segments : List String
  segments_ne_nil : segments ≠ []
  isSegment_of_mem : ∀ segment ∈ segments, IsSegment segment
  deriving DecidableEq, Hashable

namespace Path

/-- Segments joined with dots. -/
def join (segments : List String) : String :=
  ".".intercalate segments

/-- The text of a path: its segments joined with dots. -/
def dotted (path : Path) : String :=
  join path.segments

instance : ToString Path where
  toString := dotted

/-- Whether a path leads below the top level of the outermost object. -/
def isNested (path : Path) : Bool :=
  1 < path.segments.length

/-- The path with the given segments.  An empty segment is reported before one with a dot, and of
several with a dot the first is reported. -/
def ofSegments (segments : List String) : Except Fault Path :=
  if noSegments : segments = [] then .error .emptyPath
  else if hasEmpty : "" ∈ segments then .error (.emptySegment (join segments))
  else
    match findDotted : segments.find? fun segment => '.' ∈ segment.toList with
    | some segment => .error (.dottedSegment segment)
    | none => .ok {
        segments
        segments_ne_nil := noSegments
        isSegment_of_mem := fun _ mem =>
          ⟨fun empty => hasEmpty (empty ▸ mem),
            fun dot => List.find?_eq_none.mp findDotted _ mem (decide_eq_true dot)⟩ }

/-- Every path is the path with its segments. -/
theorem ofSegments_segments (path : Path) : ofSegments path.segments = .ok path := by
  have noEmpty : "" ∉ path.segments := fun mem => (path.isSegment_of_mem _ mem).1 rfl
  have noDot : path.segments.find? (fun segment => '.' ∈ segment.toList) = none :=
    List.find?_eq_none.mpr fun segment mem => by simpa using (path.isSegment_of_mem segment mem).2
  unfold ofSegments
  rw [dif_neg path.segments_ne_nil, dif_neg noEmpty]
  split
  · simp_all
  · rfl

/-- The path that a text such as `author.id` denotes. -/
def parse (text : String) : Except Fault Path :=
  if text = "" then .error .emptyPath
  else ofSegments ((text.toList.splitOn '.').map String.ofList)

/-- The path whose only segment is the given name. -/
def ofName (name : String) : Except Fault Path :=
  if name = "" then .error .emptyPath else ofSegments [name]

end Path

end SchemaStitching
