import SchemaStitching.Proofs.Obtained
import SchemaStitching.Proofs.SpanTexts

/-! The order of the bounds of spans.  `Span.ofBounds` refuses bounds in the wrong order, and a span
whose bounds are in order is empty exactly if it has no length.  Reading takes the bounds of every
span from the JSON value as they stand there, at any depth, and refuses none for their order.  So
of the spans in a value that is obtained with spans from `Span.ofBounds`, only those whose bounds
were read can have them in the wrong order. -/

namespace SchemaStitching

namespace Span

/-- Whether the start does not come after the end. -/
def Ordered (span : Span) : Prop := span.start ≤ span.stop

/-- Whether the span is one that `ofBounds` builds. -/
def Built (span : Span) : Prop := ∃ start stop, ofBounds start stop = .ok span

theorem built_iff {span : Span} : span.Built ↔ span.Ordered := by
  constructor
  · rintro ⟨start, stop, h⟩
    rw [ofBounds] at h
    split at h
    · rw [← Except.ok.inj h]
      assumption
    · contradiction
  · exact fun h => ⟨span.start, span.stop, if_pos h⟩

theorem length_eq_zero_iff {span : Span} : span.length = 0 ↔ span.stop ≤ span.start := by
  rw [← UInt64.toNat_inj, length_toNat, UInt64.le_iff_toNat_le]
  exact Nat.sub_eq_zero_iff_le

/-- The two ways to ask whether a span is empty agree just on spans whose bounds are in order. -/
theorem isEmpty_iff_length_eq_zero_iff {span : Span} :
    (span.isEmpty ↔ span.length = 0) ↔ span.Ordered := by
  rw [isEmpty_iff, length_eq_zero_iff, Ordered]
  constructor
  · intro h
    rcases UInt64.le_total span.start span.stop with ho | ho
    · exact ho
    · rw [h.mpr ho]
      exact UInt64.le_refl _
  · intro ho
    constructor
    · intro he
      rw [he]
      exact UInt64.le_refl _
    · exact fun he => UInt64.le_antisymm ho he

/-- The bounds as the numbers that they are. -/
def bounds (span : Span) : Int × Int := (span.start.toNat, span.stop.toNat)

end Span

theorem JsonType.mem_spans {t : JsonType} {v : t.Value} {span : Span} :
    span ∈ t.spans v ↔ .span span ∈ t.leaves v := by
  rw [spans, List.mem_filterMap]
  constructor
  · rintro ⟨leaf, hl, hs⟩
    cases leaf with
    | span other => rwa [← Option.some.inj hs]
    | path | batch => contradiction
  · exact fun hl => ⟨.span span, hl, rfl⟩

/-- Reading takes the bounds of all spans from the JSON value as they stand. -/
theorem JsonType.map_bounds_spans {t : JsonType} {j : Json} {v : t.Value}
    (h : t.format.read j = .ok v) : (t.spans v).map Span.bounds = t.boundsIn j := by
  have hs : (fun leaf : Leaf => leaf.span?.map Span.bounds) = Site.bounds? ∘ Leaf.site := by
    funext leaf
    cases leaf <;> rfl
  rw [boundsIn, ← (sites_of_read h).2, sites, List.filterMap_map, ← hs, spans, List.map_filterMap]

namespace Obtained

/-- In a value that is obtained with spans from `Span.ofBounds`, a span has its bounds in order and
is empty exactly if it has no length, unless its bounds were read in the wrong order: then it has no
length and is not empty.  Reading takes the bounds of all spans as they stand. -/
theorem span_ordered_unless_read {t : JsonType} {given : List Site} {v : t.Value}
    (h : Obtained Span.Built t given v) :
    (∀ span ∈ t.spans v,
      (span.start ≤ span.stop ∧ (span.isEmpty ↔ span.length = 0)) ∨
      (.bounds span.start.toNat span.stop.toNat ∈ given ∧ span.stop < span.start ∧
        span.length = 0 ∧ ¬ span.isEmpty)) ∧
    ∀ j, t.format.read j = .ok v → (t.spans v).map Span.bounds = t.boundsIn j := by
  refine ⟨fun span hs => ?_, fun j => JsonType.map_bounds_spans⟩
  by_cases ho : span.Ordered
  · exact .inl ⟨ho, Span.isEmpty_iff_length_eq_zero_iff.mpr ho⟩
  · have hg : (Leaf.span span).site ∈ given := by
      refine (h.accounted.accounted _ (JsonType.mem_spans.mp hs)).resolve_right ?_
      rintro ⟨other, he, hb⟩
      rw [Leaf.span.inj he] at ho
      exact ho (Span.built_iff.mp hb)
    have hlt : span.stop < span.start := UInt64.not_le.mp ho
    have hl : span.length = 0 := Span.length_eq_zero_iff.mpr (UInt64.le_of_lt hlt)
    -- Were it empty, the two ways to ask would agree.
    have he : ¬ span.isEmpty :=
      fun he => ho (Span.isEmpty_iff_length_eq_zero_iff.mp (iff_of_true he hl))
    exact .inr ⟨hg, hlt, hl, he⟩

/-- A field that is built with a span, and annotated with a transformation that is read with an
inverted one. -/
theorem span_ordered_unless_read_annotated :
    let given : List Site := [.path ["a"], .bounds 5 2]
    let plain : Field := { name := "n", typeRef := "T", provenance := { location :=
      { line := 1, column := 1, span := some ⟨3, 9⟩ } } }
    let x : Transformation := ⟨.mapping ⟨⟨["a"], by decide, by decide⟩⟩, { location :=
      { line := 1, column := 2, span := some ⟨5, 2⟩ } }⟩
    let field := plain.annotate x
    Obtained Span.Built .field given field ∧ JsonType.field.spans field = [⟨5, 2⟩, ⟨3, 9⟩] ∧
    ∀ span ∈ JsonType.field.spans field,
      (span.start ≤ span.stop ∧ (span.isEmpty ↔ span.length = 0)) ∨
      (.bounds span.start.toNat span.stop.toNat ∈ given ∧ span.stop < span.start ∧
        span.length = 0 ∧ ¬ span.isEmpty) := by
  intro given plain x field
  let j : Json := .array [.array [.string "mapping", .array [.array [.string "a"]]],
    .array [.array [.int 1, .int 2, .null, .array [.int 5, .int 2]]]]
  have hx : Obtained Span.Built .transformation given x := by
    have hr : Transformation.format.read j = .ok x := by rfl
    exact .read (t := .transformation) hr
  have hp : Obtained Span.Built .provenance [] plain.provenance := by
    refine ofProvenance plain.provenance (fun span hs => ?_) (List.forall_mem_nil _)
    rw [← Option.some.inj hs]
    exact ⟨3, 9, by rfl⟩
  have hf : Obtained Span.Built .field given field := (Obtained.field "n" "T" hp).annotate hx
  exact ⟨hf, rfl, hf.span_ordered_unless_read.1⟩

end Obtained

/-- Bounds that `Span.ofBounds` refuses are read as a span that has no length and is not empty. -/
theorem Span.read_inverted :
    let j : Json := .object [("start", .int 5), ("end", .int 2)]
    let span : Span := ⟨5, 2⟩
    JsonType.span.format.read j = .ok span ∧ Span.ofBounds 5 2 = .error ⟨5, 2⟩ ∧
    span ∈ JsonType.span.spans span ∧ ¬ span.start ≤ span.stop ∧
    span.length = 0 ∧ ¬ span.isEmpty := by
  have hr : Span.format.read (.object [("start", .int 5), ("end", .int 2)]) = .ok ⟨5, 2⟩ := by rfl
  exact ⟨hr, by rfl, List.mem_singleton_self _, by decide, by decide, by decide⟩

end SchemaStitching
