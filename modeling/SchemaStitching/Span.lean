import SchemaStitching.Text.Bytes

/-! Byte ranges of a source text.  `Span.ofBounds` refuses bounds in the wrong order; a span that
comes from elsewhere may have them. -/

namespace SchemaStitching

/-- The bytes of a source text from `start` up to, but not including, `stop`. -/
structure Span where
  start : UInt64
  stop : UInt64
  deriving DecidableEq, Hashable

namespace Span

/-- Bounds that make no span, because the end comes before the start. -/
structure Inverted where
  start : UInt64
  stop : UInt64
  deriving DecidableEq

def Inverted.message (bounds : Inverted) : String :=
  "Span start (" ++ toString bounds.start ++ ") must be <= end (" ++ toString bounds.stop ++ ")"

/-- The span between two bounds, of which the first must not be the greater. -/
def ofBounds (start stop : UInt64) : Except Inverted Span :=
  if start ≤ stop then .ok ⟨start, stop⟩ else .error ⟨start, stop⟩

/-- The number of bytes in the span; none if its bounds are in the wrong order. -/
def length (span : Span) : UInt64 :=
  if span.start ≤ span.stop then span.stop - span.start else 0

/-- Whether the bounds coincide. -/
def isEmpty (span : Span) : Bool :=
  span.start == span.stop

/-- Whether the bounds of `inner` lie within those of `outer`. -/
def contains (outer inner : Span) : Bool :=
  outer.start ≤ inner.start && inner.stop ≤ outer.stop

/-- The part of the source that the span covers, if its bounds are in order, within the source, and
between characters. -/
def text? (span : Span) (source : String) : Option String :=
  if span.start ≤ span.stop then do
    let (_, rest) ← Text.cut? span.start.toNat source.toList
    let (covered, _) ← Text.cut? (span.stop - span.start).toNat rest
    return String.ofList covered
  else none

instance : ToString Span where
  toString span := "[" ++ toString span.start ++ ", " ++ toString span.stop ++ ")"

/-- Spans are ordered by start, then by end. -/
instance : Ord Span where
  compare := compareLex (compareOn start) (compareOn stop)

end Span

end SchemaStitching
