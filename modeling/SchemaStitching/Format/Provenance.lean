import SchemaStitching.Format
import SchemaStitching.Provenance

/-! The formats of spans, locations, comments, and provenance. -/

namespace SchemaStitching

/-- The order of the bounds is not checked. -/
def Span.format : Format Span :=
  .built (.record (.required "start" .word64 <| .required "end" .word64 .none))
    (fun (start, stop, ()) => { start, stop })
    (fun span => (span.start, span.stop, ()))
    (fun _ => rfl)

def Location.format : Format Location :=
  .built
    (.record (.required "line" .word32 <| .required "column" .word32 <|
      .optional "source_name" .text <| .optional "span" Span.format .none))
    (fun (line, column, sourceName, span, ()) => { line, column, sourceName, span })
    (fun location => (location.line, location.column, location.sourceName, location.span, ()))
    (fun _ => rfl)

def Comment.format : Format Comment :=
  .built (.record (.required "content" .text <| .required "location" Location.format .none))
    (fun (content, location, ()) => { content, location })
    (fun comment => (comment.content, comment.location, ()))
    (fun _ => rfl)

def Provenance.format : Format Provenance :=
  .built
    (.record (.required "location" Location.format <|
      .list "comments" Comment.format false .none))
    (fun (location, comments, ()) => { location, comments })
    (fun provenance => (provenance.location, provenance.comments, ()))
    (fun _ => rfl)

end SchemaStitching
