import SchemaStitching.Node
import SchemaStitching.Writer

/-! Nodes as text.  Every field has a line of its own, comments stand above the node to which they
belong, and a transformation follows the type of its field:

    service IssueService {
        type Issue {
            key: String => renamed from details.key
            # resolved per issue
            author: User => hydrated from UserService.user(id: $source.authorId)
        }
    }
-/

namespace SchemaStitching

/-- The call of a hydration: its target, its arguments if it has any, and how it is batched. -/
def Hydration.clause (hydration : Hydration) : String :=
  let arguments :=
    if hydration.arguments.isEmpty then ""
    else "(" ++ ", ".intercalate (hydration.arguments.map toString) ++ ")"
  let identifier :=
    match hydration.identifier with
    | some identifier => " object identified by " ++ identifier
    | none => ""
  let batch :=
    match hydration.batchSize with
    | some size =>
      (if hydration.identifier.isSome then ", batch size " else " batch size ") ++
        toString size.count
    | none => ""
  hydration.target ++ arguments ++ identifier ++ batch

/-- What follows the type of a field that carries the payload. -/
def Payload.clause : Payload → String
  | .mapping definition => "=> renamed from " ++ definition.path.dotted
  | .hydration definition => "=> hydrated from " ++ definition.clause

/-- A transformation by itself is written without its comments, which the field writes, and without
the end of a line. -/
def Transformation.render (transformation : Transformation) (writer : Writer) : Writer :=
  writer.write transformation.payload.clause

/-- The comments above a field: its own, and then those of its transformation. -/
def Field.comments (field : Field) : List Comment :=
  match field.transformation with
  | none => field.provenance.comments
  | some transformation => field.provenance.comments ++ transformation.provenance.comments

/-- A field without what stands around it: its name, its type, and what it carries. -/
def Field.clause (field : Field) : String :=
  let declaration := field.name ++ ": " ++ field.typeRef
  match field.transformation with
  | none => declaration
  | some transformation => declaration ++ " " ++ transformation.payload.clause

def Field.render (field : Field) (writer : Writer) : Writer :=
  ((writer.comments field.comments).margin.write field.clause).endLine

def ObjectType.render (type : ObjectType) (writer : Writer) : Writer :=
  (writer.comments type.provenance.comments).block ("type " ++ type.name) fun inside =>
    inside.all Field.render type.fields

def Service.render (service : Service) (writer : Writer) : Writer :=
  (writer.comments service.provenance.comments).block ("service " ++ service.name) fun inside =>
    inside.separated ObjectType.render service.types

def Document.render (document : Document) (writer : Writer) : Writer :=
  (writer.comments document.provenance.comments).separated Service.render document.services

namespace Node

def render : Node → Writer → Writer
  | .document d => d.render
  | .service s => s.render
  | .objectType t => t.render
  | .field f => f.render
  | .transformation x => x.render

/-- The text of a node under the default settings. -/
def text (node : Node) : String :=
  (node.render {}).text

end Node

end SchemaStitching
