import SchemaStitching.Proofs.Clauses
import SchemaStitching.Proofs.CodeLines

/-! Comments can be read off a rendered node.  If no name holds a line feed, and no name of a field
looks like a comment, then the comment lines of the text are the lines of the comments of the nodes
in pre-order, each behind the margin of its node.  A comment has the lines of its content, as
`Text.HasLines` says, and at least one. -/

namespace SchemaStitching

/-! ### Lines of a text -/

namespace Text

/-- The text is made of the lines.  A line feed ends a line, together with a carriage return just
before it, and the last line may end with the text, unless it is empty. -/
inductive HasLines : List Char → List (List Char) → Prop
  | nil : HasLines [] []
  | last {line : List Char} (hne : line ≠ []) (hn : '\n' ∉ line) : HasLines line [line]
  | newline {line rest : List Char} {lines : List (List Char)} (hn : '\n' ∉ line)
      (hr : line.getLast? ≠ some '\r') (h : HasLines rest lines) :
      HasLines (line ++ '\n' :: rest) (line :: lines)
  | returnNewline {line rest : List Char} {lines : List (List Char)} (hn : '\n' ∉ line)
      (h : HasLines rest lines) : HasLines (line ++ '\r' :: '\n' :: rest) (line :: lines)

theorem withoutReturn_of_ne {line : List Char} (h : line.getLast? ≠ some '\r') :
    withoutReturn line = line :=
  if_neg h

theorem withoutReturn_append_return (line : List Char) : withoutReturn (line ++ ['\r']) = line := by
  simp [withoutReturn]

theorem linesOf_of_notMem {line : List Char} (hne : line ≠ []) (h : '\n' ∉ line) :
    linesOf line = [line] := by
  rw [linesOf, List.splitOn_eq_singleton h]
  simp [hne]

theorem linesOf_append_newline {line : List Char} (h : '\n' ∉ line) (rest : List Char) :
    linesOf (line ++ '\n' :: rest) = withoutReturn line :: linesOf rest := by
  obtain ⟨piece, pieces, hp⟩ := List.exists_cons_of_ne_nil (List.splitOn_ne_nil '\n' rest)
  rw [linesOf, linesOf, List.splitOn_append_cons_self, List.splitOn_eq_singleton h, hp]
  rfl

theorem HasLines.eq_linesOf {text : List Char} {lines : List (List Char)}
    (h : HasLines text lines) : lines = linesOf text := by
  induction h with
  | nil => rfl
  | last hne hn => exact (linesOf_of_notMem hne hn).symm
  | newline hn hr _ ih => rw [linesOf_append_newline hn, withoutReturn_of_ne hr, ih]
  | @returnNewline line rest lines hn _ ih =>
    have ht : line ++ '\r' :: '\n' :: rest = line ++ ['\r'] ++ '\n' :: rest := by simp
    rw [ht, linesOf_append_newline (by simpa using hn), withoutReturn_append_return, ih]

theorem hasLines_linesOf (text : List Char) : HasLines text (linesOf text) := by
  by_cases h : '\n' ∈ text
  · obtain ⟨line, rest, ht, hn⟩ := List.eq_append_cons_of_mem h
    have hr : HasLines rest (linesOf rest) := hasLines_linesOf rest
    rw [ht, linesOf_append_newline hn]
    by_cases hl : line.getLast? = some '\r'
    · obtain ⟨first, rfl⟩ := List.getLast?_eq_some_iff.mp hl
      rw [withoutReturn_append_return, List.append_assoc]
      exact .returnNewline (fun hc => hn (List.mem_append_left _ hc)) hr
    · rw [withoutReturn_of_ne hl]
      exact .newline hn hl hr
  · by_cases he : text = []
    · rw [he]
      exact .nil
    · rw [linesOf_of_notMem he h]
      exact .last he h
termination_by text.length
decreasing_by
  rw [ht, List.length_append, List.length_cons]
  omega

theorem hasLines_iff {text : List Char} {lines : List (List Char)} :
    HasLines text lines ↔ lines = linesOf text := by
  constructor
  · exact HasLines.eq_linesOf
  · rintro rfl
    exact hasLines_linesOf text

theorem linesOf_ne_nil {text : List Char} (h : text ≠ []) : linesOf text ≠ [] := by
  intro hl
  have ht := hasLines_linesOf text
  rw [hl] at ht
  cases ht
  contradiction

/-- The lines of a text, split at line feeds, that are comment lines. -/
def commentLines (text : String) : List (List Char) :=
  (text.toList.splitOn '\n').filter isCommentLine

theorem commentLines_of_notMem {text : String} (h : '\n' ∉ text.toList) :
    commentLines text = [text.toList].filter isCommentLine := by
  rw [commentLines, List.splitOn_eq_singleton h]

theorem commentLines_append_newline (first rest : String) :
    commentLines (first ++ "\n" ++ rest) = commentLines first ++ commentLines rest := by
  rw [commentLines, splitOn_append_newline, List.filter_append]
  rfl

/-- A character that is neither blank nor `#` makes what follows it irrelevant. -/
theorem isCommentLine_append_cons_of_ne {c : Char} (hb : isBlank c = false) (hc : c ≠ '#')
    (first rest : List Char) : isCommentLine (first ++ c :: rest) = isCommentLine first := by
  induction first with
  | nil => simp [isCommentLine, hb, hc]
  | cons d first ih =>
    by_cases hd : isBlank d
    · simpa [isCommentLine, hd] using ih
    · simp [isCommentLine, hd]

end Text

namespace Row

/-- The row is a single line, which is a comment line only if the row belongs to a comment. -/
def IsLine : Row → Prop
  | comment _ text => '\n' ∉ text.toList
  | code _ text => '\n' ∉ text.toList ∧ Text.isCommentLine text.toList = false
  | gap => True

@[simp] theorem isLine_deeper (row : Row) : row.deeper.IsLine ↔ row.IsLine := by
  cases row <;> rfl

theorem commentLines_body {writer : Writer} (hw : writer.Plain) {row : Row} (h : row.IsLine) :
    Text.commentLines (row.body writer) =
      if row.isComment then [(row.body writer).toList] else [] := by
  cases row with
  | comment depth text =>
    have hm := hw.newline_notMem_margin depth
    have hn : '\n' ∉ text.toList := h
    rw [Text.commentLines_of_notMem (by simp [body_comment_toList, hm, hn]), body_comment_toList]
    simp [Text.isCommentLine_append_cons (hw.margin depth)]
  | code depth text =>
    have hm := hw.newline_notMem_margin depth
    obtain ⟨hn, hc⟩ := h
    rw [Text.commentLines_of_notMem (by simp [body_code_toList, hm, hn]), body_code_toList]
    simp [Text.isCommentLine_append (hw.margin depth), hc]
  | gap => rfl

/-- The rows of comments. -/
def remarks (rows : List Row) : List Row :=
  rows.filter isComment

theorem remarks_append (first second : List Row) :
    remarks (first ++ second) = remarks first ++ remarks second :=
  List.filter_append ..

theorem remarks_flatMap {α : Type} (items : List α) (rows : α → List Row) :
    remarks (items.flatMap rows) = items.flatMap fun item => remarks (rows item) :=
  List.filter_flatMap ..

theorem remarks_block (heading : String) (body : List Row) :
    remarks (block heading body) = (remarks body).map deeper := by
  simp [remarks, block, List.filter_map, Function.comp_def]

theorem remarks_separated {α : Type} (rows : α → List Row) (items : List α) :
    remarks (separated rows items) = items.flatMap fun item => remarks (rows item) := by
  cases items with
  | nil => rfl
  | cons first rest =>
    rw [separated, remarks_append, remarks_flatMap, List.flatMap_cons]
    rfl

end Row

/-- The comment lines of rows are the rows of comments, if every row is a line. -/
theorem Writer.commentLines_rowsText {writer : Writer} (hw : writer.Plain) {rows : List Row}
    (h : ∀ row ∈ rows, row.IsLine) : Text.commentLines (writer.rowsText rows) =
      (Row.remarks rows).map fun row => (row.body writer).toList := by
  induction rows with
  | nil => rfl
  | cons row rows ih =>
    rw [List.forall_mem_cons] at h
    rw [hw.rowsText_cons, Text.commentLines_append_newline, ih h.2, Row.commentLines_body hw h.1,
      Row.remarks, Row.remarks, List.filter_cons]
    split <;> rfl

/-! ### Comments in pre-order -/

/-- How many levels deeper than a node the nodes directly below it stand. -/
def Node.indentation : Node → Nat
  | .service _ | .objectType _ => 1
  | .document _ | .field _ | .transformation _ => 0

/-- A node and the nodes below it in pre-order, each with its depth: how many services and object
types enclose it, from the first node on. -/
def Node.preorder (node : Node) : List (Nat × Node) :=
  (0, node) :: node.children.attach.flatMap fun child =>
    (preorder child.val).map fun below => (below.1 + node.indentation, below.2)
termination_by node.height
decreasing_by exact height_lt_of_mem_children child.property

theorem Node.preorder_eq (node : Node) : node.preorder = (0, node) :: node.children.flatMap
    fun child => child.preorder.map fun below => (below.1 + node.indentation, below.2) := by
  rw [preorder]
  simp

/-- The lines of a comment: those of its content, or an empty one. -/
def Comment.lines (comment : Comment) : List String :=
  if comment.content = "" then [""] else Text.lines comment.content

/-- The rows of comments at the given depth. -/
def Row.ofComments (depth : Nat) (comments : List Comment) : List Row :=
  comments.flatMap fun comment => comment.lines.map (Row.comment depth)

/-- The rows of the comments of a node and of the nodes below it, in pre-order. -/
def Node.remarks (node : Node) : List Row :=
  node.preorder.flatMap fun below => Row.ofComments below.1 below.2.provenance.comments

theorem Row.ofComments_succ (depth : Nat) (comments : List Comment) :
    ofComments (depth + 1) comments = (ofComments depth comments).map deeper := by
  simp [ofComments, List.map_flatMap, Function.comp_def, deeper]

theorem Row.remarks_comments (comments : List Comment) :
    remarks (comments.flatMap Comment.rows) = ofComments 0 comments := by
  refine List.filter_eq_self.mpr fun row hr => ?_
  obtain ⟨comment, -, hr⟩ := List.mem_flatMap.mp hr
  obtain ⟨line, -, rfl⟩ := List.mem_map.mp hr
  rfl

namespace Node

theorem remarks_eq (node : Node) : node.remarks =
    Row.ofComments 0 node.provenance.comments ++ node.children.flatMap fun child =>
      child.preorder.flatMap fun below =>
        Row.ofComments (below.1 + node.indentation) below.2.provenance.comments := by
  rw [remarks, preorder_eq, List.flatMap_cons, List.flatMap_assoc]
  simp only [List.flatMap_map]

theorem remarks_of_indentation_zero {node : Node} (h : node.indentation = 0) : node.remarks =
    Row.ofComments 0 node.provenance.comments ++ node.children.flatMap remarks := by
  rw [remarks_eq, h]
  rfl

theorem remarks_of_indentation_one {node : Node} (h : node.indentation = 1) : node.remarks =
    Row.ofComments 0 node.provenance.comments ++
      (node.children.flatMap remarks).map Row.deeper := by
  rw [remarks_eq, h]
  simp only [Row.ofComments_succ, List.map_flatMap, remarks]

/-- A field has its own comments and then those of its transformation. -/
theorem remarks_field (field : Field) :
    (Node.field field).remarks = Row.ofComments 0 field.comments := by
  have hx (transformation : Transformation) : (Node.transformation transformation).remarks =
      Row.ofComments 0 transformation.provenance.comments := by
    rw [remarks_of_indentation_zero rfl]
    exact List.append_nil _
  rw [remarks_of_indentation_zero rfl, children, List.flatMap_map, Field.comments]
  cases field.transformation with
  | none => exact List.append_nil _
  | some transformation =>
    rw [Option.toList_some, List.flatMap_singleton, hx]
    exact List.flatMap_append.symm

end Node

/-! ### The rows of comments in a rendered node -/

theorem Field.remarks_rows (field : Field) :
    Row.remarks field.rows = (Node.field field).remarks := by
  rw [rows, Row.remarks_append, Row.remarks_comments, Node.remarks_field]
  exact List.append_nil _

theorem ObjectType.remarks_rows (type : ObjectType) :
    Row.remarks type.rows = (Node.objectType type).remarks := by
  rw [rows, Row.remarks_append, Row.remarks_comments, Row.remarks_block, Row.remarks_flatMap,
    Node.remarks_of_indentation_one rfl, Node.children, List.flatMap_map]
  simp only [Field.remarks_rows]
  rfl

theorem Service.remarks_rows (service : Service) :
    Row.remarks service.rows = (Node.service service).remarks := by
  rw [rows, Row.remarks_append, Row.remarks_comments, Row.remarks_block, Row.remarks_separated,
    Node.remarks_of_indentation_one rfl, Node.children, List.flatMap_map]
  simp only [ObjectType.remarks_rows]
  rfl

theorem Document.remarks_rows (document : Document) :
    Row.remarks document.rows = (Node.document document).remarks := by
  rw [rows, Row.remarks_append, Row.remarks_comments, Row.remarks_separated,
    Node.remarks_of_indentation_zero rfl, Node.children, List.flatMap_map]
  simp only [Service.remarks_rows]
  rfl

theorem Node.remarks_rows {node : Node} (h : node.kind ≠ .transformation) :
    Row.remarks node.rows = node.remarks := by
  cases node with
  | document d => exact d.remarks_rows
  | service s => exact s.remarks_rows
  | objectType t => exact t.remarks_rows
  | field f => exact f.remarks_rows
  | transformation => exact absurd rfl h

/-! ### Rows of code -/

/-- The texts that the code of an object type is made of, apart from what stands between them. -/
def ObjectType.texts (type : ObjectType) : List String :=
  type.name :: type.fields.flatMap Field.texts

def Service.texts (service : Service) : List String :=
  service.name :: service.types.flatMap ObjectType.texts

def Document.texts (document : Document) : List String :=
  document.services.flatMap Service.texts

def Node.texts : Node → List String
  | .document d => d.texts
  | .service s => s.texts
  | .objectType t => t.texts
  | .field f => f.texts
  | .transformation x => x.payload.texts

def Service.fields (service : Service) : List Field :=
  service.types.flatMap ObjectType.fields

def Document.fields (document : Document) : List Field :=
  document.services.flatMap Service.fields

/-- The fields in the tree below a node, with the node itself. -/
def Node.fields : Node → List Field
  | .document d => d.fields
  | .service s => s.fields
  | .objectType t => t.fields
  | .field f => [f]
  | .transformation _ => []

namespace Row

/-- Whether a predicate holds of the text of a row, if this is a row of code. -/
def CodeIs (p : String → Prop) : Row → Prop
  | code _ text => p text
  | comment .. | gap => True

@[simp] theorem codeIs_deeper {p : String → Prop} (row : Row) :
    row.deeper.CodeIs p ↔ row.CodeIs p := by
  cases row <;> rfl

/-- The predicate holds of the rows that begin and end blocks, whatever the names of these are, as
long as they are on one line. -/
structure BoundsBlocks (p : String → Prop) : Prop where
  service : ∀ name : String, '\n' ∉ name.toList → p ("service " ++ name ++ " \x7b")
  type : ∀ name : String, '\n' ∉ name.toList → p ("type " ++ name ++ " \x7b")
  closing : p "\x7d"

end Row

section code

variable {p : String → Prop}

theorem ObjectType.codeIs_of_mem_bare_rows {type : ObjectType} (hp : Row.BoundsBlocks p)
    (ht : ∀ text ∈ type.texts, '\n' ∉ text.toList)
    (hf : ∀ field ∈ type.fields, '\n' ∉ field.clause.toList → p field.clause) :
    ∀ row ∈ Row.bare type.rows, row.CodeIs p := by
  rw [texts, List.forall_mem_cons, List.forall_mem_flatMap] at ht
  rw [bare_rows, Row.forall_mem_block, List.forall_mem_map]
  exact ⟨hp.type _ ht.1,
    fun field h => hf field h (Field.clause_newline_notMem (ht.2 field h)), hp.closing⟩

theorem Service.codeIs_of_mem_bare_rows {service : Service} (hp : Row.BoundsBlocks p)
    (ht : ∀ text ∈ service.texts, '\n' ∉ text.toList)
    (hf : ∀ field ∈ service.fields, '\n' ∉ field.clause.toList → p field.clause) :
    ∀ row ∈ Row.bare service.rows, row.CodeIs p := by
  rw [texts, List.forall_mem_cons, List.forall_mem_flatMap] at ht
  rw [fields, List.forall_mem_flatMap] at hf
  rw [bare_rows, Row.forall_mem_block]
  simp only [Row.codeIs_deeper]
  exact ⟨hp.service _ ht.1, Row.forall_mem_separated trivial fun type h =>
    ObjectType.codeIs_of_mem_bare_rows hp (ht.2 type h) (hf type h), hp.closing⟩

theorem Document.codeIs_of_mem_bare_rows {document : Document} (hp : Row.BoundsBlocks p)
    (ht : ∀ text ∈ document.texts, '\n' ∉ text.toList)
    (hf : ∀ field ∈ document.fields, '\n' ∉ field.clause.toList → p field.clause) :
    ∀ row ∈ Row.bare document.rows, row.CodeIs p := by
  rw [texts, List.forall_mem_flatMap] at ht
  rw [fields, List.forall_mem_flatMap] at hf
  rw [bare_rows]
  exact Row.forall_mem_separated trivial fun service h =>
    Service.codeIs_of_mem_bare_rows hp (ht service h) (hf service h)

/-- If no text in a node holds a line feed, what holds of the rows around blocks and of the clauses
of fields holds of all rows of code. -/
theorem Node.codeIs_of_mem_rows {node : Node} (hp : Row.BoundsBlocks p)
    (ht : ∀ text ∈ node.texts, '\n' ∉ text.toList)
    (hf : ∀ field ∈ node.fields, '\n' ∉ field.clause.toList → p field.clause) :
    ∀ row ∈ node.rows, row.CodeIs p := by
  have hb : ∀ row ∈ Row.bare node.rows, row.CodeIs p := by
    cases node with
    | document d => exact Document.codeIs_of_mem_bare_rows hp ht hf
    | service s => exact Service.codeIs_of_mem_bare_rows hp ht hf
    | objectType t => exact ObjectType.codeIs_of_mem_bare_rows hp ht hf
    | field f =>
      rw [rows, Field.bare_rows, List.forall_mem_singleton]
      exact hf f List.mem_cons_self (Field.clause_newline_notMem ht)
    | transformation => exact List.forall_mem_nil _
  intro row hr
  cases row with
  | comment => trivial
  | code | gap => exact hb _ (List.mem_filter.mpr ⟨hr, rfl⟩)

end code

theorem Node.isLine_rows {node : Node} (ht : ∀ text ∈ node.texts, '\n' ∉ text.toList)
    (hf : ∀ field ∈ node.fields, Text.isCommentLine field.name.toList = false) :
    ∀ row ∈ node.rows, row.IsLine := by
  have hc : ∀ row ∈ node.rows, row.CodeIs fun text =>
      '\n' ∉ text.toList ∧ Text.isCommentLine text.toList = false := by
    refine codeIs_of_mem_rows ⟨fun name hn => ?_, fun name hn => ?_, by decide⟩ ht
      fun field h hn => ⟨hn, ?_⟩
    · exact ⟨by simp [hn], by simp [Text.isCommentLine, Text.isBlank]⟩
    · exact ⟨by simp [hn], by simp [Text.isCommentLine, Text.isBlank]⟩
    · rw [Field.clause_toList, Text.isCommentLine_append_cons_of_ne rfl (by decide), hf field h]
  intro row hr
  cases row with
  | comment => exact node.rows_oneLine _ hr
  | code => exact hc _ hr
  | gap => trivial

/-! ### Comment lines of texts -/

theorem Comment.lines_ne_nil (comment : Comment) : comment.lines ≠ [] := by
  rw [lines]
  split
  · exact List.cons_ne_nil _ _
  · rename_i h
    rw [Text.lines, Ne, List.map_eq_nil_iff]
    exact Text.linesOf_ne_nil (mt String.toList_eq_nil_iff.mp h)

theorem Comment.hasLines_iff {comment : Comment} (h : comment.content ≠ "") (lines : List String) :
    Text.HasLines comment.content.toList (lines.map String.toList) ↔ lines = comment.lines := by
  have hl : comment.lines.map String.toList = Text.linesOf comment.content.toList := by
    rw [Comment.lines, if_neg h]
    simp [Text.lines, Function.comp_def]
  rw [Text.hasLines_iff, ← hl]
  exact List.map_inj_right fun _ _ => String.toList_injective

/-- If the texts in a node hold no line feed, and the names of its fields do not look like comments,
then the comment lines of its text are the lines of the comments of the node and of the nodes below
it, in pre-order, each behind four spaces for each service and object type around it.  A comment has
the lines of its content, and a single empty line if it has no content. -/
theorem Node.commentLines_text_eq_preorder {node : Node} (hk : node.kind ≠ .transformation)
    (ht : ∀ text ∈ node.texts, '\n' ∉ text.toList)
    (hf : ∀ field ∈ node.fields, Text.isCommentLine field.name.toList = false) :
    Text.commentLines node.text = node.preorder.flatMap (fun below =>
      below.2.provenance.comments.flatMap fun comment => comment.lines.map fun line =>
        List.replicate (4 * below.1) ' ' ++ '#' :: line.toList) ∧
    ∀ comment : Comment,
      comment.lines ≠ [] ∧
      (comment.content = "" → comment.lines = [""]) ∧
      (comment.content ≠ "" → ∀ lines : List String,
        Text.HasLines comment.content.toList (lines.map String.toList) ↔
          lines = comment.lines) := by
  have hw : Writer.Plain {} := Writer.plain_of_indent (by simp [Text.isBlank])
  have hb (depth : Nat) (line : String) : ((Row.comment depth line).body {}).toList =
      List.replicate (4 * depth) ' ' ++ '#' :: line.toList := by
    rw [Row.body_comment_toList, Row.margin_toList]
  refine ⟨?_, fun comment =>
    ⟨comment.lines_ne_nil, fun h => if_pos h, Comment.hasLines_iff⟩⟩
  rw [text, render_eq hk, Writer.text_writeRows, String.empty_append,
    Writer.commentLines_rowsText hw (isLine_rows ht hf), remarks_rows hk, remarks]
  simp only [Row.ofComments, List.map_flatMap, List.map_map, Function.comp_def, hb]

/-- Comments at every level: with both endings of lines, without content, with an empty line alone,
and with a return that ends no line. -/
theorem Node.commentLines_text_eq_preorder_endings :
    let remark (content : String) : Provenance := { comments := [⟨content, default⟩] }
    let mapping : Mapping := ⟨⟨["#id"], by decide, by decide⟩⟩
    let field : Field := {
      name := "\t id"
      typeRef := "ID # here"
      transformation := some ⟨.mapping mapping, remark "#a\r"⟩
      provenance := remark "\n" }
    let type : ObjectType := { name := "T", fields := [field], provenance := remark "" }
    let document : Document := {
      services := [{ name := "#S", types := [type] }]
      provenance := remark " one\r\n\ttwo\n" }
    let node := Node.document document
    node.kind ≠ .transformation ∧
    (∀ text ∈ node.texts, '\n' ∉ text.toList) ∧
    (∀ field ∈ node.fields, Text.isCommentLine field.name.toList = false) ∧
    (Text.commentLines node.text).map String.ofList =
      ["# one", "#\ttwo", "    #", "        #", "        ##a\r"] := by
  intro remark mapping field type document node
  have hk : node.kind ≠ .transformation := nofun
  have ht : ∀ text ∈ node.texts, '\n' ∉ text.toList := by decide
  have hf : ∀ field ∈ node.fields, Text.isCommentLine field.name.toList = false := by decide
  refine ⟨hk, ht, hf, ?_⟩
  rw [(Node.commentLines_text_eq_preorder hk ht hf).1]
  simp [node, document, type, field, remark, Node.preorder_eq (.document _),
    Node.preorder_eq (.service _), Node.preorder_eq (.objectType _), Node.preorder_eq (.field _),
    Node.preorder_eq (.transformation _), Node.children, Node.provenance, Node.indentation]
  decide

end SchemaStitching
