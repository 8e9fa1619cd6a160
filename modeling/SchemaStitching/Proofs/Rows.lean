import SchemaStitching.Rendering

/-! The rows of nodes.  A row is what a writer puts between the start of a line and an end of a
line: a line of a comment, a heading or a field, a closing brace, or the gap between two blocks.
The rows of a node are found by going through the node, with no writer at hand, and `Node.render_eq`
says that rendering writes them and changes nothing else. -/

namespace SchemaStitching

/-- A row of a rendered node.  A name may hold line feeds, so that a row of code can be more than
one line. -/
inductive Row where
  | comment (depth : Nat) (text : String)
  | code (depth : Nat) (text : String)
  | gap
  deriving DecidableEq

namespace Row

def deeper : Row → Row
  | comment depth text => comment (depth + 1) text
  | code depth text => code (depth + 1) text
  | gap => gap

def isComment : Row → Bool
  | comment .. => true
  | code .. | gap => false

@[simp] theorem isComment_comment (depth : Nat) (text : String) :
    (comment depth text).isComment = true := rfl

@[simp] theorem isComment_code (depth : Nat) (text : String) :
    (code depth text).isComment = false := rfl

@[simp] theorem isComment_deeper (row : Row) : row.deeper.isComment = row.isComment := by
  cases row <;> rfl

/-- A block: its heading, the rows inside it, and the closing brace. -/
def block (heading : String) (body : List Row) : List Row :=
  code 0 (heading ++ " \x7b") :: body.map deeper ++ [code 0 "\x7d"]

/-- The rows of all items, with a gap between any two. -/
def separated {α : Type} (rows : α → List Row) : List α → List Row
  | [] => []
  | first :: rest => rows first ++ rest.flatMap fun item => gap :: rows item

/-- What stands in front of a row at the given depth, when the writer is at depth zero. -/
def margin (writer : Writer) (depth : Nat) : String :=
  String.join writer.indents ++ String.join (List.replicate depth writer.indent)

/-- By default, four spaces stand for each level. -/
theorem margin_toList (depth : Nat) :
    (margin {} depth).toList = List.replicate (4 * depth) ' ' := by
  induction depth with
  | zero => rfl
  | succ depth ih =>
    have hs : margin {} (depth + 1) = "    " ++ margin {} depth := by
      simp [margin, List.replicate_succ]
    calc (margin {} (depth + 1)).toList
        = List.replicate 4 ' ' ++ List.replicate (4 * depth) ' ' := by
          rw [hs, String.toList_append, ih]
          rfl
      _ = List.replicate (4 * (depth + 1)) ' ' := by
          rw [List.replicate_append_replicate, Nat.mul_succ, Nat.add_comm]

/-- A row without the end of its line. -/
def body (writer : Writer) : Row → String
  | comment depth text => margin writer depth ++ "#" ++ text
  | code depth text => margin writer depth ++ text
  | gap => ""

theorem body_comment_toList (writer : Writer) (depth : Nat) (text : String) :
    ((comment depth text).body writer).toList =
      (margin writer depth).toList ++ '#' :: text.toList := by
  simp [body]

theorem body_code_toList (writer : Writer) (depth : Nat) (text : String) :
    ((code depth text).body writer).toList = (margin writer depth).toList ++ text.toList := by
  rw [body, String.toList_append]

end Row

/-- The rows of a comment: one for each line of its content, or one bare row. -/
def Comment.rows (comment : Comment) : List Row :=
  (if comment.content = "" then [""] else Text.lines comment.content).map (Row.comment 0)

def Field.rows (field : Field) : List Row :=
  field.comments.flatMap Comment.rows ++ [.code 0 field.clause]

def ObjectType.rows (type : ObjectType) : List Row :=
  type.provenance.comments.flatMap Comment.rows ++
    Row.block ("type " ++ type.name) (type.fields.flatMap Field.rows)

def Service.rows (service : Service) : List Row :=
  service.provenance.comments.flatMap Comment.rows ++
    Row.block ("service " ++ service.name) (Row.separated ObjectType.rows service.types)

def Document.rows (document : Document) : List Row :=
  document.provenance.comments.flatMap Comment.rows ++
    Row.separated Service.rows document.services

namespace Writer

/-- The text that the writer gives to rows. -/
def rowsText (writer : Writer) (rows : List Row) : String :=
  String.join (rows.map fun row => row.body writer ++ writer.newline)

/-- The writer after rows. -/
def writeRows (writer : Writer) (rows : List Row) : Writer :=
  writer.write (writer.rowsText rows)

@[simp] theorem write_empty (writer : Writer) : writer.write "" = writer := by
  simp [write]

@[simp] theorem newline_write (writer : Writer) (token : String) :
    (writer.write token).newline = writer.newline := rfl

@[simp] theorem rowsText_write (writer : Writer) (token : String) (rows : List Row) :
    (writer.write token).rowsText rows = writer.rowsText rows := rfl

theorem text_writeRows (writer : Writer) (rows : List Row) :
    (writer.writeRows rows).text = writer.text ++ writer.rowsText rows := rfl

theorem write_write (writer : Writer) (first second : String) :
    (writer.write first).write second = writer.write (first ++ second) := by
  simp [write, String.append_assoc]

theorem rowsText_cons (writer : Writer) (row : Row) (rows : List Row) :
    writer.rowsText (row :: rows) = row.body writer ++ writer.newline ++ writer.rowsText rows := by
  simp [rowsText]

theorem rowsText_append (writer : Writer) (first second : List Row) :
    writer.rowsText (first ++ second) = writer.rowsText first ++ writer.rowsText second := by
  simp [rowsText]

@[simp] theorem writeRows_nil (writer : Writer) : writer.writeRows [] = writer := by
  simp [writeRows, rowsText]

theorem writeRows_append (writer : Writer) (first second : List Row) :
    writer.writeRows (first ++ second) = (writer.writeRows first).writeRows second := by
  simp only [writeRows, rowsText_write, write_write, rowsText_append]

theorem margin_eq (writer : Writer) :
    writer.margin = writer.write (String.join writer.indents) := by
  have hf (indents : List String) : ∀ writer : Writer,
      indents.foldl write writer = writer.write (String.join indents) := by
    induction indents with
    | nil => exact fun writer => writer.write_empty.symm
    | cons indent indents ih =>
      intro writer
      rw [List.foldl_cons, ih, write_write, String.join_cons]
  exact hf writer.indents writer

/-! ### What writers do, as rows -/

theorem writeRows_code (writer : Writer) (text : String) :
    writer.writeRows [.code 0 text] = (writer.margin.write text).endLine := by
  simp [writeRows, rowsText, Row.body, Row.margin, endLine, margin_eq, write_write]

theorem writeRows_gap (writer : Writer) : writer.writeRows [.gap] = writer.endLine := by
  simp [writeRows, rowsText, Row.body, endLine]

theorem commentLine_eq (writer : Writer) (line : String) :
    writer.commentLine line = writer.writeRows [.comment 0 line] := by
  simp [commentLine, writeRows, rowsText, Row.body, Row.margin, endLine, margin_eq, write_write]

/-- With one more indent, a writer puts every row one level further in. -/
theorem rowsText_push (writer : Writer) (rows : List Row) :
    (writer.push writer.indent).rowsText rows = writer.rowsText (rows.map Row.deeper) := by
  have hb (row : Row) : row.body (writer.push writer.indent) = row.deeper.body writer := by
    cases row <;> simp [Row.body, Row.deeper, Row.margin, push, List.replicate_succ,
      String.append_assoc]
  simp only [rowsText, List.map_map, Function.comp_def, hb]
  rfl

theorem writeRows_push (writer : Writer) (rows : List Row) :
    ((writer.push writer.indent).writeRows rows).pop = writer.writeRows (rows.map Row.deeper) := by
  rw [writeRows, rowsText_push]
  simp [writeRows, write, push, pop]

section items

variable {α : Type} {render : α → Writer → Writer} {rows : α → List Row}

/-- If rendering an item writes its rows, rendering items one after the other writes the rows of
each. -/
theorem all_eq_writeRows (h : ∀ item writer, render item writer = writer.writeRows (rows item))
    (items : List α) (writer : Writer) :
    writer.all render items = writer.writeRows (items.flatMap rows) := by
  induction items generalizing writer with
  | nil => exact writer.writeRows_nil.symm
  | cons item items ih =>
    calc writer.all render (item :: items)
        = (render item writer).all render items := rfl
      _ = (writer.writeRows (rows item)).writeRows (items.flatMap rows) := by rw [ih, h]
      _ = writer.writeRows ((item :: items).flatMap rows) := by
        rw [List.flatMap_cons, writeRows_append]

theorem separated_eq_writeRows
    (h : ∀ item writer, render item writer = writer.writeRows (rows item)) (items : List α)
    (writer : Writer) :
    writer.separated render items = writer.writeRows (Row.separated rows items) := by
  have hg (item : α) (writer : Writer) :
      render item writer.endLine = writer.writeRows (.gap :: rows item) := by
    rw [h, ← writeRows_gap, ← writeRows_append]
    rfl
  cases items with
  | nil => exact writer.writeRows_nil.symm
  | cons first rest =>
    rw [separated, Row.separated, all_eq_writeRows hg, h, writeRows_append]

end items

theorem comment_eq_writeRows (comment : Comment) (writer : Writer) :
    writer.comment comment = writer.writeRows comment.rows := by
  have hl (lines : List String) : lines.foldl commentLine writer =
      writer.writeRows (lines.map (Row.comment 0)) := by
    rw [List.map_eq_flatMap]
    show writer.all (fun line writer => writer.commentLine line) lines = _
    exact all_eq_writeRows (fun line writer => writer.commentLine_eq line) lines writer
  rw [Writer.comment, Comment.rows]
  split
  · exact writer.commentLine_eq ""
  · exact hl (Text.lines comment.content)

theorem comments_eq_writeRows (writer : Writer) (comments : List Comment) :
    writer.comments comments = writer.writeRows (comments.flatMap Comment.rows) := by
  show writer.all (fun comment writer => writer.comment comment) comments = _
  exact all_eq_writeRows comment_eq_writeRows comments writer

theorem block_eq_writeRows {body : Writer → Writer} {rows : List Row}
    (h : ∀ writer, body writer = writer.writeRows rows) (heading : String) (writer : Writer) :
    writer.block heading body = writer.writeRows (Row.block heading rows) := by
  let headed := writer.writeRows [.code 0 (heading ++ " \x7b")]
  have hh : ((writer.margin.write heading).write " \x7b").endLine = headed := by
    rw [write_write, ← writeRows_code]
  have hb : (body (headed.push writer.indent)).pop = headed.writeRows (rows.map Row.deeper) := by
    rw [h]
    exact writeRows_push headed rows
  calc writer.block heading body
      = (((body (headed.push writer.indent)).pop.margin.write "\x7d").endLine) := by rw [block, hh]
    _ = (headed.writeRows (rows.map Row.deeper)).writeRows [.code 0 "\x7d"] := by
      rw [hb, writeRows_code]
    _ = writer.writeRows (Row.block heading rows) := by
      simp only [headed, ← writeRows_append]
      rfl

end Writer

/-! ### The rows of nodes -/

theorem Field.render_eq (field : Field) (writer : Writer) :
    field.render writer = writer.writeRows field.rows := by
  rw [render, Writer.comments_eq_writeRows, ← Writer.writeRows_code, rows, Writer.writeRows_append]

theorem ObjectType.render_eq (type : ObjectType) (writer : Writer) :
    type.render writer = writer.writeRows type.rows := by
  rw [render, Writer.comments_eq_writeRows, rows, Writer.writeRows_append]
  exact Writer.block_eq_writeRows (Writer.all_eq_writeRows Field.render_eq type.fields) _ _

theorem Service.render_eq (service : Service) (writer : Writer) :
    service.render writer = writer.writeRows service.rows := by
  rw [render, Writer.comments_eq_writeRows, rows, Writer.writeRows_append]
  exact Writer.block_eq_writeRows (Writer.separated_eq_writeRows ObjectType.render_eq service.types)
    _ _

theorem Document.render_eq (document : Document) (writer : Writer) :
    document.render writer = writer.writeRows document.rows := by
  rw [render, Writer.comments_eq_writeRows, rows, Writer.writeRows_append]
  exact Writer.separated_eq_writeRows Service.render_eq document.services _

/-- The rows of a node.  A transformation by itself has none, as it does not end its line. -/
def Node.rows : Node → List Row
  | .document d => d.rows
  | .service s => s.rows
  | .objectType t => t.rows
  | .field f => f.rows
  | .transformation _ => []

/-- Rendering a node that is no transformation writes its rows and does nothing else. -/
theorem Node.render_eq {node : Node} (h : node.kind ≠ .transformation) (writer : Writer) :
    node.render writer = writer.writeRows node.rows := by
  cases node with
  | document d => exact d.render_eq writer
  | service s => exact s.render_eq writer
  | objectType t => exact t.render_eq writer
  | field f => exact f.render_eq writer
  | transformation => exact absurd rfl h

end SchemaStitching
