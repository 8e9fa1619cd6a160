import SchemaStitching.Provenance
import SchemaStitching.Text.Lines

/-! Writers: text under construction, together with the indents that stand before a line and the
settings for what a deeper level and the end of a line look like. -/

namespace SchemaStitching

/-- Text under construction. -/
structure Writer where
  /-- What has been written. -/
  text : String := ""
  /-- The indents of the levels that are open, the outermost first. -/
  indents : List String := []
  /-- What ends a line. -/
  newline : String := "\n"
  /-- The indent of one more level. -/
  indent : String := "    "
  deriving DecidableEq, Inhabited

namespace Writer

variable {α : Type}

/-- The writer with an indent for one more level. -/
def push (writer : Writer) (indent : String) : Writer :=
  { writer with indents := writer.indents ++ [indent] }

/-- The writer without its innermost indent; at the outermost level, the writer itself. -/
def pop (writer : Writer) : Writer :=
  { writer with indents := writer.indents.dropLast }

/-- The writer after a token. -/
def write (writer : Writer) (token : String) : Writer :=
  { writer with text := writer.text ++ token }

/-- The writer after the indents of all levels. -/
def margin (writer : Writer) : Writer :=
  writer.indents.foldl write writer

/-- The writer after the end of a line. -/
def endLine (writer : Writer) : Writer :=
  writer.write writer.newline

/-- The writer after one line of a comment. -/
def commentLine (writer : Writer) (line : String) : Writer :=
  ((writer.margin.write "#").write line).endLine

/-- The writer after a comment: each line of its content on a line of its own, and a single bare
line for a comment without content. -/
def comment (writer : Writer) (comment : Comment) : Writer :=
  if comment.content = "" then writer.commentLine ""
  else (Text.lines comment.content).foldl commentLine writer

/-- The writer after comments, in their order. -/
def comments (writer : Writer) (comments : List Comment) : Writer :=
  comments.foldl comment writer

/-- The writer after all items, one after the other. -/
def all (writer : Writer) (render : α → Writer → Writer) (items : List α) : Writer :=
  items.foldl (fun writer item => render item writer) writer

/-- The writer after all items, with the end of a line between any two. -/
def separated (writer : Writer) (render : α → Writer → Writer) : List α → Writer
  | [] => writer
  | first :: rest => (render first writer).all (fun item writer => render item writer.endLine) rest

/-- The writer after a block: its heading and an opening brace, the body one level deeper, and the
closing brace. -/
def block (writer : Writer) (heading : String) (body : Writer → Writer) : Writer :=
  let inside := ((writer.margin.write heading).write " \x7b").endLine.push writer.indent
  ((body inside).pop.margin.write "\x7d").endLine

end Writer

end SchemaStitching
