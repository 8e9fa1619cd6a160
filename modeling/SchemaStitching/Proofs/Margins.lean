import SchemaStitching.Proofs.CommentLines

/-! Rendering and the writer.  Rendering a node adds to the text of a writer and changes nothing
else in it, and what it adds depends on the node, on the margin that the open indents make together,
and on the settings.  A margin stands in front of every line that is not empty, exactly once:
comments, headings, fields and closing braces begin behind it, and the gaps between blocks have
none. -/

namespace SchemaStitching

namespace Text

/-- The text with a margin in front of every line that is not empty. -/
def inset (margin text : String) : String :=
  "\n".intercalate ((text.toList.splitOn '\n').map fun line =>
    if line = [] then "" else margin ++ String.ofList line)

theorem inset_append_newline (margin first rest : String) :
    inset margin (first ++ "\n" ++ rest) = inset margin first ++ "\n" ++ inset margin rest := by
  have hne (text : String) : ((text.toList.splitOn '\n').map fun line =>
      if line = [] then "" else margin ++ String.ofList line) ≠ [] :=
    mt List.map_eq_nil_iff.mp (List.splitOn_ne_nil _ _)
  rw [inset, splitOn_append_newline, List.map_append,
    String.intercalate_append_of_ne_nil (hne first) (hne rest)]
  rfl

theorem inset_of_notMem {margin text : String} (h : '\n' ∉ text.toList) :
    inset margin text = if text = "" then "" else margin ++ text := by
  rw [inset, List.splitOn_eq_singleton h]
  simp

end Text

/-- What rendering a node adds to the text of a writer, given the margin that the indents of the
writer make together, and its settings. -/
def Node.textBehind (node : Node) (margin newline indent : String) : String :=
  (node.render { indents := [margin], newline, indent }).text

namespace Row

/-- The row is a single line, which is empty only in a gap. -/
def Fills : Row → Prop
  | comment _ text => '\n' ∉ text.toList
  | code _ text => text ≠ "" ∧ '\n' ∉ text.toList
  | gap => True

/-- The margin of a row is that of the writer, followed by an indent for each level. -/
theorem body_eq (writer : Writer) (row : Row) : row.body writer =
    if row = gap then "" else
      String.join writer.indents ++ row.body { indent := writer.indent } := by
  cases row <;> simp [body, margin, String.append_assoc]

theorem newline_notMem_margin {indent : String} (h : '\n' ∉ indent.toList) (depth : Nat) :
    '\n' ∉ (margin { indent := indent } depth).toList := by
  simp only [margin, String.join_nil, String.empty_append, String.toList_join, List.mem_flatMap,
    not_exists, not_and]
  intro token ht
  rwa [List.eq_of_mem_replicate ht]

theorem Fills.newline_notMem_body {row : Row} {indent : String} (hr : row.Fills)
    (hi : '\n' ∉ indent.toList) : '\n' ∉ (row.body { indent := indent }).toList := by
  cases row with
  | comment depth text =>
    have ht : '\n' ∉ text.toList := hr
    simp [body_comment_toList, newline_notMem_margin hi, ht]
  | code depth text => simp [body_code_toList, newline_notMem_margin hi, hr.2]
  | gap => exact List.not_mem_nil

theorem Fills.body_eq_empty_iff {row : Row} {writer : Writer} (hr : row.Fills) :
    row.body writer = "" ↔ row = gap := by
  cases row with
  | comment depth text => simp [body]
  | code depth text => simp [body, hr.1]
  | gap => simp [body]

end Row

/-- Only what the indents are together matters to rows. -/
theorem Writer.rowsText_congr {writer other : Writer}
    (hm : String.join writer.indents = String.join other.indents)
    (hn : writer.newline = other.newline) (hi : writer.indent = other.indent) (rows : List Row) :
    writer.rowsText rows = other.rowsText rows := by
  have hb (row : Row) : row.body writer = row.body other := by
    rw [row.body_eq writer, row.body_eq other, hm, hi]
  simp only [rowsText, hb, hn]

theorem Writer.rowsText_eq_inset {writer : Writer} (hn : writer.newline = "\n")
    (hi : '\n' ∉ writer.indent.toList) {rows : List Row} (h : ∀ row ∈ rows, row.Fills) :
    writer.rowsText rows =
      Text.inset (String.join writer.indents)
        (Writer.rowsText { indent := writer.indent } rows) := by
  induction rows with
  | nil => rfl
  | cons row rows ih =>
    rw [List.forall_mem_cons] at h
    have hb : row.body writer =
        Text.inset (String.join writer.indents) (row.body { indent := writer.indent }) := by
      rw [Text.inset_of_notMem (h.1.newline_notMem_body hi), Row.body_eq]
      simp only [h.1.body_eq_empty_iff]
    rw [rowsText_cons, rowsText_cons, hn, hb, ih h.2]
    exact (Text.inset_append_newline _ _ _).symm

theorem Node.fills_rows {node : Node} (ht : ∀ text ∈ node.texts, '\n' ∉ text.toList) :
    ∀ row ∈ node.rows, row.Fills := by
  have hc : ∀ row ∈ node.rows, row.CodeIs fun text => text ≠ "" ∧ '\n' ∉ text.toList := by
    refine codeIs_of_mem_rows ⟨fun name hn => ?_, fun name hn => ?_, by decide⟩ ht
      fun field _ hn => ⟨?_, hn⟩
    · exact ⟨by simp, by simp [hn]⟩
    · exact ⟨by simp, by simp [hn]⟩
    · simp [← String.toList_eq_nil_iff, Field.clause_toList]
  intro row hr
  cases row with
  | comment => exact node.rows_oneLine _ hr
  | code => exact hc _ hr
  | gap => trivial

/-- Rendering a node leaves the indents and the settings of a writer as they are and adds to its
text.  What it adds depends on the node, on what the indents are together, and on the settings.  If
a line feed ends lines, and neither the indent of a level nor a text in the node holds one, then
what is added, unless the node is a transformation, is what a writer without indents adds, with the
indents in front of every line that is not empty. -/
theorem Node.render_eq_textBehind (node : Node) :
    (∀ writer : Writer, node.render writer = { writer with
      text := writer.text ++
        node.textBehind (String.join writer.indents) writer.newline writer.indent }) ∧
    (node.kind ≠ .transformation → (∀ text ∈ node.texts, '\n' ∉ text.toList) →
      ∀ writer : Writer, writer.newline = "\n" → '\n' ∉ writer.indent.toList →
        (node.render writer).text = writer.text ++
          Text.inset (String.join writer.indents)
            (node.render { indent := writer.indent }).text) := by
  constructor
  · intro writer
    by_cases hk : node.kind = .transformation
    -- A transformation has no rows: its clause is written where the text ends.
    · obtain ⟨x, rfl⟩ := eq_transformation_of_kind hk
      simp [render, Transformation.render, Writer.write, textBehind]
    · let other : Writer := {
        indents := [String.join writer.indents]
        newline := writer.newline
        indent := writer.indent }
      have hr : other.rowsText node.rows = writer.rowsText node.rows :=
        Writer.rowsText_congr (by simp [other]) rfl rfl node.rows
      have ht : (node.render other).text = writer.rowsText node.rows := by
        rw [render_eq hk, Writer.text_writeRows, hr, String.empty_append]
      rw [textBehind, ht, render_eq hk]
      rfl
  · intro hk ht writer hn hi
    rw [render_eq hk, render_eq hk, Writer.text_writeRows, Writer.text_writeRows,
      String.empty_append, Writer.rowsText_eq_inset hn hi (fills_rows ht)]

/-- A service with a comment of three lines, one of them empty, and with a gap between its types,
behind a margin of two indents. -/
theorem Node.render_eq_textBehind_nested :
    let type (name : String) : ObjectType := { name, fields := [{ name := "id", typeRef := "ID" }] }
    let node : Node := .service {
      name := "S"
      types := [type "T", type "U"]
      provenance := { comments := [⟨"one\n\n two", default⟩] } }
    let writer : Writer := { text := "//", indents := ["> ", "\t"], indent := "  " }
    node.kind ≠ .transformation ∧ (∀ text ∈ node.texts, '\n' ∉ text.toList) ∧
    writer.newline = "\n" ∧ '\n' ∉ writer.indent.toList ∧
    (node.render writer).indents = ["> ", "\t"] ∧
    Text.lines (node.render writer).text = [
      "//> \t#one", "> \t#", "> \t# two",
      "> \tservice S \x7b",
      "> \t  type T \x7b", "> \t    id: ID", "> \t  \x7d",
      "",
      "> \t  type U \x7b", "> \t    id: ID", "> \t  \x7d",
      "> \t\x7d"] := by
  intro type node writer
  have hk : node.kind ≠ .transformation := nofun
  have ht : ∀ text ∈ node.texts, '\n' ∉ text.toList := by decide
  have hi : '\n' ∉ writer.indent.toList := by decide
  obtain ⟨hframe, hinset⟩ := Node.render_eq_textBehind node
  refine ⟨hk, ht, rfl, hi, congrArg Writer.indents (hframe writer), ?_⟩
  rw [hinset hk ht writer rfl hi]
  decide +kernel

end SchemaStitching
