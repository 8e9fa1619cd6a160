import SchemaStitching.Proofs.Rows
import SchemaStitching.Proofs.Separators

/-! Comments stay in their lines.  A line of rendered text is a comment line if its first character
after spaces and tabs is `#`, and a code line otherwise.  Each line of a comment has a row of its
own, which no line feed cuts in two, so the code lines of rows are those of the rows that are no
comments.  These rows do not depend on provenance: equal nodes have the same code lines, whatever
the text of their comments. -/

namespace SchemaStitching

namespace Text

/-- Whether a character may stand in front of the `#` of a comment line. -/
def isBlank (c : Char) : Bool :=
  c == ' ' || c == '\t'

/-- Whether the first character of a line after spaces and tabs is `#`. -/
def isCommentLine (line : List Char) : Bool :=
  (line.dropWhile isBlank).head? == some '#'

/-- The lines of a text, split at line feeds, without its comment lines. -/
def codeLines (text : String) : List (List Char) :=
  (text.toList.splitOn '\n').filter fun line => !isCommentLine line

theorem splitOn_append_newline (first rest : String) : (first ++ "\n" ++ rest).toList.splitOn '\n' =
    first.toList.splitOn '\n' ++ rest.toList.splitOn '\n' := by
  have ht : (first ++ "\n" ++ rest).toList = first.toList ++ '\n' :: rest.toList := by simp
  rw [ht, List.splitOn_append_cons_self]

theorem codeLines_append_newline (first rest : String) :
    codeLines (first ++ "\n" ++ rest) = codeLines first ++ codeLines rest := by
  rw [codeLines, splitOn_append_newline, List.filter_append]
  rfl

theorem codeLines_of_notMem {text : String} (h : '\n' ∉ text.toList) :
    codeLines text = [text.toList].filter fun line => !isCommentLine line := by
  rw [codeLines, List.splitOn_eq_singleton h]

theorem isCommentLine_append {margin : List Char} (h : ∀ c ∈ margin, isBlank c) (rest : List Char) :
    isCommentLine (margin ++ rest) = isCommentLine rest := by
  rw [isCommentLine, List.dropWhile_append_of_pos h]
  rfl

theorem isCommentLine_append_cons {margin : List Char} (h : ∀ c ∈ margin, isBlank c)
    (rest : List Char) : isCommentLine (margin ++ '#' :: rest) := by
  rw [isCommentLine_append h]
  rfl

theorem mem_of_mem_withoutReturn {line : List Char} {c : Char} (h : c ∈ withoutReturn line) :
    c ∈ line := by
  rw [withoutReturn] at h
  split at h
  · exact List.dropLast_subset _ h
  · exact h

theorem notMem_of_mem_lines {text line : String} (h : line ∈ lines text) : '\n' ∉ line.toList := by
  have hl : (text.toList.splitOn '\n').getLastD [] ∈ text.toList.splitOn '\n' := by
    rw [List.getLastD_eq_getLast?, List.getLast?_eq_some_getLast (List.splitOn_ne_nil _ _)]
    exact List.getLast_mem _
  simp only [lines, linesOf, List.mem_map, List.mem_append] at h
  obtain ⟨chars, h, rfl⟩ := h
  rw [String.toList_ofList]
  rcases h with ⟨piece, hp, rfl⟩ | h
  · exact fun hc =>
      notMem_of_mem_splitOn (List.dropLast_subset _ hp) (mem_of_mem_withoutReturn hc)
  · split at h
    · contradiction
    · rw [List.mem_singleton.mp h]
      exact notMem_of_mem_splitOn hl

end Text

namespace Row

/-- No line feed cuts a row of a comment in two. -/
def OneLine : Row → Prop
  | comment _ text => '\n' ∉ text.toList
  | code .. | gap => True

@[simp] theorem oneLine_deeper (row : Row) : row.deeper.OneLine ↔ row.OneLine := by
  cases row <;> rfl

theorem forall_mem_block {p : Row → Prop} {heading : String} {body : List Row} :
    (∀ row ∈ block heading body, p row) ↔
      p (code 0 (heading ++ " \x7b")) ∧ (∀ row ∈ body, p row.deeper) ∧ p (code 0 "\x7d") := by
  simp [block, or_imp, forall_and]

theorem forall_mem_separated {α : Type} {p : Row → Prop} {rows : α → List Row} {items : List α}
    (hg : p gap) (h : ∀ item ∈ items, ∀ row ∈ rows item, p row) :
    ∀ row ∈ separated rows items, p row := by
  cases items with
  | nil => simp [separated]
  | cons first rest =>
    simp only [List.forall_mem_cons] at h
    simp only [separated, List.mem_append, List.mem_flatMap, List.mem_cons]
    rintro row (hr | ⟨item, hi, rfl | hr⟩)
    · exact h.1 row hr
    · exact hg
    · exact h.2 item hi row hr

/-- The rows that are no comments. -/
def bare (rows : List Row) : List Row :=
  rows.filter fun row => !row.isComment

theorem bare_append (first second : List Row) :
    bare (first ++ second) = bare first ++ bare second :=
  List.filter_append ..

theorem bare_flatMap {α : Type} (items : List α) (rows : α → List Row) :
    bare (items.flatMap rows) = items.flatMap fun item => bare (rows item) :=
  List.filter_flatMap ..

theorem bare_block (heading : String) (body : List Row) :
    bare (block heading body) = block heading (bare body) := by
  simp [bare, block, List.filter_map, Function.comp_def]

theorem bare_separated {α : Type} (rows : α → List Row) (items : List α) :
    bare (separated rows items) = separated (fun item => bare (rows item)) items := by
  cases items with
  | nil => rfl
  | cons first rest =>
    rw [separated, bare_append, bare_flatMap]
    rfl

theorem separated_congr {α : Type} {rows : α → List Row} {as bs : List α}
    (h : as.map rows = bs.map rows) : separated rows as = separated rows bs := by
  have hs (items : List α) : separated rows items = separated id (items.map rows) := by
    cases items with
    | nil => rfl
    | cons first rest => simp [separated, List.flatMap_map]
  rw [hs, hs, h]

end Row

/-! ### The rows of nodes without comments -/

theorem Comment.bare_rows (comments : List Comment) :
    Row.bare (comments.flatMap Comment.rows) = [] := by
  have hr (comment : Comment) : Row.bare comment.rows = [] := by
    simp only [Row.bare, rows, List.filter_map, List.map_eq_nil_iff, List.filter_eq_nil_iff]
    simp
  simp [Row.bare_flatMap, hr]

theorem Field.bare_rows (field : Field) : Row.bare field.rows = [.code 0 field.clause] := by
  rw [rows, Row.bare_append, Comment.bare_rows]
  rfl

theorem ObjectType.bare_rows (type : ObjectType) : Row.bare type.rows =
    Row.block ("type " ++ type.name) (type.fields.map fun field => .code 0 field.clause) := by
  rw [rows, Row.bare_append, Comment.bare_rows, Row.bare_block, Row.bare_flatMap, List.nil_append,
    List.map_eq_flatMap]
  simp only [Field.bare_rows]

theorem Service.bare_rows (service : Service) : Row.bare service.rows =
    Row.block ("service " ++ service.name)
      (Row.separated (fun type => Row.bare type.rows) service.types) := by
  rw [rows, Row.bare_append, Comment.bare_rows, Row.bare_block, Row.bare_separated, List.nil_append]

theorem Document.bare_rows (document : Document) : Row.bare document.rows =
    Row.separated (fun service => Row.bare service.rows) document.services := by
  rw [rows, Row.bare_append, Comment.bare_rows, Row.bare_separated, List.nil_append]

theorem map_eq_map_of_beq {α β : Type} [BEq α] {f : α → β} (h : ∀ {a b : α}, a == b → f a = f b)
    {as bs : List α} (hl : as == bs) : as.map f = bs.map f := by
  induction as generalizing bs with
  | nil =>
    cases bs with
    | nil => rfl
    | cons => contradiction
  | cons a as ih =>
    cases bs with
    | nil => contradiction
    | cons b bs =>
      rw [List.cons_beq_cons, Bool.and_eq_true] at hl
      rw [List.map_cons, List.map_cons, h hl.1, ih hl.2]

theorem Field.clause_eq_of_beq {a b : Field} (h : a == b) : a.clause = b.clause := by
  obtain ⟨hn, ht, hx⟩ := beq_iff.mp h
  simp only [clause, hn, ht]
  match ha : a.transformation, hb : b.transformation with
  | none, none => rfl
  | none, some _ | some _, none =>
    rw [ha, hb] at hx
    contradiction
  | some x, some y =>
    rw [ha, hb, Option.some_beq_some] at hx
    simp only [Transformation.beq_iff.mp hx]

theorem ObjectType.bare_rows_of_beq {a b : ObjectType} (h : a == b) :
    Row.bare a.rows = Row.bare b.rows := by
  obtain ⟨hn, hf⟩ := beq_iff.mp h
  rw [bare_rows, bare_rows, hn, map_eq_map_of_beq (fun h => by rw [Field.clause_eq_of_beq h]) hf]

theorem Service.bare_rows_of_beq {a b : Service} (h : a == b) :
    Row.bare a.rows = Row.bare b.rows := by
  obtain ⟨hn, ht⟩ := beq_iff.mp h
  rw [bare_rows, bare_rows, hn,
    Row.separated_congr (map_eq_map_of_beq ObjectType.bare_rows_of_beq ht)]

theorem Document.bare_rows_of_beq {a b : Document} (h : a == b) :
    Row.bare a.rows = Row.bare b.rows := by
  rw [bare_rows, bare_rows,
    Row.separated_congr (map_eq_map_of_beq Service.bare_rows_of_beq (beq_iff.mp h))]

theorem Node.bare_rows_of_beq {a b : Node} (h : a == b) : Row.bare a.rows = Row.bare b.rows := by
  cases a <;> cases b <;> try exact absurd h Bool.false_ne_true
  case document.document a b => exact Document.bare_rows_of_beq h
  case service.service a b => exact Service.bare_rows_of_beq h
  case objectType.objectType a b => exact ObjectType.bare_rows_of_beq h
  case field.field a b =>
    rw [rows, rows, Field.bare_rows, Field.bare_rows, Field.clause_eq_of_beq h]
  case transformation.transformation a b => rfl

/-! ### Comments in rows are single lines -/

theorem Comment.rows_oneLine (comments : List Comment) :
    ∀ row ∈ comments.flatMap Comment.rows, row.OneLine := by
  simp only [List.mem_flatMap, rows, List.mem_map]
  rintro row ⟨comment, -, line, hl, rfl⟩
  split at hl
  · rw [List.mem_singleton.mp hl]
    exact List.not_mem_nil
  · exact Text.notMem_of_mem_lines hl

theorem Field.rows_oneLine (field : Field) : ∀ row ∈ field.rows, row.OneLine := by
  rw [rows, List.forall_mem_append]
  exact ⟨Comment.rows_oneLine _, List.forall_mem_singleton.mpr trivial⟩

theorem ObjectType.rows_oneLine (type : ObjectType) : ∀ row ∈ type.rows, row.OneLine := by
  rw [rows, List.forall_mem_append, Row.forall_mem_block]
  refine ⟨Comment.rows_oneLine _, trivial, ?_, trivial⟩
  simp only [List.mem_flatMap, Row.oneLine_deeper]
  rintro row ⟨field, -, hr⟩
  exact field.rows_oneLine row hr

theorem Service.rows_oneLine (service : Service) : ∀ row ∈ service.rows, row.OneLine := by
  rw [rows, List.forall_mem_append, Row.forall_mem_block]
  refine ⟨Comment.rows_oneLine _, trivial, ?_, trivial⟩
  simp only [Row.oneLine_deeper]
  exact Row.forall_mem_separated trivial fun type _ => type.rows_oneLine

theorem Document.rows_oneLine (document : Document) : ∀ row ∈ document.rows, row.OneLine := by
  rw [rows, List.forall_mem_append]
  exact ⟨Comment.rows_oneLine _, Row.forall_mem_separated trivial fun service _ =>
    service.rows_oneLine⟩

theorem Node.rows_oneLine (node : Node) : ∀ row ∈ node.rows, row.OneLine := by
  cases node with
  | document d => exact d.rows_oneLine
  | service s => exact s.rows_oneLine
  | objectType t => exact t.rows_oneLine
  | field f => exact f.rows_oneLine
  | transformation => exact List.forall_mem_nil _

/-! ### The code lines of rows -/

/-- A writer that begins every row with spaces and tabs, and ends it with a line feed. -/
structure Writer.Plain (writer : Writer) : Prop where
  margin : ∀ depth, ∀ c ∈ (Row.margin writer depth).toList, Text.isBlank c
  newline : writer.newline = "\n"

theorem Writer.Plain.newline_notMem_margin {writer : Writer} (hw : writer.Plain) (depth : Nat) :
    '\n' ∉ (Row.margin writer depth).toList :=
  fun hc => absurd (hw.margin depth _ hc) (by decide)

theorem Writer.Plain.rowsText_cons {writer : Writer} (hw : writer.Plain) (row : Row)
    (rows : List Row) :
    writer.rowsText (row :: rows) = row.body writer ++ "\n" ++ writer.rowsText rows := by
  rw [Writer.rowsText_cons, hw.newline]

theorem Writer.plain_of_indent {indent : String} (h : ∀ c ∈ indent.toList, Text.isBlank c) :
    Writer.Plain { indent := indent } where
  margin depth c hc := by
    simp only [Row.margin, String.join_nil, String.empty_append, String.toList_join,
      List.mem_flatMap] at hc
    obtain ⟨token, ht, hc⟩ := hc
    exact h c (List.eq_of_mem_replicate ht ▸ hc)
  newline := rfl

theorem Row.codeLines_body_comment {writer : Writer} (hw : writer.Plain) {depth : Nat}
    {text : String} (h : '\n' ∉ text.toList) :
    Text.codeLines ((comment depth text).body writer) = [] := by
  have hm := hw.newline_notMem_margin depth
  rw [Text.codeLines_of_notMem (by simp [body_comment_toList, hm, h]), body_comment_toList]
  simp [Text.isCommentLine_append_cons (hw.margin depth)]

/-- The code lines of rows are those of the rows that are no comments, one after the other, and the
empty line after the last line feed. -/
theorem Writer.codeLines_rowsText {writer : Writer} (hw : writer.Plain) {rows : List Row}
    (h : ∀ row ∈ rows, row.OneLine) : Text.codeLines (writer.rowsText rows) =
      (Row.bare rows).flatMap (fun row => Text.codeLines (row.body writer)) ++ [[]] := by
  induction rows with
  | nil => rfl
  | cons row rows ih =>
    rw [List.forall_mem_cons] at h
    -- A row ends its line, so its code lines are apart from those of the rows after it.
    rw [hw.rowsText_cons, Text.codeLines_append_newline, ih h.2, ← List.append_assoc]
    congr 1
    cases row with
    | comment depth text =>
      rw [Row.codeLines_body_comment hw h.1]
      rfl
    | code | gap => rfl

/-- A transformation by itself is rendered without its comments. -/
theorem Transformation.render_eq_of_beq {x y : Transformation} (h : x == y) (writer : Writer) :
    x.render writer = y.render writer := by
  rw [render, render, beq_iff.mp h]

/-- Equal nodes, whatever their locations and comments, have the same code lines under any indent of
spaces and tabs: no line of a comment becomes a code line, and none takes a code line away.  Equal
transformations have the same text. -/
theorem Node.codeLines_eq_of_beq {a b : Node} (h : a == b) {indent : String}
    (hi : ∀ c ∈ indent.toList, c = ' ' ∨ c = '\t') :
    Text.codeLines (a.render { indent := indent }).text =
      Text.codeLines (b.render { indent := indent }).text ∧
    (a.kind = .transformation → ∀ writer, (a.render writer).text = (b.render writer).text) := by
  have hw : Writer.Plain { indent := indent } :=
    Writer.plain_of_indent fun c hc => by simpa [Text.isBlank] using hi c hc
  have ht (hk : a.kind = .transformation) (writer : Writer) :
      (a.render writer).text = (b.render writer).text := by
    obtain ⟨x, rfl⟩ := eq_transformation_of_kind hk
    obtain ⟨y, rfl⟩ := eq_transformation_of_kind ((kind_eq_of_beq h).symm.trans hk)
    exact congrArg Writer.text (Transformation.render_eq_of_beq h writer)
  refine ⟨?_, ht⟩
  by_cases hk : a.kind = .transformation
  · rw [ht hk]
  · have hk' : b.kind ≠ .transformation := kind_eq_of_beq h ▸ hk
    rw [render_eq hk, render_eq hk', Writer.text_writeRows, Writer.text_writeRows,
      String.empty_append, String.empty_append, Writer.codeLines_rowsText hw a.rows_oneLine,
      Writer.codeLines_rowsText hw b.rows_oneLine, bare_rows_of_beq h]

/-- A comment that looks like code, line feeds and all, on one of two equal fields. -/
theorem Node.codeLines_eq_of_beq_commented :
    let plain : Field := { name := "id", typeRef := "ID" }
    let commented : Field :=
      { plain with provenance := { comments := [⟨"one\n\x7d\r\n\tid: ID => x", default⟩] } }
    (Node.field plain == .field commented) = true ∧
    (∀ c ∈ " \t".toList, c = ' ' ∨ c = '\t') ∧
    Text.codeLines ((Node.field plain).render { indent := " \t" }).text =
      Text.codeLines ((Node.field commented).render { indent := " \t" }).text :=
  ⟨by decide, by simp, (Node.codeLines_eq_of_beq (by decide) (by simp)).1⟩

end SchemaStitching
