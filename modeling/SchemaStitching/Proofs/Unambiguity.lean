import SchemaStitching.Proofs.Clauses
import SchemaStitching.Proofs.CodeLines

/-! The text of a node says what the node is.  Its code lines determine its rows without comments,
as every such row is a line that shows its depth; the rows determine the blocks, as a block ends at
the first closing brace of its own depth; and the clauses in the blocks determine the fields. -/

namespace SchemaStitching

def ObjectType.HasIdentifiers (type : ObjectType) : Prop :=
  Text.IsIdentifier type.name ∧ ∀ field ∈ type.fields, field.HasIdentifiers

instance (type : ObjectType) : Decidable type.HasIdentifiers :=
  inferInstanceAs (Decidable (_ ∧ ∀ field ∈ type.fields, _))

def Service.HasIdentifiers (service : Service) : Prop :=
  Text.IsIdentifier service.name ∧ ∀ type ∈ service.types, type.HasIdentifiers

instance (service : Service) : Decidable service.HasIdentifiers :=
  inferInstanceAs (Decidable (_ ∧ ∀ type ∈ service.types, _))

def Document.HasIdentifiers (document : Document) : Prop :=
  ∀ service ∈ document.services, service.HasIdentifiers

instance (document : Document) : Decidable document.HasIdentifiers :=
  inferInstanceAs (Decidable (∀ service ∈ document.services, _))

/-- All names in the node are identifiers, and its types hold neither spaces nor line feeds. -/
def Node.HasIdentifiers : Node → Prop
  | .document d => d.HasIdentifiers
  | .service s => s.HasIdentifiers
  | .objectType t => t.HasIdentifiers
  | .field f => f.HasIdentifiers
  | .transformation x => x.payload.HasIdentifiers

instance : DecidablePred Node.HasIdentifiers
  | .document d => inferInstanceAs (Decidable d.HasIdentifiers)
  | .service s => inferInstanceAs (Decidable s.HasIdentifiers)
  | .objectType t => inferInstanceAs (Decidable t.HasIdentifiers)
  | .field f => inferInstanceAs (Decidable f.HasIdentifiers)
  | .transformation x => inferInstanceAs (Decidable x.payload.HasIdentifiers)

/-! ### Rows that are single code lines -/

namespace Row

/-- A row without line feeds whose first character belongs neither to the margin nor to a
comment. -/
def Legible : Row → Prop
  | comment .. => False
  | code _ text => '\n' ∉ text.toList ∧
      ∃ c rest, text.toList = c :: rest ∧ Text.isBlank c = false ∧ c ≠ '#'
  | gap => True

theorem legible_deeper (row : Row) : row.deeper.Legible ↔ row.Legible := by
  cases row <;> rfl

theorem isBlank_of_mem_margin {depth : Nat} {c : Char} (h : c ∈ (margin {} depth).toList) :
    Text.isBlank c := by
  rw [margin_toList] at h
  rw [List.eq_of_mem_replicate h]
  rfl

theorem codeLines_body {row : Row} (h : row.Legible) :
    Text.codeLines (row.body {}) = [(row.body {}).toList] := by
  cases row with
  | comment => exact h.elim
  | gap => rfl
  | code depth text =>
    obtain ⟨hn, c, rest, ht, hb, hc⟩ := h
    have hm : '\n' ∉ ((code depth text).body {}).toList := by
      rw [body_code_toList, List.mem_append, not_or]
      exact ⟨fun hm => absurd (isBlank_of_mem_margin hm) (by decide), hn⟩
    have hl : Text.isCommentLine ((code depth text).body {}).toList = false := by
      rw [body_code_toList, Text.isCommentLine_append fun _ => isBlank_of_mem_margin, ht]
      simpa [Text.isCommentLine, hb] using hc
    rw [Text.codeLines_of_notMem hm]
    simp [hl]

/-- A line shows the depth and the text of its row. -/
theorem eq_of_body_eq {a b : Row} (ha : a.Legible) (hb : b.Legible)
    (h : (a.body {}).toList = (b.body {}).toList) : a = b := by
  have hne {depth : Nat} {text : String} (hl : (code depth text).Legible) :
      ((code depth text).body {}).toList ≠ [] := by
    obtain ⟨-, c, rest, ht, -⟩ := hl
    simp [body_code_toList, ht]
  have ho {depth : Nat} {text : String} (hl : (code depth text).Legible) :
      Text.BeginsOutside (fun c => Text.isBlank c) text.toList := by
    obtain ⟨-, c, rest, ht, hc, -⟩ := hl
    rw [ht]
    exact Text.beginsOutside_cons (by simp [hc])
  match a, b with
  | gap, gap => rfl
  | code _ _, gap => exact absurd h (hne ha)
  | gap, code _ _ => exact absurd h.symm (hne hb)
  | code m s, code n t =>
    -- The texts begin with no blank, so the blanks before them are the margins.
    rw [body_code_toList, body_code_toList] at h
    obtain ⟨hm, ht⟩ := Text.append_inj_of_class (fun _ => isBlank_of_mem_margin)
      (fun _ => isBlank_of_mem_margin) (ho ha) (ho hb) h
    have hl := congrArg List.length hm
    rw [margin_toList, margin_toList, List.length_replicate, List.length_replicate] at hl
    have hd : m = n := by omega
    rw [hd, String.toList_injective ht]

theorem eq_of_map_body_eq {as bs : List Row} (ha : ∀ row ∈ as, row.Legible)
    (hb : ∀ row ∈ bs, row.Legible)
    (h : as.map (fun row => (row.body {}).toList) = bs.map fun row => (row.body {}).toList) :
    as = bs :=
  eq_of_beq (Text.beq_of_map_eq_map (fun a ha' b hb' he =>
    beq_iff_eq.mpr (eq_of_body_eq (ha a ha') (hb b hb') he)) h)

theorem legible_of_isIdentifierChar {depth : Nat} {text : String} {c : Char} {rest : List Char}
    (ht : text.toList = c :: rest) (hc : Text.IsIdentifierChar c) (hn : '\n' ∉ text.toList) :
    (code depth text).Legible := by
  have hne (stop : Char) (hs : ¬Text.IsIdentifierChar stop) : c ≠ stop := fun he => hs (he ▸ hc)
  have hb : Text.isBlank c = false := by
    simp [Text.isBlank, hne ' ' (by decide), hne '\t' (by decide)]
  exact ⟨hn, c, rest, ht, hb, hne '#' (by decide)⟩

/-- A block is legible if its heading is a keyword and an identifier. -/
theorem legible_block {keyword name : String} {c : Char} {rest : List Char} {body : List Row}
    (hk : keyword.toList = c :: rest) (hc : Text.IsIdentifierChar c) (hkn : '\n' ∉ keyword.toList)
    (hn : Text.IsIdentifier name) (hb : ∀ row ∈ body, row.Legible) :
    ∀ row ∈ block (keyword ++ name) body, row.Legible := by
  have ht : (keyword ++ name ++ " \x7b").toList =
      c :: (rest ++ (name.toList ++ [' ', '\x7b'])) := by
    simp [hk]
  have hnl : '\n' ∉ (keyword ++ name ++ " \x7b").toList := by
    simp [hkn, hn.newline_notMem]
  rw [forall_mem_block]
  exact ⟨legible_of_isIdentifierChar ht hc hnl,
    fun row hr => (legible_deeper row).mpr (hb row hr), by decide, '\x7d', [], rfl, rfl, by decide⟩

/-! ### Blocks end at their closing braces -/

theorem deeper_injective {a b : Row} (h : a.deeper = b.deeper) : a = b := by
  cases a <;> cases b <;> simp_all [deeper]

/-- Whether a row belongs to the inside of a block. -/
def IsInner (row : Row) : Prop :=
  ∀ text, row ≠ code 0 text

theorem isInner_deeper (row : Row) : row.deeper.IsInner := by
  cases row <;> simp [IsInner, deeper]

theorem block_append_inj {heading heading' : String} {body body' rest rest' : List Row}
    (h : block heading body ++ rest = block heading' body' ++ rest') :
    heading = heading' ∧ body = body' ∧ rest = rest' := by
  have hi (body : List Row) : ∀ row ∈ body.map deeper, row.IsInner := by
    rw [List.forall_mem_map]
    exact fun row _ => isInner_deeper row
  -- The closing brace is the first row that does not belong to the inside.
  have hc (rest : List Row) : Text.BeginsOutside IsInner (code 0 "\x7d" :: rest) :=
    Text.beginsOutside_cons fun hi => hi _ rfl
  simp only [block, List.cons_append, List.append_assoc, List.cons.injEq, code.injEq, true_and,
    List.nil_append] at h
  obtain ⟨hb, hr⟩ := Text.append_inj_of_class (hi body) (hi body') (hc rest) (hc rest') h.2
  exact ⟨(String.append_left_inj _).mp h.1, (List.map_inj_right fun _ _ => deeper_injective).mp hb,
    (List.cons_eq_cons.mp hr).2⟩

/-- The rows of items can be told from what follows them. -/
def Delimited {α : Type} (rows : α → List Row) : Prop :=
  ∀ a b rest rest', rows a ++ rest = rows b ++ rest' → rows a = rows b ∧ rest = rest'

section items

variable {α : Type} {rows : α → List Row} {as bs : List α}

theorem delimited_block (heading : α → String) (body : α → List Row) :
    Delimited fun item => block (heading item) (body item) := by
  intro a b rest rest' h
  obtain ⟨hh, hb, hr⟩ := block_append_inj h
  exact ⟨by simp only [hh, hb], hr⟩

theorem map_eq_of_flatMap_gap_eq (hd : Delimited rows)
    (h : as.flatMap (fun item => gap :: rows item) = bs.flatMap fun item => gap :: rows item) :
    as.map rows = bs.map rows := by
  induction as generalizing bs with
  | nil =>
    cases bs with
    | nil => rfl
    | cons => simp at h
  | cons a as ih =>
    cases bs with
    | nil => simp at h
    | cons b bs =>
      simp only [List.flatMap_cons, List.cons_append, List.cons.injEq, true_and] at h
      obtain ⟨hr, ht⟩ := hd a b _ _ h
      rw [List.map_cons, List.map_cons, hr, ih ht]

theorem map_eq_of_separated_eq (hd : Delimited rows) (hn : ∀ item, rows item ≠ [])
    (h : separated rows as = separated rows bs) : as.map rows = bs.map rows := by
  have hg (items : List α) (he : items ≠ []) :
      gap :: separated rows items = items.flatMap fun item => gap :: rows item := by
    obtain ⟨first, rest, rfl⟩ := List.exists_cons_of_ne_nil he
    rfl
  have hs {items : List α} (he : separated rows items = []) : items = [] := by
    cases items with
    | nil => rfl
    | cons first rest => exact absurd (List.append_eq_nil_iff.mp he).1 (hn first)
  by_cases ha : as = []
  · subst ha
    rw [hs h.symm]
  · have hb : bs ≠ [] := fun hb => ha (hs (by rw [h, hb]; rfl))
    exact map_eq_of_flatMap_gap_eq hd (by rw [← hg as ha, ← hg bs hb, h])

end items

end Row

/-! ### The rows of nodes determine the nodes -/

theorem ObjectType.delimited : Row.Delimited fun type : ObjectType => Row.bare type.rows := by
  rw [funext bare_rows]
  exact Row.delimited_block _ _

theorem Service.delimited : Row.Delimited fun service : Service => Row.bare service.rows := by
  rw [funext bare_rows]
  exact Row.delimited_block _ _

theorem Row.block_inj {heading heading' : String} {body body' : List Row}
    (h : block heading body = block heading' body') : heading = heading' ∧ body = body' := by
  have hr : block heading body ++ [] = block heading' body' ++ [] := by rw [h]
  obtain ⟨hh, hb, -⟩ := block_append_inj hr
  exact ⟨hh, hb⟩

theorem ObjectType.beq_of_bare_rows_eq {a b : ObjectType} (ha : a.HasIdentifiers)
    (hb : b.HasIdentifiers) (h : Row.bare a.rows = Row.bare b.rows) : a == b := by
  rw [bare_rows, bare_rows] at h
  obtain ⟨hn, hf⟩ := Row.block_inj h
  refine beq_iff.mpr ⟨(String.append_right_inj _).mp hn, Text.beq_of_map_eq_map ?_ hf⟩
  intro f hf g hg he
  exact Field.beq_of_clause_eq (ha.2 f hf) (hb.2 g hg) (Row.code.inj he).2

theorem Service.beq_of_bare_rows_eq {a b : Service} (ha : a.HasIdentifiers)
    (hb : b.HasIdentifiers) (h : Row.bare a.rows = Row.bare b.rows) : a == b := by
  rw [bare_rows, bare_rows] at h
  obtain ⟨hn, hs⟩ := Row.block_inj h
  have ht := Row.map_eq_of_separated_eq ObjectType.delimited
    (fun type => by simp [ObjectType.bare_rows, Row.block]) hs
  refine beq_iff.mpr ⟨(String.append_right_inj _).mp hn, Text.beq_of_map_eq_map ?_ ht⟩
  exact fun s hs t ht => ObjectType.beq_of_bare_rows_eq (ha.2 s hs) (hb.2 t ht)

theorem Document.beq_of_bare_rows_eq {a b : Document} (ha : a.HasIdentifiers)
    (hb : b.HasIdentifiers) (h : Row.bare a.rows = Row.bare b.rows) : a == b := by
  rw [bare_rows, bare_rows] at h
  have hs := Row.map_eq_of_separated_eq Service.delimited
    (fun service => by simp [Service.bare_rows, Row.block]) h
  refine beq_iff.mpr (Text.beq_of_map_eq_map ?_ hs)
  exact fun s hs t ht => Service.beq_of_bare_rows_eq (ha s hs) (hb t ht)

/-! ### The rows of nodes are legible -/

theorem Field.legible_clause {field : Field} (h : field.HasIdentifiers) :
    (Row.code 0 field.clause).Legible := by
  obtain ⟨c, rest, hn⟩ := List.exists_cons_of_ne_nil
    (mt String.toList_eq_nil_iff.mp h.name.1)
  have ht : field.clause.toList =
      c :: (rest ++ ':' :: ' ' :: (field.typeRef.toList ++ field.payloadText.toList)) := by
    rw [clause_toList, hn, List.cons_append]
  exact Row.legible_of_isIdentifierChar ht (h.name.2 c (hn ▸ List.mem_cons_self))
    (clause_newline_notMem h.newline_notMem)

theorem ObjectType.legible_bare_rows {type : ObjectType} (h : type.HasIdentifiers) :
    ∀ row ∈ Row.bare type.rows, row.Legible := by
  rw [bare_rows]
  refine Row.legible_block rfl (by decide) (by decide) h.1 ?_
  rw [List.forall_mem_map]
  exact fun field hf => Field.legible_clause (h.2 field hf)

theorem Service.legible_bare_rows {service : Service} (h : service.HasIdentifiers) :
    ∀ row ∈ Row.bare service.rows, row.Legible := by
  rw [bare_rows]
  exact Row.legible_block rfl (by decide) (by decide) h.1
    (Row.forall_mem_separated trivial fun type ht => ObjectType.legible_bare_rows (h.2 type ht))

theorem Document.legible_bare_rows {document : Document} (h : document.HasIdentifiers) :
    ∀ row ∈ Row.bare document.rows, row.Legible := by
  rw [bare_rows]
  exact Row.forall_mem_separated trivial fun service hs => Service.legible_bare_rows (h service hs)

theorem Node.legible_bare_rows {node : Node} (h : node.HasIdentifiers) :
    ∀ row ∈ Row.bare node.rows, row.Legible := by
  cases node with
  | document d => exact Document.legible_bare_rows h
  | service s => exact Service.legible_bare_rows h
  | objectType t => exact ObjectType.legible_bare_rows h
  | field f =>
    rw [rows, Field.bare_rows, List.forall_mem_singleton]
    exact Field.legible_clause h
  | transformation => exact List.forall_mem_nil _

/-! ### Texts of nodes -/

/-- The code lines of a node are the rows without comments, and the empty line after the last line
feed. -/
theorem Node.codeLines_text {node : Node} (hk : node.kind ≠ .transformation)
    (h : node.HasIdentifiers) : Text.codeLines node.text =
      (Row.bare node.rows).map (fun row => (row.body {}).toList) ++ [[]] := by
  have hw : Writer.Plain {} := Writer.plain_of_indent (by simp [Text.isBlank])
  rw [text, render_eq hk, Writer.text_writeRows, String.empty_append,
    Writer.codeLines_rowsText hw node.rows_oneLine, List.map_eq_flatMap, List.flatMap_def,
    List.flatMap_def,
    List.map_congr_left fun row hr => Row.codeLines_body (legible_bare_rows h row hr)]

/-- Nodes of one kind with the same text are equal, whatever their locations and comments: the text
determines the services, types, fields, and transformations, with all that these hold, in order. -/
theorem Node.beq_of_text_eq {a b : Node} (ha : a.HasIdentifiers) (hb : b.HasIdentifiers)
    (hk : a.kind = b.kind) (h : a.text = b.text) : a == b := by
  have hr (hk : a.kind ≠ .transformation) (hk' : b.kind ≠ .transformation) :
      Row.bare a.rows = Row.bare b.rows := by
    have hl := congrArg Text.codeLines h
    rw [codeLines_text hk ha, codeLines_text hk' hb, List.append_left_inj] at hl
    exact Row.eq_of_map_body_eq (legible_bare_rows ha) (legible_bare_rows hb) hl
  cases a <;> cases b <;> cases hk
  case document.document a b => exact Document.beq_of_bare_rows_eq ha hb (hr nofun nofun)
  case service.service a b => exact Service.beq_of_bare_rows_eq ha hb (hr nofun nofun)
  case objectType.objectType a b => exact ObjectType.beq_of_bare_rows_eq ha hb (hr nofun nofun)
  case field.field a b =>
    have hc := hr nofun nofun
    rw [rows, rows, Field.bare_rows, Field.bare_rows, List.cons_eq_cons, Row.code.injEq] at hc
    exact Field.beq_of_clause_eq ha hb hc.1.2
  case transformation.transformation x y =>
    have hc : "" ++ x.payload.clause = "" ++ y.payload.clause := h
    exact Transformation.beq_iff.mpr
      (Payload.clause_injective ha hb ((String.append_right_inj "").mp hc))

/-- A comment of two lines above a field, and two comments of one line, the second of them from the
call that finds the value of the field. -/
theorem Node.beq_of_text_eq_hydrated :
    let path : Path := ⟨["author", "id"], by decide, by decide⟩
    let call : Hydration := {
      service := "Users"
      field := "by_id"
      arguments := [⟨"id", ⟨.objectField, path⟩⟩]
      identifier := some "id"
      batchSize := some ⟨20, by decide⟩ }
    let field (own inner : Provenance) : Field := {
      name := "author"
      typeRef := "User!"
      transformation := some ⟨.hydration call, inner⟩
      provenance := own }
    let document (field : Field) : Node := .document {
      services := [{ name := "Issues", types := [{ name := "Issue", fields := [field] }] }] }
    let a := document (field { comments := [⟨"one\ntwo", default⟩] } default)
    let b := document
      (field { comments := [⟨"one", default⟩] } { comments := [⟨"two", default⟩] })
    a.HasIdentifiers ∧ b.HasIdentifiers ∧ a.kind = b.kind ∧ a.text = b.text ∧
      (a == b) = true := by
  intro path call field document a b
  have ha : a.HasIdentifiers := by decide
  have hb : b.HasIdentifiers := by decide
  have ht : a.text = b.text := by decide +kernel
  exact ⟨ha, hb, rfl, ht, Node.beq_of_text_eq ha hb rfl ht⟩

end SchemaStitching
