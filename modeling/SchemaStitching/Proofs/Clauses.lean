import Std.Data.String.ToNat
import SchemaStitching.Proofs.Separators
import SchemaStitching.Rendering

/-! The clauses of fields can be read back.  If names are identifiers, every part of a clause ends
where a character comes that it cannot hold: a name at a colon, a type at a space, a segment at a
dot.  So the clause of a field determines its name, its type and what it carries, up to
provenance. -/

namespace SchemaStitching

namespace Text

/-- If a function tells the items of two lists apart, lists with the same values have equal
items. -/
theorem beq_of_map_eq_map {α β : Type} [BEq α] {f : α → β} {as bs : List α}
    (h : ∀ a ∈ as, ∀ b ∈ bs, f a = f b → a == b) (hm : as.map f = bs.map f) : as == bs := by
  induction as generalizing bs with
  | nil =>
    rw [List.map_eq_nil_iff.mp hm.symm]
    rfl
  | cons a as ih =>
    obtain ⟨b, bs, rfl, hb, ht⟩ := List.map_eq_cons_iff.mp hm.symm
    rw [List.cons_beq_cons, Bool.and_eq_true]
    exact ⟨h a List.mem_cons_self b List.mem_cons_self hb.symm, ih
      (fun a ha b hb => h a (List.mem_cons_of_mem _ ha) b (List.mem_cons_of_mem _ hb)) ht.symm⟩

theorem toString_word32_toList (word : UInt32) :
    (toString word).toList = Nat.toDigits 10 word.toNat := by
  have hd : toString word = String.ofList (Nat.toDigits 10 word.toNat) :=
    Nat.repr_eq_ofList_toDigits
  rw [hd, String.toList_ofList]

theorem toString_word32_injective {m n : UInt32} (h : toString m = toString n) : m = n :=
  UInt32.toNat_inj.mp (Nat.repr_injective h)

/-! ### Identifiers -/

/-- An ASCII letter, an ASCII digit, or an underscore. -/
def IsIdentifierChar (c : Char) : Prop :=
  c.isAlphanum ∨ c = '_'

instance : DecidablePred IsIdentifierChar :=
  fun c => inferInstanceAs (Decidable (c.isAlphanum ∨ c = '_'))

/-- Whether all characters of a text are in a class. -/
def All (p : Char → Prop) (text : String) : Prop :=
  ∀ c ∈ text.toList, p c

-- There are instances for all characters as well, which do not look at the text.
instance {p : Char → Prop} [DecidablePred p] (text : String) : Decidable (All p text) :=
  List.decidableBAll p text.toList

/-- A non-empty string of ASCII letters, digits, and underscores. -/
def IsIdentifier (name : String) : Prop :=
  name ≠ "" ∧ All IsIdentifierChar name

instance : DecidablePred IsIdentifier :=
  fun name => inferInstanceAs (Decidable (name ≠ "" ∧ All IsIdentifierChar name))

theorem IsIdentifier.ne_of_mem {name : String} (h : IsIdentifier name) {c stop : Char}
    (hc : c ∈ name.toList) (hs : ¬IsIdentifierChar stop) : c ≠ stop :=
  fun he => hs (he ▸ h.2 c hc)

end Text

/-! ### Names and types that can be told from what stands around them -/

def Path.HasIdentifiers (path : Path) : Prop :=
  ∀ segment ∈ path.segments, Text.IsIdentifier segment

instance : DecidablePred Path.HasIdentifiers :=
  fun path => inferInstanceAs (Decidable (∀ segment ∈ path.segments, Text.IsIdentifier segment))

structure Argument.HasIdentifiers (argument : Argument) : Prop where
  name : Text.IsIdentifier argument.name
  path : argument.source.path.HasIdentifiers

instance : DecidablePred Argument.HasIdentifiers := fun argument =>
  decidable_of_iff (Text.IsIdentifier argument.name ∧ argument.source.path.HasIdentifiers)
    ⟨fun ⟨name, path⟩ => ⟨name, path⟩, fun ⟨name, path⟩ => ⟨name, path⟩⟩

structure Hydration.HasIdentifiers (hydration : Hydration) : Prop where
  service : Text.IsIdentifier hydration.service
  field : Text.IsIdentifier hydration.field
  arguments : ∀ argument ∈ hydration.arguments, argument.HasIdentifiers
  identifier : ∀ identifier ∈ hydration.identifier, Text.IsIdentifier identifier

instance : DecidablePred Hydration.HasIdentifiers := fun hydration =>
  decidable_of_iff (Text.IsIdentifier hydration.service ∧ Text.IsIdentifier hydration.field ∧
      (∀ argument ∈ hydration.arguments, argument.HasIdentifiers) ∧
      ∀ identifier ∈ hydration.identifier, Text.IsIdentifier identifier)
    ⟨fun ⟨service, field, arguments, identifier⟩ => ⟨service, field, arguments, identifier⟩,
      fun ⟨service, field, arguments, identifier⟩ => ⟨service, field, arguments, identifier⟩⟩

def Payload.HasIdentifiers : Payload → Prop
  | .mapping definition => definition.path.HasIdentifiers
  | .hydration definition => definition.HasIdentifiers

instance : DecidablePred Payload.HasIdentifiers
  | .mapping definition => inferInstanceAs (Decidable definition.path.HasIdentifiers)
  | .hydration definition => inferInstanceAs (Decidable definition.HasIdentifiers)

structure Field.HasIdentifiers (field : Field) : Prop where
  name : Text.IsIdentifier field.name
  /-- A type may hold any characters but spaces and line feeds. -/
  typeRef : Text.All (fun c => c ≠ ' ' ∧ c ≠ '\n') field.typeRef
  payload : ∀ transformation ∈ field.transformation, transformation.payload.HasIdentifiers

instance : DecidablePred Field.HasIdentifiers := fun field =>
  decidable_of_iff (Text.IsIdentifier field.name ∧
      Text.All (fun c => c ≠ ' ' ∧ c ≠ '\n') field.typeRef ∧
      ∀ transformation ∈ field.transformation, transformation.payload.HasIdentifiers)
    ⟨fun ⟨name, typeRef, payload⟩ => ⟨name, typeRef, payload⟩,
      fun ⟨name, typeRef, payload⟩ => ⟨name, typeRef, payload⟩⟩

theorem Path.dotted_toList (path : Path) :
    path.dotted.toList = ['.'].intercalate (path.segments.map String.toList) := by
  rw [dotted, join, String.toList_intercalate]
  rfl

theorem Path.dotted_injective {a b : Path} (h : a.dotted = b.dotted) : a = b := by
  have hs (path : Path) : ∀ item ∈ path.segments.map String.toList, '.' ∉ item := by
    simp only [List.forall_mem_map]
    exact fun segment mem => (path.isSegment_of_mem segment mem).2
  have hn (path : Path) : path.segments.map String.toList ≠ [] := by
    simp [path.segments_ne_nil]
  have hi : ['.'].intercalate (a.segments.map String.toList) =
      ['.'].intercalate (b.segments.map String.toList) := by
    rw [← dotted_toList, ← dotted_toList, h]
  have hm := Text.intercalate_inj (hs a) (hs b) (hn a) (hn b) hi
  have hab : a.segments = b.segments :=
    (List.map_inj_right fun _ _ => String.toList_injective).mp hm
  cases a
  cases b
  simpa using hab

/-! ### Arguments -/

theorem Source.toString_toList (source : Source) : (toString source).toList =
    source.origin.variableName.toList ++ '.' :: source.path.dotted.toList := by
  simp [toString]

theorem Argument.toString_toList (argument : Argument) : (toString argument).toList =
    argument.name.toList ++ ':' :: ' ' :: (toString argument.source).toList := by
  simp [toString]

/-- A variable holds no dot, so it can be told from a path that follows it. -/
theorem Origin.variableName_append_inj {a b : Origin} {text text' : String}
    (h : a.variableName ++ "." ++ text = b.variableName ++ "." ++ text') :
    a = b ∧ text = text' := by
  have hv (origin : Origin) : Text.All (· ≠ '.') origin.variableName := by
    cases origin <;> decide
  have ho : ∀ a b : Origin, a.variableName = b.variableName → a = b := by
    intro a b
    cases a <;> cases b <;> decide
  have hl := congrArg String.toList h
  rw [String.append_assoc, String.append_assoc, String.toList_append, String.toList_append,
    String.toList_append, String.toList_append] at hl
  obtain ⟨hn, ht⟩ := Text.append_inj_of_class (hv a) (hv b)
    (Text.beginsOutside_cons (not_not_intro rfl)) (Text.beginsOutside_cons (not_not_intro rfl)) hl
  exact ⟨ho a b (String.toList_injective hn), String.toList_injective (List.cons_eq_cons.mp ht).2⟩

theorem Source.toString_injective {a b : Source} (h : toString a = toString b) : a = b := by
  obtain ⟨horigin, htext⟩ := Origin.variableName_append_inj h
  have hpath := Path.dotted_injective htext
  cases a
  cases b
  simp_all

theorem Argument.toString_injective {a b : Argument} (ha : a.HasIdentifiers)
    (hb : b.HasIdentifiers) (h : toString a = toString b) : a = b := by
  have hc : ¬Text.IsIdentifierChar ':' := by decide
  have hl := congrArg String.toList h
  rw [toString_toList, toString_toList] at hl
  obtain ⟨hn, hs⟩ := Text.append_inj_of_class ha.name.2 hb.name.2 (Text.beginsOutside_cons hc)
    (Text.beginsOutside_cons hc) hl
  simp only [List.cons.injEq, true_and] at hs
  have hname := String.toList_injective hn
  have hsource := Source.toString_injective (String.toList_injective hs)
  cases a
  cases b
  simp_all

/-- Identifiers, and the few characters that stand between them. -/
def Text.IsClauseChar (c : Char) : Prop :=
  Text.IsIdentifierChar c ∨ c ∈ [':', ' ', '$', '.']

instance : DecidablePred Text.IsClauseChar :=
  fun c => inferInstanceAs (Decidable (Text.IsIdentifierChar c ∨ c ∈ [':', ' ', '$', '.']))

theorem Path.isClauseChar_of_mem {path : Path} (h : path.HasIdentifiers) :
    ∀ c ∈ path.dotted.toList, Text.IsClauseChar c := by
  intro c hc
  rw [dotted_toList] at hc
  rcases Text.mem_or_mem_of_mem_intercalate hc with hc | ⟨item, hi, hc⟩
  · exact .inr (by simp [List.mem_singleton.mp hc])
  · obtain ⟨segment, hs, rfl⟩ := List.mem_map.mp hi
    exact .inl ((h segment hs).2 c hc)

theorem Argument.isClauseChar_of_mem {argument : Argument} (h : argument.HasIdentifiers) :
    ∀ c ∈ (toString argument).toList, Text.IsClauseChar c := by
  have hv (origin : Origin) : Text.All Text.IsClauseChar origin.variableName := by
    cases origin <;> decide
  simp only [toString_toList, Source.toString_toList, List.forall_mem_append, List.forall_mem_cons]
  exact ⟨fun c hc => .inl (h.name.2 c hc), by decide, by decide, hv _, by decide,
    Path.isClauseChar_of_mem h.path⟩

/-! ### Hydrations -/

namespace Hydration

/-- What stands between the target of a call and the clauses after its arguments. -/
def argumentsText (arguments : List Argument) : String :=
  if arguments.isEmpty then "" else "(" ++ ", ".intercalate (arguments.map toString) ++ ")"

/-- How many objects share a call, after what joins this to the clauses before it. -/
def batchText (joiner : String) : Option BatchSize → String
  | none => ""
  | some size => joiner ++ toString size.count

/-- How results are matched to objects, and how many objects share a call. -/
def groupingText : Option String → Option BatchSize → String
  | none, batchSize => batchText " batch size " batchSize
  | some identifier, batchSize =>
    " object identified by " ++ (identifier ++ batchText ", batch size " batchSize)

theorem clause_eq (hydration : Hydration) : hydration.clause =
    hydration.target ++ (argumentsText hydration.arguments ++
      groupingText hydration.identifier hydration.batchSize) := by
  obtain ⟨service, field, arguments, identifier, batchSize⟩ := hydration
  rw [clause, String.append_assoc, String.append_assoc]
  congr 2
  cases identifier with
  | none =>
    cases batchSize with
    | none => rfl
    | some size => exact String.empty_append
  | some identifier => cases batchSize <;> exact String.append_assoc

theorem clause_toList (hydration : Hydration) : hydration.clause.toList =
    hydration.service.toList ++ '.' :: (hydration.field.toList ++
      ((argumentsText hydration.arguments).toList ++
        (groupingText hydration.identifier hydration.batchSize).toList)) := by
  simp [clause_eq, target]

theorem argumentsText_toList {arguments : List Argument} (h : arguments ≠ []) (rest : List Char) :
    (argumentsText arguments).toList ++ rest =
      '(' :: ([',', ' '].intercalate (arguments.map fun argument => (toString argument).toList) ++
        ')' :: rest) := by
  rw [argumentsText, if_neg (by simpa using h)]
  simp [String.toList_intercalate, Function.comp_def]

/-- If anything follows the arguments, it begins with a space. -/
theorem groupingText_beginsOutside {p : Char → Prop} (h : ¬p ' ') (identifier : Option String)
    (batchSize : Option BatchSize) :
    Text.BeginsOutside p (groupingText identifier batchSize).toList := by
  have hs {first : String} (hf : first.toList.head? = some ' ') (rest : String) :
      Text.BeginsOutside p (first ++ rest).toList := by
    rw [String.toList_append]
    intro c hc
    rw [List.head?_append, hf, Option.some_or, Option.mem_some_iff] at hc
    exact hc ▸ h
  match identifier, batchSize with
  | none, none => exact Text.beginsOutside_nil
  | none, some _ | some _, _ => exact hs rfl _

section arguments

variable {as bs : List Argument} {rest rest' : List Char}

/-- Without arguments there is no opening parenthesis, and with arguments there is one. -/
theorem eq_nil_of_arguments_append (hr : Text.BeginsOutside (· = '(') rest)
    (h : rest = (argumentsText bs).toList ++ rest') : bs = [] := by
  refine Decidable.by_contra fun hb => ?_
  rw [argumentsText_toList hb] at h
  exact hr '(' (by simp [h]) rfl

theorem arguments_append_inj (ha : ∀ argument ∈ as, argument.HasIdentifiers)
    (hb : ∀ argument ∈ bs, argument.HasIdentifiers) (hr : Text.BeginsOutside (· = '(') rest)
    (hr' : Text.BeginsOutside (· = '(') rest')
    (h : (argumentsText as).toList ++ rest = (argumentsText bs).toList ++ rest') :
    as = bs ∧ rest = rest' := by
  by_cases ha' : as = []
  · subst ha'
    have hb' : bs = [] := eq_nil_of_arguments_append hr h
    subst hb'
    exact ⟨rfl, h⟩
  by_cases hb' : bs = []
  · subst hb'
    exact absurd (eq_nil_of_arguments_append hr' h.symm) ha'
  -- The comma and the closing parenthesis are characters that no argument holds.
  have hc {stop : Char} (hs : ¬Text.IsClauseChar stop) {arguments : List Argument}
      (h : ∀ argument ∈ arguments, argument.HasIdentifiers) :
      ∀ item ∈ arguments.map fun argument => (toString argument).toList, stop ∉ item := by
    rw [List.forall_mem_map]
    exact fun argument mem hc => hs (Argument.isClauseChar_of_mem (h argument mem) stop hc)
  have hp {arguments : List Argument} (h : ∀ argument ∈ arguments, argument.HasIdentifiers) :
      ∀ c ∈ [',', ' '].intercalate (arguments.map fun argument => (toString argument).toList),
        c ≠ ')' := by
    rintro c hm rfl
    rcases Text.mem_or_mem_of_mem_intercalate hm with hm | ⟨item, hi, hm⟩
    · exact absurd hm (by decide)
    · exact hc (by decide) h item hi hm
  rw [argumentsText_toList ha', argumentsText_toList hb', List.cons_eq_cons] at h
  obtain ⟨hi, hrest⟩ := Text.append_inj_of_class (hp ha) (hp hb)
    (Text.beginsOutside_cons (not_not_intro rfl)) (Text.beginsOutside_cons (not_not_intro rfl)) h.2
  have hm := Text.intercalate_inj (hc (by decide) ha) (hc (by decide) hb) (by simpa using ha')
    (by simpa using hb') hi
  have heq : as == bs := Text.beq_of_map_eq_map (fun a hma b hmb he => beq_iff_eq.mpr
    (Argument.toString_injective (ha a hma) (hb b hmb) (String.toList_injective he))) hm
  exact ⟨eq_of_beq heq, (List.cons_eq_cons.mp hrest).2⟩

end arguments

theorem batchText_injective {joiner : String} (hj : joiner ≠ "") {a b : Option BatchSize}
    (h : batchText joiner a = batchText joiner b) : a = b := by
  have hne (size : BatchSize) : batchText joiner (some size) ≠ "" :=
    fun he => hj (String.append_eq_empty_iff.mp he).1
  match a, b with
  | none, none => rfl
  | none, some size => exact absurd h.symm (hne size)
  | some size, none => exact absurd h (hne size)
  | some ⟨m, _⟩, some ⟨n, _⟩ =>
    have hn : m = n := Text.toString_word32_injective ((String.append_right_inj joiner).mp h)
    simpa using hn

/-- A batch size follows an identifier with a comma, which an identifier does not hold. -/
theorem identifier_append_inj {identifier identifier' : String} {a b : Option BatchSize}
    (hi : Text.IsIdentifier identifier) (hi' : Text.IsIdentifier identifier')
    (h : identifier ++ batchText ", batch size " a = identifier' ++ batchText ", batch size " b) :
    identifier = identifier' ∧ a = b := by
  have ho (size : Option BatchSize) : Text.BeginsOutside Text.IsIdentifierChar
      (batchText ", batch size " size).toList := by
    cases size with
    | none => exact Text.beginsOutside_nil
    | some size =>
      rw [batchText, String.toList_append]
      exact Text.beginsOutside_cons (by decide)
  have hl := congrArg String.toList h
  rw [String.toList_append, String.toList_append] at hl
  obtain ⟨hn, hs⟩ := Text.append_inj_of_class hi.2 hi'.2 (ho a) (ho b) hl
  exact ⟨String.toList_injective hn, batchText_injective (by decide) (String.toList_injective hs)⟩

theorem groupingText_injective {identifier identifier' : Option String} {a b : Option BatchSize}
    (hi : ∀ name ∈ identifier, Text.IsIdentifier name)
    (hi' : ∀ name ∈ identifier', Text.IsIdentifier name)
    (h : groupingText identifier a = groupingText identifier' b) :
    identifier = identifier' ∧ a = b := by
  have hne (size size' : Option BatchSize) (name : String) :
      batchText " batch size " size ≠
        " object identified by " ++ (name ++ batchText ", batch size " size') := by
    intro he
    have hl := congrArg String.toList he
    rw [String.toList_append] at hl
    cases size with
    | none => exact absurd hl.symm (List.cons_ne_nil _ _)
    | some size =>
      rw [batchText, String.toList_append] at hl
      -- The texts differ in their second character.
      have hc : some 'b' = some 'o' := congrArg (fun text => text[1]?) hl
      exact absurd hc (by decide)
  match identifier, identifier' with
  | none, none => exact ⟨rfl, batchText_injective (by decide) h⟩
  | none, some name => exact absurd h (hne a b name)
  | some name, none => exact absurd h.symm (hne b a name)
  | some name, some name' =>
    obtain ⟨rfl, hs⟩ := identifier_append_inj (hi name rfl) (hi' name' rfl)
      ((String.append_right_inj _).mp h)
    exact ⟨rfl, hs⟩

theorem clause_injective {a b : Hydration} (ha : a.HasIdentifiers) (hb : b.HasIdentifiers)
    (h : a.clause = b.clause) : a = b := by
  have hdot {name : String} (hn : Text.IsIdentifier name) : ∀ c ∈ name.toList, c ≠ '.' :=
    fun c hc => hn.ne_of_mem hc (by decide)
  have ho (hydration : Hydration) : Text.BeginsOutside Text.IsIdentifierChar
      ((argumentsText hydration.arguments).toList ++
        (groupingText hydration.identifier hydration.batchSize).toList) := by
    by_cases he : hydration.arguments = []
    · rw [he]
      exact groupingText_beginsOutside (by decide) _ _
    · rw [argumentsText_toList he]
      exact Text.beginsOutside_cons (by decide)
  have hl := congrArg String.toList h
  rw [clause_toList, clause_toList] at hl
  obtain ⟨hservice, hl⟩ := Text.append_inj_of_class (hdot ha.service) (hdot hb.service)
    (Text.beginsOutside_cons (not_not_intro rfl)) (Text.beginsOutside_cons (not_not_intro rfl)) hl
  obtain ⟨hfield, hl⟩ := Text.append_inj_of_class ha.field.2 hb.field.2 (ho a) (ho b)
    (List.cons_eq_cons.mp hl).2
  obtain ⟨harguments, hl⟩ := arguments_append_inj ha.arguments hb.arguments
    (groupingText_beginsOutside (by decide) _ _) (groupingText_beginsOutside (by decide) _ _) hl
  obtain ⟨hidentifier, hsize⟩ := groupingText_injective ha.identifier hb.identifier
    (String.toList_injective hl)
  cases a
  cases b
  simp_all [String.toList_inj]

end Hydration

/-! ### What a field carries, and the field -/

theorem Payload.clause_injective {a b : Payload} (ha : a.HasIdentifiers) (hb : b.HasIdentifiers)
    (h : a.clause = b.clause) : a = b := by
  have hne (path : Path) (call : Hydration) :
      "=> renamed from " ++ path.dotted ≠ "=> hydrated from " ++ call.clause := by
    intro he
    have hl := congrArg String.toList he
    rw [String.toList_append, String.toList_append] at hl
    have hc : some 'r' = some 'h' := congrArg (fun text => text[3]?) hl
    exact absurd hc (by decide)
  match a, b with
  | .mapping ⟨path⟩, .mapping ⟨path'⟩ =>
    have hp : path = path' := Path.dotted_injective ((String.append_right_inj _).mp h)
    rw [hp]
  | .hydration call, .hydration call' =>
    rw [Hydration.clause_injective ha hb ((String.append_right_inj _).mp h)]
  | .mapping ⟨path⟩, .hydration call => exact absurd h (hne path call)
  | .hydration call, .mapping ⟨path⟩ => exact absurd h.symm (hne path call)

/-- What follows the type of a field. -/
def Field.payloadText (field : Field) : String :=
  match field.transformation with
  | none => ""
  | some transformation => " " ++ transformation.payload.clause

theorem Field.clause_toList (field : Field) : field.clause.toList =
    field.name.toList ++ ':' :: ' ' :: (field.typeRef.toList ++ field.payloadText.toList) := by
  rw [clause, payloadText]
  cases field.transformation <;> simp

/-- Fields made of identifiers are equal, apart from provenance, if their texts are. -/
theorem Field.beq_of_clause_eq {a b : Field} (ha : a.HasIdentifiers) (hb : b.HasIdentifiers)
    (h : a.clause = b.clause) : a == b := by
  have hc : ¬Text.IsIdentifierChar ':' := by decide
  have hs (field : Field) : Text.BeginsOutside (· ≠ ' ') field.payloadText.toList := by
    rw [payloadText]
    cases field.transformation with
    | none => exact Text.beginsOutside_nil
    | some transformation =>
      rw [String.toList_append]
      exact Text.beginsOutside_cons (not_not_intro rfl)
  have hl := congrArg String.toList h
  rw [clause_toList, clause_toList] at hl
  obtain ⟨hname, hl⟩ := Text.append_inj_of_class ha.name.2 hb.name.2 (Text.beginsOutside_cons hc)
    (Text.beginsOutside_cons hc) hl
  simp only [List.cons_eq_cons, true_and] at hl
  obtain ⟨htype, hl⟩ := Text.append_inj_of_class (fun c hc => (ha.typeRef c hc).1)
    (fun c hc => (hb.typeRef c hc).1) (hs a) (hs b) hl
  have hp := String.toList_injective hl
  rw [beq_iff]
  refine ⟨String.toList_injective hname, String.toList_injective htype, ?_⟩
  rw [payloadText, payloadText] at hp
  match hx : a.transformation, hy : b.transformation with
  | none, none => rfl
  | some x, none =>
    rw [hx, hy] at hp
    exact absurd (String.append_eq_empty_iff.mp hp).1 (by decide)
  | none, some y =>
    rw [hx, hy] at hp
    exact absurd (String.append_eq_empty_iff.mp hp.symm).1 (by decide)
  | some x, some y =>
    rw [hx, hy] at hp
    rw [Option.some_beq_some, Transformation.beq_iff]
    exact Payload.clause_injective (ha.payload x hx) (hb.payload y hy)
      ((String.append_right_inj _).mp hp)

/-! ### Clauses are single lines -/

/-- The texts that an argument is made of, apart from what stands between them. -/
def Argument.texts (argument : Argument) : List String :=
  argument.name :: argument.source.path.segments

def Hydration.texts (hydration : Hydration) : List String :=
  hydration.service :: hydration.field ::
    (hydration.arguments.flatMap Argument.texts ++ hydration.identifier.toList)

def Payload.texts : Payload → List String
  | .mapping definition => definition.path.segments
  | .hydration definition => definition.texts

def Field.texts (field : Field) : List String :=
  field.name :: field.typeRef :: field.transformation.toList.flatMap fun x => x.payload.texts

theorem Text.IsIdentifier.newline_notMem {name : String} (h : Text.IsIdentifier name) :
    '\n' ∉ name.toList :=
  fun hc => h.ne_of_mem hc (by decide) rfl

theorem Argument.HasIdentifiers.isIdentifier {argument : Argument} (h : argument.HasIdentifiers) :
    ∀ text ∈ argument.texts, Text.IsIdentifier text := by
  rw [texts, List.forall_mem_cons]
  exact ⟨h.name, h.path⟩

theorem Payload.HasIdentifiers.isIdentifier {payload : Payload} (h : payload.HasIdentifiers) :
    ∀ text ∈ payload.texts, Text.IsIdentifier text := by
  cases payload with
  | mapping definition => exact h
  | hydration definition =>
    simp only [texts, Hydration.texts, List.forall_mem_cons, List.forall_mem_append,
      List.mem_flatMap, Option.mem_toList]
    refine ⟨h.service, h.field, ?_, h.identifier⟩
    rintro text ⟨argument, ha, ht⟩
    exact (h.arguments argument ha).isIdentifier text ht

theorem Field.HasIdentifiers.newline_notMem {field : Field} (h : field.HasIdentifiers) :
    ∀ text ∈ field.texts, '\n' ∉ text.toList := by
  simp only [texts, List.forall_mem_cons, List.mem_flatMap, Option.mem_toList]
  refine ⟨h.name.newline_notMem, fun hc => (h.typeRef _ hc).2 rfl, ?_⟩
  rintro text ⟨transformation, hx, ht⟩
  exact ((h.payload transformation hx).isIdentifier text ht).newline_notMem

theorem Path.newline_notMem {path : Path} (h : ∀ text ∈ path.segments, '\n' ∉ text.toList) :
    '\n' ∉ path.dotted.toList := by
  rw [dotted_toList]
  intro hc
  rcases Text.mem_or_mem_of_mem_intercalate hc with hc | ⟨item, hi, hc⟩
  · exact absurd hc (by decide)
  · obtain ⟨segment, hs, rfl⟩ := List.mem_map.mp hi
    exact h segment hs hc

theorem Argument.newline_notMem {argument : Argument}
    (h : ∀ text ∈ argument.texts, '\n' ∉ text.toList) :
    '\n' ∉ (toString argument).toList := by
  have hv (origin : Origin) : '\n' ∉ origin.variableName.toList := by
    cases origin <;> decide
  rw [texts, List.forall_mem_cons] at h
  simp only [toString_toList, Source.toString_toList, List.mem_append, List.mem_cons, not_or]
  exact ⟨h.1, by decide, by decide, hv _, by decide, Path.newline_notMem h.2⟩

theorem Hydration.argumentsText_newline_notMem {arguments : List Argument}
    (h : ∀ text ∈ arguments.flatMap Argument.texts, '\n' ∉ text.toList) :
    '\n' ∉ (argumentsText arguments).toList := by
  by_cases he : arguments = []
  · rw [he]
    exact List.not_mem_nil
  have ht := argumentsText_toList he []
  rw [List.append_nil] at ht
  rw [ht, List.mem_cons, List.mem_append, not_or, not_or]
  refine ⟨by decide, fun hm => ?_, by decide⟩
  rcases Text.mem_or_mem_of_mem_intercalate hm with hm | ⟨item, hi, hm⟩
  · exact absurd hm (by decide)
  · obtain ⟨argument, ha, rfl⟩ := List.mem_map.mp hi
    exact Argument.newline_notMem
      (fun text ht => h text (List.mem_flatMap.mpr ⟨argument, ha, ht⟩)) hm

theorem Hydration.batchText_newline_notMem {joiner : String} (h : '\n' ∉ joiner.toList)
    (batchSize : Option BatchSize) : '\n' ∉ (batchText joiner batchSize).toList := by
  cases batchSize with
  | none => exact List.not_mem_nil
  | some size =>
    rw [batchText, String.toList_append, List.mem_append, not_or, Text.toString_word32_toList]
    exact ⟨h, fun hm => absurd (Nat.isDigit_of_mem_toDigits (by decide) (by decide) hm) (by decide)⟩

theorem Hydration.groupingText_newline_notMem {identifier : Option String}
    (h : ∀ text ∈ identifier.toList, '\n' ∉ text.toList) (batchSize : Option BatchSize) :
    '\n' ∉ (groupingText identifier batchSize).toList := by
  cases identifier with
  | none =>
    show '\n' ∉ (batchText " batch size " batchSize).toList
    exact batchText_newline_notMem (by decide) batchSize
  | some identifier =>
    show '\n' ∉
      (" object identified by " ++ (identifier ++ batchText ", batch size " batchSize)).toList
    rw [String.toList_append, String.toList_append, List.mem_append, List.mem_append, not_or,
      not_or]
    exact ⟨by decide, h identifier List.mem_cons_self,
      batchText_newline_notMem (by decide) batchSize⟩

theorem Hydration.clause_newline_notMem {hydration : Hydration}
    (h : ∀ text ∈ hydration.texts, '\n' ∉ text.toList) : '\n' ∉ hydration.clause.toList := by
  simp only [texts, List.forall_mem_cons, List.forall_mem_append] at h
  obtain ⟨hservice, hfield, harguments, hidentifier⟩ := h
  simp only [clause_toList, List.mem_append, List.mem_cons, not_or]
  exact ⟨hservice, by decide, hfield, argumentsText_newline_notMem harguments,
    groupingText_newline_notMem hidentifier _⟩

theorem Payload.clause_newline_notMem {payload : Payload}
    (h : ∀ text ∈ payload.texts, '\n' ∉ text.toList) : '\n' ∉ payload.clause.toList := by
  cases payload with
  | mapping definition =>
    show '\n' ∉ ("=> renamed from " ++ definition.path.dotted).toList
    rw [String.toList_append, List.mem_append, not_or]
    exact ⟨by decide, Path.newline_notMem h⟩
  | hydration definition =>
    show '\n' ∉ ("=> hydrated from " ++ definition.clause).toList
    rw [String.toList_append, List.mem_append, not_or]
    exact ⟨by decide, Hydration.clause_newline_notMem h⟩

/-- A field whose texts hold no line feed is written on one line. -/
theorem Field.clause_newline_notMem {field : Field}
    (h : ∀ text ∈ field.texts, '\n' ∉ text.toList) : '\n' ∉ field.clause.toList := by
  simp only [texts, List.forall_mem_cons] at h
  obtain ⟨hname, htype, hpayload⟩ := h
  have hp : '\n' ∉ field.payloadText.toList := by
    rw [payloadText]
    match ht : field.transformation with
    | none => exact List.not_mem_nil
    | some transformation =>
      rw [String.toList_append, List.mem_append, not_or]
      refine ⟨by decide, Payload.clause_newline_notMem fun text hx => hpayload text ?_⟩
      rw [ht]
      exact List.mem_flatMap.mpr ⟨transformation, List.mem_cons_self, hx⟩
  simp only [clause_toList, List.mem_append, List.mem_cons, not_or]
  exact ⟨hname, by decide, by decide, htype, hp⟩

end SchemaStitching
