import Mathlib.Tactic.Ring
import SchemaStitching.Proofs.Clauses

/-! The texts of locations.  A spelling is a line and a column, and perhaps a name before them, with
colons in between.  Neither a line nor a column holds a colon, so a text has at most one spelling,
whatever its name holds, and `Location.parse?` finds it.  `toString` writes a location as a spelling
that denotes it, apart from its span, unless its name is empty. -/

namespace SchemaStitching

namespace Text

/-- The number that digits denote, each by its place. -/
def placeValue : List Char → Nat
  | [] => 0
  | c :: rest => (c.toNat - '0'.toNat) * 10 ^ rest.length + placeValue rest

/-- One or more ASCII digits, and the number that they denote. -/
structure Digits (text : List Char) (n : Nat) : Prop where
  ne_nil : text ≠ []
  isDigit : ∀ c ∈ text, c.isDigit
  value : placeValue text = n

/-- Digits after at most one plus sign, and the number that they denote. -/
inductive Numeral : List Char → Nat → Prop
  | digits {text : List Char} {n : Nat} (h : Digits text n) : Numeral text n
  | plus {text : List Char} {n : Nat} (h : Digits text n) : Numeral ('+' :: text) n

theorem ofDigitChars_eq_placeValue (text : List Char) (init : Nat) :
    Nat.ofDigitChars 10 text init = init * 10 ^ text.length + placeValue text := by
  induction text generalizing init with
  | nil => simp [placeValue]
  | cons c rest ih =>
    rw [Nat.ofDigitChars_cons, ih, placeValue, List.length_cons]
    ring

theorem ofDigitChars_zero (text : List Char) : Nat.ofDigitChars 10 text 0 = placeValue text := by
  rw [ofDigitChars_eq_placeValue, Nat.zero_mul, Nat.zero_add]

theorem digits?_eq_some_iff {text : List Char} {n : Nat} :
    digits? text = some n ↔ Digits text n := by
  cases text with
  | nil => exact ⟨nofun, fun h => absurd rfl h.ne_nil⟩
  | cons c rest =>
    show (if (c :: rest).all Char.isDigit then some (Nat.ofDigitChars 10 (c :: rest) 0) else none) =
      some n ↔ _
    rw [ofDigitChars_zero, Option.ite_none_right_eq_some, List.all_eq_true, Option.some_inj]
    exact ⟨fun ⟨hd, hn⟩ => ⟨List.cons_ne_nil c rest, hd, hn⟩, fun h => ⟨h.isDigit, h.value⟩⟩

theorem Digits.notMem {text : List Char} {n : Nat} (h : Digits text n) {c : Char}
    (hc : c.isDigit = false) : c ∉ text := by
  intro hm
  rw [h.isDigit c hm] at hc
  contradiction

theorem numeral?_eq_some_iff {text : List Char} {n : Nat} :
    numeral? text = some n ↔ Numeral text n := by
  constructor
  · intro h
    unfold numeral? at h
    split at h
    · exact .plus (digits?_eq_some_iff.mp h)
    · exact .digits (digits?_eq_some_iff.mp h)
  · rintro (h | h)
    · unfold numeral?
      split
      · exact absurd List.mem_cons_self (h.notMem (c := '+') rfl)
      · exact digits?_eq_some_iff.mpr h
    · exact digits?_eq_some_iff.mpr h

theorem word32?_eq_some_iff {text : List Char} {word : UInt32} :
    word32? text = some word ↔ Numeral text word.toNat := by
  rw [← numeral?_eq_some_iff, word32?]
  cases numeral? text with
  | none => exact ⟨nofun, nofun⟩
  | some n =>
    show (if h : n < UInt32.size then some (UInt32.ofNatLT n h) else none) = some word ↔ _
    rw [Option.dite_none_right_eq_some]
    constructor
    · rintro ⟨hn, he⟩
      rw [← Option.some.inj he, UInt32.toNat_ofNatLT]
    · intro he
      obtain rfl := Option.some.inj he
      exact ⟨word.toNat_lt, congrArg some (UInt32.ofNatLT_toNat word)⟩

theorem Numeral.colon_notMem {text : List Char} {n : Nat} (h : Numeral text n) : ':' ∉ text := by
  cases h with
  | digits h => exact h.notMem rfl
  | plus h =>
    rw [List.mem_cons, not_or]
    exact ⟨by decide, h.notMem rfl⟩

theorem numeral_toString (word : UInt32) : Numeral (toString word).toList word.toNat := by
  have hv : placeValue (Nat.toDigits 10 word.toNat) = word.toNat := by
    rw [← ofDigitChars_zero, Nat.ofDigitChars_ten_toDigits]
  rw [toString_word32_toList]
  refine .digits ⟨Nat.toDigits_ne_nil, fun c hc => ?_, hv⟩
  exact Nat.isDigit_of_mem_toDigits (by decide) (by decide) hc

end Text

namespace Location

/-- The parts of a text that may denote a location. -/
structure Spelling where
  name : Option String
  line : String
  column : String

namespace Spelling

def text (spelling : Spelling) : String :=
  let position := spelling.line ++ ":" ++ spelling.column
  match spelling.name with
  | none => position
  | some name => name ++ ":" ++ position

/-- The parts denote the location: its name, which may be any text but the empty one, and numerals
of its line and its column. -/
structure Denotes (spelling : Spelling) (location : Location) : Prop where
  name : spelling.name = location.sourceName
  name_ne_empty : spelling.name ≠ some ""
  line : Text.Numeral spelling.line.toList location.line.toNat
  column : Text.Numeral spelling.column.toList location.column.toNat
  span : location.span = none

/-- Neither the line nor the column holds a colon. -/
structure Separated (spelling : Spelling) : Prop where
  line : ':' ∉ spelling.line.toList
  column : ':' ∉ spelling.column.toList

theorem Denotes.separated {spelling : Spelling} {location : Location}
    (h : spelling.Denotes location) : spelling.Separated :=
  ⟨h.line.colon_notMem, h.column.colon_notMem⟩

/-- The name and the line, with what stands between them. -/
def front (spelling : Spelling) : List Char :=
  match spelling.name with
  | none => spelling.line.toList
  | some name => name.toList ++ ':' :: spelling.line.toList

theorem text_toList (spelling : Spelling) :
    spelling.text.toList = spelling.front ++ ':' :: spelling.column.toList := by
  rw [text, front]
  cases spelling.name <;> simp

theorem front_injective {s t : Spelling} (hs : s.Separated) (ht : t.Separated)
    (h : s.front = t.front) : s.name = t.name ∧ s.line = t.line := by
  obtain ⟨name, line, column⟩ := s
  obtain ⟨name', line', column'⟩ := t
  have hne (name : String) {line line' : String} (hl : ':' ∉ line'.toList) :
      name.toList ++ ':' :: line.toList ≠ line'.toList := by
    intro he
    rw [← he] at hl
    simp at hl
  match name, name' with
  | none, none => exact ⟨rfl, String.toList_injective h⟩
  | some name, none => exact absurd h (hne name ht.line)
  | none, some name => exact absurd h.symm (hne name hs.line)
  | some name, some name' =>
    obtain ⟨hn, hl⟩ := Text.append_cons_inj_of_notMem hs.line ht.line h
    exact ⟨congrArg some (String.toList_injective hn), String.toList_injective hl⟩

theorem text_injective {s t : Spelling} (hs : s.Separated) (ht : t.Separated)
    (h : s.text = t.text) : s = t := by
  have hl := congrArg String.toList h
  rw [text_toList, text_toList] at hl
  obtain ⟨hf, hc⟩ := Text.append_cons_inj_of_notMem hs.column ht.column hl
  obtain ⟨hn, hl⟩ := front_injective hs ht hf
  cases s
  cases t
  simp_all [String.toList_inj]

theorem exists_text_eq {text : String} (h : ':' ∈ text.toList) :
    ∃ spelling : Spelling, spelling.Separated ∧ spelling.text = text := by
  obtain ⟨front, column, ht, hc⟩ := Text.exists_append_cons_notMem h
  have hcolumn : ':' ∉ (String.ofList column).toList := by rwa [String.toList_ofList]
  by_cases hf : ':' ∈ front
  · obtain ⟨name, line, rfl, hl⟩ := Text.exists_append_cons_notMem hf
    refine ⟨⟨some (String.ofList name), String.ofList line, String.ofList column⟩,
      ⟨by rwa [String.toList_ofList], hcolumn⟩, String.toList_injective ?_⟩
    simp [text_toList, Spelling.front, ht]
  · refine ⟨⟨none, String.ofList front, String.ofList column⟩,
      ⟨by rwa [String.toList_ofList], hcolumn⟩, String.toList_injective ?_⟩
    simp [text_toList, Spelling.front, ht]

end Spelling

theorem parse?_of_colon_notMem {text : String} (h : ':' ∉ text.toList) : parse? text = none := by
  rw [parse?, List.splitOn_eq_singleton h]
  rfl

theorem parse?_text {spelling : Spelling} (h : spelling.Separated) :
    parse? spelling.text = if spelling.name = some "" then none else do
      return {
        line := ← Text.word32? spelling.line.toList
        column := ← Text.word32? spelling.column.toList
        sourceName := spelling.name } := by
  obtain ⟨name, line, column⟩ := spelling
  have hl : line.toList.splitOn ':' = [line.toList] := List.splitOn_eq_singleton h.line
  have hc : column.toList.splitOn ':' = [column.toList] := List.splitOn_eq_singleton h.column
  rw [parse?, Spelling.text_toList, List.splitOn_append_cons_self, hc]
  cases name with
  | none =>
    rw [Spelling.front, hl]
    rfl
  | some name =>
    have hn : (name.toList.splitOn ':').reverse ≠ [] := by simp [List.splitOn_ne_nil]
    obtain ⟨piece, pieces, hp⟩ := List.exists_cons_of_ne_nil hn
    have hi : [':'].intercalate (piece :: pieces).reverse = name.toList := by
      rw [← hp, List.reverse_reverse, List.intercalate_splitOn]
    rw [Spelling.front, List.splitOn_append_cons_self, hl, List.reverse_append, List.reverse_append,
      hp]
    simp only [List.reverse_singleton, List.singleton_append, hi, List.isEmpty_iff,
      String.toList_eq_nil_iff, String.ofList_toList, Option.some_inj]

theorem parse?_text_eq_some_iff {spelling : Spelling} (h : spelling.Separated)
    {location : Location} : parse? spelling.text = some location ↔ spelling.Denotes location := by
  rw [parse?_text h, Option.ite_none_left_eq_some]
  constructor
  · rintro ⟨hn, hp⟩
    obtain ⟨line, hl, hp⟩ := Option.bind_eq_some_iff.mp hp
    obtain ⟨column, hc, hp⟩ := Option.bind_eq_some_iff.mp hp
    obtain rfl := Option.some.inj hp
    exact ⟨rfl, hn, Text.word32?_eq_some_iff.mp hl, Text.word32?_eq_some_iff.mp hc, rfl⟩
  · intro hd
    obtain ⟨line, column, name, span⟩ := location
    obtain ⟨rfl, hn, hl, hc, rfl⟩ := hd
    refine ⟨hn, ?_⟩
    rw [Text.word32?_eq_some_iff.mpr hl, Text.word32?_eq_some_iff.mpr hc]
    rfl

theorem exists_spelling_of_parse? {text : String} {location : Location}
    (h : parse? text = some location) :
    ∃ spelling : Spelling, spelling.text = text ∧ spelling.Denotes location := by
  have hc : ':' ∈ text.toList := by
    refine Decidable.by_contra fun hc => ?_
    rw [parse?_of_colon_notMem hc] at h
    contradiction
  obtain ⟨spelling, hs, rfl⟩ := Spelling.exists_text_eq hc
  exact ⟨spelling, rfl, (parse?_text_eq_some_iff hs).mp h⟩

theorem Spelling.exists_denotes_iff (spelling : Spelling) :
    (∃ location, spelling.Denotes location) ↔ spelling.name ≠ some "" ∧
      (∃ line ≤ 4294967295, Text.Numeral spelling.line.toList line) ∧
      ∃ column ≤ 4294967295, Text.Numeral spelling.column.toList column := by
  constructor
  · rintro ⟨location, h⟩
    exact ⟨h.name_ne_empty, ⟨_, Nat.le_of_lt_succ location.line.toNat_lt, h.line⟩,
      ⟨_, Nat.le_of_lt_succ location.column.toNat_lt, h.column⟩⟩
  · rintro ⟨hn, ⟨line, hl, hline⟩, column, hc, hcolumn⟩
    let location : Location := {
      line := UInt32.ofNatLT line (Nat.lt_succ_of_le hl)
      column := UInt32.ofNatLT column (Nat.lt_succ_of_le hc)
      sourceName := spelling.name }
    exact ⟨location, rfl, hn, by rwa [UInt32.toNat_ofNatLT], by rwa [UInt32.toNat_ofNatLT], rfl⟩

/-- A text denotes a location if and only if it has a spelling that does, and then it has one
only.  It denotes none unless its name, if it has one, is not empty, and its line and its column are
numerals of numbers that fit in 32 bits. -/
theorem parse?_eq_some_iff_existsUnique (text : String) :
    (∀ location, parse? text = some location ↔
      ∃! spelling : Spelling, spelling.text = text ∧ spelling.Denotes location) ∧
    (parse? text = none ↔
      ¬∃ spelling : Spelling, spelling.text = text ∧ spelling.name ≠ some "" ∧
        (∃ line ≤ 4294967295, Text.Numeral spelling.line.toList line) ∧
        ∃ column ≤ 4294967295, Text.Numeral spelling.column.toList column) := by
  have hs (location : Location) : parse? text = some location ↔
      ∃! spelling : Spelling, spelling.text = text ∧ spelling.Denotes location := by
    constructor
    · intro hp
      obtain ⟨spelling, rfl, hd⟩ := exists_spelling_of_parse? hp
      refine ⟨spelling, ⟨rfl, hd⟩, ?_⟩
      rintro other ⟨ho, hd'⟩
      exact Spelling.text_injective hd'.separated hd.separated ho
    · rintro ⟨spelling, ⟨rfl, hd⟩, -⟩
      exact (parse?_text_eq_some_iff hd.separated).mpr hd
  refine ⟨hs, ?_⟩
  simp only [← Spelling.exists_denotes_iff, Option.eq_none_iff_forall_ne_some]
  constructor
  · rintro hn ⟨spelling, rfl, location, hd⟩
    exact hn location ((parse?_text_eq_some_iff hd.separated).mpr hd)
  · intro hn location hp
    obtain ⟨spelling, ht, hd⟩ := exists_spelling_of_parse? hp
    exact hn ⟨spelling, ht, location, hd⟩

/-! ### Texts that are written -/

/-- The spelling of a location that `toString` writes. -/
def spelling (location : Location) : Spelling where
  name := location.sourceName
  line := toString location.line
  column := toString location.column

theorem toString_eq_text (location : Location) : toString location = location.spelling.text := by
  obtain ⟨line, column, name, span⟩ := location
  cases name <;> rfl

theorem separated_spelling (location : Location) : location.spelling.Separated :=
  ⟨(Text.numeral_toString location.line).colon_notMem,
    (Text.numeral_toString location.column).colon_notMem⟩

theorem denotes_spelling_iff (location : Location) :
    location.spelling.Denotes { location with span := none } ↔ location.sourceName ≠ some "" :=
  ⟨fun h => h.name_ne_empty, fun h =>
    ⟨rfl, h, Text.numeral_toString location.line, Text.numeral_toString location.column, rfl⟩⟩

/-- A location can be read back from its text, apart from its span, unless its name is empty, and
then the text denotes none.  So a location that comes from a text comes from its own text as well,
and the text of a location tells its name, its line and its column. -/
theorem parse?_toString_eq_some_iff :
    (∀ location : Location,
      (parse? (toString location) = some { location with span := none } ↔
        location.sourceName ≠ some "") ∧
      (location.sourceName = some "" → parse? (toString location) = none)) ∧
    (∀ text location, parse? text = some location → parse? (toString location) = some location) ∧
    ∀ a b : Location, toString a = toString b →
      a.sourceName = b.sourceName ∧ a.line = b.line ∧ a.column = b.column := by
  have hp (location : Location) :
      parse? (toString location) = some { location with span := none } ↔
        location.sourceName ≠ some "" := by
    rw [toString_eq_text, parse?_text_eq_some_iff location.separated_spelling,
      denotes_spelling_iff]
  refine ⟨fun location => ⟨hp location, fun hn => ?_⟩, fun text location ht => ?_, fun a b h => ?_⟩
  · rw [toString_eq_text, parse?_text location.separated_spelling]
    exact if_pos hn
  · obtain ⟨spelling, -, hd⟩ := exists_spelling_of_parse? ht
    obtain ⟨line, column, name, span⟩ := location
    obtain ⟨rfl, hn, -, -, rfl⟩ := hd
    exact (hp _).mpr hn
  · rw [toString_eq_text, toString_eq_text] at h
    have hs : a.spelling = b.spelling :=
      Spelling.text_injective a.separated_spelling b.separated_spelling h
    obtain ⟨hn, hl, hc⟩ := Spelling.mk.inj hs
    exact ⟨hn, Text.toString_word32_injective hl, Text.toString_word32_injective hc⟩

/-- A name that looks like a position, and an empty one. -/
theorem parse?_toString_eq_some_iff_colons :
    let named : Location :=
      { line := 3, column := 4294967295, sourceName := some "1:2", span := some ⟨5, 4⟩ }
    let found : Location := { named with span := none }
    let unnamed : Location := { line := 2, column := 1, sourceName := some "" }
    let text := "1:2:+03:4294967295"
    named.sourceName ≠ some "" ∧ parse? (toString named) = some found ∧
    unnamed.sourceName = some "" ∧ parse? (toString unnamed) = none ∧
    parse? text = some found ∧ toString found ≠ text ∧ parse? (toString found) = some found ∧
    toString named = toString found ∧ named.sourceName = found.sourceName ∧
    named.line = found.line ∧ named.column = found.column := by
  intro named found unnamed text
  have hn : named.sourceName ≠ some "" := by decide
  have hu : unnamed.sourceName = some "" := rfl
  have ht : parse? text = some found := by decide
  have he : toString named = toString found := rfl
  obtain ⟨hread, hagain, hinj⟩ := parse?_toString_eq_some_iff
  exact ⟨hn, (hread named).1.mpr hn, hu, (hread unnamed).2 hu, ht, by decide,
    hagain text found ht, he, hinj named found he⟩

end Location

end SchemaStitching
