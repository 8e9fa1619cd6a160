import Mathlib.Data.List.Basic
import Mathlib.Order.Defs.Unbundled
import SchemaStitching.Span

/-! The texts that spans cover.  A span cuts a source into the part before it, the text that it
covers, and the part after it.  It does so exactly if its bounds are in order, within the source,
and between characters, and there is only one way to do it.  A cut within the text of another span
is a cut of the whole source, moved by the start of that span. -/

namespace SchemaStitching

namespace Text

/-- Whether a character of the text starts at the offset, or the text ends there. -/
def IsBoundary (text : String) (offset : Nat) : Prop :=
  offset = text.utf8ByteSize ∨
    ∃ h : (⟨offset⟩ : String.Pos.Raw) < text.rawEndPos,
      (text.getUTF8Byte ⟨offset⟩ h).IsUTF8FirstByte

theorem isBoundary_iff_exists_append {text : String} {offset : Nat} :
    IsBoundary text offset ↔
      ∃ front rest, text = front ++ rest ∧ front.utf8ByteSize = offset := by
  have hv : IsBoundary text offset ↔ String.Pos.Raw.IsValid text ⟨offset⟩ := by
    rw [String.Pos.Raw.isValid_iff_isUTF8FirstByte, String.Pos.Raw.ext_iff]
    rfl
  rw [hv, String.Pos.Raw.isValid_iff_exists_append]
  simp only [String.Pos.Raw.ext_iff, String.byteIdx_rawEndPos, eq_comm (a := offset)]

theorem utf8ByteSize_ofList_cons (c : Char) (text : List Char) :
    (String.ofList (c :: text)).utf8ByteSize =
      c.utf8Size + (String.ofList text).utf8ByteSize := by
  rw [String.ofList_cons, String.utf8ByteSize_append, String.utf8ByteSize_singleton]

theorem cut?_append (front rest : List Char) :
    cut? (String.ofList front).utf8ByteSize (front ++ rest) = some (front, rest) := by
  induction front with
  | nil => simp [cut?]
  | cons c front ih =>
    have hc := c.utf8Size_pos
    rw [utf8ByteSize_ofList_cons, List.cons_append, cut?, if_pos (Nat.le_add_right ..),
      Nat.add_sub_cancel_left, ih]
    · rfl
    · omega

theorem append_of_cut? {n : Nat} {text front rest : List Char}
    (h : cut? n text = some (front, rest)) :
    text = front ++ rest ∧ (String.ofList front).utf8ByteSize = n := by
  fun_induction cut? n text generalizing front with
  | case1 text =>
    cases h
    exact ⟨rfl, rfl⟩
  | case2 n => contradiction
  | case3 n c text hn hc ih =>
    obtain ⟨⟨front, rest⟩, h, he⟩ := Option.map_eq_some_iff.mp h
    cases he
    obtain ⟨rfl, hs⟩ := ih h
    refine ⟨rfl, ?_⟩
    rw [utf8ByteSize_ofList_cons, hs]
    omega
  | case4 n c text hn hc => contradiction

/-- A cut takes off the characters that fill the given number of bytes. -/
theorem cut?_eq_some_iff {n : Nat} {text front rest : List Char} :
    cut? n text = some (front, rest) ↔
      text = front ++ rest ∧ (String.ofList front).utf8ByteSize = n := by
  constructor
  · exact append_of_cut?
  · rintro ⟨rfl, rfl⟩
    exact cut?_append front rest

/-- Of two ways to take a text apart, the one that takes fewer bytes first can be continued to the
other. -/
theorem exists_append_of_append_eq {a b c d : String} (h : a ++ b = c ++ d)
    (hs : a.utf8ByteSize ≤ c.utf8ByteSize) : ∃ m, c = a ++ m ∧ b = m ++ d := by
  have hl : a.toList ++ b.toList = c.toList ++ d.toList := by
    rw [← String.toList_append, h, String.toList_append]
  rcases List.append_eq_append_iff.mp hl with ⟨m, hc, hb⟩ | ⟨m, ha, hd⟩
  · refine ⟨String.ofList m, ?_, ?_⟩
    · rw [← String.toList_inj, hc, String.toList_append, String.toList_ofList]
    · rw [← String.toList_inj, hb, String.toList_append, String.toList_ofList]
  · -- What is left over is empty, since it would take bytes of its own.
    have ha' : a = c ++ String.ofList m := by
      rw [← String.toList_inj, ha, String.toList_append, String.toList_ofList]
    have hm : String.ofList m = "" := by
      rw [ha', String.utf8ByteSize_append] at hs
      exact String.utf8ByteSize_eq_zero_iff.mp (by omega)
    rw [hm, String.append_empty] at ha'
    subst ha'
    exact ⟨"", String.append_empty.symm, (String.append_right_inj a).mp (by simpa using h)⟩

end Text

namespace Span

/-- The span cuts the source into the part before it, the text that it covers, and the part after
it. -/
structure Cuts (span : Span) (source before text after : String) : Prop where
  source_eq : source = before ++ text ++ after
  start_eq : before.utf8ByteSize = span.start.toNat
  stop_eq : (before ++ text).utf8ByteSize = span.stop.toNat

/-- The span with both bounds moved towards the start of the source. -/
def shiftLeft (span : Span) (offset : UInt64) : Span :=
  ⟨span.start - offset, span.stop - offset⟩

theorem length_toNat (span : Span) :
    span.length.toNat = span.stop.toNat - span.start.toNat := by
  rw [length]
  split
  · exact UInt64.toNat_sub_of_le _ _ ‹_›
  · rename_i h
    rw [UInt64.le_iff_toNat_le] at h
    rw [Nat.sub_eq_zero_of_le (by omega)]
    rfl

theorem isEmpty_iff {span : Span} : span.isEmpty ↔ span.start = span.stop :=
  beq_iff_eq

theorem contains_iff {outer inner : Span} :
    outer.contains inner ↔ outer.start ≤ inner.start ∧ inner.stop ≤ outer.stop := by
  rw [contains, Bool.and_eq_true, decide_eq_true_iff, decide_eq_true_iff]

section cuts

variable {span : Span} {source before text after : String}

theorem Cuts.start_le_stop (h : span.Cuts source before text after) : span.start ≤ span.stop := by
  have hs := h.stop_eq
  rw [String.utf8ByteSize_append, h.start_eq] at hs
  rw [UInt64.le_iff_toNat_le]
  omega

theorem Cuts.utf8ByteSize_text (h : span.Cuts source before text after) :
    text.utf8ByteSize = span.length.toNat := by
  have hs := h.stop_eq
  rw [String.utf8ByteSize_append, h.start_eq] at hs
  rw [length_toNat]
  omega

theorem Cuts.toByteArray_text (h : span.Cuts source before text after) :
    text.toByteArray = source.toByteArray.extract span.start.toNat span.stop.toNat := by
  have hs : (before ++ text).toByteArray.size = span.stop.toNat := by
    rw [String.size_toByteArray, h.stop_eq]
  have hb : before.toByteArray.size = span.start.toNat := by
    rw [String.size_toByteArray, h.start_eq]
  rw [h.source_eq, String.toByteArray_append, ← hs, ByteArray.extract_append_size_left,
    String.toByteArray_append]
  exact (ByteArray.extract_append_eq_right hb.symm ByteArray.size_append).symm

theorem Cuts.text_eq_empty_iff (h : span.Cuts source before text after) :
    text = "" ↔ span.isEmpty := by
  have hs := h.stop_eq
  rw [String.utf8ByteSize_append, h.start_eq] at hs
  rw [isEmpty_iff, ← UInt64.toNat_inj, ← String.utf8ByteSize_eq_zero_iff]
  omega

theorem text?_eq_some_iff :
    span.text? source = some text ↔ ∃ before after, span.Cuts source before text after := by
  rw [text?]
  split
  · rename_i ho
    simp only [Option.bind_eq_bind, Option.bind_eq_some_iff, Prod.exists, Text.cut?_eq_some_iff,
      Option.pure_def, Option.some.injEq]
    rw [UInt64.le_iff_toNat_le] at ho
    constructor
    · rintro ⟨front, rest, ⟨hs, hstart⟩, covered, after, ⟨rfl, hstop⟩, rfl⟩
      rw [← List.append_assoc] at hs
      refine ⟨String.ofList front, String.ofList after, ?_, hstart, ?_⟩
      · rw [← String.ofList_append, ← String.ofList_append, ← hs, String.ofList_toList]
      · rw [String.utf8ByteSize_append, hstart, hstop, UInt64.toNat_sub_of_le _ _ ‹_›]
        omega
    · rintro ⟨before, after, h⟩
      refine ⟨before.toList, (text ++ after).toList, ⟨?_, ?_⟩, text.toList, after.toList,
        ⟨String.toList_append, ?_⟩, String.ofList_toList⟩
      · rw [h.source_eq, String.append_assoc, String.toList_append]
      · rw [String.ofList_toList, h.start_eq]
      · rw [String.ofList_toList, h.utf8ByteSize_text, length, if_pos h.start_le_stop]
  · rename_i ho
    constructor
    · nofun
    · rintro ⟨before, after, h⟩
      exact absurd h.start_le_stop ho

/-- A span cuts a source exactly if its bounds are in order, within the source, and between
characters. -/
theorem exists_cuts_iff :
    (∃ text before after, span.Cuts source before text after) ↔
      span.start ≤ span.stop ∧ span.stop.toNat ≤ source.utf8ByteSize ∧
        Text.IsBoundary source span.start.toNat ∧ Text.IsBoundary source span.stop.toNat := by
  simp only [Text.isBoundary_iff_exists_append]
  constructor
  · rintro ⟨text, before, after, h⟩
    refine ⟨h.start_le_stop, ?_, ⟨before, text ++ after, ?_, h.start_eq⟩,
      ⟨before ++ text, after, h.source_eq, h.stop_eq⟩⟩
    · rw [h.source_eq, String.utf8ByteSize_append, h.stop_eq]
      exact Nat.le_add_right ..
    · rw [h.source_eq, String.append_assoc]
  · rintro ⟨ho, -, ⟨before, rest, hb, hs⟩, ⟨front, after, hf, he⟩⟩
    rw [UInt64.le_iff_toNat_le, ← hs, ← he] at ho
    obtain ⟨text, rfl, -⟩ := Text.exists_append_of_append_eq (hb.symm.trans hf) ho
    exact ⟨text, before, after, hf, hs, he⟩

/-- Within the text of an outer span, a span cuts as it does within the whole source, but for the
start of the outer one. -/
theorem Cuts.exists_cuts_shiftLeft_iff {inner : Span} {part : String}
    (h : span.Cuts source before text after) (hi : inner.start ≤ inner.stop)
    (hc : span.contains inner) :
    (∃ before after, inner.Cuts source before part after) ↔
      ∃ before after, (inner.shiftLeft span.start).Cuts text before part after := by
  obtain ⟨hstart, hstop⟩ := contains_iff.mp hc
  have hstart' : (inner.shiftLeft span.start).start.toNat =
      inner.start.toNat - span.start.toNat := UInt64.toNat_sub_of_le _ _ hstart
  have hstop' : (inner.shiftLeft span.start).stop.toNat =
      inner.stop.toNat - span.start.toNat := UInt64.toNat_sub_of_le _ _ (UInt64.le_trans hstart hi)
  rw [UInt64.le_iff_toNat_le] at hi hstart hstop
  constructor
  · rintro ⟨front, rest, hf⟩
    -- The parts before and after the inner span reach over the ends of the outer text.
    have hsource := h.source_eq.symm.trans hf.source_eq
    simp only [String.append_assoc] at hsource
    obtain ⟨front, rfl, ht⟩ := Text.exists_append_of_append_eq hsource
      (by rw [h.start_eq, hf.start_eq]; exact hstart)
    rw [← String.append_assoc] at ht
    have hstarts := hf.start_eq
    have hstops := hf.stop_eq
    have hends := h.stop_eq
    simp only [String.utf8ByteSize_append, h.start_eq] at hstarts hstops hends
    obtain ⟨rest, ht, -⟩ := Text.exists_append_of_append_eq ht.symm
      (by rw [String.utf8ByteSize_append]; omega)
    refine ⟨front, rest, ht, ?_, ?_⟩
    · omega
    · rw [String.utf8ByteSize_append]
      omega
  · rintro ⟨front, rest, hf⟩
    refine ⟨before ++ front, rest ++ after, ?_, ?_, ?_⟩
    · rw [h.source_eq, hf.source_eq]
      simp only [String.append_assoc]
    · rw [String.utf8ByteSize_append, h.start_eq, hf.start_eq, hstart']
      omega
    · rw [String.append_assoc, String.utf8ByteSize_append, h.start_eq, hf.stop_eq, hstop']
      omega

end cuts

theorem contains_isPartialOrder :
    IsPartialOrder Span fun outer inner => outer.contains inner where
  refl span := contains_iff.mpr ⟨UInt64.le_refl _, UInt64.le_refl _⟩
  trans a b c hab hbc := by
    rw [contains_iff] at *
    exact ⟨UInt64.le_trans hab.1 hbc.1, UInt64.le_trans hbc.2 hab.2⟩
  antisymm a b hab hba := by
    rw [contains_iff] at hab hba
    have hstart : a.start = b.start := UInt64.le_antisymm hab.1 hba.1
    have hstop : a.stop = b.stop := UInt64.le_antisymm hba.2 hab.2
    cases a
    cases b
    rw [Span.mk.injEq]
    exact ⟨hstart, hstop⟩

/-- A span covers a text of the source exactly if its bounds are in order, within the source, and
between characters.  The text has the bytes between the bounds, as many as the span is long.  To lie
within is a partial order on spans, whether or not their bounds are in order.  A span within another
covers the same part of the source as it covers of the text of the other one, or none of either. -/
theorem text?_nests :
    (∀ (span : Span) (source : String),
      ((∃ text, span.text? source = some text) ↔
        span.start ≤ span.stop ∧ span.stop.toNat ≤ source.utf8ByteSize ∧
          Text.IsBoundary source span.start.toNat ∧ Text.IsBoundary source span.stop.toNat) ∧
      ∀ text, span.text? source = some text →
        text.toByteArray = source.toByteArray.extract span.start.toNat span.stop.toNat ∧
        text.utf8ByteSize = span.length.toNat ∧ (text = "" ↔ span.isEmpty)) ∧
    (IsPartialOrder Span fun outer inner => outer.contains inner) ∧
    ∀ (outer inner : Span) (source text : String), outer.text? source = some text →
      inner.start ≤ inner.stop → outer.contains inner →
      inner.text? source = (inner.shiftLeft outer.start).text? text := by
  refine ⟨fun span source => ⟨?_, fun text ht => ?_⟩, contains_isPartialOrder,
    fun outer inner source text ht hi hc => ?_⟩
  · simp only [text?_eq_some_iff]
    exact exists_cuts_iff
  · obtain ⟨before, after, h⟩ := text?_eq_some_iff.mp ht
    exact ⟨h.toByteArray_text, h.utf8ByteSize_text, h.text_eq_empty_iff⟩
  · obtain ⟨before, after, h⟩ := text?_eq_some_iff.mp ht
    refine Option.ext fun part => ?_
    rw [text?_eq_some_iff, text?_eq_some_iff]
    exact h.exists_cuts_shiftLeft_iff hi hc

/-- Two spans within the text of characters of two, three and four bytes: one covers the second
character, and the other starts inside it. -/
theorem text?_nests_multibyte :
    let source := "aé€😀z"
    let outer : Span := ⟨1, 10⟩
    let inner : Span := ⟨3, 6⟩
    let broken : Span := ⟨4, 6⟩
    outer.text? source = some "é€😀" ∧
    (inner.start ≤ inner.stop ∧ outer.contains inner ∧
      (inner.shiftLeft 1).text? "é€😀" = some "€" ∧ inner.text? source = some "€") ∧
    broken.start ≤ broken.stop ∧ outer.contains broken ∧
      (broken.shiftLeft 1).text? "é€😀" = none ∧ broken.text? source = none := by
  intro source outer inner broken
  have ho : outer.text? source = some "é€😀" := by decide
  have hi : (inner.shiftLeft 1).text? "é€😀" = some "€" := by decide
  have hb : (broken.shiftLeft 1).text? "é€😀" = none := by decide
  obtain ⟨-, -, hn⟩ := text?_nests
  refine ⟨ho, ⟨by decide, by decide, hi, ?_⟩, by decide, by decide, hb, ?_⟩
  · rw [hn outer inner source _ ho (by decide) (by decide)]
    exact hi
  · rw [hn outer broken source _ ho (by decide) (by decide)]
    exact hb

end Span

end SchemaStitching
