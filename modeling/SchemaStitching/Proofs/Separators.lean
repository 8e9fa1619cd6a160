import Mathlib.Data.List.Infix

/-! Lists with separators in them.  What follows elements of a class can be told from them if it
begins outside the class.  So items without separators can be told apart when they are joined, and
splitting at separators finds them. -/

namespace SchemaStitching

namespace Text

section classes

variable {α : Type} {p : α → Prop} {first first' rest rest' : List α}

/-- The list does not begin with an element of the class. -/
def BeginsOutside (p : α → Prop) (items : List α) : Prop :=
  ∀ item ∈ items.head?, ¬p item

theorem beginsOutside_nil : BeginsOutside p [] :=
  nofun

theorem beginsOutside_cons {item : α} (h : ¬p item) : BeginsOutside p (item :: rest) :=
  fun _ hi => Option.some.inj hi ▸ h

/-- Where lists of elements of a class are followed by something outside it, they can be told from
what follows. -/
theorem append_inj_of_class (hf : ∀ item ∈ first, p item) (hf' : ∀ item ∈ first', p item)
    (hr : BeginsOutside p rest) (hr' : BeginsOutside p rest')
    (h : first ++ rest = first' ++ rest') : first = first' ∧ rest = rest' := by
  induction first generalizing first' with
  | nil =>
    cases first' with
    | nil => exact ⟨rfl, h⟩
    | cons item first' =>
      rw [List.nil_append] at h
      exact absurd (hf' item List.mem_cons_self) (hr item (by simp [h]))
  | cons item first ih =>
    cases first' with
    | nil =>
      rw [List.nil_append] at h
      exact absurd (hf item List.mem_cons_self) (hr' item (by simp [← h]))
    | cons item' first' =>
      rw [List.forall_mem_cons] at hf hf'
      rw [List.cons_append, List.cons_append] at h
      obtain ⟨rfl, ht⟩ := List.cons_eq_cons.mp h
      obtain ⟨rfl, hr⟩ := ih hf.2 hf'.2 ht
      exact ⟨rfl, hr⟩

end classes

section separators

variable {α : Type} {sep : α} {more : List α} {as bs : List (List α)}

theorem intercalate_cons (sep first : List α) (rest : List (List α)) :
    sep.intercalate (first :: rest) = first ++ rest.flatMap fun item => sep ++ item := by
  induction rest generalizing first with
  | nil => simp
  | cons second rest ih => rw [List.intercalate_cons_cons, ih, List.flatMap_cons]; simp

theorem mem_or_mem_of_mem_intercalate {sep : List α} {items : List (List α)} {c : α}
    (h : c ∈ sep.intercalate items) : c ∈ sep ∨ ∃ item ∈ items, c ∈ item := by
  cases items with
  | nil => contradiction
  | cons first rest =>
    rw [intercalate_cons] at h
    simp only [List.mem_append, List.mem_flatMap] at h
    rcases h with h | ⟨item, hi, h | h⟩
    · exact .inr ⟨first, List.mem_cons_self, h⟩
    · exact .inl h
    · exact .inr ⟨item, List.mem_cons_of_mem _ hi, h⟩

/-- Items that do not hold the first element of the separator before each of them can be told
apart. -/
theorem flatMap_separated_inj (ha : ∀ item ∈ as, sep ∉ item) (hb : ∀ item ∈ bs, sep ∉ item)
    (h : as.flatMap (fun item => sep :: more ++ item) =
      bs.flatMap fun item => sep :: more ++ item) : as = bs := by
  have hne {item : List α} (hi : sep ∉ item) : ∀ c ∈ item, c ≠ sep :=
    fun c hc he => hi (he ▸ hc)
  have hout (items : List (List α)) :
      BeginsOutside (· ≠ sep) (items.flatMap fun item => sep :: more ++ item) := by
    cases items with
    | nil => exact beginsOutside_nil
    | cons => exact beginsOutside_cons (not_not_intro rfl)
  induction as generalizing bs with
  | nil =>
    cases bs with
    | nil => rfl
    | cons => simp at h
  | cons a as ih =>
    cases bs with
    | nil => simp at h
    | cons b bs =>
      rw [List.forall_mem_cons] at ha hb
      simp only [List.flatMap_cons, List.cons_append, List.append_assoc, List.cons.injEq, true_and,
        List.append_cancel_left_eq] at h
      obtain ⟨rfl, ht⟩ := append_inj_of_class (hne ha.1) (hne hb.1) (hout as) (hout bs) h
      rw [ih ha.2 hb.2 ht]

theorem intercalate_inj (ha : ∀ item ∈ as, sep ∉ item) (hb : ∀ item ∈ bs, sep ∉ item)
    (ha' : as ≠ []) (hb' : bs ≠ [])
    (h : (sep :: more).intercalate as = (sep :: more).intercalate bs) : as = bs := by
  have hc (first : List α) (rest : List (List α)) :
      sep :: more ++ (sep :: more).intercalate (first :: rest) =
        (first :: rest).flatMap fun item => sep :: more ++ item := by
    rw [intercalate_cons, List.flatMap_cons, List.append_assoc]
  obtain ⟨first, rest, rfl⟩ := List.exists_cons_of_ne_nil ha'
  obtain ⟨first', rest', rfl⟩ := List.exists_cons_of_ne_nil hb'
  have he : (first :: rest).flatMap (fun item => sep :: more ++ item) =
      (first' :: rest').flatMap fun item => sep :: more ++ item := by
    rw [← hc, ← hc, h]
  exact flatMap_separated_inj ha hb he

/-- What stands after the last separator can be told from what stands before it. -/
theorem append_cons_inj_of_notMem {first first' last last' : List α}
    (h : sep ∉ last) (h' : sep ∉ last') (he : first ++ sep :: last = first' ++ sep :: last') :
    first = first' ∧ last = last' := by
  have hne {items : List α} (hs : sep ∉ items) : ∀ c ∈ items.reverse, c ≠ sep := by
    rintro c hc rfl
    exact hs (List.mem_reverse.mp hc)
  have hr := congrArg List.reverse he
  simp only [List.reverse_append, List.reverse_cons, List.append_assoc, List.singleton_append] at hr
  obtain ⟨hl, hf⟩ := append_inj_of_class (hne h) (hne h') (beginsOutside_cons (not_not_intro rfl))
    (beginsOutside_cons (not_not_intro rfl)) hr
  exact ⟨List.reverse_inj.mp (List.cons_eq_cons.mp hf).2, List.reverse_inj.mp hl⟩

theorem exists_append_cons_notMem {items : List α} (h : sep ∈ items) :
    ∃ first last, items = first ++ sep :: last ∧ sep ∉ last := by
  obtain ⟨last, first, he, hn⟩ := List.eq_append_cons_of_mem (List.mem_reverse.mpr h)
  refine ⟨first.reverse, last.reverse, ?_, by rwa [List.mem_reverse]⟩
  rw [← List.reverse_reverse items, he]
  simp

end separators

section pieces

variable {α : Type} [DecidableEq α] {sep : α}

theorem splitOn_cons_self (rest : List α) : (sep :: rest).splitOn sep = [] :: rest.splitOn sep := by
  rw [List.splitOn_cons_eq_if_modifyHead, if_pos (beq_self_eq_true sep)]

theorem splitOn_cons_of_ne {item : α} (h : item ≠ sep) (rest : List α) :
    (item :: rest).splitOn sep = (rest.splitOn sep).modifyHead (item :: ·) := by
  rw [List.splitOn_cons_eq_if_modifyHead, if_neg (by simpa using h)]

theorem notMem_of_mem_splitOn {items piece : List α} (h : piece ∈ items.splitOn sep) :
    sep ∉ piece := by
  induction items generalizing piece with
  | nil => simp_all
  | cons item items ih =>
    by_cases hi : item = sep
    · subst hi
      rw [splitOn_cons_self, List.mem_cons] at h
      rcases h with rfl | h
      · exact List.not_mem_nil
      · exact ih h
    · obtain ⟨first, rest, hs⟩ := List.exists_cons_of_ne_nil (List.splitOn_ne_nil sep items)
      rw [splitOn_cons_of_ne hi, hs, List.modifyHead_cons, List.mem_cons] at h
      rw [hs, List.forall_mem_cons] at ih
      rcases h with rfl | h
      · rw [List.mem_cons, not_or]
        exact ⟨Ne.symm hi, ih.1⟩
      · exact ih.2 piece h

/-- The first piece is empty if nothing stands before a separator. -/
theorem nil_mem_splitOn_iff_tail (items : List α) : [] ∈ items.splitOn sep ↔
    items = [] ∨ [sep] <+: items ∨ [] ∈ (items.splitOn sep).tail := by
  cases items with
  | nil => simp
  | cons item rest =>
    by_cases h : item = sep
    · subst h
      simp [splitOn_cons_self]
    · obtain ⟨first, pieces, hs⟩ := List.exists_cons_of_ne_nil (List.splitOn_ne_nil sep rest)
      rw [splitOn_cons_of_ne h, hs]
      simp [Ne.symm h]

/-- Another piece is empty if nothing stands after a separator, or another separator does. -/
theorem nil_mem_tail_splitOn_iff (items : List α) :
    [] ∈ (items.splitOn sep).tail ↔ [sep] <:+ items ∨ [sep, sep] <:+: items := by
  induction items with
  | nil => simp
  | cons item rest ih =>
    rw [List.suffix_cons_iff, List.infix_cons_iff, List.cons_prefix_cons]
    by_cases h : item = sep
    · subst h
      rw [splitOn_cons_self, List.tail_cons, nil_mem_splitOn_iff_tail, ih]
      simp only [List.cons.injEq, List.nil_eq, true_and, or_assoc]
      exact or_congr_right or_left_comm
    · rw [splitOn_cons_of_ne h, List.tail_modifyHead, ih]
      simp [Ne.symm h]

end pieces

end Text

end SchemaStitching
