import SchemaStitching.Location

/-! The order of locations.  Names, lines, columns, and spans are each in a total order in which
only equal ones are level, and so is what they make up.  A list of locations therefore has one
arrangement in order, however the list was arranged before. -/

namespace SchemaStitching

theorem Span.compare_eq_iff {a b : Span} : compare a b = .eq ↔ a = b := by
  have hc : compare a b = .eq ↔ compare a.start b.start = .eq ∧ compare a.stop b.stop = .eq :=
    compareLex_eq_eq
  rw [hc, Std.compare_eq_iff_eq, Std.compare_eq_iff_eq, Span.mk.injEq]

instance : Std.TransOrd Span :=
  inferInstanceAs (Std.TransCmp (compareLex (compareOn Span.start) (compareOn Span.stop)))

instance : Std.LawfulEqOrd Span where
  eq_of_compare := Span.compare_eq_iff.mp

namespace Location

/-- Locations that are level agree in all that they have. -/
theorem compare_eq_iff {a b : Location} : compare a b = .eq ↔ a = b := by
  have hc : compare a b = .eq ↔ compare a.sourceName b.sourceName = .eq ∧
      compare a.line b.line = .eq ∧ compare a.column b.column = .eq ∧
      compare a.span b.span = .eq := by
    show compareLex _ _ a b = .eq ↔ _
    rw [compareLex_eq_eq, compareLex_eq_eq, compareLex_eq_eq]
    rfl
  simp only [hc, Std.compare_eq_iff_eq]
  obtain ⟨line, column, name, span⟩ := a
  obtain ⟨line', column', name', span'⟩ := b
  rw [Location.mk.injEq]
  exact ⟨fun ⟨hn, hl, hc, hs⟩ => ⟨hl, hc, hn, hs⟩, fun ⟨hl, hc, hn, hs⟩ => ⟨hn, hl, hc, hs⟩⟩

instance : Std.TransOrd Location :=
  inferInstanceAs (Std.TransCmp (compareLex (compareOn sourceName) (compareLex (compareOn line)
    (compareLex (compareOn column) (compareOn span)))))

instance : Std.LawfulEqOrd Location where
  eq_of_compare := compare_eq_iff.mp

theorem le_iff {a b : Location} : a ≤ b ↔ compare a b ≠ .gt := by
  show (compare a b).isLE ↔ _
  cases compare a b <;> decide

theorem lt_iff {a b : Location} : a < b ↔ compare a b = .lt := by
  show (compare a b).isLT ↔ _
  cases compare a b <;> decide

theorem compare_trans {a b c : Location} {o : Ordering} (h : compare a b = o)
    (h' : compare b c = o) : compare a c = o := by
  subst h
  cases ho : compare a b with
  | lt => exact Std.TransCmp.lt_trans ho (h'.trans ho)
  | eq => rw [compare_eq_iff.mp ho, h', ho]
  | gt => exact Std.TransCmp.gt_trans ho (h'.trans ho)

theorem le_refl (a : Location) : a ≤ a := by
  rw [le_iff, Std.compare_self]
  decide

theorem le_total (a b : Location) : a ≤ b ∨ b ≤ a := by
  rw [le_iff, le_iff, Std.OrientedOrd.eq_swap (a := b)]
  cases compare a b <;> decide

theorem le_trans {a b c : Location} (h : a ≤ b) (h' : b ≤ c) : a ≤ c :=
  Std.TransOrd.isLE_trans h h'

theorem le_antisymm {a b : Location} (h : a ≤ b) (h' : b ≤ a) : a = b :=
  compare_eq_iff.mp (Std.OrientedCmp.isLE_antisymm h h')

/-! ### Lists in order -/

theorem sort_perm (locations : List Location) : (sort locations).Perm locations :=
  List.mergeSort_perm locations _

theorem sort_pairwise (locations : List Location) : (sort locations).Pairwise (· ≤ ·) := by
  apply List.pairwise_mergeSort
  · intro a b c
    exact le_trans
  · intro a b
    rw [Bool.or_eq_true]
    exact le_total a b

/-- Sorting gives the only arrangement of the locations in order. -/
theorem sort_eq_iff {locations sorted : List Location} :
    sort locations = sorted ↔ sorted.Perm locations ∧ sorted.Pairwise (· ≤ ·) := by
  constructor
  · rintro rfl
    exact ⟨sort_perm locations, sort_pairwise locations⟩
  · rintro ⟨hp, hs⟩
    have hp' : (sort locations).Perm sorted := (sort_perm locations).trans hp.symm
    exact hp'.eq_of_pairwise (fun _ _ _ _ => le_antisymm) (sort_pairwise locations) hs

theorem sort_eq_sort_iff {locations others : List Location} :
    sort locations = sort others ↔ locations.Perm others := by
  rw [sort_eq_iff]
  constructor
  · rintro ⟨hp, -⟩
    exact hp.symm.trans (sort_perm others)
  · intro hp
    exact ⟨(sort_perm others).trans hp.symm, sort_pairwise others⟩

/-! ### The later of two -/

theorem max_eq_ite (a b : Location) : max a b = if a ≤ b then b else a := by
  show (if (compare a b).isGT then a else b) = _
  simp only [le_iff]
  cases compare a b <;> rfl

theorem max_eq_right_of_le {a b : Location} (h : a ≤ b) : max a b = b := by
  rw [max_eq_ite, if_pos h]

theorem max_eq_left_of_le {a b : Location} (h : b ≤ a) : max a b = a := by
  rw [max_eq_ite]
  split
  · exact le_antisymm h ‹_›
  · rfl

theorem max_comm (a b : Location) : max a b = max b a := by
  rcases le_total a b with h | h
  · rw [max_eq_right_of_le h, max_eq_left_of_le h]
  · rw [max_eq_left_of_le h, max_eq_right_of_le h]

theorem max_eq_or (a b : Location) : max a b = a ∨ max a b = b := by
  rcases le_total a b with h | h
  · exact .inr (max_eq_right_of_le h)
  · exact .inl (max_eq_left_of_le h)

theorem le_max_left (a b : Location) : a ≤ max a b := by
  rcases le_total a b with h | h
  · rwa [max_eq_right_of_le h]
  · rw [max_eq_left_of_le h]
    exact le_refl a

/-- Comparing locations puts them in a total order in which only equal ones are level.  So a list of
locations has one arrangement in order, which any other arrangement of it has as well, and the later
of two locations does not depend on which of them comes first. -/
theorem compare_total :
    (∀ a b c : Location, compare b a = (compare a b).swap ∧
      (∀ o, compare a b = o → compare b c = o → compare a c = o) ∧
      (compare a b = .eq ↔ a = b) ∧ partialCompare a b = some (compare a b) ∧
      (a < b ↔ compare a b = .lt) ∧ (a ≤ b ↔ compare a b ≠ .gt)) ∧
    (∀ locations sorted : List Location,
      sort locations = sorted ↔ sorted.Perm locations ∧ sorted.Pairwise (· ≤ ·)) ∧
    (∀ locations others : List Location,
      sort locations = sort others ↔ locations.Perm others) ∧
    ∀ a b : Location, max a b = max b a ∧ a ≤ max a b ∧ (max a b = a ∨ max a b = b) := by
  refine ⟨fun a b c => ?_, fun _ _ => sort_eq_iff, fun _ _ => sort_eq_sort_iff,
    fun a b => ⟨max_comm a b, le_max_left a b, max_eq_or a b⟩⟩
  exact ⟨Std.OrientedOrd.eq_swap, fun _ => compare_trans, compare_eq_iff, rfl, lt_iff, le_iff⟩

/-- Locations of one name and position that differ in their spans, two of which end before they
start. -/
theorem compare_total_inverted_spans :
    let a : Location := { line := 3, column := 1, sourceName := some "s" }
    let b : Location := { a with span := some ⟨9, 2⟩ }
    let c : Location := { a with span := some ⟨9, 4⟩ }
    compare a b = .lt ∧ compare b c = .lt ∧ compare a c = .lt ∧ compare c b = .gt ∧
    [c, a, b].Perm [b, c, a] ∧ sort [c, a, b] = sort [b, c, a] ∧ sort [c, a, b] = [a, b, c] ∧
    max b c = c ∧ max c b = c := by
  intro a b c
  have hab : compare a b = .lt := by decide
  have hbc : compare b c = .lt := by decide
  have hp : [c, a, b].Perm [b, c, a] := by decide
  have hp' : [a, b, c].Perm [c, a, b] := by decide
  have hs : [a, b, c].Pairwise (· ≤ ·) := by decide
  have hm : max b c = c := by decide
  obtain ⟨hcompare, hsort, hperm, hmax⟩ := compare_total
  have hcb : compare c b = .gt := by rw [(hcompare b c a).1, hbc]; rfl
  exact ⟨hab, hbc, (hcompare a b c).2.1 .lt hab hbc, hcb, hp, (hperm _ _).mpr hp,
    (hsort _ _).mpr ⟨hp', hs⟩, hm, (hmax c b).1.trans hm⟩

end Location

end SchemaStitching
