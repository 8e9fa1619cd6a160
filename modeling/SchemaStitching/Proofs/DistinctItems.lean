import Mathlib.Data.Finset.Card
import SchemaStitching.Distinct
import SchemaStitching.Transformation
import Std.Data.HashSet.Lemmas

/-! Items that are put into a hash set one after the other.  Where equality of items is equality of
their keys, and equal items have equal hashes, an item is new to the set exactly if no earlier item
has its key, and the set ends up with as many items as there are keys.  The keys of transformations
are their payloads: a hash function gets nothing else of a transformation, and enough of a payload
to tell it from all others. -/

namespace SchemaStitching

/-! ### Items and their keys -/

section keys

variable {α κ : Type} [BEq α] [Hashable α] {key : α → κ} {set : Std.HashSet α} {keys : Finset κ}

/-- The set has one item for each of the keys, and no others. -/
structure HoldsKeys (key : α → κ) (set : Std.HashSet α) (keys : Finset κ) : Prop where
  mem_iff : ∀ item, item ∈ set ↔ key item ∈ keys
  size_eq : set.size = keys.card

theorem HoldsKeys.empty : HoldsKeys key (∅ : Std.HashSet α) ∅ where
  mem_iff _ := iff_of_false Std.HashSet.not_mem_empty (Finset.notMem_empty _)
  size_eq := Std.HashSet.size_empty

variable [DecidableEq κ]

theorem HoldsKeys.contains_eq (h : HoldsKeys key set keys) (item : α) :
    set.contains item = decide (key item ∈ keys) := by
  rw [Bool.eq_iff_iff, decide_eq_true_iff, ← h.mem_iff, Std.HashSet.mem_iff_contains]

/-- Which of some keys are new: neither among the given ones nor equal to an earlier one. -/
def newKeys (keys : Finset κ) : List κ → List Bool
  | [] => []
  | key :: rest => decide (key ∉ keys) :: newKeys (insert key keys) rest

theorem length_newKeys (keys : Finset κ) (list : List κ) :
    (newKeys keys list).length = list.length := by
  induction list generalizing keys with
  | nil => rfl
  | cons key rest ih => rw [newKeys, List.length_cons, List.length_cons, ih]

theorem getElem?_newKeys (keys : Finset κ) (list : List κ) (i : Nat) :
    (newKeys keys list)[i]? =
      list[i]?.map fun key => decide (key ∉ keys ∧ key ∉ list.take i) := by
  induction list generalizing keys i with
  | nil => rfl
  | cons key rest ih =>
    cases i with
    | zero => simp [newKeys]
    | succ i =>
      rw [newKeys, List.getElem?_cons_succ, List.getElem?_cons_succ, ih, List.take_succ_cons]
      simp only [Finset.mem_insert, List.mem_cons, not_or, and_left_comm, and_assoc]

variable [EquivBEq α] [LawfulHashable α]

theorem HoldsKeys.insert (beq_iff : ∀ a b : α, a == b ↔ key a = key b) (h : HoldsKeys key set keys)
    (item : α) : HoldsKeys key (set.insert item) (insert (key item) keys) where
  mem_iff other := by
    rw [Std.HashSet.mem_insert, Finset.mem_insert, beq_iff, h.mem_iff, eq_comm]
  size_eq := by
    rw [Std.HashSet.size_insert, h.size_eq]
    split
    · rename_i hi
      rw [Finset.insert_eq_of_mem ((h.mem_iff item).mp hi)]
    · rename_i hi
      rw [Finset.card_insert_of_notMem fun hk => hi ((h.mem_iff item).mpr hk)]

/-- Of items that are put into a set, those are new that have new keys, and the set then has the
keys of all of them. -/
theorem HoldsKeys.insertAll (beq_iff : ∀ a b : α, a == b ↔ key a = key b)
    (h : HoldsKeys key set keys) (items : List α) :
    (insertAll set items).1 = newKeys keys (items.map key) ∧
    HoldsKeys key (insertAll set items).2 (keys ∪ (items.map key).toFinset) := by
  induction items generalizing set keys with
  | nil => exact ⟨rfl, (Finset.union_empty keys).symm ▸ h⟩
  | cons item items ih =>
    obtain ⟨ha, hs⟩ := ih (h.insert beq_iff item)
    rw [SchemaStitching.insertAll, Std.HashSet.containsThenInsert_fst,
      Std.HashSet.containsThenInsert_snd]
    constructor
    · rw [ha, h.contains_eq, ← decide_not]
      rfl
    · rw [List.map_cons, List.toFinset_cons, Finset.union_insert, ← Finset.insert_union]
      exact hs

end keys

/-! ### What a hash function gets tells values apart -/

/-- Data that can be followed by any other: where they end can be told from themselves. -/
def SelfDelimiting {α : Type} (data : α → List Datum) : Prop :=
  ∀ ⦃a b : α⦄ ⦃rest rest' : List Datum⦄, data a ++ rest = data b ++ rest' → a = b ∧ rest = rest'

namespace SelfDelimiting

variable {α : Type} {data : α → List Datum}

theorem injective (h : SelfDelimiting data) : Function.Injective data := by
  intro a b he
  have hr : data a ++ [] = data b ++ [] := by rw [he]
  exact (h hr).1

theorem text : SelfDelimiting fun text : String => [Datum.text text] := by
  intro a b rest rest' h
  obtain ⟨ht, hr⟩ := List.cons.inj h
  exact ⟨Datum.text.inj ht, hr⟩

/-- Lists of one length can be told apart item by item. -/
theorem flatMap (h : SelfDelimiting data) {as bs : List α} {rest rest' : List Datum}
    (hl : as.length = bs.length) (he : as.flatMap data ++ rest = bs.flatMap data ++ rest') :
    as = bs ∧ rest = rest' := by
  induction as generalizing bs with
  | nil =>
    rw [List.eq_nil_of_length_eq_zero hl.symm] at he ⊢
    exact ⟨rfl, he⟩
  | cons a as ih =>
    obtain ⟨b, bs, rfl⟩ := List.exists_cons_of_length_eq_add_one hl.symm
    rw [List.flatMap_cons, List.flatMap_cons, List.append_assoc, List.append_assoc] at he
    obtain ⟨rfl, hs⟩ := h he
    obtain ⟨rfl, hr⟩ := ih (Nat.succ.inj hl) hs
    exact ⟨rfl, hr⟩

theorem ofList (h : SelfDelimiting data) : SelfDelimiting (Datum.ofList data) := by
  intro as bs rest rest' he
  obtain ⟨hl, he⟩ := List.cons.inj he
  exact h.flatMap (Datum.length.inj hl) he

theorem ofOption (h : SelfDelimiting data) : SelfDelimiting (Datum.ofOption data) := by
  intro a? b? rest rest' he
  cases a? <;> cases b? <;> obtain ⟨hi, he⟩ := List.cons.inj he
  case none.none => exact ⟨rfl, he⟩
  case some.some =>
    obtain ⟨rfl, hr⟩ := h he
    exact ⟨rfl, hr⟩
  all_goals exact absurd hi (by decide)

theorem path : SelfDelimiting Path.data := by
  intro a b rest rest' h
  obtain ⟨hs, hr⟩ := text.ofList h
  obtain ⟨segments, _, _⟩ := a
  cases hs
  exact ⟨rfl, hr⟩

theorem mapping : SelfDelimiting Mapping.data := by
  intro a b rest rest' h
  obtain ⟨hp, hr⟩ := path h
  exact ⟨congrArg Mapping.mk hp, hr⟩

theorem origin : SelfDelimiting Origin.data := by
  intro a b rest rest' h
  obtain ⟨hi, hr⟩ := List.append_inj h (by cases a <;> cases b <;> rfl)
  refine ⟨?_, hr⟩
  revert hi
  cases a <;> cases b <;> decide

theorem source : SelfDelimiting Source.data := by
  intro a b rest rest' h
  rw [Source.data, Source.data, List.append_assoc, List.append_assoc] at h
  obtain ⟨ho, h⟩ := origin h
  obtain ⟨hp, hr⟩ := path h
  exact ⟨congrArg₂ Source.mk ho hp, hr⟩

theorem argument : SelfDelimiting Argument.data := by
  intro a b rest rest' h
  obtain ⟨hn, h⟩ := text h
  obtain ⟨hs, hr⟩ := source h
  exact ⟨congrArg₂ Argument.mk hn hs, hr⟩

theorem batchSize : SelfDelimiting BatchSize.data := by
  intro a b rest rest' h
  obtain ⟨hc, hr⟩ := List.cons.inj h
  obtain ⟨count, _⟩ := a
  cases hc
  exact ⟨rfl, hr⟩

theorem hydration : SelfDelimiting Hydration.data := by
  intro a b rest rest' h
  simp only [Hydration.data, List.cons_append, List.append_assoc] at h
  obtain ⟨hs, h⟩ := text h
  obtain ⟨hf, h⟩ := text h
  obtain ⟨ha, h⟩ := argument.ofList h
  obtain ⟨hi, h⟩ := text.ofOption h
  obtain ⟨hb, hr⟩ := batchSize.ofOption h
  obtain ⟨service, field, arguments, identifier, size⟩ := a
  cases hs
  cases hf
  cases ha
  cases hi
  cases hb
  exact ⟨rfl, hr⟩

theorem payload : SelfDelimiting Payload.data := by
  intro a b rest rest' h
  cases a <;> cases b <;> obtain ⟨hi, h⟩ := List.cons.inj h
  case mapping.mapping =>
    obtain ⟨rfl, hr⟩ := mapping h
    exact ⟨rfl, hr⟩
  case hydration.hydration =>
    obtain ⟨rfl, hr⟩ := hydration h
    exact ⟨rfl, hr⟩
  all_goals exact absurd hi (by decide)

end SelfDelimiting

/-! ### Transformations -/

namespace Transformation

/-- Transformations are equal exactly if a hash function gets the same data of them. -/
theorem beq_iff_data_eq {a b : Transformation} : a == b ↔ a.data = b.data := by
  rw [beq_iff]
  exact SelfDelimiting.payload.injective.eq_iff.symm

/-- With any hash function, the new transformations are those with new payloads, and a set has one
transformation for each payload. -/
theorem insertAll_empty (hasher : List Datum → UInt64) (items : List Transformation) :
    (@insertAll _ _ (hashedBy hasher) ∅ items).1 = newKeys ∅ (items.map payload) ∧
    (@insertAll _ _ (hashedBy hasher) ∅ items).2.size = (items.map payload).toFinset.card := by
  let _ : Hashable Transformation := hashedBy hasher
  have h : HoldsKeys payload (∅ : Std.HashSet Transformation) ∅ := .empty
  obtain ⟨ha, hs⟩ := h.insertAll (fun _ _ => beq_iff) items
  refine ⟨ha, ?_⟩
  rw [hs.size_eq, Finset.empty_union]

/-- When transformations are put into a set in order, with any hash function, one is new exactly if
no earlier one has its payload, and the set ends up with as many as there are payloads.  So neither
other provenance nor, for their number, another order makes a difference.  All this rests on what a
hash function gets: the same of two transformations exactly if they are equal. -/
theorem insertAll_distinguishes_payloads (hasher : List Datum → UInt64)
    (items : List Transformation) :
    let inserted (items : List Transformation) := @insertAll _ _ (hashedBy hasher) ∅ items
    (inserted items).1.length = items.length ∧
    (∀ (i : Nat) (h : i < items.length), (inserted items).1[i]? = some true ↔
      ∀ earlier ∈ items.take i, earlier.payload ≠ items[i].payload) ∧
    (inserted items).2.size = (items.map payload).toFinset.card ∧
    (∀ others : List Transformation, others.map payload = items.map payload →
      (inserted others).1 = (inserted items).1 ∧
      (inserted others).2.size = (inserted items).2.size) ∧
    (∀ others : List Transformation, others.Perm items →
      (inserted others).2.size = (inserted items).2.size) ∧
    ∀ a b : Transformation, a == b ↔ a.data = b.data := by
  intro inserted
  have answers (items) : (inserted items).1 = newKeys ∅ (items.map payload) :=
    (insertAll_empty hasher items).1
  have size (items) : (inserted items).2.size = (items.map payload).toFinset.card :=
    (insertAll_empty hasher items).2
  refine ⟨?_, fun i h => ?_, size items, fun others ho => ?_, fun others ho => ?_,
    fun a b => beq_iff_data_eq⟩
  · rw [answers, length_newKeys, List.length_map]
  · rw [answers, getElem?_newKeys, List.getElem?_map, List.getElem?_eq_getElem h, ← List.map_take]
    simp only [Option.map_some, Option.some.injEq, decide_eq_true_iff, Finset.notMem_empty,
      not_false_eq_true, true_and, List.mem_map, not_exists, not_and, ne_eq]
  · rw [answers, answers, size, size, ho]
    exact ⟨rfl, rfl⟩
  · rw [size, size, List.toFinset_eq_of_perm _ _ (ho.map payload)]

/-- A mapping, the same one from another place and with a comment, a hydration, and the mapping once
more. -/
theorem insertAll_distinguishes_payloads_moved :
    let mapping : Payload := .mapping ⟨⟨["legacyId"], by decide, by decide⟩⟩
    let hydration : Payload := .hydration { service := "users", field := "user" }
    let location : Location := { line := 40, column := 12, sourceName := some "other.stitch" }
    let plain : Transformation := ⟨mapping, default⟩
    let moved : Transformation := ⟨mapping, { location, comments := [⟨" renamed", location⟩] }⟩
    let call : Transformation := ⟨hydration, default⟩
    let items := [plain, moved, call, plain]
    let others := [moved, plain, call, plain]
    (∀ i < 4, (insertAll ∅ items).1[i]? = some true ↔ i ∈ [0, 2]) ∧ (insertAll ∅ items).2.size = 2 ∧
    others.map payload = items.map payload ∧ (insertAll ∅ others).1 = (insertAll ∅ items).1 ∧
    items.reverse.Perm items ∧ (insertAll ∅ items.reverse).2.size = 2 ∧
    (plain == moved) ∧ plain.data = moved.data := by
  intro mapping hydration location plain moved call items others
  have hm : others.map payload = items.map payload := by rfl
  have hp : items.reverse.Perm items := items.reverse_perm
  have hb : plain == moved := by decide
  obtain ⟨-, hi, hs, ho, hr, hd⟩ := insertAll_distinguishes_payloads hash items
  have hc : (items.map payload).toFinset.card = 2 := by decide
  have hn : ∀ (i : Nat) (h : i < 4),
      (∀ earlier ∈ items.take i, earlier.payload ≠ items[i].payload) ↔ i ∈ [0, 2] := by decide
  exact ⟨fun i h => (hi i h).trans (hn i h), hs.trans hc, hm, (ho others hm).1, hp,
    (hr _ hp).trans (hs.trans hc), hb, (hd plain moved).mp hb⟩

end Transformation

end SchemaStitching
