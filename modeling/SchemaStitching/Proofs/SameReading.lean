import SchemaStitching.Proofs.Spellings

/-! Readings that give the same value.  A record is read alike from values with the same parts, and
leniency makes no difference where no name needs it. -/

namespace SchemaStitching

/-! ### Readings that give the same value -/

/-- Two readings give the same value, or neither gives one. -/
def ReadAlike {α : Type} (x y : Except ReadFault α) : Prop :=
  ∀ a, x = .ok a ↔ y = .ok a

namespace ReadAlike

variable {α β : Type} {x y : Except ReadFault α} {read read' : Json → Except ReadFault α}

theorem of_eq (h : x = y) : ReadAlike x y := fun _ => h ▸ Iff.rfl

theorem bind (h : ReadAlike x y) (k : α → Except ReadFault β) : ReadAlike (x >>= k) (y >>= k) := by
  intro b
  rw [bind_eq_ok, bind_eq_ok]
  exact exists_congr fun a => and_congr_left fun _ => h a

theorem map (h : ReadAlike x y) (f : α → β) : ReadAlike (f <$> x) (f <$> y) := by
  intro b
  rw [map_eq_ok, map_eq_ok]
  exact exists_congr fun a => and_congr_left fun _ => h a

theorem ite {p : Prop} [Decidable p] {x' y' : Except ReadFault α} (ht : p → ReadAlike x x')
    (hf : ¬p → ReadAlike y y') : ReadAlike (if p then x else y) (if p then x' else y') := by
  split
  · exact ht ‹p›
  · exact hf ‹¬p›

theorem mapM {items items' : List Json}
    (h : List.Forall₂ (fun j j' => ReadAlike (read j) (read' j')) items items') :
    ReadAlike (items.mapM read) (items'.mapM read') := by
  induction h with
  | nil => exact of_eq rfl
  | cons hj _ ih =>
    intro as
    rw [List.mapM_cons, List.mapM_cons, bind_eq_ok, bind_eq_ok]
    exact exists_congr fun a => and_congr (hj a) (ih.bind _ as)

theorem readNullable {j j' : Json} (h : ReadAlike (read j) (read' j'))
    (hn : j = .null ↔ j' = .null) : ReadAlike (j.readNullable read) (j'.readNullable read') := by
  by_cases hj : j = .null
  · rw [hj, hn.mp hj]
    exact of_eq rfl
  · rw [Json.readNullable_of_ne_null hj, Json.readNullable_of_ne_null (mt hn.mpr hj)]
    exact h.map some

end ReadAlike

/-- The format reads two JSON values alike. -/
def Format.SameReading {α : Type} (format : Format α) (j j' : Json) : Prop :=
  ∀ leniency, ReadAlike (format.readAs leniency j) (format.readAs leniency j')

/-! ### Parts of records -/

namespace Members

theorem names_eq_map_blanks : {α : Type} → (members : Members α) →
    members.names = members.blanks.map Prod.fst
  | _, .none => rfl
  | _, .required name _ rest | _, .optional name _ rest | _, .list name _ _ rest =>
    congrArg (name :: ·) rest.names_eq_map_blanks

theorem length_blanks {α : Type} (members : Members α) :
    members.blanks.length = members.names.length := by
  rw [members.names_eq_map_blanks, List.length_map]

theorem nodup_names : {α : Type} → (members : Members α) → members.distinctNames →
    members.names.Nodup
  | _, .none, _ => .nil
  | _, .required name _ rest, h | _, .optional name _ rest, h | _, .list name _ _ rest, h => by
    simp only [distinctNames, Bool.and_eq_true, decide_eq_true_eq] at h
    exact List.nodup_cons.mpr ⟨h.1.1, rest.nodup_names h.2⟩

theorem nodup_map_blanks {α : Type} {members : Members α} (h : members.distinctNames) :
    (members.blanks.map Prod.fst).Nodup :=
  members.names_eq_map_blanks ▸ members.nodup_names h

end Members

namespace Json

theorem member?_insert_of_ne {name other : String} (h : name ≠ other)
    (before after : List (String × Json)) (j : Json) :
    member? (before ++ (other, j) :: after) name = member? (before ++ after) name := by
  rw [member?, member?, List.lookup_append, List.lookup_append, List.lookup_cons,
    beq_eq_false_iff_ne.mpr h]

theorem member?_insert_self (before after : List (String × Json)) (name : String) (j : Json) :
    member? (before ++ (name, j) :: after) name = (member? before name).or (some j) := by
  rw [member?, List.lookup_append, List.lookup_cons_self]
  rfl

/-- Two values have the same parts for the members of a record, up to what stands for missing ones.
The first of the members has the given place. -/
def SameParts (blanks : List (String × Option Json)) (place : Nat) (j j' : Json) : Prop :=
  ∀ index name blank, blanks[index]? = some (name, blank) →
    (j.part? name (place + index)).or blank = (j'.part? name (place + index)).or blank

variable {j j' : Json}

theorem SameParts.tail {blanks : List (String × Option Json)} {member : String × Option Json}
    {place : Nat} (h : SameParts (member :: blanks) place j j') :
    SameParts blanks (place + 1) j j' := by
  intro index name blank hb
  have hp := h (index + 1) name blank hb
  rwa [← Nat.add_assoc, Nat.add_right_comm] at hp

theorem sameParts_object {blanks : List (String × Option Json)} {place : Nat}
    {given given' : List (String × Json)}
    (h : ∀ name blank, (name, blank) ∈ blanks →
      (member? given name).or blank = (member? given' name).or blank) :
    SameParts blanks place (.object given) (.object given') :=
  fun _ name blank hb => h name blank (List.mem_of_getElem? hb)

/-- What stands for a missing part reads as the part that is missing. -/
theorem partReads_congr {α : Type} {read : Json → Except ReadFault α} {absent : Option α}
    {blank part part' : Option Json} {a : α}
    (hb : ∀ j ∈ blank, read j = .ok a ↔ absent = some a) (h : part.or blank = part'.or blank) :
    PartReads read absent part a ↔ PartReads read absent part' a := by
  cases part with
  | none =>
    cases part' with
    | none => exact Iff.rfl
    | some j => exact (hb j h).symm
  | some j =>
    cases part' with
    | none => exact hb j h.symm
    | some j' => rw [Option.some.inj h]

end Json

/-- Values with the same parts are read alike. -/
theorem Members.readFrom_congr : {α : Type} → (members : Members α) → {leniency : Leniency} →
    {j j' : Json} → {place : Nat} → {a : α} → Json.SameParts members.blanks place j j' →
    (members.ReadFrom leniency j place a ↔ members.ReadFrom leniency j' place a)
  | _, .none, _, _, _, _, (), _ => Iff.rfl
  | _, .required name _ rest, _, _, _, _, (_, _), h =>
    and_congr (Json.partReads_congr (by simp) (h 0 name _ rfl)) (rest.readFrom_congr h.tail)
  | _, .optional name _ rest, _, _, _, _, (_, _), h =>
    and_congr (Json.partReads_congr (by simp [Json.readNullable]) (h 0 name _ rfl))
      (rest.readFrom_congr h.tail)
  | _, .list name _ _ rest, _, _, _, _, (_, _), h =>
    and_congr (Json.partReads_congr (by simp [Json.readItems, pure, Except.pure]) (h 0 name _ rfl))
      (rest.readFrom_congr h.tail)

theorem Format.sameReading_record {α : Type} {members : Members α} {j j' : Json}
    (hr : j.isRecord members.names.length = j'.isRecord members.names.length)
    (hp : Json.SameParts members.blanks 0 j j') : (record members).SameReading j j' := by
  intro leniency a
  rw [readAs_record_iff, readAs_record_iff, hr, members.readFrom_congr hp]

/-! ### Leniency -/

theorem Json.name?_strict {j : Json} (h : !j.isLenientName) (leniency : Leniency) :
    j.name? leniency = j.name? .strict := by
  cases leniency with
  | strict => rfl
  | lenient =>
    unfold name?
    split
    · rfl
    · rfl
    · rw [isLenientName] at h
      contradiction
    · rfl

theorem Json.partReads_alike {α : Type} {read read' : Json → Except ReadFault α}
    {absent : Option α} {part : Option Json} {a : α}
    (h : ∀ j ∈ part, ReadAlike (read j) (read' j)) :
    PartReads read absent part a ↔ PartReads read' absent part a := by
  cases part with
  | none => exact Iff.rfl
  | some j => exact h j rfl a

theorem Json.readAlike_items {α : Type} {read read' : Json → Except ReadFault α} {j : Json}
    (h : ∀ item ∈ j.items, ReadAlike (read item) (read' item)) :
    ReadAlike (j.readItems read) (j.readItems read') := by
  cases j with
  | array items => exact ReadAlike.mapM (List.forall₂_same.mpr h)
  | null | bool | int | decimal | string | object => exact .of_eq rfl

theorem Format.readAs_union_of_ne {α β : Type} {left right : String} {leftContent : Format α}
    {rightContent : Format β} {hne : left ≠ right} {leniency : Leniency} {j : Json}
    (ho : ∀ given, j ≠ .object given)
    (ha : ∀ tag content more, j ≠ .array (.string tag :: content :: more)) :
    (union left leftContent right rightContent hne).readAs leniency j = .error .form := by
  rw [readAs]
  · intros
    exact ho _ ‹_›
  · intros
    exact ha _ _ _ ‹_›

mutual

/-- Where no name needs leniency, it makes no difference. -/
theorem Format.readAlike_strict : {α : Type} → (format : Format α) → {j : Json} →
    format.plainNames j → (leniency : Leniency) →
    ReadAlike (format.readAs leniency j) (format.readAs .strict j)
  | _, .word32, _, _, _ | _, .word64, _, _, _ => .of_eq (by rw [Format.readAs, Format.readAs])
  | _, .text, j, _, _ => .of_eq (by cases j <;> rw [Format.readAs, Format.readAs] <;> nofun)
  | _, .named .., j, h, leniency => by
    rw [Format.plainNames] at h
    rw [Format.readAs, Format.readAs, Json.name?_strict h]
    exact .of_eq rfl
  | _, .list item, j, h, leniency => by
    rw [Format.plainNames, List.all_eq_true] at h
    rw [Format.readAs, Format.readAs]
    exact Json.readAlike_items fun part hp => item.readAlike_strict (h part hp) leniency
  | _, .record members, j, h, leniency => by
    rw [Format.plainNames] at h
    intro a
    rw [Format.readAs_record_iff, Format.readAs_record_iff, members.readFrom_strict h]
  | _, .union left leftContent right rightContent _, j, h, leniency => by
    by_cases ho : ∃ given, j = .object given
    · obtain ⟨given, rfl⟩ := ho
      rw [Format.plainNames, Option.all_eq_true] at h
      have ht : (Json.member? given Format.tagName).bind (Json.name? leniency) =
          (Json.member? given Format.tagName).bind (Json.name? .strict) :=
        Option.bind_congr fun tag hm => Json.name?_strict (h tag hm) leniency
      rw [Format.readAs, Format.readAs, ht]
      exact .of_eq rfl
    by_cases ha : ∃ tag content more, j = .array (.string tag :: content :: more)
    · obtain ⟨tag, content, more, rfl⟩ := ha
      rw [Format.plainNames] at h
      rw [Format.readAs, Format.readAs]
      refine ReadAlike.ite (fun hl => ?_) fun hl =>
        ReadAlike.ite (fun hr => ?_) fun _ => .of_eq rfl
      · rw [if_pos hl] at h
        exact ((leftContent.readAlike_strict h leniency).map _).bind _
      · rw [if_neg hl, if_pos hr] at h
        exact ((rightContent.readAlike_strict h leniency).map _).bind _
    · push Not at ho ha
      rw [Format.readAs_union_of_ne ho ha, Format.readAs_union_of_ne ho ha]
      exact .of_eq rfl
  | _, .checked plain _ _ _, j, h, leniency => by
    rw [Format.plainNames] at h
    rw [Format.readAs, Format.readAs]
    exact (plain.readAlike_strict h leniency).bind _

theorem Members.readFrom_strict : {α : Type} → (members : Members α) → {j : Json} →
    {place : Nat} → members.plainNames j place → {leniency : Leniency} → {a : α} →
    (members.ReadFrom leniency j place a ↔ members.ReadFrom .strict j place a)
  | _, .none, _, _, _, _, () => Iff.rfl
  | _, .required name value rest, j, place, h, leniency, (a, b) => by
    rw [Members.plainNames, Bool.and_eq_true, Option.all_eq_true] at h
    rw [Members.ReadFrom, Members.ReadFrom, rest.readFrom_strict h.2]
    exact and_congr_left fun _ => Json.partReads_alike fun part hp =>
      value.readAlike_strict (h.1 part hp) leniency
  | _, .optional name value rest, j, place, h, leniency, (a, b) => by
    rw [Members.plainNames, Bool.and_eq_true, Option.all_eq_true] at h
    rw [Members.ReadFrom, Members.ReadFrom, rest.readFrom_strict h.2]
    exact and_congr_left fun _ => Json.partReads_alike fun part hp =>
      (value.readAlike_strict (h.1 part hp) leniency).readNullable Iff.rfl
  | _, .list name item _ rest, j, place, h, leniency, (as, b) => by
    rw [Members.plainNames, Bool.and_eq_true, Option.all_eq_true] at h
    rw [Members.ReadFrom, Members.ReadFrom, rest.readFrom_strict h.2]
    exact and_congr_left fun _ => Json.partReads_alike fun part hp =>
      Json.readAlike_items fun j hj =>
        item.readAlike_strict (List.all_eq_true.mp (h.1 part hp) j hj) leniency

end

theorem Format.readAlike_of_plainNames {α : Type} (format : Format α) {j : Json}
    (h : format.plainNames j) (leniency other : Leniency) :
    ReadAlike (format.readAs leniency j) (format.readAs other j) := by
  intro a
  rw [format.readAlike_strict h leniency a, format.readAlike_strict h other a]

end SchemaStitching
