import SchemaStitching.Format.Reading
import SchemaStitching.Format.Types
import SchemaStitching.Format.Writing

/-! What is written can be read again.  The proof is by recursion on formats and works for every
format in which the members of a record have names of their own; that all formats of the library are
such can be computed. -/

namespace SchemaStitching

namespace Members

/-- The names of the members of a record. -/
def names : {α : Type} → Members α → List String
  | _, .none => []
  | _, .required name _ rest | _, .optional name _ rest | _, .list name _ _ rest =>
    name :: rest.names

end Members

mutual

/-- Whether no two members of a record have the same name, in the format and all its parts. -/
def Format.distinctNames : {α : Type} → Format α → Bool
  | _, .word32 | _, .word64 | _, .text | _, .named .. => true
  | _, .list item => item.distinctNames
  | _, .record members => members.distinctNames
  | _, .union _ leftContent _ rightContent _ =>
    leftContent.distinctNames && rightContent.distinctNames
  | _, .checked plain .. => plain.distinctNames

def Members.distinctNames : {α : Type} → Members α → Bool
  | _, .none => true
  | _, .required name value rest => name ∉ rest.names && value.distinctNames && rest.distinctNames
  | _, .optional name value rest => name ∉ rest.names && value.distinctNames && rest.distinctNames
  | _, .list name item _ rest => name ∉ rest.names && item.distinctNames && rest.distinctNames

end

theorem Json.member?_cons_self (name : String) (j : Json) (given : List (String × Json)) :
    member? ((name, j) :: given) name = some j := by
  simp [member?]

theorem Json.member?_cons_of_ne {name other : String} (h : name ≠ other) (j : Json)
    (given : List (String × Json)) :
    member? ((other, j) :: given) name = member? given name := by
  simp [member?, List.lookup_cons, beq_eq_false_iff_ne.mpr h]

/-- The two members of the form of a union. -/
theorem Json.member?_tagged (tag : String) (content : Json) :
    let given := [(Format.tagName, .string tag), (Format.contentName, content)]
    member? given Format.tagName = some (.string tag) ∧
      member? given Format.contentName = some content := by
  have hne : Format.contentName ≠ Format.tagName := by decide
  exact ⟨member?_cons_self .., (member?_cons_of_ne hne ..).trans (member?_cons_self ..)⟩

/-- Members that agree with a list agree with its head, and with its tail under other names. -/
theorem Json.member?_of_cons {name : String} {names : List String} {j : Json}
    {given written : List (String × Json)} (hn : name ∉ names)
    (h : ∀ other ∈ name :: names, member? given other = member? ((name, j) :: written) other) :
    member? given name = some j ∧ ∀ other ∈ names, member? given other = member? written other := by
  constructor
  · rw [h name List.mem_cons_self, member?_cons_self]
  · intro other mem
    have hne : other ≠ name := fun he => hn (he ▸ mem)
    rw [h other (List.mem_cons_of_mem _ mem), member?_cons_of_ne hne]

theorem Json.readItems_array_map {α : Type} {write : α → Json}
    {read : Json → Except ReadFault α} (h : ∀ a, read (write a) = .ok a) (items : List α) :
    readItems read (.array (items.map write)) = .ok items := by
  induction items with
  | nil => rfl
  | cons item items ih =>
    simp only [readItems] at ih ⊢
    simp only [List.map_cons, List.mapM_cons, h, ih]
    rfl

theorem Json.readNullable_of_ne_null {α : Type} {read : Json → Except ReadFault α} {j : Json}
    (h : j ≠ .null) : readNullable read j = some <$> read j := by
  cases j with
  | null => contradiction
  | _ => rfl

/-- No value has `null` as its form, so a member that is there never reads as absent. -/
theorem Format.write_ne_null : {α : Type} → (format : Format α) → (a : α) → format.write a ≠ .null
  | _, .word32, _ | _, .word64, _ | _, .text, _ | _, .named .., _ | _, .list _, _
  | _, .record _, _ => nofun
  | _, .union .., .inl _ | _, .union .., .inr _ => nofun
  | _, .checked plain _ parts _, b => plain.write_ne_null (parts b)

/-- A name that no member has is not written. -/
theorem Members.member?_write_of_notMem : {α : Type} → (members : Members α) → (a : α) →
    {name : String} → name ∉ members.names → Json.member? (members.write a) name = .none
  | _, .none, (), _, _ => rfl
  | _, .required _ _ rest, (_, b), _, h => by
    rw [names, List.mem_cons, not_or] at h
    rw [write, Json.member?_cons_of_ne h.1]
    exact rest.member?_write_of_notMem b h.2
  | _, .optional _ _ rest, (.none, b), _, h => by
    rw [names, List.mem_cons, not_or] at h
    exact rest.member?_write_of_notMem b h.2
  | _, .optional _ _ rest, (.some _, b), _, h => by
    rw [names, List.mem_cons, not_or] at h
    rw [write, Json.member?_cons_of_ne h.1]
    exact rest.member?_write_of_notMem b h.2
  | _, .list _ _ keepEmpty rest, (as, b), _, h => by
    rw [names, List.mem_cons, not_or] at h
    rw [write]
    split
    · exact rest.member?_write_of_notMem b h.2
    · rw [Json.member?_cons_of_ne h.1]
      exact rest.member?_write_of_notMem b h.2

theorem Json.natBelow?_int {bound n : Nat} (h : n < bound) :
    natBelow? bound (.int n) = some ⟨n, h⟩ :=
  dif_pos h

theorem Outcome.ofMember_eq_value {α : Type} {given : List (String × Json)} {name : String}
    {read : Json → Except ReadFault α} {absent : Outcome α} {j : Json} {a : α}
    (hj : Json.member? given name = some j) (ha : read j = .ok a) :
    ofMember given name read absent = .value a := by
  simp [ofMember, hj, ha]

theorem Outcome.ofMember_eq_absent {α : Type} {given : List (String × Json)} {name : String}
    {read : Json → Except ReadFault α} {absent : Outcome α}
    (hj : Json.member? given name = none) : ofMember given name read absent = absent := by
  simp [ofMember, hj]

mutual

theorem Format.readAs_write : {α : Type} → (format : Format α) → format.distinctNames →
    (leniency : Leniency) → (a : α) → format.readAs leniency (format.write a) = .ok a
  | _, .word32, _, _, n => by
    rw [Format.write, Format.readAs, Json.natBelow?_int n.toNat_lt_size]
    simp
  | _, .word64, _, _, n => by
    rw [Format.write, Format.readAs, Json.natBelow?_int n.toNat_lt_size]
    simp
  | _, .text, _, _, _ => by
    rw [Format.write, Format.readAs]
  | _, .named _ _ ofName?_name, _, _, a => by
    simp [Format.write, Format.readAs, Json.name?, ofName?_name]
  | _, .list item, h, leniency, as => by
    rw [Format.distinctNames] at h
    rw [Format.write, Format.readAs]
    exact Json.readItems_array_map (item.readAs_write h leniency) as
  | _, .record members, h, leniency, a => by
    rw [Format.distinctNames] at h
    rw [Format.write, Format.readAs, members.readObject_write h leniency a fun _ _ => rfl]
    rfl
  | _, .union left leftContent right rightContent left_ne_right, h, leniency, .inl a => by
    rw [Format.distinctNames, Bool.and_eq_true] at h
    have hc := Json.member?_tagged left (leftContent.write a)
    simp only [Format.write, Format.readAs, hc.1, hc.2, Option.bind_some, Json.name?, if_pos,
      leftContent.readAs_write h.1 .lenient a]
    rfl
  | _, .union left leftContent right rightContent left_ne_right, h, leniency, .inr b => by
    rw [Format.distinctNames, Bool.and_eq_true] at h
    have hc := Json.member?_tagged right (rightContent.write b)
    simp only [Format.write, Format.readAs, hc.1, hc.2, Option.bind_some, Json.name?, if_pos,
      if_neg left_ne_right.symm, rightContent.readAs_write h.2 .lenient b]
    rfl
  | _, .checked plain build parts build_parts, h, leniency, b => by
    rw [Format.distinctNames] at h
    rw [Format.write, Format.readAs, plain.readAs_write h leniency (parts b)]
    simp [bind, Except.bind, build_parts]

/-- Reading asks an object for its members by name, so that other members may be there as well, as
they are when the rest of a record is read. -/
theorem Members.readObject_write : {α : Type} → (members : Members α) → members.distinctNames →
    (leniency : Leniency) → (a : α) → {given : List (String × Json)} →
    (∀ name ∈ members.names, Json.member? given name = Json.member? (members.write a) name) →
    members.readObject leniency given = .value a
  | _, .none, _, _, (), _, _ => by
    rw [Members.readObject]
  | _, .required name value rest, h, leniency, (a, b), given, hg => by
    simp only [Members.distinctNames, Bool.and_eq_true, decide_eq_true_eq] at h
    obtain ⟨hj, hr⟩ := Json.member?_of_cons h.1.1 hg
    rw [Members.readObject, Outcome.ofMember_eq_value hj (value.readAs_write h.1.2 leniency a),
      rest.readObject_write h.2 leniency b hr]
    rfl
  | _, .optional name value rest, h, leniency, (.none, b), given, hg => by
    simp only [Members.distinctNames, Bool.and_eq_true, decide_eq_true_eq] at h
    have hj := (hg name List.mem_cons_self).trans (rest.member?_write_of_notMem b h.1.1)
    rw [Members.readObject, Outcome.ofMember_eq_absent hj, rest.readObject_write h.2 leniency b
      fun other mem => hg other (List.mem_cons_of_mem _ mem)]
    rfl
  | _, .optional name value rest, h, leniency, (.some a, b), given, hg => by
    simp only [Members.distinctNames, Bool.and_eq_true, decide_eq_true_eq] at h
    obtain ⟨hj, hr⟩ := Json.member?_of_cons h.1.1 hg
    have ha : Json.readNullable (value.readAs leniency) (value.write a) = .ok (.some a) := by
      rw [Json.readNullable_of_ne_null (value.write_ne_null a), value.readAs_write h.1.2 leniency a]
      rfl
    rw [Members.readObject, Outcome.ofMember_eq_value hj ha,
      rest.readObject_write h.2 leniency b hr]
    rfl
  | _, .list name item keepEmpty rest, h, leniency, (as, b), given, hg => by
    simp only [Members.distinctNames, Bool.and_eq_true, decide_eq_true_eq] at h
    rw [Members.write] at hg
    split at hg
    · rename_i he
      have hj := (hg name List.mem_cons_self).trans (rest.member?_write_of_notMem b h.1.1)
      have has : as = [] := List.isEmpty_iff.mp (Bool.and_eq_true_iff.mp he).1
      rw [Members.readObject, Outcome.ofMember_eq_absent hj, rest.readObject_write h.2 leniency b
        fun other mem => hg other (List.mem_cons_of_mem _ mem), has]
      rfl
    · obtain ⟨hj, hr⟩ := Json.member?_of_cons h.1.1 hg
      rw [Members.readObject, Outcome.ofMember_eq_value hj
        (Json.readItems_array_map (item.readAs_write h.1.2 leniency) as),
        rest.readObject_write h.2 leniency b hr]
      rfl

end

/-- What is written in the format can be read, the value read is the one written, and it is written
in the same way again. -/
def Format.RoundTrips {α : Type} (format : Format α) : Prop :=
  ∀ a, ∃ b, format.read (format.write a) = .ok b ∧ b = a ∧ format.write b = format.write a

theorem Format.roundTrips_of_distinctNames {α : Type} {format : Format α}
    (h : format.distinctNames) : format.RoundTrips :=
  fun a => ⟨a, format.readAs_write h .strict a, rfl, rfl⟩

theorem JsonType.distinctNames (t : JsonType) : t.format.distinctNames := by
  cases t <;> decide

theorem JsonType.roundTrips (t : JsonType) : t.format.RoundTrips :=
  Format.roundTrips_of_distinctNames t.distinctNames

/-- Every type that has a JSON form can be written and read again without loss, provenance
included. -/
theorem formats_roundTrip :
    Span.format.RoundTrips ∧ Location.format.RoundTrips ∧ Comment.format.RoundTrips ∧
    Provenance.format.RoundTrips ∧ Mapping.format.RoundTrips ∧ Origin.format.RoundTrips ∧
    Source.format.RoundTrips ∧ Argument.format.RoundTrips ∧ Hydration.format.RoundTrips ∧
    Payload.format.RoundTrips ∧ Transformation.format.RoundTrips ∧ Field.format.RoundTrips ∧
    ObjectType.format.RoundTrips ∧ Service.format.RoundTrips ∧ Document.format.RoundTrips ∧
    TransformationKind.format.RoundTrips ∧ TransformedField.format.RoundTrips :=
  ⟨JsonType.span.roundTrips, JsonType.location.roundTrips, JsonType.comment.roundTrips,
    JsonType.provenance.roundTrips, JsonType.mapping.roundTrips, JsonType.origin.roundTrips,
    JsonType.source.roundTrips, JsonType.argument.roundTrips, JsonType.hydration.roundTrips,
    JsonType.payload.roundTrips, JsonType.transformation.roundTrips, JsonType.field.roundTrips,
    JsonType.objectType.roundTrips, JsonType.service.roundTrips, JsonType.document.roundTrips,
    JsonType.transformationKind.roundTrips, JsonType.transformedField.roundTrips⟩

end SchemaStitching
