import SchemaStitching.Proofs.RoundTrip
import SchemaStitching.Proofs.Sites

/-! The shapes of JSON values.  A value has the shape of a format if all that the format asks for is
there and of the right kind, whatever the rules of the types say.  What has been read had the shape,
and each member of a record was read from its part. -/

namespace SchemaStitching

/-- Whether a value holds the members of a record of the given length. -/
def Json.isRecord (length : Nat) : Json → Bool
  | .object _ => true
  | .array items => items.length ≤ length
  | _ => false

/-- Whether a value is an array whose items all pass. -/
def Json.allItems (passes : Json → Bool) : Json → Bool
  | .array items => items.all passes
  | _ => false

def Json.isNull : Json → Bool
  | .null => true
  | _ => false

mutual

/-- Whether a JSON value has the shape of a format. -/
def Format.fits : {α : Type} → Format α → Leniency → Json → Bool
  | _, .word32, _, j => (j.natBelow? UInt32.size).isSome
  | _, .word64, _, j => (j.natBelow? UInt64.size).isSome
  | _, .text, _, j => j.text?.isSome
  | _, .named _ ofName? _, leniency, j => ((j.name? leniency).bind ofName?).isSome
  | _, .list item, leniency, j => j.allItems (item.fits leniency)
  | _, .record members, leniency, j =>
    j.isRecord members.names.length && members.fits leniency j 0
  | _, .union left leftContent right rightContent _, leniency, .object given =>
    match (Json.member? given Format.tagName).bind (Json.name? leniency),
        Json.member? given Format.contentName with
    | some tag, some content =>
      if tag = left then leftContent.fits .lenient content
      else if tag = right then rightContent.fits .lenient content
      else false
    | _, _ => false
  | _, .union left leftContent right rightContent _, leniency, .array [.string tag, content] =>
    if tag = left then leftContent.fits leniency content
    else if tag = right then rightContent.fits leniency content
    else false
  | _, .union .., _, _ => false
  | _, .checked plain _ _ _, leniency, j => plain.fits leniency j

/-- Whether the parts of a JSON value have the shapes of the members of a record, the first of which
has the given place.  Only a required member has to be there. -/
def Members.fits : {α : Type} → Members α → Leniency → Json → Nat → Bool
  | _, .none, _, _, _ => true
  | _, .required name value rest, leniency, j, place =>
    (j.part? name place).any (value.fits leniency) && rest.fits leniency j (place + 1)
  | _, .optional name value rest, leniency, j, place =>
    (j.part? name place).all (fun part => part.isNull || value.fits leniency part) &&
      rest.fits leniency j (place + 1)
  | _, .list name item _ rest, leniency, j, place =>
    (j.part? name place).all (Json.allItems (item.fits leniency)) &&
      rest.fits leniency j (place + 1)

end

/-! ### What the members of a record are read from -/

/-- Whether a value is read from a part of a record, or stands for a part that is missing. -/
def Json.PartReads {α : Type} (read : Json → Except ReadFault α) (absent : Option α) :
    Option Json → α → Prop
  | some j, a => read j = .ok a
  | none, a => absent = some a

/-- Whether the members of a record are read from the parts of a JSON value, the first of them from
the given place. -/
def Members.ReadFrom : {α : Type} → Members α → Leniency → Json → Nat → α → Prop
  | _, .none, _, _, _, _ => True
  | _, .required name value rest, leniency, j, place, (a, b) =>
    Json.PartReads (value.readAs leniency) .none (j.part? name place) a ∧
      rest.ReadFrom leniency j (place + 1) b
  | _, .optional name value rest, leniency, j, place, (a, b) =>
    Json.PartReads (Json.readNullable (value.readAs leniency)) (some .none) (j.part? name place) a ∧
      rest.ReadFrom leniency j (place + 1) b
  | _, .list name item _ rest, leniency, j, place, (as, b) =>
    Json.PartReads (Json.readItems (item.readAs leniency)) (some []) (j.part? name place) as ∧
      rest.ReadFrom leniency j (place + 1) b

theorem Outcome.both_eq_value {α β : Type} {x : Outcome α} {y : Outcome β} {a : α} {b : β} :
    x.both y = .value (a, b) ↔ x = .value a ∧ y = .value b := by
  cases x <;> cases y <;> simp only [both, value.injEq, Prod.mk.injEq, reduceCtorEq, and_false,
    false_and]
  split <;> simp only [reduceCtorEq]

theorem Outcome.toExcept_eq_ok {α : Type} {x : Outcome α} {a : α} :
    x.toExcept = .ok a ↔ x = .value a := by
  cases x <;> simp [toExcept]

theorem Outcome.ofMember_eq_value_iff {α : Type} {given : List (String × Json)} {name : String}
    {read : Json → Except ReadFault α} {otherwise : Outcome α} {a : α} (absent : Option α)
    (ho : otherwise = .value a ↔ absent = some a) :
    ofMember given name read otherwise = .value a ↔
      Json.PartReads read absent (Json.member? given name) a := by
  rw [ofMember]
  cases Json.member? given name with
  | none => exact ho
  | some j => cases hj : read j <;> simp [Json.PartReads, hj]

theorem bind_eq_ok {α β : Type} {x : Except ReadFault α} {k : α → Except ReadFault β} {b : β} :
    (x >>= k) = .ok b ↔ ∃ a, x = .ok a ∧ k a = .ok b := by
  cases x <;> simp [bind, Except.bind]

theorem map_eq_ok {ε α β : Type} {f : α → β} {x : Except ε α} {b : β} :
    f <$> x = .ok b ↔ ∃ a, x = .ok a ∧ f a = b := by
  cases x <;> simp [Functor.map, Except.map]

theorem map_eq_error {ε α β : Type} {f : α → β} {x : Except ε α} {e : ε} :
    f <$> x = .error e ↔ x = .error e := by
  cases x <;> simp [Functor.map, Except.map]

theorem pair_eq_ok {α β : Type} {x : Except ReadFault α} {y : Except ReadFault β} {a : α} {b : β} :
    (do return (← x, ← y)) = Except.ok (a, b) ↔ x = .ok a ∧ y = .ok b := by
  cases x <;> cases y <;> simp [bind, Except.bind, pure, Except.pure]

theorem Json.part?_of_drop_eq_cons {items rest : List Json} {j : Json} {place : Nat} (name : String)
    (h : items.drop place = j :: rest) :
    (Json.array items).part? name place = some j ∧ items.drop (place + 1) = rest := by
  rw [part?, ← List.head?_drop, ← List.tail_drop, h]
  exact ⟨rfl, rfl⟩

theorem Json.part?_of_drop_eq_nil {items : List Json} {place : Nat} (name : String)
    (h : items.drop place = []) :
    (Json.array items).part? name place = none ∧ items.drop (place + 1) = [] := by
  rw [part?, ← List.head?_drop, ← List.tail_drop, h]
  exact ⟨rfl, rfl⟩

/-- The item at a place of an array, which may be missing, and those after it, of which there must
not be too many. -/
theorem Json.partReads_array_iff {α β : Type} {read : Json → Except ReadFault α}
    {absent : Option α} {rest : List Json → Except ReadFault β} {items : List Json}
    {place count : Nat} {p : Prop} {name : String} {whole : List Json → Except ReadFault (α × β)}
    {a : α} {b : β} (hnil : whole [] = .ok (a, b) ↔ absent = some a ∧ rest [] = .ok b)
    (hcons : ∀ j js, whole (j :: js) = do return (← read j, ← rest js))
    (hrest : rest (items.drop (place + 1)) = .ok b ↔ items.length ≤ place + 1 + count ∧ p) :
    whole (items.drop place) = .ok (a, b) ↔ items.length ≤ place + (count + 1) ∧
      PartReads read absent ((Json.array items).part? name place) a ∧ p := by
  have hw : whole (items.drop place) = .ok (a, b) ↔
      PartReads read absent ((Json.array items).part? name place) a ∧
        rest (items.drop (place + 1)) = .ok b := by
    cases hd : items.drop place with
    | nil =>
      obtain ⟨hj, ht⟩ := part?_of_drop_eq_nil name hd
      rw [hj, ht]
      exact hnil
    | cons j js =>
      obtain ⟨hj, ht⟩ := part?_of_drop_eq_cons name hd
      rw [hj, ht, hcons, pair_eq_ok]
      rfl
  rw [hw, hrest, Nat.add_right_comm place 1, Nat.add_assoc place, and_left_comm]

theorem Members.readObject_eq_value_iff : {α : Type} → (members : Members α) →
    {leniency : Leniency} → {given : List (String × Json)} → {a : α} → (place : Nat) →
    (members.readObject leniency given = .value a ↔
      members.ReadFrom leniency (.object given) place a)
  | _, .none, _, _, (), _ => ⟨fun _ => trivial, fun _ => rfl⟩
  | _, .required name value rest, leniency, given, (a, b), place => by
    rw [readObject, Outcome.both_eq_value, rest.readObject_eq_value_iff (place + 1),
      Outcome.ofMember_eq_value_iff .none (by simp)]
    rfl
  | _, .optional name value rest, leniency, given, (a, b), place => by
    rw [readObject, Outcome.both_eq_value, rest.readObject_eq_value_iff (place + 1),
      Outcome.ofMember_eq_value_iff (some .none) (by simp)]
    rfl
  | _, .list name item _ rest, leniency, given, (as, b), place => by
    rw [readObject, Outcome.both_eq_value, rest.readObject_eq_value_iff (place + 1),
      Outcome.ofMember_eq_value_iff (some []) (by simp)]
    rfl

theorem Members.readArray_eq_ok_iff : {α : Type} → (members : Members α) →
    {leniency : Leniency} → {items : List Json} → {place : Nat} → {a : α} →
    (members.readArray leniency (items.drop place) = .ok a ↔
      items.length ≤ place + members.names.length ∧
        members.ReadFrom leniency (.array items) place a)
  | _, .none, leniency, items, place, () => by
    rw [names, List.length_nil, Nat.add_zero, ← List.drop_eq_nil_iff]
    cases hd : items.drop place <;> simp [readArray, ReadFrom]
  | _, .required name value rest, leniency, items, place, (a, b) =>
    Json.partReads_array_iff (by simp [readArray]) (fun j js => by rw [readArray])
      rest.readArray_eq_ok_iff
  | _, .optional name value rest, leniency, items, place, (a, b) =>
    Json.partReads_array_iff (by simp [readArray, map_eq_ok, and_comm])
      (fun j js => by rw [readArray]) rest.readArray_eq_ok_iff
  | _, .list name item _ rest, leniency, items, place, (as, b) =>
    Json.partReads_array_iff (by simp [readArray, map_eq_ok, and_comm])
      (fun j js => by rw [readArray]) rest.readArray_eq_ok_iff

/-- A record is read from its parts, and an array holds no more than these. -/
theorem Format.readAs_record_iff {α : Type} {members : Members α} {leniency : Leniency} {j : Json}
    {a : α} : (Format.record members).readAs leniency j = .ok a ↔
      j.isRecord members.names.length ∧ members.ReadFrom leniency j 0 a := by
  cases j with
  | object given =>
    rw [readAs, Outcome.toExcept_eq_ok, members.readObject_eq_value_iff 0]
    exact (and_iff_right rfl).symm
  | array items =>
    have hi : members.readArray leniency (items.drop 0) = .ok a ↔ _ := members.readArray_eq_ok_iff
    rw [readAs, Json.isRecord, decide_eq_true_iff]
    rwa [List.drop_zero, Nat.zero_add] at hi
  | null | bool | int | decimal | string => simp [readAs, Json.isRecord]

theorem Json.allItems_of_readItems {α : Type} {read : Json → Except ReadFault α}
    {passes : Json → Bool} (hp : ∀ {j a}, read j = .ok a → passes j) {j : Json} {as : List α}
    (h : j.readItems read = .ok as) : j.allItems passes := by
  cases j with
  | array items =>
    rw [readItems] at h
    rw [allItems, List.all_eq_true]
    induction items generalizing as with
    | nil => exact List.forall_mem_nil _
    | cons item items ih =>
      rw [List.mapM_cons] at h
      obtain ⟨a, ha, h⟩ := bind_eq_ok.mp h
      obtain ⟨rest, hr, -⟩ := bind_eq_ok.mp h
      exact List.forall_mem_cons.mpr ⟨hp ha, ih hr⟩
  | null | bool | int | decimal | string | object => contradiction

/-- If one of three readings succeeds and the third cannot, one of the first two has. -/
theorem fits_of_choice {α : Type} {isLeft isRight : Prop} [Decidable isLeft] [Decidable isRight]
    {x y z : Except ReadFault α} {leftFits rightFits : Bool} {c : α}
    (h : (if isLeft then x else if isRight then y else z) = .ok c) (hl : x = .ok c → leftFits)
    (hr : y = .ok c → rightFits) (hz : z ≠ .ok c) :
    (if isLeft then leftFits else if isRight then rightFits else false) = true := by
  split at h
  · rw [if_pos ‹_›]
    exact hl h
  rw [if_neg ‹_›]
  split at h
  · rw [if_pos ‹_›]
    exact hr h
  · exact absurd h hz

mutual

theorem Format.fits_of_readAs : {α : Type} → (format : Format α) → {leniency : Leniency} →
    {j : Json} → {a : α} → format.readAs leniency j = .ok a → format.fits leniency j
  | _, .word32, _, j, _, h => by
    rw [Format.readAs] at h
    rw [Format.fits]
    cases hn : j.natBelow? UInt32.size with
    | some n => rfl
    | none => simp [hn] at h
  | _, .word64, _, j, _, h => by
    rw [Format.readAs] at h
    rw [Format.fits]
    cases hn : j.natBelow? UInt64.size with
    | some n => rfl
    | none => simp [hn] at h
  | _, .text, _, .string _, _, _ => by rfl
  | _, .named _ ofName? _, leniency, j, _, h => by
    rw [Format.readAs] at h
    rw [Format.fits]
    cases hn : (j.name? leniency).bind ofName? with
    | some a => rfl
    | none => simp [hn] at h
  | _, .list item, leniency, j, as, h => by
    rw [Format.readAs] at h
    rw [Format.fits]
    exact Json.allItems_of_readItems item.fits_of_readAs h
  | _, .record members, leniency, j, a, h => by
    obtain ⟨hj, hm⟩ := Format.readAs_record_iff.mp h
    rw [Format.fits, hj, members.fits_of_readFrom hm]
    rfl
  | _, .union left leftContent right rightContent _, leniency, .object given, c, h => by
    rw [Format.readAs] at h
    rw [Format.fits]
    match ht : (Json.member? given Format.tagName).bind (Json.name? leniency),
        hc : Json.member? given Format.contentName with
    | some tag, some content =>
      rw [ht, hc] at h
      refine fits_of_choice h (fun h => ?_) (fun h => ?_) nofun
      · obtain ⟨a, ha, -⟩ := map_eq_ok.mp h
        exact leftContent.fits_of_readAs ha
      · obtain ⟨b, hb, -⟩ := map_eq_ok.mp h
        exact rightContent.fits_of_readAs hb
    | none, _ | some _, none =>
      simp only [ht, hc] at h
      contradiction
  | _, .union left leftContent right rightContent _, leniency,
      .array (.string tag :: content :: more), c, h => by
    rw [Format.readAs] at h
    cases more with
    | nil =>
      rw [Format.fits]
      refine fits_of_choice h (fun h => ?_) (fun h => ?_) nofun
      · obtain ⟨_, h, -⟩ := bind_eq_ok.mp h
        obtain ⟨a, ha, -⟩ := map_eq_ok.mp h
        exact leftContent.fits_of_readAs ha
      · obtain ⟨_, h, -⟩ := bind_eq_ok.mp h
        obtain ⟨b, hb, -⟩ := map_eq_ok.mp h
        exact rightContent.fits_of_readAs hb
    | cons =>
      -- More than a tag and a content is refused when the content has been read.
      have hmore {γ : Type} {x : Except ReadFault γ} {k : γ → Except ReadFault (_ ⊕ _)}
          (hk : ∀ value, k value = .error .form) : (x >>= k) ≠ .ok c := by
        intro h
        obtain ⟨value, -, he⟩ := bind_eq_ok.mp h
        rw [hk] at he
        contradiction
      split at h
      · exact absurd h (hmore fun _ => rfl)
      split at h
      · exact absurd h (hmore fun _ => rfl)
      · contradiction
  | _, .checked plain build _ _, leniency, j, b, h => by
    rw [Format.readAs] at h
    obtain ⟨a, ha, hb⟩ := bind_eq_ok.mp h
    rw [Format.fits]
    exact plain.fits_of_readAs ha

theorem Members.fits_of_readFrom : {α : Type} → (members : Members α) → {leniency : Leniency} →
    {j : Json} → {place : Nat} → {a : α} → members.ReadFrom leniency j place a →
    members.fits leniency j place
  | _, .none, _, _, _, _, _ => by rfl
  | _, .required name value rest, leniency, j, place, (a, b), h => by
    rw [Members.ReadFrom] at h
    rw [Members.fits, rest.fits_of_readFrom h.2, Bool.and_true]
    cases hj : j.part? name place with
    | some part =>
      rw [hj] at h
      exact value.fits_of_readAs h.1
    | none =>
      rw [hj] at h
      exact nomatch h.1
  | _, .optional name value rest, leniency, j, place, (a, b), h => by
    rw [Members.ReadFrom] at h
    rw [Members.fits, rest.fits_of_readFrom h.2, Bool.and_true]
    cases hj : j.part? name place with
    | some part =>
      rw [hj] at h
      cases part with
      | null => rfl
      | bool | int | decimal | string | array | object =>
        obtain ⟨b, hb, -⟩ := map_eq_ok.mp h.1
        exact value.fits_of_readAs hb
    | none => rfl
  | _, .list name item _ rest, leniency, j, place, (as, b), h => by
    rw [Members.ReadFrom] at h
    rw [Members.fits, rest.fits_of_readFrom h.2, Bool.and_true]
    cases hj : j.part? name place with
    | some part =>
      rw [hj] at h
      exact Json.allItems_of_readItems item.fits_of_readAs h.1
    | none => rfl

end

end SchemaStitching
