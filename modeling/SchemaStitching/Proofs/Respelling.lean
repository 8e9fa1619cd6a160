import SchemaStitching.Proofs.SameReading

/-! Reading does not notice how a value is spelled. -/

namespace SchemaStitching

/-! ### Rewriting at the value itself -/

namespace Format

variable {α β : Type} {members : Members α} {given before after : List (String × Json)}
  {items : List Json} {name : String} {j : Json}

theorem sameReading_array
    (h : List.Forall₂ (fun member item => (Json.member? given member.1).or member.2 = some item)
      members.blanks items) :
    (record members).SameReading (.object given) (.array items) := by
  have hl : items.length = members.names.length := by
    rw [← h.length_eq, members.length_blanks]
  refine sameReading_record ?_ ?_
  · simp [Json.isRecord, hl]
  · intro index name blank hb
    obtain ⟨hi, hb'⟩ := List.getElem?_eq_some_iff.mp hb
    have hi' : index < items.length := by rwa [hl, ← members.length_blanks]
    have hp := (List.forall₂_iff_get.mp h).2 index hi hi'
    rw [List.get_eq_getElem, List.get_eq_getElem, hb'] at hp
    rw [Nat.zero_add, Json.part?, Json.part?, hp, List.getElem?_eq_getElem hi', Option.some_or]

theorem sameReading_shorter {blank : Json}
    (h : members.blanks[items.length]? = some (name, some blank)) :
    (record members).SameReading (.array (items ++ [blank])) (.array items) := by
  have hl : items.length < members.names.length := by
    rw [← members.length_blanks]
    exact (List.getElem?_eq_some_iff.mp h).1
  refine sameReading_record ?_ ?_
  · rw [Json.isRecord, Json.isRecord, List.length_append, decide_eq_decide]
    exact iff_of_true hl hl.le
  · intro index name' blank' hb
    rw [Nat.zero_add, Json.part?, Json.part?]
    rcases Nat.lt_trichotomy index items.length with hi | rfl | hi
    · rw [List.getElem?_append_left hi]
    · rw [h, Option.some.injEq, Prod.mk.injEq] at hb
      rw [List.getElem?_concat_length, List.getElem?_eq_none le_rfl, ← hb.2]
      rfl
    · rw [List.getElem?_eq_none hi.le, List.getElem?_eq_none (by rwa [List.length_append])]

theorem sameReading_blank {blank : Json} (hd : members.distinctNames)
    (h : (name, some blank) ∈ members.blanks) (hn : Json.member? (before ++ after) name = none) :
    (record members).SameReading (.object (before ++ after))
      (.object (before ++ (name, blank) :: after)) := by
  refine sameReading_record rfl (Json.sameParts_object fun name' blank' hb => ?_)
  by_cases he : name' = name
  · subst he
    have hu : blank' = some blank :=
      congrArg Prod.snd (List.inj_on_of_nodup_map (members.nodup_map_blanks hd) hb h rfl)
    have hb : Json.member? before name' = none := by
      rw [Json.member?, List.lookup_append] at hn
      exact (Option.or_eq_none_iff.mp hn).1
    rw [hn, hu, Json.member?_insert_self, hb]
    rfl
  · rw [Json.member?_insert_of_ne he]

theorem sameReading_unknown (h : name ∉ members.names) :
    (record members).SameReading (.object (before ++ after))
      (.object (before ++ (name, j) :: after)) := by
  refine sameReading_record rfl (Json.sameParts_object fun name' blank hb => ?_)
  have he : name' ≠ name := by
    rintro rfl
    rw [members.names_eq_map_blanks] at h
    exact h (List.mem_map_of_mem hb)
  rw [Json.member?_insert_of_ne he]

variable {left right tag : String} {leftContent : Format α} {rightContent : Format β}
  {hne : left ≠ right}

theorem sameReading_unionArray {content : Json}
    (ht : (Json.member? given tagName).bind (Json.name? .strict) = some tag)
    (hc : Json.member? given contentName = some content)
    (hl : tag = left → leftContent.plainNames content)
    (hr : tag = right → rightContent.plainNames content) :
    (union left leftContent right rightContent hne).SameReading (.object given)
      (.array [.string tag, content]) := by
  intro leniency
  have ht : (Json.member? given tagName).bind (Json.name? leniency) = some tag := by
    cases leniency with
    | strict => exact ht
    | lenient => exact Json.bind_name?_lenient ht
  have hk {γ : Type} (x : Except ReadFault γ) :
      (x >>= fun value => if [].isEmpty (α := Json) then .ok value else .error .form) = x :=
    bind_pure x
  rw [readAs, readAs, ht, hc]
  refine ReadAlike.ite (fun h => ?_) fun _ => ReadAlike.ite (fun h => ?_) fun _ => .of_eq rfl
  · rw [hk]
    exact (leftContent.readAlike_of_plainNames (hl h) .lenient leniency).map _
  · rw [hk]
    exact (rightContent.readAlike_of_plainNames (hr h) .lenient leniency).map _

theorem sameReading_unionUnknown (ht : name ≠ tagName) (hc : name ≠ contentName) :
    (union left leftContent right rightContent hne).SameReading (.object (before ++ after))
      (.object (before ++ (name, j) :: after)) := by
  intro leniency
  rw [readAs, readAs, Json.member?_insert_of_ne ht.symm, Json.member?_insert_of_ne hc.symm]
  exact .of_eq rfl

theorem Rewrite.sameReading {α : Type} {format : Format α} {j j' : Json} (h : format.Rewrite j j')
    (hd : format.distinctNames) : format.SameReading j j' := by
  cases h with
  | array h => exact sameReading_array h
  | shorter _ h => exact sameReading_shorter h
  | blank h hn => exact sameReading_blank hd h hn
  | unknown h => exact sameReading_unknown h
  | unionArray ht hc hl hr => exact sameReading_unionArray ht hc hl hr
  | unionUnknown ht hc => exact sameReading_unionUnknown ht hc
  | name => exact fun _ => .of_eq rfl

end Format

/-! ### Rewriting a part -/

namespace Json

/-- Two values have the same parts for the members of a record, except for the one at the given
place.  The first of the members has the place `start`. -/
def SamePartsBut (place : Nat) (blanks : List (String × Option Json)) (start : Nat) (j j' : Json) :
    Prop :=
  ∀ index name blank, index ≠ place → blanks[index]? = some (name, blank) →
    j.part? name (start + index) = j'.part? name (start + index)

namespace SamePartsBut

variable {place start : Nat} {name : String} {blank : Option Json}
  {blanks : List (String × Option Json)} {j j' : Json}

theorem rest (h : SamePartsBut 0 ((name, blank) :: blanks) start j j') :
    SameParts blanks (start + 1) j j' := by
  intro index other blank hb
  rw [Nat.add_right_comm, Nat.add_assoc, h (index + 1) other blank (Nat.succ_ne_zero index) hb]

theorem head (h : SamePartsBut (place + 1) ((name, blank) :: blanks) start j j') :
    j.part? name start = j'.part? name start :=
  h 0 name blank (Nat.succ_ne_zero place).symm rfl

theorem tail (h : SamePartsBut (place + 1) ((name, blank) :: blanks) start j j') :
    SamePartsBut place blanks (start + 1) j j' := by
  intro index other blank hi hb
  rw [Nat.add_right_comm, Nat.add_assoc,
    h (index + 1) other blank (fun he => hi (Nat.succ.inj he)) hb]

end SamePartsBut

theorem samePartsBut_array (blanks : List (String × Option Json)) (before after : List Json)
    (j j' : Json) :
    SamePartsBut before.length blanks 0 (.array (before ++ j :: after))
      (.array (before ++ j' :: after)) := by
  intro index name blank hi _
  rw [part?, part?, Nat.zero_add]
  rcases Nat.lt_or_gt_of_ne hi with hi | hi
  · rw [List.getElem?_append_left hi, List.getElem?_append_left hi]
  · obtain ⟨count, rfl⟩ := Nat.exists_eq_add_of_lt hi
    rw [List.getElem?_append_right hi.le, List.getElem?_append_right hi.le, Nat.add_assoc,
      Nat.add_sub_cancel_left, List.getElem?_cons_succ, List.getElem?_cons_succ]

theorem samePartsBut_object {blanks : List (String × Option Json)} {place : Nat} {name : String}
    {blank : Option Json} (hn : (blanks.map Prod.fst).Nodup)
    (h : blanks[place]? = some (name, blank)) (before after : List (String × Json)) (j j' : Json) :
    SamePartsBut place blanks 0 (.object (before ++ (name, j) :: after))
      (.object (before ++ (name, j') :: after)) := by
  intro index other blank' hi hb
  have hne : other ≠ name := by
    intro he
    have hl := (List.getElem?_eq_some_iff.mp hb).1
    refine hi ((List.getElem?_inj (by rwa [List.length_map]) hn).mp ?_)
    rw [List.getElem?_map, List.getElem?_map, h, hb, ← he]
    rfl
  rw [part?, part?, member?_insert_of_ne hne, member?_insert_of_ne hne]

end Json

namespace Members.Declares

variable {α β : Type} {members : Members α} {place : Nat} {name : String} {value : Format β}

theorem exists_blank (h : members.Declares place name value) :
    ∃ blank, members.blanks[place]? = some (name, blank) := by
  induction h with
  | required | optional | list => exact ⟨_, rfl⟩
  | afterRequired _ ih | afterOptional _ ih | afterList _ ih => exact ih

theorem distinctNames (h : members.Declares place name value) (hd : members.distinctNames) :
    value.distinctNames := by
  induction h with
  | required | optional | list =>
    simp only [Members.distinctNames, Bool.and_eq_true] at hd
    exact hd.1.2
  | afterRequired _ ih | afterOptional _ ih | afterList _ ih =>
    simp only [Members.distinctNames, Bool.and_eq_true] at hd
    exact ih hd.2

/-- Values that differ only in the part of one member are read alike if this part is. -/
theorem readFrom_congr (h : members.Declares place name value) {leniency : Leniency}
    {j j' part part' : Json} {start : Nat} {a : α} (hp : j.part? name (start + place) = some part)
    (hp' : j'.part? name (start + place) = some part') (hs : value.SameReading part part')
    (hn : part = .null ↔ part' = .null) (ho : Json.SamePartsBut place members.blanks start j j') :
    members.ReadFrom leniency j start a ↔ members.ReadFrom leniency j' start a := by
  induction h generalizing start with
  | required =>
    rw [Nat.add_zero] at hp hp'
    refine and_congr ?_ (Members.readFrom_congr _ ho.rest)
    rw [hp, hp']
    exact hs leniency _
  | optional =>
    rw [Nat.add_zero] at hp hp'
    refine and_congr ?_ (Members.readFrom_congr _ ho.rest)
    rw [hp, hp']
    exact (hs leniency).readNullable hn _
  | list =>
    rw [Nat.add_zero] at hp hp'
    refine and_congr ?_ (Members.readFrom_congr _ ho.rest)
    rw [hp, hp']
    have hl := hs leniency
    rw [Format.readAs, Format.readAs] at hl
    exact hl _
  | afterRequired _ ih | afterOptional _ ih | afterList _ ih =>
    rw [Nat.add_left_comm, Nat.add_comm] at hp hp'
    exact and_congr (by rw [ho.head]) (ih hp hp' hs ho.tail)

end Members.Declares

namespace Format

variable {α β : Type} {j j' : Json}

theorem sameReading_item {item : Format α} (before after : List Json)
    (hs : item.SameReading j j') :
    (list item).SameReading (.array (before ++ j :: after)) (.array (before ++ j' :: after)) := by
  intro leniency
  have hr (items : List Json) : List.Forall₂
      (fun j j' => ReadAlike (item.readAs leniency j) (item.readAs leniency j')) items items :=
    List.forall₂_same.mpr fun _ _ => .of_eq rfl
  rw [readAs, readAs]
  exact ReadAlike.mapM (List.rel_append (hr before) (.cons (hs leniency) (hr after)))

theorem sameReading_objectMember {members : Members α} {value : Format β} {place : Nat}
    {name : String} (before after : List (String × Json)) (h : members.Declares place name value)
    (hd : members.distinctNames) (hs : value.SameReading j j') (hn : j = .null ↔ j' = .null) :
    (record members).SameReading (.object (before ++ (name, j) :: after))
      (.object (before ++ (name, j') :: after)) := by
  cases hm : Json.member? before name with
  | some first =>
    -- The part is not looked at, as another member of the same name comes first.
    refine sameReading_record rfl (Json.sameParts_object fun other _ _ => ?_)
    by_cases he : other = name
    · rw [he, Json.member?_insert_self, Json.member?_insert_self, hm]
      rfl
    · rw [Json.member?_insert_of_ne he, Json.member?_insert_of_ne he]
  | none =>
    obtain ⟨blank, hb⟩ := h.exists_blank
    have hp (j : Json) : Json.member? (before ++ (name, j) :: after) name = some j := by
      rw [Json.member?_insert_self, hm, Option.none_or]
    intro leniency a
    rw [readAs_record_iff, readAs_record_iff]
    exact and_congr_right fun _ => h.readFrom_congr (hp j) (hp j') hs hn
      (Json.samePartsBut_object (members.nodup_map_blanks hd) hb before after j j')

theorem sameReading_arrayMember {members : Members α} {value : Format β} {name : String}
    (before after : List Json) (h : members.Declares before.length name value)
    (hs : value.SameReading j j') (hn : j = .null ↔ j' = .null) :
    (record members).SameReading (.array (before ++ j :: after))
      (.array (before ++ j' :: after)) := by
  have hp (j : Json) : (before ++ j :: after)[0 + before.length]? = some j := by
    rw [Nat.zero_add, List.getElem?_append_right le_rfl, Nat.sub_self]
    rfl
  intro leniency a
  rw [readAs_record_iff, readAs_record_iff]
  refine and_congr ?_ (h.readFrom_congr (hp j) (hp j') hs hn
    (Json.samePartsBut_array members.blanks before after j j'))
  rw [Json.isRecord, Json.isRecord, List.length_append, List.length_append, List.length_cons,
    List.length_cons]

theorem Tags.distinctNames {union : Format α} {tag : String} {content : Format β}
    (h : union.Tags tag content) (hd : union.distinctNames) : content.distinctNames := by
  cases h <;> simp only [Format.distinctNames, Bool.and_eq_true] at hd
  · exact hd.1
  · exact hd.2

/-- A union reads its content as the format that the tag names. -/
theorem Tags.exists_readAs {union : Format α} {tag : String} {content : Format β}
    (h : union.Tags tag content) :
    ∃ inject : β → α,
      (∀ {leniency given j}, (Json.member? given tagName).bind (Json.name? leniency) = some tag →
        Json.member? given contentName = some j →
        union.readAs leniency (.object given) = inject <$> content.readAs .lenient j) ∧
      ∀ {leniency j more}, union.readAs leniency (.array (.string tag :: j :: more)) =
        inject <$> content.readAs leniency j >>= fun value =>
          if more.isEmpty then .ok value else .error .form := by
  cases h with
  | left =>
    refine ⟨.inl, fun {leniency given j} ht hc => ?_, fun {leniency j more} => ?_⟩
    · rw [readAs, ht, hc]
      exact if_pos rfl
    · rw [readAs]
      exact if_pos rfl
  | @right _ _ _ _ _ _ hne =>
    refine ⟨.inr, fun {leniency given j} ht hc => ?_, fun {leniency j more} => ?_⟩
    · rw [readAs, ht, hc]
      exact (if_neg hne.symm).trans (if_pos rfl)
    · rw [readAs]
      exact (if_neg hne.symm).trans (if_pos rfl)

theorem Tags.readAs_object_eq_form {union : Format α} {tag : String} {content : Format β}
    (h : union.Tags tag content) {leniency : Leniency} {given : List (String × Json)}
    (ht : (Json.member? given tagName).bind (Json.name? leniency) = none) :
    union.readAs leniency (.object given) = .error .form := by
  cases h <;> rw [readAs, ht]

theorem sameReading_objectContent {format : Format α} {part : Format β} {tag : String}
    {before after : List (String × Json)} (h : format.Tags tag part)
    (ht : (Json.member? (before ++ after) tagName).bind (Json.name? .lenient) = some tag)
    (hs : part.SameReading j j') :
    format.SameReading (.object (before ++ (contentName, j) :: after))
      (.object (before ++ (contentName, j') :: after)) := by
  obtain ⟨inject, hr, -⟩ := h.exists_readAs
  intro leniency
  have htag (j : Json) : Json.member? (before ++ (contentName, j) :: after) tagName =
      Json.member? (before ++ after) tagName :=
    Json.member?_insert_of_ne (by decide) before after j
  cases hl : (Json.member? (before ++ after) tagName).bind (Json.name? leniency) with
  | none =>
    rw [h.readAs_object_eq_form (by rw [htag, hl]), h.readAs_object_eq_form (by rw [htag, hl])]
    exact .of_eq rfl
  | some other =>
    obtain rfl : other = tag := Option.some.inj ((Json.bind_name?_lenient hl).symm.trans ht)
    have hc (j : Json) := Json.member?_insert_self before after contentName j
    cases hm : Json.member? before contentName with
    | none =>
      rw [hm] at hc
      rw [hr (by rw [htag, hl]) (hc j), hr (by rw [htag, hl]) (hc j')]
      exact (hs .lenient).map inject
    | some first =>
      rw [hm] at hc
      rw [hr (by rw [htag, hl]) (hc j), hr (by rw [htag, hl]) (hc j')]
      exact .of_eq rfl

theorem sameReading_arrayContent {format : Format α} {part : Format β} {tag : String}
    (h : format.Tags tag part) (more : List Json) (hs : part.SameReading j j') :
    format.SameReading (.array (.string tag :: j :: more))
      (.array (.string tag :: j' :: more)) := by
  obtain ⟨inject, -, hr⟩ := h.exists_readAs
  intro leniency
  rw [hr, hr]
  exact ((hs leniency).map inject).bind _

end Format

/-! ### Any number of steps -/

namespace Format.Respells

variable {α : Type} {format : Format α} {j j' : Json}

theorem ne_null (h : format.Respells j j') : j ≠ .null ∧ j' ≠ .null := by
  induction h with
  | here h => cases h <;> simp
  | plain _ ih => exact ih
  | item | objectMember | arrayMember | objectContent | arrayContent => simp

theorem sameReading (h : format.Respells j j') (hd : format.distinctNames) :
    format.SameReading j j' := by
  induction h with
  | here h => exact h.sameReading hd
  | item before after _ ih => exact sameReading_item before after (ih hd)
  | objectMember before after hm h ih =>
    exact sameReading_objectMember before after hm hd (ih (hm.distinctNames hd))
      (iff_of_false h.ne_null.1 h.ne_null.2)
  | arrayMember before after hm h ih =>
    exact sameReading_arrayMember before after hm (ih (hm.distinctNames hd))
      (iff_of_false h.ne_null.1 h.ne_null.2)
  | objectContent hc ht _ ih => exact sameReading_objectContent hc ht (ih (hc.distinctNames hd))
  | arrayContent hc more _ ih => exact sameReading_arrayContent hc more (ih (hc.distinctNames hd))
  | plain _ ih =>
    intro leniency
    rw [readAs, readAs]
    exact (ih hd leniency).bind _

end Format.Respells

/-- However a value is spelled, it is read as the same, or not at all. -/
theorem JsonType.read_eq_ok_iff_of_respelled (t : JsonType) {j j' : Json}
    (h : Relation.EqvGen t.format.Respells j j') (v : t.Value) :
    t.format.read j = .ok v ↔ t.format.read j' = .ok v := by
  induction h with
  | rel _ _ h => exact h.sameReading t.distinctNames .strict v
  | refl => exact Iff.rfl
  | symm _ _ _ ih => exact ih.symm
  | trans _ _ _ _ _ ih ih' => exact ih.trans ih'

/-- A hydration that is given by an object, and the arrays that give the same. -/
theorem JsonType.read_eq_ok_iff_of_respelled_hydration :
    let source (origin : Json) : Json :=
      .object [("kind", origin), ("path", .array [.string "x"])]
    let arguments (origin : Json) : Json :=
      .array [.object [("name", .string "a"), ("source", source origin)]]
    let definition : Json := .object [("service_name", .string "S"),
      ("top_level_field", .string "f"), ("arguments", arguments (.string "context"))]
    let object : Json := .object [("kind", .string "hydration"), ("definition", definition)]
    let array : Json := .array [.string "hydration",
      .array [.string "S", .string "f", arguments (.object [("context", .null)])]]
    Relation.EqvGen JsonType.payload.format.Respells object array ∧
      (∃ v, JsonType.payload.format.read object = .ok v) ∧
      ∀ v, JsonType.payload.format.read object = .ok v ↔
        JsonType.payload.format.read array = .ok v := by
  intro source arguments definition object array
  let form (definition : Json) : Json := .array [.string "hydration", definition]
  let call (origin : Json) (more : List Json) : Json :=
    .array (.string "S" :: .string "f" :: arguments origin :: more)
  have within {j j' : Json} (h : Hydration.format.Respells j j') :
      Relation.EqvGen JsonType.payload.format.Respells (form j) (form j') :=
    .rel _ _ (.plain (.arrayContent .right [] h))
  have whole : Relation.EqvGen JsonType.payload.format.Respells object (form definition) :=
    .rel _ _ (.plain (.here (.unionArray rfl rfl (by decide) (by decide))))
  have inOrder : Hydration.format.Respells definition (call (.string "context") [.null, .null]) :=
    .plain (.here (.array (.cons rfl (.cons rfl (.cons rfl (.cons rfl (.cons rfl .nil)))))))
  have shorter : Hydration.format.Respells (call (.string "context") [.null, .null])
      (call (.string "context") [.null]) :=
    .plain (.here (.shorter [_, _, _, _] rfl))
  have shortest : Hydration.format.Respells (call (.string "context") [.null])
      (call (.string "context") []) :=
    .plain (.here (.shorter [_, _, _] rfl))
  have named : Hydration.format.Respells (call (.string "context") [])
      (call (.object [("context", .null)]) []) :=
    .plain <| .arrayMember [_, _] [] (.afterRequired (.afterRequired .list)) <| .item [] [] <|
      .plain <| .objectMember [_] [] (.afterRequired .required) <|
      .plain <| .objectMember [] [_] .required <| .here .name
  have h : Relation.EqvGen JsonType.payload.format.Respells object array :=
    .trans _ _ _ whole <| .trans _ _ _ (within inOrder) <| .trans _ _ _ (within shorter) <|
      .trans _ _ _ (within shortest) (within named)
  exact ⟨h, ⟨_, rfl⟩, JsonType.payload.read_eq_ok_iff_of_respelled h⟩

/-- Names in the content of an object may also be spelled with an empty object, and the tag is a
name like any other; neither is so in an array. -/
theorem JsonType.object_read_array_not_read :
    let object (tag content : Json) : Json := .object [("kind", tag), ("definition", content)]
    let array (tag content : Json) : Json := .array [tag, content]
    let source : Json :=
      .object [("kind", .object [("context", .object [])]), ("path", .array [.string "x"])]
    let hydration : Json := .object [("service_name", .string "S"),
      ("top_level_field", .string "f"),
      ("arguments", .array [.object [("name", .string "a"), ("source", source)]])]
    let mapping : Json := .object [("input_path", .array [.string "a"])]
    (∃ v, JsonType.payload.format.read (object (.string "hydration") hydration) = .ok v) ∧
    JsonType.payload.format.read (array (.string "hydration") hydration) = .error .form ∧
    (∃ v, JsonType.payload.format.read (object (.object [("mapping", .null)]) mapping) = .ok v) ∧
    JsonType.payload.format.read (array (.object [("mapping", .null)]) mapping) = .error .form :=
  ⟨⟨_, rfl⟩, rfl, ⟨_, rfl⟩, rfl⟩

end SchemaStitching
