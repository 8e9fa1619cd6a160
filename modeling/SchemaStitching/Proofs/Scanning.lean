import SchemaStitching.Proofs.Shapes

/-! What reading makes of sites.  A value of the right shape is read if all its sites are lawful,
and the sites of what is read are those of the JSON value, in the order of declaration; otherwise
the first unlawful site is reported, in the order of reading.  Each way to build a format keeps
this, so that it is shown of a type by going through its format. -/

namespace SchemaStitching

section results

variable {α β : Type} {first rest sites : List Site} {p : α → Prop} {q : β → Prop}

/-- A reading that comes to the given sites: it gives a value with a property, or reports the first
unlawful site. -/
def Reads (sites : List Site) (p : α → Prop) (result : Except ReadFault α) : Prop :=
  match sites.findSome? Site.fault? with
  | none => ∃ a, result = .ok a ∧ p a
  | some fault => result = .error (.rule fault)

/-- A reading of a JSON value that comes to the sites that a scan finds, and gives a value with just
these sites. -/
abbrev ReadsExactly (scan : Scan) (sites : α → List Site) (j : Json)
    (result : Except ReadFault α) : Prop :=
  Reads (scan.reading j) (fun a => sites a = scan.declaration j) result

namespace Reads

theorem ok {a : α} (h : p a) : Reads [] p (.ok a) := ⟨a, rfl, h⟩

theorem bind {x : Except ReadFault α} {k : α → Except ReadFault β} (hx : Reads first p x)
    (hk : ∀ a, x = .ok a → p a → Reads rest q (k a)) : Reads (first ++ rest) q (x >>= k) := by
  unfold Reads at hx ⊢
  rw [List.findSome?_append]
  cases hf : first.findSome? Site.fault? with
  | none =>
    rw [hf] at hx
    obtain ⟨a, rfl, ha⟩ := hx
    exact hk a rfl ha
  | some fault =>
    rw [hf] at hx
    rw [hx]
    rfl

theorem map {f : α → β} {x : Except ReadFault α} (hx : Reads sites p x)
    (hf : ∀ a, x = .ok a → p a → q (f a)) : Reads sites q (f <$> x) := by
  unfold Reads at hx ⊢
  split at hx
  · obtain ⟨a, rfl, ha⟩ := hx
    exact ⟨f a, rfl, hf a rfl ha⟩
  · rw [hx]
    rfl

theorem mono {r : α → Prop} {x : Except ReadFault α} (hx : Reads sites p x)
    (h : ∀ a, p a → r a) : Reads sites r x := by
  unfold Reads at hx ⊢
  split at hx
  · obtain ⟨a, ha, hp⟩ := hx
    exact ⟨a, ha, h a hp⟩
  · exact hx

/-- What has been read has come to lawful sites only. -/
theorem of_ok {a : α} (h : Reads sites p (.ok a)) : (∀ site ∈ sites, site.Lawful) ∧ p a := by
  unfold Reads at h
  split at h
  · rename_i hn
    obtain ⟨b, hb, hp⟩ := h
    rw [Except.ok.inj hb]
    exact ⟨fun site hs => Site.fault?_eq_none_iff.mp (List.findSome?_eq_none_iff.mp hn site hs), hp⟩
  · contradiction

theorem exists_ok {x : Except ReadFault α} (h : Reads sites p x)
    (hl : ∀ site ∈ sites, site.Lawful) : ∃ a, x = .ok a := by
  have hn : sites.findSome? Site.fault? = none :=
    List.findSome?_eq_none_iff.mpr fun site hs => Site.fault?_eq_none_iff.mpr (hl site hs)
  unfold Reads at h
  rw [hn] at h
  exact h.imp fun _ ha => ha.1

theorem eq_error {x : Except ReadFault α} {before after : List Site} {site : Site}
    (h : Reads (before ++ site :: after) p x) (hb : ∀ prior ∈ before, prior.Lawful)
    (hs : ¬site.Lawful) : ∃ fault, site.fault? = some fault ∧ x = .error (.rule fault) := by
  obtain ⟨fault, hf⟩ := Option.ne_none_iff_exists'.mp (mt Site.fault?_eq_none_iff.mp hs)
  have hn : before.findSome? Site.fault? = none :=
    List.findSome?_eq_none_iff.mpr fun prior hp => Site.fault?_eq_none_iff.mpr (hb prior hp)
  unfold Reads at h
  rw [List.findSome?_append, hn, List.findSome?_cons, hf] at h
  exact ⟨fault, hf, h⟩

/-- What could not be read has an unlawful site, and the first of these is reported. -/
theorem of_error {fault : ReadFault} (h : Reads sites p (.error fault)) :
    ∃ before site after broken, sites = before ++ site :: after ∧
      (∀ prior ∈ before, prior.Lawful) ∧ site.fault? = some broken ∧ fault = .rule broken := by
  unfold Reads at h
  split at h
  · obtain ⟨a, ha, -⟩ := h
    contradiction
  · rename_i broken hf
    obtain ⟨before, site, after, hs, hb, hn⟩ := List.findSome?_eq_some_iff.mp hf
    have hl : ∀ prior ∈ before, prior.Lawful :=
      fun prior hp => Site.fault?_eq_none_iff.mp (hn prior hp)
    exact ⟨before, site, after, broken, hs, hl, hb, Except.error.inj h⟩

theorem pair {x : Except ReadFault α} {y : Except ReadFault β} (hx : Reads first p x)
    (hy : Reads rest q y) :
    Reads (first ++ rest) (fun (a, b) => p a ∧ q b) (do return (← x, ← y)) := by
  refine hx.bind fun a _ ha => ?_
  rw [← List.append_nil rest]
  exact hy.bind fun b _ hb => ok ⟨ha, hb⟩

end Reads

end results

theorem Reads.mapM {α : Type} {item : Scan} {sites : α → List Site}
    {read : Json → Except ReadFault α} {items : List Json}
    (h : ∀ j ∈ items, ReadsExactly item sites j (read j)) :
    Reads (items.flatMap item.reading)
      (fun as => as.flatMap sites = items.flatMap item.declaration) (items.mapM read) := by
  induction items with
  | nil => exact ok rfl
  | cons j items ih =>
    rw [List.forall_mem_cons] at h
    rw [List.mapM_cons, List.flatMap_cons, ← List.append_nil (items.flatMap item.reading)]
    refine h.1.bind fun a _ ha => (ih h.2).bind fun as _ has => ok ?_
    rw [List.flatMap_cons, List.flatMap_cons, ha, has]

/-! ### The first unlawful site of a record -/

namespace Outcome

variable {α β : Type} {p : α → Prop} {q : β → Prop}

/-- Of two members with faults, the one whose name comes first. -/
def earliest : Option (String × Fault) → Option (String × Fault) → Option (String × Fault)
  | some (m, e), some (n, f) => if m ≤ n then some (m, e) else some (n, f)
  | some found, none => some found
  | none, found => found

/-- Members of an object that give a value with a property, or the fault of the named member. -/
def Finds (found : Option (String × Fault)) (p : α → Prop) (outcome : Outcome α) : Prop :=
  match found with
  | none => ∃ a, outcome = .value a ∧ p a
  | some (name, fault) => outcome = .faulty name (.rule fault)

theorem Finds.mono {r : α → Prop} {found : Option (String × Fault)} {x : Outcome α}
    (hx : x.Finds found p) (h : ∀ a, p a → r a) : x.Finds found r := by
  unfold Finds at hx ⊢
  split at hx
  · obtain ⟨a, ha, hp⟩ := hx
    exact ⟨a, ha, h a hp⟩
  · exact hx

theorem Finds.both {x : Outcome α} {y : Outcome β} {left right : Option (String × Fault)}
    (hx : x.Finds left p) (hy : y.Finds right q) :
    (x.both y).Finds (earliest left right) fun (a, b) => p a ∧ q b := by
  match left, right with
  | none, none =>
    obtain ⟨a, rfl, ha⟩ := hx
    obtain ⟨b, rfl, hb⟩ := hy
    exact ⟨(a, b), rfl, ha, hb⟩
  | none, some (n, f) =>
    obtain ⟨a, rfl, -⟩ := hx
    rw [Finds] at hy
    rw [hy]
    rfl
  | some (m, e), none =>
    obtain ⟨b, rfl, -⟩ := hy
    rw [Finds] at hx
    rw [hx]
    rfl
  | some (m, e), some (n, f) =>
    rw [Finds] at hx hy
    rw [hx, hy, Outcome.both, earliest]
    split <;> rfl

end Outcome

namespace Scan

/-- The first unlawful site of a member, with the name of the member. -/
def memberFault (member : String × List Site) : Option (String × Fault) :=
  (member.2.findSome? Site.fault?).map fun fault => (member.1, fault)

def firstFault (members : List (String × List Site)) : Option (String × Fault) :=
  members.findSome? memberFault

theorem firstFault_cons (member : String × List Site) (members : List (String × List Site)) :
    firstFault (member :: members) = (memberFault member).or (firstFault members) := by
  rw [firstFault, List.findSome?_cons]
  cases memberFault member <;> rfl

theorem findSome?_flatMap_snd (members : List (String × List Site)) :
    (members.flatMap Prod.snd).findSome? Site.fault? = (firstFault members).map Prod.snd := by
  induction members with
  | nil => rfl
  | cons member members ih =>
    rw [List.flatMap_cons, List.findSome?_append, ih, firstFault_cons, memberFault]
    cases member.2.findSome? Site.fault? <;> rfl

theorem name_of_memberFault {member : String × List Site} {name : String} {fault : Fault}
    (h : memberFault member = some (name, fault)) : member.1 = name := by
  obtain ⟨_, -, he⟩ := Option.map_eq_some_iff.mp h
  exact congrArg Prod.fst he

instance {α : Type} : Std.Total (ByName (α := α)) := ⟨fun a b => String.le_total a.1 b.1⟩

instance {α : Type} : IsTrans (String × α) ByName := ⟨fun _ _ _ => String.le_trans⟩

/-- Where members are in the order of their names, one more that is put among them is the first with
a fault exactly if its name comes first. -/
theorem firstFault_orderedInsert (member : String × List Site)
    {members : List (String × List Site)} (h : members.Pairwise ByName) :
    firstFault (members.orderedInsert ByName member) =
      Outcome.earliest (memberFault member) (firstFault members) := by
  induction members with
  | nil =>
    rw [List.orderedInsert_nil, firstFault_cons]
    cases memberFault member <;> rfl
  | cons next members ih =>
    rw [List.pairwise_cons] at h
    by_cases hle : ByName member next
    -- The member goes first, and the name of any fault further on is no earlier than `next`.
    · rw [List.orderedInsert_cons_of_le _ _ hle, firstFault_cons]
      match hm : memberFault member, hf : firstFault (next :: members) with
      | none, none | none, some _ | some _, none => rfl
      | some (m, e), some (n, f) =>
        obtain ⟨other, ho, hn⟩ := List.exists_of_findSome?_eq_some hf
        have hle' : next.1 ≤ other.1 := by
          rcases List.mem_cons.mp ho with rfl | ho
          · exact String.le_refl _
          · exact h.1 other ho
        have hmn : m ≤ n := by
          rw [← name_of_memberFault hm, ← name_of_memberFault hn]
          exact String.le_trans hle hle'
        rw [Outcome.earliest, if_pos hmn]
        rfl
    · rw [List.orderedInsert_of_not_le _ _ hle, firstFault_cons, firstFault_cons, ih h.2]
      match hm : memberFault member, hn : memberFault next with
      | none, none | none, some _ | some _, none => rfl
      | some (m, e), some (n, f) =>
        have hmn : ¬m ≤ n := by
          rw [← name_of_memberFault hm, ← name_of_memberFault hn]
          exact hle
        rw [Option.some_or, Option.some_or, Outcome.earliest, if_neg hmn]

end Scan

/-! ### Formats and their scans -/

/-- Reading a value of the right shape comes to the sites that the scan finds, and gives a value
with just these sites. -/
def Format.ScannedBy {α : Type} (format : Format α) (scan : Scan) (sites : α → List Site) : Prop :=
  ∀ leniency j, format.fits leniency j → ReadsExactly scan sites j (format.readAs leniency j)

/-- The same for the members of a record, which may be given by an object or an array. -/
structure Members.ScannedBy {α : Type} (members : Members α) (scans : List (String × Scan))
    (sites : α → List Site) : Prop where
  object : ∀ leniency given place, members.fits leniency (.object given) place →
    (members.readObject leniency given).Finds
      (Scan.firstFault
        ((Scan.memberSites Scan.reading (.object given) scans place).insertionSort Scan.ByName))
      fun a => sites a =
        (Scan.memberSites Scan.declaration (.object given) scans place).flatMap Prod.snd
  array : ∀ leniency items place, items.length ≤ place + members.names.length →
    members.fits leniency (.array items) place →
    Reads ((Scan.memberSites Scan.reading (.array items) scans place).flatMap Prod.snd)
      (fun a => sites a =
        (Scan.memberSites Scan.declaration (.array items) scans place).flatMap Prod.snd)
      (members.readArray leniency (items.drop place))

section members

variable {α β : Type} {scan : Scan} {sites : α → List Site} {read : Json → Except ReadFault α}

theorem Outcome.finds_ofMember {given : List (String × Json)} {name : String} (place : Nat)
    {otherwise : Outcome α}
    (h : ∀ part ∈ Json.member? given name, ReadsExactly scan sites part (read part))
    (ho : Json.member? given name = none → ∃ a, otherwise = .value a ∧ sites a = []) :
    (ofMember given name read otherwise).Finds
      (Scan.memberFault (name, Scan.partSites name place scan.reading (.object given)))
      fun a => sites a = Scan.partSites name place scan.declaration (.object given) := by
  rw [ofMember, Scan.partSites, Scan.partSites, Json.part?, Scan.memberFault]
  cases hj : Json.member? given name with
  | none => exact ho hj
  | some part =>
    have hr : ReadsExactly scan sites part (read part) := h part hj
    show Finds (((scan.reading part).findSome? Site.fault?).map _)
      (fun a => sites a = scan.declaration part) _
    unfold ReadsExactly Reads at hr
    cases hf : (scan.reading part).findSome? Site.fault? with
    | none =>
      rw [hf] at hr
      obtain ⟨a, ha, hp⟩ := hr
      refine ⟨a, ?_, hp⟩
      simp only [ha]
    | some fault =>
      rw [hf] at hr
      show _ = Outcome.faulty name (.rule fault)
      simp only [hr]

/-- A place of an array and the places after it. -/
theorem Reads.ofPlace {items : List Json} {name : String} {place : Nat} {absent : Option α}
    {remaining : List Json → Except ReadFault β} {rest : List Site} {q : β → Prop}
    {whole : Except ReadFault (α × β)}
    (h : ∀ part ∈ (Json.array items).part? name place, ReadsExactly scan sites part (read part))
    (ho : (Json.array items).part? name place = none → ∃ a, absent = some a ∧ sites a = [])
    (hr : Reads rest q (remaining (items.drop (place + 1))))
    (hnil : ∀ a, items.drop place = [] → absent = some a → whole = do return (a, ← remaining []))
    (hcons : ∀ j js, items.drop place = j :: js → whole = do return (← read j, ← remaining js)) :
    Reads (Scan.partSites name place scan.reading (.array items) ++ rest)
      (fun (a, b) => sites a = Scan.partSites name place scan.declaration (.array items) ∧ q b)
      whole := by
  rw [Scan.partSites, Scan.partSites]
  cases hd : items.drop place with
  | nil =>
    obtain ⟨hj, ht⟩ := Json.part?_of_drop_eq_nil name hd
    obtain ⟨a, ha, hs⟩ := ho hj
    rw [hj, hnil a hd ha, ← ht]
    show Reads ([] ++ rest) _ (do return (← Except.ok a, ← remaining _))
    have hp : Reads [] (fun a => sites a = []) (.ok a) := ok hs
    exact pair hp hr
  | cons j js =>
    obtain ⟨hj, ht⟩ := Json.part?_of_drop_eq_cons name hd
    rw [hj, hcons j js hd, ← ht]
    exact pair (h j hj) hr

end members

theorem Format.reads_items {α : Type} {item : Format α} {scan : Scan} {sites : α → List Site}
    (h : item.ScannedBy scan sites) {leniency : Leniency} {j : Json}
    (hf : j.allItems (item.fits leniency)) :
    ReadsExactly (.list scan) (fun as => as.flatMap sites) j
      (j.readItems (item.readAs leniency)) := by
  cases j with
  | array items =>
    rw [Json.allItems, List.all_eq_true] at hf
    exact Reads.mapM fun part hp => h leniency part (hf part hp)
  | null | bool | int | decimal | string | object => contradiction

namespace Members.ScannedBy

theorem none : Members.none.ScannedBy [] fun _ => [] where
  object _ _ _ _ := ⟨(), rfl, rfl⟩
  array leniency items place hl _ := by
    have hd : items.drop place = [] := List.drop_eq_nil_iff.mpr hl
    rw [hd]
    exact Reads.ok rfl

section member

variable {α β : Type} {name : String} {scan : Scan} {sites : α → List Site} {rest : Members β}
  {scans : List (String × Scan)} {restSites : β → List Site}

/-- One more member, whatever its kind.  The kinds differ in how the member is read and in what
stands for it if it is missing. -/
theorem member {members : Members (α × β)} (read : Leniency → Json → Except ReadFault α)
    (absent : Option α) (otherwise : Outcome α) (sites : α → List Site)
    (hrest : rest.ScannedBy scans restSites)
    (hnames : members.names = name :: rest.names)
    (hread : ∀ {leniency j place}, members.fits leniency j place →
      ∀ part ∈ j.part? name place, ReadsExactly scan sites part (read leniency part))
    (habsent : ∀ {leniency j place}, members.fits leniency j place →
      j.part? name place = .none → ∃ a, absent = some a ∧ sites a = [])
    (hfits : ∀ {leniency j place}, members.fits leniency j place →
      rest.fits leniency j (place + 1))
    (hotherwise : ∀ {a}, absent = some a → otherwise = .value a)
    (hobject : ∀ leniency given, members.readObject leniency given =
      (Outcome.ofMember given name (read leniency) otherwise).both (rest.readObject leniency given))
    (hnil : ∀ leniency a, absent = some a →
      members.readArray leniency [] = do return (a, ← rest.readArray leniency []))
    (hcons : ∀ leniency j js, members.readArray leniency (j :: js) = do
      return (← read leniency j, ← rest.readArray leniency js)) :
    members.ScannedBy ((name, scan) :: scans) fun (a, b) => sites a ++ restSites b where
  object leniency given place h := by
    have ho := hrest.object leniency given (place + 1) (hfits h)
    have hm : (Outcome.ofMember given name (read leniency) otherwise).Finds _ _ :=
      Outcome.finds_ofMember place (hread h) fun hn =>
        (habsent h hn).imp fun _ ha => ⟨hotherwise ha.1, ha.2⟩
    -- Sorting puts the member in its place among those after it, which are sorted already.
    rw [hobject, Scan.memberSites, List.insertionSort_cons,
      Scan.firstFault_orderedInsert _ (List.pairwise_insertionSort ..)]
    exact (hm.both ho).mono fun _ hp => congrArg₂ (· ++ ·) hp.1 hp.2
  array leniency items place hl h := by
    have hl' : items.length ≤ place + 1 + rest.names.length := by
      rw [hnames, List.length_cons] at hl
      omega
    have hr := hrest.array leniency items (place + 1) hl' (hfits h)
    rw [Scan.memberSites, List.flatMap_cons]
    exact (Reads.ofPlace (hread h) (habsent h) hr (fun a hd ha => by rw [hd, hnil _ a ha])
      fun j js hd => by rw [hd, hcons]).mono fun _ hp => congrArg₂ (· ++ ·) hp.1 hp.2

theorem required {value : Format α} (h : value.ScannedBy scan sites)
    (hrest : rest.ScannedBy scans restSites) :
    (Members.required name value rest).ScannedBy ((name, scan) :: scans)
      fun (a, b) => sites a ++ restSites b := by
  have hf {leniency : Leniency} {j : Json} {place : Nat}
      (hf : (Members.required name value rest).fits leniency j place) :
      (∃ part, j.part? name place = some part ∧ value.fits leniency part) ∧
        rest.fits leniency j (place + 1) := by
    rwa [fits, Bool.and_eq_true, Option.any_eq_true] at hf
  refine member value.readAs .none .missing sites hrest rfl (fun hj part hp => ?_) (fun hj hn => ?_)
    (fun hj => (hf hj).2) nofun (fun _ _ => by rw [readObject]) nofun
    (fun _ _ _ => by rw [readArray])
  · obtain ⟨other, ho, hv⟩ := (hf hj).1
    rw [ho] at hp
    exact Option.some.inj hp ▸ h _ _ hv
  · obtain ⟨part, hp, -⟩ := (hf hj).1
    rw [hn] at hp
    contradiction

theorem optional {value : Format α} (h : value.ScannedBy scan sites)
    (hs : scan.reading .null = [])
    (hrest : rest.ScannedBy scans restSites) :
    (Members.optional name value rest).ScannedBy ((name, scan) :: scans)
      fun (a, b) => a.toList.flatMap sites ++ restSites b := by
  have hf {leniency : Leniency} {j : Json} {place : Nat}
      (hf : (Members.optional name value rest).fits leniency j place) :
      (∀ part ∈ j.part? name place, part.isNull || value.fits leniency part) ∧
        rest.fits leniency j (place + 1) := by
    rwa [fits, Bool.and_eq_true, Option.all_eq_true] at hf
  refine member (fun leniency => Json.readNullable (value.readAs leniency)) (some .none)
    (.value .none) (fun a => a.toList.flatMap sites) hrest rfl (fun hj part hp => ?_)
    (fun _ _ => ⟨.none, rfl, rfl⟩) (fun hj => (hf hj).2)
    (fun ha => congrArg Outcome.value (Option.some.inj ha)) (fun _ _ => by rw [readObject])
    (fun _ a ha => by rw [readArray, ← Option.some.inj ha]) (fun _ _ _ => by rw [readArray])
  have hv := (hf hj).1 part hp
  cases part with
  | null =>
    have hd : scan.declaration .null = [] := (hs ▸ scan.perm .null).nil_eq.symm
    rw [ReadsExactly, hs, hd]
    exact Reads.ok rfl
  | bool | int | decimal | string | array | object =>
    refine (h _ _ hv).map fun a _ ha => ?_
    simpa using ha

theorem list {item : Format α} {keepEmpty : Bool} (h : item.ScannedBy scan sites)
    (hrest : rest.ScannedBy scans restSites) :
    (Members.list name item keepEmpty rest).ScannedBy ((name, .list scan) :: scans)
      fun (as, b) => as.flatMap sites ++ restSites b := by
  have hf {leniency : Leniency} {j : Json} {place : Nat}
      (hf : (Members.list name item keepEmpty rest).fits leniency j place) :
      (∀ part ∈ j.part? name place, part.allItems (item.fits leniency)) ∧
        rest.fits leniency j (place + 1) := by
    rwa [fits, Bool.and_eq_true, Option.all_eq_true] at hf
  exact member (fun leniency => Json.readItems (item.readAs leniency)) (some []) (.value [])
    (fun as => as.flatMap sites) hrest rfl
    (fun hj part hp => Format.reads_items h ((hf hj).1 part hp)) (fun _ _ => ⟨[], rfl, rfl⟩)
    (fun hj => (hf hj).2) (fun ha => congrArg Outcome.value (Option.some.inj ha))
    (fun _ _ => by rw [readObject]) (fun _ a ha => by rw [readArray, ← Option.some.inj ha])
    (fun _ _ _ => by rw [readArray])

end member

end Members.ScannedBy

theorem Json.name?_lenient {leniency : Leniency} {j : Json} {name : String}
    (h : j.name? leniency = some name) : j.name? .lenient = some name := by
  cases leniency with
  | lenient => exact h
  | strict =>
    unfold name? at h ⊢
    split at h <;> simp_all

theorem Json.bind_name?_lenient {leniency : Leniency} {part : Option Json} {name : String}
    (h : part.bind (Json.name? leniency) = some name) :
    part.bind (Json.name? .lenient) = some name := by
  obtain ⟨j, hj, hn⟩ := Option.bind_eq_some_iff.mp h
  rw [hj]
  exact name?_lenient hn

theorem Reads.choice {α : Type} {isLeft isRight : Prop} [Decidable isLeft] [Decidable isRight]
    {x y z : Except ReadFault α} {leftFits rightFits : Bool}
    {left right declaredLeft declaredRight : List Site} {sites : α → List Site}
    (h : (if isLeft then leftFits else if isRight then rightFits else false) = true)
    (hl : leftFits → Reads left (fun a => sites a = declaredLeft) x)
    (hr : rightFits → Reads right (fun a => sites a = declaredRight) y) :
    Reads (if isLeft then left else if isRight then right else [])
      (fun a => sites a = if isLeft then declaredLeft else if isRight then declaredRight else [])
      (if isLeft then x else if isRight then y else z) := by
  by_cases hil : isLeft
  · simp only [if_pos hil] at h ⊢
    exact hl h
  simp only [if_neg hil] at h ⊢
  by_cases hir : isRight
  · simp only [if_pos hir] at h ⊢
    exact hr h
  · rw [if_neg hir] at h
    contradiction

namespace Format.ScannedBy

variable {α β : Type} {scan leftScan rightScan : Scan} {sites : α → List Site}

theorem word32 : Format.word32.ScannedBy .nothing fun _ => [] := by
  intro leniency j h
  rw [fits, Option.isSome_iff_exists] at h
  obtain ⟨n, hn⟩ := h
  rw [readAs, hn]
  exact Reads.ok rfl

theorem word64 : Format.word64.ScannedBy .nothing fun _ => [] := by
  intro leniency j h
  rw [fits, Option.isSome_iff_exists] at h
  obtain ⟨n, hn⟩ := h
  rw [readAs, hn]
  exact Reads.ok rfl

theorem text : Format.text.ScannedBy .nothing fun _ => [] := by
  intro leniency j h
  cases j with
  | string s => exact Reads.ok rfl
  | null | bool | int | decimal | array | object => contradiction

theorem named {name : α → String} {ofName? : String → Option α}
    {ofName?_name : ∀ a, ofName? (name a) = some a} :
    (Format.named name ofName? ofName?_name).ScannedBy .nothing fun _ => [] := by
  intro leniency j h
  rw [fits, Option.isSome_iff_exists] at h
  obtain ⟨a, ha⟩ := h
  rw [readAs, ha]
  exact Reads.ok rfl

theorem list {item : Format α} (h : item.ScannedBy scan sites) :
    (Format.list item).ScannedBy (.list scan) fun as => as.flatMap sites := by
  intro leniency j hj
  rw [fits] at hj
  rw [readAs]
  exact Format.reads_items h hj

theorem record {members : Members α} {scans : List (String × Scan)}
    (h : members.ScannedBy scans sites) :
    (Format.record members).ScannedBy (.record scans) sites := by
  intro leniency j hj
  rw [fits, Bool.and_eq_true] at hj
  cases j with
  | object given =>
    have ho := h.object leniency given 0 hj.2
    rw [readAs]
    unfold ReadsExactly Reads
    rw [Scan.record, Scan.findSome?_flatMap_snd]
    match hf : Scan.firstFault
        ((Scan.memberSites Scan.reading (.object given) scans 0).insertionSort Scan.ByName) with
    | none =>
      rw [hf] at ho
      obtain ⟨a, ha, hp⟩ := ho
      rw [ha]
      exact ⟨a, rfl, hp⟩
    | some (name, fault) =>
      rw [hf] at ho
      rw [show members.readObject leniency given = .faulty name (.rule fault) from ho]
      rfl
  | array items =>
    have hl := of_decide_eq_true hj.1
    rw [readAs]
    exact h.array leniency items 0 (by rwa [Nat.zero_add]) hj.2
  | null | bool | int | decimal | string => exact nomatch hj.1

theorem union {left right : String} {hne : left ≠ right} {leftContent : Format α}
    {rightContent : Format β} {rightSites : β → List Site}
    (hl : leftContent.ScannedBy leftScan sites) (hr : rightContent.ScannedBy rightScan rightSites) :
    (Format.union left leftContent right rightContent hne).ScannedBy
      (.union left leftScan right rightScan) (Sum.elim sites rightSites) := by
  intro leniency j hj
  match j, hj with
  | .object given, hj =>
    rw [fits] at hj
    split at hj
    · rename_i tag content ht hc
      rw [readAs, ht, hc]
      simp only [ReadsExactly, Scan.union, Scan.contentSites, Json.part?,
        Json.bind_name?_lenient ht, hc]
      exact Reads.choice hj (fun hj => (hl _ _ hj).map fun _ _ hp => hp)
        fun hj => (hr _ _ hj).map fun _ _ hp => hp
    · contradiction
  | .array [.string tag, content], hj =>
    rw [fits] at hj
    rw [readAs]
    have hk {γ : Type} (x : Except ReadFault γ) :
        (x >>= fun value => if [].isEmpty (α := Json) then .ok value else .error .form) = x :=
      bind_pure x
    refine Reads.choice hj (fun hj => ?_) fun hj => ?_
    · rw [hk]
      exact (hl _ _ hj).map fun _ _ hp => hp
    · rw [hk]
      exact (hr _ _ hj).map fun _ _ hp => hp

/-- A format with rules of its own, which are checked when the plain value has been read. -/
theorem checked {plain : Format α} {build : α → Except Fault β} {parts : β → α}
    {build_parts : ∀ b, build (parts b) = .ok b} {own : Scan} {builtSites : β → List Site}
    (h : plain.ScannedBy scan sites)
    (ho : ∀ {leniency j a}, plain.readAs leniency j = .ok a →
      match (own.reading j).findSome? Site.fault? with
      | none => ∃ b, build a = .ok b ∧ builtSites b = sites a ++ own.declaration j
      | some fault => build a = .error fault) :
    (Format.checked plain build parts build_parts).ScannedBy (scan ++ own) builtSites := by
  intro leniency j hj
  rw [fits] at hj
  rw [readAs]
  refine (h leniency j hj).bind fun a ha hp => ?_
  have hb := ho ha
  unfold Reads
  split at hb
  · obtain ⟨b, hb, hs⟩ := hb
    rw [hb]
    exact ⟨b, rfl, hs.trans (congrArg (· ++ _) hp)⟩
  · rw [hb]

theorem built {plain : Format α} {build : α → β} {parts : β → α}
    {build_parts : ∀ b, build (parts b) = b} {builtSites : β → List Site}
    (h : plain.ScannedBy scan sites) (hs : ∀ a, builtSites (build a) = sites a) :
    (Format.built plain build parts build_parts).ScannedBy scan builtSites := by
  intro leniency j hj
  rw [Format.built, fits] at hj
  rw [ReadsExactly, Format.built, readAs, ← List.append_nil (scan.reading j)]
  exact (h leniency j hj).bind fun a _ hp => Reads.ok ((hs a).trans hp)

end Format.ScannedBy

end SchemaStitching
