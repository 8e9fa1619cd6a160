import SchemaStitching.Format
import SchemaStitching.Json

/-! Reading by formats.  The members of an object may come in any order and among unknown ones.

A value may be wrong in several places, and the first of them is reported.  The members of an object
count in the order of their names, items and positions of arrays in their own order, and the absence
of a member comes after all members that are there.  A rule of the type is checked only once the
value has been read in full. -/

namespace SchemaStitching

/-- Why a JSON value cannot be read. -/
inductive ReadFault where
  /-- The value does not have the form that is asked for. -/
  | form
  /-- The value has the form asked for and breaks a rule of its type. -/
  | rule (fault : Fault)
  deriving DecidableEq

/-- What may stand beside a name that is given as an object with one member. -/
inductive Leniency where
  /-- Only `null`. -/
  | strict
  /-- Also an empty object. -/
  | lenient
  deriving DecidableEq

/-- The name that a JSON value gives: a string, or an object whose one member has that name and no
value. -/
def Json.name? (leniency : Leniency) : Json → Option String
  | .string name => some name
  | .object [(name, .null)] => some name
  | .object [(name, .object [])] => if leniency = .lenient then some name else none
  | _ => none

/-- The whole number that a JSON value is, if it is less than the given bound. -/
def Json.natBelow? (bound : Nat) : Json → Option { n : Nat // n < bound }
  | .int (.ofNat n) => if h : n < bound then some ⟨n, h⟩ else none
  | _ => none

/-- The items of an array, each read by `read`. -/
def Json.readItems {α : Type} (read : Json → Except ReadFault α) :
    Json → Except ReadFault (List α)
  | .array items => items.mapM read
  | _ => .error .form

/-- The value read by `read`, unless it is `null`. -/
def Json.readNullable {α : Type} (read : Json → Except ReadFault α) :
    Json → Except ReadFault (Option α)
  | .null => .ok none
  | j => some <$> read j

/-- What reading members of an object comes to. -/
inductive Outcome (α : Type) where
  | value (value : α)
  /-- A required member is missing, and nothing is wrong with the members that are there. -/
  | missing
  /-- The value of the named member cannot be read. -/
  | faulty (name : String) (fault : ReadFault)

namespace Outcome

variable {α β : Type}

/-- Both values; otherwise the fault of the member whose name comes first. -/
def both : Outcome α → Outcome β → Outcome (α × β)
  | value a, value b => value (a, b)
  | faulty m e, faulty n f => if m ≤ n then faulty m e else faulty n f
  | faulty m e, _ => faulty m e
  | _, faulty n f => faulty n f
  | _, _ => missing

/-- What reading the member of the given name comes to, where `absent` is for an object without
it. -/
def ofMember (given : List (String × Json)) (name : String) (read : Json → Except ReadFault α)
    (absent : Outcome α) : Outcome α :=
  match Json.member? given name with
  | none => absent
  | some j =>
    match read j with
    | .ok a => value a
    | .error fault => faulty name fault

/-- The value; a missing member is a fault of form. -/
def toExcept : Outcome α → Except ReadFault α
  | value a => .ok a
  | missing => .error .form
  | faulty _ fault => .error fault

end Outcome

mutual

/-- The value that a JSON value is the form of, or what is wrong with it.  The content of a union
that is given as an object is set aside until the tag is known, and names in it are then read
leniently.  The tag of such a union is a name like any other; the tag of a union that is given as an
array is a string. -/
def Format.readAs : {α : Type} → Format α → Leniency → Json → Except ReadFault α
  | _, .word32, _, j =>
    match j.natBelow? UInt32.size with
    | some n => .ok (.ofNatLT n.val n.property)
    | none => .error .form
  | _, .word64, _, j =>
    match j.natBelow? UInt64.size with
    | some n => .ok (.ofNatLT n.val n.property)
    | none => .error .form
  | _, .text, _, .string s => .ok s
  | _, .text, _, _ => .error .form
  | _, .named _ ofName? _, leniency, j =>
    match (j.name? leniency).bind ofName? with
    | some a => .ok a
    | none => .error .form
  | _, .list item, leniency, j => j.readItems (item.readAs leniency)
  | _, .record members, leniency, .object given => (members.readObject leniency given).toExcept
  | _, .record members, leniency, .array js => members.readArray leniency js
  | _, .record _, _, _ => .error .form
  | _, .union left leftContent right rightContent _, leniency, .object given =>
    match (Json.member? given Format.tagName).bind (Json.name? leniency),
        Json.member? given Format.contentName with
    | some tag, some content =>
      if tag = left then .inl <$> leftContent.readAs .lenient content
      else if tag = right then .inr <$> rightContent.readAs .lenient content
      else .error .form
    | _, _ => .error .form
  | _, .union left leftContent right rightContent _, leniency,
      .array (.string tag :: content :: more) => do
    let value ←
      if tag = left then .inl <$> leftContent.readAs leniency content
      else if tag = right then .inr <$> rightContent.readAs leniency content
      else .error .form
    if more.isEmpty then .ok value else .error .form
  | _, .union .., _, _ => .error .form
  | _, .checked plain build _ _, leniency, j => do
    match build (← plain.readAs leniency j) with
    | .ok b => .ok b
    | .error fault => .error (.rule fault)

/-- The members of a record, read from the members of an object. -/
def Members.readObject : {α : Type} → Members α → Leniency → List (String × Json) → Outcome α
  | _, .none, _, _ => .value ()
  | _, .required name value rest, leniency, given =>
    (Outcome.ofMember given name (value.readAs leniency) .missing).both
      (rest.readObject leniency given)
  | _, .optional name value rest, leniency, given =>
    (Outcome.ofMember given name (Json.readNullable (value.readAs leniency)) (.value none)).both
      (rest.readObject leniency given)
  | _, .list name item _ rest, leniency, given =>
    (Outcome.ofMember given name (Json.readItems (item.readAs leniency)) (.value [])).both
      (rest.readObject leniency given)

/-- The members of a record, read from the items of an array.  Members that may be missing may be
left off the end. -/
def Members.readArray : {α : Type} → Members α → Leniency → List Json → Except ReadFault α
  | _, .none, _, [] => .ok ()
  | _, .none, _, _ :: _ => .error .form
  | _, .required .., _, [] => .error .form
  | _, .required _ value rest, leniency, j :: js => do
    return (← value.readAs leniency j, ← rest.readArray leniency js)
  | _, .optional _ _ rest, leniency, [] => do
    return (none, ← rest.readArray leniency [])
  | _, .optional _ value rest, leniency, j :: js => do
    return (← j.readNullable (value.readAs leniency), ← rest.readArray leniency js)
  | _, .list _ _ _ rest, leniency, [] => do
    return ([], ← rest.readArray leniency [])
  | _, .list _ item _ rest, leniency, j :: js => do
    return (← j.readItems (item.readAs leniency), ← rest.readArray leniency js)

end

/-- The value that a JSON value is the form of, or what is wrong with it. -/
def Format.read {α : Type} (format : Format α) (j : Json) : Except ReadFault α :=
  format.readAs .strict j

end SchemaStitching
