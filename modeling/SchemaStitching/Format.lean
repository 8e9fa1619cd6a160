import SchemaStitching.Fault

/-! Formats: descriptions of how the values of a type look as JSON.

A record is an object of its members, or an array of the members' values in the order of their
declaration.  A union is an object of a tag and a content, or an array of the two.  Writing always
chooses the object; reading takes either. -/

namespace SchemaStitching

mutual

/-- The format of the values of a type. -/
inductive Format : Type → Type 1 where
  | word32 : Format UInt32
  | word64 : Format UInt64
  | text : Format String
  /-- Values that have names. -/
  | named {α : Type} (name : α → String) (ofName? : String → Option α)
      (ofName?_name : ∀ a, ofName? (name a) = some a) : Format α
  | list {α : Type} (item : Format α) : Format (List α)
  | record {α : Type} (members : Members α) : Format α
  /-- Either of two types.  The tag names the type of the content. -/
  | union {α β : Type} (left : String) (leftContent : Format α) (right : String)
      (rightContent : Format β) (left_ne_right : left ≠ right) : Format (α ⊕ β)
  /-- Values that are built from plain ones, which have to keep some rules. -/
  | checked {α β : Type} (plain : Format α) (build : α → Except Fault β) (parts : β → α)
      (build_parts : ∀ b, build (parts b) = .ok b) : Format β

/-- The members of a record, in the order of their declaration. -/
inductive Members : Type → Type 1 where
  | none : Members Unit
  | required {α β : Type} (name : String) (value : Format α) (rest : Members β) : Members (α × β)
  /-- A member that is left out if it has no value, and may also be `null`. -/
  | optional {α β : Type} (name : String) (value : Format α) (rest : Members β) :
      Members (Option α × β)
  /-- A list that may be missing if it is empty, and is left out then unless `keepEmpty` is set. -/
  | list {α β : Type} (name : String) (item : Format α) (keepEmpty : Bool) (rest : Members β) :
      Members (List α × β)

end

namespace Format

/-- The name of the member that holds the tag of a union. -/
def tagName : String := "kind"

/-- The name of the member that holds the content of a union. -/
def contentName : String := "definition"

/-- A format of values that are built from plain ones without any rules. -/
def built {α β : Type} (plain : Format α) (build : α → β) (parts : β → α)
    (build_parts : ∀ b, build (parts b) = b) : Format β :=
  .checked plain (fun a => .ok (build a)) parts fun b => congrArg Except.ok (build_parts b)

end Format

end SchemaStitching
