import SchemaStitching.Format
import SchemaStitching.Json

/-! Writing by formats: the JSON forms of values. -/

namespace SchemaStitching

mutual

/-- The JSON form of a value. -/
def Format.write : {α : Type} → Format α → α → Json
  | _, .word32, n => .int n.toNat
  | _, .word64, n => .int n.toNat
  | _, .text, s => .string s
  | _, .named name _ _, a => .string (name a)
  | _, .list item, as => .array (as.map item.write)
  | _, .record members, a => .object (members.write a)
  | _, .union left leftContent _ _ _, .inl a =>
    .object [(Format.tagName, .string left), (Format.contentName, leftContent.write a)]
  | _, .union _ _ right rightContent _, .inr b =>
    .object [(Format.tagName, .string right), (Format.contentName, rightContent.write b)]
  | _, .checked plain _ parts _, b => plain.write (parts b)

/-- The members of the JSON form of a record. -/
def Members.write : {α : Type} → Members α → α → List (String × Json)
  | _, .none, () => []
  | _, .required name value rest, (a, b) => (name, value.write a) :: rest.write b
  | _, .optional _ _ rest, (.none, b) => rest.write b
  | _, .optional name value rest, (.some a, b) => (name, value.write a) :: rest.write b
  | _, .list name item keepEmpty rest, (as, b) =>
    if as.isEmpty && !keepEmpty then rest.write b
    else (name, .array (as.map item.write)) :: rest.write b

end

end SchemaStitching
